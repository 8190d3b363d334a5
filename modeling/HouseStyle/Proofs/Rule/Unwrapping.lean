import HouseStyle.Proofs.Rule.Repairs

/-! Taking the parentheses of a loop header away. That is a repair as long as the last token inside
them is no line comment, which would then run on behind them, and no slash that would come to stand
before another one. -/

namespace HouseStyle

open Outline Rule

/-- The last token strictly inside a span that is not white space. -/
def lastInside (text : Text) (span : Span) : Option Token :=
  ((tokenize text).filter fun t => span.start < t.start && t.stop < span.stop && !t.isSpace).getLast?

/-- What a fix must spare for the code to stay apart. Parentheses that go must not end with a line
comment, nor with a slash before another one. Where a grave accent stands alone, no line break may
go, or the line might come to hold a second one. -/
structure Fix.Spares (fix : Fix) (text : Text) : Prop where
  line : fix.description = "Remove the parentheses" →
    ∀ t ∈ lastInside text fix.span, t.isLineComment = false
  slash : fix.description = "Remove the parentheses" →
    ∀ t ∈ lastInside text fix.span, t.text = [.char '/'] →
      (text.drop fix.span.stop).head? ≠ some (.char '/')
  breaks : (∃ t ∈ tokenize text, t.isGrave) →
    (fix.span.slice text).countP Sym.isBreak ≤ fix.insertion.countP Sym.isBreak

variable {text : Text}

theorem lastInside_map_toLexeme {span : Span} {i j : Nat} (hij : i < j)
    (hj : j < (lexemes text).length) (hstart : span.start = offset (lexemes text) i)
    (hstop : span.stop = offset (lexemes text) (j + 1)) :
    (lastInside text span).map (·.toLexeme) =
      ((between (lexemes text) (i + 1) j).filter fun l => !l.isSpace).getLast? := by
  have hlexed := isLexed_lexemes text
  have hlength : (tokenize text).length = (lexemes text).length := by
    rw [← tokenize_map_toLexeme, List.length_map]
  -- A token lies strictly inside the span if its index does.
  have hplace {m : Nat} {t : Token} (ht : (tokenize text)[m]? = some t) :
      (decide (span.start < t.start) && decide (t.stop < span.stop)) = decide (i < m ∧ m < j) := by
    have hm := (List.getElem?_eq_some_iff.mp ht).1
    obtain ⟨-, hbegin, hend⟩ := tokenize_getElem? ht
    rw [hstart, hstop, hbegin, hend, ← Bool.decide_and, decide_eq_decide,
      hlexed.offset_lt_iff (by omega), hlexed.offset_lt_iff (by omega)]
    omega
  have hnone {us : List Token} (hus : ∀ t ∈ us, ∃ m, (tokenize text)[m]? = some t ∧ ¬(i < m ∧ m < j)) :
      us.filter (fun t => span.start < t.start && t.stop < span.stop && !t.isSpace) = [] := by
    rw [List.filter_eq_nil_iff]
    intro t ht
    obtain ⟨m, hm, hout⟩ := hus t ht
    rw [hplace hm, decide_eq_false hout]
    simp
  have hsplit : tokenize text = (tokenize text).take (i + 1) ++
      (((tokenize text).drop (i + 1)).take (j - (i + 1)) ++ (tokenize text).drop j) := by
    conv_lhs => rw [← List.take_append_drop (i + 1) (tokenize text),
      ← List.take_append_drop (j - (i + 1)) ((tokenize text).drop (i + 1)), List.drop_drop,
      Nat.add_sub_cancel' hij]
  have hinside : between (lexemes text) (i + 1) j =
      (((tokenize text).drop (i + 1)).take (j - (i + 1))).map (·.toLexeme) := by
    rw [between, ← tokenize_map_toLexeme, List.map_take, List.map_drop]
  have hlead := @hnone ((tokenize text).take (i + 1)) fun t ht => by
    obtain ⟨m, hm⟩ := List.mem_iff_getElem?.mp ht
    rw [List.getElem?_take] at hm
    split_ifs at hm with hlt
    exact ⟨m, hm, by omega⟩
  have htrail := @hnone ((tokenize text).drop j) fun t ht => by
    obtain ⟨m, hm⟩ := List.mem_iff_getElem?.mp ht
    rw [List.getElem?_drop] at hm
    exact ⟨j + m, hm, by omega⟩
  have hcore : (((tokenize text).drop (i + 1)).take (j - (i + 1))).filter (fun t =>
      span.start < t.start && t.stop < span.stop && !t.isSpace) =
        (((tokenize text).drop (i + 1)).take (j - (i + 1))).filter fun t => !t.isSpace := by
    refine List.filter_congr fun t ht => ?_
    obtain ⟨m, hm⟩ := List.mem_iff_getElem?.mp ht
    rw [List.getElem?_take] at hm
    split_ifs at hm with hlt
    rw [List.getElem?_drop] at hm
    rw [hplace hm, decide_eq_true (by omega), Bool.true_and]
  have hfilter : (tokenize text).filter (fun t =>
      span.start < t.start && t.stop < span.stop && !t.isSpace) =
        (((tokenize text).drop (i + 1)).take (j - (i + 1))).filter fun t => !t.isSpace := by
    conv_lhs => rw [hsplit]
    rw [List.filter_append, List.filter_append, hlead, htrail, hcore, List.nil_append,
      List.append_nil]
  rw [lastInside, hfilter, hinside, List.filter_map, List.getLast?_map]
  rfl

/-- A parenthesis and its partner. -/
theorem Outline.Match.closer {tokens : Array Token} {i j : Nat} (h : Match tokens i j)
    (hi : tokenIs tokens (·.isMark '(') i) : tokenIs tokens (·.isMark ')') j := by
  obtain ⟨-, pair, hpair, hopen, hclose⟩ := h
  obtain ⟨t, ht, hmark⟩ := tokenIs_iff.mp hi
  rw [tokenIs_of_getElem? ht] at hopen
  simp only [Lexeme.isMark, Lexeme.isPunct, Bool.and_eq_true, decide_eq_true_eq] at hmark hopen
  rw [hmark.2] at hopen
  simp only [List.mem_cons, List.not_mem_nil, or_false] at hpair
  rcases hpair with rfl | rfl | rfl
  · exact hclose
  · simp at hopen
  · simp at hopen

theorem Outline.isWrapped_spec {o : Outline} {run : List Nat} {i j : Nat} (h : o.isWrapped run)
    (hends : Parentheses.ends? run = some (i, j)) :
    o.at_ i (·.isMark '(') ∧ o.partner? i = some j := by
  obtain ⟨rest, rfl, hlast⟩ := Parentheses.ends?_spec hends
  rw [Outline.isWrapped, hlast, List.head?_cons] at h
  simp only [Bool.and_eq_true, decide_eq_true_eq] at h
  exact ⟨h.1.2, h.2⟩

/-- The ends of a run in parentheses are a parenthesis and its partner. -/
theorem Context.ReadsWith.match_of_isWrapped {c : Context} {end_ : Text}
    (h : c.ReadsWith text end_) {run : List Nat} {i j : Nat} (hwrapped : c.outline.isWrapped run)
    (hends : Parentheses.ends? run = some (i, j)) (hij : i ≤ j) :
    tokenIs (tokenize text).toArray (·.isMark '(') i ∧ Match (tokenize text).toArray i j := by
  obtain ⟨hopen, hpartner⟩ := Outline.isWrapped_spec hwrapped hends
  rw [Outline.at_, h.tokens] at hopen
  have hmatch := h.sound.partners i j hpartner
  rw [h.tokens] at hmatch
  refine ⟨hopen, hmatch.resolve_right fun hback => ?_⟩
  have := hback.1
  omega

/-- A fix that takes parentheses away, from one token to another one. A blank keeps a keyword before
them and a brace behind them apart from what was in them. -/
structure Fix.Unwraps (fix : Fix) (text : Text) (i j : Nat) (before after : Text) : Prop where
  lt : i < j
  opens : Opens (lexemes text) i
  opener : tokenIs (tokenize text).toArray (·.isMark '(') i
  closer : tokenIs (tokenize text).toArray (·.isMark ')') j
  start : fix.span.start = offset (lexemes text) i
  stop : fix.span.stop = offset (lexemes text) (j + 1)
  insertion : fix.insertion = before ++ Text.strip (joined (between (lexemes text) (i + 1) j)) ++ after
  description : fix.description = "Remove the parentheses"
  enters : ∃ k l, i = k + 1 ∧ (lexemes text)[k]? = some l ∧
    (before = [.char ' '] ∧ l.kind = .keyword ∨ before = [] ∧ l.isTrivia)
  leaves : after = [.char ' '] ∧ (∃ l, (lexemes text)[j + 1]? = some l ∧ l.isMark '{') ∨
    after = [] ∧ ∀ l, (lexemes text)[j + 1]? = some l → l.isMark '{' = false

/-- The fix of a loop header in parentheses takes them away. -/
theorem Context.ReadsWith.exists_unwraps {c : Context} {end_ : Text} (h : c.ReadsWith text end_)
    {s : Segment} (hs : s ∈ c.outline.segments) {rs : List Remark} {r : Remark} {fix : Fix}
    (hrs : Parentheses.unwrapping c (Parentheses.headerTail c.outline s "for") = .ok rs)
    (hr : r ∈ rs) (hfix : r.fix = some fix)
    (hwrapped : c.outline.isWrapped (Parentheses.headerTail c.outline s "for")) :
    ∃ i j before after, Parentheses.ends? (Parentheses.headerTail c.outline s "for") = some (i, j) ∧
      fix.Unwraps text i j before after := by
  obtain ⟨i, j, opener, closer, hends, hopener, hcloser, hspan, hdescription, hnew⟩ :=
    Parentheses.unwrapping_spec hrs hr hfix
  obtain ⟨hij, -, hopens, k, hki, hkeyword, hquiet⟩ := h.opens_header hs hends
  obtain ⟨hstart, hstop, -⟩ := Span.between_spec hspan
  obtain ⟨-, hbegin, hinner⟩ := h.token hopener
  obtain ⟨-, hinner', hend⟩ := h.token hcloser
  obtain ⟨hopen, hmatch⟩ := h.match_of_isWrapped hwrapped hends hij
  have hnew := Fix.insertion_eq hnew
  rw [hinner, hinner', h.sourceOf_offset hmatch.1] at hnew
  refine ⟨i, j, _, _, hends, hmatch.1, hopens, hopen, hmatch.closer hopen, hstart.trans hbegin,
    hstop.trans hend, hnew, hdescription, ?_, ?_⟩
  · obtain ⟨m, rfl⟩ := Nat.exists_eq_add_one_of_ne_zero (Nat.ne_zero_of_lt hki)
    have hl := List.getElem?_eq_getElem (show m < (lexemes text).length by
      have := hopens.lt
      omega)
    refine ⟨m, _, rfl, hl, ?_⟩
    rw [Nat.add_sub_cancel, Outline.at_, h.tokens]
    split_ifs with hfor
    · have hword := tokenIs_lexeme (p := fun l => l.isKeyword ["for"])
        (Bool.and_eq_true_iff.mp hfor).2 hl
      simp only [Lexeme.isKeyword, Bool.and_eq_true, decide_eq_true_eq] at hword
      exact .inl ⟨rfl, hword.1⟩
    · refine .inr ⟨rfl, hquiet m _ ?_ (Nat.lt_succ_self m) hl⟩
      rw [Outline.at_, h.tokens] at hkeyword
      refine lt_of_le_of_ne (Nat.lt_succ_iff.mp hki) ?_
      rintro rfl
      exact hfor (by simp [hkeyword])
  · rw [Outline.at_, h.tokens]
    split_ifs with hbrace
    · exact .inl ⟨rfl, exists_of_tokenIs (p := fun l => l.isMark '{') hbrace⟩
    · refine .inr ⟨rfl, fun l hl => ?_⟩
      obtain ⟨t, ht, rfl⟩ := token_of_lexeme hl
      rw [tokenIs_of_getElem? ht] at hbrace
      simpa using hbrace

namespace Fix.Unwraps

variable {fix : Fix} {i j : Nat} {before after : Text} (h : fix.Unwraps text i j before after)
include h

theorem exists_lastInside {l : Lexeme} (hj : j < (lexemes text).length)
    (hl : l ∈ ((between (lexemes text) (i + 1) j).filter fun l => !l.isSpace).getLast?) :
    ∃ t ∈ lastInside text fix.span, t.toLexeme = l := by
  rw [← lastInside_map_toLexeme h.lt hj h.start h.stop] at hl
  exact Option.map_eq_some_iff.mp hl

/-- A slash at the end of what is in the parentheses does not meet another one. -/
theorem slash (hspares : fix.Spares text) (hj : j < (lexemes text).length) :
    ∀ l ∈ ((between (lexemes text) (i + 1) j).filter fun l => !l.isSpace).getLast?,
      l.text = [.char '/'] → (joined ((lexemes text).drop (j + 1))).head? ≠ some (.char '/') := by
  intro l hl htext
  obtain ⟨t, ht, rfl⟩ := h.exists_lastInside hj hl
  have hjoined : joined (lexemes text) = text := lexemes_join text
  rw [← drop_offset, hjoined, ← h.stop]
  exact hspares.slash h.description t ht htext

end Fix.Unwraps

namespace Context.Reads

variable {c : Context} {r : Remark} {fix : Fix} (h : c.Reads text)
include h

theorem repair_of_unwrapping {s : Segment} (hs : s ∈ c.outline.segments) {rs : List Remark}
    (hrs : Parentheses.unwrapping c (Parentheses.headerTail c.outline s "for") = .ok rs)
    (hr : r ∈ rs) (hfix : r.fix = some fix) (hspares : fix.Spares text)
    (hwrapped : c.outline.isWrapped (Parentheses.headerTail c.outline s "for"))
    (hclosed : ∀ i j, Parentheses.ends? (Parentheses.headerTail c.outline s "for") = some (i, j) →
      Termination.hasUnterminated c.outline i j = false) :
    Repair (lexemes text) fix := by
  obtain ⟨i, j, before, after, hends, hunwraps⟩ :=
    h.with_default.exists_unwraps hs hrs hr hfix hwrapped
  obtain ⟨-, -, hcloses, -⟩ := h.header hs hends (hclosed i j hends)
  obtain ⟨k, l, hk, hl, henters⟩ := hunwraps.enters
  refine .unwrap i j before after hunwraps.opens hcloses hunwraps.lt (by omega)
    (exists_of_tokenIs (p := fun l => l.isMark '(') hunwraps.opener)
    (exists_of_tokenIs (p := fun l => l.isMark ')') hunwraps.closer)
    (henters.imp And.left fun htrivia => ⟨htrivia.1, fun k' l' hk' hl' => ?_⟩)
    (hunwraps.leaves.imp And.left And.left) (fun l hl => ?_) (hunwraps.slash hspares hcloses.lt)
    hunwraps.start hunwraps.stop hunwraps.insertion
  · obtain rfl : k = k' := by omega
    obtain rfl := Option.some.inj (hl.symm.trans hl')
    exact htrivia.2
  · obtain ⟨t, ht, rfl⟩ := hunwraps.exists_lastInside hcloses.lt hl
    exact hspares.line hunwraps.description t ht

theorem repair_of_misgrouped {s : Segment} (hs : s ∈ c.outline.segments) {rs : List Remark}
    (hrs : Parentheses.misgrouped c s = .ok rs) (hr : r ∈ rs) (hfix : r.fix = some fix)
    (hspares : fix.Spares text) : Repair (lexemes text) fix := by
  obtain ⟨⟨hunwrap, hwrapped⟩ | ⟨message, hwrap⟩, hclosed⟩ :=
    Parentheses.misgrouped_spec hrs hr
  · exact h.repair_of_unwrapping hs hunwrap hr hfix hspares hwrapped hclosed
  · exact h.repair_of_wrapping hs hwrap hr hfix hclosed

/-- Whether it is a repair or not, the fix of a loop header lies in the text behind the keyword. -/
theorem fits_of_misgrouped {s : Segment} (hs : s ∈ c.outline.segments) {rs : List Remark}
    (hrs : Parentheses.misgrouped c s = .ok rs) (hr : r ∈ rs) (hfix : r.fix = some fix) :
    fix.Fits text := by
  obtain ⟨⟨hunwrap, -⟩ | ⟨message, hwrap⟩, hclosed⟩ := Parentheses.misgrouped_spec hrs hr
  · obtain ⟨i, j, opener, closer, hends, hopener, hcloser, hspan, -⟩ :=
      Parentheses.unwrapping_spec hunwrap hr hfix
    obtain ⟨-, hopens, -, k, hki, -⟩ := h.header hs hends (hclosed i j hends)
    obtain ⟨hstart, hstop, -⟩ := Span.between_spec hspan
    obtain ⟨-, hbegin, -⟩ := h.token hopener
    obtain ⟨-, -, hend⟩ := h.token hcloser
    refine ⟨?_, .inr ?_⟩
    · rw [hstop.trans hend]
      exact (offset_le_length _ _).trans_eq (congrArg List.length (lexemes_join text))
    · have hlt := (isLexed_lexemes text).offset_lt hki (hki.trans hopens.lt)
      rw [hstart.trans hbegin]
      omega
  · exact (h.repair_of_wrapping hs hwrap hr hfix hclosed).fits_lexemes

end Context.Reads

end HouseStyle
