import HouseStyle.Proofs.Rule.Made
import HouseStyle.Proofs.Rule.Normalized
import HouseStyle.Proofs.Rule.Placed
import HouseStyle.Proofs.Token.Place

/-! The fixes that the rules find in a text. They are the ones that are offered for it, and the ones
that take the parentheses of a loop header away. -/

namespace HouseStyle

open Outline

namespace Rule

/-- Whether one of the remarks that a rule has carries a fix. -/
def Fixes (remarks : Except RuleFailure (List Remark)) (fix : Fix) : Prop :=
  ∃ rs, remarks = .ok rs ∧ ∃ r ∈ rs, r.fix = some fix

variable {fix : Fix}

theorem fixes_ok {rs : List Remark} : Fixes (.ok rs) fix ↔ ∃ r ∈ rs, r.fix = some fix := by
  simp [Fixes]

theorem not_fixes_nil : ¬Fixes (.ok []) fix := by
  simp [fixes_ok]

theorem mem_of_collect {α : Type} {f : α → Except RuleFailure (List Remark)} {xs : List α}
    {rs here : List Remark} (h : Remark.collect f xs = .ok rs) {x : α} (hx : x ∈ xs)
    (hhere : f x = .ok here) : here ⊆ rs := by
  induction xs generalizing rs with
  | nil => cases hx
  | cons y xs ih =>
    rw [Remark.collect] at h
    obtain ⟨first, hy, h⟩ := bind_eq_ok.mp h
    obtain ⟨more, hrest, h⟩ := bind_eq_ok.mp h
    cases h
    rcases List.mem_cons.mp hx with rfl | hx
    · obtain rfl := Except.ok.inj (hhere.symm.trans hy)
      exact List.subset_append_left _ _
    · exact List.subset_append_of_subset_right _ (ih hrest hx)

/-- Where no item fails, the fixes are those of the items. -/
theorem fixes_collect {α : Type} {size : Nat} {f : α → Except RuleFailure (List Remark)} {xs : List α}
    (h : ∀ x ∈ xs, Gives size (f x)) : Fixes (Remark.collect f xs) fix ↔ ∃ x ∈ xs, Fixes (f x) fix := by
  constructor
  · rintro ⟨rs, hrs, r, hr, hfix⟩
    obtain ⟨x, hx, here, hhere, hr⟩ := Remark.mem_collect hrs hr
    exact ⟨x, hx, here, hhere, r, hr, hfix⟩
  · rintro ⟨x, hx, here, hhere, r, hr, hfix⟩
    obtain ⟨rs, hrs, -⟩ := Gives.collect h
    exact ⟨rs, hrs, r, mem_of_collect hrs hx hhere hr, hfix⟩

/-- A fix that does what is wanted at one of the segments of a text. -/
def Want.WantedBy (w : Want) (text : Text) (fix : Fix) : Prop :=
  ∃ s ∈ (outlineOf text).segments, ∃ i j, w.at? text s = some (i, j) ∧ w.Gives (lexemes text) i j fix

theorem wanted_iff_exists {text : Text} : Wanted text fix ↔ ∃ w : Want, w.WantedBy text fix := by
  simp only [Wanted, Want.WantedBy]
  tauto

/-- Only one fix does what is wanted. -/
theorem Want.exists_gives_iff {w : Want} {ls : List Lexeme} {i j : Nat} {fix' : Fix} {p : Prop}
    [Decidable p] (h : w.Gives ls i j fix') :
    (∃ i' j', (if p then some (i, j) else none) = some (i', j') ∧ w.Gives ls i' j' fix) ↔
      p ∧ fix = fix' := by
  constructor
  · rintro ⟨i', j', hat, hfix⟩
    obtain ⟨hp, hij⟩ := Option.ite_none_right_eq_some.mp hat
    cases hij
    exact ⟨hp, hfix.unique h⟩
  · rintro ⟨hp, rfl⟩
    exact ⟨i, j, if_pos hp, h⟩

theorem Braces.fixes_misplaced {c : Context} {b : Nat} {s : Segment} {brace last : Token}
    (hbrace : c.outline.token? b = some brace) (hlast : c.outline.token? s.last = some last)
    (hle : last.stop ≤ brace.start) : Fixes (misplaced c (b, s)) fix ↔
      (c.position last.stop).line ≠ brace.line ∧
        (tokensBetween c.outline s.last b).any (·.kind = .comment) = false ∧
          fix = { span := ⟨last.stop, brace.start, hle⟩
                  replacement := .text " "
                  description := "Move the brace up to the previous line" } := by
  simp only [misplaced, hbrace, hlast, Span.between_eq_ok hle]
  by_cases hline : (c.position last.stop).line = brace.line
  · simp [hline, not_fixes_nil]
  · cases hcomment : (tokensBetween c.outline s.last b).any (·.kind = .comment) with
    | true =>
      simp only [hline, if_true, if_false]
      refine iff_of_false ?_ (by simp)
      rintro ⟨rs, hrs, r, hr, hfix⟩
      cases hrs
      rw [List.mem_singleton.mp hr] at hfix
      cases hfix
    | false =>
      simp only [hline, if_false]
      constructor
      · rintro ⟨rs, hrs, r, hr, hfix⟩
        cases hrs
        rw [List.mem_singleton.mp hr] at hfix
        cases hfix
        exact ⟨hline, trivial, rfl⟩
      · rintro ⟨-, -, rfl⟩
        exact ⟨_, rfl, _, List.mem_singleton_self _, rfl⟩

/-- What is remarked on at a loop header. -/
theorem Parentheses.misgrouped_eq {c : Context} (hending : c.ending = ";") (s : Segment) {run : List Nat}
    (hrun : headerTail c.outline s "for" = run) : misgrouped c s =
      if isEnclosedLoop c.outline run then unwrapping c run
      else if isClassic c.outline run then
        wrapping c run "Classic for loop header should be enclosed in parentheses."
          "Wrap the loop header in parentheses"
      else .ok [] := by
  simp only [misgrouped, hrun, hending]
  cases hends : ends? run with
  | none =>
    have henclosed : isEnclosedLoop c.outline run = false := by simp [isEnclosedLoop, hends]
    have hclassic : isClassic c.outline run = false := by simp [isClassic, hends]
    simp [henclosed, hclassic]
  | some ends =>
    obtain ⟨first, last⟩ := ends
    by_cases hclosed : Termination.hasUnterminated c.outline first last
    · have henclosed : isEnclosedLoop c.outline run = false := by
        simp [isEnclosedLoop, hends, hclosed]
      have hclassic : isClassic c.outline run = false := by simp [isClassic, hends, hclosed]
      simp [henclosed, hclassic, hclosed]
    · by_cases hwrapped : c.outline.isWrapped run
      · have hclassic : isClassic c.outline run = false := by simp [isClassic, hends, hwrapped]
        simp [hclassic, hclosed, hwrapped, isEnclosedLoop, hends]
      · have henclosed : isEnclosedLoop c.outline run = false := by
          simp [isEnclosedLoop, hends, hwrapped]
        simp [henclosed, hclosed, hwrapped, isClassic, hends]

theorem Parentheses.not_isClassic_of_isEnclosedLoop {o : Outline} {run : List Nat}
    (h : isEnclosedLoop o run) : isClassic o run = false := by
  unfold isEnclosedLoop at h
  unfold isClassic
  cases hends : ends? run with
  | none => rfl
  | some ends =>
    simp only [hends, Bool.and_eq_true, Bool.not_eq_true'] at h
    simp [h.1.2]

/-- A fix that takes the parentheses of a loop header away. -/
def Unparenthesizes (c : Context) (fix : Fix) : Prop :=
  ∃ s ∈ c.outline.segments, Parentheses.isEnclosedLoop c.outline
      (Parentheses.headerTail c.outline s "for") ∧
    Fixes (Parentheses.unwrapping c (Parentheses.headerTail c.outline s "for")) fix

end Rule

/-! ### Braces and lines -/

/-- Each segment that opens a block is a header, at the brace of the block. -/
theorem mem_headers_iff {text : Text} {b : Nat} {s : Segment} : (b, s) ∈ (outlineOf text).headers ↔
    s ∈ (outlineOf text).segments ∧ s.opensBlock ∧ s.boundary = some b := by
  have hsound := ofTokens_sound (tokenize text) ";"
  constructor
  · intro h
    obtain ⟨hs, hopens⟩ := mem_of_mem_headers h
    exact ⟨hs, hopens, (hsound.headers b s h).2.1⟩
  · rintro ⟨hs, hopens, hb⟩
    have hmem : s ∈ (outlineOf text).headers.map Prod.snd :=
      (ofTokens_headers (tokenize text) ";").mem_iff.mpr (List.mem_filter.mpr ⟨hs, hopens⟩)
    obtain ⟨⟨b', s⟩, hheader, rfl⟩ := List.mem_map.mp hmem
    obtain rfl := Option.some.inj ((hsound.headers b' s hheader).2.1.symm.trans hb)
    exact hheader

namespace Context

variable {c : Context} {text : Text}

theorem line_stop (hstarts : c.lineStarts = text.lineStarts) {k : Nat} {t : Token}
    (ht : (tokenize text)[k]? = some t) :
    (c.position t.stop).line = 1 + (joined ((lexemes text).take (k + 1))).breakCount := by
  obtain ⟨column, hplace⟩ := tokenize_stop_line (List.mem_of_getElem? ht)
  have hline : t.line = 1 + (joined ((lexemes text).take k)).breakCount :=
    congrArg Cursor.line (placed_cursor (isLexed_lexemes text) ht)
  have hlexed := (isLexed_lexemes text).take (k + 1)
  have hsplit : (lexemes text).take (k + 1) = (lexemes text).take k ++ [t.toLexeme] := by
    rw [List.take_add_one, (tokenize_getElem? ht).1]
    rfl
  rw [hsplit] at hlexed ⊢
  rw [Context.position, hstarts, hplace, Option.getD_some, joined_append,
    Text.breakCount_append hlexed.not_partsPair, hline]
  simp [Nat.add_assoc]

/-- A brace stands below the token before it where a line break stands between them. -/
theorem line_stop_eq_iff (hstarts : c.lineStarts = text.lineStarts) {k b : Nat} {t u : Token}
    (ht : (tokenize text)[k]? = some t) (hu : (tokenize text)[b]? = some u) (hkb : k < b) :
    (c.position t.stop).line = u.line ↔ (joined (between (lexemes text) (k + 1) b)).breakCount = 0 := by
  have hline : u.line = 1 + (joined ((lexemes text).take b)).breakCount :=
    congrArg Cursor.line (placed_cursor (isLexed_lexemes text) hu)
  have hlexed := (isLexed_lexemes text).take b
  have hsplit : (lexemes text).take b =
      (lexemes text).take (k + 1) ++ between (lexemes text) (k + 1) b := by
    rw [between, ← List.drop_take]
    conv_lhs => rw [← List.take_append_drop (k + 1) ((lexemes text).take b)]
    rw [List.take_take, Nat.min_eq_left hkb]
  rw [hsplit] at hlexed hline
  rw [line_stop hstarts ht, hline, joined_append, Text.breakCount_append hlexed.not_partsPair]
  omega

theorem tokensBetween_map (i j : Nat) : (Rule.Braces.tokensBetween (outlineOf text) i j).map
    Token.toLexeme = between (lexemes text) (i + 1) j := by
  rw [Rule.Braces.tokensBetween, Array.toList_extract, between, ← tokenize_map_toLexeme,
    List.map_take, List.map_drop]
  rfl

end Context

namespace Context.Reads

open Rule

variable {text : Text} {c : Context} (h : c.Reads text) {s : Segment} {fix : Fix}
include h

theorem outlineOf_eq : c.outline = outlineOf text := h.outline

/-! ### Terminators -/

theorem fixes_missing (hs : s ∈ (outlineOf text).segments) :
    (∃ r, Termination.missing c s = some r ∧ r.fix = some fix) ↔
      ∃ i j, Want.finish.at? text s = some (i, j) ∧ Want.finish.Gives (lexemes text) i j fix := by
  have hterminator : Termination.fixAt c (offset (lexemes text) (s.last + 1)) =
      Termination.fixAt { c with terminator := .text ";" } (offset (lexemes text) (s.last + 1)) := by
    rw [Termination.fixAt, Termination.fixAt, h.terminator]
  have hgives : Want.finish.Gives (lexemes text) (s.last + 1) (s.last + 1)
      (Termination.fixAt c (offset (lexemes text) (s.last + 1))) := by
    rw [hterminator]
    exact ⟨rfl, rfl, rfl, rfl⟩
  rw [Termination.missing_eq h (h.outlineOf_eq ▸ hs), h.outlineOf_eq]
  simp only [Want.at?]
  rw [Want.exists_gives_iff hgives]
  split_ifs with hlacks
  · simp [hlacks, Termination.remarkAt, eq_comm]
  · simp [hlacks]

/-! ### Braces -/

theorem fixes_misplaced (hstarts : c.lineStarts = text.lineStarts)
    (hs : s ∈ (outlineOf text).segments) (hopens : s.opensBlock) {b : Nat} (hb : s.boundary = some b) :
    Fixes (Braces.misplaced c (b, s)) fix ↔
      ∃ i j, Want.raise.at? text s = some (i, j) ∧ Want.raise.Gives (lexemes text) i j fix := by
  obtain ⟨b', hb', hlt, -, hmark⟩ := boundary_of_opensBlock hs hopens
  obtain rfl := Option.some.inj (hb'.symm.trans hb)
  obtain ⟨brace, hbrace, -⟩ := tokenIs_iff.mp hmark
  obtain ⟨last, hlast, -⟩ := ((ofTokens_sound (tokenize text) ";").segments s hs).inOrder.loud s.last
    (last_mem hs)
  have htoken {k : Nat} : c.outline.token? k = (tokenize text)[k]? := by
    rw [h.outlineOf_eq, ← List.getElem?_toArray]
    rfl
  rw [List.getElem?_toArray] at hbrace hlast
  have hline := line_stop_eq_iff hstarts hlast hbrace hlt
  have hcomment : (Braces.tokensBetween c.outline s.last b').any (·.kind = .comment) =
      (between (lexemes text) (s.last + 1) b').any (·.kind = .comment) := by
    rw [h.outlineOf_eq, ← tokensBetween_map, List.any_map]
    rfl
  have hle : last.stop ≤ brace.start := by
    rw [(tokenize_getElem? hlast).2.2, (tokenize_getElem? hbrace).2.1]
    exact offset_le_offset _ hlt
  rw [Braces.fixes_misplaced (htoken.trans hbrace) (htoken.trans hlast) hle, ne_eq, hline, hcomment]
  simp only [Want.at?, hopens, if_true, hb, Option.bind_some]
  set gap := between (lexemes text) (s.last + 1) b'
  have hgives : Want.raise.Gives (lexemes text) (s.last + 1) b' {
      span := ⟨last.stop, brace.start, hle⟩
      replacement := .text " "
      description := "Move the brace up to the previous line" } :=
    ⟨(tokenize_getElem? hlast).2.2, (tokenize_getElem? hbrace).2.1, rfl, rfl⟩
  rw [Want.exists_gives_iff hgives]
  simp [isBelow, gap, and_assoc]

/-! ### Parentheses -/

theorem tokens_of_ends (hs : s ∈ (outlineOf text).segments) {keyword : Text} {i j : Nat}
    (hends : Parentheses.ends? (Parentheses.headerTail (outlineOf text) s keyword) = some (i, j)) :
    j = s.last ∧ i ≤ j ∧ ∃ first last, c.outline.token? i = some first ∧
      c.outline.token? j = some last ∧ first.start = offset (lexemes text) i ∧
        last.stop = offset (lexemes text) (j + 1) ∧ first.start ≤ last.stop := by
  obtain ⟨hij, rfl⟩ := ends_header hs hends
  have hmem := Parentheses.headerTail_subset _ s keyword (Parentheses.mem_of_ends? hends).1
  obtain ⟨first, hfirst, -⟩ := loud_of_mem hs hmem
  obtain ⟨last, hlast, -⟩ := loud_of_mem hs (last_mem hs)
  have htoken {k : Nat} {t : Token} (ht : (tokenize text).toArray[k]? = some t) :
      c.outline.token? k = some t := by
    rw [h.outlineOf_eq, ← ht]
    rfl
  obtain ⟨-, hstart, -⟩ := h.token (htoken hfirst)
  obtain ⟨-, -, hstop⟩ := h.token (htoken hlast)
  refine ⟨rfl, hij, first, last, htoken hfirst, htoken hlast, hstart, hstop, ?_⟩
  rw [hstart, hstop]
  exact offset_le_offset _ (by omega)

theorem fixes_wrapping {w : Want} (hputs : ∀ source, w.puts source = .char '(' :: source ++ [.char ')'])
    (hs : s ∈ (outlineOf text).segments) (keyword message : Text) :
    Fixes (Parentheses.wrapping c (Parentheses.headerTail (outlineOf text) s keyword) message
      w.caption) fix ↔ ∃ i j, tailSpan? (Parentheses.headerTail (outlineOf text) s keyword) =
        some (i, j) ∧ w.Gives (lexemes text) i j fix := by
  unfold Parentheses.wrapping tailSpan?
  cases hends : Parentheses.ends? (Parentheses.headerTail (outlineOf text) s keyword) with
  | none => simp [not_fixes_nil]
  | some ends =>
    obtain ⟨i, j⟩ := ends
    obtain ⟨rfl, hij, first, last, hfirst, hlast, hstart, hstop, hle⟩ := h.tokens_of_ends hs hends
    have hsource : Parentheses.sourceOf c first.start last.stop =
        joined (between (lexemes text) i (s.last + 1)) := by
      rw [hstart, hstop, h.with_default.sourceOf_offset (by omega)]
    simp only [hfirst, hlast, Span.between_eq_ok hle, Option.map_some]
    have hgives : w.Gives (lexemes text) i (s.last + 1) {
        span := ⟨first.start, last.stop, hle⟩
        replacement := .text (.char '(' :: Parentheses.sourceOf c first.start last.stop ++ [.char ')'])
        description := w.caption } :=
      ⟨hstart, hstop, congrArg Value.text (by rw [hputs, hsource]), rfl⟩
    constructor
    · rintro ⟨rs, hrs, r, hr, hfix⟩
      cases hrs
      rw [List.mem_singleton.mp hr] at hfix
      cases hfix
      exact ⟨i, s.last + 1, rfl, hgives⟩
    · rintro ⟨i', j', hij', hfix⟩
      cases hij'
      rw [hfix.unique hgives]
      exact ⟨_, rfl, _, List.mem_singleton_self _, rfl⟩

theorem fixes_unwrapped (hs : s ∈ (outlineOf text).segments) :
    Fixes (Parentheses.unwrapped c s) fix ↔
      ∃ i j, Want.condition.at? text s = some (i, j) ∧ Want.condition.Gives (lexemes text) i j fix := by
  simp only [Parentheses.unwrapped, Want.at?, h.outlineOf_eq]
  split_ifs with hwants
  · exact h.fixes_wrapping (w := .condition) (fun _ => rfl) hs _ _
  · simp [not_fixes_nil]

theorem fixes_misgrouped (hs : s ∈ (outlineOf text).segments) :
    Fixes (Parentheses.misgrouped c s) fix ↔
      (Parentheses.isEnclosedLoop (outlineOf text) (Parentheses.headerTail (outlineOf text) s "for") ∧
        Fixes (Parentheses.unwrapping c (Parentheses.headerTail (outlineOf text) s "for")) fix) ∨
      ∃ i j, Want.classic.at? text s = some (i, j) ∧ Want.classic.Gives (lexemes text) i j fix := by
  have hending : c.ending = ";" := by
    rw [Context.ending, h.terminator]
    rfl
  have hclassic : Fixes (Parentheses.wrapping c (Parentheses.headerTail (outlineOf text) s "for")
      "Classic for loop header should be enclosed in parentheses." Want.classic.caption) fix ↔ _ :=
    h.fixes_wrapping (w := .classic) (fun _ => rfl) hs _ _
  rw [Parentheses.misgrouped_eq hending s rfl, h.outlineOf_eq]
  by_cases henclosed : Parentheses.isEnclosedLoop (outlineOf text)
      (Parentheses.headerTail (outlineOf text) s "for")
  · have hnot := Parentheses.not_isClassic_of_isEnclosedLoop henclosed
    simp [Want.at?, henclosed, hnot]
  · rw [if_neg henclosed]
    simp only [henclosed, Bool.false_eq_true, false_and, false_or, Want.at?]
    split_ifs
    · exact hclassic
    · simp [not_fixes_nil]

/-- A remark takes the parentheses of such a loop header away. -/
theorem exists_unwrapping (hs : s ∈ (outlineOf text).segments)
    (henclosed : Parentheses.isEnclosedLoop (outlineOf text)
      (Parentheses.headerTail (outlineOf text) s "for")) : ∃ fix : Fix,
    Fixes (Parentheses.unwrapping c (Parentheses.headerTail (outlineOf text) s "for")) fix := by
  unfold Parentheses.isEnclosedLoop at henclosed
  unfold Parentheses.unwrapping
  cases hends : Parentheses.ends? (Parentheses.headerTail (outlineOf text) s "for") with
  | none => simp [hends] at henclosed
  | some ends =>
    obtain ⟨-, -, first, last, hfirst, hlast, -, -, hle⟩ := h.tokens_of_ends hs hends
    simp only [hfirst, hlast, Span.between_eq_ok hle]
    exact ⟨_, _, rfl, _, List.mem_singleton_self _, rfl⟩

/-! ### All rules -/

theorem fixes_inComment : (∃ t ∈ c.tokens.toList, ∃ r ∈ Markers.inComment Markers.defaultMarkers t,
    r.fix = some fix) ↔ Misspelt text fix := by
  have htokens : c.tokens.toList = tokenize text := by
    rw [Context.tokens, h.outline]
    rfl
  rw [htokens]
  constructor
  · rintro ⟨t, ht, r, hr, hfix⟩
    obtain ⟨i, hi⟩ := List.mem_iff_getElem?.mp ht
    obtain ⟨hl, hstart, -⟩ := tokenize_getElem? hi
    rw [Markers.inComment_eq] at hr
    split_ifs at hr with hkind
    · exact ⟨i, t.toLexeme, hl, hkind, r, hstart ▸ hr, hfix⟩
    · cases hr
  · rintro ⟨i, l, hl, hkind, r, hr, hfix⟩
    obtain ⟨t, ht, rfl⟩ := token_of_lexeme hl
    rw [List.getElem?_toArray] at ht
    refine ⟨t, List.mem_of_getElem? ht, r, ?_, hfix⟩
    rw [Markers.inComment_eq, if_pos hkind, (tokenize_getElem? ht).2.1]
    exact hr

omit h in
/-- The other rules have no fixes. -/
theorem not_fixes_others : ∀ kind ∈ [Termination.oneStatementPerLine, Declarations.explicitTyping,
    Declarations.forceUnwrap, Members.selfPrefix, Members.methodGrouping],
    ¬Fixes (kind.remarks kind.metadata.options c) fix := by
  have hnone {r : Remark} (hfix : r.fix = some fix) (hr : r.fix = none) : False := by
    rw [hfix] at hr
    cases hr
  simp only [List.mem_cons, List.not_mem_nil, or_false, forall_eq_or_imp, forall_eq]
  refine ⟨?_, ?_, ?_, ?_, ?_⟩ <;> rintro ⟨rs, hrs, r, hr, hfix⟩
  · obtain ⟨n, -, here, hhere, hr⟩ := Remark.mem_collect hrs hr
    exact hnone hfix (Termination.crowding_fix hhere hr)
  · cases hrs
    obtain ⟨s, -, hr⟩ := List.mem_flatMap.mp hr
    exact hnone hfix (Declarations.untyped_fix hr)
  · cases hrs
    obtain ⟨i, -, hr⟩ := List.mem_filterMap.mp hr
    exact hnone hfix (Declarations.forced_fix hr)
  · cases hrs
    obtain ⟨brace, -, hr⟩ := List.mem_flatMap.mp hr
    exact hnone hfix (Members.inType_fix hr)
  · cases hrs
    obtain ⟨container, -, hr⟩ := List.mem_flatMap.mp hr
    exact hnone hfix (Members.separated_fix hr)

theorem fixes_terminators : Fixes (Termination.allMissing c) fix ↔
    Want.finish.WantedBy text fix := by
  have hlong : c.terminator.isLong = false := by
    rw [h.terminator]
    rfl
  simp only [Termination.allMissing, hlong, Bool.and_false, Bool.false_eq_true, if_false, fixes_ok,
    h.outlineOf_eq, List.mem_filterMap]
  constructor
  · rintro ⟨r, ⟨s, hs, hr⟩, hfix⟩
    exact ⟨s, hs, (h.fixes_missing hs).mp ⟨r, hr, hfix⟩⟩
  · rintro ⟨s, hs, hgives⟩
    obtain ⟨r, hr, hfix⟩ := (h.fixes_missing hs).mpr hgives
    exact ⟨r, ⟨s, hs, hr⟩, hfix⟩

theorem fixes_braces (hstarts : c.lineStarts = text.lineStarts) :
    Fixes (Remark.collect (Braces.misplaced c) c.outline.headers) fix ↔
      Want.raise.WantedBy text fix := by
  rw [fixes_collect fun block hblock => h.with_default.gives_misplaced hblock, h.outlineOf_eq]
  constructor
  · rintro ⟨⟨b, s⟩, hheader, hfix⟩
    obtain ⟨hs, hopens, hb⟩ := mem_headers_iff.mp hheader
    exact ⟨s, hs, (h.fixes_misplaced hstarts hs hopens hb).mp hfix⟩
  · rintro ⟨s, hs, i, j, hat, hgives⟩
    obtain ⟨b, hb, -⟩ := Option.bind_eq_some_iff.mp hat
    split_ifs at hb with hopens
    exact ⟨(b, s), mem_headers_iff.mpr ⟨hs, hopens, hb⟩,
      (h.fixes_misplaced hstarts hs hopens hb).mpr ⟨i, j, hat, hgives⟩⟩

theorem fixes_conditions : Fixes (Remark.collect (Parentheses.unwrapped c) c.outline.segments) fix ↔
    Want.condition.WantedBy text fix := by
  rw [fixes_collect fun s hs => h.with_default.gives_unwrapped hs, h.outlineOf_eq]
  exact exists_congr fun s => and_congr_right fun hs => h.fixes_unwrapped hs

theorem fixes_loops : Fixes (Remark.collect (Parentheses.misgrouped c) c.outline.segments) fix ↔
    Unparenthesizes c fix ∨ Want.classic.WantedBy text fix := by
  rw [fixes_collect fun s hs => h.with_default.gives_misgrouped hs, Unparenthesizes, Want.WantedBy,
    h.outlineOf_eq, ← exists_or]
  refine exists_congr fun s => ?_
  rw [← and_or_left]
  exact and_congr_right fun hs => h.fixes_misgrouped hs

theorem fixes_markers : Fixes (Markers.commentMarkers.remarks Markers.commentMarkers.metadata.options c)
    fix ↔ Misspelt text fix := by
  have hmarkers : Markers.ofOption ((Markers.commentMarkers.metadata.options.lookup
      (.text "markers")).getD (.texts Markers.defaultMarkers)) = .ok Markers.defaultMarkers := rfl
  simp only [Markers.commentMarkers] at hmarkers ⊢
  rw [hmarkers, ← h.fixes_inComment]
  simp only [bind, Except.bind, pure, Except.pure, fixes_ok]
  rw [if_neg (by decide)]
  simp only [List.mem_flatMap]
  tauto

/-- What the rules fix in a text. -/
theorem fixes_iff (hstarts : c.lineStarts = text.lineStarts) :
    (∃ kind ∈ builtinKinds, Fixes (kind.remarks kind.metadata.options c) fix) ↔
      Offered text fix ∨ Unparenthesizes c fix := by
  have hothers := @not_fixes_others c fix
  simp only [List.mem_cons, List.not_mem_nil, or_false, forall_eq_or_imp, forall_eq] at hothers
  obtain ⟨hcrowding, huntyped, hforced, hprefix, hgrouping⟩ := hothers
  simp only [builtinKinds, List.mem_cons, List.not_mem_nil, or_false, exists_eq_or_imp,
    exists_eq_left, hcrowding, huntyped, hforced, hprefix, hgrouping, h.fixes_markers]
  rw [Offered, wanted_iff_exists]
  constructor
  · rintro (hfix | ⟨⟨⟩⟩ | hfix | hfix | hfix | ⟨⟨⟩⟩ | ⟨⟨⟩⟩ | hfix)
    · exact .inl (.inl ⟨.finish, h.fixes_terminators.mp hfix⟩)
    · exact .inl (.inl ⟨.raise, (h.fixes_braces hstarts).mp hfix⟩)
    · exact .inl (.inl ⟨.condition, h.fixes_conditions.mp hfix⟩)
    · rcases h.fixes_loops.mp hfix with hfix | hfix
      · exact .inr hfix
      · exact .inl (.inl ⟨.classic, hfix⟩)
    · exact .inl (.inr hfix)
  · rintro ((⟨_ | _ | _ | _, hfix⟩ | hfix) | hfix)
    · exact .inl (h.fixes_terminators.mpr hfix)
    · exact .inr (.inr (.inl ((h.fixes_braces hstarts).mpr hfix)))
    · exact .inr (.inr (.inr (.inl (h.fixes_conditions.mpr hfix))))
    · exact .inr (.inr (.inr (.inr (.inl (h.fixes_loops.mpr (.inr hfix))))))
    · exact .inr (.inr (.inr (.inr (.inr (.inr (.inr hfix))))))
    · exact .inr (.inr (.inr (.inr (.inl (h.fixes_loops.mpr (.inl hfix))))))

end Context.Reads

end HouseStyle
