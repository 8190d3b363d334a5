import HouseStyle.Proofs.Rule.Neighbours
import HouseStyle.Proofs.Value.Entries

/-! The fixes of the layout rules are repairs. -/

namespace HouseStyle

open Outline Rule

variable {text : Text} {c : Context} {r : Remark} {fix : Fix}

theorem Remark.mem_collect {α : Type} {f : α → Except RuleFailure (List Remark)} {xs : List α}
    {rs : List Remark} (h : Remark.collect f xs = .ok rs) (hr : r ∈ rs) :
    ∃ x ∈ xs, ∃ here, f x = .ok here ∧ r ∈ here := by
  induction xs generalizing rs with
  | nil =>
    cases h
    cases hr
  | cons x xs ih =>
    rw [Remark.collect] at h
    obtain ⟨here, hx, h⟩ := bind_eq_ok.mp h
    obtain ⟨more, hrest, h⟩ := bind_eq_ok.mp h
    cases h
    rcases List.mem_append.mp hr with hr | hr
    · exact ⟨x, by simp, here, hx, hr⟩
    · obtain ⟨y, hy, here', hf, hmem⟩ := ih hrest hr
      exact ⟨y, by simp [hy], here', hf, hmem⟩

theorem Span.between_spec {start stop : Nat} {span : Span} (h : Span.between start stop = .ok span) :
    span.start = start ∧ span.stop = stop ∧ start ≤ stop := by
  unfold Span.between at h
  split at h
  · next hle =>
    cases h
    exact ⟨rfl, rfl, hle⟩
  · cases h

namespace Rule

theorem Termination.missing_spec {s : Segment} (h : Termination.missing c s = some r)
    (hfix : r.fix = some fix) : Termination.lacksTerminator c.outline s ∧
      ∃ last, c.outline.token? s.last = some last ∧ fix.span = .point last.stop ∧
        fix.replacement = c.terminator ∧
        fix.description = "Insert '" ++ c.terminator.asText ++ "'" := by
  unfold Termination.missing at h
  split_ifs at h with hlacks
  obtain ⟨last, hlast, rfl⟩ := Option.map_eq_some_iff.mp h
  cases hfix
  exact ⟨hlacks, last, hlast, rfl, rfl, rfl⟩

theorem Braces.misplaced_spec {block : Nat × Segment} {rs : List Remark}
    (h : Braces.misplaced c block = .ok rs) (hr : r ∈ rs) (hfix : r.fix = some fix) :
    ∃ brace last, c.outline.token? block.1 = some brace ∧
      c.outline.token? block.2.last = some last ∧
      Span.between last.stop brace.start = .ok fix.span ∧ fix.replacement = .text [.char ' '] ∧
      fix.description = "Move the brace up to the previous line" ∧
      ∀ t ∈ Braces.tokensBetween c.outline block.2.last block.1, t.kind ≠ .comment := by
  simp only [Braces.misplaced] at h
  split at h
  · next brace last hindex hlast =>
    refine ⟨brace, last, hindex, hlast, ?_⟩
    by_cases hline : (c.position last.stop).line = brace.line
    · rw [if_pos hline] at h
      cases h
      cases hr
    · rw [if_neg hline] at h
      by_cases hcommented : (Braces.tokensBetween c.outline block.2.last block.1).any
          (·.kind = .comment)
      · rw [if_pos hcommented] at h
        cases h
        rw [List.mem_singleton.mp hr] at hfix
        cases hfix
      · rw [if_neg hcommented] at h
        cases hspan : Span.between last.stop brace.start with
        | error e => simp [hspan, bind, Except.bind] at h
        | ok span =>
          rw [hspan] at h
          cases h
          rw [List.mem_singleton.mp hr] at hfix
          cases hfix
          exact ⟨rfl, rfl, rfl, by simpa using hcommented⟩
  · cases h
    cases hr

/-! ### Headers -/

theorem Parentheses.ends?_spec {run : List Nat} {i j : Nat}
    (h : Parentheses.ends? run = some (i, j)) :
    ∃ rest, run = i :: rest ∧ run.getLast? = some j := by
  unfold Parentheses.ends? at h
  cases run with
  | nil => cases h
  | cons k rest =>
    rw [List.head?_cons] at h
    cases hlast : (k :: rest).getLast? with
    | none => simp [hlast] at h
    | some l =>
      simp only [hlast, Option.some.injEq, Prod.mk.injEq] at h
      exact ⟨rest, by rw [h.1], by rw [h.2]⟩

/-- The place in a header where its keyword is looked for. -/
def Parentheses.keywordPlace (s : Segment) : Nat := if s.keyword = "else" then s.lead + 1 else s.lead

theorem Parentheses.headerTail_of_drop {o : Outline} {s : Segment} {run : List Nat}
    (hkind : s.kind = .controlHeader) (hdrop : s.indices.drop (Parentheses.keywordPlace s) = run)
    (keyword : Text) : Parentheses.headerTail o s keyword =
      if run.head?.any fun k => o.at_ k (·.isKeyword [keyword]) then run.tail else [] := by
  rw [Parentheses.keywordPlace] at hdrop
  rw [Parentheses.headerTail, if_pos hkind]
  simp only [hdrop]
  cases run <;> rfl

theorem Parentheses.headerTail_spec {o : Outline} {s : Segment} {keyword : Text} {i : Nat}
    {tail : List Nat} (h : Parentheses.headerTail o s keyword = i :: tail) :
    s.kind = .controlHeader ∧
      ∃ us k, us.length = Parentheses.keywordPlace s ∧ s.indices = us ++ k :: i :: tail ∧
        o.at_ k (·.isKeyword [keyword]) := by
  by_cases hkind : s.kind = .controlHeader
  · refine ⟨hkind, ?_⟩
    cases hdrop : s.indices.drop (Parentheses.keywordPlace s) with
    | nil =>
      rw [Parentheses.headerTail_of_drop hkind hdrop] at h
      cases h
    | cons k run =>
      rw [Parentheses.headerTail_of_drop hkind hdrop, List.head?_cons, Option.any_some,
        List.tail_cons] at h
      split_ifs at h with hkeyword
      refine ⟨s.indices.take (Parentheses.keywordPlace s), k, List.length_take_of_le ?_, ?_, hkeyword⟩
      · have := congrArg List.length hdrop
        rw [List.length_drop, List.length_cons] at this
        omega
      · rw [← h, ← hdrop, List.take_append_drop]
  · rw [Parentheses.headerTail, if_neg hkind] at h
    cases h

/-- What stands behind the place of the keyword is the run, if the keyword stands there. -/
theorem Parentheses.headerTail_append {o : Outline} {s : Segment} {us tail : List Nat} {k : Nat}
    (hkind : s.kind = .controlHeader) (hindices : s.indices = us ++ k :: tail)
    (hlength : us.length = Parentheses.keywordPlace s) (keyword : Text) :
    Parentheses.headerTail o s keyword = if o.at_ k (·.isKeyword [keyword]) then tail else [] := by
  have hdrop : s.indices.drop (Parentheses.keywordPlace s) = k :: tail := by
    rw [hindices, ← hlength, List.drop_left]
  exact Parentheses.headerTail_of_drop hkind hdrop keyword

theorem Parentheses.wrapping_spec {run : List Nat} {message description : Text} {rs : List Remark}
    (h : Parentheses.wrapping c run message description = .ok rs) (hr : r ∈ rs)
    (hfix : r.fix = some fix) :
    ∃ i j first last, Parentheses.ends? run = some (i, j) ∧ c.outline.token? i = some first ∧
      c.outline.token? j = some last ∧ Span.between first.start last.stop = .ok fix.span ∧
      fix.replacement =
        .text (.char '(' :: Parentheses.sourceOf c first.start last.stop ++ [.char ')']) ∧
      fix.description = description := by
  unfold Parentheses.wrapping at h
  split at h
  · cases h
    cases hr
  · next i j hends =>
    split at h
    · next first last hfirst hlast =>
      cases hspan : Span.between first.start last.stop with
      | error e => simp [hspan, bind, Except.bind] at h
      | ok span =>
        rw [hspan] at h
        cases h
        rw [List.mem_singleton.mp hr] at hfix
        cases hfix
        exact ⟨i, j, first, last, hends, hfirst, hlast, hspan, rfl, rfl⟩
    · cases h
      cases hr

theorem Parentheses.unwrapping_spec {run : List Nat} {rs : List Remark}
    (h : Parentheses.unwrapping c run = .ok rs) (hr : r ∈ rs) (hfix : r.fix = some fix) :
    ∃ i j opener closer, Parentheses.ends? run = some (i, j) ∧
      c.outline.token? i = some opener ∧ c.outline.token? j = some closer ∧
      Span.between opener.start closer.stop = .ok fix.span ∧
      fix.description = "Remove the parentheses" ∧
      fix.replacement = .text
        ((if 0 < i && c.outline.at_ (i - 1) (·.isKeyword ["for"]) then (" " : Text) else []) ++
          Text.strip (Parentheses.sourceOf c opener.stop closer.start) ++
          (if c.outline.at_ (j + 1) (·.isMark '{') then (" " : Text) else [])) := by
  unfold Parentheses.unwrapping at h
  split at h
  · cases h
    cases hr
  · next i j hends =>
    split at h
    · next opener closer hopener hcloser =>
      cases hspan : Span.between opener.start closer.stop with
      | error e => simp [hspan, bind, Except.bind] at h
      | ok span =>
        rw [hspan] at h
        cases h
        rw [List.mem_singleton.mp hr] at hfix
        cases hfix
        exact ⟨i, j, opener, closer, hends, hopener, hcloser, hspan, rfl, rfl⟩
    · cases h
      cases hr

/-- A remark on a condition wraps it, and then every token of the condition has its end. -/
theorem Parentheses.unwrapped_spec {s : Segment} {rs : List Remark}
    (h : Parentheses.unwrapped c s = .ok rs) (hr : r ∈ rs) :
    ∃ message,
      Parentheses.wrapping c (Parentheses.headerTail c.outline s "if") message
        "Wrap the condition in parentheses" = .ok rs ∧
      ∀ i j, Parentheses.ends? (Parentheses.headerTail c.outline s "if") = some (i, j) →
        Termination.hasUnterminated c.outline i j = false := by
  simp only [Parentheses.unwrapped] at h
  split_ifs at h with hwrap
  · refine ⟨_, h, fun i j hends => ?_⟩
    simp only [Bool.and_eq_true, Parentheses.canWrap, hends, Bool.not_eq_true'] at hwrap
    exact hwrap.2.2
  · cases h
    cases hr

/-- A remark on a loop header unwraps it if it is wrapped, or else wraps it, and then every token of
the header has its end. -/
theorem Parentheses.misgrouped_spec {s : Segment} {rs : List Remark}
    (h : Parentheses.misgrouped c s = .ok rs) (hr : r ∈ rs) :
    (Parentheses.unwrapping c (Parentheses.headerTail c.outline s "for") = .ok rs ∧
        c.outline.isWrapped (Parentheses.headerTail c.outline s "for") ∨
      ∃ message,
        Parentheses.wrapping c (Parentheses.headerTail c.outline s "for") message
          "Wrap the loop header in parentheses" = .ok rs) ∧
      ∀ i j, Parentheses.ends? (Parentheses.headerTail c.outline s "for") = some (i, j) →
        Termination.hasUnterminated c.outline i j = false := by
  simp only [Parentheses.misgrouped] at h
  cases hends : Parentheses.ends? (Parentheses.headerTail c.outline s "for") with
  | none =>
    rw [hends] at h
    cases h
    cases hr
  | some pair =>
    obtain ⟨first, last⟩ := pair
    rw [hends] at h
    simp only at h
    have hall (hclosed : ¬Termination.hasUnterminated c.outline first last = true) (i j : Nat)
        (hij : some (first, last) = some (i, j)) :
        Termination.hasUnterminated c.outline i j = false := by
      cases hij
      simpa using hclosed
    split_ifs at h with hclosed hwrapped hin hclassic
    · cases h
      cases hr
    · exact ⟨.inl ⟨h, hwrapped⟩, hall hclosed⟩
    · cases h
      cases hr
    · exact ⟨.inr ⟨_, h⟩, hall hclosed⟩
    · cases h
      cases hr

end Rule

theorem Fix.insertion_eq {fix : Fix} {t : Text} (h : fix.replacement = .text t) :
    fix.insertion = t := by
  rw [Fix.insertion, h]
  rfl

/-- A repair of a text lies in it and does not empty it. -/
theorem Repair.fits_lexemes (h : Repair (lexemes text) fix) : fix.Fits text := by
  have := h.fits (isLexed_lexemes text)
  rwa [show joined (lexemes text) = text from lexemes_join text] at this

namespace Context.ReadsWith

variable {end_ : Text} (h : c.ReadsWith text end_)
include h

theorem closed {first last i : Nat} {l : Lexeme}
    (hclosed : Termination.hasUnterminated c.outline first last = false) (hfirst : first ≤ i)
    (hlast : i ≤ last) (hl : (lexemes text)[i]? = some l) : l.unterminated = false := by
  obtain ⟨t, ht, rfl⟩ := token_of_lexeme hl
  have hmem : i ∈ Termination.extent first last := by
    simp only [Termination.extent, List.mem_range'_1]
    omega
  have := List.any_eq_false.mp hclosed i hmem
  rw [Outline.at_, h.tokens, tokenIs_of_getElem? ht] at this
  simpa using this

theorem sourceOf_offset {i j : Nat} (hij : i ≤ j) :
    Parentheses.sourceOf c (offset (lexemes text) i) (offset (lexemes text) j) =
      joined (between (lexemes text) i j) := by
  have hjoined : joined (lexemes text) = text := lexemes_join text
  rw [Parentheses.sourceOf, h.content, between, ← slice_offset (lexemes text) hij, hjoined]

/-- The run of a header behind its keyword goes to the end of the segment. -/
theorem header {s : Segment} (hs : s ∈ c.outline.segments) {keyword : Text} {i j : Nat}
    (hends : Parentheses.ends? (Parentheses.headerTail c.outline s keyword) = some (i, j)) :
    s.kind = .controlHeader ∧ i ≤ j ∧ j = s.last ∧
      ∃ us k vs, s.indices = us ++ k :: i :: vs ∧
        tokenIs (tokenize text).toArray (·.isKeyword [keyword]) k := by
  have hsound := h.segment_sound hs
  obtain ⟨rest, hrun, hlast⟩ := Parentheses.ends?_spec hends
  obtain ⟨hkind, us, k, -, hindices, hkeyword⟩ := Parentheses.headerTail_spec hrun
  have hj : j = s.last := by
    have : s.indices.getLast? = some j := by
      rw [hindices, List.getLast?_append_of_ne_nil _ (List.cons_ne_nil _ _),
        List.getLast?_cons_cons, ← hrun, hlast]
    exact Option.some.inj (this.symm.trans hsound.getLast?_eq)
  refine ⟨hkind, ?_, hj, us, k, rest, hindices, ?_⟩
  · rw [hj]
    exact hsound.inOrder.le_getLast (by simp [hindices]) hsound.getLast?_eq
  · rw [← h.tokens]
    exact hkeyword

/-- It has nothing but trivia between its keyword and itself. -/
theorem opens_header {s : Segment} (hs : s ∈ c.outline.segments) {keyword : Text} {i j : Nat}
    (hends : Parentheses.ends? (Parentheses.headerTail c.outline s keyword) = some (i, j)) :
    i ≤ j ∧ j = s.last ∧ Opens (lexemes text) i ∧
      ∃ k < i, c.outline.at_ k (·.isKeyword [keyword]) ∧
        ∀ m l, k < m → m < i → (lexemes text)[m]? = some l → l.isTrivia := by
  obtain ⟨-, hij, hj, us, k, vs, hindices, hkeyword⟩ := h.header hs hends
  have horder := (h.segment_sound hs).inOrder
  rw [hindices] at horder
  obtain ⟨hlt, hquiet, hopens⟩ := horder.opens_of_keyword hkeyword
  refine ⟨hij, hj, hopens, k, hlt, ?_, hquiet⟩
  rw [Outline.at_, h.tokens]
  exact hkeyword

end Context.ReadsWith

namespace Context.Reads

variable (h : c.Reads text)
include h

theorem sound : c.outline.Sound ";" := h.with_default.sound

theorem tokens : c.outline.tokens = (tokenize text).toArray := h.with_default.tokens

theorem segment_sound {s : Segment} (hs : s ∈ c.outline.segments) :
    s.Sound (tokenize text).toArray ";" :=
  h.with_default.segment_sound hs

theorem token {i : Nat} {t : Token} (ht : c.outline.token? i = some t) :
    (lexemes text)[i]? = some t.toLexeme ∧ t.start = offset (lexemes text) i ∧
      t.stop = offset (lexemes text) (i + 1) :=
  h.with_default.token ht

/-! ### Terminators and braces -/

theorem repair_of_missing {s : Segment} (hs : s ∈ c.outline.segments)
    (hr : Termination.missing c s = some r) (hfix : r.fix = some fix) :
    Repair (lexemes text) fix := by
  have hsound := h.segment_sound hs
  obtain ⟨hlacks, last, hlast, hspan, hnew, -⟩ := Termination.missing_spec hr hfix
  rw [h.terminator] at hnew
  simp only [Termination.lacksTerminator, Bool.and_eq_true, Bool.not_eq_true',
    Bool.or_eq_false_iff] at hlacks
  obtain ⟨⟨⟨⟨⟨⟨⟨⟨⟨-, hlabel⟩, -⟩, -⟩, -⟩, -⟩, -⟩, -⟩, hclosed⟩, -⟩ := hlacks
  have hstop := (h.token hlast).2.2
  refine .finish s.last (hsound.closes (by simp [hlabel]) fun l hl => ?_) ?_ ?_
    (Fix.insertion_eq hnew)
  · exact h.with_default.closed hclosed hsound.first_le_last (Nat.le_refl _) hl
  · rw [hspan]
    exact hstop
  · rw [hspan]
    exact hstop

theorem repair_of_misplaced {block : Nat × Segment} (hblock : block ∈ c.outline.headers)
    {rs : List Remark} (hrs : Braces.misplaced c block = .ok rs) (hr : r ∈ rs)
    (hfix : r.fix = some fix) : Repair (lexemes text) fix := by
  obtain ⟨index, header⟩ := block
  obtain ⟨hsound, hboundary, hbrace⟩ := h.sound.headers index header hblock
  rw [h.tokens] at hsound hbrace
  obtain ⟨brace, last, hindex, hlast, hspan, hnew, -⟩ := Braces.misplaced_spec hrs hr hfix
  obtain ⟨hstart, hstop, hle⟩ := Span.between_spec hspan
  obtain ⟨hl, hbegin, -⟩ := h.token hindex
  obtain ⟨-, -, hend⟩ := h.token hlast
  have hlength := (List.getElem?_eq_some_iff.mp hl).1
  have hlt : header.last < index := by
    by_contra hge
    have : offset (lexemes text) (index + 1) ≤ offset (lexemes text) (header.last + 1) :=
      offset_le_offset _ (by omega)
    have : offset (lexemes text) index < offset (lexemes text) (index + 1) :=
      (isLexed_lexemes text).offset_lt (Nat.lt_succ_self index) hlength
    rw [hbegin, hend] at hle
    exact absurd hle (by simp only; omega)
  have hlabel : ¬(header.label ∧ header.boundary = some header.last) := by
    rintro ⟨-, hlast⟩
    have := Option.some.inj (hboundary.symm.trans hlast)
    omega
  have hquiet : Quiet (tokenize text).toArray header.last index := by
    cases hsound.ends with
    | text hnone => simp [hboundary] at hnone
    | label hl hsome => exact absurd ⟨hl, hsome⟩ hlabel
    | token b hsome hlt hquiet =>
      obtain rfl := Option.some.inj (hboundary.symm.trans hsome)
      exact hquiet
  refine .raise header.last index (hsound.closes hlabel fun l hl => ?_) hlt hlength (fun l hl => ?_)
    (hstart.trans hend) (hstop.trans hbegin) (Fix.insertion_eq hnew)
  · exact (isLexed_lexemes text).closed_of_lt hl hlt hlength
  · obtain ⟨m, hm, hm', hl⟩ := mem_between hl
    exact tokenIs_lexeme (p := Lexeme.isTrivia) (hquiet m (by omega) hm') hl

/-! ### Parentheses -/

/-- The run of a header behind its keyword. -/
theorem header {s : Segment} (hs : s ∈ c.outline.segments) {keyword : Text} {i j : Nat}
    (hends : Parentheses.ends? (Parentheses.headerTail c.outline s keyword) = some (i, j))
    (hclosed : Termination.hasUnterminated c.outline i j = false) :
    i ≤ j ∧ Opens (lexemes text) i ∧ Closes (lexemes text) j ∧
      ∃ k < i, c.outline.at_ k (·.isKeyword [keyword]) ∧
        ∀ m l, k < m → m < i → (lexemes text)[m]? = some l → l.isTrivia := by
  have hsound := h.segment_sound hs
  obtain ⟨hij, hj, hopens, hkeyword⟩ := h.with_default.opens_header hs hends
  refine ⟨hij, hopens, ?_, hkeyword⟩
  rw [hj]
  have hkind := (h.with_default.header hs hends).1
  refine hsound.closes (fun hlabel => (hsound.label hlabel.1).1 hkind) fun l hl => ?_
  exact h.with_default.closed hclosed (hj ▸ hij) (hj ▸ Nat.le_refl j) hl

theorem repair_of_wrapping {s : Segment} (hs : s ∈ c.outline.segments)
    {keyword message description : Text} {rs : List Remark}
    (hrs : Parentheses.wrapping c (Parentheses.headerTail c.outline s keyword) message description =
      .ok rs) (hr : r ∈ rs) (hfix : r.fix = some fix)
    (hclosed : ∀ i j, Parentheses.ends? (Parentheses.headerTail c.outline s keyword) = some (i, j) →
      Termination.hasUnterminated c.outline i j = false) :
    Repair (lexemes text) fix := by
  obtain ⟨i, j, first, last, hends, hfirst, hlast, hspan, hnew, -⟩ :=
    Parentheses.wrapping_spec hrs hr hfix
  obtain ⟨hij, hopens, hcloses, -⟩ := h.header hs hends (hclosed i j hends)
  obtain ⟨hstart, hstop, -⟩ := Span.between_spec hspan
  obtain ⟨-, hbegin, -⟩ := h.token hfirst
  obtain ⟨-, -, hend⟩ := h.token hlast
  refine .wrap i j hopens hcloses hij (hstart.trans hbegin) (hstop.trans hend) ?_
  rw [Fix.insertion_eq hnew, hbegin, hend, h.with_default.sourceOf_offset (by omega)]

theorem repair_of_unwrapped {s : Segment} (hs : s ∈ c.outline.segments) {rs : List Remark}
    (hrs : Parentheses.unwrapped c s = .ok rs) (hr : r ∈ rs) (hfix : r.fix = some fix) :
    Repair (lexemes text) fix := by
  obtain ⟨message, hwrap, hclosed⟩ := Parentheses.unwrapped_spec hrs hr
  exact h.repair_of_wrapping hs hwrap hr hfix hclosed

end Context.Reads

end HouseStyle
