import HouseStyle.Proofs.Outline.Forest
import HouseStyle.Proofs.Rule.Builtin

/-! No rule that comes with the checker fails, and what it remarks on lies in the text. A span goes
from one token to a later one, or over a part of one comment, so it is never the wrong way round. -/

namespace HouseStyle

open Outline Rule

/-- A remark that lies in the first `size` symbols of a text, and so does its fix. -/
structure Remark.Within (size : Nat) (r : Remark) : Prop where
  span : r.span.stop ≤ size
  fix : ∀ fix ∈ r.fix, fix.span.stop ≤ size

theorem Remark.Within.of_no_fix {size : Nat} {r : Remark} (hspan : r.span.stop ≤ size)
    (hfix : r.fix = none) : r.Within size :=
  ⟨hspan, by simp [hfix]⟩

/-- What a rule gives that does not fail: remarks within a text. -/
def Rule.Gives (size : Nat) (remarks : Except RuleFailure (List Remark)) : Prop :=
  ∃ rs, remarks = .ok rs ∧ ∀ r ∈ rs, r.Within size

namespace Rule.Gives

variable {size : Nat}

theorem ok {rs : List Remark} (h : ∀ r ∈ rs, r.Within size) : Gives size (.ok rs) :=
  ⟨rs, rfl, h⟩

theorem nil : Gives size (.ok []) :=
  ok (by simp)

theorem singleton {r : Remark} (h : r.Within size) : Gives size (.ok [r]) :=
  ok (by simpa using h)

/-- Remarks are collected without a failure where no item fails. -/
theorem collect {α : Type} {f : α → Except RuleFailure (List Remark)} {xs : List α}
    (h : ∀ x ∈ xs, Gives size (f x)) : Gives size (Remark.collect f xs) := by
  induction xs with
  | nil => exact nil
  | cons x xs ih =>
    obtain ⟨here, hhere, hwithin⟩ := h x (by simp)
    obtain ⟨more, hmore, hrest⟩ := ih fun y hy => h y (by simp [hy])
    refine ⟨here ++ more, ?_, ?_⟩
    · rw [Remark.collect, hhere, hmore]
      rfl
    · intro r hr
      rcases List.mem_append.mp hr with hr | hr
      · exact hwithin r hr
      · exact hrest r hr

end Rule.Gives

theorem Span.between_eq_ok {start stop : Nat} (h : start ≤ stop) :
    Span.between start stop = .ok ⟨start, stop, h⟩ :=
  dif_pos h

theorem Rule.Termination.mem_of_crowded? {reach : Nat} {tokens : List Token} {t : Token}
    (h : crowded? reach tokens = some t) : t ∈ tokens := by
  fun_induction crowded? reach tokens with
  | case1 | case2 | case4 => cases h
  | case3 reach u rest hspace ih => exact List.mem_cons_of_mem u (ih h)
  | case5 reach u rest =>
    obtain rfl := Option.some.inj h
    exact List.mem_cons_self

/-- A remark on a method is about its name. -/
theorem Rule.Members.span_of_separated {seen : List Text} {previous : Option Text} {names : List Token}
    {r : Remark} (hr : r ∈ separated seen previous names) : ∃ name ∈ names, r.span = name.span := by
  induction names generalizing seen previous with
  | nil => cases hr
  | cons name rest ih =>
    have hlater (hr : r ∈ separated (prefixOf name :: seen) (some (prefixOf name)) rest) :
        ∃ name' ∈ name :: rest, r.span = name'.span := by
      obtain ⟨name', hname, hspan⟩ := ih hr
      exact ⟨name', List.mem_cons_of_mem name hname, hspan⟩
    simp only [separated] at hr
    split_ifs at hr
    · rcases List.mem_cons.mp hr with rfl | hr
      · exact ⟨name, List.mem_cons_self, rfl⟩
      · exact hlater hr
    · exact hlater hr

namespace Context.ReadsWith

variable {c : Context} {text end_ : Text} (h : c.ReadsWith text end_)
include h

/-! ### Tokens -/

theorem token_stop_le {i : Nat} {t : Token} (ht : c.outline.token? i = some t) :
    t.stop ≤ text.length := by
  rw [(h.token ht).2.2]
  exact (offset_le_length _ _).trans (congrArg List.length (lexemes_join text)).le

/-- A token starts before a later one stops. -/
theorem start_le_stop {i j : Nat} {t u : Token} (ht : c.outline.token? i = some t)
    (hu : c.outline.token? j = some u) (hij : i ≤ j) : t.start ≤ u.stop := by
  rw [(h.token ht).2.1, (h.token hu).2.2]
  exact offset_le_offset _ (by omega)

/-- A token stops before a later one starts. -/
theorem stop_le_start {i j : Nat} {t u : Token} (ht : c.outline.token? i = some t)
    (hu : c.outline.token? j = some u) (hij : i < j) : t.stop ≤ u.start := by
  rw [(h.token ht).2.2, (h.token hu).2.1]
  exact offset_le_offset _ hij

theorem mem_of_mem_headers {block : Nat × Segment} (hblock : block ∈ c.outline.headers) :
    block.2 ∈ c.outline.segments ∧ block.2.opensBlock := by
  rw [h.outline] at hblock ⊢
  exact Outline.mem_of_mem_headers hblock

/-- The last token of a header stands before the brace of its block, with trivia between them. -/
theorem last_lt_brace {index : Nat} {header : Segment} (hblock : (index, header) ∈ c.outline.headers) :
    header.last < index ∧ Quiet c.outline.tokens header.last index := by
  obtain ⟨hsound, hboundary, -⟩ := h.sound.headers index header hblock
  cases hsound.ends with
  | text hnone => cases hboundary.symm.trans hnone
  | label hlabel =>
    have hopens := (h.mem_of_mem_headers hblock).2
    rw [(hsound.label hlabel).2] at hopens
    cases hopens
  | token b hsome hlt hquiet =>
    obtain rfl := Option.some.inj (hboundary.symm.trans hsome)
    exact ⟨hlt, hquiet⟩

/-! ### Layout -/

theorem gives_allMissing : Gives text.length (Termination.allMissing c) := by
  have hlong : c.terminator.isLong = false := by
    rw [h.terminator]
    rfl
  simp only [Termination.allMissing, hlong, Bool.and_false, Bool.false_eq_true, if_false]
  refine .ok fun r hr => ?_
  obtain ⟨s, -, hs⟩ := List.mem_filterMap.mp hr
  unfold Termination.missing at hs
  split_ifs at hs
  obtain ⟨last, hlast, rfl⟩ := Option.map_eq_some_iff.mp hs
  have hstop := h.token_stop_le hlast
  exact ⟨hstop, by simpa [Span.point] using hstop⟩

theorem gives_crowding {n : Int} (hlookahead : c.lookahead = .int n) (i : Nat) :
    Gives text.length (Termination.crowding c i) := by
  have hreach : Termination.reach c i = .ok n.toNat := by
    rw [Termination.reach, hlookahead]
    rfl
  rw [Termination.crowding, hreach]
  refine .ok fun r hr => ?_
  obtain ⟨t, ht, rfl⟩ := List.mem_map.mp hr
  have hupcoming := Termination.mem_of_crowded? (Option.mem_toList.mp ht)
  rw [Array.toList_extract] at hupcoming
  have hmem := h.mem_tokenize (List.mem_of_mem_drop (List.mem_of_mem_take hupcoming))
  exact .of_no_fix (cutFrom_of_mem_tokenize hmem).stop_le rfl

theorem gives_misplaced {block : Nat × Segment} (hblock : block ∈ c.outline.headers) :
    Gives text.length (Braces.misplaced c block) := by
  obtain ⟨index, header⟩ := block
  unfold Braces.misplaced
  simp only
  split
  · next brace last hbrace hlast =>
    have hstop := h.token_stop_le hbrace
    have hspan := Span.between_eq_ok (h.stop_le_start hlast hbrace (h.last_lt_brace hblock).1)
    split
    · exact .nil
    · split
      · exact .singleton (.of_no_fix hstop rfl)
      · rw [hspan]
        refine .singleton ⟨hstop, ?_⟩
        rintro fix ⟨⟩
        exact brace.span.start_le_stop.trans hstop
  · exact .nil

/-! ### Parentheses -/

theorem gives_wrapping {s : Segment} (hs : s ∈ c.outline.segments) (keyword message description : Text) :
    Gives text.length
      (Parentheses.wrapping c (Parentheses.headerTail c.outline s keyword) message description) := by
  unfold Parentheses.wrapping
  split
  · exact .nil
  · next i j hends =>
    split
    · next first last hfirst hlast =>
      have hstop := h.token_stop_le hlast
      rw [Span.between_eq_ok (h.start_le_stop hfirst hlast (h.header hs hends).2.1)]
      exact .singleton ⟨hstop, by simpa using hstop⟩
    · exact .nil

theorem gives_unwrapping {s : Segment} (hs : s ∈ c.outline.segments) (keyword : Text) :
    Gives text.length (Parentheses.unwrapping c (Parentheses.headerTail c.outline s keyword)) := by
  unfold Parentheses.unwrapping
  split
  · exact .nil
  · next i j hends =>
    split
    · next opener closer hopener hcloser =>
      have hstop := h.token_stop_le hcloser
      simp only [Span.between_eq_ok (h.start_le_stop hopener hcloser (h.header hs hends).2.1)]
      exact .singleton ⟨hstop, by simpa using hstop⟩
    · exact .nil

theorem gives_unwrapped {s : Segment} (hs : s ∈ c.outline.segments) :
    Gives text.length (Parentheses.unwrapped c s) := by
  simp only [Parentheses.unwrapped]
  split
  · exact h.gives_wrapping hs _ _ _
  · exact .nil

theorem gives_misgrouped {s : Segment} (hs : s ∈ c.outline.segments) :
    Gives text.length (Parentheses.misgrouped c s) := by
  simp only [Parentheses.misgrouped]
  split
  · exact .nil
  · split_ifs
    · exact .nil
    · exact h.gives_unwrapping hs _
    · exact .nil
    · exact h.gives_wrapping hs _ _ _
    · exact .nil

/-! ### Declarations, markers and members -/

theorem within_of_untyped {s : Segment} {r : Remark} (hr : r ∈ Declarations.untyped c.outline s) :
    r.Within text.length := by
  refine .of_no_fix ?_ (Declarations.untyped_fix hr)
  unfold Declarations.untyped at hr
  split_ifs at hr
  · obtain ⟨i, -, hi⟩ := List.mem_filterMap.mp hr
    obtain ⟨name, hname, rfl⟩ := Option.map_eq_some_iff.mp hi
    exact h.token_stop_le hname
  · cases hr

theorem within_of_forced {i : Nat} {r : Remark} (hr : Declarations.forced c.outline i = some r) :
    r.Within text.length := by
  refine .of_no_fix ?_ (Declarations.forced_fix hr)
  unfold Declarations.forced at hr
  split at hr
  · cases hr
  · next mark hmark =>
    split_ifs at hr
    obtain ⟨message, -, rfl⟩ := Option.map_eq_some_iff.mp hr
    exact h.token_stop_le hmark

omit h in
theorem within_of_inComment {markers : List Text} {t : Token} {r : Remark} (ht : t ∈ tokenize text)
    (hr : r ∈ Markers.inComment markers t) : r.Within text.length := by
  unfold Markers.inComment at hr
  split_ifs at hr
  · obtain ⟨m, hm, hr⟩ := List.mem_filterMap.mp hr
    have hstop := (Markers.matchesFrom_spec hm).stop_le
    have hwhole : t.start + t.text.length ≤ text.length := (cutFrom_of_mem_tokenize ht).stop_le
    simp only [Markers.Match.length] at hstop
    simp only [Markers.remark?] at hr
    split_ifs at hr with hdone hword hcolon
    · cases hr
      simp only [Bool.and_eq_true] at hdone
      rw [if_pos hdone.2] at hstop
      exact .of_no_fix (by simp only; omega) rfl
    · cases hr
      exact ⟨by simp only; omega, by rintro fix ⟨⟩; simp only; omega⟩
    · cases hr
      exact ⟨by simp only; omega, by rintro fix ⟨⟩; simp only; omega⟩
  · cases hr

theorem within_of_inType {brace : Nat} {r : Remark} (hr : r ∈ Members.inType c.outline brace) :
    r.Within text.length := by
  refine .of_no_fix ?_ (Members.inType_fix hr)
  simp only [Members.inType] at hr
  split_ifs at hr
  · cases hr
  · obtain ⟨member, -, hr⟩ := List.mem_flatMap.mp hr
    unfold Members.inMember at hr
    split_ifs at hr
    · split at hr
      · cases hr
      · split at hr
        · cases hr
        · simp only [Members.inBody] at hr
          obtain ⟨i, -, hi⟩ := List.mem_filterMap.mp hr
          split at hi
          · cases hi
          · next t ht =>
            split_ifs at hi
            cases hi
            exact h.token_stop_le ht
    · cases hr

theorem within_of_inContainer {container : Option Nat} {r : Remark}
    (hr : r ∈ Members.inContainer c.outline container) : r.Within text.length := by
  refine .of_no_fix ?_ (Members.separated_fix hr)
  obtain ⟨name, hname, hspan⟩ := Members.span_of_separated hr
  obtain ⟨s, -, hs⟩ := List.mem_filterMap.mp hname
  unfold Members.methodName? at hs
  split_ifs at hs
  obtain ⟨i, -, hi⟩ := Option.bind_eq_some_iff.mp hs
  rw [hspan]
  exact h.token_stop_le hi

/-! ### All rules -/

/-- No rule that comes with the checker fails on a text, whatever its terminator is, and whatever
number is given for the reach of a look ahead. -/
theorem gives_of_mem_builtinKinds {n : Int} (hlookahead : c.lookahead = .int n) {kind : RuleKind}
    (hkind : kind ∈ builtinKinds) :
    Gives text.length (kind.remarks kind.metadata.options c) := by
  simp only [builtinKinds, List.mem_cons, List.not_mem_nil, or_false] at hkind
  rcases hkind with rfl | rfl | rfl | rfl | rfl | rfl | rfl | rfl | rfl | rfl
  · exact h.gives_allMissing
  · exact .collect fun i _ => h.gives_crowding hlookahead i
  · exact .collect fun block hblock => h.gives_misplaced hblock
  · exact .collect fun s hs => h.gives_unwrapped hs
  · exact .collect fun s hs => h.gives_misgrouped hs
  · refine .ok fun r hr => ?_
    obtain ⟨s, -, hr⟩ := List.mem_flatMap.mp hr
    exact h.within_of_untyped hr
  · refine .ok fun r hr => ?_
    obtain ⟨i, -, hr⟩ := List.mem_filterMap.mp hr
    exact h.within_of_forced hr
  · refine .ok fun r hr => ?_
    obtain ⟨t, ht, hr⟩ := List.mem_flatMap.mp hr
    exact within_of_inComment (h.mem_tokenize ht) hr
  · refine .ok fun r hr => ?_
    obtain ⟨brace, -, hr⟩ := List.mem_flatMap.mp hr
    exact h.within_of_inType hr
  · refine .ok fun r hr => ?_
    obtain ⟨container, -, hr⟩ := List.mem_flatMap.mp hr
    exact h.within_of_inContainer hr

end Context.ReadsWith
end HouseStyle
