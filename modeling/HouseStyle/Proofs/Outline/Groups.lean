import HouseStyle.Proofs.Outline.Nested

/-! Open groups. The scan counts the groups open inside the innermost brace, and keeps the count of
each brace that it enters. Whether a bracket is still open can also be told from the pairs. -/

namespace HouseStyle.Outline

/-- How many groups are open inside the innermost brace of a stack. -/
def openGroups (stack : List Frame) : Nat := (stack.takeWhile (!·.isBrace)).length

theorem openGroups_cons_group (mark : Char) (k : Nat) (stack : List Frame) :
    openGroups (.group mark k :: stack) = openGroups stack + 1 := by
  rw [openGroups, List.takeWhile_cons_of_pos rfl, List.length_cons, openGroups]

theorem openGroups_cons_brace {frame : Frame} (h : frame.isBrace) (stack : List Frame) :
    openGroups (frame :: stack) = 0 := by
  simp [openGroups, h]

theorem openGroups_append {above : List Frame} (habove : ∀ frame ∈ above, frame.isBrace = false)
    (stack : List Frame) : openGroups (above ++ stack) = above.length + openGroups stack := by
  rw [openGroups, List.takeWhile_append_of_pos (by simpa using habove), List.length_append, openGroups]

/-- A block opens outside all groups, and a closure knows how many it interrupts. -/
def Frame.Grouped (frame : Frame) (below : List Frame) : Prop :=
  match frame with
  | .group _ _ => True
  | .block _ => openGroups below = 0
  | .closure _ _ depth => depth = openGroups below

/-- The scan knows how many groups are open inside the innermost brace. -/
structure Scan.Grouped (s : Scan) : Prop where
  depth : s.groupDepth = openGroups s.stack
  frames : EachFrame Frame.Grouped s.stack

variable {tokens : Array Token} {end_ : Text} {s s' : Scan} {i : Nat} {t : Token}

namespace Scan

theorem Grouped.step (h : s.Grouped) {nesting : Array Nat}
    (hstep : Step tokens end_ { s with nesting } i t s') : s'.Grouped := by
  have hbelow {above below : List Frame} {frame : Frame} (hstack : s.stack = above ++ frame :: below) :
      frame.Grouped below ∧ EachFrame Frame.Grouped below := by
    have hframes := h.frames
    rw [hstack] at hframes
    exact hframes.of_append
  cases hstep with
  | pass | take => exact ⟨h.depth, h.frames⟩
  | newline | terminator | label =>
    constructor
    · simpa using h.depth
    · simpa using h.frames
  | openGroup mark hmark ht =>
    refine ⟨?_, trivial, h.frames⟩
    exact (congrArg (· + 1) h.depth).trans (openGroups_cons_group mark i s.stack).symm
  | openBlock run headers hrun ht hgroup =>
    refine ⟨?_, h.depth.symm.trans hgroup, h.frames⟩
    rw [openGroups_cons_brace rfl]
    simpa using hgroup
  | openClosure run hrun ht =>
    exact ⟨(openGroups_cons_brace rfl s.stack).symm, h.depth, h.frames⟩
  | closeGroup above mark k below hstack habove ht =>
    refine ⟨?_, (hbelow hstack).2⟩
    have hdepth := h.depth
    rw [show s.stack = above ++ .group mark k :: below from hstack,
      openGroups_append fun f hf => (habove f hf).1, openGroups_cons_group] at hdepth
    simp only [hdepth]
    omega
  | closeBlock above k below hstack habove ht =>
    exact ⟨(hbelow hstack).1.symm, (hbelow hstack).2⟩
  | closeClosure above k resume depth below hstack habove ht =>
    exact ⟨(hbelow hstack).1, (hbelow hstack).2⟩

end Scan

/-! ### Openness by pairs -/

/-- Whether what a bracket opens is still open at an index: no pair that began there or earlier has
ended in between. -/
def StillOpen (partners : Array (Option Nat)) (a i : Nat) : Prop :=
  a < i ∧ ∀ c d, partnerIn partners c = some d → c ≤ a → a < d → i ≤ d

/-- Whether no group is open at an index but outside a brace that is open there. -/
def OutsideGroups (tokens : Array Token) (partners : Array (Option Nat)) (i : Nat) : Prop :=
  ∀ a, tokenIs tokens (·.isMark '(') a ∨ tokenIs tokens (·.isMark '[') a → StillOpen partners a i →
    ∃ b, a < b ∧ tokenIs tokens (·.isMark '{') b ∧ StillOpen partners b i

theorem EachFrame.exists_below {P : Frame → List Frame → Prop} {stack : List Frame}
    (h : EachFrame P stack) {frame : Frame} (hframe : frame ∈ stack) : ∃ below, P frame below := by
  obtain ⟨above, below, rfl⟩ := List.append_of_mem hframe
  exact ⟨below, h.of_append.1⟩

namespace Scan

/-- Pairs made from an index on leave open what is open there. -/
theorem Grows.stillOpen_iff (h : s.Grows i s') {a k : Nat} (hk : k ≤ i) :
    StillOpen s'.partners a k ↔ StillOpen s.partners a k := by
  refine and_congr_right fun ha => ⟨fun hopen c d hcd => hopen c d (h.kept c d hcd), ?_⟩
  intro hopen c d hcd hca had
  rcases h.added c d hcd with hcd | rfl | rfl
  · exact hopen c d hcd hca had
  · omega
  · exact hk

theorem Grows.outsideGroups (h : s.Grows i s') {k : Nat} (hk : k ≤ i)
    (houtside : OutsideGroups tokens s.partners k) : OutsideGroups tokens s'.partners k := by
  intro a ha hopen
  obtain ⟨b, hab, hbrace, hb⟩ := houtside a ha ((h.stillOpen_iff hk).mp hopen)
  exact ⟨b, hab, hbrace, (h.stillOpen_iff hk).mpr hb⟩

namespace Nested

/-- A pair around an open bracket would stand higher than the bracket on both sides. -/
theorem stillOpen_of_mem (h : s.Nested tokens i) {frame : Frame} (hframe : frame ∈ s.stack) :
    StillOpen s.partners frame.index i := by
  obtain ⟨hlt, hfree, -⟩ := h.waits frame hframe
  obtain ⟨below, hlevel, hdeeper⟩ := h.holds.exists_below hframe
  refine ⟨hlt, fun c d hcd hca had => ?_⟩
  by_contra hdi
  have hne : c ≠ frame.index := by
    rintro rfl
    rw [hfree] at hcd
    cases hcd
  obtain ⟨hsame, hinside⟩ := h.spans c d hcd (by omega)
  have := hinside frame.index (by omega) had
  have := hdeeper d had (by omega)
  omega

theorem mem_of_stillOpen (h : s.Nested tokens i) {a : Nat} (hopens : OpensAt tokens a)
    (hopen : StillOpen s.partners a i) : ∃ frame ∈ s.stack, frame.index = a := by
  refine (h.openers a hopen.1 hopens).resolve_right ?_
  rintro ⟨c, d, hcd, hca, had⟩
  have := hopen.2 c d hcd hca had
  have := h.lt (h.symm c d hcd)
  omega

/-- Where the innermost open bracket is a brace, no group is open but outside it. -/
theorem outsideGroups (h : s.Nested tokens i) (hgroups : openGroups s.stack = 0) :
    OutsideGroups tokens s.partners i := by
  intro a ha hopen
  obtain ⟨frame, hframe, rfl⟩ := h.mem_of_stillOpen (a := a)
    (by
      rcases ha with ha | ha
      · exact ⟨('(', ')'), by decide, ha⟩
      · exact ⟨('[', ']'), by decide, ha⟩) hopen
  have hgroup : frame.isBrace = false := by
    by_contra hbrace
    obtain ⟨t, ht, hmark⟩ := tokenIs_iff.mp (h.mark_of_isBrace hframe (by simpa using hbrace))
    rw [tokenIs_of_getElem? ht, tokenIs_of_getElem? ht] at ha
    rcases ha with ha | ha <;> exact absurd (isMark_unique hmark ha) (by decide)
  obtain ⟨top, rest, hstack⟩ := List.exists_cons_of_ne_nil (List.ne_nil_of_mem hframe)
  have hbrace : top.isBrace := by
    by_contra hbrace
    rw [hstack, openGroups, List.takeWhile_cons_of_pos (by simpa using hbrace)] at hgroups
    cases hgroups
  have htop : top ∈ s.stack := by simp [hstack]
  have hrest : frame ∈ rest := by
    rw [hstack] at hframe
    refine (List.mem_cons.mp hframe).resolve_left ?_
    rintro rfl
    rw [hgroup] at hbrace
    cases hbrace
  have hsorted := h.sorted
  rw [hstack] at hsorted
  exact ⟨top.index, List.rel_of_pairwise_cons hsorted hrest, h.mark_of_isBrace htop hbrace,
    h.stillOpen_of_mem htop⟩

end Nested
end Scan
end HouseStyle.Outline
