import HouseStyle.Proofs.Text.Order
import Mathlib.Data.List.Basic

/-! Which fixes are taken. Proposals come in order of their starts, so an accepted fix that ends
last is also the one accepted last, and to be clear of it is to be clear of all of them. -/

namespace HouseStyle

open Std

/-! ### The order of proposals -/

instance Proposal.instTransCmpCompareKeys : TransCmp Proposal.compareKeys :=
  inferInstanceAs <| TransCmp <|
    compareLex (fun a b : Proposal => compare a.span.start b.span.start) <|
      compareLex (fun a b : Proposal => compare a.span.stop b.span.stop) <|
        compareLex (fun a b : Proposal => Text.compare a.finding.ruleId b.finding.ruleId)
          fun a b : Proposal => Text.compare a.finding.message b.finding.message

theorem Proposal.start_le_of_compareKeys {a b : Proposal} (h : (compareKeys a b).isLE) :
    a.span.start ≤ b.span.start := by
  by_contra hlt
  have : compare a.span.start b.span.start = .gt := Nat.compare_eq_gt.mpr (by omega)
  simp [compareKeys, this] at h

theorem proposals_pairwise (findings : List Finding) :
    (proposals findings).Pairwise fun a b => a.span.start ≤ b.span.start :=
  (pairwise_mergeSort_of_transCmp _).imp Proposal.start_le_of_compareKeys

theorem proposals_perm (findings : List Finding) :
    (proposals findings).Perm (findings.filterMap Proposal.ofFinding?) :=
  List.mergeSort_perm _ _

/-! ### Clear spans -/

/-- A span that starts after another one does, and not before its end. -/
def Span.Follows (s t : Span) : Prop := t.start < s.start ∧ t.stop ≤ s.start

theorem Span.Follows.not_overlaps {s t : Span} (h : s.Follows t) : s.overlaps t = false := by
  obtain ⟨hstart, hstop⟩ := h
  simp only [overlaps, Bool.or_eq_false_iff, decide_eq_false_iff_not, Bool.and_eq_false_iff]
  omega

theorem Span.overlaps_comm (s t : Span) : s.overlaps t = t.overlaps s := by
  simp only [overlaps, Bool.and_comm, eq_comm]

/-- Among spans that start no earlier, the ones that do not overlap are those that follow. -/
theorem Span.follows_of_not_overlaps {s t : Span} (hle : t.start ≤ s.start)
    (h : s.overlaps t = false) : s.Follows t := by
  have := s.start_le_stop
  simp only [overlaps, Bool.or_eq_false_iff, decide_eq_false_iff_not, Bool.and_eq_false_iff] at h
  constructor <;> omega

theorem Span.Follows.trans {s t u : Span} (h₁ : s.Follows t) (h₂ : t.Follows u) : s.Follows u := by
  have := t.start_le_stop
  obtain ⟨_, _⟩ := h₁
  obtain ⟨_, _⟩ := h₂
  constructor <;> omega

namespace Selection

/-! ### One proposal -/

/-- What a step can do: skip a proposal outside the text, one that overlaps the last accepted fix
or one that starts before an accepted fix ends, and accept any other. -/
theorem step_cases (size : Nat) (s : Selection) (p : Proposal) :
    (size < p.span.stop ∧ s.step size p = s.skip p .outside) ∨
    (∃ last, s.accepted.head? = some last ∧ p.span.overlaps last.span = true ∧
      s.step size p = s.skip p (.overlap last)) ∨
    (p.span.start < s.reach ∧ (∀ last, s.accepted.head? = some last →
      p.span.overlaps last.span = false) ∧ s.step size p = s.skip p (.overlap s.blocker)) ∨
    (p.span.stop ≤ size ∧ (∀ last, s.accepted.head? = some last →
      p.span.overlaps last.span = false) ∧ s.step size p = s.accept p) := by
  unfold Selection.step
  by_cases hout : size < p.span.stop
  · exact .inl ⟨hout, if_pos hout⟩
  rw [if_neg hout]
  have hin : p.span.stop ≤ size := by omega
  cases hlast : s.accepted.head? with
  | none =>
    by_cases hbefore : (p.span.start : Int) < s.reach
    · exact .inr (.inr (.inl ⟨hbefore, by simp, if_pos hbefore⟩))
    · exact .inr (.inr (.inr ⟨hin, by simp, if_neg hbefore⟩))
  | some last =>
    by_cases hoverlap : p.span.overlaps last.span
    · exact .inr (.inl ⟨last, rfl, hoverlap, if_pos hoverlap⟩)
    · have hclear : ∀ l, some last = some l → p.span.overlaps l.span = false := by
        rintro l ⟨⟩
        simpa using hoverlap
      simp only [if_neg hoverlap]
      by_cases hbefore : (p.span.start : Int) < s.reach
      · exact .inr (.inr (.inl ⟨hbefore, hclear, if_pos hbefore⟩))
      · exact .inr (.inr (.inr ⟨hin, hclear, if_neg hbefore⟩))

theorem mem_step_accepted {size : Nat} {s : Selection} {p a : Proposal}
    (h : a ∈ (s.step size p).accepted) : a = p ∨ a ∈ s.accepted := by
  obtain ⟨_, hs⟩ | ⟨last, _, _, hs⟩ | ⟨_, _, hs⟩ | ⟨_, _, hs⟩ := step_cases size s p <;> rw [hs] at h
  · exact .inr h
  · exact .inr h
  · exact .inr h
  · exact List.mem_cons.mp h

/-! ### The invariant -/

/-- A skipped proposal lies outside the text, or overlaps an accepted one that it names. -/
def Justified (size : Nat) (accepted : List Proposal) (k : Skipped) : Prop :=
  match k.reason with
  | .outside => size < k.proposal.span.stop
  | .overlap blocker => blocker ∈ accepted ∧ k.proposal.span.overlaps blocker.span

/-- What holds while the proposals `seen` have been taken: accepted spans lie in the text and
follow one another, the latest first, so that the latest one is the one that reaches furthest. -/
structure Sound (size : Nat) (seen : List Proposal) (s : Selection) : Prop where
  perm : (s.accepted ++ s.skipped.map (·.proposal)).Perm seen
  follows : s.accepted.Pairwise fun later earlier => later.span.Follows earlier.span
  inside : ∀ a ∈ s.accepted, a.span.stop ≤ size
  reach_eq : s.reach = (s.accepted.head?.map fun a => (a.span.stop : Int)).getD (-1)
  justified : ∀ k ∈ s.skipped, Justified size s.accepted k

theorem sound_start (size : Nat) : Sound size [] {} :=
  ⟨.refl _, .nil, by simp, rfl, by simp⟩

variable {size : Nat} {seen : List Proposal} {s : Selection}

theorem Sound.skip (h : Sound size seen s) {p : Proposal} {reason : SkipReason}
    (hreason : Justified size s.accepted ⟨p, reason⟩) : Sound size (p :: seen) (s.skip p reason) where
  perm := List.perm_middle.trans (h.perm.cons p)
  follows := h.follows
  inside := h.inside
  reach_eq := h.reach_eq
  justified := by
    intro k hk
    rcases List.mem_cons.mp hk with rfl | hk
    · exact hreason
    · exact h.justified k hk

theorem Sound.accept (h : Sound size seen s) {p : Proposal} (hp : p.span.stop ≤ size)
    (hfollows : ∀ a ∈ s.accepted, p.span.Follows a.span) : Sound size (p :: seen) (s.accept p) where
  perm := h.perm.cons p
  follows := List.pairwise_cons.mpr ⟨hfollows, h.follows⟩
  inside := by
    intro a ha
    rcases List.mem_cons.mp ha with rfl | ha
    · exact hp
    · exact h.inside a ha
  reach_eq := by
    have hle : s.reach ≤ p.span.stop := by
      rw [h.reach_eq]
      cases hlast : s.accepted.head? with
      | none => simp
      | some last =>
        have := (hfollows last (List.mem_of_mem_head? hlast)).2
        have := p.span.start_le_stop
        simp only [Option.map_some, Option.getD_some]
        omega
    simp [Selection.accept, hle]
  justified := by
    intro k hk
    have := h.justified k hk
    unfold Justified at this ⊢
    split at this
    · exact this
    · exact ⟨List.mem_cons_of_mem p this.1, this.2⟩

/-- A proposal that starts no earlier than the accepted ones and does not overlap the last of them
follows them all. -/
theorem Sound.follows_accepted (h : Sound size seen s) {p : Proposal}
    (hp : ∀ a ∈ s.accepted, a.span.start ≤ p.span.start)
    (hclear : ∀ last, s.accepted.head? = some last → p.span.overlaps last.span = false) :
    ∀ a ∈ s.accepted, p.span.Follows a.span := by
  have hfollows := h.follows
  cases haccepted : s.accepted with
  | nil => simp
  | cons last earlier =>
    rw [haccepted] at hfollows hp hclear
    have hlast := Span.follows_of_not_overlaps (hp last (by simp)) (hclear last rfl)
    intro a ha
    rcases List.mem_cons.mp ha with rfl | ha
    · exact hlast
    · exact hlast.trans ((List.pairwise_cons.mp hfollows).1 a ha)

/-- A proposal that starts no earlier than the accepted ones is taken when it lies in the text and
follows them all; else it is skipped for a reason that holds. -/
theorem Sound.step (h : Sound size seen s) {p : Proposal}
    (hp : ∀ a ∈ s.accepted, a.span.start ≤ p.span.start) :
    Sound size (p :: seen) (s.step size p) := by
  obtain ⟨hout, hs⟩ | ⟨last, hlast, hoverlap, hs⟩ | ⟨hbefore, hclear, hs⟩ | ⟨hin, hclear, hs⟩ :=
    step_cases size s p <;> rw [hs]
  · exact h.skip hout
  · exact h.skip ⟨List.mem_of_mem_head? hlast, hoverlap⟩
  · -- the last accepted fix reaches furthest, and the proposal starts after it
    have hfollows := h.follows_accepted hp hclear
    rw [h.reach_eq] at hbefore
    cases hlast : s.accepted.head? with
    | none => simp [hlast] at hbefore; omega
    | some last =>
      have := (hfollows last (List.mem_of_mem_head? hlast)).2
      simp only [hlast, Option.map_some, Option.getD_some] at hbefore
      omega
  · exact h.accept hin (h.follows_accepted hp hclear)

/-! ### All proposals -/

/-- What every step keeps holds after all proposals, if they come in the order of their starts. -/
theorem foldl_induction {P : List Proposal → Selection → Prop}
    (hstep : ∀ seen s p, P seen s → (∀ a ∈ s.accepted, a.span.start ≤ p.span.start) →
      P (p :: seen) (s.step size p))
    (h : P seen s) {ps : List Proposal} (hps : ps.Pairwise fun a b => a.span.start ≤ b.span.start)
    (hseen : ∀ a ∈ s.accepted, ∀ p ∈ ps, a.span.start ≤ p.span.start) :
    P (ps.reverse ++ seen) (ps.foldl (Selection.step size) s) := by
  induction ps generalizing seen s with
  | nil => exact h
  | cons p rest ih =>
    obtain ⟨hp, hrest⟩ := List.pairwise_cons.mp hps
    have hnext := hstep seen s p h fun a ha => hseen a ha p (by simp)
    have := ih hnext hrest fun a ha q hq => by
      rcases mem_step_accepted ha with rfl | ha
      · exact hp q hq
      · exact hseen a ha q (List.mem_cons_of_mem p hq)
    simpa using this

/-! ### Blockers -/

/-- A proposal is skipped for one that starts no later. -/
def Ordered (s : Selection) : Prop :=
  ∀ k ∈ s.skipped, ∀ blocker, k.reason = .overlap blocker → blocker.span.start ≤ k.proposal.span.start

theorem Ordered.skip (h : s.Ordered) {p : Proposal} {reason : SkipReason}
    (hp : ∀ blocker, reason = .overlap blocker → blocker.span.start ≤ p.span.start) :
    (s.skip p reason).Ordered := by
  intro k hk blocker hreason
  rcases List.mem_cons.mp hk with rfl | hk
  · exact hp blocker hreason
  · exact h k hk blocker hreason

theorem Ordered.step (h : s.Ordered) (hs : s.Sound size seen) {p : Proposal}
    (hp : ∀ a ∈ s.accepted, a.span.start ≤ p.span.start) : (s.step size p).Ordered := by
  have hsound := hs.step hp
  have hskip {reason : SkipReason} (heq : s.step size p = s.skip p reason) :
      (s.step size p).Ordered := by
    rw [heq] at hsound ⊢
    refine h.skip fun blocker hreason => hp blocker ?_
    have hjustified := hsound.justified ⟨p, reason⟩ List.mem_cons_self
    simp only [Justified, hreason] at hjustified
    exact hjustified.1
  obtain ⟨-, heq⟩ | ⟨last, -, -, heq⟩ | ⟨-, -, heq⟩ | ⟨-, -, heq⟩ := step_cases size s p
  · exact hskip heq
  · exact hskip heq
  · exact hskip heq
  · rw [heq]
    exact h

end Selection

theorem select_ordered (size : Nat) (findings : List Finding) :
    (select size (proposals findings)).Ordered := by
  refine (Selection.foldl_induction (P := fun seen s => s.Sound size seen ∧ s.Ordered)
    (fun seen s p h hp => ⟨h.1.step hp, h.2.step h.1 hp⟩) ⟨Selection.sound_start size, ?_⟩
    (proposals_pairwise findings) (by simp)).2
  simp [Selection.Ordered]

/-- The selection among the proposals of findings is sound. -/
theorem select_sound (size : Nat) (findings : List Finding) :
    Selection.Sound size (proposals findings).reverse (select size (proposals findings)) := by
  have := Selection.foldl_induction (fun _ _ _ h hp => h.step hp) (Selection.sound_start size)
    (proposals_pairwise findings) (by simp)
  rwa [List.append_nil] at this

end HouseStyle
