import HouseStyle.Proofs.Engine.CodeKept

/-! Fixing in rounds. A text is never emptied, so that it can be fixed again. A round applies a fix
as soon as it finds one, and a text for which it finds none stays as it is. -/

namespace HouseStyle

/-! ### One round -/

section

variable {text filePath : Text} {findings : List Finding}

theorem splice_ne_nil {ps : List Proposal} (hne : text ≠ []) (h : ∀ p ∈ ps, p.fix.Fits text) :
    splice text 0 ps ≠ [] := by
  cases ps with
  | nil => simpa [splice] using hne
  | cons p rest =>
    have hlength := List.length_pos_of_ne_nil hne
    rw [splice, List.drop_zero, ← List.length_pos_iff, List.length_append, List.length_append,
      List.length_take]
    rcases (h p (by simp)).leaves with hinsertion | hstart
    · have := List.length_pos_of_ne_nil hinsertion
      omega
    · have hstart : 0 < p.span.start := hstart
      omega

/-- Fixes that fit do not empty a text. -/
theorem applyFixes_text_ne_nil (hne : text ≠ []) (h : ∀ f ∈ findings, f.Builtin text filePath) :
    (applyFixes text findings).text ≠ [] := by
  refine splice_ne_nil hne fun p hp => ?_
  obtain ⟨e, he, rfl⟩ := mem_applied text findings (List.mem_reverse.mp hp)
  exact (repair_of_mem_applied h he).2.1

/-- A fix that fits is applied, or skipped for the sake of another one that is. -/
theorem applied_ne_nil {p : Proposal} (hp : p ∈ proposals findings)
    (hinside : p.span.stop ≤ text.length) : (applyFixes text findings).applied ≠ [] := by
  intro hnil
  have haccepted : (selected text findings).accepted = [] := by
    rw [← List.reverse_eq_nil_iff, ← applied_map_proposal, hnil, List.map_nil]
  have hperm := (selected_perm text findings).mem_iff.mpr hp
  rw [haccepted, List.reverse_nil, List.nil_append, List.map_reverse, List.mem_reverse] at hperm
  obtain ⟨k, hk, rfl⟩ := List.mem_map.mp hperm
  have hjustified := (select_sound text.length findings).justified k hk
  unfold Selection.Justified at hjustified
  split at hjustified
  · omega
  · rw [haccepted] at hjustified
    cases hjustified.1

theorem applyFixes_nil (text : Text) :
    (applyFixes text []).text = text ∧ (applyFixes text []).applied = [] := by
  simp [applyFixes, proposals, select, splice, placeEdits]

/-- Where there are findings whose fixes may be applied, one is applied. -/
theorem applied_eq_nil_iff (h : ∀ f ∈ findings, f.Builtin text filePath)
    (hcandidates : ∀ f ∈ findings, f.isCandidate) :
    (applyFixes text findings).applied = [] ↔ findings = [] := by
  constructor
  · intro hnil
    by_contra hne
    obtain ⟨f, hf⟩ := List.exists_mem_of_ne_nil findings hne
    have hcandidate := hcandidates f hf
    simp only [Finding.isCandidate, Bool.and_eq_true, Bool.not_eq_true'] at hcandidate
    obtain ⟨fix, hfix⟩ := Option.isSome_iff_exists.mp hcandidate.2
    have hmem : (⟨f, fix⟩ : Proposal) ∈ proposals findings := by
      refine (proposals_perm findings).mem_iff.mpr (List.mem_filterMap.mpr ⟨f, hf, ?_⟩)
      rw [Proposal.ofFinding?, hcandidate.1, hfix]
      rfl
    exact applied_ne_nil hmem ((h f hf).repair hfix).2.1.inside hnil
  · rintro rfl
    exact (applyFixes_nil text).2

end

/-! ### Many rounds -/

namespace Engine

variable {e : Engine} {text filePath : Text}

theorem isCandidate_of_mem_fixable {findings : List Finding} {f : Finding}
    (h : f ∈ e.fixable findings) : f.isCandidate := by
  have := (List.mem_filter.mp h).2
  simp only [Bool.and_eq_true, Bool.not_eq_true'] at this
  simp [Finding.isCandidate, this.1.1, this.1.2]

/-- The text after a number of rounds, each on the text that the one before gives. -/
def rounds (e : Engine) (filePath : Text) : Nat → Text → Try Text
  | 0, text => .ok text
  | n + 1, text => do
    let (result, _) ← e.fixContent text filePath
    e.rounds filePath n result.text

theorem rounds_succ {result : FixResult} {checked : Checked}
    (h : e.fixContent text filePath = .ok (result, checked)) (n : Nat) :
    e.rounds filePath (n + 1) text = e.rounds filePath n result.text := by
  rw [rounds, h]
  rfl

theorem rounds_add {text' : Text} {n : Nat} (h : e.rounds filePath n text = .ok text') (m : Nat) :
    e.rounds filePath (n + m) text = e.rounds filePath m text' := by
  induction n generalizing text with
  | zero =>
    cases h
    rw [Nat.zero_add]
  | succ n ih =>
    cases hround : e.fixContent text filePath with
    | error fault =>
      rw [rounds, hround] at h
      cases h
    | ok pair =>
      obtain ⟨result, checked⟩ := pair
      rw [rounds_succ hround] at h
      rw [Nat.add_right_comm, rounds_succ hround]
      exact ih h

/-- A text that one round leaves as it is stays so. -/
theorem rounds_of_fixed {result : FixResult} {checked : Checked}
    (h : e.fixContent text filePath = .ok (result, checked)) (htext : result.text = text) (m : Nat) :
    e.rounds filePath m text = .ok text := by
  induction m with
  | zero => rfl
  | succ m ih => rw [rounds_succ h, htext, ih]

namespace IsDefault

variable (h : e.IsDefault)
include h

/-- One round gives a text that is not empty, and another one unless it applies no fix. -/
theorem round (hne : text ≠ []) (filePath : Text) :
    ∃ result checked, e.fixContent text filePath = .ok (result, checked) ∧ result.text ≠ [] ∧
      (result.applied = [] ↔ e.fixable checked.findings = []) ∧
      (result.applied = [] → result.text = text) := by
  obtain ⟨result, checked, hresult, htext, happlied, hbuiltin⟩ := h.fixContent hne filePath
  have hiff : result.applied = [] ↔ e.fixable checked.findings = [] := by
    rw [happlied]
    exact applied_eq_nil_iff hbuiltin fun f hf => isCandidate_of_mem_fixable hf
  refine ⟨result, checked, hresult, ?_, hiff, fun hnil => ?_⟩
  · rw [htext]
    exact applyFixes_text_ne_nil hne hbuiltin
  · rw [htext, hiff.mp hnil]
    exact (applyFixes_nil text).1

theorem rounds (hne : text ≠ []) (filePath : Text) (n : Nat) :
    ∃ here, e.rounds filePath n text = .ok here ∧ here ≠ [] := by
  induction n generalizing text with
  | zero => exact ⟨text, rfl, hne⟩
  | succ n ih =>
    obtain ⟨result, checked, hresult, hne', -⟩ := h.round hne filePath
    rw [rounds_succ hresult]
    exact ih hne'

end IsDefault

end Engine

/-- Any text that is not empty can be fixed in any number of rounds under the default configuration.
A round applies no fix exactly where it finds none that may be applied, and from then on every round
gives the same text. -/
theorem fixContent_rounds (text filePath : Text) (hne : text ≠ []) (n : Nat) :
    ∃ engine here result checked, Engine.create {} = .ok engine ∧
      engine.rounds filePath n text = .ok here ∧
      engine.fixContent here filePath = .ok (result, checked) ∧
      (result.applied = [] ↔ engine.fixable checked.findings = []) ∧
      (result.applied = [] → ∀ m, engine.rounds filePath (n + m) text = .ok here) := by
  obtain ⟨engine, hengine, hdefault⟩ := Engine.create_default
  obtain ⟨here, hrounds, hne'⟩ := hdefault.rounds hne filePath n
  obtain ⟨result, checked, hresult, -, hiff, hfixed⟩ := hdefault.round hne' filePath
  refine ⟨engine, here, result, checked, hengine, hrounds, hresult, hiff, fun hnil m => ?_⟩
  rw [Engine.rounds_add hrounds]
  exact Engine.rounds_of_fixed hresult (hfixed hnil) m

end HouseStyle
