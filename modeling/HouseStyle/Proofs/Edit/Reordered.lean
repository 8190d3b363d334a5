import HouseStyle.Proofs.Edit.ConflictFree
import HouseStyle.Proofs.Report.Order
import Mathlib.Data.List.Forall2

/-! The order in which findings are handed over. Fixes are taken in the order of their keys, so only
findings with one key can change places, and where such findings are equal the outcome is the same.
What equality of findings passes over, metadata and origins, the choice of fixes passes over too. -/

namespace HouseStyle

open Std

/-- Lists of the same items are sorted alike, if items with one key are one. -/
theorem mergeSort_eq_of_perm {α : Type} {cmp : α → α → Ordering} [TransCmp cmp] {xs ys : List α}
    (h : xs.Perm ys) (hkeys : ∀ a ∈ xs, ∀ b ∈ xs, cmp a b = .eq → a = b) :
    (xs.mergeSort fun a b => cmp a b != .gt) = ys.mergeSort fun a b => cmp a b != .gt := by
  refine List.Perm.eq_of_pairwise (fun a b ha hb hab hba => ?_) (pairwise_mergeSort_of_transCmp xs)
    (pairwise_mergeSort_of_transCmp ys) ?_
  · rw [List.mem_mergeSort] at ha hb
    exact hkeys a ha b (h.mem_iff.mpr hb) (OrientedCmp.isLE_antisymm hab hba)
  · exact (List.mergeSort_perm xs _).trans (h.trans (List.mergeSort_perm ys _).symm)

/-- Whether two findings would be taken at one place: their fixes have one span, and they are of one
rule with one message. -/
def Finding.SharesKey (f g : Finding) : Prop :=
  f.suppressed = false ∧ g.suppressed = false ∧
    (∃ a ∈ f.fix, ∃ b ∈ g.fix, a.span.start = b.span.start ∧ a.span.stop = b.span.stop) ∧
    f.ruleId = g.ruleId ∧ f.message = g.message

/-! ### Findings without what equality passes over -/

def Finding.bare (f : Finding) : Finding := { f with metadata := .map [], origin := none }

theorem Finding.same_iff {f g : Finding} : f.same g ↔ f.bare = g.bare := by
  simp [Finding.same, Finding.bare, and_assoc]

namespace Proposal

def bare (p : Proposal) : Proposal := ⟨p.finding.bare, p.fix⟩

theorem sharesKey_of_compareKeys {f g : Finding} {p q : Proposal} (hp : ofFinding? f = some p)
    (hq : ofFinding? g = some q) (h : compareKeys p q = .eq) : f.SharesKey g := by
  unfold ofFinding? at hp hq
  split_ifs at hp hq with hf hg
  obtain ⟨a, ha, rfl⟩ := Option.map_eq_some_iff.mp hp
  obtain ⟨b, hb, rfl⟩ := Option.map_eq_some_iff.mp hq
  simp only [compareKeys, Ordering.then_eq_eq, Nat.compare_eq_eq] at h
  exact ⟨by simpa using hf, by simpa using hg, ⟨a, ha, b, hb, h.1, h.2.1⟩,
    Text.eq_of_compare h.2.2.1, Text.eq_of_compare h.2.2.2⟩

end Proposal

/-- Findings that differ at most where no key does are taken in one order. -/
theorem proposals_eq_of_perm {findings others : List Finding} (h : findings.Perm others)
    (hkeys : ∀ f ∈ findings, ∀ g ∈ findings, f.SharesKey g → f = g) :
    proposals findings = proposals others := by
  refine mergeSort_eq_of_perm (h.filterMap _) fun p hp q hq hkey => ?_
  obtain ⟨f, hf, hp⟩ := List.mem_filterMap.mp hp
  obtain ⟨g, hg, hq⟩ := List.mem_filterMap.mp hq
  obtain rfl := hkeys f hf g hg (Proposal.sharesKey_of_compareKeys hp hq hkey)
  exact Option.some.inj (hp.symm.trans hq)

/-! ### Choosing among bare findings -/

def SkipReason.bare : SkipReason → SkipReason
  | .outside => .outside
  | .overlap blocker => .overlap blocker.bare

def Skipped.bare (k : Skipped) : Skipped := ⟨k.proposal.bare, k.reason.bare⟩

def AppliedEdit.bare (e : AppliedEdit) : AppliedEdit := ⟨e.proposal.bare, e.newSpan⟩

/-- A report of a skipped fix is the same for a bare finding. -/
theorem Skipped.toFinding_bare (k : Skipped) : k.bare.toFinding = k.toFinding := by
  obtain ⟨p, reason⟩ := k
  cases reason <;> rfl

theorem proposals_bare (findings : List Finding) :
    proposals (findings.map Finding.bare) = (proposals findings).map Proposal.bare := by
  have hof : Proposal.ofFinding? ∘ Finding.bare =
      fun f => (Proposal.ofFinding? f).map Proposal.bare := by
    funext f
    cases hopen : f.suppressed <;> cases hfix : f.fix <;>
      simp [Proposal.ofFinding?, Finding.bare, Proposal.bare, hopen, hfix]
  have hkeys (p q : Proposal) : p.keyLe q = p.bare.keyLe q.bare := rfl
  rw [proposals, proposals, List.map_mergeSort fun p _ q _ => hkeys p q, List.filterMap_map,
    List.map_filterMap, hof]

namespace Selection

def bare (s : Selection) : Selection where
  accepted := s.accepted.map Proposal.bare
  skipped := s.skipped.map Skipped.bare
  reach := s.reach
  blocker := s.blocker.bare

theorem bare_accept (s : Selection) (p : Proposal) : (s.accept p).bare = s.bare.accept p.bare := by
  unfold accept bare
  rw [apply_ite Proposal.bare]
  rfl

theorem bare_step (size : Nat) (s : Selection) (p : Proposal) :
    (s.step size p).bare = s.bare.step size p.bare := by
  have hlast : s.bare.accepted.head? = s.accepted.head?.map Proposal.bare := List.head?_map
  unfold step
  rw [hlast]
  cases s.accepted.head? with
  | none =>
    simp only [apply_ite bare, bare_accept, Option.map_none]
    rfl
  | some last =>
    simp only [apply_ite bare, bare_accept, Option.map_some]
    rfl

theorem bare_select (size : Nat) (ps : List Proposal) :
    (select size ps).bare = select size (ps.map Proposal.bare) := by
  have hfoldl (s : Selection) : (ps.foldl (step size) s).bare =
      (ps.map Proposal.bare).foldl (step size) s.bare := by
    induction ps generalizing s with
    | nil => rfl
    | cons p rest ih => rw [List.foldl_cons, ih, bare_step, List.map_cons, List.foldl_cons]
  exact hfoldl {}

end Selection

theorem splice_bare (text : Text) (cursor : Nat) (ps : List Proposal) :
    splice text cursor (ps.map Proposal.bare) = splice text cursor ps := by
  induction ps generalizing cursor with
  | nil => rfl
  | cons p rest ih =>
    rw [List.map_cons, splice, splice, ← ih]
    rfl

theorem placeEdits_bare (shift : Int) (ps : List Proposal) :
    placeEdits shift (ps.map Proposal.bare) = (placeEdits shift ps).map AppliedEdit.bare := by
  induction ps generalizing shift with
  | nil => rfl
  | cons p rest ih =>
    rw [List.map_cons, placeEdits, placeEdits, List.map_cons, ← ih]
    rfl

/-- Applying bare findings gives the same text with the same edits and reports. -/
theorem applyFixes_bare (text : Text) (findings : List Finding) :
    (applyFixes text (findings.map Finding.bare)).text = (applyFixes text findings).text ∧
    (applyFixes text (findings.map Finding.bare)).applied =
      (applyFixes text findings).applied.map AppliedEdit.bare ∧
    (applyFixes text (findings.map Finding.bare)).skippedFindings =
      (applyFixes text findings).skippedFindings := by
  have hselect : select text.length (proposals (findings.map Finding.bare)) =
      (select text.length (proposals findings)).bare := by
    rw [proposals_bare, Selection.bare_select]
  have haccepted : (select text.length (proposals (findings.map Finding.bare))).accepted.reverse =
      (select text.length (proposals findings)).accepted.reverse.map Proposal.bare := by
    rw [hselect, List.map_reverse]
    rfl
  refine ⟨?_, ?_, ?_⟩
  · simp only [applyFixes, haccepted, splice_bare]
  · simp only [applyFixes, haccepted, placeEdits_bare]
  · simp only [FixResult.skippedFindings, applyFixes, hselect, Selection.bare, List.map_reverse,
      List.map_map]
    congr 2
    funext k
    exact k.toFinding_bare

/-! ### The order handed over -/

/-- Applying fixes does not depend on the order in which the findings are handed over, as long as
findings with one key are equal: the text, the applied edits and the reports of skipped fixes are the
same, one by one. If they are equal in metadata and origin too, so is all of the outcome. -/
theorem applyFixes_perm (text : Text) {findings others : List Finding} (hperm : findings.Perm others)
    (hkeys : ∀ f ∈ findings, ∀ g ∈ findings, f.SharesKey g → f.same g) :
    (applyFixes text findings).text = (applyFixes text others).text ∧
    List.Forall₂ (fun d e : AppliedEdit => d.proposal.finding.same e.proposal.finding ∧
        d.proposal.fix = e.proposal.fix ∧ d.oldSpan = e.oldSpan ∧ d.newSpan = e.newSpan)
      (applyFixes text findings).applied (applyFixes text others).applied ∧
    (applyFixes text findings).skippedFindings = (applyFixes text others).skippedFindings ∧
    ((∀ f ∈ findings, ∀ g ∈ findings, f.SharesKey g → f = g) →
      applyFixes text findings = applyFixes text others) := by
  have hbare : applyFixes text (findings.map Finding.bare) =
      applyFixes text (others.map Finding.bare) := by
    rw [applyFixes, applyFixes, proposals_eq_of_perm (hperm.map _)]
    intro f hf g hg hkey
    obtain ⟨f', hf', rfl⟩ := List.mem_map.mp hf
    obtain ⟨g', hg', rfl⟩ := List.mem_map.mp hg
    exact Finding.same_iff.mp (hkeys f' hf' g' hg' hkey)
  obtain ⟨htext, happlied, hskipped⟩ := applyFixes_bare text findings
  obtain ⟨htext', happlied', hskipped'⟩ := applyFixes_bare text others
  refine ⟨?_, ?_, ?_, fun heq => ?_⟩
  · rw [← htext, ← htext', hbare]
  · have hedits : List.Forall₂ (· = ·) ((applyFixes text findings).applied.map AppliedEdit.bare)
        ((applyFixes text others).applied.map AppliedEdit.bare) := by
      rw [List.forall₂_eq_eq_eq, ← happlied, ← happlied', hbare]
    rw [List.forall₂_map_left_iff, List.forall₂_map_right_iff] at hedits
    refine hedits.imp fun d e hde => ?_
    simp only [AppliedEdit.bare, Proposal.bare, AppliedEdit.mk.injEq, Proposal.mk.injEq] at hde
    obtain ⟨⟨hfinding, hfix⟩, hspan⟩ := hde
    exact ⟨Finding.same_iff.mpr hfinding, hfix, congrArg Fix.span hfix, hspan⟩
  · rw [← hskipped, ← hskipped', hbare]
  · rw [applyFixes, applyFixes, proposals_eq_of_perm hperm heq]

/-- A finding that is there twice and one whose fix overlaps its fix, in two orders. -/
theorem applyFixes_perm_twice :
    let f : Finding :=
      { ruleId := "b", message := "m", severity := .info, category := .safety,
        location := ⟨"a", 1, 1, 1, 1⟩, span := .point 0,
        fix := some ⟨⟨0, 2, by decide⟩, .text "xyz", []⟩ }
    let g : Finding := { f with ruleId := "a", fix := some ⟨⟨1, 3, by decide⟩, .text [], []⟩ }
    (∀ a ∈ [f, g, f], ∀ b ∈ [f, g, f], a.SharesKey b → a = b) ∧
      applyFixes "abc" [f, g, f] = applyFixes "abc" [f, f, g] ∧
      (applyFixes "abc" [f, f, g]).text = "xyzc" ∧ (applyFixes "abc" [f, f, g]).skippedCount = 2 := by
  intro f g
  have hkeys : ∀ a ∈ [f, g, f], ∀ b ∈ [f, g, f], a.SharesKey b → a = b := by
    simp [f, g, Finding.SharesKey, Text.ofString]
  have hsame : ∀ a ∈ [f, g, f], ∀ b ∈ [f, g, f], a.SharesKey b → a.same b := fun a ha b hb h =>
    Finding.same_iff.mpr (congrArg Finding.bare (hkeys a ha b hb h))
  have hordered : proposals [f, f, g] = [f, f, g].filterMap Proposal.ofFinding? :=
    mergeSort_eq_of_pairwise (by decide +kernel)
  have htext : (applyFixes "abc" [f, f, g]).text = "xyzc" := by
    rw [applyFixes, hordered]
    decide +kernel
  have hskipped : (applyFixes "abc" [f, f, g]).skippedCount = 2 := by
    rw [applyFixes, hordered]
    decide +kernel
  exact ⟨hkeys, (applyFixes_perm "abc" (.cons f (.swap f g [])) hsame).2.2.2 hkeys, htext, hskipped⟩

end HouseStyle
