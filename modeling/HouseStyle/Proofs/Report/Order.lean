import HouseStyle.Finding.Basic
import HouseStyle.Proofs.Value.Sorted

/-! Report order. Sorting keeps the order of equal keys, so picking some findings out of a sorted
list is sorting the picked ones. The rule is part of the key: a sorted list is known once it is known
what each rule has in it. -/

namespace HouseStyle

open Std

namespace Finding

instance instTransCmpCompareKeys : TransCmp compareKeys :=
  inferInstanceAs <| TransCmp <|
    compareLex (fun a b : Finding => Text.compare a.filePath b.filePath) <|
      compareLex (fun a b : Finding => compare a.line b.line) <|
        compareLex (fun a b : Finding => compare a.column b.column) <|
          compareLex (fun a b : Finding => Text.compare a.ruleId b.ruleId)
            fun a b : Finding => Text.compare a.message b.message

variable {f g : Finding} {fs gs : List Finding}

theorem ruleId_eq_of_compareKeys (h : compareKeys f g = .eq) : f.ruleId = g.ruleId := by
  simp only [compareKeys, Ordering.then_eq_eq] at h
  exact Text.eq_of_compare h.2.2.2.1

theorem mem_sort : f ∈ sort fs ↔ f ∈ fs := List.mem_mergeSort

/-- Sorted findings are in report order. -/
theorem sort_pairwise (fs : List Finding) : (sort fs).Pairwise fun f g => (compareKeys f g).isLE :=
  pairwise_mergeSort_of_transCmp fs

/-- Findings in report order stay as they are. -/
theorem sort_eq_of_pairwise (h : fs.Pairwise fun f g => (compareKeys f g).isLE) : sort fs = fs :=
  mergeSort_eq_of_pairwise h

/-- The findings that are picked out of a report are those picked before, in report order. -/
theorem filter_sort (p : Finding → Bool) (fs : List Finding) :
    (sort fs).filter p = sort (fs.filter p) :=
  filter_mergeSort p fs

/-- A report is known by what each rule has in it. -/
theorem sort_eq_of_filter_ruleId
    (h : ∀ id, fs.filter (·.ruleId = id) = gs.filter (·.ruleId = id)) : sort fs = sort gs := by
  refine eq_of_sameOfKeys (sort_pairwise fs) (sort_pairwise gs) fun f => ?_
  have hpick (fs : List Finding) : (sort fs).filter (fun g => compareKeys f g = .eq) =
      (sort (fs.filter (·.ruleId = f.ruleId))).filter fun g => compareKeys f g = .eq := by
    rw [← filter_sort, List.filter_filter]
    refine List.filter_congr fun g _ => ?_
    by_cases hg : compareKeys f g = .eq
    · simp [hg, ruleId_eq_of_compareKeys hg]
    · simp [hg]
  rw [hpick fs, hpick gs, h]

end Finding

end HouseStyle
