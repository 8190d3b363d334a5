import HouseStyle.Proofs.Report.Order
import HouseStyle.Proofs.Session.Threshold
import HouseStyle.Proofs.Workers.Pool

/-! Who works on a batch. The files are worked on one after the other, or by a pool of workers, and
then the outcomes are gathered as they come. A report looks them up in the order of the files, so it
is the same whoever did the work. A file that fails leaves one line in it, and all else is as if the
file had not been there. -/

namespace HouseStyle

namespace Batch

/-! ### Runs of a batch -/

/-- The outcomes that a run gathers. Only with several files and several workers is there a pool. -/
inductive Ran (workers : Int) (work : Text → Outcome) (files : List Text) : Outcomes → Prop
  | loop (h : files.length ≤ 1 ∨ workers ≤ 1) : Ran workers work files (ofWork work files)
  | pool {finished outcomes : Outcomes} (hfiles : 1 < files.length) (hworkers : 1 < workers)
    (h : Pool.Completes workers.toNat work files finished) (hgathered : outcomes.Perm finished) :
    Ran workers work files outcomes

/-- The findings and the errors that a file leaves in a report. -/
def left (path : Text) : Outcome → List Finding × List Text
  | .ok outcome => (outcome.findings, outcome.errors)
  | .error fault => ([], [errorLine path fault])

def fails : Outcome → Bool
  | .ok _ => false
  | .error _ => true

variable {workers : Int} {work : Text → Outcome} {files : List Text} {outcomes : Outcomes}
  {path : Text}

/-- No run gets stuck. -/
theorem exists_ran (workers : Int) (work : Text → Outcome) (files : List Text) :
    ∃ outcomes, Ran workers work files outcomes := by
  by_cases h : files.length ≤ 1 ∨ workers ≤ 1
  · exact ⟨_, .loop h⟩
  · obtain ⟨hfiles, hworkers⟩ := not_or.mp h
    obtain ⟨finished, hfinished⟩ : ∃ finished, Pool.Completes workers.toNat work files finished :=
      Pool.exists_completes (by omega) files
    exact ⟨finished, .pool (by omega) (by omega) hfinished (.refl _)⟩

/-- A run gathers one outcome for each file. -/
theorem Ran.perm (h : Ran workers work files outcomes) : outcomes.Perm (ofWork work files) := by
  cases h with
  | loop => exact .refl _
  | pool _ _ hfinished hgathered => exact hgathered.trans hfinished.perm

theorem Ran.lookup (h : Ran workers work files outcomes) (hpath : path ∈ files) :
    outcomes.lookup path = some (work path) :=
  Pool.lookup_of_perm h.perm hpath

/-! ### What is collected -/

/-- What is collected is what the files left, one after the other. -/
theorem Ran.collect_eq (h : Ran workers work files outcomes) :
    collect files outcomes =
      { findings := files.flatMap fun f => (left f (work f)).1
        errors := files.flatMap fun f => (left f (work f)).2
        filesChecked := (files.filter fun f => !fails (work f)).length
        fixes := files.flatMap fun f => (work f).toOption.toList.flatMap (·.fix.toList) } := by
  have hdone : done files outcomes = files.flatMap fun f => (work f).toOption.toList := by
    rw [← List.filterMap_eq_flatMap_toList]
    exact List.filterMap_congr fun f hf => by rw [h.lookup hf, Option.bind_some]
  have hfindings (f : Text) :
      (work f).toOption.toList.flatMap (·.findings) = (left f (work f)).1 := by
    cases work f <;> simp [left, Except.toOption]
  have herrors : files.flatMap (errorsOf outcomes) = files.flatMap fun f => (left f (work f)).2 := by
    refine List.flatMap_congr fun f hf => ?_
    rw [errorsOf, h.lookup hf]
    cases work f <;> rfl
  have hlength (f : Text) : (work f).toOption.toList.length = if fails (work f) then 0 else 1 := by
    cases work f <;> rfl
  rw [collect_spec, hdone, herrors]
  simp only [List.flatMap_assoc, hfindings, List.length_flatMap, hlength]
  congr 1
  clear h hdone herrors
  induction files with
  | nil => rfl
  | cons f files ih => cases hf : fails (work f) <;> simp [hf, ih, Nat.add_comm]

/-- The order of the work makes no difference. -/
theorem Ran.collect_eq_loop (h : Ran workers work files outcomes) :
    collect files outcomes = collect files (ofWork work files) := by
  have hloop : Ran 1 work files (ofWork work files) := .loop (.inr le_rfl)
  rw [h.collect_eq, hloop.collect_eq]

end Batch

namespace Session

open Batch

/-- The report on a batch does not depend on who did the work, nor when. It holds what each file
left, in the order of the files; a file that fails leaves its one line and no finding, and without
the file all else would be the same. -/
theorem report_ran (s : Session) (workers : Int) (work : Text → Outcome) (files : List Text) :
    (∃ outcomes, Ran workers work files outcomes) ∧
    ∀ outcomes, Ran workers work files outcomes →
      let collected := collect files outcomes
      let report := s.report (s.errors ++ collected.errors) collected
      let looped := collect files (ofWork work files)
      report = s.report (s.errors ++ looped.errors) looped ∧
      report.findings = Finding.sort (files.flatMap fun f => (left f (work f)).1) ∧
      report.errors = s.errors ++ files.flatMap (fun f => (left f (work f)).2) ∧
      report.filesChecked + (files.filter fun f => fails (work f)).length = files.length ∧
      ∀ before path after fault, files = before ++ path :: after → work path = .error fault →
        ∀ others, Ran workers work (before ++ after) others →
          let spared := collect (before ++ after) others
          report.findings = (s.report (s.errors ++ spared.errors) spared).findings ∧
          report.filesChecked = spared.filesChecked ∧
          ∃ first last, spared.errors = first ++ last ∧
            first = before.flatMap (fun f => (left f (work f)).2) ∧
            report.errors = s.errors ++ first ++ errorLine path fault :: last := by
  refine ⟨exists_ran workers work files, fun outcomes h => ?_⟩
  dsimp only [report, Report.ofFindings]
  refine ⟨by rw [h.collect_eq_loop], by rw [h.collect_eq], by rw [h.collect_eq], ?_, ?_⟩
  · rw [h.collect_eq]
    simpa using (List.length_eq_length_filter_add fun f => !fails (work f)).symm
  · rintro before path after fault rfl hfault others hothers
    rw [h.collect_eq, hothers.collect_eq]
    refine ⟨by simp [hfault, left], by simp [hfault, fails], _, _,
      List.flatMap_append, rfl, ?_⟩
    simp [hfault, left]

end Session

end HouseStyle
