import HouseStyle.Session

/-! Checks one after the other. A session keeps the errors that it meets, and nothing else of a check.
So a later check finds what it would find at first, but its report lists the errors of all checks
before it in front of its own: it is the report of a fresh session only if there were none. -/

namespace HouseStyle

/-- A report with some errors in front of its own. -/
def Report.after (errors : List Text) (report : Report) : Report :=
  { report with errors := errors ++ report.errors }

namespace Session

/-- A session with some errors in front of its own. -/
def after (errors : List Text) (s : Session) : Session := { s with errors := errors ++ s.errors }

/-- The session after some checks. A check that fails leaves it as it was. -/
def checks (s : Session) (tree : FileTree) : List Text → Session
  | [] => s
  | target :: rest =>
    match s.check tree target with
    | .ok (_, later) => later.checks tree rest
    | .error _ => s.checks tree rest

/-- The errors that a check of a fresh session reports. -/
def errorsAlone (engine : Engine) (tree : FileTree) (target : Text) : List Text :=
  match ({ engine } : Session).check tree target with
  | .ok (report, _) => report.errors
  | .error _ => []

variable {s later : Session} {tree : FileTree} {target : Text} {report : Report}

/-! ### One check -/

/-- Errors from before come in front, and make no other difference to a check. -/
theorem check_after (errors : List Text) (s : Session) (tree : FileTree) (target : Text) :
    (s.after errors).check tree target =
      (s.check tree target).map fun (report, later) => (report.after errors, later.after errors) := by
  have hfiles : (s.after errors).filesOf tree target = s.filesOf tree target := rfl
  have hworkers (files : List Text) : (s.after errors).checkWorkers files = s.checkWorkers files := rfl
  rw [check, check, hfiles]
  cases s.filesOf tree target with
  | error fault => rfl
  | ok found =>
    obtain ⟨files, missing⟩ := found
    simp only [bind, Except.bind, hworkers]
    cases s.checkWorkers files with
    | error fault => rfl
    | ok _ =>
      simp only [pure, Except.pure, Except.map, after, Report.after, Session.report,
        Report.ofFindings, List.append_assoc]

/-- A session keeps its engine, and the errors that it has reported. -/
theorem check_later (h : s.check tree target = .ok (report, later)) :
    later = { s with errors := report.errors } := by
  rw [check] at h
  cases hfiles : s.filesOf tree target with
  | error fault =>
    rw [hfiles] at h
    cases h
  | ok found =>
    obtain ⟨files, missing⟩ := found
    rw [hfiles] at h
    simp only [bind, Except.bind] at h
    cases hworkers : s.checkWorkers files with
    | error fault =>
      rw [hworkers] at h
      cases h
    | ok _ =>
      rw [hworkers] at h
      cases h
      rfl

/-! ### Many checks -/

/-- The errors of all checks pile up. -/
theorem checks_eq (engine : Engine) (errors : List Text) (tree : FileTree) (targets : List Text) :
    ({ engine, errors } : Session).checks tree targets =
      { engine, errors := errors ++ targets.flatMap (errorsAlone engine tree) } := by
  induction targets generalizing errors with
  | nil => rw [List.flatMap_nil, List.append_nil, checks]
  | cons target rest ih =>
    have hafter := check_after errors { engine } tree target
    rw [after, List.append_nil] at hafter
    rw [List.flatMap_cons, checks, hafter, errorsAlone]
    cases hcheck : ({ engine } : Session).check tree target with
    | error fault =>
      rw [List.nil_append]
      exact ih errors
    | ok result =>
      obtain ⟨report, later⟩ := result
      obtain rfl := check_later hcheck
      rw [← List.append_assoc]
      exact ih (errors ++ report.errors)

/-- A check on a used session is the check on a fresh one, with the errors of all checks before it
in front. The two reports are equal just if no check before would report an error on its own. -/
theorem check_after_checks (engine : Engine) (tree : FileTree) (targets : List Text)
    (target : Text) :
    let fresh : Session := { engine }
    let used := fresh.checks tree targets
    let earlier := targets.flatMap (errorsAlone engine tree)
    used = fresh.after earlier ∧
    used.check tree target = (fresh.check tree target).map
      (fun (report, later) => (report.after earlier, later.after earlier)) ∧
    ∀ report later, fresh.check tree target = .ok (report, later) →
      ((∃ later', used.check tree target = .ok (report, later')) ↔
        ∀ t ∈ targets, errorsAlone engine tree t = []) := by
  intro fresh used earlier
  have hused : used = fresh.after earlier := by
    rw [after, List.append_nil]
    exact checks_eq engine [] tree targets
  refine ⟨hused, hused ▸ check_after earlier fresh tree target, fun report later h => ?_⟩
  rw [hused, check_after, h, ← List.flatMap_eq_nil_iff]
  constructor
  · rintro ⟨later', hlater⟩
    cases hreport : report with
    | mk findings filesChecked rulesApplied errors warnings fixesApplied fixesSkipped =>
      rw [hreport] at hlater
      have herrors : earlier ++ errors = errors := by
        have := congrArg (fun r : Try (Report × Session) => r.toOption.map (·.1.errors)) hlater
        simpa [Except.map, Except.toOption, Report.after] using this
      exact List.append_left_eq_self.mp herrors
  · intro hnone
    refine ⟨later, ?_⟩
    have hearlier : earlier = [] := hnone
    rw [hearlier]
    rfl

end Session

end HouseStyle
