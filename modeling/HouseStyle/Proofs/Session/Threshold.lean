import HouseStyle.Proofs.Engine.Checked
import HouseStyle.Session

/-! Reports and the threshold. A report holds what the files gave that did not fail. Whatever an
engine finds in a text reaches its threshold, so the report on a check does too. The report on a
fixing run also names the fixes that were skipped; those are remarks of the lowest severity, and no
threshold keeps them out. -/

namespace HouseStyle

/-! ### Batches -/

namespace Batch

/-- The outcomes of the files that did not fail, in the order of the files. -/
def done (files : List Text) (outcomes : Outcomes) : List FileOutcome :=
  files.filterMap fun path => (outcomes.lookup path).bind Except.toOption

variable {files : List Text} {outcomes : Outcomes} {path : Text}

/-- The errors that a file leaves. -/
def errorsOf (outcomes : Outcomes) (path : Text) : List Text :=
  match outcomes.lookup path with
  | some (.ok outcome) => outcome.errors
  | some (.error fault) => [errorLine path fault]
  | none => []

theorem collect_eq_foldl (files : List Text) (outcomes : Outcomes) :
    collect files outcomes =
      files.foldl (fun c path => (outcomes.lookup path).elim c (c.add path)) {} := by
  unfold collect
  congr 1
  funext c path
  cases outcomes.lookup path <;> rfl

/-- A batch holds what the files that did not fail gave, and the errors of all files. -/
theorem collect_spec (files : List Text) (outcomes : Outcomes) :
    collect files outcomes =
      { findings := (done files outcomes).flatMap (·.findings)
        errors := files.flatMap (errorsOf outcomes)
        filesChecked := (done files outcomes).length
        fixes := (done files outcomes).flatMap (·.fix.toList) } := by
  have hfrom (c : Collected) :
      files.foldl (fun c path => (outcomes.lookup path).elim c (c.add path)) c =
        { findings := c.findings ++ (done files outcomes).flatMap (·.findings)
          errors := c.errors ++ files.flatMap (errorsOf outcomes)
          filesChecked := c.filesChecked + (done files outcomes).length
          fixes := c.fixes ++ (done files outcomes).flatMap (·.fix.toList) } := by
    induction files generalizing c with
    | nil => simp [done]
    | cons path rest ih =>
      rw [List.foldl_cons, ih]
      cases hfound : outcomes.lookup path with
      | none => simp [done, errorsOf, hfound]
      | some outcome =>
        cases outcome <;>
          simp [done, errorsOf, hfound, Collected.add, Except.toOption, Nat.add_assoc, Nat.add_comm]
  rw [collect_eq_foldl, hfrom]
  simp

theorem mem_of_mem_done {o : FileOutcome} (h : o ∈ done files outcomes) :
    ∃ path, (path, .ok o) ∈ outcomes := by
  obtain ⟨path, -, h⟩ := List.mem_filterMap.mp h
  obtain ⟨outcome, hlookup, h⟩ := Option.bind_eq_some_iff.mp h
  obtain ⟨before, after, houtcomes, -⟩ := List.lookup_eq_some_iff.mp hlookup
  cases outcome with
  | error fault => cases h
  | ok o =>
    cases h
    exact ⟨path, by simp [houtcomes]⟩

theorem eq_of_mem_ofWork {work : Text → Outcome} {outcome : Outcome}
    (h : (path, outcome) ∈ ofWork work files) : outcome = work path := by
  obtain ⟨f, -, hf⟩ := List.mem_map.mp h
  cases hf
  rfl

theorem exists_of_mem_ofChanges {work : FileTree → Text → Outcome × FileTree} {tree : FileTree}
    {outcome : Outcome} (h : (path, outcome) ∈ (ofChanges work tree files).1) :
    ∃ tree, outcome = (work tree path).1 := by
  induction files generalizing tree with
  | nil => cases h
  | cons f rest ih =>
    rcases List.mem_cons.mp h with h | h
    · cases h
      exact ⟨tree, rfl⟩
    · exact ih h

end Batch

/-! ### Files -/

namespace Severity

theorem le_of_not_lt {a b : Severity} (h : ¬b.lt a) : a.le b := by
  simpa [le, lt] using h

theorem info_le (a : Severity) : info.le a := by
  cases a <;> rfl

theorem le_info {a : Severity} : a.le info ↔ a = info := by
  cases a <;> decide

end Severity

theorem Skipped.toFinding_severity (k : Skipped) : k.toFinding.severity = .info := by
  obtain ⟨p, reason⟩ := k
  cases reason <;> rfl

namespace Engine

variable {e : Engine} {tree : FileTree} {path : Text} {outcome : FileOutcome}

/-- What is found in a text reaches the threshold. -/
theorem checkText_threshold {text : Text} {checked : Checked}
    (h : e.checkText text path = .ok checked) :
    ∀ f ∈ checked.findings, e.threshold.le f.severity := by
  obtain ⟨context, -, hfindings⟩ := checkText_spec h
  intro f hf
  rw [hfindings] at hf
  obtain ⟨g, -, hscreened⟩ := List.mem_filterMap.mp hf
  obtain ⟨hlow, rfl | rfl⟩ := screened_spec hscreened
  · exact Severity.le_of_not_lt hlow
  · exact Severity.le_of_not_lt hlow

theorem checkFile_threshold (h : e.checkFile tree path = .ok outcome) :
    ∀ f ∈ outcome.findings, e.threshold.le f.severity := by
  obtain ⟨text, -, h⟩ := bind_eq_ok.mp h
  obtain ⟨checked, hchecked, h⟩ := bind_eq_ok.mp h
  cases h
  exact checkText_threshold hchecked

/-- What a fixed text gives: findings that reach the threshold, and the skipped fixes. -/
theorem outcomeOfFix_spec {checked : Checked} {result : FixResult}
    (hchecked : ∀ f ∈ checked.findings, e.threshold.le f.severity)
    (h : e.outcomeOfFix path checked result = .ok outcome) :
    outcome.fix = some result ∧ ∃ left, (∀ f ∈ left, e.threshold.le f.severity) ∧
      outcome.findings = left ++ result.skippedFindings := by
  unfold outcomeOfFix at h
  dsimp only at h
  split_ifs at h
  · obtain ⟨left, hleft, h⟩ := bind_eq_ok.mp h
    cases h
    exact ⟨rfl, left.findings, checkText_threshold hleft, rfl⟩
  · cases h
    exact ⟨rfl, checked.findings, hchecked, rfl⟩

theorem fixFile_spec (h : (e.fixFile tree path).1 = .ok outcome) :
    ∃ result, outcome.fix = some result ∧ ∃ left, (∀ f ∈ left, e.threshold.le f.severity) ∧
      outcome.findings = left ++ result.skippedFindings := by
  unfold fixFile at h
  split at h
  · cases h
  · next result checked hfixed =>
    obtain ⟨text, -, hfixed⟩ := bind_eq_ok.mp hfixed
    obtain ⟨checked, hchecked, hfixed⟩ := bind_eq_ok.mp hfixed
    obtain ⟨result, -, hpair⟩ := bind_eq_ok.mp hfixed
    cases hpair
    obtain ⟨written, -, h⟩ := bind_eq_ok.mp h
    exact ⟨written, outcomeOfFix_spec (checkText_threshold hchecked) h⟩

end Engine

/-! ### Reports -/

namespace Session

variable {s : Session} {tree : FileTree} {target : Text} {f : Finding}

theorem mem_report {errors : List Text} {files : List Text} {outcomes : Batch.Outcomes} :
    f ∈ (s.report errors (Batch.collect files outcomes)).findings ↔
      ∃ outcome ∈ Batch.done files outcomes, f ∈ outcome.findings := by
  rw [Batch.collect_spec]
  exact List.mem_mergeSort.trans List.mem_flatMap

/-- The report on a check holds what was found in some files of the tree. -/
theorem exists_of_mem_check {report : Report} {session : Session}
    (h : s.check tree target = .ok (report, session)) (hf : f ∈ report.findings) :
    ∃ path outcome, s.engine.checkFile tree path = .ok outcome ∧ f ∈ outcome.findings := by
  obtain ⟨⟨files, missing⟩, -, h⟩ := bind_eq_ok.mp h
  obtain ⟨_, -, h⟩ := bind_eq_ok.mp h
  cases h
  obtain ⟨outcome, hdone, hf⟩ := mem_report.mp hf
  obtain ⟨path, hmem⟩ := Batch.mem_of_mem_done hdone
  exact ⟨path, outcome, (Batch.eq_of_mem_ofWork hmem).symm, hf⟩

/-- The report on a fixing run holds what fixed files gave. -/
theorem fix_spec {fixed : Fixed} (h : s.fix tree target = .ok fixed) :
    ∃ outcomes : List FileOutcome,
      (∀ outcome ∈ outcomes, ∃ tree path, (s.engine.fixFile tree path).1 = .ok outcome) ∧
      (∀ f, f ∈ fixed.report.findings ↔ ∃ outcome ∈ outcomes, f ∈ outcome.findings) ∧
      fixed.results = outcomes.flatMap (·.fix.toList) := by
  obtain ⟨⟨files, missing⟩, -, h⟩ := bind_eq_ok.mp h
  obtain ⟨_, -, h⟩ := bind_eq_ok.mp h
  cases h
  refine ⟨Batch.done files _, ?_, fun f => mem_report, ?_⟩
  · intro outcome hdone
    obtain ⟨path, hmem⟩ := Batch.mem_of_mem_done hdone
    obtain ⟨tree, houtcome⟩ := Batch.exists_of_mem_ofChanges hmem
    exact ⟨tree, path, houtcome.symm⟩
  · rw [Batch.collect_spec]

theorem reaches_or_skipped {fixed : Fixed} (h : s.fix tree target = .ok fixed)
    (hf : f ∈ fixed.report.findings) :
    s.engine.threshold.le f.severity ∨ ∃ result ∈ fixed.results, f ∈ result.skippedFindings := by
  obtain ⟨outcomes, hfixed, hfindings, hresults⟩ := fix_spec h
  obtain ⟨outcome, houtcome, hf⟩ := (hfindings f).mp hf
  obtain ⟨tree, path, hfile⟩ := hfixed outcome houtcome
  obtain ⟨result, hfix, left, hleft, heq⟩ := Engine.fixFile_spec hfile
  rw [heq] at hf
  rcases List.mem_append.mp hf with hf | hf
  · exact .inl (hleft f hf)
  · refine .inr ⟨result, ?_, hf⟩
    rw [hresults]
    exact List.mem_flatMap.mpr ⟨outcome, houtcome, by simp [hfix]⟩

/-- Every skipped fix is in the report. -/
theorem mem_of_mem_skippedFindings {fixed : Fixed} (h : s.fix tree target = .ok fixed)
    {result : FixResult} (hresult : result ∈ fixed.results) (hf : f ∈ result.skippedFindings) :
    f ∈ fixed.report.findings := by
  obtain ⟨outcomes, hfixed, hfindings, hresults⟩ := fix_spec h
  rw [hresults] at hresult
  obtain ⟨outcome, houtcome, hresult⟩ := List.mem_flatMap.mp hresult
  obtain ⟨tree, path, hfile⟩ := hfixed outcome houtcome
  obtain ⟨result', hfix, left, -, heq⟩ := Engine.fixFile_spec hfile
  obtain rfl : result = result' := by simpa [hfix] using hresult
  refine (hfindings f).mpr ⟨outcome, houtcome, ?_⟩
  rw [heq]
  exact List.mem_append_right left hf

/-- Every finding in the report on a check reaches the threshold. In the report on a fixing run one
that does not is a skipped fix, and skipped fixes are remarks of the lowest severity: all findings
reach the threshold only if it is the lowest one, or no fix was skipped. -/
theorem report_threshold (s : Session) (tree : FileTree) (target : Text) :
    (∀ report session, s.check tree target = .ok (report, session) →
      ∀ f ∈ report.findings, s.engine.threshold.le f.severity) ∧
    (∀ fixed, s.fix tree target = .ok fixed →
      (∀ f ∈ fixed.report.findings, s.engine.threshold.le f.severity ∨
        ∃ result ∈ fixed.results, f ∈ result.skippedFindings) ∧
      ((∀ f ∈ fixed.report.findings, s.engine.threshold.le f.severity) ↔
        s.engine.threshold = .info ∨ ∀ result ∈ fixed.results, result.skipped = [])) := by
  refine ⟨fun report session h f hf => ?_, fun fixed h => ?_⟩
  · obtain ⟨path, outcome, houtcome, hf⟩ := exists_of_mem_check h hf
    exact s.engine.checkFile_threshold houtcome f hf
  refine ⟨fun f hf => reaches_or_skipped h hf, ?_⟩
  constructor
  · intro hall
    by_cases hinfo : s.engine.threshold = .info
    · exact .inl hinfo
    · refine .inr fun result hresult => List.eq_nil_iff_forall_not_mem.mpr fun k hk => ?_
      have hmem : k.toFinding ∈ result.skippedFindings := List.mem_map_of_mem hk
      have hle := hall _ (mem_of_mem_skippedFindings h hresult hmem)
      rw [k.toFinding_severity] at hle
      exact hinfo (Severity.le_info.mp hle)
  · rintro (hinfo | hnone) f hf
    · rw [hinfo]
      exact f.severity.info_le
    · rcases reaches_or_skipped h hf with hle | ⟨result, hresult, hf⟩
      · exact hle
      · rw [FixResult.skippedFindings, hnone result hresult] at hf
        cases hf

end Session

end HouseStyle
