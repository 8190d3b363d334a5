import HouseStyle.Report.Format
import HouseStyle.Proofs.Report.Emitted
import Mathlib.Algebra.BigOperators.Group.List.Lemmas
import Mathlib.Algebra.GroupWithZero.Nat

/-! The summary of a document. The number of findings of each rule is that of the findings in the
document. The number of all findings and that of each severity leave out suppressed findings, also in
a document that holds them: such a summary describes its document exactly where no finding in it is
suppressed. -/

namespace HouseStyle

/-- A mapping from names to numbers. -/
def Value.counts (counts : List (Text × Nat)) : Value :=
  .record (counts.map fun (name, n) => (name, .nat n))

namespace Document

/-- What a summary tells: the number of some findings and how many of them are of each severity, and
how many findings each rule has among some. -/
structure Describes (v : Value) (counted ruled : List Finding) : Prop where
  total : v.at? ["summary", "total_findings"] = some (.nat counted.length)
  severities : ∃ counts : List (Text × Nat),
    v.at? ["summary", "by_severity"] = some (.counts counts) ∧
    (counts.map Prod.snd).sum = counted.length ∧
    ∀ severity : Severity, counts.lookup severity.name =
      some (counted.countP (·.severity = severity))
  rules : ∃ counts : List (Text × Nat), v.at? ["summary", "by_rule"] = some (.counts counts) ∧
    (counts.map Prod.snd).sum = ruled.length ∧
    (∀ id, id ∈ counts.map Prod.fst ↔ ∃ f ∈ ruled, f.ruleId = id) ∧
    ∀ id, (counts.lookup id).getD 0 = ruled.countP (·.ruleId = id)

variable {fs : List Finding}

/-! ### Rules -/

/-- How many of some findings each rule has, by increasing rule id. -/
def countsOfRules (fs : List Finding) : List (Text × Nat) :=
  (Finding.increasingIds fs).map fun id => (id, fs.countP (·.ruleId = id))

theorem ruleCounts_toRecord (fs : List Finding) : ruleCounts (fs.map Finding.toRecord) =
    .ok ((countsOfRules fs).map fun (id, n) => (.text id, n)) := by
  unfold ruleCounts
  rw [Finding.ruleIds_toRecord, ok_bind, Finding.increasing_toRecord]
  refine congrArg Except.ok ?_
  rw [countsOfRules, List.map_map, List.map_map]
  refine List.map_congr_left fun id _ => Prod.ext rfl ?_
  rw [Function.comp, List.countP_map]
  refine List.countP_congr fun f _ => ?_
  simp [Scalar.sameKey, Scalar.whole?, eq_comm]

theorem sum_countsOfRules (fs : List Finding) :
    ((countsOfRules fs).map Prod.snd).sum = fs.length := by
  have hperm : (Finding.increasingIds fs).Perm (fs.map Finding.ruleId).dedup := by
    rw [List.perm_ext_iff_of_nodup (Finding.increasingIds_nodup fs) (List.nodup_dedup _)]
    exact fun id => by rw [Finding.mem_increasingIds, List.mem_dedup, List.mem_map]
  have hcount (id : Text) : fs.countP (·.ruleId = id) = (fs.map Finding.ruleId).count id := by
    rw [List.count, List.countP_map]
    exact List.countP_congr fun f _ => by simp
  calc ((countsOfRules fs).map Prod.snd).sum
      = ((Finding.increasingIds fs).map fun id => (fs.map Finding.ruleId).count id).sum := by
        rw [countsOfRules, List.map_map]
        exact congrArg List.sum (List.map_congr_left fun id _ => hcount id)
    _ = ((fs.map Finding.ruleId).dedup.map fun id => (fs.map Finding.ruleId).count id).sum :=
        (hperm.map _).sum_eq
    _ = (fs.map Finding.ruleId).length := by
        convert List.sum_map_count_dedup_eq_length (fs.map Finding.ruleId)
        rfl
    _ = fs.length := List.length_map _

theorem lookup_map_self {β : Type} (ids : List Text) (g : Text → β) (id : Text) :
    (ids.map fun id => (id, g id)).lookup id = if id ∈ ids then some (g id) else none := by
  induction ids with
  | nil => rfl
  | cons first ids ih =>
    rw [List.map_cons, List.lookup_cons, ih]
    by_cases h : id = first
    · simp [h]
    · simp [h, beq_false_of_ne h]

theorem lookup_countsOfRules (fs : List Finding) (id : Text) :
    ((countsOfRules fs).lookup id).getD 0 = fs.countP (·.ruleId = id) := by
  rw [countsOfRules, lookup_map_self]
  split_ifs with hmem
  · rfl
  · rw [Finding.mem_increasingIds] at hmem
    refine (List.countP_eq_zero.mpr fun f hf => ?_).symm
    simpa using fun h => hmem ⟨f, hf, h⟩

/-! ### Severities -/

/-- How many of some findings are of each severity. -/
def countsOfSeverities (fs : List Finding) : List (Text × Nat) :=
  [Severity.error, .warning, .info].map fun severity =>
    (severity.name, fs.countP (·.severity = severity))

theorem sum_countsOfSeverities (fs : List Finding) :
    ((countsOfSeverities fs).map Prod.snd).sum = fs.length := by
  simp only [countsOfSeverities, List.map_cons, List.map_nil, List.sum_cons, List.sum_nil]
  induction fs with
  | nil => rfl
  | cons f fs ih =>
    simp only [List.countP_cons, List.length_cons]
    cases f.severity <;> simp <;> omega

theorem lookup_countsOfSeverities (fs : List Finding) (severity : Severity) :
    (countsOfSeverities fs).lookup severity.name =
      some (fs.countP (·.severity = severity)) := by
  cases severity <;> rfl

/-! ### Summaries -/

/-- The findings that the counts of a report are of. -/
def counted (emitted : List Finding) : List Finding := emitted.filter (!·.suppressed)

theorem counted_shown (includeSuppressed : Bool) (fs : List Finding) :
    counted (Finding.shown includeSuppressed fs) = fs.filter (!·.suppressed) := by
  rw [counted, Finding.shown, List.filter_filter]
  refine List.filter_congr fun f _ => ?_
  cases includeSuppressed <;> simp

theorem total_toRecord (r : Report) (includeSuppressed : Bool) :
    r.toRecord.total = (counted (Finding.shown includeSuppressed r.findings)).length := by
  rw [counted_shown, ← List.countP_eq_length_filter, ReportRecord.total, ReportRecord.count,
    Report.toRecord, List.countP_map]
  refine List.countP_congr fun f _ => ?_
  simp [Finding.toRecord, Value.isTrue, Scalar.isTrue]

theorem countOf_toRecord (r : Report) (includeSuppressed : Bool) (severity : Severity) :
    r.toRecord.countOf severity =
      (counted (Finding.shown includeSuppressed r.findings)).countP (·.severity = severity) := by
  rw [counted_shown, List.countP_filter, ReportRecord.countOf, ReportRecord.count,
    Report.toRecord, List.countP_map]
  refine List.countP_congr fun f _ => ?_
  simp [Finding.toRecord, Value.isTrue, Scalar.isTrue, and_comm]

theorem severityCounts_toRecord (r : Report) (includeSuppressed : Bool) :
    r.toRecord.severityCounts =
      .counts (countsOfSeverities (counted (Finding.shown includeSuppressed r.findings))) := by
  rw [ReportRecord.severityCounts]
  simp only [countOf_toRecord r includeSuppressed]
  rfl

/-- The document of a report, with what it holds of the findings and of their numbers. -/
theorem report_ok {r : ReportRecord} (hfindings : r.findings = fs.map Finding.toRecord)
    (options : DocumentOptions) :
    ∃ v, report r options = .ok v ∧
      v.at? ["findings"] =
        some (.list ((Finding.shown options.includeSuppressed fs).map Finding.toValue)) ∧
      v.at? ["summary", "total_findings"] = some (.nat r.total) ∧
      v.at? ["summary", "by_severity"] = some r.severityCounts ∧
      v.at? ["summary", "by_rule"] =
        some (.counts (countsOfRules (Finding.shown options.includeSuppressed fs))) := by
  unfold report summary
  rw [ReportRecord.visible, hfindings, Finding.visible_toRecord, ruleCounts_toRecord,
    Finding.mapM_toValue]
  refine ⟨_, rfl, rfl, rfl, rfl, congrArg (some ∘ Value.map) ?_⟩
  rw [List.map_map, List.map_map]
  rfl

/-- In every document the numbers of the rules are of the findings in it, and the other numbers of
those that are not suppressed. So all of them are of the findings in it exactly where none of these is
suppressed, as in a document that leaves suppressed findings out. -/
theorem report_describes (r : Report) (options : DocumentOptions) :
    let emitted := Finding.shown options.includeSuppressed r.findings
    ∃ v, report r.toRecord options = .ok v ∧
      Format.render (.document options) r.toRecord = Format.json options.indent v ∧
      v.at? ["findings"] = some (.list (emitted.map Finding.toValue)) ∧
      Describes v (counted emitted) emitted ∧
      (Describes v emitted emitted ↔ ∀ f ∈ emitted, f.suppressed = false) ∧
      (options.includeSuppressed = false → Describes v emitted emitted) := by
  intro emitted
  obtain ⟨v, hreport, hfindings, htotal, hseverities, hrules⟩ :=
    @report_ok r.findings r.toRecord rfl options
  rw [total_toRecord r options.includeSuppressed] at htotal
  rw [severityCounts_toRecord r options.includeSuppressed] at hseverities
  have hdescribes : Describes v (counted emitted) emitted :=
    { total := htotal
      severities := ⟨_, hseverities, sum_countsOfSeverities _, lookup_countsOfSeverities _⟩
      rules := ⟨_, hrules, sum_countsOfRules _, fun id => by
        rw [countsOfRules, List.map_map, ← Finding.mem_increasingIds]
        simp [Function.comp_def, emitted], lookup_countsOfRules _⟩ }
  have hall (h : ∀ f ∈ emitted, f.suppressed = false) : Describes v emitted emitted := by
    have hsame : counted emitted = emitted := List.filter_eq_self.mpr fun f hf => by simp [h f hf]
    rwa [hsame] at hdescribes
  refine ⟨v, hreport, ?_, hfindings, hdescribes, ⟨fun h => ?_, hall⟩, fun hleft => hall fun f hf => ?_⟩
  · rw [Format.render, hreport]
    rfl
  · have hlength : (counted emitted).length = emitted.length := by
      have hsame := htotal.symm.trans h.total
      exact Int.ofNat.inj (by simpa [Value.nat] using hsame)
    simpa using List.length_filter_eq_length_iff.mp hlength
  · have hshown := (List.mem_filter.mp hf).2
    simpa [hleft] using hshown

end Document
end HouseStyle
