import HouseStyle.Report.Record

/-! Reports as one document for other programs: the tool, a summary, what was fixed, and the
findings. -/

namespace HouseStyle

structure DocumentOptions where
  /-- What each level is indented by, once a document is written. -/
  indent : Value := .int 2
  includeSuppressed : Bool := false
  includeTiming : Bool := false
  deriving DecidableEq, Repr, Inhabited

namespace Document

/-- The number of findings of each rule, by increasing rule id. -/
def ruleCounts (findings : List FindingRecord) : Try (List (Scalar × Nat)) := do
  let all ← FindingRecord.ruleIds findings
  let ids ← (Scalar.increasing all).mapError .order
  return ids.map fun id => (id, all.countP id.sameKey)

def summary (r : ReportRecord) (options : DocumentOptions) : Try Value := do
  let counts ← ruleCounts (r.visible options.includeSuppressed)
  let fields : List (Text × Value) :=
    [("files_checked", r.filesChecked), ("rules_applied", .list r.rulesApplied),
      ("total_findings", .nat r.total), ("suppressed_findings", .nat r.suppressedCount),
      ("fixable_findings", .nat r.fixableCount), ("by_severity", r.severityCounts),
      ("by_rule", .map (counts.map fun (id, n) => (id, .nat n)))]
  return .record (fields ++ r.timing options.includeTiming)

def report (r : ReportRecord) (options : DocumentOptions := {}) : Try Value := do
  let summary ← summary r options
  let findings ← (r.visible options.includeSuppressed).mapM FindingRecord.toValue
  return .record [("tool", .record [("name", .text toolName), ("version", .text toolVersion)]),
    ("summary", summary),
    ("fixes", .record [("applied", r.fixesApplied), ("skipped", r.fixesSkipped)]),
    ("findings", .list findings), ("errors", .list r.errors), ("warnings", .list r.warnings)]

end Document
end HouseStyle
