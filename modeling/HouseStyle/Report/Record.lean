import HouseStyle.Finding.Record
import HouseStyle.Report.Basic

/-! Reports as records of plain data, from which they are written down. All counts are of the
findings that are not suppressed. -/

namespace HouseStyle

/-- The findings that a format shows. -/
def FindingRecord.visible (includeSuppressed : Bool) (findings : List FindingRecord) :
    List FindingRecord :=
  findings.filter fun f => includeSuppressed || !f.suppressed.isTrue

structure ReportRecord where
  /-- In report order. -/
  findings : List FindingRecord := []
  filesChecked : Value := .int 0
  elapsedSeconds : Value := .decimal (.finite false 0 0)
  rulesApplied : List Value := []
  errors : List Value := []
  warnings : List Value := []
  fixesApplied : Value := .int 0
  fixesSkipped : Value := .int 0
  deriving Repr, Inhabited

/-- The record of a report, which was not timed. -/
def Report.toRecord (r : Report) : ReportRecord where
  findings := r.findings.map Finding.toRecord
  filesChecked := .nat r.filesChecked
  rulesApplied := r.rulesApplied.map .text
  errors := r.errors.map .text
  warnings := r.warnings.map .text
  fixesApplied := .nat r.fixesApplied
  fixesSkipped := .nat r.fixesSkipped

namespace ReportRecord

/-- Sets a part by its name. -/
def set (r : ReportRecord) (name : Text) (v : Value) : Try ReportRecord := do
  match name.toString with
  | "files_checked" => return { r with filesChecked := v }
  | "elapsed_seconds" => return { r with elapsedSeconds := v }
  | "rules_applied" => return { r with rulesApplied := ← v.itemsOrFault }
  | "errors" => return { r with errors := ← v.itemsOrFault }
  | "warnings" => return { r with warnings := ← v.itemsOrFault }
  | "fixes_applied" => return { r with fixesApplied := v }
  | "fixes_skipped" => return { r with fixesSkipped := v }
  | _ => throw (.badArgument ("unexpected part '" ++ name ++ "'"))

/-- A record of findings in any order, with the other parts by name. -/
def ofFindings (findings : List FindingRecord) (parts : List (Text × Value) := []) :
    Try ReportRecord := do
  let r ← parts.foldlM (fun (r : ReportRecord) (name, v) => r.set name v) {}
  return { r with findings := ← FindingRecord.sort findings }

/-! ### Counts -/

variable (r : ReportRecord)

/-- How many findings that are not suppressed meet a condition. -/
def count (p : FindingRecord → Bool) : Nat :=
  r.findings.countP fun f => !f.suppressed.isTrue && p f

def total : Nat := r.count fun _ => true

def countOf (severity : Severity) : Nat := r.count (·.severity = .known severity)

def suppressedCount : Nat := r.findings.countP (·.suppressed.isTrue)

def fixableCount : Nat := r.count (·.fix.isSome)

def visible (includeSuppressed : Bool) : List FindingRecord :=
  FindingRecord.visible includeSuppressed r.findings

/-! ### Values -/

def severityCounts : Value :=
  .record [("error", .nat (r.countOf .error)), ("warning", .nat (r.countOf .warning)),
    ("info", .nat (r.countOf .info))]

/-- The elapsed time, where it is asked for: repeated runs are to give equal documents. -/
def timing (includeTiming : Bool) : List (Text × Value) :=
  if includeTiming then [("elapsed_seconds", r.elapsedSeconds)] else []

def toValue (includeTiming : Bool := false) : Try Value := do
  let summary : List (Text × Value) :=
    [("files_checked", r.filesChecked), ("rules_applied", .list r.rulesApplied),
      ("total_findings", .nat r.total), ("suppressed_findings", .nat r.suppressedCount),
      ("fixable_findings", .nat r.fixableCount), ("fixes_applied", r.fixesApplied),
      ("fixes_skipped", r.fixesSkipped), ("by_severity", r.severityCounts)]
  let findings ← r.findings.mapM FindingRecord.toValue
  return .record [("summary", .record (summary ++ r.timing includeTiming)),
    ("findings", .list findings), ("errors", .list r.errors), ("warnings", .list r.warnings)]

end ReportRecord
end HouseStyle
