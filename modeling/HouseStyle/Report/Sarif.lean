import HouseStyle.Report.Record
import HouseStyle.Rule.Registry

/-! Reports in the interchange format of static analysis results. Results refer to rules by their
place in the list of rules, which holds each rule of a shown finding once, by increasing id. -/

namespace HouseStyle.Sarif

def schema : Text :=
  "https://raw.githubusercontent.com/oasis-tcs/sarif-spec/master/Schemata/sarif-schema-2.1.0.json"

def level : Severity → Value
  | .error => .text "error"
  | .warning => .text "warning"
  | .info => .text "note"

/-- The level of what may be no severity, and then has none. -/
def levelOf : Named Severity → Try Value
  | .known severity => .ok (level severity)
  | .other v => do throw (.noSuchKey (.scalar (← v.keyOrFault)))

def message (v : Value) : Value := .record [("text", v)]

/-! ### Rules -/

/-- The entry of a rule. Findings about skipped fixes have no registered rule. -/
def rule (registry : Registry) (id : Scalar) : Value :=
  match id.text?.bind registry.find? with
  | none =>
    .record [("id", .scalar id), ("shortDescription", message (.scalar id)),
      ("defaultConfiguration", .record [("level", .text "note")])]
  | some kind =>
    let m := kind.metadata
    .record [("id", .scalar id), ("name", .text m.name), ("shortDescription", message m.name),
      ("fullDescription", message m.description),
      ("defaultConfiguration",
        .record [("level", level m.severity), ("enabled", .bool m.enabledByDefault)]),
      ("properties", .record [("tags", .texts m.tags), ("category", .text m.category.name),
        ("autoFixable", .bool m.autoFixable), ("advisory", .bool m.advisory)])]

/-! ### Results -/

def artifact (f : FindingRecord) : Value := .record [("uri", f.location.filePath)]

/-- Where a span begins and how long it is. -/
def extent (s : SpanRecord) : Try (List (Text × Value)) := do
  return [("charOffset", s.start), ("charLength", ← s.length)]

def region (f : FindingRecord) : Try Value := do
  let l := f.location
  let lines : List (Text × Value) := [("startLine", l.startLine), ("startColumn", l.startColumn),
    ("endLine", l.endLine), ("endColumn", l.endColumn)]
  let snippet : List (Text × Value) := match f.snippet with
    | some snippet => [("snippet", message snippet.code)]
    | none => []
  return .record (lines ++ (← extent f.span) ++ snippet)

def suppression (f : FindingRecord) : Value :=
  .record [("kind", .text "inSource"),
    ("justification", if f.suppressionReason.isTrue then f.suppressionReason
      else .text "Suppressed by inline comment")]

def replacement (fix : FixRecord) : Try Value := do
  return .record [("deletedRegion", .record (← extent fix.span)),
    ("insertedContent", .record [("text", fix.replacement)])]

def fixEntry (f : FindingRecord) (fix : FixRecord) : Try Value := do
  return .record [
    ("description", message (if fix.description.isTrue then fix.description else f.message)),
    ("artifactChanges", .list [.record [("artifactLocation", artifact f),
      ("replacements", .list [← replacement fix])]])]

def result (ids : List Scalar) (f : FindingRecord) : Try Value := do
  let region ← region f
  let id ← f.ruleId.keyOrFault
  let level ← levelOf f.severity
  let fixes : List (Text × Value) ← match f.fix with
    | some fix => do pure [("fixes", .list [← fixEntry f fix])]
    | none => pure []
  return .record <| List.flatten [
    [("ruleId", f.ruleId), ("ruleIndex", .nat (ids.findIdx id.sameKey)), ("level", level),
      ("message", message f.message),
      ("locations", .list [.record [("physicalLocation",
        .record [("artifactLocation", artifact f), ("region", region)])]])],
    if f.suppressed.isTrue then [("suppressions", .list [suppression f])] else [],
    fixes]

/-! ### Documents -/

def notification (levelName : Text) (v : Value) : Value :=
  .record [("message", message v), ("level", .text levelName)]

def invocation (r : ReportRecord) : Value :=
  .record [("executionSuccessful", .bool r.errors.isEmpty),
    ("toolExecutionNotifications",
      .list (r.warnings.map (notification "warning") ++ r.errors.map (notification "error")))]

def report (r : ReportRecord) (includeSuppressed : Bool := false)
    (registry : Registry := .builtin) : Try Value := do
  let findings := r.visible includeSuppressed
  let ids ← (Scalar.increasing (← FindingRecord.ruleIds findings)).mapError .order
  let results ← findings.mapM (result ids)
  let driver : Value := .record [("name", .text toolName), ("version", .text toolVersion),
    ("rules", .list (ids.map (rule registry)))]
  return .record [("$schema", .text schema), ("version", .text "2.1.0"),
    ("runs", .list [.record [("tool", .record [("driver", driver)]), ("results", .list results),
      ("invocations", .list [invocation r])]])]

end HouseStyle.Sarif
