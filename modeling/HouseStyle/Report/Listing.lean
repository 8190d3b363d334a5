import HouseStyle.Report.Record
import HouseStyle.Styled.Basic
import HouseStyle.Text.Case

/-! Reports for people: findings under the name of their file, then a summary, then warnings and
errors. Names, rules and messages must be texts, and line numbers must be numbers. -/

namespace HouseStyle

structure ListingOptions where
  colour : Bool := false
  /-- Whether source lines and fixes are shown. -/
  verbose : Bool := false
  includeSuppressed : Bool := false
  deriving DecidableEq, Repr, Inhabited

namespace Listing

/-! ### Styles -/

def dim : Style := { dim := true }

def bold (colour : Colour) : Style := { bold := true, colour := some colour }

def tinted (colour : Colour) : Style := { colour := some colour }

def severityStyle : Severity → Style
  | .error => bold .red
  | .warning => bold .yellow
  | .info => bold .blue

/-! ### Parts -/

/-- A text of which something by a name is asked that only texts have. -/
def textWith (name : Text) : Value → Try Text
  | .text t => .ok t
  | v => .error (.noAttribute v.kindName name)

/-- A text that is put behind others. -/
def textBehind : Value → Try Text
  | .text t => .ok t
  | v => .error (.badArgument ("a " ++ v.kindName ++ " cannot be put behind a text"))

/-! ### Findings -/

/-- Items are grouped by key; a group stands where its key first occurs. -/
def insertGroup {α : Type} (key : Scalar) (item : α) :
    List (Scalar × List α) → List (Scalar × List α)
  | [] => [(key, [item])]
  | (k, items) :: rest =>
    if k.sameKey key then (k, items ++ [item]) :: rest
    else (k, items) :: insertGroup key item rest

/-- The findings by file, in the order in which the files first occur. -/
def groups (findings : List FindingRecord) : Try (List (Scalar × List FindingRecord)) :=
  findings.foldlM (fun groups f => do
    return insertGroup (← f.location.filePath.keyOrFault) f groups) []

def heading (f : FindingRecord) : Try Styled := do
  let place := f.location.startLine.asText ++ .char ':' :: f.location.startColumn.asText
  let severity ← f.severity.get
  let ruleId ← textWith "ljust" f.ruleId
  let message ← textBehind f.message
  let mark : Styled :=
    if f.suppressed.isTrue then [⟨dim, " (suppressed)"⟩]
    else if f.fix.isSome then [⟨tinted .green, " [fixable]"⟩]
    else []
  return [⟨.plain, "  "⟩, ⟨dim, Text.padRight 9 place⟩,
    ⟨severityStyle severity, Text.padRight 8 (Text.upper severity.name)⟩,
    ⟨tinted .magenta, Text.padRight 26 ruleId⟩, ⟨.plain, message⟩] ++ mark

/-- A source line with its number, where truth values are numbers too. -/
def sourceLine (mark : Text) (number code : Value) : Text :=
  let number := match number.asInt? with
    | some n => Text.ofInt n
    | none => number.asText
  mark ++ Text.padLeft 5 number ++ " | " ++ code.asText

/-- Source lines with their numbers, the first at some distance behind a line. -/
def numbered (line : Value) (distance : Int) : List Value → Try (List Styled)
  | [] => .ok []
  | code :: rest => do
    let number ← line.minus (.int (-distance))
    return [⟨dim, sourceLine "      " number code⟩] :: (← numbered line (distance + 1) rest)

def snippetLines (s : SnippetRecord) : Try (List Styled) := do
  let first ← s.highlightedLine.minus (.nat s.before.length)
  return (← numbered first 0 s.before) ++
    [Styled.plain (sourceLine "    > " s.highlightedLine s.code)] ++
    (← numbered s.highlightedLine 1 s.after)

def fixLines (fix : FixRecord) : Try (List Styled) := do
  if fix.description.isTrue then
    return [[⟨tinted .green, "      fix: " ++ (← textBehind fix.description)⟩]]
  else return []

/-- What verbose listings add to a finding. -/
def details (f : FindingRecord) : Try (List Styled) := do
  let snippet ← match f.snippet with
    | some snippet => snippetLines snippet
    | none => pure []
  let fix ← match f.fix with
    | some fix => fixLines fix
    | none => pure []
  let origin : List Styled := match f.origin with
    | some origin =>
      [[⟨dim, "      skipped: " ++ origin.ruleId ++ " at " ++ origin.location.shown⟩]]
    | none => []
  return snippet ++ fix ++ origin

def findingLines (verbose : Bool) (f : FindingRecord) : Try (List Styled) := do
  let heading ← heading f
  if verbose then return heading :: (← details f) else return [heading]

/-! ### Summary -/

def totals (r : ReportRecord) : Styled :=
  let strong : Style := { bold := true }
  [⟨strong, Text.counted r.total "finding" ++ " ("⟩,
    ⟨severityStyle .error, Text.counted (r.countOf .error) "error"⟩, ⟨strong, ", "⟩,
    ⟨severityStyle .warning, Text.counted (r.countOf .warning) "warning"⟩, ⟨strong, ", "⟩,
    ⟨severityStyle .info, Text.ofNat (r.countOf .info) ++ " info"⟩, ⟨strong, ")"⟩]

def coverage (r : ReportRecord) : Text :=
  Text.joinWith "  " <| List.flatten [
    ["Files checked: " ++ r.filesChecked.asText,
      "Rules applied: " ++ Text.ofNat r.rulesApplied.length],
    if r.suppressedCount = 0 then [] else ["Suppressed: " ++ Text.ofNat r.suppressedCount],
    if r.fixesApplied.isTrue || r.fixesSkipped.isTrue then
      ["Fixes applied: " ++ r.fixesApplied.asText, "Fixes skipped: " ++ r.fixesSkipped.asText]
    else []]

def summaryLines (r : ReportRecord) : List Styled :=
  List.flatten [
    if r.total = 0 then [[⟨bold .green, "No style issues found."⟩]]
    else totals r :: if r.fixableCount = 0 then []
      else [[⟨tinted .green, Text.ofNat r.fixableCount ++ " automatically fixable"⟩]],
    [[⟨dim, coverage r⟩]],
    r.warnings.map fun w => [⟨tinted .yellow, "warning: " ++ w.asText⟩],
    r.errors.map fun e => [⟨tinted .red, "error: " ++ e.asText⟩]]

/-! ### Listings -/

def fileLines (verbose : Bool) (group : Scalar × List FindingRecord) : Try (List Styled) := do
  let path ← textWith "translate" (.scalar group.1)
  return [⟨bold .cyan, path⟩] :: (← group.2.mapM (findingLines verbose)).flatten ++ [[]]

def reportLines (r : ReportRecord) (options : ListingOptions) : Try (List Styled) := do
  let files ← groups (r.visible options.includeSuppressed)
  return (← files.mapM (fileLines options.verbose)).flatten ++ summaryLines r

def report (r : ReportRecord) (options : ListingOptions := {}) : Try Text := do
  return (← reportLines r options).flatMap (Styled.print options.colour)

def finding (f : FindingRecord) (options : ListingOptions := {}) : Try Text := do
  return (← findingLines options.verbose f).flatMap (Styled.print options.colour)

end Listing
end HouseStyle
