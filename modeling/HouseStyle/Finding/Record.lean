import HouseStyle.Fault

/-! Findings as records of plain data, as others keep them and hand them on. Only the names in a
record and its span are checked, so its parts may be values of any kind. The origin of a finding is
summed up in the data of its record and cannot be read from it. -/

namespace HouseStyle

structure SpanRecord where
  start : Value
  stop : Value
  deriving DecidableEq, Repr, Inhabited

structure LocationRecord where
  filePath : Value
  startLine : Value
  endLine : Value
  startColumn : Value := .int 1
  endColumn : Value := .int 1
  deriving DecidableEq, Repr, Inhabited

structure SnippetRecord where
  code : Value
  highlightedLine : Value
  before : List Value := []
  after : List Value := []
  deriving DecidableEq, Repr, Inhabited

structure FixRecord where
  span : SpanRecord
  replacement : Value
  description : Value := .text []
  deriving DecidableEq, Repr, Inhabited

/-- What a name stands for, or a value that is no name. -/
inductive Named (α : Type) where
  | known (a : α)
  | other (v : Value)
  deriving DecidableEq, Repr

structure FindingRecord where
  ruleId : Value
  message : Value
  severity : Named Severity
  category : Named Category
  location : LocationRecord
  span : SpanRecord
  fix : Option FixRecord := none
  snippet : Option SnippetRecord := none
  tags : List Value := []
  metadata : Value := .map []
  suppressed : Value := .bool false
  suppressionReason : Value := .null
  origin : Option Origin := none
  deriving Repr

/-! ### Records of findings -/

namespace Span

def toRecord (s : Span) : SpanRecord := ⟨.nat s.start, .nat s.stop⟩

end Span

namespace Location

def toRecord (l : Location) : LocationRecord where
  filePath := .text l.filePath
  startLine := .int l.startLine
  endLine := .int l.endLine
  startColumn := .int l.startColumn
  endColumn := .int l.endColumn

end Location

namespace Snippet

def toRecord (s : Snippet) : SnippetRecord where
  code := .text s.code
  highlightedLine := .int s.highlightedLine
  before := s.before.map .text
  after := s.after.map .text

end Snippet

namespace Fix

def toRecord (f : Fix) : FixRecord where
  span := f.span.toRecord
  replacement := f.replacement
  description := .text f.description

end Fix

namespace Finding

def toRecord (f : Finding) : FindingRecord where
  ruleId := .text f.ruleId
  message := .text f.message
  severity := .known f.severity
  category := .known f.category
  location := f.location.toRecord
  span := f.span.toRecord
  fix := f.fix.map Fix.toRecord
  snippet := f.snippet.map Snippet.toRecord
  tags := f.tags.map .text
  metadata := f.metadata
  suppressed := .bool f.suppressed
  suppressionReason := (f.suppressionReason.map .text).getD .null
  origin := f.origin

end Finding

/-! ### Records as values -/

namespace SpanRecord

def toValue (s : SpanRecord) : Value := .record [("start", s.start), ("end", s.stop)]

def length (s : SpanRecord) : Try Value := s.stop.minus s.start

end SpanRecord

namespace LocationRecord

def toValue (l : LocationRecord) : Value :=
  .record [("file_path", l.filePath), ("start_line", l.startLine), ("end_line", l.endLine),
    ("start_column", l.startColumn), ("end_column", l.endColumn)]

def shown (l : LocationRecord) : Text :=
  Text.joinWith ":" ([l.filePath, l.startLine, l.startColumn].map Value.asText)

end LocationRecord

namespace SnippetRecord

def toValue (s : SnippetRecord) : Value :=
  .record [("code", s.code), ("highlighted_line", s.highlightedLine),
    ("context_before", .list s.before), ("context_after", .list s.after)]

end SnippetRecord

namespace FixRecord

def toValue (f : FixRecord) : Value :=
  .record [("span", f.span.toValue), ("replacement", f.replacement),
    ("description", f.description)]

end FixRecord

namespace Named

/-- What the name stands for; other values have no name to show. -/
def get {α : Type} : Named α → Try α
  | known a => .ok a
  | other v => .error (.noAttribute v.kindName "value")

end Named

namespace FindingRecord

/-- A field that is there only if it has a value. -/
def optionalField (name : Text) (value : Option Value) : List (Text × Value) :=
  match value with
  | some v => [(name, v)]
  | none => []

/-- The data of a record of this severity and category. -/
def valueWith (f : FindingRecord) (severity : Severity) (category : Category) : Value :=
  .record <| List.flatten [
    [("rule_id", f.ruleId), ("message", f.message), ("severity", .text severity.name),
      ("category", .text category.name), ("location", f.location.toValue), ("span", f.span.toValue),
      ("tags", .list f.tags), ("metadata", f.metadata), ("suppressed", f.suppressed)],
    optionalField "fix" (f.fix.map FixRecord.toValue),
    optionalField "snippet" (f.snippet.map SnippetRecord.toValue),
    if f.suppressionReason.isTrue then [("suppression_reason", f.suppressionReason)] else [],
    optionalField "origin" (f.origin.map fun o =>
      .record [("rule_id", .text o.ruleId), ("message", .text o.message),
        ("span", o.span.toRecord.toValue)])]

def toValue (f : FindingRecord) : Try Value := do
  return f.valueWith (← f.severity.get) (← f.category.get)

end FindingRecord

namespace Finding

def toValue (f : Finding) : Value := f.toRecord.valueWith f.severity f.category

end Finding

/-! ### Reading -/

namespace Value

/-- A field of a mapping that must be there. -/
def required (name : Text) (v : Value) : Try Value :=
  match v with
  | .map entries =>
    match entries.lookup (.text name) with
    | some field => .ok field
    | none => .error (.record (.missingField name))
  | _ => .error (.record .badShape)

/-- A part whose fields must be among some names. -/
def withFields (names : List Text) (v : Value) : Try Value :=
  match v with
  | .map entries =>
    if entries.all fun (key, _) => names.any fun n => key = .text n then .ok v
    else .error (.record .badShape)
  | _ => .error (.record .badShape)

/-- A field of such a part. -/
def part (name : Text) (v : Value) : Try Value :=
  match v.field? name with
  | some field => .ok field
  | none => .error (.record .badShape)

/-- The items of a part, of none if it is not there. -/
def partItems (name : Text) (v : Value) : Try (List Value) :=
  match v.field? name with
  | some field => field.itemsOrFault
  | none => .ok []

/-- A part that counts as absent when it is empty. -/
def nonEmpty? (name : Text) (v : Value) : Option Value := (v.field? name).filter Value.isTrue

def lessOrFault (v w : Value) : Try Bool := (v.less w).mapError .order

end Value

namespace SpanRecord

/-- A span does not begin before the text, nor end before it begins. -/
def ofOffsets (start stop : Value) : Try SpanRecord := do
  if ← start.lessOrFault (.int 0) then throw (.record (.invalidSpan start stop))
  if ← stop.lessOrFault start then throw (.record (.invalidSpan start stop))
  return { start, stop }

def ofValue (v : Value) : Try SpanRecord := do
  let r ← v.withFields ["start", "end"]
  ofOffsets (← r.part "start") (← r.part "end")

end SpanRecord

namespace LocationRecord

def ofValue (v : Value) : Try LocationRecord := do
  let r ← v.withFields ["file_path", "start_line", "end_line", "start_column", "end_column"]
  return {
    filePath := ← r.part "file_path"
    startLine := ← r.part "start_line"
    endLine := ← r.part "end_line"
    startColumn := (r.field? "start_column").getD (.int 1)
    endColumn := (r.field? "end_column").getD (.int 1) }

end LocationRecord

namespace FixRecord

def ofValue (v : Value) : Try FixRecord := do
  return {
    span := ← SpanRecord.ofValue (← v.required "span")
    replacement := ← v.required "replacement"
    description := (v.field? "description").getD (.text []) }

end FixRecord

namespace SnippetRecord

def ofValue (v : Value) : Try SnippetRecord := do
  return {
    code := ← v.required "code"
    highlightedLine := ← v.required "highlighted_line"
    before := ← v.partItems "context_before"
    after := ← v.partItems "context_after" }

end SnippetRecord

namespace Named

/-- What a value stands for: a text must be a name. -/
def ofValue {α : Type} (ofName? : Text → Option α) : Value → Try (Named α)
  | .text t =>
    match ofName? t with
    | some a => .ok (known a)
    | none => .error (.record (.unknownName t))
  | v => .ok (other v)

def equal {α : Type} [DecidableEq α] : Named α → Named α → Bool
  | known a, known b => a = b
  | other v, other w => v.equal w
  | _, _ => false

end Named

namespace FindingRecord

/-- All names that a record may have. -/
def fieldNames : List Text :=
  ["rule_id", "message", "severity", "category", "location", "span", "fix", "snippet", "tags",
    "metadata", "suppressed", "suppression_reason", "origin"].map Text.ofString

/-- The record of a value: of a mapping, or of a sequence of pairs. An empty fix or snippet counts
as none. -/
def ofValue (v : Value) : Try FindingRecord := do
  let r : Value := .map (← v.entriesOrFault)
  let location ← LocationRecord.ofValue (← r.required "location")
  let span ← SpanRecord.ofValue (← r.required "span")
  let fix ← (r.nonEmpty? "fix").mapM FixRecord.ofValue
  let snippet ← (r.nonEmpty? "snippet").mapM SnippetRecord.ofValue
  let tags ← r.partItems "tags"
  let r ← r.withFields fieldNames
  let ruleId ← r.part "rule_id"
  let message ← r.part "message"
  let severity ← r.part "severity"
  let category ← r.part "category"
  return {
    ruleId, message, location, span, fix, snippet, tags
    severity := ← Named.ofValue Severity.ofName? severity
    category := ← Named.ofValue Category.ofName? category
    metadata := (r.field? "metadata").getD (.map [])
    suppressed := (r.field? "suppressed").getD (.bool false)
    suppressionReason := (r.field? "suppression_reason").getD .null }

/-! ### Order and equality -/

/-- What reports are ordered by: file, line, column, rule, message. -/
def sortKey (f : FindingRecord) : List Value :=
  [f.location.filePath, f.location.startLine, f.location.startColumn, f.ruleId, f.message]

def keyLess (f g : FindingRecord) : Try Bool :=
  (Value.lessItems f.sortKey g.sortKey).mapError .order

/-- Records in report order, if they have one; equal keys keep their order. -/
def sort (records : List FindingRecord) : Try (List FindingRecord) := sortBy keyLess records

/-- The ids of the rules of some records. -/
def ruleIds (records : List FindingRecord) : Try (List Scalar) :=
  records.mapM (·.ruleId.keyOrFault)

/-- Equality that leaves metadata and origin out. -/
def same (f g : FindingRecord) : Bool :=
  let data (f : FindingRecord) : List Value :=
    [f.ruleId, f.message, f.location.toValue, f.span.toValue,
      (f.fix.map FixRecord.toValue).getD .null, (f.snippet.map SnippetRecord.toValue).getD .null,
      .list f.tags, f.suppressed, f.suppressionReason]
  Value.equalItems (data f) (data g) && f.severity.equal g.severity && f.category.equal g.category

end FindingRecord
end HouseStyle
