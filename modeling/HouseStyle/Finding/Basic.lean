import HouseStyle.Text.Lines
import HouseStyle.Value.Basic

/-! Findings: what a rule reports, where, and the edit that would mend it. Reports list findings by
file, line, column, rule and message. -/

namespace HouseStyle

inductive Severity where
  | info | warning | error
  deriving DecidableEq, Repr, Inhabited

namespace Severity

def rank : Severity → Nat
  | info => 0
  | warning => 1
  | error => 2

def le (a b : Severity) : Bool := a.rank ≤ b.rank

def lt (a b : Severity) : Bool := a.rank < b.rank

def name : Severity → Text
  | info => "info"
  | warning => "warning"
  | error => "error"

def ofName? (name : Text) : Option Severity :=
  [info, warning, error].find? (·.name = name)

end Severity

/-- The families of conventions, and the reports of the fixer itself. -/
inductive Category where
  | termination | bracing | grouping | typing | naming | comments | safety | remediation
  deriving DecidableEq, Repr, Inhabited

namespace Category

def name : Category → Text
  | termination => "termination"
  | bracing => "bracing"
  | grouping => "grouping"
  | typing => "typing"
  | naming => "naming"
  | comments => "comments"
  | safety => "safety"
  | remediation => "remediation"

def ofName? (name : Text) : Option Category :=
  [termination, bracing, grouping, typing, naming, comments, safety, remediation].find?
    (·.name = name)

end Category

/-- The offsets from `start` up to `stop`. An empty span is an insertion point. -/
structure Span where
  start : Nat
  stop : Nat
  start_le_stop : start ≤ stop := by omega
  deriving DecidableEq, Repr

namespace Span

instance : Inhabited Span := ⟨⟨0, 0, Nat.le_refl 0⟩⟩

/-- The span between two offsets, which must not be negative nor in the wrong order. -/
def ofOffsets? (start stop : Int) : Option Span :=
  if h : 0 ≤ start ∧ start ≤ stop then some ⟨start.toNat, stop.toNat, by omega⟩ else none

/-- The message about offsets that form no span. -/
def invalidMessage (start stop : Value) : Text :=
  "Invalid span: [" ++ start.asText ++ ", " ++ stop.asText ++ ")"

def point (offset : Nat) : Span := ⟨offset, offset, Nat.le_refl _⟩

def length (s : Span) : Nat := s.stop - s.start

def isEmpty (s : Span) : Bool := s.start = s.stop

/-- Two spans conflict when they share an offset or start together. -/
def overlaps (s t : Span) : Bool :=
  s.start = t.start || (s.start < t.stop && t.start < s.stop)

end Span

/-- A place in a file; lines and columns count from one. -/
structure Location where
  filePath : Text
  startLine : Int
  endLine : Int
  startColumn : Int := 1
  endColumn : Int := 1
  deriving DecidableEq, Repr, Inhabited

def Location.shown (l : Location) : Text :=
  l.filePath ++ ":" ++ Text.ofInt l.startLine ++ ":" ++ Text.ofInt l.startColumn

/-- A source line with the lines around it. -/
structure Snippet where
  code : Text
  highlightedLine : Int
  before : List Text := []
  after : List Text := []
  deriving DecidableEq, Repr, Inhabited

/-- An edit: the symbols of the span give way to the replacement. A finding may show a replacement
of any kind, but only a text can be put in. -/
structure Fix where
  span : Span
  replacement : Value
  description : Text := []
  deriving DecidableEq, Repr, Inhabited

/-- The text that is put in. -/
def Fix.insertion (f : Fix) : Text := f.replacement.asText

/-- The finding whose fix was skipped, as far as reports show it. -/
structure Origin where
  ruleId : Text
  message : Text
  span : Span
  location : Location
  deriving DecidableEq, Repr, Inhabited

structure Finding where
  ruleId : Text
  message : Text
  severity : Severity
  category : Category
  location : Location
  span : Span
  fix : Option Fix := none
  snippet : Option Snippet := none
  tags : List Text := []
  metadata : Value := .map []
  suppressed : Bool := false
  suppressionReason : Option Text := none
  origin : Option Origin := none
  deriving Repr, Inhabited

namespace Finding

def filePath (f : Finding) : Text := f.location.filePath

def line (f : Finding) : Int := f.location.startLine

def column (f : Finding) : Int := f.location.startColumn

/-- Equality that leaves metadata and origin out. -/
def same (a b : Finding) : Bool :=
  a.ruleId = b.ruleId && a.message = b.message && a.severity = b.severity &&
    a.category = b.category && a.location = b.location && a.span = b.span && a.fix = b.fix &&
    a.snippet = b.snippet && a.tags = b.tags && a.suppressed = b.suppressed &&
    a.suppressionReason = b.suppressionReason

/-! ### Report order -/

/-- The comparison of report order: file, line, column, rule, message. -/
def compareKeys (a b : Finding) : Ordering :=
  (Text.compare a.filePath b.filePath).then <|
    (compare a.line b.line).then <|
      (compare a.column b.column).then <|
        (Text.compare a.ruleId b.ruleId).then (Text.compare a.message b.message)

def keyLe (a b : Finding) : Bool := compareKeys a b != .gt

/-- Findings in report order; equal keys keep their order. -/
def sort (findings : List Finding) : List Finding := findings.mergeSort keyLe

end Finding

/-- Why a value is no record of a finding. -/
inductive RecordError where
  | missingField (name : Text)
  /-- A part has a field that it should not have, or lacks one, or has one of the wrong shape. -/
  | badShape
  | unknownName (name : Text)
  | invalidSpan (start stop : Value)
  deriving DecidableEq, Repr

def RecordError.message : RecordError → Text
  | missingField name => name.quoted
  | badShape => "a part of the record has another shape"
  | unknownName name => name.quoted ++ " is not a valid name"
  | invalidSpan start stop => Span.invalidMessage start stop

/-- The word for the kind of an error. -/
def RecordError.kind : RecordError → Text
  | missingField _ => "KeyError"
  | badShape => "TypeError"
  | unknownName _ | invalidSpan _ _ => "ValueError"

end HouseStyle
