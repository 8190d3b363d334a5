import HouseStyle.Rule.Termination
import HouseStyle.Rule.Braces
import HouseStyle.Rule.Parentheses
import HouseStyle.Rule.Declarations
import HouseStyle.Rule.Markers
import HouseStyle.Rule.Members

/-! The registry of rule kinds. A rule id belongs to the first kind that takes it. -/

namespace HouseStyle

/-- Rule kinds and their metadata by rule id, each in the order in which the ids came. -/
structure Registry where
  kinds : List (Text × RuleKind) := []
  metadata : List (Text × RuleMetadata) := []

/-- A rule id that belongs to another kind. -/
structure DuplicateRule where
  id : Text
  deriving DecidableEq, Repr

def DuplicateRule.message (e : DuplicateRule) : Text := "Duplicate rule id: " ++ e.id

namespace Registry

def find? (r : Registry) (id : Text) : Option RuleKind := r.kinds.lookup id

def metadata? (r : Registry) (id : Text) : Option RuleMetadata := r.metadata.lookup id

def contains (r : Registry) (id : Text) : Bool := (r.find? id).isSome

/-- Puts a value under an id, in its place if the id is there. -/
def put {α : Type} (id : Text) (value : α) : List (Text × α) → List (Text × α)
  | [] => [(id, value)]
  | (k, old) :: rest => if k = id then (k, value) :: rest else (k, old) :: put id value rest

/-- Takes a kind in under the id in its metadata, which no other kind may have. -/
def add (kind : RuleKind) : ExceptT DuplicateRule (StateM Registry) RuleKind := do
  let id := kind.metadata.id
  if ((← get).find? id).any (·.label ≠ kind.label) then throw ⟨id⟩
  modify fun r => { r with kinds := put id kind r.kinds }
  modify fun r => { r with metadata := put id kind.metadata r.metadata }
  return kind

/-- The registry with one more kind. -/
def register (r : Registry) (kind : RuleKind) : Except DuplicateRule Registry :=
  let (added, r) := (add kind).run r
  added.map fun _ => r

/-- A rule of the kind under an id. -/
def create (r : Registry) (id : Text) (options : Options := []) (severity : Option Severity := none) :
    Option Rule :=
  (r.find? id).map fun kind => kind.create options severity

/-- All ids in increasing order. -/
def ids (r : Registry) : List Text := (r.kinds.map Prod.fst).mergeSort Text.le

def count (r : Registry) : Nat := r.kinds.length

/-- The metadata of every kind, in the order of the ids. -/
def allMetadata (r : Registry) : List RuleMetadata :=
  ((r.metadata.map Prod.fst).mergeSort Text.le).filterMap r.metadata?

end Registry

namespace Rule

/-- The rules that come with the checker. -/
def builtinKinds : List RuleKind :=
  [Termination.statementTermination, Termination.oneStatementPerLine, Braces.bracePlacement,
    Parentheses.controlConditionParens, Parentheses.forInParenthesization,
    Declarations.explicitTyping, Declarations.forceUnwrap, Markers.commentMarkers,
    Members.selfPrefix, Members.methodGrouping]

end Rule

def Registry.builtin : Registry :=
  ⟨Rule.builtinKinds.map fun kind => (kind.metadata.id, kind),
    Rule.builtinKinds.map fun kind => (kind.metadata.id, kind.metadata)⟩

end HouseStyle
