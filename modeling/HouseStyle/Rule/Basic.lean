import HouseStyle.Context

/-! Rules. A rule kind looks at the context of a file and remarks on places in it; a rule is a kind
with options and a severity, and it turns remarks into findings. Rules do not see one another's
findings. -/

namespace HouseStyle

abbrev Options := List (Scalar × Value)

structure RuleMetadata where
  id : Text
  name : Text
  description : Text
  severity : Severity
  category : Category
  tags : List Text := []
  autoFixable : Bool := false
  advisory : Bool := false
  enabledByDefault : Bool := true
  options : Options := []
  deriving Repr, Inhabited

/-- What a rule has to say about a place. What is left out comes from the rule. -/
structure Remark where
  span : Span
  message : Text := []
  fix : Option Fix := none
  severity : Option Severity := none
  metadata : Value := .map []
  deriving Repr, Inhabited

/-- The span of a token. -/
def Token.span (t : Token) : Span := ⟨t.start, t.stop, Nat.le_add_right _ _⟩

/-- The span between two offsets; offsets in the wrong order fail the rule. -/
def Span.between (start stop : Nat) : Except RuleFailure Span :=
  if h : start ≤ stop then .ok ⟨start, stop, h⟩ else .error (.invalidSpan start stop)

/-- The remarks on all items, in order. The first item that fails decides. -/
def Remark.collect {α : Type} (remarks : α → Except RuleFailure (List Remark)) :
    List α → Except RuleFailure (List Remark)
  | [] => .ok []
  | a :: rest => do
    let here ← remarks a
    let more ← collect remarks rest
    return here ++ more

/-- A kind of rule. Kinds are told apart by `label`, not by what they do. -/
structure RuleKind where
  label : Text
  metadata : RuleMetadata
  remarks : Options → Context → Except RuleFailure (List Remark)

structure Rule where
  kind : RuleKind
  options : Options
  severity : Severity

namespace RuleKind

/-- A rule of this kind; given options override those of the kind. -/
def create (kind : RuleKind) (options : Options := []) (severity : Option Severity := none) :
    Rule :=
  { kind
    options := Entries.update kind.metadata.options options
    severity := severity.getD kind.metadata.severity }

end RuleKind

namespace Rule

def id (rule : Rule) : Text := rule.kind.metadata.id

def option? (rule : Rule) (name : Text) : Option Value := rule.options.lookup (.text name)

/-- The finding of a remark. -/
def finding (rule : Rule) (context : Context) (remark : Remark) : Except RuleFailure Finding := do
  let metadata := rule.kind.metadata
  let snippet ← context.snippet (context.position remark.span.start).line context.contextLines
  return {
    ruleId := metadata.id
    message := if remark.message.isEmpty then metadata.description else remark.message
    severity := remark.severity.getD rule.severity
    category := metadata.category
    location := context.location remark.span
    span := remark.span
    fix := remark.fix
    snippet := some snippet
    tags := metadata.tags
    metadata := if remark.metadata.isTrue then remark.metadata else .map [] }

/-- The findings of a rule on a file. A rule that fails has none. -/
def findings (rule : Rule) (context : Context) : Except RuleFailure (List Finding) := do
  let remarks ← rule.kind.remarks rule.options context
  remarks.mapM (rule.finding context)

/-- A rule that failed on a file. -/
structure Failed where
  ruleId : Text
  filePath : Text
  failure : RuleFailure
  deriving DecidableEq, Repr

def Failed.message (f : Failed) : Text :=
  "Error running rule " ++ f.ruleId ++ " on " ++ f.filePath ++ ": " ++ f.failure.message

/-- What rules found on a file, in the order of the rules, and which of them failed. -/
def outcomes (context : Context) : List Rule → List Finding × List Failed
  | [] => ([], [])
  | rule :: rest =>
    let (found, failed) := outcomes context rest
    match rule.findings context with
    | .ok here => (here ++ found, failed)
    | .error failure => (found, ⟨rule.id, context.filePath, failure⟩ :: failed)

/-- Runs rules on a file. Findings come in report order and failures in the order of the rules. -/
def runAll (context : Context) (rules : List Rule) : List Finding × List Failed :=
  let (found, failed) := outcomes context rules
  (Finding.sort found, failed)

end Rule
end HouseStyle
