import HouseStyle.Rule.Basic

/-! Statement termination: statements end with the terminator, and a terminator ends the line it
stands on. -/

namespace HouseStyle.Rule.Termination

/-! ### Missing terminators -/

/-- Declarations that read as statements and take a terminator. -/
def terminatedDeclarations : List Text :=
  ["var", "let", "import", "typealias", "associatedtype"].map Text.ofString

/-- Whether a segment is the body of a closure that opens and closes on one line. -/
def isInlineClosureBody (o : Outline) (s : Segment) : Bool :=
  match s.boundary.bind o.token? with
  | none => false
  | some brace =>
    brace.isMark '}' &&
      match s.boundary.bind o.partner? with
      | none => false
      | some opener => o.closures.contains opener && o.at_ opener (·.line = brace.line)

/-- Indices from the first one of a run to its last one, tokens without code included. -/
def extent (first last : Nat) : List Nat := List.range' first (last + 1 - first)

def hasUnterminated (o : Outline) (first last : Nat) : Bool :=
  (extent first last).any fun i => o.at_ i (·.unterminated)

/-- Whether a segment lacks its terminator. -/
def lacksTerminator (o : Outline) (s : Segment) : Bool :=
  !(s.terminated || s.opensBlock || s.label) &&
  s.kind != .controlHeader &&
  (s.kind != .declaration || terminatedDeclarations.contains s.keyword) &&
  !(o.at_ s.first (·.isMark '@') && s.keyword.isEmpty) &&
  !o.at_ s.first (fun t => t.text.head? = some (.char '#') || Outline.accessors.contains t.text ||
    t.isKeyword ["case", "default"]) &&
  !o.at_ s.last (·.isKeyword ["in"]) &&
  s.indices.any (fun i => o.at_ i (·.kind.isWord)) &&
  !hasUnterminated o s.first s.last &&
  !isInlineClosureBody o s

def missing (c : Context) (s : Segment) : Option Remark :=
  if lacksTerminator c.outline s then
    (c.outline.token? s.last).map fun last =>
      { span := .point last.stop
        message := "Statement is missing the '" ++ c.terminator.asText ++ "' terminator."
        fix := some {
          span := .point last.stop
          replacement := c.terminator
          description := "Insert '" ++ c.terminator.asText ++ "'" } }
  else none

/-- The remarks on statements without a terminator. Where there are any, it must be written. -/
def allMissing (c : Context) : Except RuleFailure (List Remark) :=
  let remarks := c.outline.segments.filterMap (missing c)
  if !remarks.isEmpty && c.terminator.isLong then .error .longInteger else .ok remarks

def statementTermination : RuleKind where
  label := "statement-termination"
  metadata :=
    { id := "statement-termination"
      name := "Statement Termination"
      description := "Statements should end with the statement terminator."
      severity := .warning
      category := .termination
      tags := ["formatting", "termination"]
      autoFixable := true }
  remarks _ c := allMissing c

/-! ### Several statements on a line -/

/-- The boundaries of terminated segments, and the terminators that belong to no segment. -/
def terminators (c : Context) : List Nat :=
  let segments := c.outline.segments
  let n := c.tokens.size
  let mark (marks : Array Bool) (i : Nat) : Array Bool := marks.setIfInBounds i true
  let covered := segments.foldl (fun marks s => (s.indices ++ s.boundary.toList).foldl mark marks)
    (Array.replicate n false)
  let ended := segments.foldl
    (fun marks s => if s.terminated then s.boundary.toList.foldl mark marks else marks)
    (Array.replicate n false)
  (List.range n).filter fun i =>
    ended.getD i false || (!covered.getD i false && c.outline.at_ i (·.isPunct c.ending))

/-- The first token after a terminator that starts another statement on its line, within a number
of tokens. -/
def crowded? : (reach : Nat) → List Token → Option Token
  | 0, _ => none
  | _, [] => none
  | reach + 1, t :: rest =>
    if t.kind = .whitespace then crowded? reach rest
    else if t.kind = .newline || t.kind = .comment || t.text = [.char '{'] || t.text = [.char '}']
    then none
    else some t

/-- How many tokens after a terminator are looked at. A number with a fraction does where the end
of the text is nearer. -/
def reach (c : Context) (terminator : Nat) : Except RuleFailure Nat :=
  match c.lookahead with
  | .decimal x =>
    let stop := (Decimal.ofNat (terminator + 1)).add x
    if stop.ltInt c.tokens.size then .error (.notAnInteger "float") else .ok c.tokens.size
  | v =>
    match v.asInt? with
    | some n => .ok n.toNat
    | none => .error (.badOperands '+' "int" v.kindName)

def crowding (c : Context) (terminator : Nat) : Except RuleFailure (List Remark) := do
  let reach ← reach c terminator
  let upcoming := (c.tokens.extract (terminator + 1) (terminator + 1 + reach)).toList
  return (crowded? reach upcoming).toList.map fun t =>
    { span := t.span
      message := "Another statement follows the terminator on the same line." }

def oneStatementPerLine : RuleKind where
  label := "one-statement-per-line"
  metadata :=
    { id := "one-statement-per-line"
      name := "One Statement Per Line"
      description := "Each statement should be on its own line."
      severity := .warning
      category := .termination
      tags := ["formatting", "termination"] }
  remarks _ c := Remark.collect (crowding c) (terminators c)

end HouseStyle.Rule.Termination
