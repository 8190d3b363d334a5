import HouseStyle.Finding.Basic
import HouseStyle.Outline.View
import HouseStyle.Value.Written

/-! What a rule sees of a file: its tokens, their outline, and the way from offsets to lines. Three
settings, the terminator, the reach of a look ahead and the lines around a snippet, are kept as they
were configured; a value of the wrong kind fails only what needs it. -/

namespace HouseStyle

/-- Why a rule gave no findings. -/
inductive RuleFailure where
  | notIterable (kind : Text)
  | badOperands (operator : Char) (left right : Text)
  | notAnInteger (kind : Text)
  | badSliceBound
  | longInteger
  | invalidSpan (start stop : Int)
  | raised (message : Text)
  deriving DecidableEq, Repr

def RuleFailure.message : RuleFailure → Text
  | notIterable kind => "'" ++ kind ++ "' object is not iterable"
  | badOperands operator left right =>
    "unsupported operand type(s) for " ++ [Sym.char operator] ++ ": '" ++ left ++ "' and '" ++
      right ++ "'"
  | notAnInteger kind => "'" ++ kind ++ "' object cannot be interpreted as an integer"
  | badSliceBound => "slice indices must be integers or None or have an __index__ method"
  | longInteger => Numeral.unwritten
  | invalidSpan start stop => Span.invalidMessage (.int start) (.int stop)
  | raised message => message

structure Context where
  filePath : Text
  content : Text
  outline : Outline
  terminator : Value
  lookahead : Value
  contextLines : Value
  lines : List Text
  lineStarts : List Nat

namespace Context

/-- The text that ends statements. A terminator that is no text ends none. -/
def endingOf : Value → Text
  | .text t => t
  | _ => []

/-- The context of a token list; the text is what the tokens hold. -/
def ofTokens (tokens : List Token) (filePath : Text := "<input>") (lookahead : Value := .int 3)
    (terminator : Value := .text ";") (contextLines : Value := .int 2) : Context :=
  let content : Text := tokens.flatMap (·.text)
  { filePath, content, terminator, lookahead, contextLines
    outline := Outline.ofTokens tokens (endingOf terminator)
    lines := content.lines
    lineStarts := content.lineStarts }

variable (c : Context)

def tokens : Array Token := c.outline.tokens

def ending : Text := endingOf c.terminator

def position (offset : Int) : Position := (Position.ofOffset? c.lineStarts offset).getD ⟨1, 1⟩

def location (span : Span) : Location :=
  let start := c.position span.start
  let stop := c.position span.stop
  { filePath := c.filePath
    startLine := start.line
    endLine := stop.line
    startColumn := start.column
    endColumn := stop.column }

/-! ### Snippets -/

/-- A bound as a place in a list of `n` items: a negative one counts from the end, and one past
either end stops there. -/
def clampBound (n : Nat) (i : Int) : Nat :=
  if i < 0 then (n + i).toNat else min i.toNat n

/-- The items between two bounds. -/
def slice {α : Type} (items : List α) (start stop : Int) : List α :=
  let start := clampBound items.length start
  let stop := clampBound items.length stop
  (items.drop start).take (stop - start)

/-- A line with `around` lines before and after it, as far as there are any. -/
def snippetAround (line around : Int) : Snippet :=
  let count : Int := c.lines.length
  { code := if 0 < line ∧ line ≤ count then c.lines.getD (line - 1).toNat [] else []
    highlightedLine := line
    before := slice c.lines (max 0 (line - around - 1)) (line - 1)
    after := slice c.lines line (min count (line + around)) }

/-- The snippet of a line for a configured number of lines around it. A number with a fraction
does where the ends of the text are nearer than it reaches. -/
def snippet (line : Int) (around : Value) : Except RuleFailure Snippet :=
  match around with
  | .decimal x =>
    -- Neither bound may lie strictly inside the text.
    if !x.ltInt (line - 1) && !x.ltInt ((c.lines.length : Int) - line) then
      .ok (c.snippetAround line (line + c.lines.length))
    else .error .badSliceBound
  | _ =>
    match around.asInt? with
    | some n => .ok (c.snippetAround line n)
    | none => .error (.badOperands '-' "int" around.kindName)

end Context
end HouseStyle
