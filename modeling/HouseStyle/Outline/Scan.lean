import HouseStyle.Outline.Segment

/-! One pass over the tokens pairs the brackets and cuts the significant tokens into segments. A
brace opens a block after a header that calls for one, and a closure anywhere else; the statement
around a closure resumes after its closing brace. -/

namespace HouseStyle.Outline

/-- A run being collected. The leading word is kept from the first time it is found. -/
structure Run where
  indices : Array Nat := #[]
  container : Option Nat := none
  depth : Nat := 0
  assigned : Bool := false
  head : Option Head := none
  deriving DecidableEq, Repr, Inhabited

namespace Run

def push (run : Run) (i : Nat) : Run := { run with indices := run.indices.push i }

def isEmpty (run : Run) : Bool := run.indices.isEmpty

/-- An empty run at the same place. -/
def restart (run : Run) : Run := { container := run.container, depth := run.depth }

end Run

/-- An open bracket: a parenthesis or square bracket, the brace of a block, or the brace of a
closure with what it interrupts. -/
inductive Frame where
  | group (bracket : Char) (index : Nat)
  | block (index : Nat)
  | closure (index : Nat) (resume : Run) (groupDepth : Nat)
  deriving DecidableEq, Repr, Inhabited

namespace Frame

def index : Frame → Nat
  | group _ i => i
  | block i => i
  | closure i _ _ => i

def isBrace : Frame → Bool
  | group _ _ => false
  | _ => true

end Frame

/-- The state between two tokens. `stack` holds the open brackets, innermost first, and
`groupDepth` counts the open groups that newlines and terminators respect. -/
structure Scan where
  stack : List Frame := []
  groupDepth : Nat := 0
  run : Run := {}
  partners : Array (Option Nat)
  nesting : Array Nat := #[]
  segments : List Segment := []
  headers : List (Nat × Segment) := []
  closures : List Nat := []
  deriving Repr, Inhabited

namespace Scan

variable (tokens : Array Token)

/-- The run with its leading word looked up, and that word. -/
def classify (partners : Array (Option Nat)) (run : Run) : Run × Head :=
  match run.head with
  | some head => (run, head)
  | none =>
    match head? tokens partners run.indices.toList with
    | some head => ({ run with head := some head }, head)
    | none => (run, noHead)

/-- Whether a brace after this run opens a body. -/
def expectsBlock (run : Run) (head : Head) : Bool :=
  match head.kind with
  | .controlHeader => true
  | .declaration =>
    blockDeclarations.contains head.keyword ||
      ((["var", "let"] : List Text).contains head.keyword && !run.assigned)
  | .statement => (run.indices[0]?.map (tokenIs tokens (accessors.contains ·.text))).getD false

/-- How a run ends. -/
structure Ending where
  boundary : Option Nat
  terminated : Bool := false
  opensBlock : Bool := false
  label : Bool := false

/-- The segment of a run. -/
def toSegment (partners : Array (Option Nat)) (run : Run) (ending : Ending) : Segment :=
  { (classify tokens partners run).2 with
    indices := run.indices.toList
    boundary := ending.boundary
    terminated := ending.terminated
    opensBlock := ending.opensBlock
    label := ending.label
    container := run.container
    depth := run.depth }

/-- Ends the current run, unless it is empty, and starts another at the same place. -/
def close (s : Scan) (ending : Ending) : Scan :=
  if s.run.isEmpty then s
  else
    { s with
      segments := toSegment tokens s.partners s.run ending :: s.segments
      run := s.run.restart }

/-- An empty run inside the braces of the stack. -/
def freshRun (stack : List Frame) : Run :=
  let braces := stack.filter Frame.isBrace
  { container := braces.head?.map Frame.index, depth := braces.length }

/-- Records a pair of brackets. -/
def pair (s : Scan) (opening closing : Nat) : Scan :=
  { s with
    partners := (s.partners.setIfInBounds opening (some closing)).setIfInBounds closing
      (some opening) }

/-- The stack down to the innermost group with the given bracket inside the innermost brace: how
many frames stand above it, its index, and the frames below it. -/
def groupOpener? (bracket : Char) : List Frame → Option (Nat × Nat × List Frame)
  | [] => none
  | .group b i :: rest =>
    if b = bracket then some (0, i, rest)
    else (groupOpener? bracket rest).map fun (n, i, below) => (n + 1, i, below)
  | _ :: _ => none

/-- The innermost brace and the frames below it. -/
def braceOpener? : List Frame → Option (Frame × List Frame)
  | [] => none
  | .group _ _ :: rest => braceOpener? rest
  | frame :: rest => some (frame, rest)

/-- Whether the run carries on past the newline at an index, `following` being the next
significant token after it; looking may find the leading word. -/
def continues (s : Scan) (following : Option Nat) : Run × Bool :=
  let last := s.run.indices.back?
  let after (p : Token → Bool) : Bool := (last.map (tokenIs tokens p)).getD false
  if after fun t => t.kind = .punctuation && trailingContinuation.contains t.text then (s.run, true)
  else if after (·.isKeyword trailingContinuationWords) then (s.run, true)
  else
    match following.bind (tokens[·]?) with
    | none => (s.run, false)
    | some upcoming =>
      if upcoming.kind ≠ .punctuation then (s.run, false)
      else if leadingContinuation.contains upcoming.text then (s.run, true)
      else if upcoming.text = [.char '{'] then
        let (run, head) := classify tokens s.partners s.run
        (run, expectsBlock tokens run head)
      else (s.run, false)

/-! ### One token -/

def newline (following : Option Nat) (i : Nat) (s : Scan) : Scan :=
  if s.groupDepth = 0 ∧ !s.run.isEmpty then
    let (run, carries) := continues tokens s following
    let s := { s with run }
    if carries then s else s.close tokens { boundary := some i }
  else s

def openGroup (bracket : Char) (i : Nat) (s : Scan) : Scan :=
  { s with
    stack := .group bracket i :: s.stack
    groupDepth := s.groupDepth + 1
    run := s.run.push i }

/-- A closing parenthesis or square bracket closes the groups left open inside its own. Without an
opening bracket in the same braces it is an ordinary token. -/
def closeGroup (bracket : Char) (i : Nat) (s : Scan) : Scan :=
  match groupOpener? bracket s.stack with
  | some (above, opening, below) =>
    { s.pair opening i with
      stack := below
      groupDepth := s.groupDepth - (above + 1)
      run := s.run.push i
      nesting := s.nesting.setIfInBounds i below.length }
  | none => { s with run := s.run.push i }

def openBrace (i : Nat) (s : Scan) : Scan :=
  let (run, head) :=
    if s.groupDepth = 0 ∧ !s.run.isEmpty then classify tokens s.partners s.run else (s.run, noHead)
  if s.groupDepth = 0 ∧ (run.isEmpty ∨ expectsBlock tokens run head) then
    let stack := .block i :: s.stack
    let header := toSegment tokens s.partners run { boundary := some i, opensBlock := true }
    { s with
      segments := if run.isEmpty then s.segments else header :: s.segments
      headers := if run.isEmpty then s.headers else (i, header) :: s.headers
      stack
      run := freshRun stack }
  else
    let stack := .closure i (run.push i) s.groupDepth :: s.stack
    { s with
      stack
      closures := i :: s.closures
      groupDepth := 0
      run := freshRun stack }

/-- A closing brace ends the run inside it and closes all that is open inside. Without an opening
brace it is an ordinary token. -/
def closeBrace (i : Nat) (s : Scan) : Scan :=
  match braceOpener? s.stack with
  | none => { s with run := s.run.push i }
  | some (frame, below) =>
    let s := (s.close tokens { boundary := some i }).pair frame.index i
    let s := { s with stack := below, nesting := s.nesting.setIfInBounds i below.length }
    match frame with
    | .closure _ resume groupDepth => { s with run := resume.push i, groupDepth }
    | _ => { s with run := freshRun below, groupDepth := 0 }

/-- The terminator outside every group ends the run, except inside the header of a classic loop. -/
def terminator (i : Nat) (s : Scan) : Scan :=
  let (run, head) := classify tokens s.partners s.run
  let s := { s with run }
  if head.kind = .controlHeader ∧ head.keyword = "for" then { s with run := s.run.push i }
  else s.close tokens { boundary := some i, terminated := true }

/-- Whether the run starts with the word of a label. -/
def startsLabel (run : Run) : Bool :=
  (run.indices[0]?.map (tokenIs tokens (·.isKeyword ["case", "default"]))).getD false

def word (t : Token) (i : Nat) (s : Scan) : Scan :=
  { s with
    run :=
      { s.run.push i with assigned := s.run.assigned || (t.isMark '=' && s.groupDepth = 0) } }

def significant (end_ : Text) (t : Token) (i : Nat) (s : Scan) : Scan :=
  if t.isMark '(' then s.openGroup '(' i
  else if t.isMark '[' then s.openGroup '[' i
  else if t.isMark ')' then s.closeGroup '(' i
  else if t.isMark ']' then s.closeGroup '[' i
  else if t.isMark '{' then s.openBrace tokens i
  else if t.isMark '}' then s.closeBrace tokens i
  else if t.isPunct end_ ∧ s.groupDepth = 0 then s.terminator tokens i
  else if t.isMark ':' ∧ s.groupDepth = 0 ∧ startsLabel tokens s.run then
    { s with run := s.run.push i }.close tokens { boundary := some i, label := true }
  else s.word t i

/-- The state after the token at an index. -/
def step (end_ : Text) (following : Nat → Option Nat) (s : Scan) (i : Nat) (t : Token) : Scan :=
  let s := { s with nesting := s.nesting.push s.stack.length }
  if t.kind = .newline then s.newline tokens (following i) i
  else if t.isTrivia then s
  else s.significant tokens end_ t i

/-- The state after a list of tokens, the first of them at index `i`. -/
def run_ (end_ : Text) (following : Nat → Option Nat) : Scan → (i : Nat) → List Token → Scan
  | s, _, [] => s
  | s, i, t :: rest => run_ end_ following (s.step tokens end_ following i t) (i + 1) rest

end Scan

/-- For each token the first significant token at or after it. -/
def significantFrom (i : Nat) : List Token → List (Option Nat)
  | [] => []
  | t :: rest =>
    let later := significantFrom (i + 1) rest
    (if t.isTrivia then later.head?.getD none else some i) :: later

/-- For each token the last significant token at or before it. -/
def significantUpTo (i : Nat) (before : Option Nat) : List Token → List (Option Nat)
  | [] => []
  | t :: rest =>
    let here := if t.isTrivia then before else some i
    here :: significantUpTo (i + 1) here rest

end HouseStyle.Outline

namespace HouseStyle

/-- Bracket pairs and segments of a token list. Segments stand in the order of their first tokens,
headers and closures in the order of their braces. -/
structure Outline where
  tokens : Array Token
  partners : Array (Option Nat)
  nesting : Array Nat
  segments : List Segment
  headers : List (Nat × Segment)
  closures : List Nat
  following : Array (Option Nat)
  preceding : Array (Option Nat)
  deriving Repr, Inhabited

/-- The outline of a token list under a statement terminator. A run left open inside an unclosed
brace is given up; only the innermost one becomes a segment. -/
def Outline.ofTokens (list : List Token) (terminator : Text) : Outline :=
  let tokens := list.toArray
  let following := (Outline.significantFrom 0 list).toArray
  let start : Outline.Scan := { partners := Array.replicate tokens.size none }
  let done := Outline.Scan.run_ tokens terminator (fun i => (following[i + 1]?).getD none) start 0 list
  let done := done.close tokens { boundary := none }
  { tokens
    partners := done.partners
    nesting := done.nesting
    segments := done.segments.reverse.mergeSort fun a b => a.first ≤ b.first
    headers := done.headers.reverse
    closures := done.closures.reverse
    following
    preceding := (Outline.significantUpTo 0 none list).toArray }

end HouseStyle
