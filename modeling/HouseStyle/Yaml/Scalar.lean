import HouseStyle.Json.Reader
import HouseStyle.Value.ReadError
import HouseStyle.Yaml.Cursor

/-! The forms of a scalar: plain, quoted, and in a block of its own. Line breaks inside the first
two are folded: one break is a blank, and of several all but the first are kept. -/

namespace HouseStyle.Yaml

/-- What a folded line break leaves, given the breaks after it. -/
def folded (lineBreak breaks : Text) : Text :=
  if lineBreak ≠ [.char '\n'] then lineBreak ++ breaks
  else if breaks.isEmpty then [.char ' ']
  else breaks

/-! ### Quoted -/

/-- Breaks and blanks after a line break inside quotes. A document mark is not allowed there. -/
def quotedBreaks : (fuel : Nat) → Cursor → Read (Text × Cursor)
  | 0, _ => Read.malformed
  | fuel + 1, c =>
    if c.seesDocumentMark then Read.malformed
    else
      let c := c.dropWhile isSpaceTab
      match c.lineBreak? with
      | none => .ok ([], c)
      | some (lineBreak, c) => do
        let (more, c) ← quotedBreaks fuel c
        return (lineBreak ++ more, c)

/-- White space inside quotes. -/
def quotedSpaces (c : Cursor) : Read (Text × Cursor) :=
  let (blanks, c) := c.takeWhile isSpaceTab
  if c.atEnd then Read.malformed
  else match c.lineBreak? with
    | none => .ok (blanks, c)
    | some (lineBreak, c) => do
      let (breaks, c) ← quotedBreaks c.bound c
      return (folded lineBreak breaks, c)

def escape? (c : Char) : Option Char :=
  match c with
  | '0' => some '\x00'
  | 'a' => some '\x07'
  | 'b' => some '\x08'
  | 't' => some '\t'
  | '\t' => some '\t'
  | 'n' => some '\n'
  | 'v' => some '\x0b'
  | 'f' => some '\x0c'
  | 'r' => some '\r'
  | 'e' => some '\x1b'
  | ' ' => some ' '
  | '"' => some '"'
  | '\\' => some '\\'
  | '/' => some '/'
  | 'N' => some '\x85'
  | '_' => some '\xa0'
  | 'L' => some '\u2028'
  | 'P' => some '\u2029'
  | _ => none

/-- How many hexadecimal digits follow an escape. -/
def escapeDigits? (c : Char) : Option Nat :=
  match c with
  | 'x' => some 2
  | 'u' => some 4
  | 'U' => some 8
  | _ => none

/-- The symbol of the code point that hexadecimal digits give. -/
def symbol (digits : Text) : Read Sym := do
  let code ← Read.ofOption (digits.foldlM (fun n s => (Json.hexValue? s).map (16 * n + ·)) 0)
  if 0x110000 ≤ code then throw (.codePoint code)
  return Sym.ofCode code

/-- What stands for an escape, after its backslash. -/
def escaped (c : Cursor) : Read (Text × Cursor) :=
  match c.peek? with
  | some (.char a) =>
    match escape? a, escapeDigits? a, c.lineBreak? with
    | some b, _, _ => .ok ([.char b], c.next)
    | none, some n, _ => do
      let digits := c.next.rest.take n
      if digits.length < n then Read.malformed
      else return ([← symbol digits], c.skip (n + 1))
    | none, none, some (_, c) => quotedBreaks c.bound c
    | none, none, none => Read.malformed
  | _ => Read.malformed

/-- What comes before white space or the closing quote. -/
def quotedRun (double : Bool) : (fuel : Nat) → Cursor → Read (Text × Cursor)
  | 0, _ => Read.malformed
  | fuel + 1, c => do
    match c.peek? with
    | none => return ([], c)
    | some s =>
      if isSpaceTab s || isBreak s then return ([], c)
      else if double && s.is '\\' then
        let (here, c) ← escaped c.next
        let (more, c) ← quotedRun double fuel c
        return (here ++ more, c)
      else if !double && s.is '\x27' && c.seesChar '\x27' 1 then
        let (more, c) ← quotedRun double fuel (c.skip 2)
        return (s :: more, c)
      else if s.is (if double then '"' else '\x27') then return ([], c)
      else
        let (more, c) ← quotedRun double fuel c.next
        return (s :: more, c)

def quotedRest (double : Bool) : (fuel : Nat) → Cursor → Read (Text × Cursor)
  | 0, _ => Read.malformed
  | fuel + 1, c => do
    let (here, c) ← quotedRun double c.bound c
    if c.seesChar (if double then '"' else '\x27') then return (here, c.next)
    else
      let (spaces, c) ← quotedSpaces c
      let (more, c) ← quotedRest double fuel c
      return (here ++ spaces ++ more, c)

/-- A quoted scalar, from its opening quote on. -/
def quoted (double : Bool) (c : Cursor) : Read (Text × Cursor) :=
  quotedRest double c.bound c.next

/-! ### Plain -/

def isFlowMark (s : Sym) : Bool :=
  s.is ',' || s.is '[' || s.is ']' || s.is '\x7b' || s.is '\x7d'

/-- Whether a plain scalar ends here. -/
def endsPlain (inFlow : Bool) (c : Cursor) : Bool :=
  c.seesGap || (c.seesChar ':' && (c.seesGap 1 || (inFlow && c.sees isFlowMark 1))) ||
    (inFlow && (c.sees isFlowMark || c.seesChar '?'))

def plainRun (inFlow : Bool) : (fuel : Nat) → Cursor → Text × Cursor
  | 0, c => ([], c)
  | fuel + 1, c =>
    if endsPlain inFlow c then ([], c)
    else
      let (more, after) := plainRun inFlow fuel c.next
      ((c.peek?.toList) ++ more, after)

/-- Breaks and indentation after a line break in a plain scalar; `none` where a document mark
follows. -/
def plainBreaks : (fuel : Nat) → Cursor → Option Text × Cursor
  | 0, c => (none, c)
  | fuel + 1, c =>
    if c.seesDocumentMark then (none, c)
    else
      let c := c.dropWhile (·.is ' ')
      match c.lineBreak? with
      | none => (some [], c)
      | some (lineBreak, c) =>
        let (more, c) := plainBreaks fuel c
        (more.map (lineBreak ++ ·), c)

/-- What stands between two runs of a plain scalar, and whether it crosses lines. -/
def plainSpaces (c : Cursor) : Text × Bool × Cursor :=
  let (blanks, c) := c.takeWhile (·.is ' ')
  match c.lineBreak? with
  | none => (blanks, false, c)
  | some (lineBreak, c) =>
    match plainBreaks c.bound c with
    | (none, c) => ([], true, c)
    | (some breaks, c) => (folded lineBreak breaks, true, c)

/-- A plain scalar, whether a line was crossed after its last run, and the place after it. Outside
brackets, lines that continue it must be indented beyond `indent`. -/
def plainFrom (inFlow : Bool) (indent : Int) (crossed : Bool) :
    (fuel : Nat) → (gap : Text) → Cursor → Text × Bool × Cursor
  | 0, _, c => ([], crossed, c)
  | fuel + 1, gap, c =>
    if c.seesChar '#' then ([], crossed, c)
    else
      let (run, after) := plainRun inFlow c.bound c
      if run.isEmpty then ([], crossed, c)
      else
        let (spaces, crossed, c) := plainSpaces after
        if spaces.isEmpty || c.seesChar '#' || (!inFlow && (c.column : Int) ≤ indent) then
          (gap ++ run, crossed, c)
        else
          let (more, crossed, c) := plainFrom inFlow indent crossed fuel spaces c
          (gap ++ run ++ more, crossed, c)

def plain (inFlow : Bool) (indent : Int) (c : Cursor) : Text × Bool × Cursor :=
  plainFrom inFlow indent false c.bound [] c

/-! ### Blocks -/

/-- How a block ends: with its last break, with none, or with all. -/
inductive Chomping where
  | clip | strip | keep
  deriving DecidableEq, Repr

def chomping? (c : Cursor) : Option (Chomping × Cursor) :=
  if c.seesChar '+' then some (.keep, c.next)
  else if c.seesChar '-' then some (.strip, c.next)
  else none

/-- A digit for the indentation, which is not zero; no digit is allowed too. -/
def indentDigit (c : Cursor) : Option (Option Nat × Cursor) :=
  match c.peek? with
  | some (.char a) =>
    if a = '0' then none
    else if a.isDigit then some (some (a.toNat - 48), c.next)
    else some (none, c)
  | _ => some (none, c)

/-- The marks after `|` or `>`. -/
def blockHeader (c : Cursor) : Option (Chomping × Option Nat × Cursor) := do
  let (chomping, digit, c) ← match chomping? c with
    | some (chomping, c) => do
      let (digit, c) ← indentDigit c
      pure (chomping, digit, c)
    | none => do
      let (digit, c) ← indentDigit c
      match digit, chomping? c with
      | some _, some (chomping, c) => pure (chomping, digit, c)
      | _, _ => pure (Chomping.clip, digit, c)
  if !c.seesSpaceOrEnd then none
  else
    let c := c.dropWhile (·.is ' ')
    let c := if c.seesChar '#' then c.toLineEnd else c
    if c.atEnd then return (chomping, digit, c)
    else
      let (_, c) ← c.lineBreak?
      return (chomping, digit, c)

/-- Leading breaks of a block, and the deepest indentation met on the way. -/
def blockIndent : (fuel : Nat) → (deepest : Nat) → Cursor → Text × Nat × Cursor
  | 0, deepest, c => ([], deepest, c)
  | fuel + 1, deepest, c =>
    if c.seesChar ' ' then blockIndent fuel (max deepest c.next.column) c.next
    else match c.lineBreak? with
      | none => ([], deepest, c)
      | some (lineBreak, c) =>
        let (more, deepest, c) := blockIndent fuel deepest c
        (lineBreak ++ more, deepest, c)

/-- Skips blanks up to a column. -/
def blanksTo (column : Nat) (c : Cursor) : Cursor :=
  c.skip (min (column - c.column) (c.rest.takeWhile (·.is ' ')).length)

/-- Breaks between the lines of a block. -/
def blockBreaks (indent : Nat) : (fuel : Nat) → Cursor → Text × Cursor
  | 0, c => ([], c)
  | fuel + 1, c =>
    let c := blanksTo indent c
    match c.lineBreak? with
    | none => ([], c)
    | some (lineBreak, c) =>
      let (more, c) := blockBreaks indent fuel c
      (lineBreak ++ more, c)

/-- The lines of a block, the break after the last one, and the breaks behind it. -/
def blockLines (folding : Bool) (indent : Nat) :
    (fuel : Nat) → (breaks : Text) → Cursor → Text × Text × Text × Cursor
  | 0, breaks, c => ([], [], breaks, c)
  | fuel + 1, breaks, c =>
    let solid := !c.sees isSpaceTab
    let (line, c) := c.takeWhile fun s => !isBreak s
    let (lineBreak, c) := (c.lineBreak?).getD ([], c)
    let (after, c) := blockBreaks indent c.bound c
    if c.column = indent && !c.atEnd then
      let joint :=
        if folding && lineBreak = [.char '\n'] && solid && !c.sees isSpaceTab then
          if after.isEmpty then [.char ' '] else []
        else lineBreak
      let (more, last, trailing, c) := blockLines folding indent fuel after c
      (breaks ++ line ++ joint ++ more, last, trailing, c)
    else (breaks ++ line, lineBreak, after, c)

/-- A block scalar, from its mark on, inside a block that is indented by `indent`. -/
def block? (folding : Bool) (indent : Int) (c : Cursor) : Option (Text × Cursor) := do
  let (chomping, digit, c) ← blockHeader c.next
  let least := (max 1 (indent + 1)).toNat
  let (breaks, depth, c) := match digit with
    | none =>
      let (breaks, deepest, c) := blockIndent c.bound 0 c
      (breaks, max least deepest, c)
    | some d =>
      let depth := least + d - 1
      let (breaks, c) := blockBreaks depth c.bound c
      (breaks, depth, c)
  let (text, last, trailing, c) :=
    if c.column = depth && !c.atEnd then blockLines folding depth c.bound breaks c
    else ([], [], breaks, c)
  return match chomping with
    | .strip => (text, c)
    | .clip => (text ++ last, c)
    | .keep => (text ++ last ++ trailing, c)

end HouseStyle.Yaml
