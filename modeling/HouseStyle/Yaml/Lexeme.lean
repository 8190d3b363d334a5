import HouseStyle.Value.Numeral
import HouseStyle.Yaml.Scalar
import HouseStyle.Yaml.TagName

/-! The lexemes of a document. Blocks are told from their indentation, and a key is known as one
only when the colon after it is met: until then the place where it began is remembered, and marks
for it are put in at the end. Where a document cannot be read on, its lexemes end with the reason. -/

namespace HouseStyle.Yaml

/-- What a line with `%` says: the version of the language, what a handle of tags stands for, or
something that counts for nothing. -/
inductive Directive where
  | version (major : Int)
  | handle (handle start : Text)
  | other
  deriving DecidableEq, Repr, Inhabited

inductive Lexeme where
  | directive (d : Directive)
  | documentStart | documentEnd
  | mapStart | listStart | blockEnd
  | openList | closeList | openMap | closeMap
  | comma | dash | key | value
  | alias_ (name : Text)
  | anchor (name : Text)
  | tag (name : TagName)
  | scalar (plain : Bool) (text : Text)
  | broken (error : ReadError)
  deriving DecidableEq, Repr, Inhabited

/-- A place where a key may have begun: the number of lexemes before it and where it stands. A key
at the indentation of its block must turn out to be one. -/
structure KeyPlace where
  number : Nat
  required : Bool
  index : Nat
  line : Nat
  column : Nat
  deriving DecidableEq, Repr

/-- How far a document has been read. -/
structure Scan where
  cursor : Cursor
  lexemes : Array Lexeme := #[]
  /-- Marks to put in before the lexeme of a number. -/
  marks : List (Nat × List Lexeme) := []
  indent : Int := -1
  outer : List Int := []
  keyAllowed : Bool := true
  /-- Possible keys, one for each level of brackets, the innermost first. -/
  keys : List (Option KeyPlace) := [none]
  deriving Inhabited

namespace Scan

def inFlow (s : Scan) : Bool := 1 < s.keys.length

def push (s : Scan) (l : Lexeme) : Scan := { s with lexemes := s.lexemes.push l }

def at_ (s : Scan) (c : Cursor) : Scan := { s with cursor := c }

/-! ### Possible keys -/

/-- Forgets places on earlier lines and places too far back. -/
def dropStale (s : Scan) : Read Scan := do
  let keys ← s.keys.mapM fun
    | none => pure none
    | some k =>
      if k.line ≠ s.cursor.line ∨ 1024 < s.cursor.index - k.index then
        if k.required then Read.malformed else pure none
      else pure (some k)
  return { s with keys }

def forgetKey (s : Scan) : Read Scan :=
  match s.keys with
  | some k :: rest => if k.required then Read.malformed else .ok { s with keys := none :: rest }
  | _ => .ok s

def rememberKey (s : Scan) : Read Scan := do
  if s.keyAllowed then
    let s ← s.forgetKey
    let c := s.cursor
    let place : KeyPlace := {
      number := s.lexemes.size
      required := !s.inFlow && s.indent = c.column
      index := c.index
      line := c.line
      column := c.column }
    return { s with keys := some place :: s.keys.tail }
  else return s

/-! ### Indentation -/

/-- Closes the blocks that are indented beyond a column. -/
def unwindTo (column : Int) : List Int → Scan → Scan
  | [], s => { s with outer := [] }
  | out :: rest, s =>
    if column < s.indent then unwindTo column rest { s.push .blockEnd with indent := out }
    else { s with outer := out :: rest }

def unwind (s : Scan) (column : Int) : Scan :=
  if s.inFlow then s else unwindTo column s.outer s

/-- Opens a block at a column, if it is indented beyond the blocks around it. -/
def indentTo (s : Scan) (column : Nat) : Option Scan :=
  if s.indent < column then some { s with outer := s.indent :: s.outer, indent := column } else none

def openBlock (s : Scan) (start : Lexeme) : Scan :=
  match s.indentTo s.cursor.column with
  | some s => s.push start
  | none => s

/-! ### Single lexemes -/

/-- One lexeme of one symbol. -/
def mark (s : Scan) (l : Lexeme) : Scan := (s.push l).at_ s.cursor.next

def documentMark (s : Scan) (l : Lexeme) : Read Scan := do
  let s ← (s.unwind (-1)).forgetKey
  return { (s.push l).at_ (s.cursor.skip 3) with keyAllowed := false }

/-! ### Directives -/

def number (c : Cursor) : Read (Int × Cursor) := do
  let (digits, c) := c.takeWhile Json.isAsciiDigit
  if digits.isEmpty then Read.malformed
  else return (← Read.numeral (Numeral.integer 10 digits), c)

def version (c : Cursor) : Read (Directive × Cursor) := do
  let (major, c) ← number (c.dropWhile (·.is ' '))
  if !c.seesChar '.' then Read.malformed
  else
    let (_, c) ← number c.next
    if c.seesSpaceOrEnd then return (.version major, c) else Read.malformed

def tagHandle? (c : Cursor) : Option (Directive × Cursor) := do
  let (handle, c) ← TagName.handle? (c.dropWhile (·.is ' '))
  if !c.seesChar ' ' then none
  else
    let (start, c) ← TagName.name? (c.dropWhile (·.is ' '))
    if c.seesSpaceOrEnd then return (.handle handle start, c) else none

def directive (s : Scan) : Read Scan := do
  let s ← (s.unwind (-1)).forgetKey
  let (name, c) := s.cursor.next.takeWhile isNameSym
  if name.isEmpty || !c.seesSpaceOrEnd then Read.malformed
  else
    let (d, c) ← if name = "YAML" then version c
      else if name = "TAG" then Read.ofOption (tagHandle? c)
      else pure (.other, c.toLineEnd)
    let c := c.dropWhile (·.is ' ')
    let c := if c.seesChar '#' then c.toLineEnd else c
    if !c.seesLineEnd then Read.malformed
    else return { (s.push (.directive d)).at_ c.next with keyAllowed := false }

/-! ### Marks of lists and mappings -/

/-- How many brackets may be open: more than are read in the end. -/
def mostOpen : Nat := 2000

def openBracket (s : Scan) (l : Lexeme) : Read Scan := do
  if mostOpen < s.keys.length then throw .tooDeep
  let s ← s.rememberKey
  return { s.mark l with keys := none :: s.keys, keyAllowed := true }

def closeBracket (s : Scan) (l : Lexeme) : Read Scan := do
  let s ← s.forgetKey
  if s.inFlow then return { s.mark l with keys := s.keys.tail, keyAllowed := false }
  else Read.malformed

def comma (s : Scan) : Read Scan := do
  let s ← s.forgetKey
  return { s.mark .comma with keyAllowed := true }

def dash (s : Scan) : Read Scan := do
  if !s.inFlow && !s.keyAllowed then Read.malformed
  else
    let s := if s.inFlow then s else s.openBlock .listStart
    let s ← s.forgetKey
    return { s.mark .dash with keyAllowed := true }

def question (s : Scan) : Read Scan := do
  if !s.inFlow && !s.keyAllowed then Read.malformed
  else
    let s := if s.inFlow then s else s.openBlock .mapStart
    let s ← s.forgetKey
    return { s.mark .key with keyAllowed := !s.inFlow }

/-- A colon makes the remembered place a key. -/
def colon (s : Scan) : Read Scan :=
  match s.keys with
  | some k :: rest =>
    let s := { s with keys := none :: rest }
    let (s, added) := match if s.inFlow then none else s.indentTo k.column with
      | some s => (s, [Lexeme.mapStart, .key])
      | none => (s, [Lexeme.key])
    .ok { s.mark .value with marks := (k.number, added) :: s.marks, keyAllowed := false }
  | _ =>
    if !s.inFlow && !s.keyAllowed then Read.malformed
    else
      let s := if s.inFlow then s else s.openBlock .mapStart
      .ok { s.mark .value with keyAllowed := !s.inFlow }

def name? (c : Cursor) : Option (Text × Cursor) :=
  let (name, c) := c.takeWhile isNameSym
  let ends := c.seesGap || c.sees fun s =>
    s.is '?' || s.is ':' || s.is ',' || s.is ']' || s.is '\x7d' || s.is '%' || s.is '@' ||
      s.is '\x60'
  if name.isEmpty || !ends then none else some (name, c)

def named (s : Scan) (make : Text → Lexeme) : Read Scan := do
  let s ← s.rememberKey
  let (name, c) ← Read.ofOption (name? s.cursor.next)
  return { (s.push (make name)).at_ c with keyAllowed := false }

def tag (s : Scan) : Read Scan := do
  let s ← s.rememberKey
  let (name, c) ← Read.ofOption (TagName.read? s.cursor)
  return { (s.push (.tag name)).at_ c with keyAllowed := false }

/-! ### Scalars -/

def block (s : Scan) (folding : Bool) : Read Scan := do
  let s ← s.forgetKey
  let (text, c) ← Read.ofOption (block? folding s.indent s.cursor)
  return { (s.push (.scalar false text)).at_ c with keyAllowed := true }

def quoted (s : Scan) (double : Bool) : Read Scan := do
  let s ← s.rememberKey
  let (text, c) ← Yaml.quoted double s.cursor
  return { (s.push (.scalar false text)).at_ c with keyAllowed := false }

def plain (s : Scan) : Read Scan := do
  let s ← s.rememberKey
  let (text, crossed, c) := Yaml.plain s.inFlow s.indent s.cursor
  return { (s.push (.scalar true text)).at_ c with keyAllowed := crossed }

/-- Whether a plain scalar starts here. -/
def startsPlain (s : Scan) : Bool :=
  let c := s.cursor
  let special : List Char := ['-', '?', ':', ',', '[', ']', '\x7b', '\x7d', '#', '&', '*', '!', '|',
    '>', '\x27', '"', '%', '@', '\x60']
  !c.seesGap && (!c.sees (fun a => special.any a.is) ||
    (!c.seesGap 1 && (c.seesChar '-' || (!s.inFlow && (c.seesChar '?' || c.seesChar ':')))))

/-! ### Reading on -/

/-- Skips blanks, comments and line breaks. A new line outside brackets may begin with a key. -/
def skipGaps : (fuel : Nat) → Scan → Scan
  | 0, s => s
  | fuel + 1, s =>
    let c := s.cursor.dropWhile (·.is ' ')
    let c := if c.seesChar '#' then c.toLineEnd else c
    match c.lineBreak? with
    | none => s.at_ c
    | some (_, c) => skipGaps fuel { s.at_ c with keyAllowed := s.keyAllowed || !s.inFlow }

/-- Reads the lexeme that starts with a symbol. -/
def lexeme (s : Scan) (a : Char) : Read Scan :=
  let c := s.cursor
  let gapNext := c.seesGap 1
  if a = '%' && c.column = 0 then s.directive
  else if a = '-' && c.column = 0 && c.seesDocumentMark then s.documentMark .documentStart
  else if a = '.' && c.column = 0 && c.seesDocumentMark then s.documentMark .documentEnd
  else if a = '[' then s.openBracket .openList
  else if a = '\x7b' then s.openBracket .openMap
  else if a = ']' then s.closeBracket .closeList
  else if a = '\x7d' then s.closeBracket .closeMap
  else if a = ',' then s.comma
  else if a = '-' && gapNext then s.dash
  else if a = '?' && (s.inFlow || gapNext) then s.question
  else if a = ':' && (s.inFlow || gapNext) then s.colon
  else if a = '*' then s.named .alias_
  else if a = '&' then s.named .anchor
  else if a = '!' then s.tag
  else if a = '|' && !s.inFlow then s.block false
  else if a = '>' && !s.inFlow then s.block true
  else if a = '\x27' then s.quoted false
  else if a = '"' then s.quoted true
  else if s.startsPlain then s.plain
  else Read.malformed

/-- Reads on by one lexeme, and tells whether the document has ended. -/
def step (s : Scan) : Read (Scan × Bool) := do
  let s ← (skipGaps s.cursor.bound s).dropStale
  let s := s.unwind s.cursor.column
  match s.cursor.peek? with
  | none => return (← (s.unwind (-1)).forgetKey, true)
  | some (.char a) => return (← s.lexeme a, false)
  | some _ => Read.malformed

/-- How many lexemes come before all places where it is open whether a key began. -/
def settled (s : Scan) : Nat :=
  (s.keys.filterMap fun k => k.map (·.number)).foldl min s.lexemes.size

/-- The lexemes up to a number, with the marks put in. -/
def upTo (s : Scan) (number : Nat) : List Lexeme :=
  let marks := s.marks.foldr (fun (n, added) table => table.modify n fun _ => added)
    (Array.replicate s.lexemes.size [])
  (s.lexemes.toList.take number).zipIdx.flatMap fun (l, n) => marks.getD n [] ++ [l]

/-- All lexemes of the document, up to where it is broken. -/
def run : (fuel : Nat) → Scan → List Lexeme
  | 0, s => s.upTo s.lexemes.size
  | fuel + 1, s =>
    match s.step with
    | .ok (s, true) => s.upTo s.lexemes.size
    | .ok (s, false) => run fuel s
    | .error e =>
      let settled := match s.dropStale with
        | .ok s => s.settled
        | .error _ => 0
      s.upTo settled ++ [.broken e]

end Scan

def lexemes (t : Text) : List Lexeme :=
  let start : Cursor := { rest := t }
  let start := if start.seesChar '\uFEFF' then start.next else start
  Scan.run (t.length + 1) { cursor := start }

end HouseStyle.Yaml
