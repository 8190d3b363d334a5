import HouseStyle.Text.Basic

/-! A place in a document, with what is left to read. Lines and columns are counted from zero. -/

namespace HouseStyle.Yaml

/-- Symbols that end a line. Carriage returns are gone before a document is read. -/
def isBreak (s : Sym) : Bool := s.is '\n' || s.is '\x85' || s.is '\u2028' || s.is '\u2029'

def isSpaceTab (s : Sym) : Bool := s.is ' ' || s.is '\t'

structure Cursor where
  rest : Text
  /-- The length of the document. -/
  size : Nat := rest.length
  index : Nat := 0
  line : Nat := 0
  column : Nat := 0
  deriving Repr, Inhabited

namespace Cursor

/-- More than the symbols that are left. -/
def bound (c : Cursor) : Nat := c.size - c.index + 1

def peek? (c : Cursor) (n : Nat := 0) : Option Sym := c.rest[n]?

def atEnd (c : Cursor) : Bool := c.rest.isEmpty

/-- Whether the symbol `n` places on meets a condition. -/
def sees (c : Cursor) (p : Sym → Bool) (n : Nat := 0) : Bool := (c.peek? n).any p

def seesChar (c : Cursor) (a : Char) (n : Nat := 0) : Bool := c.sees (·.is a) n

/-- Whether a line ends `n` places on. -/
def seesLineEnd (c : Cursor) (n : Nat := 0) : Bool := (c.peek? n).all isBreak

/-- Whether white space or the end of the document comes `n` places on. -/
def seesGap (c : Cursor) (n : Nat := 0) : Bool := (c.peek? n).all fun s => isSpaceTab s || isBreak s

/-- Whether a space or a line end comes next. -/
def seesSpaceOrEnd (c : Cursor) : Bool := c.seesLineEnd || c.seesChar ' '

def next (c : Cursor) : Cursor :=
  match c.rest with
  | [] => c
  | s :: rest =>
    if isBreak s then { c with rest, index := c.index + 1, line := c.line + 1, column := 0 }
    else { c with rest, index := c.index + 1,
                  column := if s.is '\uFEFF' then c.column else c.column + 1 }

def skip (c : Cursor) : Nat → Cursor
  | 0 => c
  | n + 1 => c.next.skip n

/-- The symbols that meet a condition, and the place after them. -/
def takeWhile (c : Cursor) (p : Sym → Bool) : Text × Cursor :=
  let taken := c.rest.takeWhile p
  (taken, c.skip taken.length)

def dropWhile (c : Cursor) (p : Sym → Bool) : Cursor := (c.takeWhile p).2

/-- The text of a line break, if one comes next. Separators keep their own form. -/
def lineBreak? (c : Cursor) : Option (Text × Cursor) :=
  match c.peek? with
  | some s =>
    if s.is '\n' || s.is '\x85' then some ([.char '\n'], c.next)
    else if isBreak s then some ([s], c.next)
    else none
  | none => none

def toLineEnd (c : Cursor) : Cursor := c.dropWhile fun s => !isBreak s

/-- Whether `---` or `...` stands here by itself. -/
def seesDocumentMark (c : Cursor) : Bool :=
  (c.rest.take 3 = List.replicate 3 (.char '-') || c.rest.take 3 = List.replicate 3 (.char '.')) &&
    c.seesGap 3

end Cursor
end HouseStyle.Yaml
