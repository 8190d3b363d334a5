import HouseStyle.Text.Classes

/-! Styled text for terminals. A styled text is a list of pieces, each with a style; it is laid out
in lines, without control characters, and with tabs filled up to the next multiple of eight
columns. -/

namespace HouseStyle

inductive Colour where
  | red | green | yellow | blue | magenta | cyan
  deriving DecidableEq, Repr

/-- The number that selects a colour. -/
def Colour.code : Colour → Nat
  | red => 31
  | green => 32
  | yellow => 33
  | blue => 34
  | magenta => 35
  | cyan => 36

structure Style where
  bold : Bool := false
  dim : Bool := false
  italic : Bool := false
  colour : Option Colour := none
  deriving DecidableEq, Repr, Inhabited

namespace Style

def plain : Style := {}

/-- The numbers that switch a style on. -/
def codes (s : Style) : List Nat :=
  (if s.bold then [1] else []) ++ (if s.dim then [2] else []) ++ (if s.italic then [3] else []) ++
    s.colour.toList.map Colour.code

end Style

structure Piece where
  style : Style
  text : Text
  deriving DecidableEq, Repr, Inhabited

abbrev Styled := List Piece

namespace Styled

def plain (t : Text) : Styled := [⟨.plain, t⟩]

def text (s : Styled) : Text := s.flatMap Piece.text

def width (s : Styled) : Nat := s.text.width

/-! ### Layout -/

/-- Bell, backspace, vertical tab, form feed and carriage return are not shown. -/
def isHidden (s : Sym) : Bool :=
  s.code = 7 || s.code = 8 || s.code = 11 || s.code = 12 || s.code = 13

def withoutHidden (s : Styled) : Styled :=
  s.map fun p => { p with text := p.text.filter fun c => !isHidden c }

/-- The parts of a styled text between the occurrences of a symbol. -/
def splitOn (sep : Sym) : Styled → List Styled
  | [] => [[]]
  | p :: rest =>
    match (p.text.splitOn sep).map (fun part => [Piece.mk p.style part]), splitOn sep rest with
    | [], others => others
    | [last], first :: others => (last ++ first) :: others
    | parts, first :: others => parts.dropLast ++ ((parts.getLast?.getD []) ++ first) :: others
    | parts, [] => parts

/-- Adds to the end of the last piece, in its style. -/
def extend (t : Text) : Styled → Styled
  | [] => plain t
  | [p] => [{ p with text := p.text ++ t }]
  | p :: rest => p :: extend t rest

def tabWidth : Nat := 8

/-- Ends parts of a line, but the last, with blanks up to the next multiple of eight columns, one
at least. -/
def fillTabs (column : Nat) : List Styled → Styled
  | [] => []
  | [last] => last
  | part :: rest =>
    let used := column + part.width + 1
    let stop := (used + tabWidth - 1) / tabWidth * tabWidth
    extend (Text.fill (stop - used + 1) ' ') part ++ fillTabs stop rest

/-- The first `n` symbols. -/
def take (n : Nat) : Styled → Styled
  | [] => []
  | p :: rest => { p with text := p.text.take n } :: take (n - p.text.length) rest

/-- Lines of more symbols than this lose white space at their end. -/
def lineLimit : Nat := 120

/-- Drops the white space that ends a line, as far as it lies beyond the limit. -/
def trimEnd (line : Styled) : Styled :=
  let size := line.text.length
  let blanks := (line.text.reverse.takeWhile Sym.isSpace).length
  line.take (size - min blanks (size - lineLimit))

/-- The lines of a styled text. -/
def lines (s : Styled) : List Styled :=
  (splitOn (.char '\n') (withoutHidden s)).map fun line =>
    trimEnd (fillTabs 0 (splitOn (.char '\t') line))

/-! ### Rendering -/

/-- A piece between the sequences that switch its style on and off. -/
def renderPiece (colour : Bool) (p : Piece) : Text :=
  if !colour || p.text.isEmpty || p.style.codes.isEmpty then p.text
  else
    let escape (t : Text) : Text := .char '\x1b' :: .char '[' :: t ++ [.char 'm']
    escape (Text.joinWith ";" (p.style.codes.map Text.ofNat)) ++ p.text ++ escape "0"

def render (colour : Bool) (s : Styled) : Text := s.flatMap (renderPiece colour)

/-- The lines of a styled text, each followed by a line feed. -/
def print (colour : Bool) (s : Styled) : Text :=
  s.lines.flatMap fun line => line.render colour ++ [.char '\n']

end Styled
end HouseStyle
