import HouseStyle.Text.Basic
import HouseStyle.Text.WordTable
import HouseStyle.Text.PrintableTable
import HouseStyle.Text.WidthTable

/-! Classes of symbols. A stray byte is in none of them. ASCII is decided directly and all else
by table. -/

namespace HouseStyle.Sym

/-- Decides a class by a test on ASCII and a table beyond. -/
def inClass (ascii : Char → Bool) (table : List Table.Range) : Sym → Bool
  | .char c => if c.toNat < 0x80 then ascii c else Table.covers table c.toNat
  | _ => false

/-- Letters, numbers with a value, and the underscore. -/
def isWord (s : Sym) : Bool := inClass (fun c => c.isAlphanum || c = '_') Table.word s

/-- Digits of decimal numerals, in any script. -/
def isDigit (s : Sym) : Bool := inClass Char.isDigit Table.decimal s

/-- The value of a digit. Digits of one script stand in a row from zero on. -/
def digitValue (s : Sym) : Nat :=
  if s.code < 0x80 then s.code - 48
  else match Table.decimal.find? fun (lo, hi) => lo ≤ s.code && s.code ≤ hi with
    | some (lo, _) => (s.code - lo) % 10
    | none => 0

/-- White space beyond ASCII: next line, no-break space, and the space and line separators. -/
def wideBlanks : List Table.Range :=
  [(0x85, 0x85), (0xA0, 0xA0), (0x1680, 0x1680), (0x2000, 0x200A), (0x2028, 0x2029),
   (0x202F, 0x202F), (0x205F, 0x205F), (0x3000, 0x3000)]

/-- White space, with the line breaks and the four information separators. -/
def isSpace (s : Sym) : Bool :=
  inClass (fun c => (9 ≤ c.toNat && c.toNat ≤ 13) || (28 ≤ c.toNat && c.toNat ≤ 32)) wideBlanks s

/-- White space that does not break a source line. -/
def isBlank (s : Sym) : Bool := s.isSpace && !s.isBreak

/-- A symbol that can start a word: a word symbol other than a digit. -/
def isWordStart (s : Sym) : Bool := s.isWord && !s.isDigit

def isPrintable (s : Sym) : Bool :=
  inClass (fun c => 32 ≤ c.toNat && c.toNat < 127) Table.printable s

/-- Terminal columns that a symbol takes. -/
def width : Sym → Nat
  | .char c =>
    if Table.covers Table.zeroWidth c.toNat then 0
    else if Table.covers Table.doubleWidth c.toNat then 2
    else 1
  | _ => 1

end HouseStyle.Sym

namespace HouseStyle.Text

/-- The text without white space at either end. -/
def strip (t : Text) : Text :=
  ((t.dropWhile Sym.isSpace).reverse.dropWhile Sym.isSpace).reverse

/-- Terminal columns that a text takes. -/
def width (t : Text) : Nat := total (t.map Sym.width)

end HouseStyle.Text
