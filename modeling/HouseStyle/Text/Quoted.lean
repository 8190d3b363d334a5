import HouseStyle.Text.Classes

/-! Texts in quotes, as messages show them. Apostrophes delimit unless the text holds an apostrophe
and no double quote; symbols that cannot be printed are written as escapes. -/

namespace HouseStyle.Text

def hexDigit (n : Nat) : Sym := .char (Nat.digitChar n)

/-- `width` hexadecimal digits of a number, the lowest ones. -/
def hexDigits : (width : Nat) → Nat → Text
  | 0, _ => []
  | w + 1, n => hexDigits w (n / 16) ++ [hexDigit (n % 16)]

/-- A symbol inside quotes of the given kind. -/
def escapeSym (quote : Char) (s : Sym) : Text :=
  if s.is quote || s.is '\\' then [.char '\\', s]
  else if s.is '\t' then "\\t"
  else if s.is '\n' then "\\n"
  else if s.is '\r' then "\\r"
  else if s.isPrintable then [s]
  else if s.code < 0x100 then .char '\\' :: .char 'x' :: hexDigits 2 s.code
  else if s.code < 0x10000 then .char '\\' :: .char 'u' :: hexDigits 4 s.code
  else .char '\\' :: .char 'U' :: hexDigits 8 s.code

def quoted (t : Text) : Text :=
  let quote := if t.any (·.is '\'') && !t.any (·.is '"') then '"' else '\''
  .char quote :: t.flatMap (escapeSym quote) ++ [.char quote]

/-- A byte in quotes: a printable character of ASCII, or an escape. -/
def escapeByte (quote : Char) (b : UInt8) : Text :=
  if b.toNat < 0x80 then escapeSym quote (.char (Char.ofNat b.toNat))
  else .char '\\' :: .char 'x' :: hexDigits 2 b.toNat

/-- Bytes in quotes, which are chosen as for texts. -/
def quotedBytes (bs : List UInt8) : Text :=
  let quote := if bs.contains 39 && !bs.contains 34 then '"' else '\''
  .char 'b' :: .char quote :: bs.flatMap (escapeByte quote) ++ [.char quote]

end HouseStyle.Text
