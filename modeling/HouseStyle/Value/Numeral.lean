import HouseStyle.Text.Case
import HouseStyle.Text.Quoted
import HouseStyle.Value.Decimal

/-! Numerals as they are written: integers in some base, and decimal numbers. Digits may be of any
script, and a sign and white space around a numeral are allowed. -/

namespace HouseStyle.Numeral

/-- Why a text is no numeral. -/
inductive Error where
  | notInteger (base : Nat) (t : Text)
  | notDecimal (t : Text)
  | tooLong (digits : Nat)
  deriving DecidableEq, Repr

/-- The most digits of an integer in base ten. -/
def mostDigits : Nat := 4300

def Error.message : Error → Text
  | notInteger base t =>
    "invalid literal for int() with base " ++ Text.ofNat base ++ ": " ++ t.quoted.take 200
  | notDecimal t => "could not convert string to float: " ++ t.quoted
  | tooLong digits =>
    "Exceeds the limit (" ++ Text.ofNat mostDigits ++
      " digits) for integer string conversion: value has " ++ Text.ofNat digits ++
      " digits; use sys.set_int_max_str_digits() to increase the limit"

/-! ### Parts -/

/-- White space around numerals. The information separators are not among it. -/
def isGap (s : Sym) : Bool := s.isSpace && !(0x1C ≤ s.code && s.code ≤ 0x1F)

def trimmed (t : Text) : Text := ((t.dropWhile isGap).reverse.dropWhile isGap).reverse

/-- A sign and what follows it. -/
def signed (t : Text) : Bool × Text :=
  match t with
  | .char '-' :: rest => (true, rest)
  | .char '+' :: rest => (false, rest)
  | _ => (false, t)

/-- The value of a digit, where letters count on from ten. -/
def digit? (s : Sym) : Option Nat :=
  if s.isDigit then some s.digitValue
  else match s with
    | .char c =>
      if 'a' ≤ c ∧ c ≤ 'z' then some (c.toNat - 87)
      else if 'A' ≤ c ∧ c ≤ 'Z' then some (c.toNat - 55)
      else none
    | _ => none

def isDigitOf (base : Nat) (s : Sym) : Bool := (digit? s).any (· < base)

/-- The number that digits stand for. -/
def valueOf (base : Nat) (digits : Text) : Nat :=
  digits.foldl (fun n s => base * n + (digit? s).getD 0) 0

def negateIf (negative : Bool) (n : Nat) : Int := if negative then -n else n

/-! ### Integers -/

/-- The letters that mark a base after a zero. -/
def baseMarks (base : Nat) : List Char :=
  if base = 2 then ['b', 'B'] else if base = 8 then ['o', 'O'] else if base = 16 then ['x', 'X']
  else []

/-- What follows the mark of the base, if there is one. An underscore may end the mark. -/
def afterMark (base : Nat) (t : Text) : Text :=
  match t with
  | .char '0' :: s :: rest =>
    if (baseMarks base).any s.is then
      if rest.head? = some (.char '_') then rest.tail else rest
    else t
  | _ => t

/-- The integer of a text. Single underscores may divide its digits. -/
def integer (base : Nat) (t : Text) : Except Error Int :=
  let (negative, rest) := signed (trimmed t)
  let groups := Text.splitOn (.char '_') (afterMark base rest)
  let digits := groups.flatten
  if !groups.all fun group => !group.isEmpty && group.all (isDigitOf base) then
    .error (.notInteger base t)
  else if base = 10 ∧ mostDigits < digits.length then .error (.tooLong digits.length)
  else .ok (negateIf negative (valueOf base digits))

/-! ### Decimal numbers -/

/-- The power of ten that ends a decimal numeral; none at all stands for zero. -/
def power? (t : Text) : Option Int :=
  match t with
  | [] => some 0
  | e :: rest =>
    let (negative, digits) := signed rest
    if (e.is 'e' || e.is 'E') && !digits.isEmpty && digits.all Sym.isDigit then
      some (negateIf negative (valueOf 10 digits))
    else none

/-- Digits around a point, at least one, and a power of ten. -/
def finite? (negative : Bool) (t : Text) : Option Decimal :=
  let whole := t.takeWhile Sym.isDigit
  let rest := t.drop whole.length
  let (fraction, rest) := match rest with
    | .char '.' :: more =>
      let fraction := more.takeWhile Sym.isDigit
      (fraction, more.drop fraction.length)
    | _ => ([], rest)
  let digits := whole ++ fraction
  if digits.isEmpty then none
  else (power? rest).map fun power =>
    .ofNumeral negative (valueOf 10 digits) (power - fraction.length)

/-- The decimal number of a text, which may be the name of one that is not finite. -/
def decimal (t : Text) : Except Error Decimal :=
  let (negative, rest) := signed (trimmed t)
  let infinite : List Text := ["inf", "infinity"]
  let name := rest.flatMap Sym.lower
  if infinite.contains name then .ok (.infinite negative)
  else if name = "nan" then .ok .notANumber
  else match finite? negative rest with
    | some x => .ok x
    | none => .error (.notDecimal t)

end HouseStyle.Numeral
