import HouseStyle.Text.Classes

/-! Lengths of block comments, strings and numbers. Block comments nest. A string may hold
interpolations, which nest parentheses and strings in turn, so the string scan keeps the
enclosing strings on a stack. -/

namespace HouseStyle.Literal

/-- Length up to the marker that closes the last of `depth` open comments, `taken` symbols being
passed already; `none` when the text ends before. -/
def commentEnd? (depth taken : Nat) : Text → Option Nat
  | [] => none
  | [_] => none
  | .char '/' :: .char '*' :: rest => commentEnd? (depth + 1) (taken + 2) rest
  | .char '*' :: .char '/' :: rest =>
    if depth ≤ 1 then some (taken + 2) else commentEnd? (depth - 1) (taken + 2) rest
  | _ :: s :: rest => commentEnd? depth (taken + 1) (s :: rest)

/-- Length of the block comment that starts a text. -/
def blockComment? (t : Text) : Option Nat := commentEnd? 0 0 t

inductive Quote where
  | single | triple
  deriving DecidableEq, Repr

/-- Three quotes in a row always open a triple-quoted string. -/
def Quote.opening : Text → Quote
  | .char '"' :: .char '"' :: .char '"' :: _ => .triple
  | _ => .single

def Quote.length : Quote → Nat
  | .single => 1
  | .triple => 3

/-- A string being read: its quote, and how many parentheses of an interpolation are open. With
none open the scan is in the body of the string. -/
structure Open where
  quote : Quote
  parens : Nat
  deriving DecidableEq, Repr

/-- Length up to the end of the outermost string: `cur` is being read inside the strings of
`outer`, and `taken` symbols are passed already. -/
def stringEnd? (cur : Open) (outer : List Open) (taken : Nat) : Text → Option Nat
  | [] => none
  | .char '\\' :: [] => none
  | .char '\\' :: s :: rest =>
    if cur.parens = 0 then
      stringEnd? (if s.is '(' then { cur with parens := 1 } else cur) outer (taken + 2) rest
    else stringEnd? cur outer (taken + 1) (s :: rest)
  | .char '"' :: .char '"' :: .char '"' :: rest =>
    if cur.parens = 0 then
      match cur.quote, outer with
      | .triple, [] => some (taken + 3)
      | .triple, frame :: outer => stringEnd? frame outer (taken + 3) rest
      | .single, [] => some (taken + 1)
      | .single, frame :: outer =>
        stringEnd? frame outer (taken + 1) (.char '"' :: .char '"' :: rest)
    else stringEnd? ⟨.triple, 0⟩ (cur :: outer) (taken + 3) rest
  | .char '"' :: rest =>
    if cur.parens = 0 then
      match cur.quote, outer with
      | .triple, _ => stringEnd? cur outer (taken + 1) rest
      | .single, [] => some (taken + 1)
      | .single, frame :: outer => stringEnd? frame outer (taken + 1) rest
    else stringEnd? ⟨.single, 0⟩ (cur :: outer) (taken + 1) rest
  | s :: rest =>
    if cur.parens = 0 then stringEnd? cur outer (taken + 1) rest
    else if s.is '(' then
      stringEnd? { cur with parens := cur.parens + 1 } outer (taken + 1) rest
    else if s.is ')' then
      stringEnd? { cur with parens := cur.parens - 1 } outer (taken + 1) rest
    else stringEnd? cur outer (taken + 1) rest

/-- Length of the string whose opening quote starts a text. -/
def string? (t : Text) : Option Nat :=
  let quote := Quote.opening t
  stringEnd? ⟨quote, 0⟩ [] quote.length (t.drop quote.length)

/-! ### Numbers -/

def isHex (s : Sym) : Bool :=
  match s with
  | .char c => c.isDigit || ('a' ≤ c && c ≤ 'f') || ('A' ≤ c && c ≤ 'F') || c = '_'
  | _ => false

def isBinary (s : Sym) : Bool := s.is '0' || s.is '1' || s.is '_'

def isOctal (s : Sym) : Bool :=
  match s with
  | .char c => ('0' ≤ c && c ≤ '7') || c = '_'
  | _ => false

def isDigitOrLine (s : Sym) : Bool := s.isDigit || s.is '_'

def run (p : Sym → Bool) (t : Text) : Nat := (t.takeWhile p).length

/-- The fraction after the whole part: a point, a digit, and more digits or underscores. -/
def fraction (t : Text) : Nat :=
  match t with
  | .char '.' :: d :: rest => if d.isDigit then 2 + run isDigitOrLine rest else 0
  | _ => 0

/-- Length of the sign that starts a text, if one does. -/
def sign : Text → Nat
  | .char '+' :: _ | .char '-' :: _ => 1
  | _ => 0

/-- The exponent: its letter, a sign or none, and digits. -/
def exponent (t : Text) : Nat :=
  match t with
  | .char c :: rest =>
    if c = 'e' || c = 'E' then
      let digits := run Sym.isDigit (rest.drop (sign rest))
      if digits = 0 then 0 else 1 + sign rest + digits
    else 0
  | _ => 0

/-- Length of a decimal numeral whose first digit starts the text. -/
def decimal (t : Text) : Nat :=
  let whole := run isDigitOrLine t
  let whole' := whole + fraction (t.drop whole)
  whole' + exponent (t.drop whole')

/-- Length of the number with a base letter that starts a text; of its whole part alone where no
digit of the base follows the letter. -/
def based (isDigitOf : Sym → Bool) (t : Text) : Nat :=
  match run isDigitOf (t.drop 2) with
  | 0 => decimal t
  | n => 2 + n

/-- Length of the number whose first digit starts the text. A base letter counts only with a
digit of its base after it. -/
def number (t : Text) : Nat :=
  match t with
  | .char '0' :: .char c :: _ =>
    if c = 'x' || c = 'X' then based isHex t
    else if c = 'b' || c = 'B' then based isBinary t
    else if c = 'o' || c = 'O' then based isOctal t
    else decimal t
  | _ => decimal t

end HouseStyle.Literal
