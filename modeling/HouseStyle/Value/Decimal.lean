import HouseStyle.Text.Basic

/-! Numbers with a fractional part. A numeral is rounded to the nearest binary number of 53 digits,
and that number is kept by the shortest decimal that rounds to it, so equal numbers have one
form. All arithmetic is exact. -/

namespace HouseStyle

/-- `digits * 10 ^ exponent` with a sign, an infinity, or no number at all. -/
inductive Decimal where
  | finite (negative : Bool) (digits : Nat) (exponent : Int)
  | infinite (negative : Bool)
  | notANumber
  deriving DecidableEq, Repr, Inhabited

namespace Decimal

/-! ### Rounding -/

/-- A positive fraction. -/
structure Fraction where
  num : Nat
  den : Nat

/-- `m * base ^ e`. -/
def Fraction.scaled (base m : Nat) (e : Int) : Fraction :=
  if 0 ≤ e then ⟨m * base.pow e.toNat, 1⟩ else ⟨m, base.pow (-e).toNat⟩

/-- `q / base ^ e`. -/
def Fraction.reduced (base : Nat) (q : Fraction) (e : Int) : Fraction :=
  if 0 ≤ e then ⟨q.num, q.den * base.pow e.toNat⟩ else ⟨q.num * base.pow (-e).toNat, q.den⟩

/-- The quotient rounded to the nearest integer, a half going to the even one. -/
def roundEven (q : Fraction) : Nat :=
  let n := q.num / q.den
  let r := q.num % q.den
  if 2 * r < q.den then n
  else if q.den < 2 * r then n + 1
  else if n % 2 = 0 then n else n + 1

/-- A binary number `mantissa * 2 ^ exponent`. -/
structure Binary where
  mantissa : Nat
  exponent : Int
  deriving DecidableEq, Repr

def leastExponent : Int := -1074

/-- The nearest binary number of at most 53 digits; `none` past the largest one. -/
def Binary.nearest? (q : Fraction) : Option Binary :=
  let size : Int := (Nat.log2 q.num : Int) - Nat.log2 q.den
  -- The quotient lies between `2 ^ (size - 1)` and `2 ^ (size + 1)`.
  let leading := Fraction.reduced 2 q size
  let top := if leading.num < leading.den then size - 1 else size
  let e := max (top - 52) leastExponent
  let m := roundEven (Fraction.reduced 2 q e)
  let b : Binary := if m = Nat.pow 2 53 then ⟨Nat.pow 2 52, e + 1⟩ else ⟨m, e⟩
  if 971 < b.exponent then none else some b

/-- Removes trailing zeros, at most `fuel` of them. -/
def trim : (fuel : Nat) → Nat → Int → Nat × Int
  | 0, m, e => (m, e)
  | fuel + 1, m, e => if m ≠ 0 ∧ m % 10 = 0 then trim fuel (m / 10) (e + 1) else (m, e)

/-- The number of decimal digits. -/
def digitCount (n : Nat) : Nat := n.repr.length

/-- The candidates with `count` digits on either side of a fraction whose whole part has its first
digit at `10 ^ top`, the nearer one first. -/
def candidates (q : Fraction) (top : Int) (count : Nat) : List (Nat × Int) :=
  let e := top - (count : Int) + 1
  let grid := Fraction.reduced 10 q e
  let low := grid.num / grid.den
  let near := roundEven grid
  [(near, e), (if near = low then low + 1 else low, e)]

/-- The shortest decimal that rounds to a binary number, and of those the nearest: of the digit
counts from `count` on, the first that offers one. -/
def shortestFrom (b : Binary) (q : Fraction) (top : Int) : (fuel count : Nat) → Nat × Int
  | 0, _ => (b.mantissa, 0)
  | fuel + 1, count =>
    match (candidates q top count).find? fun (m, e) =>
        m ≠ 0 && Binary.nearest? (Fraction.scaled 10 m e) = some b with
    | some (m, e) => trim 400 m e
    | none => shortestFrom b q top fuel (count + 1)

def shortest (b : Binary) : Nat × Int :=
  if b.mantissa = 0 then (0, 0)
  else
    let q := Fraction.scaled 2 b.mantissa b.exponent
    let top : Int :=
      if q.den ≤ q.num then (digitCount (q.num / q.den) : Int) - 1
      else -(digitCount (q.den / q.num) : Int)
    shortestFrom b q top 20 1

/-- The number nearest to a fraction. -/
def ofFraction (negative : Bool) (q : Fraction) : Decimal :=
  match Binary.nearest? q with
  | some b => let (m, e) := shortest b; .finite negative m e
  | none => .infinite negative

/-- The number that a numeral `digits * 10 ^ exponent` stands for. -/
def ofNumeral (negative : Bool) (digits : Nat) (exponent : Int) : Decimal :=
  let size : Int := digitCount digits
  if digits = 0 ∨ size + exponent < -400 then .finite negative 0 0
  else if 400 < size + exponent then .infinite negative
  else ofFraction negative (Fraction.scaled 10 digits exponent)

def ofNat (n : Nat) : Decimal := ofNumeral false n 0

/-! ### Arithmetic -/

def isNegative : Decimal → Bool
  | .finite negative _ _ => negative
  | .infinite negative => negative
  | .notANumber => false

def negate : Decimal → Decimal
  | .finite negative m e => .finite (!negative) m e
  | .infinite negative => .infinite (!negative)
  | .notANumber => .notANumber

/-- The binary number that a decimal without its sign stands for. -/
def binary (m : Nat) (e : Int) : Binary :=
  if m = 0 then ⟨0, 0⟩ else (Binary.nearest? (Fraction.scaled 10 m e)).getD ⟨0, 0⟩

/-- The sum of two numbers, rounded. -/
def add (x y : Decimal) : Decimal :=
  match x, y with
  | .finite s m e, .finite t n f =>
    let a := binary m e
    let b := binary n f
    let low := min a.exponent b.exponent
    let part (negative : Bool) (c : Binary) : Int :=
      let size : Nat := c.mantissa * Nat.pow 2 (c.exponent - low).toNat
      if negative then -size else size
    let sum := part s a + part t b
    if sum = 0 then .finite (s && t) 0 0
    else ofFraction (sum < 0) (Fraction.scaled 2 sum.natAbs low)
  | .notANumber, _ | _, .notANumber => .notANumber
  | .infinite s, .infinite t => if s = t then .infinite s else .notANumber
  | .infinite s, _ => .infinite s
  | _, .infinite t => .infinite t

/-- The product of two numbers, rounded. -/
def multiply (x y : Decimal) : Decimal :=
  let negative := x.isNegative != y.isNegative
  match x, y with
  | .finite _ m e, .finite _ n f =>
    let a := binary m e
    let b := binary n f
    if m = 0 ∨ n = 0 then .finite negative 0 0
    else ofFraction negative
      (Fraction.scaled 2 (a.mantissa * b.mantissa) (a.exponent + b.exponent))
  | .notANumber, _ | _, .notANumber => .notANumber
  | .infinite _, .finite _ 0 _ | .finite _ 0 _, .infinite _ => .notANumber
  | _, _ => .infinite negative

/-- The integer that a number is, if it has no fraction. -/
def whole? : Decimal → Option Int
  | .finite negative m e =>
    let b := binary m e
    let divisor := Nat.pow 2 (-b.exponent).toNat
    if b.mantissa % divisor = 0 then
      let size : Nat := b.mantissa / divisor * Nat.pow 2 b.exponent.toNat
      some (if negative then -size else size)
    else none
  | _ => none

/-! ### Reading values -/

def isZero : Decimal → Bool
  | .finite _ 0 _ => true
  | _ => false

/-- Whether the number is less than an integer. -/
def ltInt (x : Decimal) (n : Int) : Bool :=
  match x with
  | .finite negative m e =>
    let m : Int := if negative then -m else m
    let scale : Int := Nat.pow 10 e.natAbs
    if 0 ≤ e then m * scale < n else m < n * scale
  | .infinite negative => negative
  | .notANumber => false

/-- Whether the number equals an integer. -/
def eqInt (x : Decimal) (n : Int) : Bool :=
  match x with
  | .finite negative m e =>
    let m : Int := if negative then -m else m
    let scale : Int := Nat.pow 10 e.natAbs
    if 0 ≤ e then m * scale = n else m = n * scale
  | _ => false

/-! ### Text -/

/-- Positional from `10 ^ -4` up to `10 ^ 16`, with at least one digit after the point; elsewhere
with an exponent of at least two digits. -/
def finiteText (m : Nat) (e : Int) : Text :=
  let digits := Text.ofNat m
  let point : Int := digits.length + e
  if m = 0 then "0.0"
  else if -4 < point ∧ point ≤ 16 then
    if point ≤ 0 then "0." ++ Text.fill (-point).toNat '0' ++ digits
    else if 0 ≤ e then digits ++ Text.fill e.toNat '0' ++ ".0"
    else digits.take point.toNat ++ "." ++ digits.drop point.toNat
  else
    let fraction := digits.drop 1
    let power := point - 1
    digits.take 1 ++ (if fraction.isEmpty then [] else .char '.' :: fraction) ++
      (if power < 0 then "e-" else "e+") ++
      (let p := Text.ofNat power.natAbs; if p.length < 2 then .char '0' :: p else p)

/-- The text of a number, with the given names for the values that are not finite. -/
def textWith (infinity nan : Text) : Decimal → Text
  | .finite negative m e => (if negative then ("-" : Text) else []) ++ finiteText m e
  | .infinite negative => (if negative then ("-" : Text) else []) ++ infinity
  | .notANumber => nan

def text : Decimal → Text := textWith "inf" "nan"

end Decimal
end HouseStyle
