import HouseStyle.Text.Case
import HouseStyle.Value.ReadError
import HouseStyle.Yaml.Tag

/-! What the text of a scalar stands for under its tag. The text may be one that no plain scalar of
that tag has; then it is read as far as it makes sense. -/

namespace HouseStyle.Yaml

namespace Base64

/-! Bytes as text of sixty-four characters, four of them for three bytes. Symbols that are none of these
characters are passed over, and a text may end with signs of equality in the places that are left. -/

def alphabet : List Char :=
  "ABCDEFGHIJKLMNOPQRSTUVWXYZabcdefghijklmnopqrstuvwxyz0123456789+/".toList

/-- The six bits of a character. -/
def bits? (s : Sym) : Option Nat :=
  match alphabet.findIdx? s.is with
  | some n => some n
  | none => none

/-- The bits of characters up to the padding; `none` if the padding comes too early. -/
def bitsBefore (open_ pads : Nat) : Text → Option (List Nat)
  | [] => if open_ = 0 then some [] else none
  | s :: rest =>
    if s.is '=' then
      if 2 ≤ open_ then
        if 4 ≤ open_ + pads + 1 then some [] else bitsBefore open_ (pads + 1) rest
      else bitsBefore open_ pads rest
    else match bits? s with
      | some n => (bitsBefore ((open_ + 1) % 4) 0 rest).map (n :: ·)
      | none => bitsBefore open_ pads rest

/-- The bytes of groups of six bits. Bits that fill no byte are left out. -/
def bytesOf : List Nat → List UInt8
  | a :: b :: c :: d :: rest =>
    let n := ((a * 64 + b) * 64 + c) * 64 + d
    UInt8.ofNat (n / 65536) :: UInt8.ofNat (n / 256) :: UInt8.ofNat n :: bytesOf rest
  | [a, b, c] =>
    let n := (a * 64 + b) * 64 + c
    [UInt8.ofNat (n / 1024), UInt8.ofNat (n / 4)]
  | [a, b] => [UInt8.ofNat ((a * 64 + b) / 16)]
  | _ => []

/-- The bytes of a text. -/
def decode? (t : Text) : Option (List UInt8) := (bitsBefore 0 0 t).map bytesOf

end Base64

namespace Content

def withoutLow (t : Text) : Text := t.filter fun s => !s.is '_'

/-- The truth words, in lower case. -/
def truthWords : List (Text × Bool) :=
  [("yes", true), ("no", false), ("true", true), ("false", false), ("on", true), ("off", false)]

def truth (t : Text) : Read Bool :=
  match truthWords.lookup (Text.lower t) with
  | some b => .ok b
  | none => .error (.noTruthWord (Text.lower t))

/-! ### Numbers -/

def parts (t : Text) : List Text := Text.splitOn (.char ':') t

/-- The integer of a text without its sign: binary, hexadecimal, octal after a zero, in base sixty
where colons divide it, and else decimal. -/
def unsigned (t : Text) : Read Int :=
  match t with
  | [] => .error .noNumeral
  | [.char '0'] => .ok 0
  | .char '0' :: .char 'b' :: rest => Read.numeral (Numeral.integer 2 rest)
  | .char '0' :: .char 'x' :: rest => Read.numeral (Numeral.integer 16 rest)
  | .char '0' :: _ => Read.numeral (Numeral.integer 8 t)
  | t => do
    let places ← (parts t).mapM fun part => Read.numeral (Numeral.integer 10 part)
    return places.foldl (fun n place => 60 * n + place) 0

def integer (t : Text) : Read Int := do
  let t := withoutLow t
  if t.isEmpty then throw .noNumeral
  let (negative, rest) := Numeral.signed t
  let n ← unsigned rest
  return if negative then -n else n

/-- The sum of places in base sixty, the lowest one first. Each step is rounded. -/
def sumPlaces (sum : Decimal) (power : Nat) : List Decimal → Read Decimal
  | [] => .ok sum
  | place :: rest =>
    match Decimal.ofNat power with
    | .infinite _ => .error .tooManyPlaces
    | factor => sumPlaces (sum.add (place.multiply factor)) (60 * power) rest

def unsignedDecimal (t : Text) : Read Decimal := do
  if t = ".inf" then return .infinite false
  else if t = ".nan" then return .notANumber
  else match parts t with
    | [t] => Read.numeral (Numeral.decimal t)
    | parts =>
      let places ← parts.mapM fun part => Read.numeral (Numeral.decimal part)
      sumPlaces (Decimal.ofNat 0) 1 places.reverse

def decimal (t : Text) : Read Decimal := do
  let t := Text.lower (withoutLow t)
  if t.isEmpty then throw .noNumeral
  let (negative, rest) := Numeral.signed t
  let x ← unsignedDecimal rest
  return if negative then x.negate else x

/-! ### All tags -/

/-- The bytes of a text in ASCII. -/
def bytes (t : Text) : Read (List UInt8) :=
  if t.all fun s => s.code < 0x80 then Read.ofOption (Base64.decode? t) else Read.malformed

def time (t : Text) : Read Scalar :=
  match WrittenTime.ofText? t with
  | none => .error .noTime
  | some w => do
    match ← Read.calendar w.meaning with
    | .inl date => return .date date
    | .inr moment => return .moment moment

/-- The scalar of a text under a tag; some tags are not for scalars. -/
def scalar (tag : Tag) (t : Text) : Read Scalar :=
  match tag with
  | .null => .ok .null
  | .str => .ok (.text t)
  | .bool => .bool <$> truth t
  | .int => .int <$> integer t
  | .float => .decimal <$> decimal t
  | .binary => .bytes <$> bytes t
  | .timestamp => time t
  | .seq | .map | .omap | .pairs | .set | .merge | .value | .other _ => Read.malformed

end Content

end HouseStyle.Yaml
