import HouseStyle.Value.Scalar

/-! The order of the members of a set. A set of numbers is a table in which a number stands at the
place of its residue, or where that is taken at a free place after it; its members come in the order
of the table. Members of other kinds come in no order of their own, and are kept as they are given. -/

namespace HouseStyle

/-- The prime that residues of numbers are taken by. -/
def Scalar.residuePrime : Nat := Nat.pow 2 61 - 1

/-- The residue of `m * 2 ^ e`. Doubling comes back to its start after 61 times. -/
def Decimal.Binary.residue (b : Decimal.Binary) : Nat :=
  b.mantissa * Nat.pow 2 (b.exponent % 61).toNat % Scalar.residuePrime

namespace Scalar

/-- A residue with the sign of its number, as a word of 64 bits. The residue of one less than zero is
left out. -/
def signedResidue (negative : Bool) (r : Nat) : Nat :=
  let n : Int := if negative then -r else r
  ((if n = -1 then -2 else n) % Nat.pow 2 64).toNat

/-- The word that decides the place of a number. -/
def residue? : Scalar → Option Nat
  | bool b => some b.toNat
  | int n => some (signedResidue (n < 0) (n.natAbs % residuePrime))
  | decimal (.finite negative m e) =>
    some (signedResidue negative (Decimal.binary m e).residue)
  | decimal (.infinite negative) => some (signedResidue negative 314159)
  | _ => none

/-! ### Tables -/

/-- The size of a table for some members: a power of two. -/
def tableSize (members : Nat) : Nat :=
  if members < 5 then 8 else Nat.pow 2 (Nat.log2 (2 * members) + 1)

/-- A free place at a place or among the nine after it, if the table goes on so far. -/
def freeNear? (table : Array (Option Scalar)) (place : Nat) : Option Nat :=
  let near := if place + 9 < table.size then 10 else 1
  (List.range' place near).find? fun i => (table.getD i none).isNone

/-- The free place for a word. Where there is none, the upper bits of the word lead to another one. -/
def freePlace (table : Array (Option Scalar)) : (fuel word place : Nat) → Nat
  | 0, _, place => place
  | fuel + 1, word, place =>
    match freeNear? table place with
    | some i => i
    | none => freePlace table fuel (word / 32) ((5 * place + 1 + word / 32) % table.size)

/-- Puts a number in a table. Every place is tried once the word is used up. -/
def settle (table : Array (Option Scalar)) (member : Scalar × Nat) : Array (Option Scalar) :=
  let (number, word) := member
  let place := freePlace table (table.size + 13) word (word % table.size)
  table.setIfInBounds place (some number)

/-- The members of a set in their order. -/
def setOrder (members : List Scalar) : List Scalar :=
  match members.mapM fun s => s.residue?.map fun word => (s, word) with
  | none => members
  | some numbers =>
    let empty := Array.replicate (tableSize members.length) none
    (numbers.foldl settle empty).toList.filterMap id

end Scalar
end HouseStyle
