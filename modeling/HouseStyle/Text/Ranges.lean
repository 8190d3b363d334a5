/-! Sets and maps of code points as sorted lists of ranges. A look-up stops at the first range
that begins past the code point. -/

namespace HouseStyle.Table

/-- A range of code points, both ends included. -/
abbrev Range := Nat × Nat

/-- Membership in a list of ranges in increasing order. -/
def covers : List Range → Nat → Bool
  | [], _ => false
  | (lo, hi) :: rest, n => if n < lo then false else if n ≤ hi then true else covers rest n

/-- Every `stride`-th code point from `first` to `last` moves by `offset`. -/
structure Shift where
  first : Nat
  last : Nat
  stride : Nat
  offset : Int

/-- The image of a code point; one that no shift names stays. -/
def shifted : List Shift → Nat → Nat
  | [], n => n
  | s :: rest, n =>
    if n < s.first then n
    else if n ≤ s.last then
      if (n - s.first) % s.stride = 0 then ((n : Int) + s.offset).toNat else n
    else shifted rest n

end HouseStyle.Table
