import HouseStyle.Value.Basic
import HouseStyle.Value.Numeral

/-! Values as text, where they have one. Integers of very many digits have none, though documents
can hold them in bases that are powers of two. -/

namespace HouseStyle

/-- What is said of an integer that is too long to be written. -/
def Numeral.unwritten : Text :=
  "Exceeds the limit (" ++ Text.ofNat mostDigits ++
    " digits) for integer string conversion; use sys.set_int_max_str_digits() to increase the limit"

/-- Whether an integer has more digits in base ten than are written. -/
def Scalar.isLong : Scalar → Bool
  | .int n => Nat.pow 10 Numeral.mostDigits ≤ n.natAbs
  | _ => false

def Cell.isLong : Cell → Bool
  | scalar s => s.isLong
  | set members => members.any Scalar.isLong
  | map entries => entries.any fun (key, _) => key.isLong
  | list _ | pairs _ => false

namespace Value

mutual

/-- Whether some integer in a value is too long to be written. -/
def isLong : Value → Bool
  | .scalar s => s.isLong
  | .list items | .tuple items => anyLong items
  | .set members => members.any Scalar.isLong
  | .map entries => anyEntryLong entries
  | .knot cells n => (cells.inside n).any fun part => (cells.at_ part).isLong

def anyLong : List Value → Bool
  | [] => false
  | item :: rest => isLong item || anyLong rest

def anyEntryLong : List (Scalar × Value) → Bool
  | [] => false
  | (key, value) :: rest => key.isLong || isLong value || anyEntryLong rest

end

/-- A value as text, if it can be written. -/
def written? (v : Value) : Option Text := if v.isLong then none else some v.asText

end Value
end HouseStyle
