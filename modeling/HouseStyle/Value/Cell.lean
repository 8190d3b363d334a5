import HouseStyle.Value.Scalar

/-! Values in cells, which name their parts by number. A list or mapping that contains itself has no
end when it is written out, but its cells are finitely many. -/

namespace HouseStyle

inductive Cell where
  | scalar (s : Scalar)
  | list (items : List Nat)
  /-- A list of tuples of two. -/
  | pairs (items : List (Nat × Nat))
  | set (members : List Scalar)
  | map (entries : List (Scalar × Nat))
  deriving DecidableEq, Repr, Inhabited

namespace Cell

/-- The numbers of the cells that a cell names. -/
def parts : Cell → List Nat
  | scalar _ | set _ => []
  | list items => items
  | pairs items => items.flatMap fun (a, b) => [a, b]
  | map entries => entries.map Prod.snd

/-- The word for the kind of a cell in messages. -/
def kindName : Cell → Text
  | scalar s => s.kindName
  | list _ | pairs _ => "list"
  | set _ => "set"
  | map _ => "dict"

end Cell

/-! ### Cells inside others -/

abbrev Cells := Array Cell

namespace Cells

/-- The cell of a number; all numbers that cells name have one. -/
def at_ (cells : Cells) (number : Nat) : Cell := cells.getD number default

theorem length_erase_lt {n : Nat} {left : List Nat} (h : n ∈ left) :
    (left.erase n).length < left.length := by
  rw [List.length_erase_of_mem h]
  have := List.length_pos_of_mem h
  omega

/-- The numbers among those left that can be reached from some, which are followed one after another.
Each one that is found is left no more. -/
def reachedFrom (cells : Cells) (left : List Nat) : List Nat → List Nat
  | [] => []
  | n :: rest =>
    if _h : n ∈ left then n :: reachedFrom cells (left.erase n) ((cells.at_ n).parts ++ rest)
    else reachedFrom cells left rest
termination_by starts => (left.length, starts.length)
decreasing_by
  · exact Prod.Lex.left _ _ (length_erase_lt _h)
  · exact Prod.Lex.right _ (by simp)

/-- The numbers of the cells inside a cell. -/
def inside (cells : Cells) (number : Nat) : List Nat :=
  cells.reachedFrom (List.range cells.size) (cells.at_ number).parts

def containsItself (cells : Cells) (number : Nat) : Bool := (cells.inside number).contains number

/-! ### Text -/

/-- What a cell contains in full, with texts in quotes. A list or mapping that stands around itself
is cut short. -/
def shownInside (cells : Cells) : (fuel : Nat) → (around : List Nat) → Nat → Text
  | 0, _, _ => []
  | fuel + 1, around, number =>
    let part := cells.shownInside fuel (number :: around)
    let again := around.contains number
    match cells.at_ number with
    | .scalar s => s.shown
    | .set members => Scalar.shownSet members
    | .list items => if again then "[...]" else "[" ++ Text.joinWith ", " (items.map part) ++ "]"
    | .pairs items =>
      if again then "[...]"
      else "[" ++ Text.joinWith ", " (items.map fun (a, b) => "(" ++ part a ++ ", " ++ part b ++ ")") ++
        "]"
    | .map entries =>
      if again then "\x7b...\x7d"
      else "\x7b" ++ Text.joinWith ", " (entries.map fun (key, n) => key.shown ++ ": " ++ part n) ++
        "\x7d"

/-- A cell as text. No way down is longer than there are cells. -/
def shown (cells : Cells) (number : Nat) : Text := cells.shownInside (cells.size + 1) [] number

end Cells
end HouseStyle
