import HouseStyle.Text.Basic

/-! Source lines and positions. Only line feed, carriage return and the pair of both break a
source line. Diffs split at every line separator, and their lines keep their endings. -/

namespace HouseStyle

/-- A line and a column, both counted from one. -/
structure Position where
  line : Nat
  column : Int
  deriving DecidableEq, Repr

namespace Text

/-! ### Source lines -/

/-- The lines of a text without their breaks, the part after the last break included. -/
def pieces : Text → List Text
  | [] => [[]]
  | .char '\r' :: .char '\n' :: rest => [] :: pieces rest
  | s :: rest =>
    if s.isBreak then [] :: pieces rest
    else match pieces rest with
      | [] => [[s]]
      | first :: others => (s :: first) :: others

/-- The source lines. A break at the end of the text starts no further line. -/
def lines (t : Text) : List Text :=
  let all := pieces t
  if 1 < all.length ∧ all.getLast? = some [] then all.dropLast else all

/-- Offsets right after each break, for a text that starts at `offset`. -/
def breakEnds (offset : Nat) : Text → List Nat
  | [] => []
  | .char '\r' :: .char '\n' :: rest => (offset + 2) :: breakEnds (offset + 2) rest
  | s :: rest =>
    if s.isBreak then (offset + 1) :: breakEnds (offset + 1) rest else breakEnds (offset + 1) rest

/-- The offset at which each line begins. -/
def lineStarts (t : Text) : List Nat := 0 :: breakEnds 0 t

/-- How many breaks a text holds. -/
def breakCount (t : Text) : Nat := (breakEnds 0 t).length

end Text

/-- The position of an offset among increasing line starts: the line is the last one that begins
at or before it. No position exists without a line. -/
def Position.ofOffset? (starts : List Nat) (offset : Int) : Option Position :=
  let index := (starts.takeWhile fun (s : Nat) => (s : Int) ≤ offset).length - 1
  (starts[index]?).map fun start => ⟨index + 1, offset - start + 1⟩

namespace Text

/-! ### Lines that keep their endings -/

/-- Symbols that end a line in a diff. -/
def isLineEnd : Sym → Bool
  | .char c => (10 ≤ c.toNat && c.toNat ≤ 13) || (28 ≤ c.toNat && c.toNat ≤ 30)
      || c.toNat = 0x85 || c.toNat = 0x2028 || c.toNat = 0x2029
  | _ => false

/-- The lines of a text, each with its ending. -/
def keptLines : Text → List Text
  | [] => []
  | .char '\r' :: .char '\n' :: rest => [.char '\r', .char '\n'] :: keptLines rest
  | s :: rest =>
    if isLineEnd s then [s] :: keptLines rest
    else match keptLines rest with
      | [] => [[s]]
      | first :: others => (s :: first) :: others

/-- A line without its ending. -/
def chomp (t : Text) : Text :=
  match t.reverse with
  | .char '\n' :: .char '\r' :: rest => rest.reverse
  | s :: rest => if isLineEnd s then rest.reverse else t
  | [] => []

end Text
end HouseStyle
