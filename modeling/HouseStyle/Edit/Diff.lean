import HouseStyle.Text.Lines

/-! Unified diffs. Two lists of lines are aligned by their longest common block, then by the longest
blocks on either side of it, and so on. In a long second list a line that is repeated too often
does not start a block. -/

namespace HouseStyle.Diff

/-- `size` lines that are equal from line `a` of the old list and line `b` of the new one on. -/
structure Block where
  a : Nat
  b : Nat
  size : Nat
  deriving DecidableEq, Repr, Inhabited

/-- The part of both lists that is being aligned. -/
structure Region where
  aLow : Nat
  aHigh : Nat
  bLow : Nat
  bHigh : Nat

variable (old new : Array Text)

/-- How often a line may be repeated in a list of `n` lines and still start a block. -/
def repeatLimit (n : Nat) : Nat := if 200 ≤ n then n / 100 + 1 else n

/-- For each old line the places of its equals among the new lines, or none if there are too
many. -/
def anchors : Array (List Nat) :=
  let places := List.range new.size
  old.map fun line =>
    let found := places.filter fun j => new[j]? = some line
    if repeatLimit new.size < found.length then [] else found

/-- Lengths of the equal runs that end at the given places, from those that end one line before in
both lists. Both lists are in increasing order of the place. -/
def extendRuns : (previous : List (Nat × Nat)) → List Nat → List (Nat × Nat)
  | _, [] => []
  | previous, j :: js =>
    let near := previous.dropWhile fun (p, _) => p + 1 < j
    let size := match near with
      | (p, k) :: _ => if p + 1 = j then k + 1 else 1
      | [] => 1
    (j, size) :: extendRuns near js

/-- The longer of a block and the runs that end at old line `i`; of equal ones the first. -/
def longer (i : Nat) (best : Block) : List (Nat × Nat) → Block
  | [] => best
  | (j, k) :: rest =>
    longer i (if best.size < k then ⟨i + 1 - k, j + 1 - k, k⟩ else best) rest

/-- The longest run of anchored lines over the old lines from `i` on. -/
def longestRun (places : Array (List Nat)) (r : Region) (i : Nat) (previous : List (Nat × Nat))
    (best : Block) : (count : Nat) → Block
  | 0 => best
  | count + 1 =>
    let here := (places.getD i []).filter fun j => r.bLow ≤ j && j < r.bHigh
    let runs := extendRuns previous here
    longestRun places r (i + 1) runs (longer i best runs) count

def sameLine (i j : Nat) : Bool :=
  match old[i]?, new[j]? with
  | some s, some t => s = t
  | _, _ => false

/-- How many equal lines stand right before a place in both lists. -/
def equalBefore (r : Region) : (i j : Nat) → Nat
  | i + 1, j + 1 =>
    if r.aLow ≤ i && r.bLow ≤ j && sameLine old new i j then equalBefore r i j + 1 else 0
  | _, _ => 0

/-- How many equal lines stand at a place and after it in both lists, at most `fuel`. -/
def equalAfter (r : Region) : (fuel : Nat) → (i j : Nat) → Nat
  | 0, _, _ => 0
  | fuel + 1, i, j =>
    if i < r.aHigh && j < r.bHigh && sameLine old new i j then
      equalAfter r fuel (i + 1) (j + 1) + 1
    else 0

/-- The longest common block of a region, extended by equal lines that could not start one. -/
def longestBlock (places : Array (List Nat)) (r : Region) : Block :=
  let best := longestRun places r r.aLow [] ⟨r.aLow, r.bLow, 0⟩ (r.aHigh - r.aLow)
  let before := equalBefore old new r best.a best.b
  let stop := best.a + best.size
  let after := equalAfter old new r (r.aHigh - stop) stop (best.b + best.size)
  ⟨best.a - before, best.b - before, before + best.size + after⟩

/-- The common blocks of a region, in order. The depth of the search is at most the number of old
lines. -/
def blocksIn (places : Array (List Nat)) : (fuel : Nat) → Region → List Block
  | 0, _ => []
  | fuel + 1, r =>
    let m := longestBlock old new places r
    if m.size = 0 then []
    else
      (if r.aLow < m.a ∧ r.bLow < m.b then
        blocksIn places fuel { r with aHigh := m.a, bHigh := m.b } else []) ++
      m ::
      (if m.a + m.size < r.aHigh ∧ m.b + m.size < r.bHigh then
        blocksIn places fuel { r with aLow := m.a + m.size, bLow := m.b + m.size } else [])

/-- Blocks that touch in both lists become one. -/
def mergeBlocks : List Block → List Block
  | [] => []
  | m :: rest =>
    match mergeBlocks rest with
    | [] => [m]
    | n :: more =>
      if m.a + m.size = n.a ∧ m.b + m.size = n.b then ⟨m.a, m.b, m.size + n.size⟩ :: more
      else m :: n :: more

def commonBlocks : List Block :=
  mergeBlocks (blocksIn old new (anchors old new) (old.size + 1) ⟨0, old.size, 0, new.size⟩)

/-! ### Hunks -/

/-- A stretch of both lists that is equal, or one that replaces the other. -/
structure Stretch where
  equal : Bool
  aLow : Nat
  aHigh : Nat
  bLow : Nat
  bHigh : Nat
  deriving DecidableEq, Repr, Inhabited

/-- The stretches from lines `i` and `j` on; the blocks are followed by the ends of the lists. -/
def stretchesFrom (i j aSize bSize : Nat) : List Block → List Stretch
  | [] => if i < aSize ∨ j < bSize then [⟨false, i, aSize, j, bSize⟩] else []
  | m :: rest =>
    let here : Stretch := ⟨true, m.a, m.a + m.size, m.b, m.b + m.size⟩
    let more := here :: stretchesFrom (m.a + m.size) (m.b + m.size) aSize bSize rest
    if i < m.a ∨ j < m.b then ⟨false, i, m.a, j, m.b⟩ :: more else more

/-- Lines of context around a change. -/
def context : Nat := 3

def trimFirst : List Stretch → List Stretch
  | [] => []
  | s :: rest =>
    if s.equal then
      { s with
        aLow := max s.aLow (s.aHigh - context)
        bLow := max s.bLow (s.bHigh - context) } :: rest
    else s :: rest

def trimLast : List Stretch → List Stretch
  | [] => []
  | [s] =>
    if s.equal then
      [{ s with
        aHigh := min s.aHigh (s.aLow + context)
        bHigh := min s.bHigh (s.bLow + context) }]
    else [s]
  | s :: rest => s :: trimLast rest

/-- Cuts the stretches into hunks inside equal stretches longer than two contexts. `hunk` holds the
current one, its latest stretch first. -/
def hunksFrom (hunk : List Stretch) : List Stretch → List (List Stretch)
  | [] => [hunk.reverse]
  | s :: rest =>
    if s.equal ∧ 2 * context < s.aHigh - s.aLow then
      let stop : Stretch :=
        { s with
          aHigh := min s.aHigh (s.aLow + context)
          bHigh := min s.bHigh (s.bLow + context) }
      let start : Stretch :=
        { s with
          aLow := max s.aLow (s.aHigh - context)
          bLow := max s.bLow (s.bHigh - context) }
      (stop :: hunk).reverse :: hunksFrom [start] rest
    else hunksFrom (s :: hunk) rest

/-- The hunks that hold a change. -/
def hunks (stretches : List Stretch) : List (List Stretch) :=
  (hunksFrom [] (trimLast (trimFirst stretches))).filter fun hunk => hunk.any (!·.equal)

/-! ### Lines of a diff -/

/-- A range of lines: its first line and its length, where that is not one. An empty range names
the line before it. -/
def rangeText (low high : Nat) : Text :=
  let size := high - low
  if size = 1 then Text.ofNat (low + 1)
  else Text.ofNat (if size = 0 then low else low + 1) ++ "," ++ Text.ofNat size

def linesOf (lines : Array Text) (mark : Char) (low high : Nat) : List Text :=
  (lines.extract low high).toList.map (.char mark :: ·)

def stretchLines (s : Stretch) : List Text :=
  if s.equal then linesOf old ' ' s.aLow s.aHigh
  else linesOf old '-' s.aLow s.aHigh ++ linesOf new '+' s.bLow s.bHigh

def hunkLines (hunk : List Stretch) : List Text :=
  match hunk.head?, hunk.getLast? with
  | some first, some last =>
    ("@@ -" ++ rangeText first.aLow last.aHigh ++ " +" ++ rangeText first.bLow last.bHigh ++
      " @@\n") :: hunk.flatMap (stretchLines old new)
  | _, _ => []

/-- The lines of the diff of two lists of lines; none if they are equal. -/
def unifiedLines (path : Text) : List Text :=
  let body := (hunks (stretchesFrom 0 0 old.size new.size (commonBlocks old new))).flatMap
    (hunkLines old new)
  if body.isEmpty then []
  else ("--- a/" ++ path ++ "\n") :: ("+++ b/" ++ path ++ "\n") :: body

/-- The diff of two texts. -/
def unified (path old new : Text) : Text :=
  (unifiedLines (Text.keptLines old).toArray (Text.keptLines new).toArray path).flatten

end HouseStyle.Diff
