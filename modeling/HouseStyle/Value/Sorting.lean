import HouseStyle.Value.Basic

/-! Sorting with comparisons that may fail, so it counts which items are compared first. A list is
cut into runs that are in order already; short runs take more items by insertion; and neighbouring
runs are merged, those first that a halving of the list keeps together longest. -/

namespace HouseStyle

section Sorting

variable {α ε : Type} (less : α → α → Except ε Bool)

/-! ### Runs -/

/-- How many items go on with a run in which each one comes before the last, or else none does. -/
def runLength (down : Bool) (last : α) : List α → Except ε Nat
  | [] => .ok 0
  | a :: rest => do
    if (← less a last) = down then return 1 + (← runLength down a rest) else return 0

/-- The place for an item between two places of an ordered list, found by halving. -/
def placeIn (ordered : List α) (a : α) (low high : Nat) : Except ε Nat := do
  if low < high then
    let middle := (low + high) / 2
    match ordered[middle]? with
    | none => return low
    | some b =>
      if ← less a b then placeIn ordered a low middle else placeIn ordered a (middle + 1) high
  else return low
termination_by high - low

def insertInto (ordered : List α) (a : α) : Except ε (List α) := do
  let place ← placeIn less ordered a 0 ordered.length
  return ordered.take place ++ a :: ordered.drop place

/-- The fewest items of a run in a list of some length, so that the runs are about a power of two.
A list of less than 64 items is one run. -/
def shortestRun (n : Nat) (isRounded : Bool := false) : Nat :=
  if n < 64 then n + isRounded.toNat else shortestRun (n / 2) (isRounded || n % 2 = 1)
termination_by n

/-- The run that a list starts with, in order, and the items after it. -/
def firstRun (shortest : Nat) : List α → Except ε (List α × List α)
  | a :: b :: rest => do
    let down ← less b a
    let n ← runLength less down b rest
    let run := a :: b :: rest.take n
    let short := shortest - run.length
    let run ← ((rest.drop n).take short).foldlM (insertInto less) (if down then run.reverse else run)
    return (run, (rest.drop n).drop short)
  | few => .ok (few, [])

/-! ### Merging -/

/-- Two ordered lists as one. Of items that neither comes before the other, that of the first list
comes first. -/
def merged : List α → List α → Except ε (List α)
  | [], bs => .ok bs
  | as, [] => .ok as
  | a :: as, b :: bs => do
    if ← less b a then return b :: (← merged (a :: as) bs) else return a :: (← merged as (b :: bs))
termination_by as bs => as.length + bs.length

/-- A run that waits to be merged, and how often the list is halved until a cut comes between its
middle and that of the run after it. -/
structure WaitingRun (α : Type) where
  items : List α
  halvings : Nat

/-- How often a length is halved until a cut comes between two places, given twice. -/
def halvings (n : Nat) : (fuel : Nat) → (left right : Nat) → Nat
  | 0, _, _ => 0
  | fuel + 1, left, right =>
    if n ≤ left then 1 + halvings n fuel (2 * (left - n)) (2 * (right - n))
    else if n ≤ right then 1
    else 1 + halvings n fuel (2 * left) (2 * right)

/-- Merges a run with those before it that wait for a later cut than one after the run. -/
def mergeLater (cut : Nat) (last : List α) :
    List (WaitingRun α) → Except ε (List α × List (WaitingRun α))
  | [] => .ok (last, [])
  | top :: rest => do
    if cut < top.halvings then mergeLater cut (← merged less top.items last) rest
    else return (last, top :: rest)

/-- Merges all runs, a short one before the two last first with its neighbour. -/
def mergeAll (last : List α) : List (WaitingRun α) → Except ε (List α)
  | [] => .ok last
  | [top] => merged less top.items last
  | top :: next :: rest => do
    if next.items.length < last.length then
      mergeAll last ({ next with items := ← merged less next.items top.items } :: rest)
    else mergeAll (← merged less top.items last) (next :: rest)
termination_by waiting => waiting.length

/-- Cuts runs from the items that are left and merges them with the runs before. The last run starts
at some place of a list of `n` items. -/
def sortRuns (n shortest : Nat) :
    (fuel start : Nat) → (last : List α) → List (WaitingRun α) → List α → Except ε (List α)
  | 0, _, last, waiting, _ => mergeAll less last waiting
  | fuel + 1, start, last, waiting, left =>
    if left.isEmpty then mergeAll less last waiting
    else do
      let (run, left) ← firstRun less shortest left
      let middle := 2 * start + last.length
      let cut := halvings n n middle (middle + last.length + run.length)
      let (merged, waiting) ← mergeLater less cut last waiting
      sortRuns n shortest fuel (start + last.length) run (⟨merged, cut⟩ :: waiting) left

/-- Items in order; those that neither comes before the other keep their order. -/
def sortBy (items : List α) : Except ε (List α) := do
  let n := items.length
  let (run, left) ← firstRun less (shortestRun n) items
  sortRuns less n (shortestRun n) n 0 run [] left

end Sorting

end HouseStyle
