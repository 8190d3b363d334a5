import HouseStyle.Finding.Record

/-! Spans and places in lines whose offsets are numbers of any kind. -/

namespace HouseStyle

namespace SpanRecord

def isEmpty (s : SpanRecord) : Bool := s.start.equal s.stop

/-- Two spans conflict when they intersect or start at the same offset. -/
def overlaps (s t : SpanRecord) : Try Bool := do
  if s.start.equal t.start then return true
  else if ← s.start.lessOrFault t.stop then t.start.lessOrFault s.stop
  else return false

end SpanRecord

/-- The line, counted from one, and the column of an offset. The line starts are searched by halving,
so they count as increasing; of an offset before the first one, the first line is meant. There is
no place without a line. -/
def Value.placeAmong? (starts : List Value) (offset : Value) : Try (Option (Nat × Value)) := do
  let before ← (placeIn Value.less starts offset 0 starts.length).mapError .order
  match starts[before - 1]? with
  | none => return none
  | some start => return some (before - 1 + 1, ← (← offset.minus start).minus (.int (-1)))

end HouseStyle
