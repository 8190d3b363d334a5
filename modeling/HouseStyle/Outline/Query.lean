import HouseStyle.Outline.View

/-! Look-ups by signed index. A negative index counts from the end, and one past either end is
refused. -/

namespace HouseStyle.Outline

/-- The position that an index names among `n` items. -/
def resolve? (n : Nat) (i : Int) : Option Nat :=
  if 0 ≤ i then if i.toNat < n then some i.toNat else none
  else if -(n : Int) ≤ i then some (n + i).toNat else none

variable (o : Outline)

/-- `none` for an index that is refused, `some none` where no significant token follows. -/
def nextFrom (i : Int) : Option (Option Nat) :=
  if (o.tokens.size : Int) ≤ i + 1 then some none
  else (resolve? o.following.size (i + 1)).map fun k => (o.following[k]?).getD none

/-- Like `nextFrom`, for the significant token before an index. -/
def prevFrom (i : Int) : Option (Option Nat) :=
  if i - 1 < 0 then some none
  else (resolve? o.preceding.size (i - 1)).map fun k => (o.preceding[k]?).getD none

/-- The partner of a bracket; only indices from zero up have one. -/
def partnerFrom (i : Int) : Option Nat := if 0 ≤ i then o.partner? i.toNat else none

/-- Whether indices are exactly one parenthesized group; `none` if the first is refused. -/
def wrapsFrom (indices : List Int) : Option Bool :=
  match indices with
  | first :: _ :: _ =>
    (resolve? o.tokens.size first).map fun k =>
      o.at_ k (·.isMark '(') &&
        match o.partnerFrom first, indices.getLast? with
        | some close, some last => (close : Int) = last
        | _, _ => false
  | _ => some false

def membersFrom (brace : Option Int) : List Segment :=
  match brace with
  | none => o.members none
  | some i => if 0 ≤ i then o.members (some i.toNat) else []

def headerFrom (i : Int) : Option Segment := if 0 ≤ i then o.header? i.toNat else none

def segmentFrom (i : Int) : Option Segment := (resolve? o.segments.length i).bind (o.segments[·]?)

end HouseStyle.Outline
