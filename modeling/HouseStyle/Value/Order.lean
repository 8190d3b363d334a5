import HouseStyle.Value.Sorting

/-! The order of values, as far as they have one: numbers come by their size, texts, bytes, days and
moments each among themselves, and lists by their first items that differ. -/

namespace HouseStyle

/-- Why two values have no order. -/
inductive OrderError where
  | kinds (left right : Text)
  | dayAndMoment
  /-- Only one of two moments is a point in time. -/
  | clocks
  deriving DecidableEq, Repr

def OrderError.message : OrderError → Text
  | kinds left right =>
    "'<' not supported between instances of '" ++ left ++ "' and '" ++ right ++ "'"
  | dayAndMoment => "can't compare datetime.datetime to datetime.date"
  | clocks => "can't compare offset-naive and offset-aware datetimes"

namespace Decimal

/-- Whether one number is less than another. -/
def less (x y : Decimal) : Bool :=
  match x, y with
  | .finite s m e, .finite t n f =>
    let low := min e f
    let scaled (negative : Bool) (digits : Nat) (exponent : Int) : Int :=
      let size : Nat := digits * Nat.pow 10 (exponent - low).toNat
      if negative then -size else size
    scaled s m e < scaled t n f
  | .notANumber, _ | _, .notANumber => false
  | .infinite s, .infinite t => s && !t
  | .infinite s, _ => s
  | _, .infinite t => !t

end Decimal

/-! ### Scalars -/

namespace Scalar

/-- A number in one form. -/
def number? : Scalar → Option (Int ⊕ Decimal)
  | bool b => some (.inl (if b then 1 else 0))
  | int n => some (.inl n)
  | decimal x => some (.inr x)
  | _ => none

/-- A number with a fractional part, even if it is zero. -/
def fractional : Int ⊕ Decimal → Decimal
  | .inl n => .ofNumeral (n < 0) n.natAbs 0
  | .inr x => x

def lessNumber : Int ⊕ Decimal → Int ⊕ Decimal → Bool
  | .inl m, .inl n => m < n
  | .inr x, .inl n => x.ltInt n
  | .inl m, .inr y => !y.ltInt m && !y.eqInt m && y != .notANumber
  | .inr x, .inr y => x.less y

/-- Whether one scalar comes before another. -/
def less (a b : Scalar) : Except OrderError Bool :=
  match a, b with
  | text s, text t => .ok (Text.compare s t = .lt)
  | bytes s, bytes t => .ok (s.map UInt8.toNat < t.map UInt8.toNat)
  | date d, date e => .ok (d.number < e.number)
  | moment m, moment n =>
    match m.instant?, n.instant? with
    | some s, some t => .ok (s < t)
    | none, none => .ok (m.clock < n.clock)
    | _, _ => .error .clocks
  | date _, moment _ | moment _, date _ => .error .dayAndMoment
  | a, b =>
    match a.number?, b.number? with
    | some x, some y => .ok (lessNumber x y)
    | _, _ => .error (.kinds a.kindName b.kindName)

/-- Scalars in order. -/
def sort (scalars : List Scalar) : Except OrderError (List Scalar) := sortBy less scalars

def text? : Scalar → Option Text
  | text t => some t
  | _ => none

/-- Each of some keys once, as it first occurs. -/
def distinct (keys : List Scalar) : List Scalar :=
  (Entries.update [] (keys.map fun key => (key, ()))).map Prod.fst

/-- Each of some keys once, in order. -/
def increasing (keys : List Scalar) : Except OrderError (List Scalar) :=
  match keys.mapM text? with
  | some texts => .ok (((texts.mergeSort Text.le).eraseReps).map text)
  | none => sort (distinct keys)

end Scalar

/-! ### Values -/

namespace Value

def number? : Value → Option (Int ⊕ Decimal)
  | .scalar s => s.number?
  | _ => none

mutual

/-- Whether two values are equal: numbers by their size, and mappings whatever the order of their
entries. -/
def equal : Value → Value → Bool
  | .scalar s, .scalar t => s.sameKey t
  | .list items, .list others | .tuple items, .tuple others => equalItems items others
  | .set members, .set others =>
    members.length = others.length && members.all fun m => others.any m.sameKey
  | .map entries, .map others => entries.length = others.length && equalEntries entries others
  | .knot cells n, .knot others m => cells = others && n = m
  | _, _ => false

def equalItems : List Value → List Value → Bool
  | [], [] => true
  | item :: rest, other :: others => equal item other && equalItems rest others
  | _, _ => false

/-- Whether all of some entries are among others. -/
def equalEntries : List (Scalar × Value) → List (Scalar × Value) → Bool
  | [], _ => true
  | (key, value) :: rest, others =>
    (match others.find? fun (other, _) => other.sameKey key with
      | some (_, other) => equal value other
      | none => false) && equalEntries rest others

end

mutual

/-- Whether one value comes before another. -/
def less : Value → Value → Except OrderError Bool
  | .scalar s, .scalar t => s.less t
  | .list items, .list others | .tuple items, .tuple others => lessItems items others
  | v, w => .error (.kinds v.kindName w.kindName)

/-- Whether a list comes before another, which is decided by the first items that differ. -/
def lessItems : List Value → List Value → Except OrderError Bool
  | item :: rest, other :: others =>
    if equal item other then lessItems rest others else less item other
  | [], _ :: _ => .ok true
  | _, [] => .ok false

end

end Value
end HouseStyle
