import HouseStyle.Text.Quoted
import HouseStyle.Value.Calendar
import HouseStyle.Value.Decimal

/-! Scalars, the values without parts, and entries, whose keys are scalars and which keep their
order. -/

namespace HouseStyle

inductive Scalar where
  | null
  | bool (b : Bool)
  | int (n : Int)
  | decimal (x : Decimal)
  | text (t : Text)
  | bytes (bs : List UInt8)
  | date (d : Date)
  | moment (m : Moment)
  deriving DecidableEq, Repr, Inhabited

namespace Scalar

/-- The word for the kind of a scalar in messages. -/
def kindName : Scalar → Text
  | null => "NoneType"
  | bool _ => "bool"
  | int _ => "int"
  | decimal _ => "float"
  | text _ => "str"
  | bytes _ => "bytes"
  | date _ => "datetime.date"
  | moment _ => "datetime.datetime"

/-- Nothing, zero and whatever is empty count as false. -/
def isTrue : Scalar → Bool
  | null => false
  | bool b => b
  | int n => n ≠ 0
  | decimal x => !x.isZero
  | text t => !t.isEmpty
  | bytes bs => !bs.isEmpty
  | date _ | moment _ => true

/-- The integer that a number is; truth values count as zero and one. -/
def whole? : Scalar → Option Int
  | bool b => some (if b then 1 else 0)
  | int n => some n
  | decimal x => x.whole?
  | _ => none

/-- Whether two scalars are one key: equal numbers are, whatever their kinds. -/
def sameKey (a b : Scalar) : Bool :=
  match a, b with
  | moment m, moment n => m.same n
  | a, b =>
    match a.whole?, b.whole? with
    | some m, some n => m = n
    | none, none => a = b
    | _, _ => false

/-- Scalars as they appear inside lists and mappings: texts in quotes. -/
def shown : Scalar → Text
  | .null => "None"
  | .bool b => if b then "True" else "False"
  | .int n => Text.ofInt n
  | .decimal x => x.text
  | .text t => t.quoted
  | .bytes bs => Text.quotedBytes bs
  | .date d => d.shown
  | .moment m => m.shown

def shownSet (members : List Scalar) : Text :=
  if members.isEmpty then "set()"
  else "\x7b" ++ Text.joinWith ", " (members.map shown) ++ "\x7d"

end Scalar

/-! ### Entries -/

/-- Sets a key to a value: in its place if it is there, else at the end. A key that is there stays
as it was written. -/
def Entries.insert {β : Type} (key : Scalar) (value : β) : List (Scalar × β) → List (Scalar × β)
  | [] => [(key, value)]
  | (k, v) :: rest =>
    if k.sameKey key then (k, value) :: rest else (k, v) :: Entries.insert key value rest

/-- Sets every entry of the second list in the first. -/
def Entries.update {β : Type} (entries more : List (Scalar × β)) : List (Scalar × β) :=
  more.foldl (fun acc (key, value) => Entries.insert key value acc) entries

def Entries.erase {β : Type} (key : Scalar) (entries : List (Scalar × β)) : List (Scalar × β) :=
  entries.filter fun (k, _) => k ≠ key

end HouseStyle
