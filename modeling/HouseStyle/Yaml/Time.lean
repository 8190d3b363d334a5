import HouseStyle.Json.Reader
import HouseStyle.Value.Numeral
import HouseStyle.Yaml.Cursor

/-! Days and times of day as documents write them: `2001-12-14`, or `2001-12-14t21:59:43.1-05:00`
and the like. -/

namespace HouseStyle.Yaml

/-- How far a written clock is ahead: by a sign and digits, or not at all. -/
inductive WrittenZone where
  | universal
  | ahead (negative : Bool) (hours minutes : Text)
  deriving DecidableEq, Repr

structure WrittenClock where
  hour : Text
  minute : Text
  second : Text
  fraction : Text := []
  zone : Option WrittenZone := none
  deriving DecidableEq, Repr

structure WrittenTime where
  year : Text
  month : Text
  day : Text
  clock : Option WrittenClock := none
  deriving DecidableEq, Repr

/-! ### Parts

Each reader returns what it read and the rest of the text. -/

/-- From `least` to `most` digits. -/
def digits? (least most : Nat) (t : Text) : Option (Text × Text) :=
  let taken := (t.take most).takeWhile Json.isAsciiDigit
  if least ≤ taken.length then some (taken, t.drop taken.length) else none

def char? (c : Char) : Text → Option Text
  | s :: rest => if s.is c then some rest else none
  | [] => none

/-- A zone, after blanks. -/
def zone? (t : Text) : Option (WrittenZone × Text) :=
  match t.dropWhile isSpaceTab with
  | .char 'Z' :: rest => some (.universal, rest)
  | s :: rest =>
    if s.is '-' || s.is '+' then do
      let (hours, rest) ← digits? 1 2 rest
      match rest with
      | .char ':' :: more =>
        let (minutes, more) ← digits? 2 2 more
        return (.ahead (s.is '-') hours minutes, more)
      | _ => return (.ahead (s.is '-') hours [], rest)
    else none
  | [] => none

def clock? (t : Text) : Option (WrittenClock × Text) := do
  let t ← match t with
    | s :: rest =>
      if s.is 'T' || s.is 't' then some rest
      else if isSpaceTab s then some (rest.dropWhile isSpaceTab)
      else none
    | [] => none
  let (hour, t) ← digits? 1 2 t
  let (minute, t) ← digits? 2 2 (← char? ':' t)
  let (second, t) ← digits? 2 2 (← char? ':' t)
  let (fraction, t) := match char? '.' t with
    | some more => more.span Json.isAsciiDigit
    | none => ([], t)
  match zone? t with
  | some (zone, t) => return ({ hour, minute, second, fraction, zone := some zone }, t)
  | none => return ({ hour, minute, second, fraction }, t)

def isAtEnd (t : Text) : Bool := t.isEmpty || t = [.char '\n']

namespace WrittenTime

/-- The time of a text that holds nothing else; a line feed may end it. -/
def ofText? (t : Text) : Option WrittenTime := do
  let (year, t) ← digits? 4 4 t
  let (month, t) ← digits? 1 2 (← char? '-' t)
  let (day, t) ← digits? 1 2 (← char? '-' t)
  if isAtEnd t then return { year, month, day }
  else
    let (clock, t) ← clock? t
    if isAtEnd t then return { year, month, day, clock := some clock } else none

/-- A day by itself must have all digits to be taken for one. -/
def isPlain (w : WrittenTime) : Bool :=
  w.clock.isSome || (w.month.length = 2 && w.day.length = 2)

/-! ### What is meant -/

def number (t : Text) : Nat := Numeral.valueOf 10 t

/-- Millionths from the digits after a point; further digits are left out. -/
def micro (fraction : Text) : Nat :=
  let shown := fraction.take 6
  number shown * Nat.pow 10 (6 - shown.length)

def minutesAhead : WrittenZone → Int
  | .universal => 0
  | .ahead negative hours minutes =>
    Numeral.negateIf negative (60 * number hours + number minutes)

/-- The day or the moment that is meant. -/
def meaning (w : WrittenTime) : Except CalendarError (Date ⊕ Moment) :=
  let date : Date := ⟨number w.year, number w.month, number w.day⟩
  match w.clock with
  | none => .inl <$> date.check
  | some c => .inr <$> Moment.check {
      date
      hour := number c.hour
      minute := number c.minute
      second := number c.second
      micro := micro c.fraction
      ahead := c.zone.map minutesAhead }

end WrittenTime
end HouseStyle.Yaml
