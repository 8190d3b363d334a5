import HouseStyle.Text.Basic

/-! Days of the calendar and moments of a day, in years of four digits. A moment may say how far
its clock is ahead of universal time; only then is it a point in time. -/

namespace HouseStyle

structure Date where
  year : Nat
  month : Nat
  day : Nat
  deriving DecidableEq, Repr, Inhabited

structure Moment where
  date : Date
  hour : Nat
  minute : Nat
  second : Nat := 0
  micro : Nat := 0
  /-- Minutes that the clock is ahead of universal time. -/
  ahead : Option Int := none
  deriving DecidableEq, Repr, Inhabited

/-! ### Numbers that are no date -/

inductive CalendarError where
  | year (n : Nat)
  | month | day | hour | minute | second
  /-- A clock is less than a day ahead or behind. -/
  | clock (ahead : Int)
  deriving DecidableEq, Repr

namespace Calendar

/-- A span of minutes, in whole days and the seconds after them. -/
def spanText (minutes : Int) : Text :=
  let days := Int.fdiv minutes 1440
  let seconds := 60 * Int.fmod minutes 1440
  let parts : List Text :=
    (if days = 0 then [] else ["days=" ++ Text.ofInt days]) ++
      (if seconds = 0 then [] else ["seconds=" ++ Text.ofInt seconds])
  "datetime.timedelta(" ++ (if parts.isEmpty then ("0" : Text) else Text.joinWith ", " parts) ++ ")"

def isLeap (year : Nat) : Bool := year % 4 = 0 && (year % 100 ≠ 0 || year % 400 = 0)

def monthLength (year month : Nat) : Nat :=
  if month = 2 then (if isLeap year then 29 else 28)
  else if month = 4 ∨ month = 6 ∨ month = 9 ∨ month = 11 then 30
  else 31

/-- The days of the calendar before a year. -/
def daysBeforeYear (year : Nat) : Nat :=
  let past := year - 1
  365 * past + past / 4 - past / 100 + past / 400

def daysBeforeMonth (year month : Nat) : Nat :=
  total ((List.range (month - 1)).map fun m => monthLength year (m + 1))

/-- Two digits of a number, or more where it has more. -/
def padded (width n : Nat) : Text :=
  let digits := Text.ofNat n
  Text.fill (width - digits.length) '0' ++ digits

end Calendar

def CalendarError.message : CalendarError → Text
  | year n => "year " ++ Text.ofNat n ++ " is out of range"
  | month => "month must be in 1..12"
  | day => "day is out of range for month"
  | hour => "hour must be in 0..23"
  | minute => "minute must be in 0..59"
  | second => "second must be in 0..59"
  | clock ahead =>
    "offset must be a timedelta strictly between -timedelta(hours=24) and timedelta(hours=24), not " ++
      Calendar.spanText ahead ++ "."

namespace Date

/-- The date of some numbers, if they are one. -/
def check (d : Date) : Except CalendarError Date :=
  if d.year = 0 ∨ 9999 < d.year then .error (.year d.year)
  else if d.month = 0 ∨ 12 < d.month then .error .month
  else if d.day = 0 ∨ Calendar.monthLength d.year d.month < d.day then .error .day
  else .ok d

/-- The number of a day, counted from the first one of the calendar. -/
def number (d : Date) : Nat :=
  Calendar.daysBeforeYear d.year + Calendar.daysBeforeMonth d.year d.month + d.day

def text (d : Date) : Text :=
  Calendar.padded 4 d.year ++ "-" ++ Calendar.padded 2 d.month ++ "-" ++ Calendar.padded 2 d.day

def numbers (d : Date) : List Text := [d.year, d.month, d.day].map Text.ofNat

/-- The date in full. -/
def shown (d : Date) : Text := "datetime.date(" ++ Text.joinWith ", " d.numbers ++ ")"

end Date

namespace Moment

/-- The moment of some numbers, if they are one. -/
def check (m : Moment) : Except CalendarError Moment := do
  if let some ahead := m.ahead then
    if 1440 ≤ ahead.natAbs then throw (.clock ahead)
  let _ ← m.date.check
  if 24 ≤ m.hour then throw .hour
  if 60 ≤ m.minute then throw .minute
  if 60 ≤ m.second then throw .second
  return m

/-- The microseconds on the clock since the calendar began. -/
def clock (m : Moment) : Int :=
  (((m.date.number * 24 + m.hour) * 60 + m.minute) * 60 + m.second) * 1000000 + m.micro

/-- The microseconds of universal time, for a moment that is a point in time. -/
def instant? (m : Moment) : Option Int :=
  m.ahead.map fun ahead => m.clock - ahead * 60000000

/-- Whether two moments are one: points in time by universal time, and others by their clocks. -/
def same (a b : Moment) : Bool :=
  match a.instant?, b.instant? with
  | some s, some t => s = t
  | none, none => a.clock = b.clock
  | _, _ => false

/-- How far a clock is ahead, in hours and minutes. -/
def aheadText (minutes : Int) : Text :=
  (if minutes < 0 then ("-" : Text) else "+") ++ Calendar.padded 2 (minutes.natAbs / 60) ++ ":" ++
    Calendar.padded 2 (minutes.natAbs % 60)

def text (m : Moment) : Text :=
  m.date.text ++ " " ++ Text.joinWith ":" ([m.hour, m.minute, m.second].map (Calendar.padded 2)) ++
    (if m.micro = 0 then [] else .char '.' :: Calendar.padded 6 m.micro) ++
    (m.ahead.map aheadText).getD []

/-- The moment in full. Seconds are left out where they are none. -/
def shown (m : Moment) : Text :=
  let small := if m.micro ≠ 0 then [m.second, m.micro] else if m.second ≠ 0 then [m.second] else []
  let numbers := m.date.numbers ++ (m.hour :: m.minute :: small).map Text.ofNat
  let zone : List Text := match m.ahead with
    | none => []
    | some 0 => ["tzinfo=datetime.timezone.utc"]
    | some ahead => ["tzinfo=datetime.timezone(" ++ Calendar.spanText ahead ++ ")"]
  "datetime.datetime(" ++ Text.joinWith ", " (numbers ++ zone) ++ ")"

end Moment
end HouseStyle
