import HouseStyle.Value.Calendar
import HouseStyle.Value.Numeral

/-! Why a document gives no value: it breaks the rules of its language, or a part of it is written
for something that does not exist, such as a thirteenth month. -/

namespace HouseStyle

inductive ReadError where
  | malformed
  | numeral (error : Numeral.Error)
  | calendar (error : CalendarError)
  /-- There is nothing where a numeral should start. -/
  | noNumeral
  | noTruthWord (word : Text)
  | noTime
  /-- A mapping stands for its plain value, but it is not a text where a time is read. -/
  | timeInParts
  | codePoint (n : Nat)
  /-- The places of a numeral go beyond all decimal numbers. -/
  | tooManyPlaces
  | tooDeep
  /-- Of the lists and mappings inside each other, one more is begun than are read. -/
  | listTooDeep
  | mapTooDeep
  deriving DecidableEq, Repr

abbrev Read := Except ReadError

namespace ReadError

/-- The first number that is too large for a code point to be looked at. -/
def codePointLimit : Nat := 0x80000000

def tooDeepMessage : Text := "maximum recursion depth exceeded"

def message : ReadError → Text
  | malformed => "malformed document"
  | numeral error => error.message
  | calendar error => error.message
  | noNumeral => "string index out of range"
  | noTruthWord word => word.quoted
  | noTime => "'NoneType' object has no attribute 'groupdict'"
  | timeInParts => "expected string or bytes-like object, got 'list'"
  | codePoint n =>
    if n < codePointLimit then "chr() arg not in range(0x110000)"
    else "Python int too large to convert to C int"
  | tooManyPlaces => "int too large to convert to float"
  | tooDeep => tooDeepMessage
  | listTooDeep => tooDeepMessage ++ " while decoding a JSON array from a unicode string"
  | mapTooDeep => tooDeepMessage ++ " while decoding a JSON object from a unicode string"

/-- The word for the kind of an error. -/
def kind : ReadError → Text
  | malformed => "ConfigError"
  | numeral _ | calendar _ => "ValueError"
  | noNumeral => "IndexError"
  | noTruthWord _ => "KeyError"
  | noTime => "AttributeError"
  | timeInParts => "TypeError"
  | codePoint n => if n < codePointLimit then "ValueError" else "OverflowError"
  | tooManyPlaces => "OverflowError"
  | tooDeep | listTooDeep | mapTooDeep => "RecursionError"

end ReadError

namespace Read

def malformed {α : Type} : Read α := .error .malformed

/-- What is there, in a well-formed document. -/
def ofOption {α : Type} : Option α → Read α
  | some a => .ok a
  | none => malformed

def numeral {α : Type} : Except Numeral.Error α → Read α
  | .ok a => .ok a
  | .error e => .error (.numeral e)

def calendar {α : Type} : Except CalendarError α → Read α
  | .ok a => .ok a
  | .error e => .error (.calendar e)

end Read
end HouseStyle
