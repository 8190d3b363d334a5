import HouseStyle.Yaml.Time

/-! Tags: what the parts of a document are meant to be. A plain scalar without a tag gets the one of
what it looks like by the rules of version 1.1. -/

namespace HouseStyle.Yaml

inductive Tag where
  | null | bool | int | float | binary | timestamp | str
  | seq | map | omap | pairs | set
  | merge | value
  | other (name : Text)
  deriving DecidableEq, Repr, Inhabited

namespace Tag

/-- What the names of the tags that are known start with. -/
def space : Text := "tag:yaml.org,2002:"

def known : List (Text × Tag) :=
  [("null", null), ("bool", bool), ("int", int), ("float", float), ("binary", binary),
    ("timestamp", timestamp), ("str", str), ("seq", seq), ("map", map), ("omap", omap),
    ("pairs", pairs), ("set", set), ("merge", merge), ("value", value)]

/-- The tag of a full name. -/
def ofName (name : Text) : Tag :=
  if space.isPrefixOf name then (known.lookup (name.drop space.length)).getD (other name)
  else other name

/-! ### Looks -/

def isNull (t : Text) : Bool :=
  t.isEmpty || t = "~" || t = "null" || t = "Null" || t = "NULL"

def isTruthWord (t : Text) : Bool :=
  let words : List Text := ["yes", "Yes", "YES", "true", "True", "TRUE", "on", "On", "ON", "no",
    "No", "NO", "false", "False", "FALSE", "off", "Off", "OFF"]
  words.contains t

/-- Digits of ASCII in a base. -/
def isDigitOf (base : Nat) (s : Sym) : Bool := s.code < 0x80 && Numeral.isDigitOf base s

def isDigitOrLow (base : Nat) (s : Sym) : Bool := isDigitOf base s || s.is '_'

def startsDecimal (t : Text) : Bool :=
  match t with
  | s :: rest => isDigitOf 10 s && rest.all (isDigitOrLow 10)
  | [] => false

/-- Parts of a numeral of base sixty after the first: one digit or two, less than sixty. -/
def isSixtieth (t : Text) : Bool :=
  match t with
  | [a] => isDigitOf 10 a
  | [a, b] => isDigitOf 6 a && isDigitOf 10 b
  | _ => false

def isInteger (t : Text) : Bool :=
  match (Numeral.signed t).2 with
  | .char '0' :: .char 'b' :: rest => !rest.isEmpty && rest.all (isDigitOrLow 2)
  | .char '0' :: .char 'x' :: rest => !rest.isEmpty && rest.all (isDigitOrLow 16)
  | .char '0' :: rest => rest.all (isDigitOrLow 8)
  | t =>
    match Text.splitOn (.char ':') t with
    | first :: others => startsDecimal first && others.all isSixtieth
    | [] => false

/-- Digits after a point, and a power of ten, which needs its sign. -/
def isFraction (t : Text) : Bool :=
  match t.dropWhile (isDigitOrLow 10) with
  | [] => true
  | e :: sign :: power =>
    (e.is 'e' || e.is 'E') && (sign.is '-' || sign.is '+') && !power.isEmpty &&
      power.all (isDigitOf 10)
  | _ => false

/-- A number with a point, or one that is not finite. -/
def isDecimal (t : Text) : Bool :=
  let infinite : List Text := [".inf", ".Inf", ".INF"]
  let nan : List Text := [".nan", ".NaN", ".NAN"]
  let rest := (Numeral.signed t).2
  infinite.contains rest || nan.contains t || match rest.span (!·.is '.') with
    | ([], _ :: tail) => rest.length = t.length && tail.head?.any (isDigitOf 10) && isFraction tail
    | (whole, _ :: tail) =>
      match Text.splitOn (.char ':') whole with
      | [whole] => startsDecimal whole && isFraction tail
      | first :: others =>
        startsDecimal first && others.all isSixtieth && tail.all (isDigitOrLow 10)
      | [] => false
    | _ => false

/-- The tag of what a text looks like; a line feed may end it. -/
def ofLook (t : Text) : Tag :=
  let body := if 1 < t.length && t.getLast? = some (.char '\n') then t.dropLast else t
  if isNull body then null
  else if isTruthWord body then bool
  else if isDecimal body then float
  else if isInteger body then int
  else if body = "<<" then merge
  else if (WrittenTime.ofText? t).any WrittenTime.isPlain then timestamp
  else if body = "=" then value
  else if body = "!" || body = "&" || body = "*" then other (space ++ "yaml")
  else str

end Tag
end HouseStyle.Yaml
