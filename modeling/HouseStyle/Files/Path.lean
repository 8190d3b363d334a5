import HouseStyle.Text.Case

/-! Paths as texts. Parts are divided by slashes; a part of one dot stays where it is and one of two
dots goes to the directory above. -/

namespace HouseStyle.Path

def slash : Sym := .char '/'

def dot : Text := "."

def dotDot : Text := ".."

/-- The parts between slashes, empty ones included. -/
def parts (path : Text) : List Text := path.splitOn slash

def isAbsolute (path : Text) : Bool := path.head? = some slash

/-- The parts that lead anywhere. -/
def steps (path : Text) : List Text := (parts path).filter fun p => !(p.isEmpty || p = dot)

/-- The path without parts that lead nowhere. A path may start with exactly two slashes. -/
def tidy (path : Text) : Text :=
  let slashes := (path.takeWhile (· = slash)).length
  let root : Text := if slashes = 0 then [] else if slashes = 2 then [slash, slash] else [slash]
  let tidied := root ++ Text.joinWith [slash] (steps path)
  if tidied.isEmpty then dot else tidied

/-- A path with a name in the directory that it names. -/
def join (path name : Text) : Text :=
  if path.isEmpty || path.getLast? = some slash then path ++ name else path ++ slash :: name

/-- What comes after the last slash. -/
def baseName (path : Text) : Text := (path.reverse.takeWhile (· ≠ slash)).reverse

/-- A name from its last dot on, unless only dots come before. -/
def extension_ (name : Text) : Text :=
  let after := (name.reverse.takeWhile fun s => !s.is '.').reverse
  let before := name.take (name.length - after.length - 1)
  if after.length < name.length && before.any fun s => !s.is '.' then .char '.' :: after else []

/-- The last dot of a tidy path's last part and what follows it, if something does and the dot is
not the first symbol. -/
def suffix (path : Text) : Text :=
  let name := baseName path
  let after := (name.reverse.takeWhile fun s => !s.is '.').reverse
  if after.isEmpty || name.length ≤ after.length + 1 then [] else .char '.' :: after

/-! ### Names on the way -/

/-- One step along a path; above the root there is only the root. -/
def step (names : List Text) (part : Text) : List Text :=
  if part = dotDot then names.dropLast else names ++ [part]

/-- The names that lead from the root to where a path leads, whether or not there is anything. A
relative path begins at a home directory. -/
def namesFrom (home : List Text) (path : Text) : List Text :=
  (steps path).foldl step (if isAbsolute path then [] else home)

/-- The absolute path along some names. -/
def absolute (names : List Text) : Text :=
  if names.isEmpty then [slash] else names.flatMap (slash :: ·)

/-- The names that two lists begin with in common are left out of both. -/
def dropCommon : List Text → List Text → List Text × List Text
  | a :: as, b :: bs => if a = b then dropCommon as bs else (a :: as, b :: bs)
  | as, bs => (as, bs)

/-- The way from one path to another, both seen from a home directory. -/
def relative (home : List Text) (path base : Text) : Text :=
  let (down, back) := dropCommon (namesFrom home path) (namesFrom home base)
  let way := List.replicate back.length dotDot ++ down
  if way.isEmpty then dot else Text.joinWith [slash] way

end HouseStyle.Path
