import HouseStyle.Text.Basic

/-! Patterns for file names and rule ids. `*` stands for any text, `?` for any symbol and brackets
for one symbol of a set; slashes are symbols like others. -/

namespace HouseStyle.Glob

/-- A set of symbols by ranges, or all symbols outside them. -/
structure SymSet where
  negated : Bool
  ranges : List (Sym × Sym)
  deriving DecidableEq, Repr

def SymSet.contains (set : SymSet) (s : Sym) : Bool :=
  set.negated != set.ranges.any fun (lo, hi) => lo.code ≤ s.code && s.code ≤ hi.code

inductive Piece where
  | star
  | one (set : SymSet)
  deriving DecidableEq, Repr

/-- Any symbol at all. -/
def Piece.any : Piece := .one ⟨true, []⟩

def Piece.literal (s : Sym) : Piece := .one ⟨false, [(s, s)]⟩

/-! ### Reading patterns -/

/-- Splits what stands between brackets at the hyphens that form ranges: each part but the last
ends with the low end of a range, and each part but the first begins with the high end of one.
`ahead` symbols belong to the current part whatever they are. -/
def splitRanges (ahead : Nat) : Text → List Text
  | [] => [[]]
  | s :: rest =>
    match ahead with
    | n + 1 =>
      match splitRanges n rest with
      | [] => [[s]]
      | part :: parts => (s :: part) :: parts
    | 0 =>
      if s.is '-' then [] :: splitRanges 2 rest
      else match splitRanges 0 rest with
        | [] => [[s]]
        | part :: parts => (s :: part) :: parts

/-- A hyphen at the end is an ordinary symbol of the set. -/
def closeRanges : List Text → List Text
  | [part, []] => [part ++ [.char '-']]
  | part :: rest => part :: closeRanges rest
  | [] => []

/-- Drops ranges whose ends are in the wrong order, from the last one to the first. -/
def dropEmpty : List Text → List Text
  | [] => []
  | part :: rest =>
    match dropEmpty rest with
    | [] => [part]
    | next :: more =>
      match part.getLast?, next.head? with
      | some lo, some hi =>
        if hi.code < lo.code then (part.dropLast ++ next.drop 1) :: more
        else part :: next :: more
      | _, _ => part :: next :: more

def singles (t : Text) : List (Sym × Sym) := t.map fun s => (s, s)

/-- The ranges that parts describe. A hyphen with nothing on one side is an ordinary symbol. -/
def rangesOf : List Text → List (Sym × Sym)
  | [] => []
  | [part] => singles part
  | part :: next :: more =>
    match part.getLast?, next with
    | some lo, hi :: others => singles part.dropLast ++ (lo, hi) :: rangesOf (others :: more)
    | _, _ => singles part ++ singles "-" ++ rangesOf (next :: more)
termination_by parts => parts.length

/-- The piece for what stands between brackets. An exclamation mark in front negates the set; a
negated empty set is any symbol. -/
def setPiece (inner : Text) : Piece :=
  let negated := inner.head? = some (.char '!')
  let parts :=
    if inner.any (·.is '-') then
      dropEmpty (closeRanges (splitRanges (if negated then 2 else 1) inner))
    else [inner]
  match parts with
  | (.char '!' :: first) :: more => .one ⟨true, rangesOf (first :: more)⟩
  | parts => .one ⟨false, rangesOf parts⟩

/-- How many symbols stand between an opening bracket and its closing one. A closing bracket right
after the opening one, or after the exclamation mark, is in the set. -/
def innerLength? (t : Text) : Option Nat :=
  let skip :=
    match t with
    | .char '!' :: .char ']' :: _ => 2
    | .char '!' :: _ => 1
    | .char ']' :: _ => 1
    | _ => 0
  let run := ((t.drop skip).takeWhile fun s => !s.is ']').length
  if skip + run < t.length then some (skip + run) else none

/-- The pieces of a pattern. A bracket that is not closed stands for itself. -/
def parse : Text → List Piece
  | [] => []
  | s :: rest =>
    if s.is '*' then .star :: parse rest
    else if s.is '?' then Piece.any :: parse rest
    else if s.is '[' then
      match innerLength? rest with
      | some n => setPiece (rest.take n) :: parse (rest.drop (n + 1))
      | none => Piece.literal s :: parse rest
    else Piece.literal s :: parse rest
termination_by t => t.length
decreasing_by all_goals simp only [List.length_drop, List.length_cons]; omega

/-! ### Matching -/

/-- Whether a test holds for some end of a text. -/
def anySuffix (p : Text → Bool) : Text → Bool
  | [] => p []
  | s :: rest => p (s :: rest) || anySuffix p rest

def matchesPieces : List Piece → Text → Bool
  | [], t => t.isEmpty
  | .star :: pieces, t => anySuffix (matchesPieces pieces) t
  | .one set :: pieces, t =>
    match t with
    | [] => false
    | s :: rest => set.contains s && matchesPieces pieces rest

/-- Whether a pattern matches a whole text. -/
def matches_ (pattern t : Text) : Bool := matchesPieces (parse pattern) t

end HouseStyle.Glob
