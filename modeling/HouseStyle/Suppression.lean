import HouseStyle.Context

/-! Suppression by comments. A comment with the marker hides findings of the named rules, or of all
rules where it names none, on its own line; a comment alone on its line hides them on the line
after it too. -/

namespace HouseStyle.Suppression

def marker : Text := "stylescanner-ignore"

def isNameSym (s : Sym) : Bool := s.isWord || s.is '-'

/-- Further names, each after a comma. -/
def moreNames : (fuel : Nat) → Text → List Text
  | 0, _ => []
  | fuel + 1, t =>
    match t.dropWhile Sym.isSpace with
    | .char ',' :: rest =>
      let rest := rest.dropWhile Sym.isSpace
      let name := rest.takeWhile isNameSym
      if name.isEmpty then [] else name :: moreNames fuel (rest.drop name.length)
    | _ => []

/-- The rule names after the marker; none without a colon and a name. -/
def namesAfter (t : Text) : List Text :=
  match t.dropWhile Sym.isSpace with
  | .char ':' :: rest =>
    let rest := rest.dropWhile Sym.isSpace
    let name := rest.takeWhile isNameSym
    if name.isEmpty then [] else name :: moreNames rest.length (rest.drop name.length)
  | _ => []

/-- What a comment suppresses: `none` if it has no marker, else the rules it names, where no name
stands for every rule. -/
def ofComment? (text : Text) : Option (Option (List Text)) :=
  (Text.cutAt? marker text).map fun (_, after) =>
    match namesAfter after with
    | [] => none
    | names => some names

/-- The rules suppressed on each line, `none` for all of them. A line stands here once. -/
abbrev Lines := List (Int × Option (List Text))

def merge : Option (List Text) → Option (List Text) → Option (List Text)
  | some a, some b => some (a ++ b.filter fun name => !a.contains name)
  | _, _ => none

/-- Adds rules to a line. -/
def add (line : Int) (rules : Option (List Text)) : Lines → Lines
  | [] => [(line, rules)]
  | (l, r) :: rest => if l = line then (l, merge r rules) :: rest else (l, r) :: add line rules rest

/-- Adds the suppression of one comment; `hasCode` tells on which lines other tokens start. -/
def addComment (hasCode : Nat → Bool) (found : Lines) (t : Token) : Lines :=
  match ofComment? t.text with
  | none => found
  | some rules =>
    let found := add t.line rules found
    if hasCode t.line then found else add (t.line + t.text.breakCount + 1) rules found

/-- The suppressions of a token list. -/
def ofTokens (tokens : List Token) : Lines :=
  let comments := tokens.filter (·.kind = .comment)
  let code := tokens.filter (!·.isTrivia)
  comments.foldl (addComment fun line => code.any (·.line = line)) []

def covers (lines : Lines) (line : Int) (ruleId : Text) : Bool :=
  match lines.lookup line with
  | none => false
  | some none => true
  | some (some rules) => rules.contains ruleId

/-- Whether a suppression comment covers a finding. -/
def hides (lines : Lines) (f : Finding) : Bool := covers lines f.line f.ruleId

end HouseStyle.Suppression
