import HouseStyle.Outline.Scan

/-! Questions that rules put to an outline. -/

namespace HouseStyle.Outline

variable (o : Outline)

def token? (i : Nat) : Option Token := o.tokens[i]?

/-- Whether the token at an index passes a test; past the end none does. -/
def at_ (i : Nat) (p : Token → Bool) : Bool := tokenIs o.tokens p i

/-- The first significant token after an index. -/
def next? (i : Nat) : Option Nat := (o.following[i + 1]?).getD none

/-- The last significant token before an index. -/
def prev? (i : Nat) : Option Nat := if i = 0 then none else (o.preceding[i - 1]?).getD none

def partner? (i : Nat) : Option Nat := partnerIn o.partners i

def nestingAt (i : Nat) : Nat := o.nesting.getD i 0

/-- Whether indices are exactly one parenthesized group. -/
def isWrapped (indices : List Nat) : Bool :=
  match indices.head?, indices.getLast? with
  | some first, some last =>
    2 ≤ indices.length && o.at_ first (·.isMark '(') && o.partner? first = some last
  | _, _ => false

/-- The header that opened the block at a brace. -/
def header? (brace : Nat) : Option Segment := o.headers.lookup brace

/-- The segments directly inside the block at a brace; those of the top level for `none`. -/
def members (brace : Option Nat) : List Segment := o.segments.filter (·.container = brace)

/-- Whether one of the words stands before the leading word of a segment. -/
def hasModifier (s : Segment) (words : List Text) : Bool :=
  (s.indices.take s.lead).any fun i => o.at_ i (words.contains ·.text)

def content : Text := o.tokens.toList.flatMap (·.text)

/-! ### Names bound by a declaration -/

/-- Where the scan for names stands: whether a name is due, whether a type is being read, and how
many angle brackets of the type are open. -/
structure Binding where
  expectsName : Bool := true
  inType : Bool := false
  angles : Nat := 0
  deriving DecidableEq, Repr

/-- Names among the tokens on the level of the leading word, up to a brace. -/
def namesFrom (b : Binding) : List (Nat × Token) → List Nat
  | [] => []
  | (i, t) :: rest =>
    if t.isMark '{' then []
    else if b.expectsName then
      let others := namesFrom { b with expectsName := false } rest
      if t.kind = .identifier && t.text ≠ "_" then i :: others else others
    else if t.isMark ':' then namesFrom { b with inType := true } rest
    else if t.isMark '=' then namesFrom { b with inType := false, angles := 0 } rest
    else if b.inType && t.isMark '<' then namesFrom { b with angles := b.angles + 1 } rest
    else if b.inType && t.isMark '>' then namesFrom { b with angles := b.angles - 1 } rest
    else if t.isMark ',' && b.angles = 0 then
      namesFrom { b with expectsName := true, inType := false } rest
    else namesFrom b rest

/-- The tokens of the names that a `var` or `let` segment binds. Tuple patterns and the wildcard
bind none. -/
def bindingNames (s : Segment) : List Nat :=
  if (["var", "let"] : List Text).contains s.keyword then
    let level := o.nestingAt s.leadIndex
    let sameLevel := (s.indices.drop (s.lead + 1)).filter (o.nestingAt · = level)
    namesFrom {} (sameLevel.filterMap fun i => (o.token? i).map (i, ·))
  else []

end HouseStyle.Outline
