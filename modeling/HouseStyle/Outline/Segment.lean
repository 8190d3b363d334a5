import HouseStyle.Token.Basic

/-! Segments: runs of significant tokens that form a statement, a declaration or the header of a
control structure. Here is how a run is classified by its leading word. -/

namespace HouseStyle

inductive SegmentKind where
  | statement | controlHeader | declaration
  deriving DecidableEq, Repr, Inhabited

def SegmentKind.name : SegmentKind → Text
  | statement => "statement"
  | controlHeader => "control-header"
  | declaration => "declaration"

/-- The leading word of a run: what it makes of the run, its text, and how many tokens of the run
stand before it. -/
structure Head where
  kind : SegmentKind
  keyword : Text
  lead : Nat
  deriving DecidableEq, Repr, Inhabited

/-- A statement-level run. `indices` point into the token list. `boundary` is the token that ended
the run, and there is none at the end of the text. `container` is the innermost open brace around
the run and `depth` the number of open braces around it. -/
structure Segment extends Head where
  indices : List Nat
  boundary : Option Nat
  terminated : Bool := false
  opensBlock : Bool := false
  label : Bool := false
  container : Option Nat := none
  depth : Nat := 0
  deriving DecidableEq, Repr, Inhabited

namespace Segment

def first (s : Segment) : Nat := s.indices.headD 0

def last (s : Segment) : Nat := s.indices.getLastD 0

/-- The index of the leading word. -/
def leadIndex (s : Segment) : Nat := s.indices.getD s.lead 0

end Segment

namespace Outline

/-! ### Words -/

def controlKeywords : List Text :=
  ["if", "else", "for", "while", "repeat", "switch", "guard", "do", "catch", "defer"].map
    Text.ofString

def declarationKeywords : List Text :=
  ["var", "let", "func", "class", "struct", "enum", "protocol", "extension", "init", "deinit",
    "subscript", "typealias", "import", "actor", "operator", "associatedtype"].map Text.ofString

/-- Declarations whose brace always opens a body. -/
def blockDeclarations : List Text :=
  ["func", "class", "struct", "enum", "protocol", "extension", "init", "deinit", "subscript",
    "actor"].map Text.ofString

def modifiers : List Text :=
  ["public", "private", "internal", "fileprivate", "open", "static", "final", "override",
    "mutating", "nonmutating", "lazy", "weak", "unowned", "dynamic", "required", "convenience",
    "optional", "indirect"].map Text.ofString

def accessors : List Text := ["get", "set", "willSet", "didSet"].map Text.ofString

/-- Punctuation after which a statement carries on in the next line. -/
def trailingContinuation : List Text :=
  ["=", "+", "-", "*", "/", "%", "&&", "||", "??", ".", ",", "->", "==", "!=", "<=", ">=", "+=",
    "-=", "*=", "/=", "%=", "&", "|", "^", "...", "..<", "===", "!=="].map Text.ofString

def trailingContinuationWords : List Text := ["where", "as", "is"].map Text.ofString

/-- Punctuation that carries on the statement of the line before. -/
def leadingContinuation : List Text := [".", "&&", "||", "??", "?", ":"].map Text.ofString

/-- What may follow `class` where it is a modifier. -/
def classMembers : List Text := ["func", "var", "let", "subscript"].map Text.ofString

/-! ### The leading word -/

variable (tokens : Array Token) (partners : Array (Option Nat))

/-- Whether the token at an index passes a test; past the end none does. -/
def tokenIs (p : Token → Bool) (i : Nat) : Bool := (tokens[i]?.map p).getD false

/-- The partner of a bracket. -/
def partnerIn (i : Nat) : Option Nat := (partners[i]?).getD none

/-- Skips a parenthesized group at the start of a run. -/
def skipGroup : List Nat → List Nat
  | [] => []
  | i :: rest =>
    if tokenIs tokens (·.isMark '(') i then
      match partnerIn partners i with
      | some close => (i :: rest).dropWhile (· ≤ close)
      | none => i :: rest
    else i :: rest

theorem length_skipGroup_le (run : List Nat) :
    (skipGroup tokens partners run).length ≤ run.length := by
  cases run with
  | nil => simp [skipGroup]
  | cons i rest =>
    simp only [skipGroup]
    split
    · split
      · exact (List.dropWhile_sublist _).length_le
      · exact Nat.le_refl _
    · exact Nat.le_refl _

/-- The part of a run from its leading word on: attributes and modifiers are skipped, with the
group in parentheses that may follow them. -/
def fromHead : List Nat → List Nat
  | [] => []
  | i :: rest =>
    if tokenIs tokens (·.isMark '@') i then
      match rest with
      | [] => []
      | name :: rest =>
        if tokenIs tokens (·.kind = .identifier) name then
          fromHead (skipGroup tokens partners rest)
        else fromHead (skipGroup tokens partners (name :: rest))
    else if tokenIs tokens (·.isKeyword modifiers) i then
      fromHead (skipGroup tokens partners rest)
    else if tokenIs tokens (·.isKeyword ["class"]) i &&
        (rest.head?.map (tokenIs tokens (·.isKeyword classMembers))).getD false then
      fromHead rest
    else i :: rest
termination_by run => run.length
decreasing_by
  all_goals
    try have h₁ := length_skipGroup_le tokens partners rest
    try have h₂ := length_skipGroup_le tokens partners (name :: rest)
    simp_all
    try omega

/-- The leading word of a run; a run of attributes and modifiers alone has none yet. -/
def head? (run : List Nat) : Option Head :=
  match fromHead tokens partners run with
  | [] => none
  | i :: rest =>
    (tokens[i]?).map fun t =>
      { kind :=
          if t.isKeyword controlKeywords then .controlHeader
          else if t.isKeyword declarationKeywords then .declaration
          else .statement
        keyword := t.text
        lead := run.length - (i :: rest).length }

/-- What stands in for the leading word while there is none. -/
def noHead : Head := ⟨.statement, [], 0⟩

end Outline
end HouseStyle
