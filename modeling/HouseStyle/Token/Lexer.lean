import HouseStyle.Text.Lines
import HouseStyle.Token.Basic
import HouseStyle.Token.Literal

/-! The lexer. Any text is cut into lexemes that join to the text again; malformed input never
fails. A lexeme depends only on the text from its start on. -/

namespace HouseStyle

/-- What is read next: the kind and length of a lexeme, and whether it lacks its end. -/
structure Cut where
  kind : TokenKind
  length : Nat
  unterminated : Bool := false
  deriving DecidableEq, Repr

namespace Cut

/-- A lexeme of known length, or one that runs to the end of the text. -/
def upTo (kind : TokenKind) (all : Nat) : Option Nat → Cut
  | some n => ⟨kind, n, false⟩
  | none => ⟨kind, all, true⟩

def word (text : Text) : Cut :=
  let word := text.takeWhile Sym.isWord
  let kind := if literalWords.contains word then .literal
    else if keywords.contains word then .keyword
    else .identifier
  ⟨kind, word.length, false⟩

/-- `$` and word symbols. -/
def dollar? (text : Text) : Option Nat :=
  match text with
  | .char '$' :: rest =>
    match Literal.run Sym.isWord rest with
    | 0 => none
    | n => some (n + 1)
  | _ => none

/-- Symbols that a name between grave accents is made of. -/
def inGraves (s : Sym) : Bool := !(s.is '\x60' || s.isBreak)

/-- A name between grave accents on one line. -/
def graveName? (text : Text) : Option Nat :=
  match text with
  | .char '\x60' :: rest =>
    let n := Literal.run inGraves rest
    if n ≠ 0 ∧ (rest.drop n).head? = some (.char '\x60') then some (n + 2) else none
  | _ => none

def operator (text : Text) : Cut :=
  ⟨.punctuation, ((operators.find? (·.isPrefixOf text)).map List.length).getD 1, false⟩

/-- The lexeme that starts a text. -/
def next (text : Text) : Cut :=
  match text with
  | [] => ⟨.punctuation, 0, false⟩
  | .char '\r' :: .char '\n' :: _ => ⟨.newline, 2, false⟩
  | .char '/' :: .char '/' :: _ =>
    ⟨.comment, Literal.run (fun s => !s.isBreak) text, false⟩
  | .char '/' :: .char '*' :: _ => upTo .comment text.length (Literal.blockComment? text)
  | .char '"' :: _ => upTo .string text.length (Literal.string? text)
  | s :: _ =>
    if s.isBreak then ⟨.newline, 1, false⟩
    else if s.isBlank then ⟨.whitespace, Literal.run Sym.isBlank text, false⟩
    else if s.isDigit then ⟨.literal, Literal.number text, false⟩
    else if s.isWord then word text
    else match dollar? text with
      | some n => ⟨.identifier, n, false⟩
      | none => match graveName? text with
        | some n => ⟨.identifier, n, false⟩
        | none => operator text

end Cut

/-- The lexemes of a text, in order. Each takes at least one symbol. -/
def lexemes : Text → List Lexeme
  | [] => []
  | s :: rest =>
    let cut := Cut.next (s :: rest)
    ⟨cut.kind, s :: rest.take (cut.length - 1), cut.unterminated⟩ ::
      lexemes (rest.drop (cut.length - 1))
termination_by text => text.length
decreasing_by simp only [List.length_drop, List.length_cons]; omega

/-! ### Places -/

/-- A place in the source: offset, line and column. -/
structure Cursor where
  offset : Nat := 0
  line : Nat := 1
  column : Nat := 1
  deriving DecidableEq, Repr

/-- The place after a text. The column restarts after the last break in it. -/
def Cursor.after (cursor : Cursor) (text : Text) : Cursor :=
  { offset := cursor.offset + text.length
    line := cursor.line + text.breakCount
    column :=
      match text.reverse.findIdx? Sym.isBreak with
      | some n => n + 1
      | none => cursor.column + text.length }

/-- Lexemes with their places, the first one at `cursor`. -/
def placed (cursor : Cursor) : List Lexeme → List Token
  | [] => []
  | lexeme :: rest =>
    { lexeme with
      start := cursor.offset
      line := cursor.line
      column := cursor.column } :: placed (cursor.after lexeme.text) rest

def tokenize (text : Text) : List Token := placed {} (lexemes text)

/-- The text that tokens hold together. -/
def sourceText (tokens : List Token) : Text := tokens.flatMap (·.text)

end HouseStyle
