import HouseStyle.Text.Classes
import HouseStyle.Text.Quoted

/-! Tokens: lexemes with their place in the source. White space, line breaks and comments are
tokens too, so the tokens of a text hold all of it. -/

namespace HouseStyle

inductive TokenKind where
  | identifier | keyword | punctuation | string | comment | whitespace | newline | literal
  deriving DecidableEq, Repr, Inhabited

namespace TokenKind

def name : TokenKind → Text
  | identifier => "identifier"
  | keyword => "keyword"
  | punctuation => "punctuation"
  | string => "string"
  | comment => "comment"
  | whitespace => "whitespace"
  | newline => "newline"
  | literal => "literal"

/-- Kinds that carry no code. -/
def isTrivia : TokenKind → Bool
  | whitespace | newline | comment => true
  | _ => false

/-- Kinds that can make up the body of a statement. -/
def isWord : TokenKind → Bool
  | identifier | keyword | literal | string => true
  | _ => false

end TokenKind

/-- A lexical unit apart from its place. Only strings and block comments that run to the end of
the text are unterminated. -/
structure Lexeme where
  kind : TokenKind
  text : Text
  unterminated : Bool := false
  deriving DecidableEq, Repr, Inhabited

/-- A lexeme at its offset in the text, with line and column counted from one. -/
structure Token extends Lexeme where
  start : Nat
  line : Nat
  column : Nat
  deriving DecidableEq, Repr, Inhabited

/-- The offset right after a token. -/
def Token.stop (t : Token) : Nat := t.start + t.text.length

namespace Lexeme

def isTrivia (t : Lexeme) : Bool := t.kind.isTrivia

def isPunct (t : Lexeme) (text : Text) : Bool := t.kind = .punctuation && t.text = text

/-- Whether the lexeme is the punctuation of one character. -/
def isMark (t : Lexeme) (c : Char) : Bool := t.isPunct [.char c]

def isKeyword (t : Lexeme) (words : List Text) : Bool := t.kind = .keyword && words.contains t.text

end Lexeme

/-- Kind, quoted text and place, for diagnostics. -/
def Token.shown (t : Token) : Text :=
  "Token(" ++ t.kind.name ++ ", " ++ t.text.quoted ++ ", " ++ Text.ofNat t.line ++ ":" ++
    Text.ofNat t.column ++ ")"

/-! ### Words with a fixed meaning -/

/-- Declarations, statements, expressions and types, and contextual modifiers. -/
def keywords : List Text :=
  ["associatedtype", "class", "deinit", "enum", "extension", "fileprivate", "func", "import",
    "init", "inout", "internal", "let", "open", "operator", "private", "protocol", "public",
    "static", "struct", "subscript", "typealias", "var", "actor",
    "break", "case", "catch", "continue", "default", "defer", "do", "else", "fallthrough", "for",
    "guard", "if", "in", "repeat", "return", "switch", "throw", "where", "while",
    "as", "is", "rethrows", "self", "Self", "super", "throws", "try", "await", "async",
    "convenience", "dynamic", "final", "lazy", "mutating", "nonmutating", "optional", "override",
    "required", "unowned", "weak", "indirect"].map Text.ofString

def literalWords : List Text := ["true", "false", "nil"].map Text.ofString

/-- Operators of more than one symbol, longer ones before their beginnings. -/
def operators : List Text :=
  ["===", "!==", "...", "..<", "->", "==", "!=", "<=", ">=", "&&", "||", "??",
    "+=", "-=", "*=", "/=", "%=", "++", "--"].map Text.ofString

end HouseStyle
