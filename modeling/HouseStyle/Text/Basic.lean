/-! Source text. A text is a list of symbols, and a symbol is a character or a byte that belongs
to no character, so any file can be held and written back. Texts of settings may also hold halves
of characters, which no file has. Offsets and columns count symbols. -/

namespace HouseStyle

/-- One unit of text: a character, the byte `0x80 + low` that no character claims, or a surrogate
without another one. Of those, the 128 that stand for bytes are left out of the count. -/
inductive Sym where
  | char (c : Char)
  | stray (low : Fin 128)
  | half (n : Fin 1920)
  deriving DecidableEq, Repr, Inhabited

abbrev Text := List Sym

namespace Sym

/-- The place of a symbol in the order of texts. Stray bytes and halves use code points that no
character has, so the key is injective. -/
def code : Sym → Nat
  | .char c => c.toNat
  | .stray low => 0xDC80 + low.val
  | .half n => if n.val < 0x480 then 0xD800 + n.val else 0xD880 + n.val

/-- Whether the symbol is the character `c`. -/
def is (s : Sym) (c : Char) : Bool :=
  match s with
  | .char d => d = c
  | _ => false

/-- The byte that lies so far above `0x80`. -/
def strayAt (low : Nat) : Sym := .stray (Fin.ofNat 128 low)

def halfAt (n : Nat) : Sym := if h : n < 1920 then .half ⟨n, h⟩ else .char '\uFFFD'

/-- The symbol of a code point: of a surrogate, the byte or the half that it stands for. -/
def ofCode (n : Nat) : Sym :=
  if n < 0xD800 || 0xDFFF < n then .char (Char.ofNat n)
  else if n < 0xDC80 then halfAt (n - 0xD800)
  else if n < 0xDD00 then strayAt (n - 0xDC80)
  else halfAt (n - 0xD880)

def isCharacter : Sym → Bool
  | .char _ => true
  | .stray _ | .half _ => false

def isHalf : Sym → Bool
  | .half _ => true
  | .char _ | .stray _ => false

/-- Carriage return or line feed, the only symbols that break source lines. -/
def isBreak (s : Sym) : Bool := s.is '\r' || s.is '\n'

end Sym

namespace Text

def ofString (s : String) : Text := s.toList.map .char

instance : Coe String Text := ⟨ofString⟩

/-- The text as a string, with the replacement character for all that is no character. -/
def toString (t : Text) : String :=
  String.ofList (t.map fun
    | .char c => c
    | _ => '\uFFFD')

/-! ### Order -/

/-- Lexicographic order by code. -/
def compare : Text → Text → Ordering
  | [], [] => .eq
  | [], _ :: _ => .lt
  | _ :: _, [] => .gt
  | a :: s, b :: t =>
    if a.code < b.code then .lt else if b.code < a.code then .gt else compare s t

def le (s t : Text) : Bool := compare s t != .gt

/-! ### Searching and cutting -/

/-- The first occurrence of `part` at or after the start of a text, as the text before it and
the text after it. -/
def cutAt? (part : Text) : Text → Option (Text × Text)
  | [] => if part.isEmpty then some ([], []) else none
  | s :: rest =>
    if part.isPrefixOf (s :: rest) then some ([], (s :: rest).drop part.length)
    else (cutAt? part rest).map fun (before, after) => (s :: before, after)

/-- The pieces between the occurrences of a symbol. -/
def splitOn (sep : Sym) : Text → List Text
  | [] => [[]]
  | s :: rest =>
    match splitOn sep rest with
    | [] => [[s]]
    | piece :: pieces => if s = sep then [] :: piece :: pieces else (s :: piece) :: pieces

def joinWith (sep : Text) : List Text → Text
  | [] => []
  | [t] => t
  | t :: rest => t ++ sep ++ joinWith sep rest

def replaceAll (a b : Sym) (t : Text) : Text := t.map fun s => if s = a then b else s

/-! ### Numbers -/

def ofNat (n : Nat) : Text := ofString (n.repr)

def ofInt : Int → Text
  | .ofNat n => ofNat n
  | .negSucc n => .char '-' :: ofNat (n + 1)

/-! ### Padding -/

/-- A character `count` times. -/
def fill (count : Nat) (c : Char) : Text := List.replicate count (.char c)

/-- The text followed by blanks up to a width. -/
def padRight (width : Nat) (t : Text) : Text := t ++ fill (width - t.length) ' '

/-- Blanks up to a width, then the text. -/
def padLeft (width : Nat) (t : Text) : Text := fill (width - t.length) ' ' ++ t

end Text

/-- A shown count with the word in its singular or plural form; `s` is added where no plural form
is given. -/
def Text.countedAs (shown : Text) (isOne : Bool) (word : Text) (plural : Option Text := none) :
    Text :=
  shown ++ .char ' ' :: (if isOne then word else plural.getD (word ++ [.char 's']))

def Text.counted (count : Nat) (word : Text) : Text :=
  Text.countedAs (Text.ofNat count) (count = 1) word


/-- The sum of some numbers. -/
def total : List Nat → Nat
  | [] => 0
  | n :: rest => n + total rest

end HouseStyle
