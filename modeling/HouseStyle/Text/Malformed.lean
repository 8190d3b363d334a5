import HouseStyle.Text.Quoted
import HouseStyle.Text.Utf8

/-! Why bytes are not well-formed UTF-8, and why a text cannot be written as such. -/

namespace HouseStyle

/-- Bytes from place `first` up to `last` that form no character. -/
structure Malformed where
  lead : Nat
  first : Nat
  last : Nat
  reason : Text
  deriving DecidableEq, Repr

namespace Malformed

def message (m : Malformed) : Text :=
  if m.first = m.last then
    "'utf-8' codec can't decode byte 0x" ++ Text.hexDigits 2 m.lead ++ " in position " ++
      Text.ofNat m.first ++ ": " ++ m.reason
  else
    "'utf-8' codec can't decode bytes in position " ++ Text.ofNat m.first ++ "-" ++
      Text.ofNat m.last ++ ": " ++ m.reason

/-- How many bytes a character has that starts with a byte. -/
def lengthFrom? (lead : Nat) : Option Nat :=
  if 0xC2 ≤ lead ∧ lead ≤ 0xDF then some 2
  else if 0xE0 ≤ lead ∧ lead ≤ 0xEF then some 3
  else if 0xF0 ≤ lead ∧ lead ≤ 0xF4 then some 4
  else none

/-- Whether a byte may stand second after another. -/
def maySecond (lead second : Nat) : Bool :=
  0x80 ≤ second && second ≤ 0xBF &&
    !(lead = 0xE0 && second < 0xA0) && !(lead = 0xED && 0xA0 ≤ second) &&
    !(lead = 0xF0 && second < 0x90) && !(lead = 0xF4 && 0x90 ≤ second)

/-- How many bytes after the first fit it. -/
def fitting (lead : Nat) (rest : List UInt8) : Nat :=
  match rest with
  | second :: more =>
    if maySecond lead second.toNat then 1 + (more.takeWhile Text.isTail).length else 0
  | [] => 0

/-- What is wrong with bytes that start no character, at a place in a text. -/
def at_ (place : Nat) (lead : UInt8) (rest : List UInt8) : Malformed :=
  match lengthFrom? lead.toNat with
  | none => ⟨lead.toNat, place, place, "invalid start byte"⟩
  | some size =>
    let fit := fitting lead.toNat (rest.take (size - 1))
    ⟨lead.toNat, place, place + fit,
      if fit = rest.length then "unexpected end of data" else "invalid continuation byte"⟩

/-- The first place in a text that is wrong. -/
def first? (place : Nat) (bytes : List UInt8) : Option Malformed :=
  match bytes with
  | [] => none
  | lead :: rest =>
    match Text.leadingChar? (lead :: rest) with
    | some (_, k) => first? (place + k + 1) (rest.drop k)
    | none => some (at_ place lead rest)
termination_by bytes.length
decreasing_by simp only [List.length_drop, List.length_cons]; omega

end Malformed

/-- The text of bytes that are well-formed throughout. -/
def Text.decodeStrict (bytes : List UInt8) : Except Malformed Text :=
  match Malformed.first? 0 bytes with
  | some m => .error m
  | none => .ok (Text.decode bytes)

/-- Symbols of a text that are no characters, from place `first` up to `last`. The first of them is
`sym`. -/
structure Unwritable where
  sym : Sym
  first : Nat
  last : Nat
  deriving DecidableEq, Repr

namespace Unwritable

def message (r : Unwritable) : Text :=
  let what : Text :=
    if r.first = r.last then
      "character '\\u" ++ Text.hexDigits 4 r.sym.code ++ "' in position " ++ Text.ofNat r.first
    else "characters in position " ++ Text.ofNat r.first ++ "-" ++ Text.ofNat r.last
  "'utf-8' codec can't encode " ++ what ++ ": surrogates not allowed"

/-- What keeps a text from being written, from the first symbol on that some rule refuses. -/
def first? (refused : Sym → Bool) (t : Text) : Option Unwritable :=
  let before := t.takeWhile fun s => !refused s
  match t.drop before.length with
  | [] => none
  | s :: rest =>
    let run := rest.takeWhile fun s => !s.isCharacter
    some ⟨s, before.length, before.length + run.length⟩

end Unwritable

/-- The bytes of a text of characters. -/
def Text.encodeStrict (t : Text) : Except Unwritable (List UInt8) :=
  match Unwritable.first? (fun s => !s.isCharacter) t with
  | some u => .error u
  | none => .ok (Text.encode t)

/-- The bytes of a text of characters and stray bytes. -/
def Text.encodeWhole (t : Text) : Except Unwritable (List UInt8) :=
  match Unwritable.first? Sym.isHalf t with
  | some u => .error u
  | none => .ok (Text.encode t)

end HouseStyle
