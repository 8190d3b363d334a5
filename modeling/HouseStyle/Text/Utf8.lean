import HouseStyle.Text.Basic

/-! Files as bytes. Decoding reads the longest run of well-formed characters and keeps every other
byte as a stray symbol of its own; encoding writes stray bytes back unchanged. Halves of characters
have bytes too, but no file takes them. -/

namespace HouseStyle.Text

/-- A continuation byte. -/
def isTail (b : UInt8) : Bool := 0x80 ≤ b && b ≤ 0xBF

/-- The character that a byte sequence starts with, and how many of its bytes follow the first.
Overlong forms, surrogates and numbers past the last code point are no characters. -/
def leadingChar? : List UInt8 → Option (Char × Nat)
  | [] => none
  | a :: rest =>
    let n := a.toNat
    if n < 0x80 then some (Char.ofNat n, 0)
    else match rest with
      | b :: rest =>
        if 0xC2 ≤ n && n ≤ 0xDF && isTail b then
          some (Char.ofNat ((n - 0xC0) * 64 + (b.toNat - 0x80)), 1)
        else match rest with
          | c :: rest =>
            if 0xE0 ≤ n && n ≤ 0xEF && isTail b && isTail c then
              let v := (n - 0xE0) * 4096 + (b.toNat - 0x80) * 64 + (c.toNat - 0x80)
              if 0x800 ≤ v && (v < 0xD800 || 0xDFFF < v) then some (Char.ofNat v, 2) else none
            else match rest with
              | d :: _ =>
                if 0xF0 ≤ n && n ≤ 0xF4 && isTail b && isTail c && isTail d then
                  let v := (n - 0xF0) * 262144 + (b.toNat - 0x80) * 4096 + (c.toNat - 0x80) * 64
                    + (d.toNat - 0x80)
                  if 0x10000 ≤ v && v < 0x110000 then some (Char.ofNat v, 3) else none
                else none
              | [] => none
          | [] => none
      | [] => none

/-- The symbol for a byte that starts no character. -/
def straySym (b : UInt8) : Sym := Sym.strayAt (b.toNat - 0x80)

def decode : List UInt8 → Text
  | [] => []
  | a :: rest =>
    match leadingChar? (a :: rest) with
    | some (c, k) => .char c :: decode (rest.drop k)
    | none => straySym a :: decode rest
termination_by bytes => bytes.length
decreasing_by all_goals simp only [List.length_drop, List.length_cons]; omega

def encodeCode (n : Nat) : List UInt8 :=
  if n < 0x80 then [UInt8.ofNat n]
  else if n < 0x800 then [UInt8.ofNat (0xC0 + n / 64), UInt8.ofNat (0x80 + n % 64)]
  else if n < 0x10000 then
    [UInt8.ofNat (0xE0 + n / 4096), UInt8.ofNat (0x80 + n / 64 % 64), UInt8.ofNat (0x80 + n % 64)]
  else
    [UInt8.ofNat (0xF0 + n / 262144), UInt8.ofNat (0x80 + n / 4096 % 64),
     UInt8.ofNat (0x80 + n / 64 % 64), UInt8.ofNat (0x80 + n % 64)]

def encodeSym : Sym → List UInt8
  | .char c => encodeCode c.toNat
  | .stray low => [UInt8.ofNat (0x80 + low.val)]
  | .half n => encodeCode (Sym.half n).code

def encode (t : Text) : List UInt8 := t.flatMap encodeSym

end HouseStyle.Text
