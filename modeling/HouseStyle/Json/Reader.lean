import HouseStyle.Value.Basic
import HouseStyle.Value.ReadError

/-! Reading JSON documents. A later entry with the same name replaces the value of an earlier one.
Each reader returns what it read and the rest of the text. -/

namespace HouseStyle.Json

def isGap (s : Sym) : Bool := s.is ' ' || s.is '\t' || s.is '\n' || s.is '\r'

def skipGaps (t : Text) : Text := t.dropWhile isGap

def hexValue? : Sym → Option Nat
  | .char c =>
    if c.isDigit then some (c.toNat - 48)
    else if 'a' ≤ c ∧ c ≤ 'f' then some (c.toNat - 87)
    else if 'A' ≤ c ∧ c ≤ 'F' then some (c.toNat - 55)
    else none
  | _ => none

/-- Four hexadecimal digits. -/
def unit? (t : Text) : Option Nat := do
  if t.length < 4 then none
  else (t.take 4).foldlM (fun n s => (hexValue? s).map (16 * n + ·)) 0

/-- A symbol written as one unit or as a pair of surrogates, right after `\u`. -/
def escaped? (t : Text) : Option (Sym × Text) := do
  let high ← unit? t
  let rest := t.drop 4
  match rest with
  | .char '\\' :: .char 'u' :: more =>
    match unit? more with
    | some low =>
      if 0xD800 ≤ high ∧ high < 0xDC00 ∧ 0xDC00 ≤ low ∧ low < 0xE000 then
        some (Sym.ofCode (0x10000 + (high - 0xD800) * 0x400 + (low - 0xDC00)), more.drop 4)
      else some (Sym.ofCode high, rest)
    | none => some (Sym.ofCode high, rest)
  | _ => some (Sym.ofCode high, rest)

def simpleEscape? (c : Char) : Option Char :=
  match c with
  | '"' => some '"'
  | '\\' => some '\\'
  | '/' => some '/'
  | 'b' => some '\x08'
  | 'f' => some '\x0c'
  | 'n' => some '\n'
  | 'r' => some '\r'
  | 't' => some '\t'
  | _ => none

/-- The string whose opening quote has been read. -/
def string? : (fuel : Nat) → Text → Option (Text × Text)
  | 0, _ => none
  | _, [] => none
  | fuel + 1, .char '\\' :: .char c :: rest =>
    if c = 'u' then do
      let (s, rest) ← escaped? rest
      let (more, rest) ← string? fuel rest
      return (s :: more, rest)
    else do
      let c ← simpleEscape? c
      let (more, rest) ← string? fuel rest
      return (.char c :: more, rest)
  | fuel + 1, s :: rest =>
    if s.is '"' then some ([], rest)
    else if s.is '\\' || s.code < 0x20 then none
    else do
      let (more, rest) ← string? fuel rest
      return (s :: more, rest)

def isAsciiDigit : Sym → Bool
  | .char c => c.isDigit
  | _ => false

def digitsValue (t : Text) : Nat :=
  t.foldl (fun n s => 10 * n + (s.code - 48)) 0

/-- A number: an integer, unless it has a fraction or an exponent. -/
def readNumber (t : Text) : Read (Scalar × Text) :=
  let (negative, t) := match t with
    | .char '-' :: rest => (true, rest)
    | _ => (false, t)
  let whole := t.takeWhile isAsciiDigit
  let whole := if whole.head? = some (.char '0') then whole.take 1 else whole
  if whole.isEmpty then Read.malformed
  else
    let t := t.drop whole.length
    let fraction := match t with
      | .char '.' :: rest => rest.takeWhile isAsciiDigit
      | _ => []
    let t := if fraction.isEmpty then t else t.drop (fraction.length + 1)
    let power := match t with
      | .char c :: rest =>
        if c = 'e' || c = 'E' then
          let (sign, rest) := match rest with
            | .char '-' :: more => (-1, more)
            | .char '+' :: more => (1, more)
            | _ => ((1 : Int), rest)
          let digits := rest.takeWhile isAsciiDigit
          if digits.isEmpty then none
          else some (sign * (digitsValue digits : Int), rest.drop digits.length)
        else none
      | _ => none
    match fraction, power with
    | [], none => do
      let n ← Read.numeral (Numeral.integer 10 whole)
      return (.int (if negative then -n else n), t)
    | _, _ =>
      let (e, t) := power.getD (0, t)
      .ok (.decimal (.ofNumeral negative (digitsValue (whole ++ fraction)) (e - fraction.length)), t)

/-- Words that are scalars. -/
def words : List (Text × Scalar) :=
  [("null", .null), ("true", .bool true), ("false", .bool false), ("NaN", .decimal .notANumber),
    ("Infinity", .decimal (.infinite false)), ("-Infinity", .decimal (.infinite true))]

def readScalar (t : Text) : Read (Scalar × Text) :=
  match words.find? fun (word, _) => word.isPrefixOf t with
  | some (word, s) => .ok (s, t.drop word.length)
  | none => readNumber t

/-- How many lists and mappings may be inside each other. -/
def mostDepth : Nat := 988

mutual

/-- A value at a depth. -/
def readValue (depth : Nat) : (fuel : Nat) → Text → Read (Value × Text)
  | 0, _ => Read.malformed
  | _ + 1, .char '"' :: rest => do
    let (t, rest) ← Read.ofOption (string? (rest.length + 1) rest)
    return (.text t, rest)
  | fuel + 1, .char '[' :: rest => do
    if depth = mostDepth then throw .listTooDeep
    match skipGaps rest with
    | .char ']' :: rest => return (.list [], rest)
    | rest =>
      let (items, rest) ← readItems (depth + 1) fuel rest
      return (.list items, rest)
  | fuel + 1, .char '\x7b' :: rest => do
    if depth = mostDepth then throw .mapTooDeep
    match skipGaps rest with
    | .char '\x7d' :: rest => return (.map [], rest)
    | rest =>
      let (entries, rest) ← readEntries (depth + 1) fuel [] rest
      return (.map entries, rest)
  | _ + 1, t => do
    let (s, rest) ← readScalar t
    return (.scalar s, rest)

/-- The items of a list up to its closing bracket. -/
def readItems (depth : Nat) : (fuel : Nat) → Text → Read (List Value × Text)
  | 0, _ => Read.malformed
  | fuel + 1, t => do
    let (item, rest) ← readValue depth fuel t
    match skipGaps rest with
    | .char ',' :: rest =>
      let (more, rest) ← readItems depth fuel (skipGaps rest)
      return (item :: more, rest)
    | .char ']' :: rest => return ([item], rest)
    | _ => Read.malformed

/-- The entries of a mapping up to its closing brace, `seen` being read already. -/
def readEntries (depth : Nat) : (fuel : Nat) → List (Scalar × Value) → Text →
    Read (List (Scalar × Value) × Text)
  | 0, _, _ => Read.malformed
  | fuel + 1, seen, .char '"' :: rest => do
    let (name, rest) ← Read.ofOption (string? (rest.length + 1) rest)
    match skipGaps rest with
    | .char ':' :: rest =>
      let (value, rest) ← readValue depth fuel (skipGaps rest)
      let seen := Entries.insert (.text name) value seen
      match skipGaps rest with
      | .char ',' :: rest => readEntries depth fuel seen (skipGaps rest)
      | .char '\x7d' :: rest => return (seen, rest)
      | _ => Read.malformed
    | _ => Read.malformed
  | _ + 1, _, _ => Read.malformed

end

/-- The value of a document that holds nothing else. -/
def read (t : Text) : Read Value := do
  let (value, rest) ← readValue 0 (2 * t.length + 2) (skipGaps t)
  if (skipGaps rest).isEmpty then return value else Read.malformed

end HouseStyle.Json
