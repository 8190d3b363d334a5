import HouseStyle.Value.Basic

/-! JSON documents in ASCII. Symbols beyond it are written as escapes of UTF-16 units, a stray
byte as the lone unit `\udc80` and up. A layout is compact or indented. Values that JSON has no form
for are told apart first; the writer shows them as texts. -/

namespace HouseStyle.Json

def unit (n : Nat) : Text := .char '\\' :: .char 'u' :: Text.hexDigits 4 n

def escape (s : Sym) : Text :=
  if s.is '"' || s.is '\\' then [.char '\\', s]
  else if s.is '\n' then "\\n"
  else if s.is '\r' then "\\r"
  else if s.is '\t' then "\\t"
  else if s.code = 8 then "\\b"
  else if s.code = 12 then "\\f"
  else if s.code < 0x20 then unit s.code
  else if s.code < 0x7F then [s]
  else if s.code < 0x10000 then unit s.code
  else unit (0xD800 + (s.code - 0x10000) / 0x400) ++ unit (0xDC00 + (s.code - 0x10000) % 0x400)

def string (t : Text) : Text := .char '"' :: t.flatMap escape ++ [.char '"']

def scalar : Scalar → Text
  | .null => "null"
  | .bool b => if b then "true" else "false"
  | .int n => Text.ofInt n
  | .decimal x => x.textWith "Infinity" "NaN"
  | .text t => string t
  | s => string (Value.scalar s).asText

/-- The name of an entry. Keys that are no texts are written as texts. -/
def key : Scalar → Text
  | .text t => string t
  | s => string (scalar s)

/-- Where items start: on lines of their own, indented by some text for each level, or all on one
line. -/
structure Layout where
  indent : Option Text
  depth : Nat := 0

namespace Layout

def deeper (layout : Layout) : Layout := { layout with depth := layout.depth + 1 }

def newline (layout : Layout) : Text :=
  match layout.indent with
  | none => []
  | some step => .char '\n' :: (List.replicate layout.depth step).flatten

def separator (layout : Layout) : Text :=
  match layout.indent with
  | none => ", "
  | some _ => .char ',' :: layout.newline

/-- Items between brackets, each on a line of its own where the layout is indented. -/
def group (layout : Layout) (open_ close : Char) (items : List Text) : Text :=
  if items.isEmpty then [.char open_, .char close]
  else .char open_ :: layout.deeper.newline ++ Text.joinWith layout.deeper.separator items ++
    layout.newline ++ [.char close]

end Layout

mutual

def writeAt (layout : Layout) : Value → Text
  | .scalar s => scalar s
  | .list items | .tuple items => layout.group '[' ']' (writeItems layout.deeper items)
  | .map entries => layout.group '\x7b' '\x7d' (writeEntries layout.deeper entries)
  | .set members => string (Value.set members).shown
  | .knot cells n => string (cells.shown n)

def writeItems (layout : Layout) : List Value → List Text
  | [] => []
  | item :: rest => writeAt layout item :: writeItems layout rest

def writeEntries (layout : Layout) : List (Scalar × Value) → List Text
  | [] => []
  | (k, value) :: rest => (key k ++ ": " ++ writeAt layout value) :: writeEntries layout rest

end

/-! ### Values without a form -/

/-- What JSON has no form for. -/
inductive Lack where
  | value (kind : Text)
  | key (kind : Text)
  | circle
  deriving DecidableEq, Repr

def Lack.message : Lack → Text
  | value kind => "Object of type " ++ kind ++ " is not JSON serializable"
  | key kind => "keys must be str, int, float, bool or None, not " ++ kind
  | circle => "Circular reference detected"

def hasForm : Scalar → Bool
  | .bytes _ | .date _ | .moment _ => false
  | _ => true

def lackOfScalar? (s : Scalar) : Option Lack :=
  if hasForm s then none else some (.value (Value.scalar s).kindWord)

def lackOfKey? (key : Scalar) : Option Lack :=
  if hasForm key then none else some (.key (Value.scalar key).kindWord)

/-- The first part of a cell that JSON has no form for: a cell that stands around itself has none. No
way down is longer than there are cells. -/
def lackInside? (cells : Cells) : (fuel : Nat) → (around : List Nat) → Nat → Option Lack
  | 0, _, _ => some .circle
  | fuel + 1, around, number =>
    if around.contains number then some .circle
    else
      let part := lackInside? cells fuel (number :: around)
      match cells.at_ number with
      | .scalar s => lackOfScalar? s
      | .set _ => some (.value "set")
      | .list items => items.findSome? part
      | .pairs items => items.findSome? fun (a, b) => part a <|> part b
      | .map entries => entries.findSome? fun (key, n) => lackOfKey? key <|> part n

mutual

/-- The first part of a value that JSON has no form for. -/
def lack? : Value → Option Lack
  | .scalar s => lackOfScalar? s
  | .list items | .tuple items => lackInItems? items
  | .set _ => some (.value "set")
  | .map entries => lackInEntries? entries
  | .knot cells n => lackInside? cells (cells.size + 1) [] n

def lackInItems? : List Value → Option Lack
  | [] => none
  | item :: rest => lack? item <|> lackInItems? rest

def lackInEntries? : List (Scalar × Value) → Option Lack
  | [] => none
  | (key, value) :: rest => lackOfKey? key <|> lack? value <|> lackInEntries? rest

end

def write (indent : Option Text) (value : Value) : Text := writeAt ⟨indent, 0⟩ value

end HouseStyle.Json
