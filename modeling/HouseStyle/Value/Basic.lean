import HouseStyle.Value.Cell

/-! Data values: what configuration files, rule options and report documents are made of. The
keys of a mapping are scalars, and its entries keep their order. A value that contains itself is a
knot of cells, of which one layer at a time can be opened. -/

namespace HouseStyle

inductive Value where
  | scalar (s : Scalar)
  | list (items : List Value)
  | tuple (items : List Value)
  | set (members : List Scalar)
  | map (entries : List (Scalar × Value))
  /-- The value of a cell that contains itself. -/
  | knot (cells : Cells) (number : Nat)
  deriving Repr, Inhabited

namespace Value

@[match_pattern] abbrev null : Value := .scalar .null
@[match_pattern] abbrev bool (b : Bool) : Value := .scalar (.bool b)
@[match_pattern] abbrev int (n : Int) : Value := .scalar (.int n)
@[match_pattern] abbrev decimal (x : Decimal) : Value := .scalar (.decimal x)
@[match_pattern] abbrev text (t : Text) : Value := .scalar (.text t)

instance : Coe Text Value := ⟨Value.text⟩

def nat (n : Nat) : Value := .int n

def texts (ts : List Text) : Value := .list (ts.map .text)

/-- A mapping with text keys. -/
def record (fields : List (Text × Value)) : Value :=
  .map (fields.map fun (key, value) => (.text key, value))

/-! ### Equality -/

mutual

def same : Value → Value → Bool
  | .scalar s, .scalar t => s = t
  | .list items, .list others => sameItems items others
  | .tuple items, .tuple others => sameItems items others
  | .set members, .set others => members = others
  | .map entries, .map others => sameEntries entries others
  | .knot cells n, .knot others m => cells = others && n = m
  | _, _ => false

def sameItems : List Value → List Value → Bool
  | [], [] => true
  | item :: rest, other :: others => same item other && sameItems rest others
  | _, _ => false

def sameEntries : List (Scalar × Value) → List (Scalar × Value) → Bool
  | [], [] => true
  | (key, value) :: rest, (otherKey, other) :: others =>
    key = otherKey && same value other && sameEntries rest others
  | _, _ => false

end

mutual

theorem same_iff : (v w : Value) → (same v w = true ↔ v = w)
  | .scalar _, w => by cases w <;> simp [same]
  | .list items, w => by cases w <;> simp [same, sameItems_iff items]
  | .tuple items, w => by cases w <;> simp [same, sameItems_iff items]
  | .set _, w => by cases w <;> simp [same]
  | .map entries, w => by cases w <;> simp [same, sameEntries_iff entries]
  | .knot _ _, w => by cases w <;> simp [same]

theorem sameItems_iff : (xs ys : List Value) → (sameItems xs ys = true ↔ xs = ys)
  | [], ys => by cases ys <;> simp [sameItems]
  | x :: xs, ys => by cases ys <;> simp [sameItems, same_iff x, sameItems_iff xs]

theorem sameEntries_iff :
    (es fs : List (Scalar × Value)) → (sameEntries es fs = true ↔ es = fs)
  | [], fs => by cases fs <;> simp [sameEntries]
  | (key, value) :: es, fs => by
    cases fs <;> simp [sameEntries, same_iff value, sameEntries_iff es, Prod.ext_iff]

end

instance : DecidableEq Value := fun v w => decidable_of_iff _ (same_iff v w)

/-! ### Values of cells -/

/-- A cell as a value, its parts by their numbers. -/
def ofCell {m : Type → Type} [Monad m] (part : Nat → m Value) : Cell → m Value
  | .scalar s => return .scalar s
  | .list items => return .list (← items.mapM part)
  | .pairs items => return .list (← items.mapM fun (a, b) => return .tuple [← part a, ← part b])
  | .set members => return .set members
  | .map entries => return .map (← entries.mapM fun (key, n) => return (key, ← part n))

/-- The value of a cell that comes to an end, and all values that were found on the way. There is
none for a cell with one inside that contains itself: no other way down is longer than there are
cells. -/
def tree? (cells : Cells) : (fuel : Nat) → Nat → StateT (Array (Option Value)) Option Value
  | 0, _ => failure
  | fuel + 1, number => do
    match (← get).getD number none with
    | some v => return v
    | none =>
      let v ← ofCell (tree? cells fuel) (cells.at_ number)
      modify fun known => known.modify number fun _ => some v
      return v

/-- The value of a cell, down to the cells that contain themselves. -/
def layered (cells : Cells) : (fuel : Nat) → Nat → Value
  | 0, number => .knot cells number
  | fuel + 1, number =>
    match (tree? cells (cells.size + 1) number).run' (Array.replicate cells.size none) with
    | some v => v
    | none =>
      if cells.containsItself number then .knot cells number
      else Id.run (ofCell (fun n => pure (layered cells fuel n)) (cells.at_ number))

def ofCells (cells : Cells) (number : Nat) : Value := layered cells (cells.size + 1) number

/-- A value whose kind and parts can be seen: of one that contains itself, the next layer. -/
def opened : Value → Value
  | .knot cells number => Id.run (ofCell (fun n => pure (ofCells cells n)) (cells.at_ number))
  | v => v

/-! ### Kinds -/

/-- The word for the kind of a value in messages. -/
def kindName : Value → Text
  | .scalar s => s.kindName
  | .list _ => "list"
  | .tuple _ => "tuple"
  | .set _ => "set"
  | .map _ => "dict"
  | .knot cells n => (cells.at_ n).kindName

/-- That word by itself, without what it belongs to. -/
def kindWord (v : Value) : Text :=
  match Text.cutAt? "." v.kindName with
  | some (_, word) => word
  | none => v.kindName

/-- Nothing, zero and whatever is empty count as false. -/
def isTrue : Value → Bool
  | .scalar s => s.isTrue
  | .list items | .tuple items => !items.isEmpty
  | .set members => !members.isEmpty
  | .map entries => !entries.isEmpty
  | .knot _ _ => true

/-- Whether a value may be looked up: a scalar, or a tuple of no other parts. -/
def isKey : Value → Bool
  | .scalar _ => true
  | .tuple items => items.all fun
    | .scalar _ => true
    | _ => false
  | _ => false

def isText : Value → Bool
  | .text _ => true
  | _ => false

/-- Whether a value is made of parts that can be counted. -/
def hasLength : Value → Bool
  | .scalar (.text _) | .scalar (.bytes _) => true
  | .scalar _ => false
  | _ => true

mutual

/-- Whether more than some number of lists and mappings are inside each other. A value that
contains itself has no bottom. -/
def isDeeper : Value → Nat → Bool
  | .scalar _, _ => false
  | .knot _ _, _ | .list _, 0 | .tuple _, 0 | .set _, 0 | .map _, 0 => true
  | .list items, n + 1 | .tuple items, n + 1 => anyDeeper items n
  | .set _, _ + 1 => false
  | .map entries, n + 1 => anyEntryDeeper entries n

def anyDeeper : List Value → Nat → Bool
  | [], _ => false
  | item :: rest, n => isDeeper item n || anyDeeper rest n

def anyEntryDeeper : List (Scalar × Value) → Nat → Bool
  | [], _ => false
  | (_, value) :: rest, n => isDeeper value n || anyEntryDeeper rest n

end

/-- Truth values count as the integers zero and one. -/
def asInt? : Value → Option Int
  | .bool b => some (if b then 1 else 0)
  | .int n => some n
  | _ => none

end Value

/-! ### Entries -/

/-- Why a value cannot be read as the entries of a mapping. -/
inductive EntriesError where
  | notIterable (kind : Text)
  /-- The item at a place is no sequence. -/
  | badItem (place : Nat)
  /-- The item at a place is a sequence of another length than two. -/
  | badLength (place length : Nat)
  /-- A key is no scalar. -/
  | badKey (kind : Text)
  deriving DecidableEq, Repr

def EntriesError.message : EntriesError → Text
  | notIterable kind => "'" ++ kind ++ "' object is not iterable"
  | badItem place =>
    "cannot convert dictionary update sequence element #" ++ Text.ofNat place ++ " to a sequence"
  | badLength place length =>
    "dictionary update sequence element #" ++ Text.ofNat place ++ " has length " ++
      Text.ofNat length ++ "; 2 is required"
  | badKey kind => "unhashable type: '" ++ kind ++ "'"

namespace Value

/-- The items that going through a value yields: of a list its elements, of a text its symbols,
of a mapping its keys. -/
def items? (v : Value) : Option (List Value) :=
  match v.opened with
  | .list items | .tuple items => some items
  | .set members => some (members.map .scalar)
  | .text t => some (t.map fun s => .text [s])
  | .scalar (.bytes bs) => some (bs.map fun b => .nat b.toNat)
  | .map entries => some (entries.map fun (key, _) => .scalar key)
  | _ => none

/-- A key and its value from the item at a place, which must have two parts. -/
def pair (place : Nat) (item : Value) : Except EntriesError (Scalar × Value) :=
  match item.items? with
  | none => .error (.badItem place)
  | some [.scalar key, value] => .ok (key, value)
  | some [key, _] => .error (.badKey key.kindName)
  | some parts => .error (.badLength place parts.length)

/-- The entries of a list of pairs, the first one at a place. -/
def pairs (place : Nat) : List Value → Except EntriesError (List (Scalar × Value))
  | [] => .ok []
  | item :: rest => do return (← pair place item) :: (← pairs (place + 1) rest)

/-- The entries of a mapping, or of a sequence of pairs. -/
def entries (v : Value) : Except EntriesError (List (Scalar × Value)) :=
  match v.opened with
  | .map entries => .ok entries
  | value =>
    match value.items? with
    | none => .error (.notIterable value.kindName)
    | some items => do return Entries.update [] (← pairs 0 items)

def field? (key : Text) (v : Value) : Option Value :=
  match v.opened with
  | .map entries => entries.lookup (.text key)
  | _ => none

end Value

/-! ### Text of a value -/

namespace Value

mutual

/-- A value in full, with texts in quotes. -/
def shown : Value → Text
  | .scalar s => s.shown
  | .list items => "[" ++ Text.joinWith ", " (shownItems items) ++ "]"
  | .tuple [item] => "(" ++ item.shown ++ ",)"
  | .tuple items => "(" ++ Text.joinWith ", " (shownItems items) ++ ")"
  | .set members => Scalar.shownSet members
  | .map entries => "\x7b" ++ Text.joinWith ", " (shownEntries entries) ++ "\x7d"
  | .knot cells n => cells.shown n

def shownItems : List Value → List Text
  | [] => []
  | item :: rest => item.shown :: shownItems rest

def shownEntries : List (Scalar × Value) → List Text
  | [] => []
  | (key, value) :: rest => (key.shown ++ ": " ++ value.shown) :: shownEntries rest

end

/-- A value as text: a text is itself, dates and moments have a form of their own, and all else is
shown. -/
def asText : Value → Text
  | .text t => t
  | .scalar (.date d) => d.text
  | .scalar (.moment m) => m.text
  | value => value.shown

end Value
end HouseStyle
