import HouseStyle.Yaml.Node

/-! Merged entries. An entry of a mapping whose key has the tag for it stands for the entries of its
value: a mapping, or a list of mappings, of which the first one counts most. They come before the
entries of the mapping itself, which count more. Mappings lose such entries in place, so a mapping
may be merged into itself. -/

namespace HouseStyle.Yaml

/-- The node of a number; all numbers in a document have one. -/
def nodeAt (nodes : Array Node) (number : Nat) : Node := nodes.getD number default

def Form.size : Form → Nat
  | .scalar _ => 0
  | .list items => items.length
  | .map entries => entries.length

namespace Merge

abbrev Merger := StateT (Array Node) Read

def entriesOf (number : Nat) : Merger (List (Nat × Nat)) := do
  match (nodeAt (← get) number).form with
  | .map entries => return entries
  | _ => throw .malformed

def setEntries (number : Nat) (entries : List (Nat × Nat)) : Merger Unit :=
  modify fun nodes => nodes.modify number ({ · with form := .map entries })

/-- Takes the first merged entry out of a mapping. -/
def takeFirst? (number : Nat) : Merger (Option Nat) := do
  let nodes ← get
  let entries ← entriesOf number
  match entries.span fun (key, _) => (nodeAt nodes key).tag ≠ .merge with
  | (_, []) => return none
  | (before, (_, value) :: after) =>
    setEntries number (before ++ after)
    return some value

/-- The key for a value by itself is a text like others in a mapping that is one. -/
def asText (key : Nat) : Merger Unit :=
  modify fun nodes => nodes.modify key fun n => if n.tag = .value then { n with tag := .str } else n

mutual

/-- Takes all merged entries out of a mapping and returns what they stand for. -/
def takeAll : (fuel : Nat) → Nat → Merger (List (Nat × Nat))
  | 0, _ => throw .tooDeep
  | fuel + 1, number => do
    match ← takeFirst? number with
    | none => return []
    | some value =>
      let here ← entriesFrom fuel value
      return here ++ (← takeAll fuel number)

def entriesFrom : (fuel : Nat) → Nat → Merger (List (Nat × Nat))
  | 0, _ => throw .tooDeep
  | fuel + 1, value => do
    match (nodeAt (← get) value).form with
    | .list items => return (← entriesFromAll fuel items).reverse.flatten
    | _ =>
      flatten fuel value
      entriesOf value

def entriesFromAll : (fuel : Nat) → List Nat → Merger (List (List (Nat × Nat)))
  | 0, _ => throw .tooDeep
  | _ + 1, [] => return []
  | fuel + 1, item :: rest => do
    flatten fuel item
    let here ← entriesOf item
    return here :: (← entriesFromAll fuel rest)

/-- Puts the entries that a mapping merges before its own ones. -/
def flatten : (fuel : Nat) → Nat → Merger Unit
  | 0, _ => throw .tooDeep
  | fuel + 1, number => do
    let merged ← takeAll fuel number
    let own ← entriesOf number
    own.forM fun (key, _) => asText key
    setEntries number (merged ++ own)

end

/-- Enough for all mappings: every step that goes deeper takes an entry out or passes an item. -/
def fuel (nodes : Array Node) : Nat :=
  let size := nodes.foldl (fun n node => n + node.form.size) 0
  (size + 1) * (size + 4)

end Merge

/-- The nodes after the merged entries of one mapping are put in their places. -/
def flattened (nodes : Array Node) (number : Nat) : Read (Array Node) := do
  let (_, nodes) ← (Merge.flatten (Merge.fuel nodes) number).run nodes
  return nodes

end HouseStyle.Yaml
