import HouseStyle.Value.SetOrder
import HouseStyle.Yaml.Content
import HouseStyle.Yaml.Merge

/-! Reading YAML documents as values. A node is met when the one around it is opened: a scalar must
make sense at once, but lists and mappings wait until all that came before them are opened. So of
several errors the outermost one counts. -/

namespace HouseStyle.Yaml

structure Reading where
  nodes : Array Node
  /-- The nodes that have been met, with the parts of those that are open. -/
  met : Array (Option Cell)
  /-- Lists and mappings that are not open yet, the last one first. -/
  waiting : List Nat := []

abbrev NodeReader := StateT Reading Read

namespace Reading

def node (number : Nat) : NodeReader Node := return nodeAt (← get).nodes number

def know (number : Nat) (c : Cell) : NodeReader Unit :=
  modify fun r => { r with met := r.met.modify number fun _ => some c }

/-- The text of a scalar. A mapping stands for the scalar that its plain value is. -/
def textOf (nodes : Array Node) : (fuel : Nat) → Nat → Read Text
  | 0, _ => .error .tooDeep
  | fuel + 1, number =>
    match (nodeAt nodes number).form with
    | .scalar t => .ok t
    | .list _ => Read.malformed
    | .map entries =>
      match entries.find? fun (key, _) => (nodeAt nodes key).tag = .value with
      | some (_, value) => textOf nodes fuel value
      | none => Read.malformed

/-- The scalar of a node whose tag is one for scalars. A time is read only where it is written. -/
def scalarOf (nodes : Array Node) (number : Nat) : Read Scalar := do
  let node := nodeAt nodes number
  let t ← textOf nodes (nodes.size + 1) number
  match node.tag, node.form with
  | .timestamp, .map _ => throw .timeInParts
  | tag, _ => Content.scalar tag t

/-- Meets a node, and returns its scalar if it is one. -/
def meet (number : Nat) : NodeReader (Option Scalar) := do
  match (← get).met.getD number none with
  | some (.scalar s) => return some s
  | some _ => return none
  | none =>
    match (← node number).tag with
    | .seq | .map | .omap | .pairs | .set =>
      know number (.list [])
      modify fun r => { r with waiting := number :: r.waiting }
      return none
    | .merge | .value | .other _ => throw .malformed
    | _ =>
      let s ← scalarOf (← get).nodes number
      know number (.scalar s)
      return some s

/-! ### Opening lists and mappings -/

def items (number : Nat) : NodeReader (List Nat) := do
  match (← node number).form with
  | .list items => return items
  | _ => throw .malformed

/-- The entries of a mapping. Their keys are scalars. -/
def entries (number : Nat) : NodeReader (List (Scalar × Nat)) := do
  match (← node number).form with
  | .map _ =>
    let nodes ← flattened (← get).nodes number
    modify ({ · with nodes })
    match (nodeAt nodes number).form with
    | .map entries =>
      entries.mapM fun (key, value) => do
        match ← meet key with
        | none => throw .malformed
        | some s =>
          let _ ← meet value
          return (s, value)
    | _ => throw .malformed
  | _ => throw .malformed

/-- A key and its value, from a mapping of nothing else. -/
def pair (number : Nat) : NodeReader (Nat × Nat) := do
  match (← node number).form with
  | .map [(key, value)] =>
    let _ ← meet key
    let _ ← meet value
    return (key, value)
  | _ => throw .malformed

/-- Meets the parts of a list or mapping. -/
def openUp (number : Nat) : NodeReader Unit := do
  match (← node number).tag with
  | .seq =>
    let items ← items number
    items.forM fun item => do let _ ← meet item
    know number (.list items)
  | .omap | .pairs => know number (.pairs (← (← items number).mapM pair))
  | .set =>
    let keys := (← entries number).map fun (key, _) => (key, ())
    know number (.set (Scalar.setOrder ((Entries.update [] keys).map Prod.fst)))
  | _ => know number (.map (Entries.update [] (← entries number)))

def openAll : (fuel : Nat) → NodeReader Unit
  | 0 => return ()
  | fuel + 1 => do
    match (← get).waiting with
    | [] => return ()
    | waiting =>
      modify ({ · with waiting := [] })
      waiting.reverse.forM openUp
      openAll fuel

end Reading

/-- The value of a document; `null` where it is empty. -/
def Document.value (d : Document) : Read Value := do
  match d.top with
  | none => return .null
  | some top =>
    let size := d.nodes.size
    let start : Reading := { nodes := d.nodes, met := Array.replicate size none }
    let (_, r) ← (do
      let _ ← Reading.meet top
      Reading.openAll (size + 1) : NodeReader Unit).run start
    return .ofCells (r.met.map fun c => c.getD default) top

/-! ### Symbols -/

/-- Symbols that a document may hold. -/
def isAllowed (s : Sym) : Bool :=
  match s with
  | .char c =>
    let n := c.toNat
    n = 9 || n = 10 || n = 13 || (0x20 ≤ n && n ≤ 0x7E) || n = 0x85 ||
      (0xA0 ≤ n && n ≤ 0xFFFD) || 0x10000 ≤ n
  | _ => false

/-- Line breaks in one form. -/
def unifyBreaks : Text → Text
  | [] => []
  | .char '\r' :: .char '\n' :: rest => .char '\n' :: unifyBreaks rest
  | s :: rest => (if s.is '\r' then .char '\n' else s) :: unifyBreaks rest

/-- The value of a text with at most one document. -/
def read (t : Text) : Read Value := do
  let t := unifyBreaks t
  if t.all isAllowed then (← Document.ofText t).value else Read.malformed

end HouseStyle.Yaml
