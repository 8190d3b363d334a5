import HouseStyle.Yaml.Lexeme
import HouseStyle.Yaml.Tag

/-! The nodes of a document. They have numbers, and an alias is the number that its anchor names; a
list or mapping has its number before its parts have theirs, so it may be a part of itself. -/

namespace HouseStyle.Yaml

inductive Form where
  | scalar (text : Text)
  | list (items : List Nat)
  | map (entries : List (Nat × Nat))
  deriving DecidableEq, Repr, Inhabited

structure Node where
  tag : Tag
  form : Form
  deriving DecidableEq, Repr, Inhabited

/-- The nodes of a document by their numbers, and the number of the outermost one, if there is any
node at all. -/
structure Document where
  nodes : Array Node := #[]
  top : Option Nat := none
  deriving Repr, Inhabited

namespace Document

/-- How many lists and mappings may be inside each other. -/
def mostDepth : Nat := 485

/-- What is left to read, what handles of tags stand for, the nodes so far, those that anchors
name, and how many lists and mappings are open. -/
structure Rest where
  lexemes : List Lexeme
  handles : List (Text × Text) := TagName.standardHandles
  nodes : Array Node := #[]
  anchors : List (Text × Nat) := []
  depth : Nat := 0

abbrev Reader := StateT Rest Read

def malformed {α : Type} : Reader α := throw .malformed

/-! ### Lexemes -/

def peek : Reader (Option Lexeme) := do
  match (← get).lexemes.head? with
  | some (.broken e) => throw e
  | l => return l

def drop : Reader Unit := modify fun r => { r with lexemes := r.lexemes.tail }

/-- Takes a lexeme if it comes next. -/
def take? (l : Lexeme) : Reader Bool := do
  if (← peek) = some l then
    drop
    return true
  else return false

def expect (l : Lexeme) : Reader Unit := do
  if ← take? l then return () else malformed

/-- Whether the next lexeme is one of some, or there is none. -/
def seesAny (ls : List Lexeme) : Reader Bool := do
  match ← peek with
  | none => return true
  | some l => return ls.contains l

/-! ### Properties -/

/-- What a node carries before its content. -/
structure Properties where
  anchor : Option Text := none
  tag : Option TagName := none

def Properties.isEmpty (p : Properties) : Bool := p.anchor.isNone && p.tag.isNone

/-- An anchor and a tag, in either order. -/
def properties : Reader Properties := do
  match ← peek with
  | some (.anchor a) =>
    drop
    match ← peek with
    | some (.tag t) =>
      drop
      return ⟨some a, some t⟩
    | _ => return ⟨some a, none⟩
  | some (.tag t) =>
    drop
    match ← peek with
    | some (.anchor a) =>
      drop
      return ⟨some a, some t⟩
    | _ => return ⟨none, some t⟩
  | _ => return {}

/-- The name in full of the tag that a node asks for. `!` by itself asks for none. -/
def askedTag (p : Properties) : Reader (Option Text) := do
  match p.tag with
  | none => return none
  | some tag => return some (← Read.ofOption (tag.full? (← get).handles))

/-- The tag of a scalar without a quote, or of one that asks for what it looks like. -/
def scalarTag (plain : Bool) (text : Text) : Option Text → Tag
  | none => if plain then Tag.ofLook text else .str
  | some name => if name = "!" then Tag.ofLook text else Tag.ofName name

/-- The tag of a list or mapping, which has a standard one. -/
def partsTag (standard : Tag) : Option Text → Tag
  | none => standard
  | some name => if name = "!" then standard else Tag.ofName name

/-! ### Nodes -/

/-- Adds a node, which aliases after it may stand for. -/
def add (anchor : Option Text) (n : Node) : Reader Nat := do
  let r ← get
  let number := r.nodes.size
  set { r with
    nodes := r.nodes.push n
    anchors := match anchor with
      | some a => (a, number) :: r.anchors
      | none => r.anchors }
  return number

/-- What stands where nothing is written. -/
def empty : Reader Nat := add none ⟨Tag.ofLook [], .scalar []⟩

/-- Adds a list or mapping, and then its parts. -/
def addParts (anchor : Option Text) (tag : Tag) (parts : Reader Form) : Reader Nat := do
  let number ← add anchor ⟨tag, .list []⟩
  let depth := (← get).depth
  if depth = mostDepth then throw .tooDeep
  modify ({ · with depth := depth + 1 })
  let form ← parts
  modify fun r => { r with depth, nodes := r.nodes.modify number ({ · with form }) }
  return number

def aliased (name : Text) : Reader Nat := do Read.ofOption ((← get).anchors.lookup name)

/-- Where a node stands decides which forms it may have. -/
inductive Place where
  | flow | block | blockOrDashes
  deriving DecidableEq, Repr

mutual

def node (place : Place) : (fuel : Nat) → Reader Nat
  | 0 => malformed
  | fuel + 1 => do
    match ← peek with
    | some (.alias_ name) =>
      drop
      aliased name
    | _ =>
      let p ← properties
      let tag ← askedTag p
      let known := (← get).anchors
      if p.anchor.any fun a => (known.lookup a).isSome then malformed
      else content place p.anchor tag fuel

/-- The node of what follows an anchor and a tag. -/
def content (place : Place) (anchor tag : Option Text) : (fuel : Nat) → Reader Nat
  | 0 => malformed
  | fuel + 1 => do
    let list (items : Reader (List Nat)) :=
      addParts anchor (partsTag .seq tag) (Form.list <$> items)
    let map (entries : Reader (List (Nat × Nat))) :=
      addParts anchor (partsTag .map tag) (Form.map <$> entries)
    let nothing :=
      if anchor.isNone && tag.isNone then malformed
      else add anchor ⟨scalarTag true [] tag, .scalar []⟩
    match ← peek with
    | some (.scalar plain text) =>
      drop
      add anchor ⟨scalarTag plain text tag, .scalar text⟩
    | some .openList =>
      drop
      list (flowItems true fuel)
    | some .openMap =>
      drop
      map (flowEntries true fuel)
    | some .dash => if place = .blockOrDashes then list (dashes fuel) else nothing
    | some .listStart =>
      if place = .flow then nothing
      else
        drop
        list (blockItems fuel)
    | some .mapStart =>
      if place = .flow then nothing
      else
        drop
        map (blockEntries fuel)
    | _ => nothing

/-- Items of a block list, up to the end of the block. -/
def blockItems : (fuel : Nat) → Reader (List Nat)
  | 0 => malformed
  | fuel + 1 => do
    if ← take? .dash then
      let item ← if ← seesAny [.dash, .blockEnd] then empty else node .block fuel
      return item :: (← blockItems fuel)
    else
      expect .blockEnd
      return []

/-- Items of a list that is not indented beyond its key. -/
def dashes : (fuel : Nat) → Reader (List Nat)
  | 0 => malformed
  | fuel + 1 => do
    if ← take? .dash then
      let item ← if ← seesAny [.dash, .key, .value, .blockEnd] then empty
        else node .block fuel
      return item :: (← dashes fuel)
    else return []

/-- Entries of a block mapping, up to the end of the block. -/
def blockEntries : (fuel : Nat) → Reader (List (Nat × Nat))
  | 0 => malformed
  | fuel + 1 => do
    if ← take? .key then
      let key ← blockPart fuel
      let value ← if ← take? .value then blockPart fuel else empty
      return (key, value) :: (← blockEntries fuel)
    else
      expect .blockEnd
      return []

def blockPart : (fuel : Nat) → Reader Nat
  | 0 => malformed
  | fuel + 1 => do
    if ← seesAny [.key, .value, .blockEnd] then empty else node .blockOrDashes fuel

/-- Items between brackets. An entry among them is a mapping of its own. -/
def flowItems (first : Bool) : (fuel : Nat) → Reader (List Nat)
  | 0 => malformed
  | fuel + 1 => do
    if ← take? .closeList then return []
    else
      unless first do expect .comma
      if ← take? .key then
        let entry ← addParts none .map do return .map [← flowEntry .closeList fuel]
        return entry :: (← flowItems false fuel)
      else if ← take? .closeList then return []
      else
        let item ← node .flow fuel
        return item :: (← flowItems false fuel)

def flowEntries (first : Bool) : (fuel : Nat) → Reader (List (Nat × Nat))
  | 0 => malformed
  | fuel + 1 => do
    if ← take? .closeMap then return []
    else
      unless first do expect .comma
      if ← take? .key then
        let entry ← flowEntry .closeMap fuel
        return entry :: (← flowEntries false fuel)
      else if ← take? .closeMap then return []
      else
        let key ← node .flow fuel
        return (key, ← empty) :: (← flowEntries false fuel)

/-- A key and its value between brackets, after the mark of the key. -/
def flowEntry (close : Lexeme) : (fuel : Nat) → Reader (Nat × Nat)
  | 0 => malformed
  | fuel + 1 => do
    let key ← if ← seesAny [.value, .comma, close] then empty else node .flow fuel
    if ← take? .value then
      let value ← if ← seesAny [.comma, close] then empty else node .flow fuel
      return (key, value)
    else return (key, ← empty)

end

/-! ### The document -/

/-- The directives before a document. Only the first version of the language is read, and each
handle is explained once. -/
def directives (versioned : Bool) (handles : List (Text × Text)) : (fuel : Nat) → Reader Unit
  | 0 => malformed
  | fuel + 1 => do
    match ← peek with
    | some (.directive d) =>
      drop
      match d with
      | .version major =>
        if versioned || major ≠ 1 then malformed else directives true handles fuel
      | .handle handle start =>
        if (handles.lookup handle).isSome then malformed
        else directives versioned ((handle, start) :: handles) fuel
      | .other => directives versioned handles fuel
    | _ =>
      expect .documentStart
      modify ({ · with handles := handles ++ TagName.standardHandles })

def isDirective : Lexeme → Bool
  | .directive _ => true
  | _ => false

def dropEnds : (fuel : Nat) → Reader Unit
  | 0 => malformed
  | fuel + 1 => do
    if ← take? .documentEnd then dropEnds fuel

/-- The number of the outermost node of the only document, if there is one. -/
def outermost (fuel : Nat) : Reader (Option Nat) := do
  match ← peek with
  | none => return none
  | some first =>
    let explicit := isDirective first || first = .documentStart
    if explicit then directives false [] fuel
    let isEmpty ← if explicit then do
        if (← peek).any isDirective then pure true
        else seesAny [.documentStart, .documentEnd]
      else pure false
    let number ← if isEmpty then empty else node .block fuel
    dropEnds fuel
    if (← peek).isSome then malformed else return some number

end Document

/-- The nodes of a text. -/
def Document.ofText (t : Text) : Read Document := do
  let lexemes := lexemes t
  let (top, rest) ← (Document.outermost (4 * lexemes.length + 4)).run { lexemes }
  return { nodes := rest.nodes, top }

end HouseStyle.Yaml
