import HouseStyle.Fault
import HouseStyle.Files.Path
import HouseStyle.Text.Utf8

/-! A tree of files with a home directory, where relative paths begin. Reading and writing fail as
they do on disk: names may be missing or too long, directories are no files, and some files cannot
be opened for writing. -/

namespace HouseStyle

inductive FileNode where
  | file (bytes : List UInt8)
  | directory (entries : List (Text × FileNode))
  /-- A device that holds nothing and takes everything. -/
  | sink
  deriving Repr, Inhabited

namespace FileNode

def isDirectory : FileNode → Bool
  | directory _ => true
  | file _ | sink => false

def entries : FileNode → List (Text × FileNode)
  | directory entries => entries
  | file _ | sink => []

/-- The node below a node along some names. -/
def find? (n : FileNode) : List Text → Option FileNode
  | [] => some n
  | name :: rest => (n.entries.lookup name).bind fun below => below.find? rest

/-- Puts a node under a name, in its place if the name is there. -/
def insertEntry (name : Text) (n : FileNode) : List (Text × FileNode) → List (Text × FileNode)
  | [] => [(name, n)]
  | (k, old) :: rest => if k = name then (k, n) :: rest else (k, old) :: insertEntry name n rest

/-- Puts a node along some names; directories on the way are made where nothing is. -/
def insert (n new : FileNode) : List Text → FileNode
  | [] => new
  | name :: rest =>
    let below := (n.entries.lookup name).getD (directory [])
    directory (insertEntry name (below.insert new rest) n.entries)

mutual

/-- The files below a node, with the names that lead to them. -/
def files : FileNode → List (List Text × List UInt8)
  | file bytes => [([], bytes)]
  | directory entries => filesOf entries
  | sink => []

def filesOf : List (Text × FileNode) → List (List Text × List UInt8)
  | [] => []
  | (name, n) :: rest => (files n).map (fun (names, bytes) => (name :: names, bytes)) ++ filesOf rest

end

end FileNode

structure FileTree where
  root : FileNode := .directory []
  /-- The names that lead from the root to the home directory. -/
  home : List Text := []
  /-- Places of files that cannot be opened for writing. -/
  sealed_ : List (List Text) := []
  deriving Inhabited

namespace FileTree

/-- A node as the home directory. Beside the directories that lead to it there is only the device
that takes everything. -/
def ofHome (home : List Text) (n : FileNode) : FileTree :=
  { root := ((FileNode.directory []).insert n home).insert .sink ["dev", "null"], home }

def homeNode (t : FileTree) : FileNode := (t.root.find? t.home).getD (.directory [])

/-! ### Looking up -/

/-- The most bytes of a name, and of a path. -/
def longestName : Nat := 255

def longestPath : Nat := 4095

def isTooLong (limit : Nat) (t : Text) : Bool := limit < (Text.encode t).length

/-- A path must not hold a half of a character or a zero, nor be empty or too long. -/
def checkPath (path : Text) : Except FileError Unit :=
  if let some what := Unwritable.first? Sym.isHalf path then .error (.unwritable what)
  else if path.contains (.char '\x00') then .error .zeroByte
  else if path.isEmpty then .error (.notFound path)
  else if isTooLong longestPath path then .error (.nameTooLong path)
  else .ok ()

/-- The node at some names from the root, which must be a directory. -/
def directoryAt (t : FileTree) (path : Text) (names : List Text) : Except FileError Unit :=
  match t.root.find? names with
  | none => .error (.notFound path)
  | some n => if n.isDirectory then .ok () else .error (.notDirectory path)

/-- Follows the parts of a path. Whatever has a part after it must be a directory. -/
def follow (t : FileTree) (path : Text) (names : List Text) :
    List Text → Except FileError (List Text × FileNode)
  | [] =>
    match t.root.find? names with
    | some n => .ok (names, n)
    | none => .error (.notFound path)
  | part :: rest => do
    t.directoryAt path names
    if part.isEmpty || part = Path.dot then t.follow path names rest
    else if isTooLong longestName part then throw (.nameTooLong path)
    else t.follow path (Path.step names part) rest

/-- Where a path begins. -/
def start (t : FileTree) (path : Text) : List Text := if Path.isAbsolute path then [] else t.home

/-- What a path leads to, and the names on the way from the root. -/
def locate (t : FileTree) (path : Text) : Except FileError (List Text × FileNode) := do
  checkPath path
  t.follow path (t.start path) (Path.parts path)

def exists_ (t : FileTree) (path : Text) : Bool := (t.locate path).isOk

/-- What a path leads to, if anything. A name that is too long cannot be looked up at all. -/
def node? (t : FileTree) (path : Text) : Except FileError (Option FileNode) :=
  match t.locate path with
  | .ok (_, n) => .ok (some n)
  | .error (.nameTooLong path) => .error (.nameTooLong path)
  | .error _ => .ok none

def read (t : FileTree) (path : Text) : Except FileError (List UInt8) :=
  match t.locate path with
  | .ok (_, .file bytes) => .ok bytes
  | .ok (_, .sink) => .ok []
  | .ok (_, .directory _) => .error (.isDirectory path)
  | .error e => .error e

/-! ### Writing -/

/-- The parts of a path before the last one, the last one, and whether a slash follows it. -/
def splitPath (path : Text) : List Text × Text × Bool :=
  let back := (Path.parts path).reverse
  match back.dropWhile List.isEmpty with
  | last :: above => (above.reverse, last, (back.head?.map List.isEmpty).getD false)
  | [] => ([], [], true)

/-- The place of a file to be written, which need not exist, but its directory must. -/
def placeToWrite (t : FileTree) (path : Text) : Except FileError (List Text) := do
  checkPath path
  let (above, name, slashed) := splitPath path
  let (names, _) ← t.follow path (t.start path) above
  t.directoryAt path names
  if slashed || name = Path.dot || name = Path.dotDot then throw (.isDirectory path)
  if isTooLong longestName name then throw (.nameTooLong path)
  return names ++ [name]

/-- Writes a file whose directory exists. -/
def write (t : FileTree) (path : Text) (bytes : List UInt8) : Except FileError FileTree := do
  let names ← t.placeToWrite path
  match t.root.find? names with
  | some (.directory _) => throw (.isDirectory path)
  | some .sink => return t
  | _ =>
    if t.sealed_.contains names then throw (.denied path)
    else return { t with root := t.root.insert (.file bytes) names }

/-- Puts a file at a path, with the directories that lead to it. -/
def put (t : FileTree) (path : Text) (bytes : List UInt8) : FileTree :=
  { t with root := t.root.insert (.file bytes) (Path.namesFrom t.home path) }

/-- All files of the home directory, with their paths from there. -/
def files (t : FileTree) : List (Text × List UInt8) :=
  t.homeNode.files.map fun (names, bytes) => (Text.joinWith [Path.slash] names, bytes)

end FileTree
end HouseStyle
