import HouseStyle.Config.Basic
import HouseStyle.Files.Glob
import HouseStyle.Files.Tree

/-! Which files a run covers. A target that is a file is covered itself. Below a directory those
files are covered that have a configured extension, match no exclude pattern and some include
pattern, and are neither too large nor binary. The files of a directory come by name before those
of its directories, and an excluded directory is not entered. -/

namespace HouseStyle.Discovery

/-! ### Patterns -/

/-- Whether a pattern matches one of two names; the pattern must be a text. -/
def matchesOne (pattern : Value) (path name : Text) : Try Bool :=
  match pattern with
  | .text p => .ok (Glob.matches_ p path || Glob.matches_ p name)
  | .scalar (.bytes _) => .error (.badArgument "cannot use a bytes pattern on a string-like object")
  | v => .error (.notPath v.kindWord)

/-- Whether one of some patterns matches a path or a name. Patterns after the first match are not
looked at. -/
def matchesAny (path name : Text) : List Value → Try Bool
  | [] => .ok false
  | pattern :: rest => do
    if ← matchesOne pattern path name then return true else matchesAny path name rest

def relative (tree : FileTree) (path base : Text) : Try Text :=
  if path.isEmpty then .error .emptyPath else .ok (Path.relative tree.home path base)

def ignoresFile (config : Config) (tree : FileTree) (path base : Text) : Try Bool := do
  let shown ← relative tree path base
  matchesAny shown (Path.baseName path) (← config.excludePatterns.itemsOrFault)

/-- Patterns match directories with a slash at the end. -/
def ignoresDirectory (config : Config) (tree : FileTree) (path base : Text) : Try Bool := do
  let shown ← relative tree path base
  matchesAny (shown ++ [Path.slash]) (Path.baseName path ++ [Path.slash])
    (← config.excludePatterns.itemsOrFault)

/-- Without include patterns every file is included. -/
def includesFile (config : Config) (tree : FileTree) (path base : Text) : Try Bool := do
  if config.includePatterns.isTrue then
    let shown ← relative tree path base
    matchesAny shown (Path.baseName path) (← config.includePatterns.itemsOrFault)
  else return true

/-! ### Contents -/

/-- Control characters that occur in texts, and everything that is no control character. -/
def isTextByte (b : UInt8) : Bool :=
  let n := b.toNat
  n = 7 || n = 8 || n = 9 || n = 10 || n = 12 || n = 13 || n = 27 || (0x20 ≤ n && n ≠ 0x7F)

/-- A file is binary if its beginning holds a zero byte, or more than three tenths of it are
controls that no text has. -/
def isBinary (bytes : List UInt8) : Bool :=
  let chunk := bytes.take 1024
  chunk.contains 0 || 3 * chunk.length < 10 * chunk.countP fun b => !isTextByte b

/-- Whether a file is binary; one that cannot be read is not. -/
def isBinaryFile (tree : FileTree) (path : Text) : Try Bool :=
  match tree.read path with
  | .ok bytes => .ok (isBinary bytes)
  | .error e => if e.isRefusal then .ok false else .error (.file e)

/-! ### Files below a directory -/

/-- The configured extensions in lower case. Bytes are none, but may stand among them. -/
def extensions (config : Config) : Try (List Text) := do
  let extensions ← (← config.extensions.itemsOrFault).mapM fun
    | .text t => .ok [Text.lower t]
    | .scalar (.bytes _) => .ok []
    | v => .error (.noAttribute v.kindName "lower")
  return extensions.flatten

/-- Whether a file below a directory is covered. -/
def covers (config : Config) (tree : FileTree) (base : Text) (extensions : List Text)
    (path : Text) (bytes : List UInt8) : Try Bool := do
  if !extensions.contains (Text.lower (Path.extension_ (Path.baseName path))) then return false
  else if ← ignoresFile config tree path base then return false
  else if !(← includesFile config tree path base) then return false
  else if ← config.maxFileSize.exceededBy bytes.length then return false
  else return !isBinary bytes

/-- The entries of a directory by name. -/
def byName {α : Type} (entries : List (Text × α)) : List (Text × α) :=
  entries.mergeSort fun a b => Text.le a.1 b.1

variable (config : Config) (tree : FileTree) (base : Text) (extensions : List Text)

/-- The covered ones of some files in a directory, by name. -/
def filesIn (path : Text) : List (Text × FileNode) → Try (List (Text × Text))
  | [] => .ok []
  | (name, .file bytes) :: rest => do
    let file := Path.join path name
    let covered ← covers config tree base extensions file bytes
    let others ← filesIn path rest
    return if covered then (name, file) :: others else others
  | _ :: rest => filesIn path rest

mutual

/-- The covered files below a node: those in a directory itself, then those of its directories. -/
def below (path : Text) : FileNode → Try (List Text)
  | .file _ | .sink => .ok []
  | .directory entries => do
    let inside ← belowEach path entries
    let here ← filesIn config tree base extensions path entries
    return (byName here).map Prod.snd ++ ((byName inside).map Prod.snd).flatten

/-- The covered files below each directory among some entries, under its name. -/
def belowEach (path : Text) : List (Text × FileNode) → Try (List (Text × List Text))
  | [] => .ok []
  | (_, .file _) :: rest | (_, .sink) :: rest => belowEach path rest
  | (name, .directory entries) :: rest => do
    let directory := Path.join path name
    let ignored ← ignoresDirectory config tree directory base
    let others ← belowEach path rest
    if ignored then return others
    else return (name, ← below directory (.directory entries)) :: others

end

end Discovery

/-- The files that a run on a target covers. -/
def discover (config : Config) (tree : FileTree) (target : Text) : Try (List Text) :=
  let top := Path.tidy target
  match tree.node? top with
  | .error e => .error (.file e)
  | .ok (some (.file _)) => .ok [top]
  | .ok (some n) => do
    let extensions ← Discovery.extensions config
    Discovery.below config tree target extensions top n
  | .ok none => do
    let _ ← Discovery.extensions config
    if top.contains (.char '\x00') then throw (.file .zeroByte) else return []

end HouseStyle
