import HouseStyle.Config.Basic
import HouseStyle.Files.Tree
import HouseStyle.Json.Reader
import HouseStyle.Yaml.Reader

/-! Configuration files: where they are looked for, and how they are read. A file is JSON if its
name says so, and else YAML. -/

namespace HouseStyle.Config

/-- Names of configuration files; the first one that is there counts. -/
def fileNames : List Text :=
  [".stylescanner.yaml", ".stylescanner.yml", ".stylescanner.json", "stylescanner.yaml",
    "stylescanner.yml", "stylescanner.json"].map Text.ofString

/-- The first configuration file of a directory. -/
def fileIn? (tree : FileTree) (directory : List Text) : Option (List Text) :=
  (fileNames.find? fun name => (tree.root.find? (directory ++ [name])).isSome).map fun name =>
    directory ++ [name]

/-- The first configuration file on the way from a directory up to the root, which is given by the
names that lead to the directory, the last one first. -/
def fileAbove? (tree : FileTree) : List Text → Option (List Text)
  | [] => fileIn? tree []
  | name :: above => fileIn? tree (name :: above).reverse <|> fileAbove? tree above

/-- The place of the configuration file for a path: in its directory or in one above it. -/
def findFile (tree : FileTree) (path : Text) : Try (Option (List Text)) := do
  if path.contains (.char '\x00') then throw (.file .zeroByte)
  let names := Path.namesFrom tree.home path
  match tree.node? (Path.absolute names) with
  | .error e => throw (.file e)
  | .ok (some (.file _)) => return fileAbove? tree names.reverse.tail
  | .ok _ => return fileAbove? tree names.reverse

/-- The mapping in a configuration file; nothing at all stands for an empty one. -/
def mappingOf (tree : FileTree) (path : Text) : Try (List (Scalar × Value)) := do
  let path := Path.tidy path
  match tree.node? path with
    | .error e => throw (.file e)
    | .ok none => throw (.configMissing path)
    | .ok (some _) => pure ()
  let bytes ← match tree.read path with
    | .ok bytes => pure bytes
    | .error e => throw (.file e)
  let content ← match Text.decodeStrict bytes with
    | .ok content => pure content
    | .error m => throw (.malformed m)
  match if Path.suffix path = ".json" then Json.read content else Yaml.read content with
  | .ok v =>
    match v.opened with
    | .null => return []
    | .map entries => return entries
    | _ => throw (.configNoMapping path)
  | .error .malformed => throw (.configSyntax path)
  | .error e => throw (.read e)

/-- The configuration in a file. -/
def ofFile (tree : FileTree) (path : Text) : Try Config := do
  ofValue (.map (← mappingOf tree path))

/-- The configuration that applies to a path: the one in the nearest file, or the standard one. -/
def near (tree : FileTree) (path : Text) : Try Config := do
  match ← findFile tree path with
  | some names => ofFile tree (Path.absolute names)
  | none => return {}

/-- A configuration from a file, if one is given, with single settings on top. -/
def withSettings (tree : FileTree) (path : Option Text) (settings : List (Text × Value)) :
    Try Config := do
  let start ← match path with
    | some path => if path.isEmpty then pure {} else ofFile tree path
    | none => pure {}
  settings.foldlM (fun config (name, v) => config.set name v) start

end HouseStyle.Config
