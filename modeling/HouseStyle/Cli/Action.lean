import HouseStyle.Fault
import HouseStyle.Files.Tree

/-! What commands do: they print, and they read and write files. A fault ends a command, and what it
has done before stays done. -/

namespace HouseStyle.Cli

structure Desk where
  tree : FileTree
  /-- Whether the output goes to a terminal that shows colours. -/
  terminal : Bool := false
  output : Text := []
  deriving Inhabited

abbrev Action := ExceptT Fault (StateM Desk)

namespace Action

/-- Goes on with what was tried, or ends with its fault. -/
def of {α : Type} (t : Try α) : Action α := ExceptT.mk (pure t)

def print (t : Text) : Action Unit := modify fun d => { d with output := d.output ++ t }

def printLine (t : Text) : Action Unit := print (t ++ [.char '\n'])

def setTree (tree : FileTree) : Action Unit := modify fun d => { d with tree }

/-- Replaces the content of a file. -/
def writeBytes (path : Text) (bytes : List UInt8) : Action Unit := do
  match (← get).tree.write path bytes with
  | .ok tree => setTree tree
  | .error e => throw (.file e)

/-- Writes a text to a file, which is left empty if the text has more than characters. -/
def writeText (path : Text) (t : Text) : Action Unit := do
  writeBytes path []
  match t.encodeStrict with
  | .ok bytes => writeBytes path bytes
  | .error what => throw (.unwritable what)

end Action
end HouseStyle.Cli
