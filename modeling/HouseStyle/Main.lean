import HouseStyle.Cli.Execution

/-! The program. It reads the files below the working directory, runs on them and writes back those
that have changed. -/

namespace HouseStyle.Program

/-- Reads a file, or a directory with all that is in it. What cannot be read is left out. -/
partial def load (entry : IO.FS.DirEntry) : IO (Option FileNode) := do
  if ← entry.path.isDir then
    let mut entries := #[]
    for below in ← entry.path.readDir do
      if let some node := ← load below then
        entries := entries.push (Text.ofString below.fileName, node)
    return some (.directory entries.toList)
  else
    try
      return some (.file (← IO.FS.readBinFile entry.path).toList)
    catch _ => return none

/-- Writes the files that differ between two trees. -/
def store (before after : FileTree) : IO Unit := do
  let old := before.files
  for (path, bytes) in after.files do
    if old.lookup path != some bytes then
      IO.FS.writeBinFile path.toString ⟨bytes.toArray⟩

def write (stream : IO.FS.Stream) (t : Text) : IO Unit := do
  stream.write ⟨(Text.encode t).toArray⟩
  stream.flush

end HouseStyle.Program

open HouseStyle Program in
def main (words : List String) : IO UInt32 := do
  let home := Path.steps (Text.ofString (← IO.currentDir).toString)
  let root := (← load { root := ".", fileName := "" }).getD (.directory [])
  let output ← IO.getStdout
  let tree := FileTree.ofHome home root
  let finished := Cli.run tree (← output.isTty) (words.map Text.ofString)
  write output finished.output
  write (← IO.getStderr) finished.errors
  store tree finished.tree
  return UInt32.ofNat finished.exit
