import HouseStyle.Edit.Apply
import HouseStyle.Edit.Diff
import HouseStyle.Fault
import HouseStyle.Files.Tree

/-! Fixing a text, telling about it, and writing fixed texts back to their files. -/

namespace HouseStyle

/-! ### Fixing -/

def AppliedEdit.replacement (e : AppliedEdit) : Value := e.proposal.fix.replacement

/-- Only texts can be put in. A replacement without a length is refused where it is placed, and any
other one where the pieces are joined: it comes after as many pieces as edits and texts between
them. -/
def checkReplacements (replacements : List Value) : Try Unit :=
  match replacements.find? fun v => !v.hasLength, replacements.findIdx? fun v => !v.isText with
  | some v, _ => .error (.noLength v.kindName)
  | none, some place =>
    .error (.partNotText (2 * place + 1) (replacements.getD place .null).kindName)
  | none, none => .ok ()

/-- Applies fixes to the text of a file, with the diff of what changed. -/
def fixText (content : Text) (findings : List Finding) (filePath : Text := "<input>") :
    Try FixResult := do
  let result := applyFixes content findings
  checkReplacements (result.applied.map AppliedEdit.replacement)
  return { result with
    filePath
    diff := if result.changed then Diff.unified filePath content result.text else [] }

/-! ### Reports -/

namespace FixResult

def appliedLine (e : AppliedEdit) : Text :=
  let f := e.proposal.finding
  let description :=
    if e.proposal.fix.description.isEmpty then f.message else e.proposal.fix.description
  "  + " ++ f.location.shown ++ ": [" ++ f.ruleId ++ "] " ++ description

def skippedLine (f : Finding) : Text := "  ! " ++ f.location.shown ++ ": " ++ f.message

/-- The part of a report about one file, unless nothing happened there. -/
def reportLines (r : FixResult) : List Text :=
  if !r.changed && r.skipped.isEmpty then []
  else List.flatten [
    [Text.fill 60 '-', r.filePath, Text.fill 60 '-'],
    r.applied.map appliedLine,
    r.skippedFindings.map skippedLine,
    match r.errorMessage with
    | some message => if message.isEmpty then [] else ["  Error: " ++ message]
    | none => [],
    if r.diff.isEmpty then []
    else [] :: ("  Diff:" : Text) ::
      (Text.keptLines r.diff).map (fun line => "  " ++ Text.chomp line),
    [[]]]

/-- The report on the results for several files. -/
def report (dryRun : Bool) (results : List FixResult) : Text :=
  let count (f : FixResult → Nat) : Text := Text.ofNat (total (results.map f))
  Text.joinWith "\n" <| List.flatten [
    [Text.fill 60 '=', "REMEDIATION REPORT" ++ (if dryRun then (" (dry run)" : Text) else []),
      Text.fill 60 '=', [],
      "Files changed: " ++ Text.ofNat (results.countP FixResult.changed),
      "Fixes applied: " ++ count appliedCount,
      "Fixes skipped: " ++ count skippedCount,
      []],
    results.flatMap reportLines,
    [Text.fill 60 '=']]

/-! ### Writing back -/

def backupPath (r : FixResult) : Text := r.filePath ++ ".bak"

/-- Keeps the text as it was beside the file, if a backup is wanted. -/
def writeBackup (r : FixResult) (backup : Bool) (tree : FileTree) : Except FileError FileTree :=
  if backup then tree.write r.backupPath (Text.encode r.source) else .ok tree

/-- What a refusal makes of a result: it is kept as an error of the file. A path that is none is a
fault. -/
def failed (r : FixResult) (e : FileError) : Try FixResult :=
  if e.isRefusal then
    .ok { r with errorMessage := some ("Error modifying file: " ++ e.message) }
  else .error (.file e)

/-- Writes a changed text to its file. Where the backup cannot be written the file is left as it
is, and where the text cannot be written it is left empty. -/
def write (r : FixResult) (dryRun backup : Bool) (tree : FileTree) : Try FixResult × FileTree :=
  if dryRun || !r.changed then (.ok r, tree)
  else match r.writeBackup backup tree with
    | .error e => (r.failed e, tree)
    | .ok tree =>
      let encoded := Text.encodeWhole r.text
      match tree.write r.filePath (encoded.toOption.getD []) with
      | .error e => (r.failed e, tree)
      | .ok tree =>
        match encoded with
        | .ok _ => (.ok { r with written := true }, tree)
        | .error what => (.error (.unwritable what), tree)

end FixResult
end HouseStyle
