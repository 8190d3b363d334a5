import HouseStyle.Edit.Report
import HouseStyle.Engine
import HouseStyle.Files.Discovery
import HouseStyle.Report.Basic

/-! Runs over files. A session is an engine with the errors that it has met so far; each report of
a session lists them all. A file that fails gives one error and no finding, and the other files are
covered all the same. -/

namespace HouseStyle

/-! ### Single files -/

/-- What a run makes of one file. -/
structure FileOutcome where
  findings : List Finding
  errors : List Text
  fix : Option FixResult := none
  deriving Repr, Inhabited

abbrev Outcome := Try FileOutcome

namespace Engine

def contentOf (tree : FileTree) (path : Text) : Try Text :=
  match tree.read path with
  | .ok bytes => .ok (Text.decode bytes)
  | .error e => .error (if e.isRefusal then .unreadable path e else .file e)

def checkFile (e : Engine) (tree : FileTree) (path : Text) : Outcome := do
  let checked ← e.checkText (← contentOf tree path) path
  return { findings := checked.findings, errors := checked.errors }

/-- What is found in a text after its fixes: of a changed text what is left in it, and in any case
a finding for each fix that was skipped. -/
def outcomeOfFix (e : Engine) (path : Text) (checked : Checked) (result : FixResult) : Outcome := do
  let errors := checked.errors ++ result.errorMessage.toList.filter fun m => !m.isEmpty
  let left ← if result.changed then e.checkText result.text path
    else pure { checked with errors := [] }
  return {
    findings := left.findings ++ result.skippedFindings
    errors := errors ++ left.errors
    fix := some result }

/-- Fixes a file and writes it back. -/
def fixFile (e : Engine) (tree : FileTree) (path : Text) : Outcome × FileTree :=
  match do e.fixContent (← contentOf tree path) path with
  | .error fault => (.error fault, tree)
  | .ok (result, checked) =>
    let (result, tree) := result.write e.config.dryRun.isTrue e.config.backup.isTrue tree
    (do e.outcomeOfFix path checked (← result), tree)

end Engine

/-! ### Batches -/

namespace Batch

/-- The error that a file leaves in a report. -/
def errorLine (path : Text) (fault : Fault) : Text :=
  if fault.isInputFault then fault.message
  else "Error processing " ++ path ++ ": " ++ fault.kind ++ ": " ++ fault.message

/-- The outcomes of files, in the order in which they are worked on. -/
abbrev Outcomes := List (Text × Outcome)

def ofWork (work : Text → Outcome) (order : List Text) : Outcomes := order.map fun f => (f, work f)

/-- The outcomes of work that changes the files. -/
def ofChanges (work : FileTree → Text → Outcome × FileTree) (tree : FileTree) :
    List Text → Outcomes × FileTree
  | [] => ([], tree)
  | path :: rest =>
    let (outcome, tree) := work tree path
    let (others, tree) := ofChanges work tree rest
    ((path, outcome) :: others, tree)

structure Collected where
  findings : List Finding := []
  errors : List Text := []
  filesChecked : Nat := 0
  fixes : List FixResult := []
  deriving Inhabited

def Collected.add (c : Collected) (path : Text) : Outcome → Collected
  | .error fault => { c with errors := c.errors ++ [errorLine path fault] }
  | .ok outcome => {
      findings := c.findings ++ outcome.findings
      errors := c.errors ++ outcome.errors
      filesChecked := c.filesChecked + 1
      fixes := c.fixes ++ outcome.fix.toList }

/-- What a batch found, in the order of the files, whatever the order of the work was. -/
def collect (files : List Text) (outcomes : Outcomes) : Collected :=
  files.foldl (fun c path =>
    match outcomes.lookup path with
    | some outcome => c.add path outcome
    | none => c) {}

end Batch

/-! ### Sessions -/

structure Session where
  engine : Engine
  errors : List Text := []
  deriving Inhabited

namespace Session

variable (s : Session)

/-- The files of a target; a target that is not there is an error. -/
def filesOf (tree : FileTree) (target : Text) : Try (List Text × List Text) := do
  if tree.exists_ target then return (← discover s.engine.config tree target, [])
  else return ([], ["Target not found: " ++ target])

/-- With several files the number of workers must be a number; it makes no difference. -/
def checkWorkers (files : List Text) : Try Unit := do
  if 1 < files.length then
    let _ ← s.engine.config.maxWorkers.exceeds 1

/-- The report on a batch, with all errors of the session. -/
def report (errors : List Text) (c : Batch.Collected) : Report :=
  Report.ofFindings c.findings {
    filesChecked := c.filesChecked
    rulesApplied := s.engine.ruleIds
    errors
    warnings := s.engine.warnings
    fixesApplied := total (c.fixes.map FixResult.appliedCount)
    fixesSkipped := total (c.fixes.map FixResult.skippedCount) }

/-- Checks the files of a target. -/
def check (tree : FileTree) (target : Text) : Try (Report × Session) := do
  let (files, missing) ← s.filesOf tree target
  s.checkWorkers files
  let collected := Batch.collect files (Batch.ofWork (s.engine.checkFile tree) files)
  let errors := s.errors ++ missing ++ collected.errors
  return (s.report errors collected, { s with errors })

/-- What a fixing run leaves. -/
structure Fixed where
  report : Report
  results : List FixResult
  session : Session
  tree : FileTree
  deriving Inhabited

/-- Fixes the files of a target. -/
def fix (tree : FileTree) (target : Text) : Try Fixed := do
  let (files, missing) ← s.filesOf tree target
  s.checkWorkers files
  let (outcomes, tree) := Batch.ofChanges s.engine.fixFile tree files
  let collected := Batch.collect files outcomes
  let errors := s.errors ++ missing ++ collected.errors
  return {
    report := s.report errors collected
    results := collected.fixes
    session := { s with errors }
    tree }

/-- Checks a text that is in no file. -/
def checkText (content filePath : Text) : Try (List Finding × Session) := do
  let checked ← s.engine.checkText content filePath
  return (checked.findings, { s with errors := s.errors ++ checked.errors })

/-- Fixes a text that is in no file. What went wrong in checking it stays, even if its fixes cannot
be applied. -/
def fixText (content filePath : Text) : Try FixResult × Session :=
  match s.engine.checkText content filePath with
  | .error fault => (.error fault, s)
  | .ok checked =>
    (s.engine.fixFound content filePath checked, { s with errors := s.errors ++ checked.errors })

def checkFile (tree : FileTree) (path : Text) : Try (List Finding × Session) := do
  let outcome ← s.engine.checkFile tree path
  return (outcome.findings, { s with errors := s.errors ++ outcome.errors })

end Session
end HouseStyle
