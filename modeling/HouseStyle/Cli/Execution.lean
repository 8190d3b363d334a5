import HouseStyle.Cli.Action
import HouseStyle.Cli.Invocation
import HouseStyle.Config.Template
import HouseStyle.Report.Format
import HouseStyle.Rule.Registry
import HouseStyle.Session
import HouseStyle.Styled.Table

/-! Carrying out command lines, and the table of rules that one of them prints. -/

namespace HouseStyle.Cli

namespace RuleTable

/-! The list of rules as a table. -/

def columns : List Column :=
  [{ header := [] },
    { header := "Rule", style := { colour := some .cyan } },
    { header := "Severity" },
    { header := "Category" },
    { header := "Fix" },
    { header := "Description" }]

def row (rule : RuleMetadata) : List Text :=
  [if rule.enabledByDefault then "✓" else "○",
    rule.id,
    rule.severity.name,
    rule.category.name,
    if rule.autoFixable then "yes" else [],
    if rule.advisory then rule.description ++ " (advisory)" else rule.description]

def table (rules : List RuleMetadata) : Table :=
  { title := "Available Rules", columns, rows := rules.map row }

/-- How many columns a terminal has. -/
def terminalWidth : Nat := 80

def countLine (rules : List RuleMetadata) : Styled :=
  [⟨.plain, "Total: "⟩, ⟨{ bold := true, colour := some .cyan }, Text.ofNat rules.length⟩,
    ⟨.plain, " rules"⟩]

def legend : Text := "✓ = enabled by default, ○ = disabled by default"

/-- The table with the number of rules and the meaning of the marks. -/
def render (colour : Bool) (rules : List RuleMetadata) : Text :=
  ((table rules).lines terminalWidth ++ [countLine rules, Styled.plain legend]).flatMap fun line =>
    Styled.render colour line ++ [.char '\n']

end RuleTable

namespace Action

/-! ### Showing reports -/

/-- The output settings of a configuration. -/
def outputSettings (config : Config) : Action OutputSettings :=
  match config.output with
  | .settings s => pure s
  | .other v =>
    -- A text has something else under the name of the first setting.
    throw (.noAttribute v.kindName (if v.kindName = "str" then "show_suppressed" else "format"))

/-- The format that a configuration asks for. Listings that go to a file have no colours. -/
def formatOf (s : OutputSettings) : Action Format := do
  let terminal := (← get).terminal
  let suppressed : List (Text × Value) := [("include_suppressed", s.showSuppressed)]
  match s.format with
  | .text name =>
    let options : List (Text × Value) := if name = "text" || name = "cli" then
        ("use_color", .bool (s.color.isTrue && !s.outputFile.isTrue)) ::
          ("verbose", s.verbose) :: suppressed
      else suppressed
    of (Format.create name options terminal)
  | .scalar (.bytes bs) => throw (.unknownFormat (Text.quotedBytes bs))
  | v => throw (.noAttribute v.kindName "lower")

/-- Why a value names no file to write to. A number stands for a file that is open, and none is. -/
def noFile (v : Value) : Fault :=
  match v.asInt? with
  | some n =>
    if n < 0 then .file .negativeNumber
    else if n < Nat.pow 2 31 then .file .notOpen
    else .notPath v.kindWord
  | none => .notPath v.kindWord

/-- The path that a value is, as text or in bytes. -/
def pathOf : Value → Action Text
  | .text path => pure path
  | .scalar (.bytes bs) => pure (Text.decode bs)
  | v => throw (noFile v)

/-- Prints a text, or writes it to a file if one is named. -/
def emit (t : Text) (outputFile : Value) (announce : Bool) : Action Unit := do
  if outputFile.isTrue then
    writeText (← pathOf outputFile) t
    if announce then printLine ("Results written to " ++ outputFile.asText)
  else print (if t.getLast? = some (.char '\n') then t else t ++ [.char '\n'])

/-- Reports with errors among the findings end in failure. -/
def exitOf (report : Report) : Nat := if report.hasErrors then 1 else 0

/-! ### Commands -/

/-- Fixes the files of a target. -/
def fixFiles (config : Config) (target : Text) : Action Session.Fixed := do
  let engine ← of (Engine.create config)
  let fixed ← of (Session.fix { engine } (← get).tree target)
  setTree fixed.tree
  return fixed

def checkFiles (config : Config) (target : Text) : Action Report := do
  let engine ← of (Engine.create config)
  let (report, _) ← of (Session.check { engine } (← get).tree target)
  return report

def check (target : Text) (overrides : Overrides) : Action Nat := do
  let config ← of (overrides.configFor (← get).tree target)
  let report ← if config.autoFix.isTrue then Session.Fixed.report <$> fixFiles config target
    else checkFiles config target
  let settings ← outputSettings config
  let format ← formatOf settings
  emit (← of (format.render report.toRecord)) settings.outputFile (settings.format = .text "text")
  return exitOf report

/-- The configuration of a fixing run. -/
def fixConfig (config : Config) (dryRun noBackup : Bool) : Config :=
  { config with
    dryRun := if config.dryRun.isTrue then config.dryRun else .bool dryRun
    backup := if noBackup then .bool false else config.backup }

/-- What a fixing run did, in one line. -/
def fixSummary (report : Report) (results : List FixResult) : Text :=
  "Applied " ++ Text.ofNat report.fixesApplied ++ " fixes in " ++
    Text.ofNat (results.countP FixResult.written) ++ " files; " ++ Text.ofNat report.fixesSkipped ++
    " skipped."

def fix (target : Text) (overrides : Overrides) (dryRun noBackup : Bool) : Action Nat := do
  let config ← of (overrides.configFor (← get).tree target)
  let config := fixConfig config dryRun noBackup
  let fixed ← fixFiles config target
  let dryRun := config.dryRun.isTrue
  let inDetail ← if dryRun then pure true
    else Value.isTrue <$> of (config.outputOption "verbose" OutputSettings.verbose)
  if inDetail then printLine (FixResult.report dryRun fixed.results)
  if dryRun then
    printLine []
    printLine "[DRY RUN] No files were modified."
  else printLine (fixSummary fixed.report fixed.results)
  let format ← formatOf (← outputSettings config)
  print (← of (format.render fixed.report.toRecord))
  return exitOf fixed.report

/-- The configuration file that is made. -/
def configFile : Text := ".stylescanner.yaml"

def init (force : Bool) : Action Nat := do
  if (← get).tree.exists_ configFile && !force then
    printLine ("Configuration file " ++ configFile ++ " already exists.")
    printLine "Use --force to overwrite."
    return 1
  writeText configFile Config.template
  printLine ("Created configuration file: " ++ configFile)
  return 0

def listRules (fixableOnly : Bool) : Action Nat := do
  let rules := Registry.builtin.allMetadata.filter fun rule => !fixableOnly || rule.autoFixable
  print (RuleTable.render (← get).terminal rules)
  return 0

def ofInvocation : Invocation → Action Nat
  | .check target overrides => check target overrides
  | .fix target overrides dryRun noBackup => fix target overrides dryRun noBackup
  | .init force => init force
  | .listRules fixableOnly => listRules fixableOnly

end Action

/-! ### Runs -/

/-- What a run of the program leaves. -/
structure Finished where
  exit : Nat
  output : Text := []
  errors : Text := []
  tree : FileTree
  deriving Inhabited

/-- The notice in place of a run; misuse has an exit code of its own. -/
def Notice.finished (n : Notice) (tree : FileTree) : Finished :=
  if n.isMisuse then { exit := 2, errors := n.message, tree }
  else { exit := 0, output := n.message, tree }

/-- Runs the program with the words of a command line. -/
def run (tree : FileTree) (terminal : Bool) (words : List Text) : Finished :=
  match Invocation.read words with
  | .error notice => notice.finished tree
  | .ok invocation =>
    match (Action.ofInvocation invocation).run.run { tree, terminal } with
    | (.ok exit, desk) => { exit, output := desk.output, tree := desk.tree }
    | (.error fault, desk) => {
        exit := 1
        output := desk.output
        errors := ("Error: " : Text) ++ fault.message ++ [.char '\n']
        tree := desk.tree }

end HouseStyle.Cli
