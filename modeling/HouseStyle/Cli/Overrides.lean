import HouseStyle.Config.File

/-! What a command line sets on top of the configuration. -/

namespace HouseStyle.Cli

structure Overrides where
  config : Option Value := none
  include_ : List Value := []
  exclude : List Value := []
  enable : List Value := []
  disable : List Value := []
  jobs : Option Value := none
  severity : Option Value := none
  format : Option Value := none
  output : Option Value := none
  showSuppressed : Bool := false
  autoFix : Bool := false
  verbose : Bool := false
  noColor : Bool := false
  deriving Repr, Inhabited

namespace Overrides

/-- Exclusions are added to those of the configuration, which must be a list. -/
def addExclusions (patterns : List Value) (config : Config) : Try Config :=
  if patterns.isEmpty then .ok config
  else match config.excludePatterns.opened with
    | .list items => .ok { config with excludePatterns := .list (items ++ patterns) }
    | v => .error (.notAddable v.kindName "list")

/-- Enables or disables a rule, which is named by a text. -/
def switchRule (enabled : Bool) (config : Config) (id : Value) : Try Config :=
  match config.rules, id with
  | .table entries, .text id =>
    let settings : RuleSettings := (entries.lookup id).getD {}
    let switched := { settings with enabled := .bool enabled }
    let entries :=
      if (entries.lookup id).isSome then
        entries.map fun (other, s) => if other = id then (other, switched) else (other, s)
      else entries ++ [(id, switched)]
    .ok { config with rules := .table entries }
  | .table _, v => .error (.unhashable v.kindName)
  | .other v, _ => .error (.noAttribute v.kindName "setdefault")

/-- Sets an option of the output section, if it is to be set. -/
def setOutput (wanted : Bool) (name : Text) (change : OutputSettings → OutputSettings)
    (config : Config) : Try Config :=
  if !wanted then .ok config
  else match config.output with
    | .settings s => .ok { config with output := .settings (change s) }
    | .other v => .error (.notSettable v.kindName name)

/-- An option that was given and is not empty. -/
def isGiven (o : Option Value) : Bool := o.any Value.isTrue

/-- The configuration with everything that the command line sets. -/
def apply (o : Overrides) (config : Config) : Try Config := do
  let config := if o.include_.isEmpty then config
    else { config with includePatterns := .list o.include_ }
  let config ← addExclusions o.exclude config
  let config := { config with maxWorkers := o.jobs.getD config.maxWorkers }
  let config ← o.enable.foldlM (switchRule true) config
  let config ← o.disable.foldlM (switchRule false) config
  let config := if isGiven o.severity then
      { config with severityThreshold := o.severity.getD .null }
    else config
  let config ← setOutput (isGiven o.format) "format"
    (fun s => { s with format := o.format.getD .null }) config
  let config ← setOutput (isGiven o.output) "output_file"
    (fun s => { s with outputFile := o.output.getD .null }) config
  let config ← setOutput o.showSuppressed "show_suppressed"
    (fun s => { s with showSuppressed := .bool true }) config
  let config := if o.autoFix then { config with autoFix := .bool true } else config
  let config ← setOutput o.verbose "verbose" (fun s => { s with verbose := .bool true }) config
  setOutput o.noColor "color" (fun s => { s with color := .bool false }) config

/-- The configuration for a target: from the file that is named, or else from the nearest one. -/
def configFor (o : Overrides) (tree : FileTree) (target : Text) : Try Config := do
  let config ← match o.config with
    | some (.text path) => Config.ofFile tree path
    | some v => throw (.notPath v.kindWord)
    | none => Config.near tree target
  o.apply config

end Overrides
end HouseStyle.Cli
