import HouseStyle.Fault
import HouseStyle.Text.Case

/-! Configurations. Most settings are kept as the values that were given, whatever their kind;
rules and output options have a shape of their own. -/

namespace HouseStyle

/-- Settings of one rule. `enabled` and `severity` fall back on the rule where nothing is given;
keys that are not known here are options of the rule. -/
structure RuleSettings where
  enabled : Value := .null
  severity : Option Text := none
  autofix : Bool := true
  options : List (Scalar × Value) := []
  deriving Repr, Inhabited

namespace RuleSettings

def toValue (s : RuleSettings) : Value :=
  .record [("enabled", s.enabled), ("severity", (s.severity.map .text).getD .null),
    ("autofix", .bool s.autofix), ("options", .map s.options)]

/-- Settings from a truth value, which enables or disables the rule, or from a mapping. -/
def ofValue (v : Value) : Try RuleSettings :=
  match v.opened with
  | .bool b => .ok { enabled := .bool b }
  | .null => .ok {}
  | .map entries => do
    let given (name : Text) : Value := (entries.lookup (.text name)).getD .null
    let options ←
      if (given "options").isTrue then (given "options").entriesOrFault else pure []
    let severity ← match given "severity" with
      | .null => pure none
      | v => do pure (some (Text.lower (← v.asTextOrFault)))
    let known : List Text := ["options", "enabled", "severity", "autofix"]
    let others := entries.filter fun (key, _) => !known.any fun name => key = .text name
    return {
      enabled := given "enabled"
      severity
      autofix := ((entries.lookup (.text "autofix")).map Value.isTrue).getD true
      options := Entries.update options others }
  | _ => .error (if v.isLong then .longInteger else .ruleSettings v)

end RuleSettings

structure OutputSettings where
  format : Value := .text "text"
  outputFile : Value := .null
  verbose : Value := .bool false
  showSuppressed : Value := .bool false
  contextLines : Value := .int 2
  color : Value := .bool true
  deriving Repr, Inhabited

namespace OutputSettings

def toValue (s : OutputSettings) : Value :=
  .record [("format", s.format), ("output_file", s.outputFile), ("verbose", s.verbose),
    ("show_suppressed", s.showSuppressed), ("context_lines", s.contextLines), ("color", s.color)]

def ofEntries (entries : List (Scalar × Value)) : OutputSettings :=
  let standard : OutputSettings := {}
  let given (name : Text) (default : Value) : Value := (entries.lookup (.text name)).getD default
  { format := given "format" standard.format
    outputFile := given "output_file" standard.outputFile
    verbose := given "verbose" standard.verbose
    showSuppressed := given "show_suppressed" standard.showSuppressed
    contextLines := given "context_lines" standard.contextLines
    color := given "color" standard.color }

end OutputSettings

/-- Output settings, or a value that was given in their place and is none. -/
inductive OutputPart where
  | settings (s : OutputSettings)
  | other (v : Value)
  deriving Repr, Inhabited

namespace OutputPart

def toValue : OutputPart → Value
  | settings s => s.toValue
  | other v => v

/-- Output settings from a mapping. -/
def ofValue (v : Value) : OutputPart :=
  match v.opened with
  | .map entries => settings (.ofEntries entries)
  | _ => other v

end OutputPart

/-- Settings by rule id, or a value that was given in their place. -/
inductive RulesPart where
  | table (entries : List (Text × RuleSettings))
  | other (v : Value)
  deriving Repr, Inhabited

def RulesPart.toValue : RulesPart → Value
  | table entries => .record (entries.map fun (id, s) => (id, s.toValue))
  | other v => v

structure Config where
  extensions : Value := .texts [".swift"]
  excludePatterns : Value :=
    .texts [".git/**", ".build/**", "build/**", "Pods/**", "Carthage/**", "DerivedData/**"]
  includePatterns : Value := .null
  maxFileSize : Value := .int 10485760
  maxWorkers : Value := .int 4
  ruleWorkers : Value := .int 1
  rulePreset : Value := .text "standard"
  rules : RulesPart := .table []
  severityThreshold : Value := .text "info"
  terminator : Value := .text ";"
  lookahead : Value := .int 3
  output : OutputPart := .settings {}
  autoFix : Value := .bool false
  dryRun : Value := .bool false
  backup : Value := .bool true
  deriving Repr, Inhabited

namespace Config

/-! ### Records -/

def toValue (c : Config) : Value :=
  .record [("extensions", c.extensions), ("exclude_patterns", c.excludePatterns),
    ("include_patterns", c.includePatterns), ("max_file_size", c.maxFileSize),
    ("max_workers", c.maxWorkers), ("rule_workers", c.ruleWorkers),
    ("rule_preset", c.rulePreset), ("rules", c.rules.toValue),
    ("severity_threshold", c.severityThreshold), ("terminator", c.terminator),
    ("lookahead", c.lookahead), ("output", c.output.toValue), ("auto_fix", c.autoFix),
    ("dry_run", c.dryRun), ("backup", c.backup)]

/-- How deep the record of a configuration may be. -/
def mostDepth : Nat := 490

/-- The record, if it has an end. -/
def toRecord (c : Config) : Try Value :=
  if c.toValue.isDeeper mostDepth then .error (.read .tooDeep) else .ok c.toValue

def fieldNames : List Text :=
  ["extensions", "exclude_patterns", "include_patterns", "max_file_size", "max_workers",
    "rule_workers", "rule_preset", "rules", "severity_threshold", "terminator", "lookahead",
    "output", "auto_fix", "dry_run", "backup"].map Text.ofString

/-- Moves the entries of a section, if it is a mapping, to the top. -/
def flatten (section_ : Text) (entries : List (Scalar × Value)) : List (Scalar × Value) :=
  match (entries.lookup (.text section_)).map Value.opened with
  | some (.map inner) => Entries.update (Entries.erase (.text section_) entries) inner
  | _ => entries

/-- Gives an entry under its short name the full name. -/
def rename (short full : Text) (entries : List (Scalar × Value)) : List (Scalar × Value) :=
  match entries.lookup (.text short) with
  | some v => Entries.insert (.text full) v (Entries.erase (.text short) entries)
  | none => entries

/-- The settings of all rules. The text of a key is the rule id, and of keys with one text the
last counts. -/
def ruleTable : List (Scalar × Value) → Try (List (Scalar × RuleSettings))
  | [] => .ok []
  | (key, value) :: rest => do
    let id ← (Value.scalar key).asTextOrFault
    let settings ← RuleSettings.ofValue value
    let others ← ruleTable rest
    return (.text id, settings) :: others

def rulesOf (v : Value) : Try (Option Value × RulesPart) := do
  let entries ← if v.isTrue then v.entriesOrFault else pure []
  let preset := entries.lookup (.text "preset")
  let table ← ruleTable (Entries.erase (.text "preset") entries)
  return (preset, .table ((Entries.update [] table).map fun (key, s) =>
    ((Value.scalar key).asText, s)))

/-- Keys that are no setting are passed over, but they must have an order and be texts. -/
def checkUnknown (entries : List (Scalar × Value)) : Try Unit := do
  let unknown := (entries.map Prod.fst).filter fun key => !fieldNames.any fun name => key = .text name
  let ordered ← match Scalar.sort unknown with
    | .ok keys => pure (keys.map Value.scalar)
    | .error e => throw (.order e)
  match ordered.findIdx? fun key => !key.isText with
  | some place => throw (.partNotText place (ordered.getD place .null).kindName)
  | none => return ()

/-- The configuration of a mapping. The sections `scan` and `remediation` may group settings, and
`exclude` and `include` are short names. -/
def ofValue (v : Value) : Try Config := do
  let entries ← v.entriesOrFault
  let entries := flatten "remediation" (flatten "scan" entries)
  let (preset, rules) ← match entries.lookup (.text "rules") with
    | some r => rulesOf r
    | none => pure (none, .table [])
  let entries := match preset with
    | some p => Entries.insert (.text "rule_preset") p entries
    | none => entries
  let entries := rename "include" "include_patterns" (rename "exclude" "exclude_patterns" entries)
  checkUnknown entries
  let standard : Config := {}
  let given (name : Text) (default : Value) : Value := (entries.lookup (.text name)).getD default
  return {
    extensions := given "extensions" standard.extensions
    excludePatterns := given "exclude_patterns" standard.excludePatterns
    includePatterns := given "include_patterns" standard.includePatterns
    maxFileSize := given "max_file_size" standard.maxFileSize
    maxWorkers := given "max_workers" standard.maxWorkers
    ruleWorkers := given "rule_workers" standard.ruleWorkers
    rulePreset := given "rule_preset" standard.rulePreset
    rules
    severityThreshold := given "severity_threshold" standard.severityThreshold
    terminator := given "terminator" standard.terminator
    lookahead := given "lookahead" standard.lookahead
    output := match entries.lookup (.text "output") with
      | some v => .ofValue v
      | none => .settings {}
    autoFix := given "auto_fix" standard.autoFix
    dryRun := given "dry_run" standard.dryRun
    backup := given "backup" standard.backup }

/-! ### Single settings -/

/-- Sets one setting by name. Names of operations are taken too and change nothing. -/
def set (c : Config) (name : Text) (v : Value) : Try Config :=
  match name.toString with
  | "extensions" => .ok { c with extensions := v }
  | "exclude_patterns" => .ok { c with excludePatterns := v }
  | "include_patterns" => .ok { c with includePatterns := v }
  | "max_file_size" => .ok { c with maxFileSize := v }
  | "max_workers" => .ok { c with maxWorkers := v }
  | "rule_workers" => .ok { c with ruleWorkers := v }
  | "rule_preset" => .ok { c with rulePreset := v }
  | "rules" => .ok { c with rules := .other v }
  | "severity_threshold" => .ok { c with severityThreshold := v }
  | "terminator" => .ok { c with terminator := v }
  | "lookahead" => .ok { c with lookahead := v }
  | "output" => .ok { c with output := .other v }
  | "auto_fix" => .ok { c with autoFix := v }
  | "dry_run" => .ok { c with dryRun := v }
  | "backup" => .ok { c with backup := v }
  | "to_dict" | "from_dict" => .ok c
  | "rule_config" => .error (.badArgument ("'" ++ v.kindName ++ "' object is not callable"))
  | _ => .error (.unknownOption name)

/-- The settings of one rule. -/
def ruleSettings (c : Config) (id : Text) : Try RuleSettings :=
  match c.rules with
  | .table entries => .ok ((entries.lookup id).getD {})
  | .other (.map entries) =>
    let v := (entries.lookup (.text id)).getD .null
    if v.isTrue then .error (.noAttribute v.kindName "enabled") else .ok {}
  | .other v => .error (.noAttribute v.kindName "get")

/-- The rule ids that the configuration names. -/
def namedRules (c : Config) : Try (List Value) :=
  match c.rules with
  | .table entries => .ok (entries.map fun (id, _) => .text id)
  | .other v => v.itemsOrFault

/-- An option of the output section. -/
def outputOption (c : Config) (name : Text) (get : OutputSettings → Value) : Try Value :=
  match c.output with
  | .settings s => .ok (get s)
  | .other v => .error (.noAttribute v.kindName name)

end Config
end HouseStyle
