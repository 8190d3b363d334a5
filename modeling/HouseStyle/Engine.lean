import HouseStyle.Config.Basic
import HouseStyle.Config.Preset
import HouseStyle.Edit.Report
import HouseStyle.Files.Glob
import HouseStyle.Rule.Registry
import HouseStyle.Suppression
import HouseStyle.Token.Lexer

/-! The engine: rules and a threshold made from a configuration. It checks texts and fixes them; a
finding below the threshold is dropped, and one that a comment covers is marked as suppressed. -/

namespace HouseStyle

structure Engine where
  config : Config
  threshold : Severity
  rules : List Rule
  /-- The ids of the rules whose fixes are applied. -/
  autofix : List Text
  warnings : List Text
  deriving Inhabited

namespace Engine

/-! ### Making an engine -/

/-- A severity by name in any case, and the warning about a value that names none. -/
def readSeverity (v : Value) (setting : Text) : Try (Option Severity × List Text) := do
  let name ← v.asTextOrFault
  match Severity.ofName? (Text.lower name) with
  | some s => return (some s, [])
  | none => return (none, ["Invalid severity '" ++ name ++ "' for " ++ setting ++ "; ignoring it"])

/-- The warnings about rule ids that no rule has. -/
def unknownRules (registry : Registry) : List Value → Try (List Text)
  | [] => .ok []
  | id :: rest => do
    let known ← match id with
      | .text t => pure (registry.contains t)
      | _ => if id.isKey then pure false else .error (.unhashable id.kindName)
    let others ← unknownRules registry rest
    return if known then others
      else ("Unknown rule id in configuration: '" ++ id.asText ++ "'") :: others

/-- Whether a rule is switched on before its own settings are looked at. -/
def enabledByPreset (preset : Preset) (metadata : RuleMetadata) : Bool :=
  let named (patterns : List Text) : Bool := patterns.any (Glob.matches_ · metadata.id)
  (metadata.enabledByDefault || named preset.enabled) && !named preset.disabled

/-- A rule as configured, unless it is switched off; whether its fixes are applied; and the
warnings about its settings. -/
def configured (config : Config) (preset : Preset) (kind : RuleKind) :
    Try (Option (Rule × Bool) × List Text) := do
  let id := kind.metadata.id
  let settings ← config.ruleSettings id
  let enabled := match settings.enabled with
    | .null => enabledByPreset preset kind.metadata
    | v => v.isTrue
  if enabled then
    let (severity, warnings) ← match settings.severity with
      | none => pure (none, [])
      | some s => readSeverity (.text s) ("rule '" ++ id ++ "'")
    return (some (kind.create settings.options severity, settings.autofix), warnings)
  else return (none, [])

/-- The engine of a configuration over the kinds of a registry, in the order of their ids. -/
def create (config : Config) (registry : Registry := .builtin) : Try Engine := do
  let (threshold, w₁) ← readSeverity config.severityThreshold "severity_threshold"
  let preset ← Preset.named? config.rulePreset
  let w₂ ← match preset with
    | some _ => pure []
    | none => do
      pure ["Unknown rule preset '" ++ (← config.rulePreset.asTextOrFault) ++ "'; using 'standard'"]
  let w₃ ← unknownRules registry (← config.namedRules)
  let kinds := (registry.ids.filterMap registry.find?)
  let made ← kinds.mapM (configured config (preset.getD .standard))
  let rules := made.filterMap Prod.fst
  return {
    config
    threshold := threshold.getD .info
    rules := rules.map Prod.fst
    autofix := (rules.filter Prod.snd).map fun (rule, _) => rule.id
    warnings := w₁ ++ w₂ ++ w₃ ++ made.flatMap Prod.snd }

def ruleIds (e : Engine) : List Text := e.rules.map Rule.id

/-! ### Checking a text -/

def suppressionReason : Text := "Inline suppression comment"

/-- A finding as it is reported: none below the threshold, and marked if a comment covers it. -/
def screened (e : Engine) (suppressions : Suppression.Lines) (f : Finding) : Option Finding :=
  if f.severity.lt e.threshold then none
  else if Suppression.hides suppressions f then
    some { f with suppressed := true, suppressionReason := some suppressionReason }
  else some f

/-- What is found in a text, and what went wrong meanwhile. -/
structure Checked where
  findings : List Finding
  errors : List Text
  deriving Repr, Inhabited

def contextOf (e : Engine) (content filePath : Text) : Try Context := do
  let contextLines ← e.config.outputOption "context_lines" (·.contextLines)
  return Context.ofTokens (tokenize content) filePath e.config.lookahead
    e.config.terminator contextLines

/-- Checks a text. The number of workers must be a number, and makes no difference. -/
def checkText (e : Engine) (content filePath : Text) : Try Checked := do
  if content.isEmpty then throw (.emptyInput filePath)
  let context ← e.contextOf content filePath
  let _ ← e.config.ruleWorkers.exceeds 1
  let (found, failed) := Rule.runAll context e.rules
  let suppressions := Suppression.ofTokens context.tokens.toList
  return ⟨found.filterMap (e.screened suppressions), failed.map Rule.Failed.message⟩

/-- The findings whose fixes may be applied. -/
def fixable (e : Engine) (findings : List Finding) : List Finding :=
  findings.filter fun f => f.fix.isSome && !f.suppressed && e.autofix.contains f.ruleId

/-- Applies the fixes of what was found in a text. -/
def fixFound (e : Engine) (content filePath : Text) (checked : Checked) : Try FixResult :=
  fixText content (e.fixable checked.findings) filePath

/-- Checks a text and applies the fixes of what it finds. -/
def fixContent (e : Engine) (content filePath : Text) : Try (FixResult × Checked) := do
  let checked ← e.checkText content filePath
  return (← e.fixFound content filePath checked, checked)

end Engine
end HouseStyle
