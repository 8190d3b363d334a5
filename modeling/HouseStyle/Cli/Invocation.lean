import HouseStyle.Cli.Option
import HouseStyle.Cli.Overrides
import HouseStyle.Cli.Usage
import HouseStyle.Report.Basic

/-! Command lines. A command line is read into an invocation, or it gets a notice in place of being
carried out: help, the version, or what is wrong with it. -/

namespace HouseStyle.Cli

inductive Command where
  | check | fix | init | listRules
  deriving DecidableEq, Repr

namespace Command

def name : Command → Text
  | check => "check"
  | fix => "fix"
  | init => "init"
  | listRules => "list-rules"

def all : List Command := [check, fix, init, listRules]

/-! ### Options -/

def helpOption : OptionSpec := { flag := .help, names := ["-h", "--help"] }

/-- The options that checking and fixing share. -/
def sharedOptions : List OptionSpec :=
  [helpOption,
    { flag := .config, names := ["-c", "--config"], argument := .text },
    { flag := .include_, names := ["--include"], argument := .text },
    { flag := .exclude, names := ["--exclude"], argument := .text },
    { flag := .enable, names := ["--enable"], argument := .text },
    { flag := .disable, names := ["--disable"], argument := .text },
    { flag := .jobs, names := ["-j", "--jobs"], argument := .integer },
    { flag := .verbose, names := ["-v", "--verbose"] },
    { flag := .noColor, names := ["--no-color"] }]

def checkOptions : List OptionSpec :=
  [{ flag := .format, names := ["-f", "--format"], argument := .oneOf ["text", "json", "sarif"] },
    { flag := .output, names := ["-o", "--output"], argument := .text },
    { flag := .severity, names := ["-s", "--severity"],
      argument := .oneOf ["error", "warning", "info"] },
    { flag := .showSuppressed, names := ["--show-suppressed"] },
    { flag := .fix, names := ["--fix"] }]

def fixOptions : List OptionSpec :=
  [{ flag := .dryRun, names := ["--dry-run"] }, { flag := .noBackup, names := ["--no-backup"] }]

def grammar : Command → Grammar
  | check => { options := sharedOptions ++ checkOptions, takesTarget := true }
  | fix => { options := sharedOptions ++ fixOptions, takesTarget := true }
  | init => { options := [helpOption, { flag := .force, names := ["-f", "--force"] }] }
  | listRules => { options := [helpOption, { flag := .fixable, names := ["--fixable"] }] }

end Command

/-- The options before a command. -/
def mainGrammar : Grammar :=
  { options := [Command.helpOption, { flag := .version, names := ["--version"] }] }

/-! ### Notices -/

/-- What a command line gets in place of being carried out; `none` stands for the program without a
command. -/
inductive Notice where
  | help (command : Option Command)
  | version
  | misuse (command : Option Command) (message : Text)
  deriving DecidableEq, Repr

namespace Notice

def ofStop (command : Option Command) : Stop → Notice
  | .help => help command
  | .version => version
  | .misuse message => misuse command message

def usage : Option Command → List Text
  | none => Usage.mainUsage
  | some .check => Usage.checkUsage
  | some .fix => Usage.fixUsage
  | some .init => Usage.initUsage
  | some .listRules => Usage.listRulesUsage

def details : Option Command → List Text
  | none => Usage.mainDetails
  | some .check => Usage.checkDetails
  | some .fix => Usage.fixDetails
  | some .init => Usage.initDetails
  | some .listRules => Usage.listRulesDetails

/-- The program with a command. -/
def calledAs : Option Command → Text
  | none => toolName
  | some command => toolName ++ .char ' ' :: command.name

/-- What the notice says; it ends the last line. -/
def message : Notice → Text
  | help command => Usage.shown (usage command ++ details command)
  | version => Usage.shown [toolName ++ .char ' ' :: toolVersion]
  | misuse command message =>
    Usage.shown (usage command ++ [calledAs command ++ ": error: " ++ message])

def isMisuse : Notice → Bool
  | misuse _ _ => true
  | _ => false

end Notice

/-! ### Invocations -/

inductive Invocation where
  | check (target : Text) (overrides : Overrides)
  | fix (target : Text) (overrides : Overrides) (dryRun noBackup : Bool)
  | init (force : Bool)
  | listRules (fixableOnly : Bool)
  deriving Repr

/-- The number that an argument stands for, if it was one. -/
def numberOf : Value → Value
  | .text t =>
    match Numeral.integer 10 t with
    | .ok n => .int n
    | .error _ => .text t
  | v => v

/-- What is set by the words of a command. -/
def Given.overrides (g : Given) : Overrides :=
  { config := g.last? .config
    include_ := g.all .include_
    exclude := g.all .exclude
    enable := g.all .enable
    disable := g.all .disable
    jobs := (g.last? .jobs).map numberOf
    severity := g.last? .severity
    format := g.last? .format
    output := g.last? .output
    showSuppressed := g.has .showSuppressed
    autoFix := g.has .fix
    verbose := g.has .verbose
    noColor := g.has .noColor }

namespace Invocation

/-- The invocation of a command; without a target the working directory is meant. -/
def ofGiven (g : Given) : Command → Invocation
  | .check => check (g.target.getD ".") g.overrides
  | .fix => fix (g.target.getD ".") g.overrides (g.has .dryRun) (g.has .noBackup)
  | .init => init (g.has .force)
  | .listRules => listRules (g.has .fixable)

/-- Reads words up to the command: what belongs to nothing, and the command with all words after
it. -/
def splitAtCommand (extras : List Text) :
    List (Text × Word) → Except Stop (List Text × Option (Text × List Text))
  | [] => .ok (extras, none)
  | (word, .unknown) :: rest => splitAtCommand (extras ++ [word]) rest
  | (_, .option w) :: rest => do
    let (_, used) ← takeWord mainGrammar {} w rest.head?
    splitAtCommand extras (rest.drop used)
  | (word, .argument) :: rest => .ok (extras, some (word, rest.map Prod.fst))
  | [(word, .dashes)] => .ok (extras ++ [word], none)
  | (word, .dashes) :: rest => .ok (extras, some (word, rest.map Prod.fst))
termination_by words => words.length
decreasing_by all_goals simp only [List.length_drop, List.length_cons]; omega

/-- The command of a name. -/
def commandNamed (name : Text) : Except Notice Command :=
  match Command.all.find? fun c => c.name = name with
  | some command => .ok command
  | none => .error (.misuse none ("argument command: " ++
      badChoice name (Command.all.map Command.name)))

def orNotice {α : Type} (command : Option Command) : Except Stop α → Except Notice α
  | .ok a => .ok a
  | .error stop => .error (Notice.ofStop command stop)

/-- Reads a command line. -/
def read (words : List Text) : Except Notice Invocation := do
  let (extras, found) ← orNotice none do splitAtCommand [] (← wordsOf mainGrammar words)
  match found with
  | none => if extras.isEmpty then throw (.help none) else throw (unrecognized extras)
  | some (name, words) =>
    let command ← commandNamed name
    let given ← orNotice (some command) (Cli.read command.grammar words)
    let extras := extras ++ given.extras
    if extras.isEmpty then return ofGiven given command else throw (unrecognized extras)
where
  unrecognized (extras : List Text) : Notice :=
    .misuse none ("unrecognized arguments: " ++ Text.joinWith " " extras)

end Invocation
end HouseStyle.Cli
