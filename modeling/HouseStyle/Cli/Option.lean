import HouseStyle.Value.Basic
import HouseStyle.Value.Numeral

/-! Options and arguments of a command line. Words that start with a hyphen are options, up to a
word of two hyphens. A long option may be cut short as long as one option is meant, and short
options without arguments may be written together. -/

namespace HouseStyle.Cli

inductive Flag where
  | help | version
  | config | include_ | exclude | enable | disable | jobs | verbose | noColor
  | format | output | severity | showSuppressed | fix
  | dryRun | noBackup | force | fixable
  deriving DecidableEq, Repr

/-- What an option is followed by. -/
inductive Argument where
  | none | text | integer
  | oneOf (choices : List Text)
  deriving DecidableEq, Repr

structure OptionSpec where
  flag : Flag
  names : List Text
  argument : Argument := .none
  deriving DecidableEq, Repr

def OptionSpec.takesArgument (o : OptionSpec) : Bool := o.argument ≠ .none

def OptionSpec.shown (o : OptionSpec) : Text := Text.joinWith "/" o.names

/-- The options of a command, and whether it takes a target. -/
structure Grammar where
  options : List OptionSpec
  takesTarget : Bool := false

/-- The names of all options, in order. -/
def Grammar.names (g : Grammar) : List (Text × OptionSpec) :=
  g.options.flatMap fun o => o.names.map fun name => (name, o)

/-- Why a command line is not carried out as it stands. -/
inductive Stop where
  | help
  | version
  | misuse (message : Text)
  deriving DecidableEq, Repr

/-- What a command line gives: options in order with their arguments, at most one target, and the
words that belong to nothing. An option without an argument has none, and so has one whose argument
is two hyphens. -/
structure Given where
  options : List (Flag × Option Text) := []
  target : Option Text := none
  extras : List Text := []
  deriving DecidableEq, Repr, Inhabited

namespace Given

def has (g : Given) (o : Flag) : Bool := g.options.any (·.1 = o)

/-- An argument as a value; an argument that is left out is an empty list. -/
def valueOf : Option Text → Value
  | some t => .text t
  | none => .list []

/-- All arguments of an option. -/
def all (g : Given) (o : Flag) : List Value :=
  g.options.filterMap fun (p, argument) => if p = o then some (valueOf argument) else none

/-- The last argument of an option. -/
def last? (g : Given) (o : Flag) : Option Value := (g.all o).getLast?

end Given

/-! ### Kinds of words -/

/-- An option as it is written: under which name, and with which argument in the same word. -/
structure Written where
  spec : OptionSpec
  name : Text
  argument : Option Text := none
  deriving DecidableEq, Repr

inductive Word where
  | option (o : Written)
  | unknown
  | argument
  | dashes
  deriving DecidableEq, Repr

def hyphen : Sym := .char '-'

def dashes : Text := [hyphen, hyphen]

def isLong (name : Text) : Bool := dashes.isPrefixOf name

/-- A word before its first equals sign, and what follows it. -/
def cutEquals (word : Text) : Text × Option Text :=
  match Text.cutAt? "=" word with
  | some (name, argument) => (name, some argument)
  | none => (word, none)

/-- A hyphen before digits, or before digits around a point; a line feed may end it. -/
def isNegativeNumber (word : Text) : Bool :=
  let word := if word.getLast? = some (.char '\n') then word.dropLast else word
  match word with
  | s :: rest =>
    s = hyphen && match rest.dropWhile Sym.isDigit with
      | [] => !rest.isEmpty
      | p :: more => p.is '.' && !more.isEmpty && more.all Sym.isDigit
  | [] => false

/-- The options that a word may mean by the start of a name or of a word of short options. -/
def candidates (g : Grammar) (word : Text) : List Written :=
  if isLong word then
    let (start, argument) := cutEquals word
    (g.names.filter fun (name, _) => start.isPrefixOf name).map fun (name, spec) =>
      { spec, name, argument }
  else g.names.filterMap fun (name, spec) =>
    if name = word.take 2 then some { spec, name, argument := some (word.drop 2) }
    else if word.isPrefixOf name then some { spec, name }
    else none

/-- What kind a word is of. -/
def wordOf (g : Grammar) (word : Text) : Except Stop Word :=
  if word.head? ≠ some hyphen || word.length = 1 then .ok .argument
  else match g.names.lookup word with
    | some spec => .ok (.option { spec, name := word })
    | none =>
      let (name, argument) := cutEquals word
      match g.names.lookup name, argument with
      | some spec, some _ => .ok (.option { spec, name, argument })
      | _, _ =>
        match candidates g word with
        | [o] => .ok (.option o)
        | [] =>
          if isNegativeNumber word || word.any (·.is ' ') then .ok .argument else .ok .unknown
        | several => .error (.misuse ("ambiguous option: " ++ word ++ " could match " ++
            Text.joinWith ", " (several.map Written.name)))

/-- The kinds of all words; after two hyphens there are only arguments. -/
def wordsOf (g : Grammar) : List Text → Except Stop (List (Text × Word))
  | [] => .ok []
  | word :: rest =>
    if word = dashes then .ok ((word, .dashes) :: rest.map fun w => (w, .argument))
    else do
      let kind ← wordOf g word
      let others ← wordsOf g rest
      return (word, kind) :: others

/-! ### Taking options -/

def misuse {α : Type} (o : OptionSpec) (message : Text) : Except Stop α :=
  .error (.misuse ("argument " ++ o.shown ++ ": " ++ message))

/-- What is wrong with an argument that is none of those to choose from. -/
def badChoice (t : Text) (choices : List Text) : Text :=
  "invalid choice: " ++ t.quoted ++ " (choose from " ++ Text.joinWith ", " (choices.map Text.quoted) ++
    ")"

/-- Whether an argument is of the form that its option asks for. -/
def checkArgument (o : OptionSpec) (argument : Text) : Except Stop Unit :=
  match o.argument with
  | .integer =>
    match Numeral.integer 10 argument with
    | .ok _ => .ok ()
    | .error _ => misuse o ("invalid int value: " ++ argument.quoted)
  | .oneOf choices =>
    if choices.contains argument then .ok () else misuse o (badChoice argument choices)
  | .none | .text => .ok ()

/-- Takes an option with the argument that it has, if any. Two hyphens are left out, unchecked. -/
def take (given : Given) (o : OptionSpec) (argument : Option Text) : Except Stop Given := do
  let argument := argument.filter (· ≠ dashes)
  if let some t := argument then checkArgument o t
  match o.flag with
  | .help => throw .help
  | .version => throw .version
  | flag => return { given with options := given.options ++ [(flag, argument)] }

/-- The options of a word, each with its argument in the word. -/
structure Cluster where
  taken : List (OptionSpec × Option Text) := []
  /-- The option whose argument is the next word. -/
  open_ : Option OptionSpec := none

def Cluster.add (o : OptionSpec) (c : Cluster) : Cluster := { c with taken := (o, none) :: c.taken }

/-- An option with nothing after it in its word. -/
def Cluster.single (o : OptionSpec) : Cluster :=
  if o.takesArgument then { open_ := some o } else { taken := [(o, none)] }

/-- The options of a word of short ones, from one on that takes no argument. What follows it in the
word is another option with its own rest, and the first option that takes an argument takes all of
its rest. -/
def clusterOf (g : Grammar) (o : OptionSpec) : Text → Except Stop Cluster
  | [] => misuse o ("ignored explicit argument " ++ Text.quoted [])
  | s :: rest =>
    match g.names.lookup [hyphen, s] with
    | none => misuse o ("ignored explicit argument " ++ Text.quoted (s :: rest))
    | some next =>
      if rest.isEmpty then .ok ((Cluster.single next).add o)
      else if next.takesArgument then .ok { taken := [(o, none), (next, some rest)] }
      else (clusterOf g next rest).map (Cluster.add o)

/-- What a word with an option means by itself. -/
def clusterOfWord (g : Grammar) (w : Written) : Except Stop Cluster :=
  match w.argument with
  | none => .ok (.single w.spec)
  | some argument =>
    if w.spec.takesArgument then .ok { taken := [(w.spec, some argument)] }
    else if isLong w.name then misuse w.spec ("ignored explicit argument " ++ argument.quoted)
    else clusterOf g w.spec argument

/-! ### Reading -/

/-- Takes the options of a word; the last of them may take the next word. Also returns how many of
the next words are used. -/
def takeWord (g : Grammar) (given : Given) (w : Written) (next : Option (Text × Word)) :
    Except Stop (Given × Nat) := do
  let cluster ← clusterOfWord g w
  let (taken, used) ← match cluster.open_, next with
    | none, _ => pure (cluster.taken, 0)
    | some o, some (argument, .argument) => pure (cluster.taken ++ [(o, some argument)], 1)
    | some o, _ => misuse o "expected one argument"
  return (← taken.foldlM (fun given (o, argument) => take given o argument) given, used)

def Given.addExtra (given : Given) (word : Text) : Given :=
  { given with extras := given.extras ++ [word] }

/-- Reads words into what they give. Two hyphens are dropped before the target and right after
it. -/
def readWords (g : Grammar) (wantsTarget : Bool) (given : Given) :
    List (Text × Word) → Except Stop Given
  | [] => .ok given
  | (word, .unknown) :: rest => readWords g wantsTarget (given.addExtra word) rest
  | (_, .option w) :: rest => do
    let (given, used) ← takeWord g given w rest.head?
    readWords g wantsTarget given (rest.drop used)
  | (word, .argument) :: rest =>
    if wantsTarget then
      let dashes := if (rest.head?.map Prod.snd) = some .dashes then 1 else 0
      readWords g false { given with target := some word } (rest.drop dashes)
    else readWords g false (given.addExtra word) rest
  | (word, .dashes) :: rest =>
    if wantsTarget then readTarget rest else readWords g false (given.addExtra word) rest
termination_by words => words.length
decreasing_by all_goals simp only [List.length_drop, List.length_cons]; omega
where
  /-- After two hyphens the first word is the target, and all others are extras. -/
  readTarget : List (Text × Word) → Except Stop Given
    | [] => .ok given
    | (word, _) :: rest =>
      .ok { given with target := some word, extras := given.extras ++ rest.map Prod.fst }

/-- What the words of a command give. -/
def read (g : Grammar) (words : List Text) : Except Stop Given := do
  readWords g g.takesTarget {} (← wordsOf g words)

end HouseStyle.Cli
