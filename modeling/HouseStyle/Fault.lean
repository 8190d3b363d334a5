import HouseStyle.Finding.Basic
import HouseStyle.Json.Writer
import HouseStyle.Text.Malformed
import HouseStyle.Value.Order
import HouseStyle.Value.ReadError
import HouseStyle.Value.Written

/-! What stops an operation: files that cannot be read, configurations that make no sense, and
settings of the wrong kind, which are met only where they are used. Every fault has a message and
a word for its kind; reports show both. -/

namespace HouseStyle

/-- Why the file system refuses a path, or why there is no such path at all. -/
inductive FileError where
  | notFound (path : Text)
  | notDirectory (path : Text)
  | isDirectory (path : Text)
  | denied (path : Text)
  | nameTooLong (path : Text)
  | zeroByte
  /-- A path with symbols that no path has. -/
  | unwritable (what : Unwritable)
  /-- A number that stands for no open file. -/
  | notOpen
  | negativeNumber
  deriving DecidableEq, Repr

def FileError.message : FileError → Text
  | notFound path => "[Errno 2] No such file or directory: " ++ path.quoted
  | notDirectory path => "[Errno 20] Not a directory: " ++ path.quoted
  | isDirectory path => "[Errno 21] Is a directory: " ++ path.quoted
  | denied path => "[Errno 13] Permission denied: " ++ path.quoted
  | nameTooLong path => "[Errno 36] File name too long: " ++ path.quoted
  | zeroByte => "embedded null byte"
  | unwritable what => what.message
  | notOpen => "[Errno 9] Bad file descriptor"
  | negativeNumber => "negative file descriptor"

/-- Whether it is the system that refuses. -/
def FileError.isRefusal : FileError → Bool
  | zeroByte | unwritable _ | negativeNumber => false
  | _ => true

inductive Fault where
  | ruleSettings (value : Value)
  | configMissing (path : Text)
  | configSyntax (path : Text)
  | configNoMapping (path : Text)
  | read (error : ReadError)
  | record (error : RecordError)
  | entries (error : EntriesError)
  | partNotText (place : Nat) (kind : Text)
  | unknownOption (name : Text)
  | unknownFormat (name : Text)
  | file (error : FileError)
  | malformed (error : Malformed)
  | unwritable (what : Unwritable)
  | emptyInput (path : Text)
  | unreadable (path : Text) (error : FileError)
  | unhashable (kind : Text)
  | notIterable (kind : Text)
  | noAttribute (kind name : Text)
  | notSettable (kind name : Text)
  | notComparable (operator left right : Text)
  | order (error : OrderError)
  | notAddable (left right : Text)
  | notPath (kind : Text)
  | noLength (kind : Text)
  | noForm (lack : Json.Lack)
  | noSuchKey (key : Value)
  | emptyPath
  | longInteger
  | badArgument (message : Text)
  deriving Repr

namespace Fault

def message : Fault → Text
  | ruleSettings value => "Rule settings must be a mapping or a boolean, got " ++ value.shown
  | configMissing path => "Configuration file not found: " ++ path
  | configSyntax path => "Could not parse configuration file " ++ path
  | configNoMapping path => "Configuration file " ++ path ++ " must contain a mapping"
  | read error => error.message
  | record error => error.message
  | entries error => error.message
  | partNotText place kind =>
    "sequence item " ++ Text.ofNat place ++ ": expected str instance, " ++ kind ++ " found"
  | unknownOption name => "Unknown configuration option: " ++ name
  | unknownFormat name => "Unknown format: " ++ name
  | file error => error.message
  | malformed error => error.message
  | unwritable what => what.message
  | emptyInput path => path ++ ": input is empty"
  | unreadable path error => "Error reading " ++ path ++ ": " ++ error.message
  | unhashable kind => "unhashable type: '" ++ kind ++ "'"
  | notIterable kind => "'" ++ kind ++ "' object is not iterable"
  | noAttribute kind name => "'" ++ kind ++ "' object has no attribute '" ++ name ++ "'"
  | notSettable kind name =>
    if kind = "str" && name = "format" then
      "'" ++ kind ++ "' object attribute '" ++ name ++ "' is read-only"
    else "'" ++ kind ++ "' object has no attribute '" ++ name ++ "'"
  | notComparable operator left right =>
    "'" ++ operator ++ "' not supported between instances of '" ++ left ++ "' and '" ++ right ++ "'"
  | order error => error.message
  | notAddable left right =>
    if left = "str" then "can only concatenate str (not \"" ++ right ++ "\") to str"
    else if left = "bytes" then "can't concat " ++ right ++ " to bytes"
    else "unsupported operand type(s) for +: '" ++ left ++ "' and '" ++ right ++ "'"
  | notPath kind => "expected str, bytes or os.PathLike object, not " ++ kind
  | noForm lack => lack.message
  | noSuchKey key => key.shown
  | noLength kind => "object of type '" ++ kind ++ "' has no len()"
  | emptyPath => "no path specified"
  | longInteger => Numeral.unwritten
  | badArgument message => message

/-- The word for the kind of a fault. -/
def kind : Fault → Text
  | ruleSettings _ | configSyntax _ | configNoMapping _ => "ConfigError"
  | configMissing _ => "FileNotFoundError"
  | read error => error.kind
  | record error => error.kind
  | file (.notFound _) => "FileNotFoundError"
  | file (.notDirectory _) => "NotADirectoryError"
  | file (.isDirectory _) => "IsADirectoryError"
  | file (.denied _) => "PermissionError"
  | file (.nameTooLong _) | file .notOpen => "OSError"
  | file .zeroByte | file .negativeNumber => "ValueError"
  | malformed _ => "UnicodeDecodeError"
  | unwritable _ | file (.unwritable _) => "UnicodeEncodeError"
  | emptyInput _ | unreadable _ _ => "InputError"
  | entries (.badLength _ _) => "ValueError"
  | unknownFormat _ | emptyPath | longInteger | noForm .circle => "ValueError"
  | noAttribute _ _ | notSettable _ _ => "AttributeError"
  | noSuchKey _ => "KeyError"
  | _ => "TypeError"

/-- Whether the fault is one of the input rather than of the settings. -/
def isInputFault : Fault → Bool
  | emptyInput _ | unreadable _ _ => true
  | _ => false

end Fault

abbrev Try := Except Fault

namespace Value

/-- The items of a value that must have some. -/
def itemsOrFault (v : Value) : Try (List Value) :=
  match v.items? with
  | some items => .ok items
  | none => .error (.notIterable v.kindName)

def entriesOrFault (v : Value) : Try (List (Scalar × Value)) :=
  match v.entries with
  | .ok entries => .ok entries
  | .error e => .error (.entries e)

/-- A value as text, which it must have. -/
def asTextOrFault (v : Value) : Try Text :=
  match v.written? with
  | some t => .ok t
  | none => .error .longInteger

/-- The key that a value is. Lists, sets and mappings are none. -/
def keyOrFault : Value → Try Scalar
  | .scalar key => .ok key
  | v => .error (.unhashable v.kindName)

/-- One number less another. -/
def minus (v w : Value) : Try Value :=
  match v.number?, w.number? with
  | some (.inl m), some (.inl n) => .ok (.int (m - n))
  | some x, some y => .ok (.decimal ((Scalar.fractional x).add (Scalar.fractional y).negate))
  | _, _ => .error (.badArgument
    ("unsupported operand type(s) for -: '" ++ v.kindName ++ "' and '" ++ w.kindName ++ "'"))

/-- Whether a number is greater than an integer; other values cannot be compared with one. -/
def exceeds (v : Value) (n : Int) : Try Bool :=
  match v with
  | .decimal x => .ok (!x.ltInt n && !x.eqInt n && x != .notANumber)
  | v =>
    match v.asInt? with
    | some m => .ok (n < m)
    | none => .error (.notComparable ">" v.kindName "int")

/-- Whether an integer is greater than a number. -/
def exceededBy (v : Value) (n : Int) : Try Bool :=
  match v with
  | .decimal x => .ok (x.ltInt n)
  | v =>
    match v.asInt? with
    | some m => .ok (m < n)
    | none => .error (.notComparable ">" "int" v.kindName)

end Value
end HouseStyle
