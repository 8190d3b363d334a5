import HouseStyle.Json.Reader
import HouseStyle.Text.Malformed
import HouseStyle.Yaml.Cursor

/-! Tags as they are written: a handle such as `!!`, which stands for the start of a name, and the
rest of the name. In it, `%` and two digits are a byte, and bytes side by side are characters. -/

namespace HouseStyle.Yaml

/-- Symbols of words: those in handles, and the names of anchors and directives. -/
def isNameSym (s : Sym) : Bool :=
  match s with
  | .char c => c.isAlphanum || c = '-' || c = '_'
  | _ => false

/-- A tag without a handle is its whole name. -/
structure TagName where
  handle : Option Text := none
  rest : Text
  deriving DecidableEq, Repr, Inhabited

namespace TagName

/-- Symbols that stand for themselves in names. -/
def isPlainSym (s : Sym) : Bool :=
  isNameSym s || (";/?:@&=+$,.!~*'()[]".toList).any s.is

/-- Bytes as they are written, and the place after them. -/
def bytes? : (fuel : Nat) → Cursor → Option (List UInt8 × Cursor)
  | 0, c => some ([], c)
  | fuel + 1, c =>
    if c.seesChar '%' then do
      let high ← (c.peek? 1).bind Json.hexValue?
      let low ← (c.peek? 2).bind Json.hexValue?
      let (more, c) ← bytes? fuel (c.skip 3)
      return (UInt8.ofNat (16 * high + low) :: more, c)
    else some ([], c)

def nameFrom? : (fuel : Nat) → Cursor → Option (Text × Cursor)
  | 0, c => some ([], c)
  | fuel + 1, c => do
    let (here, c) := c.takeWhile isPlainSym
    if c.seesChar '%' then
      let (bytes, c) ← bytes? c.bound c
      match Text.decodeStrict bytes with
      | .ok decoded =>
        let (more, c) ← nameFrom? fuel c
        return (here ++ decoded ++ more, c)
      | .error _ => none
    else return (here, c)

/-- A name, or the start or the rest of one. It is never empty. -/
def name? (c : Cursor) : Option (Text × Cursor) := do
  let (name, c) ← nameFrom? c.bound c
  if name.isEmpty then none else return (name, c)

/-- A handle: a word between two `!`, or a single one before a space. -/
def handle? (c : Cursor) : Option (Text × Cursor) :=
  if !c.seesChar '!' then none
  else if c.seesChar ' ' 1 then some ([.char '!'], c.next)
  else
    let (word, c) := c.next.takeWhile isNameSym
    if c.seesChar '!' then some (.char '!' :: word ++ [.char '!'], c.next) else none

/-- Whether a handle with a second `!` comes next, rather than a single one. -/
def seesHandle (c : Cursor) : Bool :=
  (c.next.rest.takeWhile fun s => !(s.is ' ' || isBreak s)).any (·.is '!')

/-- A tag, from its first `!` on. That one by itself is a name too. -/
def read? (c : Cursor) : Option (TagName × Cursor) := do
  let (tag, c) ←
    if c.seesChar '<' 1 then do
      let (rest, c) ← name? (c.skip 2)
      if c.seesChar '>' then pure (({ rest } : TagName), c.next) else none
    else if c.seesGap 1 then pure ({ rest := [.char '!'] }, c.next)
    else do
      let (handle, c) ← if seesHandle c then handle? c else pure ([.char '!'], c.next)
      let (rest, c) ← name? c
      pure ({ handle := some handle, rest }, c)
  if c.seesSpaceOrEnd then return (tag, c) else none

/-! ### Handles -/

/-- What handles stand for where a document says nothing else. -/
def standardHandles : List (Text × Text) := [("!", "!"), ("!!", "tag:yaml.org,2002:")]

/-- The whole name; the handle must be known. -/
def full? (handles : List (Text × Text)) (tag : TagName) : Option Text :=
  match tag.handle with
  | none => some tag.rest
  | some handle => (handles.lookup handle).map (· ++ tag.rest)

end TagName
end HouseStyle.Yaml
