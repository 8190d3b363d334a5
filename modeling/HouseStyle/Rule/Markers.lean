import HouseStyle.Rule.Basic
import HouseStyle.Text.Case

/-! Comment markers: words such as `TODO` are written in upper case with a colon after them. The
markers are found as whole words whatever their case; a lower-case word without a colon is prose. -/

namespace HouseStyle.Rule.Markers

def defaultMarkers : List Text :=
  ["DEBUG", "TODO", "DEPRECATED", "LOCALIZE", "STAT", "FEATURE"].map Text.ofString

/-- The markers that an option value lists, in upper case. -/
def ofOption (v : Value) : Except RuleFailure (List Text) :=
  match v.items? with
  | some items => items.mapM fun item =>
    match item.written? with
    | some marker => .ok (Text.upper marker)
    | none => .error .longInteger
  | none => .error (.notIterable v.kindName)

/-- A marker in a comment: its offset, the word as written, and whether a colon follows. -/
structure Match where
  offset : Nat
  word : Text
  colon : Bool
  deriving DecidableEq, Repr

def Match.length (m : Match) : Nat := m.word.length + (if m.colon then 1 else 0)

/-- Whether a word starts or ends between two neighbours. -/
def isBoundary (before after : Option Sym) : Bool :=
  (before.map Sym.isWord).getD false != (after.map Sym.isWord).getD false

/-- A marker right at the start of `rest`, as a whole word. -/
def matchOne? (offset : Nat) (before : Option Sym) (rest : Text) (marker : Text) : Option Match :=
  let word := rest.take marker.length
  let after := rest.drop marker.length
  if word.length = marker.length && Text.foldPrefixOf marker word &&
      isBoundary before rest.head? &&
      isBoundary (if word.isEmpty then before else word.getLast?) after.head? then
    some ⟨offset, word, after.head? = some (.char ':')⟩
  else none

/-- What is found where `rest` starts: the first marker in the given order, and, if that one is
empty, the first one after it that is not. -/
def matchesAt (markers : List Text) (offset : Nat) (before : Option Sym) (rest : Text) :
    List Match :=
  let all := markers.filterMap (matchOne? offset before rest)
  match all with
  | [] => []
  | m :: _ => if m.length = 0 then m :: (all.find? (·.length ≠ 0)).toList else [m]

/-- The markers of a text from left to right, `skip` symbols being part of the last one still. -/
def matchesFrom (markers : List Text) (offset : Nat) (before : Option Sym) :
    (skip : Nat) → Text → List Match
  | 0, [] => matchesAt markers offset before []
  | _ + 1, [] => []
  | 0, s :: rest =>
    let here := matchesAt markers offset before (s :: rest)
    here ++ matchesFrom markers (offset + 1) (some s) (total (here.map Match.length) - 1) rest
  | skip + 1, s :: rest => matchesFrom markers (offset + 1) (some s) skip rest

/-- The remark on a marker, the comment starting at `base`. -/
def remark? (base : Nat) (m : Match) : Option Remark :=
  let start := base + m.offset
  let canonical := Text.upper m.word
  let word : Span := ⟨start, start + m.word.length, Nat.le_add_right _ _⟩
  let metadata : Value := .record [("marker", .text canonical)]
  if m.word = canonical && m.colon then
    some {
      span := ⟨start, start + m.word.length + 1, by omega⟩
      message := canonical ++ " marker."
      severity := some .info
      metadata }
  else if m.word = canonical then
    some {
      span := word
      message := "Marker '" ++ m.word ++ "' should be followed by a colon."
      fix := some {
        span := word
        replacement := .text (canonical ++ ":")
        description := "Rewrite as '" ++ canonical ++ ":'" }
      metadata }
  else if m.colon then
    some {
      span := word
      message := "Marker '" ++ m.word ++ ":' should be written in upper case."
      fix := some {
        span := word
        replacement := canonical
        description := "Rewrite as '" ++ canonical ++ ":'" }
      metadata }
  else none

def inComment (markers : List Text) (t : Token) : List Remark :=
  if t.kind = .comment then (matchesFrom markers 0 none 0 t.text).filterMap (remark? t.start)
  else []

def commentMarkers : RuleKind where
  label := "comment-markers"
  metadata :=
    { id := "comment-markers"
      name := "Comment Markers"
      description := "Comment markers should be upper case and followed by a colon."
      severity := .info
      category := .comments
      tags := ["comments", "markers"]
      autoFixable := true
      options := [(.text "markers", .texts defaultMarkers)] }
  remarks options c := do
    let markers ← ofOption ((options.lookup (.text "markers")).getD (.texts defaultMarkers))
    return if markers.isEmpty then [] else c.tokens.toList.flatMap (inComment markers)

end HouseStyle.Rule.Markers
