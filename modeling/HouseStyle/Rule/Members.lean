import HouseStyle.Rule.Basic

/-! Members of types. Both rules judge by tokens alone, so they advise only and must be asked for:
properties are used through `self`, and methods with a common name prefix stand together. -/

namespace HouseStyle.Rule.Members

def bodyKinds : List Text := ["class", "struct", "enum", "extension", "actor"].map Text.ofString

/-- Members whose bodies have a `self` of their own. -/
def bodyMembers : List Text := ["func", "init", "deinit", "subscript", "var"].map Text.ofString

/-- The braces that open the body of a type. -/
def typeBodies (o : Outline) : List Nat :=
  (o.headers.filter fun (_, s) => s.kind = .declaration && bodyKinds.contains s.keyword).map
    Prod.fst

def isStatic (o : Outline) (s : Segment) : Bool := o.hasModifier s ["static", "class"]

def textAt (o : Outline) (i : Nat) : Text := ((o.token? i).map (·.text)).getD []

/-- The names of the properties among members. -/
def properties (o : Outline) (members : List Segment) : List Text :=
  (members.filter fun s => s.kind = .declaration &&
      (["var", "let"] : List Text).contains s.keyword && !isStatic o s).flatMap fun s =>
    (o.bindingNames s).map (textAt o)

/-- The identifier at an index, if there is one. -/
def identifier? (o : Outline) (i : Option Nat) : Option Text :=
  match i.bind o.token? with
  | some t => if t.kind = .identifier then some t.text else none
  | none => none

/-- The indices strictly between two. -/
def inside (i j : Nat) : List Nat := List.range' (i + 1) (j - (i + 1))

/-- The names of the parameters of a member, read off before each colon in its first parentheses. -/
def parameters (o : Outline) (member : Segment) : List Text :=
  match (member.indices.drop (member.lead + 1)).find? (o.at_ · (·.isMark '(')) with
  | none => []
  | some opener =>
    match o.partner? opener with
    | none => []
    | some close =>
      ((inside opener close).filter fun i =>
          o.nestingAt i = o.nestingAt opener + 1 && o.at_ i (·.isMark ':')).filterMap fun i =>
        identifier? o (o.prev? i)

/-- The identifiers in front of an index, back to the first token that is neither an identifier, a
comma nor a parenthesis, and not before the brace of the body. -/
def namesBefore (o : Outline) (bodyOpen : Nat) : (fuel : Nat) → Nat → List Text
  | 0, _ => []
  | fuel + 1, i =>
    match o.prev? i with
    | none => []
    | some p =>
      if p ≤ bodyOpen then []
      else match o.token? p with
        | none => []
        | some t =>
          if t.kind = .identifier then t.text :: namesBefore o bodyOpen fuel p
          else if t.text = "," || t.text = "(" || t.text = ")" then
            namesBefore o bodyOpen fuel p
          else []

/-- The names that a body binds by declarations, closure signatures and loops. -/
def locals (o : Outline) (bodyOpen bodyClose : Nat) : List Text :=
  (inside bodyOpen bodyClose).flatMap fun i =>
    if o.at_ i (·.isKeyword ["let", "var"]) then (identifier? o (o.next? i)).toList
    else if o.at_ i (·.isKeyword ["in"]) then namesBefore o bodyOpen (i + 1) i
    else []

/-- Whether the identifier at an index is used bare: it is no member of something, no name being
declared and no label. -/
def isBare (o : Outline) (i : Nat) : Bool :=
  !((o.prev? i).map (o.at_ · fun t => t.isMark '.' || t.isKeyword ["let", "var"])).getD false &&
  !((o.next? i).map (o.at_ · (·.isMark ':'))).getD false

def inBody (o : Outline) (bodyOpen bodyClose : Nat) (names : List Text) : List Remark :=
  (inside bodyOpen bodyClose).filterMap fun i =>
    match o.token? i with
    | none => none
    | some t =>
      if t.kind = .identifier && names.contains t.text && isBare o i then
        some {
          span := t.span
          message :=
            "Member property '" ++ t.text ++ "' should be accessed as 'self." ++ t.text ++ "'."
          metadata := .record [("property", .text t.text)] }
      else none

def inMember (o : Outline) (properties : List Text) (member : Segment) : List Remark :=
  if member.opensBlock && bodyMembers.contains member.keyword && !isStatic o member then
    match member.boundary with
    | none => []
    | some bodyOpen =>
      match o.partner? bodyOpen with
      | none => []
      | some bodyClose =>
        let shadowed := parameters o member ++ locals o bodyOpen bodyClose
        inBody o bodyOpen bodyClose (properties.filter fun name => !shadowed.contains name)
  else []

def inType (o : Outline) (brace : Nat) : List Remark :=
  let members := o.members (some brace)
  let names := properties o members
  if names.isEmpty then [] else members.flatMap (inMember o names)

def selfPrefix : RuleKind where
  label := "self-prefix"
  metadata :=
    { id := "self-prefix"
      name := "Self Prefix"
      description := "Member properties should be accessed through 'self'."
      severity := .info
      category := .naming
      tags := ["conventions", "members"]
      advisory := true
      enabledByDefault := false }
  remarks _ c := .ok ((typeBodies c.outline).flatMap (inType c.outline))

/-! ### Grouping of methods -/

/-- The name token of each method among members. -/
def methodName? (o : Outline) (s : Segment) : Option Token :=
  if s.kind = .declaration && s.keyword = "func" then
    (s.indices[s.lead + 1]?).bind o.token?
  else none

def isLowerLetter : Sym → Bool
  | .char c => 'a' ≤ c && c ≤ 'z'
  | _ => false

/-- The prefix of a method: underscores and the first lower-case word. Any other name is a prefix
of its own. -/
def prefixOf (name : Token) : Text :=
  let lines := name.text.takeWhile (·.is '_')
  let word := (name.text.drop lines.length).takeWhile isLowerLetter
  if name.kind = .identifier && !word.isEmpty then lines ++ word
  else "<" ++ name.text ++ ">"

/-- Remarks on methods whose prefix came up before, other than right before. -/
def separated (seen : List Text) (previous : Option Text) : List Token → List Remark
  | [] => []
  | name :: rest =>
    let pre := prefixOf name
    let others := separated (pre :: seen) (some pre) rest
    if previous ≠ some pre && seen.contains pre then
      { span := name.span
        message :=
          "Method '" ++ name.text ++ "' is separated from the other '" ++ pre ++ "' methods."
        metadata := .record [("prefix", .text pre)] } :: others
    else others

def inContainer (o : Outline) (container : Option Nat) : List Remark :=
  separated [] none ((o.members container).filterMap (methodName? o))

def methodGrouping : RuleKind where
  label := "method-grouping"
  metadata :=
    { id := "method-grouping"
      name := "Method Grouping"
      description := "Methods sharing a name prefix should be grouped together."
      severity := .info
      category := .grouping
      tags := ["conventions", "members"]
      advisory := true
      enabledByDefault := false }
  remarks _ c :=
    .ok ((none :: (typeBodies c.outline).map some).flatMap (inContainer c.outline))

end HouseStyle.Rule.Members
