import HouseStyle.Rule.Termination

/-! Parentheses of control headers: the condition of an `if` is wrapped in parentheses, the header
of a `for` with `in` is not, and the header of a `for` with three clauses is. -/

namespace HouseStyle.Rule.Parentheses

/-- The token indices after a keyword in a control header. After `else` the keyword is looked for
one token further on. -/
def headerTail (o : Outline) (s : Segment) (keyword : Text) : List Nat :=
  if s.kind = .controlHeader then
    let pos := if s.keyword = "else" then s.lead + 1 else s.lead
    match s.indices.drop pos with
    | [] => []
    | i :: tail => if o.at_ i (·.isKeyword [keyword]) then tail else []
  else []

/-- The first and the last index of a run, unless the run is empty. -/
def ends? (run : List Nat) : Option (Nat × Nat) :=
  match run.head?, run.getLast? with
  | some first, some last => some (first, last)
  | _, _ => none

/-- The source between two offsets. -/
def sourceOf (c : Context) (start stop : Nat) : Text := (c.content.drop start).take (stop - start)

/-- A remark that puts parentheses around a run. -/
def wrapping (c : Context) (run : List Nat) (message description : Text) :
    Except RuleFailure (List Remark) :=
  match ends? run with
  | none => .ok []
  | some (i, j) =>
    match c.outline.token? i, c.outline.token? j with
    | some first, some last => do
      let span ← Span.between first.start last.stop
      return [{
        span, message
        fix := some {
          span
          replacement := .text (.char '(' :: sourceOf c first.start last.stop ++ [.char ')'])
          description } }]
    | _, _ => .ok []

/-! ### Conditions -/

/-- Bindings, patterns, availability checks and lists of conditions cannot be wrapped. -/
def canWrap (o : Outline) (condition : List Nat) : Bool :=
  match ends? condition with
  | none => false
  | some (first, last) =>
    let binds (i : Nat) : Bool := o.at_ i (·.isKeyword ["let", "var", "case"])
    !(binds first || o.at_ first (·.isMark '#')) &&
    !(condition.filter (o.nestingAt · = o.nestingAt first)).any
      (fun i => o.at_ i (·.isMark ',') || binds i) &&
    !Termination.hasUnterminated o first last

def unwrapped (c : Context) (s : Segment) : Except RuleFailure (List Remark) :=
  let condition := headerTail c.outline s "if"
  if s.opensBlock && !c.outline.isWrapped condition && canWrap c.outline condition then
    wrapping c condition "Condition of 'if' should be enclosed in parentheses."
      "Wrap the condition in parentheses"
  else .ok []

def controlConditionParens : RuleKind where
  label := "control-condition-parens"
  metadata :=
    { id := "control-condition-parens"
      name := "Control Condition Parentheses"
      description := "Conditions of if statements should be enclosed in parentheses."
      severity := .warning
      category := .grouping
      tags := ["formatting", "control-flow"]
      autoFixable := true }
  remarks _ c := Remark.collect (unwrapped c) c.outline.segments

/-! ### Loop headers -/

/-- A remark that takes the parentheses of a loop header away. Blanks keep the loop text from
running into `for` and into the brace. -/
def unwrapping (c : Context) (header : List Nat) : Except RuleFailure (List Remark) :=
  match ends? header with
  | none => .ok []
  | some (i, j) =>
    match c.outline.token? i, c.outline.token? j with
    | some opener, some closer => do
      let inner := Text.strip (sourceOf c opener.stop closer.start)
      let before : Text :=
        if 0 < i && c.outline.at_ (i - 1) (·.isKeyword ["for"]) then " " else []
      let after : Text := if c.outline.at_ (j + 1) (·.isMark '{') then " " else []
      let span ← Span.between opener.start closer.stop
      return [{
        span
        message := "for-in loop header should not be enclosed in parentheses."
        fix := some {
          span
          replacement := .text (before ++ inner ++ after)
          description := "Remove the parentheses" } }]
    | _, _ => .ok []

def misgrouped (c : Context) (s : Segment) : Except RuleFailure (List Remark) :=
  let o := c.outline
  let header := headerTail o s "for"
  match ends? header with
  | none => .ok []
  | some (first, last) =>
    if Termination.hasUnterminated o first last then .ok []
    else
      let level := o.nestingAt first
      let divides (i : Nat) : Bool := o.at_ i (·.isPunct c.ending)
      if o.isWrapped header then
        let inner := (header.drop 1).dropLast.filter (o.nestingAt · = level + 1)
        if inner.any (fun i => o.at_ i (·.isKeyword ["in"])) && !inner.any divides then
          unwrapping c header
        else .ok []
      else if (header.filter (o.nestingAt · = level)).any divides then
        wrapping c header "Classic for loop header should be enclosed in parentheses."
          "Wrap the loop header in parentheses"
      else .ok []

def forInParenthesization : RuleKind where
  label := "for-in-parenthesization"
  metadata :=
    { id := "for-in-parenthesization"
      name := "For Loop Parentheses"
      description :=
        "for-in headers should not be parenthesized; classic for headers should be."
      severity := .warning
      category := .grouping
      tags := ["formatting", "control-flow"]
      autoFixable := true }
  remarks _ c := Remark.collect (misgrouped c) c.outline.segments

end HouseStyle.Rule.Parentheses
