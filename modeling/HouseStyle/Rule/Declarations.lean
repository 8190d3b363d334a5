import HouseStyle.Rule.Basic

/-! Declarations: variables carry explicit types, and optionals are not unwrapped by force. Neither
rule offers a fix. -/

namespace HouseStyle.Rule.Declarations

/-- Remarks on the names of a declaration that no colon follows. -/
def untyped (o : Outline) (s : Segment) : List Remark :=
  if s.kind = .declaration && (["var", "let"] : List Text).contains s.keyword then
    ((o.bindingNames s).filter fun i =>
        !((o.next? i).map (o.at_ · (·.isMark ':'))).getD false).filterMap fun i =>
      (o.token? i).map fun name =>
        { span := name.span
          message := "'" ++ name.text ++ "' should be declared with an explicit type."
          metadata := .record [("name", .text name.text)] }
  else []

def explicitTyping : RuleKind where
  label := "explicit-typing"
  metadata :=
    { id := "explicit-typing"
      name := "Explicit Typing"
      description := "Variable declarations should carry an explicit type annotation."
      severity := .warning
      category := .typing
      tags := ["declarations", "typing"] }
  remarks _ c := .ok (c.outline.segments.flatMap (untyped c.outline))

/-- The message about an exclamation mark at an index; none where it does not follow an operand. -/
def forcing? (o : Outline) (i : Nat) : Option Text :=
  if i = 0 then none
  else match o.token? (i - 1) with
    | none => none
    | some previous =>
      if previous.isKeyword ["as"] then some "Forced cast 'as!' should be avoided."
      else if previous.isKeyword ["try"] then some "Forced 'try!' should be avoided."
      else if previous.kind = .identifier ||
          ((")" : Text) = previous.text || ("]" : Text) = previous.text ||
            (">" : Text) = previous.text) then
        let typed := ((o.prev? (i - 1)).map
          (o.at_ · fun t => t.text = ":" || t.text = "->")).getD false
        if previous.kind = .identifier && typed then
          some ("Implicitly unwrapped optional '" ++ previous.text ++ "!' should be avoided.")
        else some "Force unwrap should be avoided."
      else none

def forced (o : Outline) (i : Nat) : Option Remark :=
  match o.token? i with
  | none => none
  | some mark =>
    if mark.isMark '!' then (forcing? o i).map fun message => { span := mark.span, message }
    else none

def forceUnwrap : RuleKind where
  label := "force-unwrap"
  metadata :=
    { id := "force-unwrap"
      name := "Force Unwrap"
      description := "Avoid forced unwrapping; bind optionals safely instead."
      severity := .warning
      category := .safety
      tags := ["safety", "optionals"] }
  remarks _ c := .ok ((List.range c.tokens.size).filterMap (forced c.outline))

end HouseStyle.Rule.Declarations
