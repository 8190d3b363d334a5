import HouseStyle.Rule.Basic

/-! Brace placement: the brace of a block stands on the line on which its header ends. -/

namespace HouseStyle.Rule.Braces

/-- The tokens strictly between two indices. -/
def tokensBetween (o : Outline) (i j : Nat) : List Token := (o.tokens.extract (i + 1) j).toList

/-- Remarks on the brace of a block that stands below its header. A comment in between is kept, so
there is no fix then. -/
def misplaced (c : Context) (block : Nat × Segment) : Except RuleFailure (List Remark) :=
  let (index, header) := block
  match c.outline.token? index, c.outline.token? header.last with
  | some brace, some last =>
    if (c.position last.stop).line = brace.line then .ok []
    else do
      let commented := (tokensBetween c.outline header.last index).any (·.kind = .comment)
      let fix : Option Fix ←
        if commented then pure none
        else do
          let span ← Span.between last.stop brace.start
          pure (some
            { span, replacement := .text " ", description := "Move the brace up to the previous line" })
      let introducer :=
        if header.keyword.isEmpty then ((c.outline.token? header.first).map (·.text)).getD []
        else header.keyword
      return [{
        span := brace.span
        message := "Opening brace should be on the same line as '" ++ introducer ++ "'."
        fix }]
  | _, _ => .ok []

def bracePlacement : RuleKind where
  label := "brace-placement"
  metadata :=
    { id := "brace-placement"
      name := "Brace Placement"
      description :=
        "Opening braces should be on the same line as the statement that opens the block."
      severity := .warning
      category := .bracing
      tags := ["formatting", "braces"]
      autoFixable := true }
  remarks _ c := Remark.collect (misplaced c) c.outline.headers

end HouseStyle.Rule.Braces
