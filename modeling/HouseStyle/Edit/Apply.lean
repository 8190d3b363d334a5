import HouseStyle.Finding.Basic

/-! Applying fixes to a text. Fixes are taken by start, end, rule and message; one that conflicts
with an accepted fix, or lies outside the text, is skipped as a whole. The accepted ones are spliced
in from left to right. -/

namespace HouseStyle

/-- A finding with the fix it carries. -/
structure Proposal where
  finding : Finding
  fix : Fix
  deriving Repr, Inhabited

namespace Proposal

def span (p : Proposal) : Span := p.fix.span

/-- The proposal of a finding, unless it is suppressed or carries no fix. -/
def ofFinding? (f : Finding) : Option Proposal :=
  if f.suppressed then none else f.fix.map (⟨f, ·⟩)

def compareKeys (a b : Proposal) : Ordering :=
  (compare a.span.start b.span.start).then <|
    (compare a.span.stop b.span.stop).then <|
      (Text.compare a.finding.ruleId b.finding.ruleId).then
        (Text.compare a.finding.message b.finding.message)

def keyLe (a b : Proposal) : Bool := compareKeys a b != .gt

end Proposal

/-- Why a fix was not applied. -/
inductive SkipReason where
  | outside
  | overlap (blocker : Proposal)
  deriving Repr, Inhabited

structure Skipped where
  proposal : Proposal
  reason : SkipReason
  deriving Repr, Inhabited

namespace Skipped

def ruleId : Text := "fix-skipped"

/-- The finding that reports a skipped fix. -/
def toFinding (s : Skipped) : Finding :=
  let f := s.proposal.finding
  let (reason, message, conflict) : Text × Text × List (Text × Value) := match s.reason with
    | .outside =>
      let reason : Text := "its span lies outside the text"
      (reason, "Fix for '" ++ f.ruleId ++ "' was not applied: " ++ reason ++ ".", [])
    | .overlap blocker =>
      ("overlapping fix",
        "Fix for '" ++ f.ruleId ++ "' was not applied: it overlaps the fix for '" ++
          blocker.finding.ruleId ++ "'.",
        [("conflicts_with", .text blocker.finding.ruleId)])
  { ruleId := ruleId
    message
    severity := .info
    category := .remediation
    location := f.location
    span := f.span
    metadata :=
      .record (("reason", .text reason) :: ("skipped_rule_id", .text f.ruleId) :: conflict)
    origin := some ⟨f.ruleId, f.message, f.span, f.location⟩ }

end Skipped

/-! ### Selection -/

/-- Accepted and skipped proposals, the latest first. `reach` is the end of the accepted fix that
ends last, and `blocker` is that fix. -/
structure Selection where
  accepted : List Proposal := []
  skipped : List Skipped := []
  reach : Int := -1
  blocker : Proposal := default
  deriving Repr, Inhabited

namespace Selection

def skip (s : Selection) (p : Proposal) (reason : SkipReason) : Selection :=
  { s with skipped := ⟨p, reason⟩ :: s.skipped }

def accept (s : Selection) (p : Proposal) : Selection :=
  let further : Bool := s.reach ≤ (p.span.stop : Int)
  { s with
    accepted := p :: s.accepted
    reach := if further then p.span.stop else s.reach
    blocker := if further then p else s.blocker }

/-- Takes the next proposal for a text of `size` symbols. -/
def step (size : Nat) (s : Selection) (p : Proposal) : Selection :=
  if size < p.span.stop then s.skip p .outside
  else match s.accepted.head? with
    | some last =>
      if p.span.overlaps last.span then s.skip p (.overlap last)
      else if (p.span.start : Int) < s.reach then s.skip p (.overlap s.blocker)
      else s.accept p
    | none =>
      if (p.span.start : Int) < s.reach then s.skip p (.overlap s.blocker) else s.accept p

end Selection

/-- The proposals of findings, in the order in which they are taken. -/
def proposals (findings : List Finding) : List Proposal :=
  (findings.filterMap Proposal.ofFinding?).mergeSort Proposal.keyLe

def select (size : Nat) (ps : List Proposal) : Selection := ps.foldl (Selection.step size) {}

/-! ### Splicing -/

/-- An applied fix, with the span that its replacement has in the new text. -/
structure AppliedEdit where
  proposal : Proposal
  newSpan : Span
  deriving Repr, Inhabited

def AppliedEdit.oldSpan (e : AppliedEdit) : Span := e.proposal.span

/-- The text from `cursor` on with fixes put in; each fix starts at or after the end of the one
before. -/
def splice (text : Text) (cursor : Nat) : List Proposal → Text
  | [] => text.drop cursor
  | p :: rest =>
    (text.drop cursor).take (p.span.start - cursor) ++ p.fix.insertion ++
      splice text p.span.stop rest

/-- The fixes with their new spans; `shift` is how much longer the text has become so far. -/
def placeEdits (shift : Int) : List Proposal → List AppliedEdit
  | [] => []
  | p :: rest =>
    let start := ((p.span.start : Int) + shift).toNat
    let size := p.fix.insertion.length
    ⟨p, ⟨start, start + size, Nat.le_add_right _ _⟩⟩ ::
      placeEdits (shift + size - p.span.length) rest

/-- What became of the fixes for a text. -/
structure FixResult where
  text : Text
  applied : List AppliedEdit := []
  skipped : List Skipped := []
  source : Text := []
  filePath : Text := []
  diff : Text := []
  written : Bool := false
  errorMessage : Option Text := none
  deriving Repr, Inhabited

namespace FixResult

def appliedCount (r : FixResult) : Nat := r.applied.length

def skippedCount (r : FixResult) : Nat := r.skipped.length

def changed (r : FixResult) : Bool := r.text ≠ r.source

def skippedFindings (r : FixResult) : List Finding := r.skipped.map Skipped.toFinding

end FixResult

def applyFixes (text : Text) (findings : List Finding) : FixResult :=
  let selection := select text.length (proposals findings)
  let accepted := selection.accepted.reverse
  { text := splice text 0 accepted
    applied := placeEdits 0 accepted
    skipped := selection.skipped.reverse
    source := text }

end HouseStyle
