import HouseStyle.Finding.Basic

/-! Reports: the findings of a run in report order, what the run covered, and what went wrong. -/

namespace HouseStyle

structure Report where
  /-- In report order. -/
  findings : List Finding := []
  filesChecked : Nat := 0
  rulesApplied : List Text := []
  errors : List Text := []
  warnings : List Text := []
  fixesApplied : Nat := 0
  fixesSkipped : Nat := 0
  deriving Repr, Inhabited

namespace Report

/-- A report on findings in any order. -/
def ofFindings (findings : List Finding) (rest : Report := {}) : Report :=
  { rest with findings := Finding.sort findings }

/-- Whether any finding that is not suppressed is an error. -/
def hasErrors (r : Report) : Bool := r.findings.any fun f => !f.suppressed && f.severity = .error

end Report

/-- The name and the version that documents give. -/
def toolName : Text := "stylescanner"

def toolVersion : Text := "1.0.0"

end HouseStyle
