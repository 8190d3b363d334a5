import HouseStyle.Fault

/-! Presets: patterns of rule ids to switch on and off before the settings of single rules. -/

namespace HouseStyle

structure Preset where
  enabled : List Text
  disabled : List Text
  deriving DecidableEq, Repr

namespace Preset

def strict : Preset := ⟨["*"], []⟩

def standard : Preset := ⟨[], []⟩

def relaxed : Preset := ⟨[], ["explicit-typing", "force-unwrap", "comment-markers"]⟩

/-- The preset of a name. Every key may be a name, even if it is none. -/
def named? (name : Value) : Try (Option Preset) :=
  match name with
  | .text t =>
    .ok (if t = "strict" then some strict
      else if t = "standard" then some standard
      else if t = "relaxed" then some relaxed
      else none)
  | _ => if name.isKey then .ok none else .error (.unhashable name.kindName)

def toValue (p : Preset) : Value :=
  .record [("enabled", .texts p.enabled), ("disabled", .texts p.disabled)]

end Preset
end HouseStyle
