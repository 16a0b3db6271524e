import StyleTree.Compile.Writing
import StyleTree.Spec

/-!
Shorthand properties: each is replaced by the properties that its expansion makes of its value.
Expansions run in the order of the table, once each, so the properties that one of them makes are
expanded again only by those that come later.
-/

namespace StyleTree

/-- Expands the value of a shorthand property; it may fail with a reason. -/
abbrev Shorthand := Value → Theme → Except String Spec

abbrev Shorthands := Table Shorthand

namespace Shorthands

/-- Expands one property if the specification has it: the property is taken out, and what its
expansion makes is laid over the rest. -/
def expandOne (theme : Theme) (spec : Spec) (property : String) (shorthand : Shorthand) :
    Except StyleError Spec :=
  match spec.get? property with
  | none => .ok spec
  | some value =>
      match shorthand value theme with
      | .ok expanded => .ok ((spec.erase property).merge expanded)
      | .error reason => .error (.shorthand property reason)

def expand (table : Shorthands) (spec : Spec) (theme : Theme) : Except StyleError Spec :=
  table.pairs.foldlM (fun spec entry => expandOne theme spec entry.1 entry.2) spec

@[simp] theorem expand_empty (spec : Spec) (theme : Theme) :
    expand ∅ spec theme = .ok spec := rfl

theorem expandOne_of_get?_none {spec : Spec} {property : String}
    (h : spec.get? property = none) (theme : Theme) (shorthand : Shorthand) :
    expandOne theme spec property shorthand = .ok spec := by
  simp [expandOne, h]

theorem expandOne_of_ok {theme : Theme} {spec expanded : Spec} {property : String} {value : Value}
    {shorthand : Shorthand} (h : spec.get? property = some value)
    (he : shorthand value theme = .ok expanded) :
    expandOne theme spec property shorthand = .ok ((spec.erase property).merge expanded) := by
  simp [expandOne, h, he]

theorem expandOne_of_error {theme : Theme} {spec : Spec} {property reason : String} {value : Value}
    {shorthand : Shorthand} (h : spec.get? property = some value)
    (he : shorthand value theme = .error reason) :
    expandOne theme spec property shorthand = .error (.shorthand property reason) := by
  simp [expandOne, h, he]

def describe (table : Shorthands) : String := Text.nameSet table.keys

end Shorthands

end StyleTree
