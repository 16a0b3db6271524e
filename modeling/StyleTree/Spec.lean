import StyleTree.Value

/-!
Style specifications: properties with their values, in the order in which the compiled style will
show them. Specifications are laid over each other property by property, without looking into the
values. Where a specification is wanted, nothing, one, or a list can be handed over, and in the list
entries may be missing or be lists themselves: all of it means the specifications in order, laid
over each other.
-/

namespace StyleTree

abbrev Spec := Table Value

namespace Spec

/-- The specification made of the members of an object. Any other document makes an empty one. -/
def ofJson (doc : Json) : Spec :=
  Table.ofPairs ((doc.members?.map Value.ofMembers).getD [])

def describe (spec : Spec) : String := Text.nameMap (Value.describeEntries spec.pairs)

end Spec

/-! ### Layers -/

inductive Layer
  | missing
  | spec (spec : Spec)
  /-- A list inside the list, some of whose entries may be missing. -/
  | group (specs : List (Option Spec))
  deriving Inhabited

namespace Layer

def ofOption : Option Spec → Layer
  | some s => spec s
  | none => missing

def ofSpecs (specs : List Spec) : Layer := group (specs.map some)

def specs : Layer → List Spec
  | missing => []
  | spec s => [s]
  | group ss => ss.filterMap id

end Layer

/-- Specifications in layers, the last one on top. -/
inductive Layers
  | none
  | one (spec : Spec)
  | many (layers : List Layer)
  deriving Inhabited

namespace Layers

def ofOption : Option Spec → Layers
  | some s => one s
  | .none => none

def ofSpecs (specs : List Spec) : Layers := many (specs.map .spec)

def ofOptions (specs : List (Option Spec)) : Layers := many (specs.map .ofOption)

def specs : Layers → List Spec
  | none => []
  | one s => [s]
  | many ls => ls.flatMap Layer.specs

/-- The specification that the layers amount to: every property has its place from the first layer
that has it and its value from the last one. -/
def merged (layers : Layers) : Spec := Table.mergeAll layers.specs

@[simp] theorem specs_ofOption (spec : Option Spec) : (ofOption spec).specs = spec.toList := by
  cases spec <;> rfl

@[simp] theorem specs_ofSpecs (specs : List Spec) : (ofSpecs specs).specs = specs := by
  induction specs with
  | nil => rfl
  | cons s ss ih =>
      show s :: (ofSpecs ss).specs = s :: ss
      rw [ih]

@[simp] theorem specs_ofOptions (specs : List (Option Spec)) :
    (ofOptions specs).specs = specs.filterMap id := by
  induction specs with
  | nil => rfl
  | cons s ss ih =>
      show (Layer.ofOption s).specs ++ (ofOptions ss).specs = _
      rw [ih]
      cases s <;> rfl

end Layers

end StyleTree
