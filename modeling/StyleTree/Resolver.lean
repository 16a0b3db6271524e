import StyleTree.Boundary
import StyleTree.Theme
import StyleTree.Text

/-!
Resolvers of selector names. A name that has a resolver stands for whatever the resolver makes of
the theme and the boundary, which may also be nothing. Any other name is a selector as it stands.
-/

namespace StyleTree

/-- Finds the selector that a name stands for. Without one, what is written under the name is left
out of the style. -/
abbrev Resolver := Theme → Option Boundary → Option String

abbrev Resolvers := Table Resolver

def selfSelector : String := "&"

/-- The resolver of an interactive state: without a boundary, the element itself in that state; with
one that leaves the state open, what lies inside it while it is in that state. Where the state is
pinned, it is the element itself or nothing. -/
def PseudoState.resolver (state : PseudoState) : Resolver := fun _ boundary =>
  match boundary with
  | none => some (selfSelector ++ state.pseudoClass)
  | some b =>
      match b.pinned state with
      | some true => some selfSelector
      | some false => none
      | none => some (b.inside state.pseudoClass)

namespace Resolvers

/-- Gives the resolver that `target` has now to another name. Without one, nothing changes. -/
def addAlias (resolvers : Resolvers) (name target : String) : Resolvers :=
  match resolvers.get? target with
  | some resolver => resolvers.insert name resolver
  | none => resolvers

def addState (resolvers : Resolvers) (state : PseudoState) : Resolvers :=
  resolvers.insert state.name state.resolver

def builtin : Resolvers :=
  (∅ : Resolvers)
    |>.addState .active
    |>.addState .checked
    |>.addState .disabled
    |>.addState .focus
    |>.addAlias "focusWithin" PseudoState.focus.name
    |>.addState .hover

def resolve (resolvers : Resolvers) (name : String) (theme : Theme) (boundary : Option Boundary) :
    Option String :=
  match resolvers.get? name with
  | some resolver => resolver theme boundary
  | none => some name

def describe (resolvers : Resolvers) : String := Text.nameSet resolvers.keys

theorem addAlias_of_get? {resolvers : Resolvers} {target : String} {resolver : Resolver}
    (h : resolvers.get? target = some resolver) (name : String) :
    resolvers.addAlias name target = resolvers.insert name resolver := by
  simp [addAlias, h]

theorem addAlias_of_get?_none {resolvers : Resolvers} {target : String}
    (h : resolvers.get? target = none) (name : String) :
    resolvers.addAlias name target = resolvers := by
  simp [addAlias, h]

theorem resolve_of_get? {resolvers : Resolvers} {name : String} {resolver : Resolver}
    (h : resolvers.get? name = some resolver) (theme : Theme) (boundary : Option Boundary) :
    resolvers.resolve name theme boundary = resolver theme boundary := by
  simp [resolve, h]

theorem resolve_of_get?_none {resolvers : Resolvers} {name : String}
    (h : resolvers.get? name = none) (theme : Theme) (boundary : Option Boundary) :
    resolvers.resolve name theme boundary = some name := by
  simp [resolve, h]

end Resolvers

end StyleTree
