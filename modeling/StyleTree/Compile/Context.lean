import StyleTree.Resolver
import StyleTree.Spec

/-!
What is known while a style is compiled, and where it sends the branches of a choice: what is
written under a selector name goes to the same level, to the level of a selector, or nowhere.
-/

namespace StyleTree

structure Context where
  theme : Theme
  resolvers : Resolvers
  boundary : Option Boundary

/-- Where the branch under a selector name goes. -/
inductive Target
  /-- To the same level, in its turn. -/
  | base
  /-- To the same level, after all branches that are not pinned. -/
  | pinned
  /-- To the level of a selector. -/
  | under (selector : String)
  /-- Nowhere: the branch is not even evaluated. -/
  | dropped
  deriving DecidableEq

namespace Context

def resolve (context : Context) (name : String) : Option String :=
  context.resolvers.resolve name context.theme context.boundary

/-- The name `default` is never resolved. A branch whose name resolves to the element itself is
pinned. -/
def target (context : Context) (name : String) : Target :=
  if name = Branches.baseName then .base
  else match context.resolve name with
    | none => .dropped
    | some selector => if selector = selfSelector then .pinned else .under selector

@[simp] theorem target_baseName (context : Context) :
    context.target Branches.baseName = .base := by
  simp [target]

theorem target_of_resolve_none {context : Context} {name : String}
    (hn : name ≠ Branches.baseName) (h : context.resolve name = none) :
    context.target name = .dropped := by
  simp [target, hn, h]

theorem target_of_resolve_self {context : Context} {name : String}
    (hn : name ≠ Branches.baseName) (h : context.resolve name = some selfSelector) :
    context.target name = .pinned := by
  simp [target, hn, h]

theorem target_of_resolve {context : Context} {name selector : String}
    (hn : name ≠ Branches.baseName) (h : context.resolve name = some selector)
    (hs : selector ≠ selfSelector) : context.target name = .under selector := by
  simp [target, hn, h, hs]

theorem target_eq_under_iff {context : Context} {name selector : String} :
    context.target name = .under selector ↔
      name ≠ Branches.baseName ∧ context.resolve name = some selector ∧
        selector ≠ selfSelector := by
  constructor
  · intro h
    by_cases hn : name = Branches.baseName
    · rw [hn, target_baseName] at h
      cases h
    · cases hresolve : context.resolve name with
      | none =>
          rw [target_of_resolve_none hn hresolve] at h
          cases h
      | some other =>
          by_cases hs : other = selfSelector
          · rw [hs] at hresolve
            rw [target_of_resolve_self hn hresolve] at h
            cases h
          · rw [target_of_resolve hn hresolve hs] at h
            obtain rfl := Target.under.inj h
            exact ⟨hn, rfl, hs⟩
  · rintro ⟨hn, hresolve, hs⟩
    exact target_of_resolve hn hresolve hs

end Context

end StyleTree
