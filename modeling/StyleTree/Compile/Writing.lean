import StyleTree.Level.Basic

/-!
What can go wrong when a style is compiled, and computations that write into a level. Only functions
supplied from outside fail; the error names the property and keeps the reason that the function
gave. What a computation wrote before it failed stays written.
-/

namespace StyleTree

/-! ### Errors -/

inductive StyleError
  | themed (property reason : String)
  | shorthand (property reason : String)
  deriving DecidableEq, Inhabited

namespace StyleError

def property : StyleError → String
  | themed p _ => p
  | shorthand p _ => p

def reason : StyleError → String
  | themed _ r => r
  | shorthand _ r => r

def message : StyleError → String
  | themed p r => "theme value for property '" ++ p ++ "' failed: " ++ r
  | shorthand p r => "map for property '" ++ p ++ "' failed: " ++ r

end StyleError

/-! ### Computations -/

abbrev Writing := ExceptT StyleError (StateM Level)

namespace Writing

/-- What a computation comes to on a level, and the level as it leaves it. -/
def runOn (w : Writing Unit) (level : Level) : Except StyleError Unit × Level :=
  w.run.run level

def set (property : String) (value : Literal) : Writing Unit :=
  modify (·.set property value)

def setThemed (property : String) (answer : Except String Literal) : Writing Unit :=
  match answer with
  | .ok value => set property value
  | .error reason => throw (.themed property reason)

def within (selector : String) (w : Writing Unit) : Writing Unit :=
  ExceptT.mk fun level => level.modifyUnder selector w.runOn

@[simp] theorem runOn_pure (level : Level) : runOn (pure ()) level = (.ok (), level) := rfl

theorem runOn_bind (v w : Writing Unit) (level : Level) :
    runOn (do v; w) level = match runOn v level with
      | (.ok _, level') => runOn w level'
      | (.error e, level') => (.error e, level') := by
  rcases h : v.run.run level with ⟨_ | _, level'⟩ <;>
    simp only [runOn, ExceptT.run_bind, StateT.run_bind, h] <;> rfl

@[simp] theorem runOn_set (property : String) (value : Literal) (level : Level) :
    runOn (set property value) level = (.ok (), level.set property value) := rfl

@[simp] theorem runOn_setThemed_ok (property : String) (value : Literal) (level : Level) :
    runOn (setThemed property (.ok value)) level = (.ok (), level.set property value) := rfl

@[simp] theorem runOn_setThemed_error (property reason : String) (level : Level) :
    runOn (setThemed property (.error reason)) level =
      (.error (.themed property reason), level) := rfl

@[simp] theorem runOn_within (selector : String) (w : Writing Unit) (level : Level) :
    runOn (within selector w) level = level.modifyUnder selector w.runOn := rfl

end Writing

end StyleTree
