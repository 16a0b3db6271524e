import StyleTree.Level.Basic
import StyleTree.Table.Lemmas

/-!
What writing does to a level: the key that is written has the new entry, all other keys keep
theirs, and no key that was there moves. Writing twice under one selector starts the second time
from what the first time left.
-/

namespace StyleTree.Level

theorem get?_set (level : Level) (property key : String) (value : Literal) :
    (level.set property value).get? key =
      if key = property then some (.literal value) else level.get? key :=
  Pairs.lookup_insert property key _ level.entries

theorem get?_nest (level : Level) (selector key : String) (inner : Level) :
    (level.nest selector inner).get? key =
      if key = selector then some (.nested inner.entries) else level.get? key :=
  Pairs.lookup_insert selector key _ level.entries

theorem keys_set (level : Level) (property : String) (value : Literal) :
    (level.set property value).keys =
      if property ∈ level.keys then level.keys else level.keys ++ [property] := by
  split
  · exact Pairs.keys_insert_of_mem _ ‹_›
  · exact Pairs.keys_insert_of_not_mem _ ‹_›

theorem keys_nest (level : Level) (selector : String) (inner : Level) :
    (level.nest selector inner).keys =
      if selector ∈ level.keys then level.keys else level.keys ++ [selector] := by
  split
  · exact Pairs.keys_insert_of_mem _ ‹_›
  · exact Pairs.keys_insert_of_not_mem _ ‹_›

theorem nested?_eq_some_iff {level inner : Level} {selector : String} :
    level.nested? selector = some inner ↔ level.get? selector = some (.nested inner.entries) := by
  rw [nested?, Option.bind_eq_some_iff]
  constructor
  · rintro ⟨entry, hentry, hlevel⟩
    cases entry with
    | literal value => cases hlevel
    | nested entries => cases hlevel; exact hentry
  · exact fun h => ⟨_, h, rfl⟩

theorem literal?_eq_some_iff {level : Level} {property : String} {value : Literal} :
    level.literal? property = some value ↔ level.get? property = some (.literal value) := by
  rw [literal?, Option.bind_eq_some_iff]
  constructor
  · rintro ⟨entry, hentry, hliteral⟩
    cases entry with
    | literal value => cases hliteral; exact hentry
    | nested entries => cases hliteral
  · exact fun h => ⟨_, h, rfl⟩

theorem literal?_set (level : Level) (property key : String) (value : Literal) :
    (level.set property value).literal? key =
      if key = property then some value else level.literal? key := by
  simp only [literal?, get?_set]
  split <;> rfl

theorem nested?_nest (level : Level) (selector key : String) (inner : Level) :
    (level.nest selector inner).nested? key =
      if key = selector then some inner else level.nested? key := by
  simp only [nested?, get?_nest]
  split <;> rfl

theorem literal?_nest (level : Level) (selector key : String) (inner : Level) :
    (level.nest selector inner).literal? key =
      if key = selector then none else level.literal? key := by
  simp only [literal?, get?_nest]
  split <;> rfl

theorem nested?_set (level : Level) (property key : String) (value : Literal) :
    (level.set property value).nested? key =
      if key = property then none else level.nested? key := by
  simp only [nested?, get?_set]
  split <;> rfl

@[simp] theorem under_nest_self (level : Level) (selector : String) (inner : Level) :
    (level.nest selector inner).under selector = inner := by
  simp [under, nested?_nest]

@[simp] theorem nest_nest_self (level : Level) (selector : String) (inner other : Level) :
    (level.nest selector inner).nest selector other = level.nest selector other := by
  simp [nest]

/-- Working twice under one selector is working there once, one after the other. -/
theorem modifyUnder_modifyUnder {α β : Type} (level : Level) (selector : String)
    (f : Level → α × Level) (g : Level → β × Level) :
    (level.modifyUnder selector f).2.modifyUnder selector g =
      level.modifyUnder selector fun inner => g (f inner).2 := by
  simp [modifyUnder]

end StyleTree.Level
