import Mathlib.Data.List.Forall2
import Mathlib.Logic.Relation
import StyleTree.Proofs.Dropped

/-!
Choices with a single branch. Where the branch is that of the element itself, under `default` or
pinned, the choice is a wrapper that does not show, wherever it stands: it has the events of what is
inside it, in the same order. Nor does it show whether a choice has only dropped branches or is left
empty. A branch under a selector does show: each wrapper with its name is one level more.
-/

namespace StyleTree

/-- One wrapper is taken off, or one choice without a branch that is evaluated becomes empty, at the
top of a value or anywhere inside it. -/
inductive Value.Unwraps (context : Context) : Value → Value → Prop
  | base (value : Value) : Unwraps context (.branches [(Branches.baseName, value)]) value
  | self {name : String} (value : Value) (hself : context.resolve name = some selfSelector) :
      Unwraps context (.branches [(name, value)]) value
  | dropped {entries : List (String × Value)}
      (hdropped : ∀ entry ∈ entries, context.drops entry = true) :
      Unwraps context (.branches entries) .empty
  | inside (before after : List (String × Value)) {name : String} {value other : Value}
      (h : Unwraps context value other) :
      Unwraps context (.branches (before ++ (name, value) :: after))
        (.branches (before ++ (name, other) :: after))

/-- The specifications have the same properties in the same order, with values that differ in any
number of wrappers and choices without a branch that is evaluated. -/
def Spec.Rewrapped (context : Context) (spec other : Spec) : Prop :=
  List.Forall₂ (fun entry other : String × Value =>
    entry.1 = other.1 ∧ Relation.EqvGen (Value.Unwraps context) entry.2 other.2)
    spec.pairs other.pairs

/-- The level inside `n` others, each of which holds nothing but the next one under the selector. -/
def Level.boxed (selector : String) (level : Level) : Nat → Level
  | 0 => level
  | n + 1 => ⟨[(selector, .nested (boxed selector level n).entries)]⟩

/-! ### Wrappers have the events of what is inside them -/

section

variable {context : Context}

theorem Context.target_of_self {name : String}
    (h : name = Branches.baseName ∨ context.resolve name = some selfSelector) :
    context.target name = .base ∨ context.target name = .pinned := by
  by_cases hname : name = Branches.baseName
  · exact .inl (hname ▸ context.target_baseName)
  · exact .inr (Context.target_of_resolve_self hname (h.resolve_left hname))

theorem Value.events_wrapped {name : String} (h : context.target name = .base ∨
    context.target name = .pinned) (value : Value) :
    (Value.branches [(name, value)]).events context = value.events context := by
  rw [Value.events_branches, List.flatMap_singleton, List.flatMap_singleton]
  rcases h with h | h <;> rw [h]
  · exact List.append_nil _
  · exact List.nil_append _

theorem Value.Unwraps.events_eq {value other : Value} (h : value.Unwraps context other) :
    value.events context = other.events context := by
  induction h with
  | base value => exact Value.events_wrapped (Context.target_of_self (.inl rfl)) value
  | self value hself => exact Value.events_wrapped (Context.target_of_self (.inr hself)) value
  | dropped hdropped =>
      exact Value.events_of_dropped fun entry hentry =>
        Context.target_of_drops (hdropped entry hentry)
  | inside before after _ ih =>
      -- The branch has the same events in either round, and so have those around it.
      simp only [Value.events_branches, List.flatMap_append, List.flatMap_cons, ih]

theorem Value.events_eq_of_eqvGen {value other : Value}
    (h : Relation.EqvGen (Value.Unwraps context) value other) :
    value.events context = other.events context :=
  congrArg (Quot.lift (Value.events context) fun _ _ h => h.events_eq) (Quot.eqvGen_sound h)

theorem Value.eqvGen_nest {name : String}
    (h : name = Branches.baseName ∨ context.resolve name = some selfSelector) (value : Value)
    (n : Nat) : Relation.EqvGen (Value.Unwraps context) (value.nest name n) value := by
  induction n with
  | zero => exact .refl value
  | succ n ih =>
      refine .trans _ _ _ (.rel _ _ ?_) ih
      rcases h with rfl | hself
      · exact .base _
      · exact .self _ hself

theorem Spec.Rewrapped.events_eq {spec other : Spec} (h : spec.Rewrapped context other) :
    spec.events context = other.events context := by
  obtain ⟨pairs, hpairs⟩ := spec
  obtain ⟨others, hothers⟩ := other
  simp only [Spec.Rewrapped, Spec.events] at h ⊢
  clear hpairs hothers
  induction h with
  | nil => rfl
  | cons hentry _ ih =>
      rw [List.flatMap_cons, List.flatMap_cons, ih, hentry.1, Value.events_eq_of_eqvGen hentry.2]

end

/-! ### Wrappers that open a level -/

section

variable {context : Context} {name selector : String}

theorem Value.write_under (h : context.target name = .under selector) (property : String)
    (value : Value) :
    (Value.branches [(name, value)]).write context property =
      Writing.within selector (value.write context property) := by
  rw [Value.write, Branches.writeFirst, Branches.writeFirst, Branches.writePinned,
    Branches.writePinned, h]
  exact (bind_pure _).trans (bind_pure _)

theorem Value.runOn_write_nest (h : context.target name = .under selector) (property : String)
    (value : Value) (n : Nat) :
    ((value.nest name n).write context property).runOn ∅ =
      (((value.write context property).runOn ∅).1,
        ((value.write context property).runOn ∅).2.boxed selector n) := by
  induction n with
  | zero => rfl
  | succ n ih =>
      have hempty : (∅ : Level).under selector = ∅ := rfl
      rw [Value.nest, Value.write_under h, Writing.runOn_within, Level.modifyUnder, hempty, ih]
      rfl

end

/-- A wrapper under `default` or under a name of the element itself does not show, wherever it
stands and however often it is repeated, and a choice whose branches are all dropped is as good as
an empty value: the same is written into any level, with the same failure, and specifications
compile to the same. Under a selector each of `n` wrappers opens one more level and writes nothing
else into it. -/
theorem Value.wrappers_transparent (context : Context) (property : String) :
    (∀ value other : Value, Relation.EqvGen (Value.Unwraps context) value other → ∀ level,
      (value.write context property).runOn level = (other.write context property).runOn level) ∧
    (∀ name, name = Branches.baseName ∨ context.resolve name = some selfSelector →
      ∀ (value : Value) n level, ((value.nest name n).write context property).runOn level =
        (value.write context property).runOn level) ∧
    (∀ spec other : Spec, spec.Rewrapped context other →
      spec.compile context = other.compile context) ∧
    ∀ name selector, name ≠ Branches.baseName → context.resolve name = some selector →
      selector ≠ selfSelector → ∀ (value : Value) n,
        ((value.nest name n).write context property).runOn ∅ =
          (((value.write context property).runOn ∅).1,
            ((value.write context property).runOn ∅).2.boxed selector n) := by
  have hwrite : ∀ value other : Value, Relation.EqvGen (Value.Unwraps context) value other →
      ∀ level, (value.write context property).runOn level =
        (other.write context property).runOn level := by
    intro value other h level
    rw [Value.write_eq_forM, Value.write_eq_forM, Value.events_eq_of_eqvGen h]
  refine ⟨hwrite, ?_, ?_, ?_⟩
  · exact fun name hname value n => hwrite _ _ (Value.eqvGen_nest hname value n)
  · intro spec other h
    rw [Spec.compile_eq_events, Spec.compile_eq_events, h.events_eq]
  · intro name selector hname hresolve hselector value n
    exact Value.runOn_write_nest (Context.target_of_resolve hname hresolve hselector) property
      value n

def Context.card : Context where
  theme := ∅
  resolvers := Resolvers.builtin
  boundary := some (((ClassBoundary.ofClass "card").pin .checked true).pin .active false).toBoundary

/-- The colour of a plate, with one value that may be wrapped and one that may be missing. -/
def Value.plate (wrapped unused : Value) : Value := .branches [
  ("hover", .branches [("checked", wrapped), ("default", .literal (.text "blue"))]),
  ("focus", unused),
  ("default", .literal (.text "grey"))]

def Value.plateBare : Value := plate (.literal (.text "navy")) .empty

/-- Two wrappers in a pinned branch of the hovered card, and a failure that only an active card
would come to. -/
def Value.plateWrapped : Value :=
  plate (.branches [("checked", .branches [("default", .literal (.text "navy"))])])
    (.branches [("active", .themed fun _ => .error "no colour")])

theorem Value.plate_eqvGen : Relation.EqvGen (Unwraps Context.card) plateWrapped plateBare := by
  have hinside {value other : Value} (unused : Value) (h : Unwraps Context.card value other) :
      Relation.EqvGen (Unwraps Context.card) (plate value unused) (plate other unused) :=
    .rel _ _ (.inside [] _ (.inside [] _ h))
  have hdropped : Unwraps Context.card
      (.branches [("active", .themed fun _ => .error "no colour")]) .empty := by
    refine .dropped fun entry hentry => ?_
    obtain rfl := List.mem_singleton.1 hentry
    rfl
  exact .trans _ _ _ (hinside _ (.self _ rfl)) (.trans _ _ _ (hinside _ (.base _))
    (.rel _ _ (.inside [("hover", _)] [("default", _)] hdropped)))

theorem Value.plate_wrappers_transparent :
    Relation.EqvGen (Unwraps Context.card) plateWrapped plateBare ∧
    (∀ level, (plateWrapped.write Context.card "color").runOn level =
      (plateBare.write Context.card "color").runOn level) ∧
    Context.card.resolve "checked" = some selfSelector ∧
    (∀ level, ((plateBare.nest "checked" 3).write Context.card "color").runOn level =
      (plateBare.write Context.card "color").runOn level) ∧
    (∃ spec other : Spec, spec.pairs = [("color", plateWrapped)] ∧
      other.pairs = [("color", plateBare)] ∧ spec.Rewrapped Context.card other ∧
      spec.compile Context.card = other.compile Context.card) ∧
    Context.card.resolve "hover" = some ".card:hover &" ∧
    ((plateBare.nest "hover" 2).write Context.card "color").runOn ∅ = (.ok (), ⟨[
      (".card:hover &", .nested [(".card:hover &", .nested [
        (".card:hover &", .nested [("color", .literal (.text "navy"))]),
        (".card:focus &", .nested []),
        ("color", .literal (.text "grey"))])])]⟩) := by
  obtain ⟨hvalues, hnest, hspecs, hunder⟩ := Value.wrappers_transparent Context.card "color"
  have hrewrapped : Spec.Rewrapped Context.card (.ofPairs [("color", plateWrapped)])
      (.ofPairs [("color", plateBare)]) := .cons ⟨rfl, plate_eqvGen⟩ .nil
  exact ⟨plate_eqvGen, hvalues _ _ plate_eqvGen, rfl, hnest "checked" (.inr rfl) plateBare 3,
    ⟨_, _, rfl, rfl, hrewrapped, hspecs _ _ hrewrapped⟩, rfl,
    hunder "hover" ".card:hover &" (by decide) rfl (by decide) plateBare 2⟩

end StyleTree
