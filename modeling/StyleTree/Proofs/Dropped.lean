import StyleTree.Proofs.Replay

/-!
What stands under a name that resolves to nothing has no influence. Such a branch has no events, so
leaving it out at any depth leaves the events of a value as they are, and with them what compiling
comes to: the style with its order, or the error. Two specifications that are the same but for what
stands under such names become the same if these are left out.
-/

namespace StyleTree

def Context.drops (context : Context) (entry : String × Value) : Bool :=
  entry.1 != Branches.baseName && (context.resolve entry.1).isNone

theorem Context.target_of_drops {context : Context} {entry : String × Value}
    (h : context.drops entry = true) : context.target entry.1 = .dropped := by
  rw [Context.drops, Bool.and_eq_true, bne_iff_ne, Option.isNone_iff_eq_none] at h
  exact Context.target_of_resolve_none h.1 h.2

mutual

/-- The value without the branches in question, at any depth. -/
def Value.without (gone : String × Value → Bool) : Value → Value
  | .literal value => .literal value
  | .themed compute => .themed compute
  | .branches entries => .branches (Branches.without gone entries)
  | .empty => .empty

def Branches.without (gone : String × Value → Bool) :
    List (String × Value) → List (String × Value)
  | [] => []
  | (name, value) :: rest =>
      if gone (name, value) then Branches.without gone rest
      else (name, Value.without gone value) :: Branches.without gone rest

end

def Spec.without (gone : String × Value → Bool) (spec : Spec) : Spec :=
  spec.map (Value.without gone)

/-! ### Leaving out what has no events -/

section

variable {context : Context} {gone : String × Value → Bool}

theorem Branches.flatMap_without (events : String → List Event → List Event)
    {entries : List (String × Value)}
    (hgone : ∀ entry ∈ entries, gone entry = true →
      events entry.1 (entry.2.events context) = [])
    (hkept : ∀ entry ∈ entries, (entry.2.without gone).events context = entry.2.events context) :
    ((Branches.without gone entries).flatMap fun e => events e.1 (e.2.events context)) =
      entries.flatMap fun e => events e.1 (e.2.events context) := by
  induction entries with
  | nil => rfl
  | cons entry entries ih =>
      obtain ⟨name, value⟩ := entry
      rw [List.forall_mem_cons] at hgone hkept
      have ih := ih hgone.2 hkept.2
      rw [Branches.without]
      split
      · rename_i h
        rw [ih, List.flatMap_cons, hgone.1 h, List.nil_append]
      · rw [List.flatMap_cons, List.flatMap_cons, ih, hkept.1]

/-- Branches without events can be left out. -/
theorem Value.events_without
    (hgone : ∀ entry, gone entry = true → (Value.branches [entry]).events context = [])
    (value : Value) : (value.without gone).events context = value.events context := by
  induction value with
  | literal value => rfl
  | themed compute => rfl
  | empty => rfl
  | branches entries ih =>
      -- An entry that has no events by itself has none in either round.
      have hnone : ∀ entry, gone entry = true →
          (context.target entry.1).firstEvents (entry.2.events context) = [] ∧
            (context.target entry.1).pinnedEvents (entry.2.events context) = [] := by
        intro entry h
        have hevents := hgone entry h
        rw [Value.events_branches, List.append_eq_nil_iff, List.flatMap_singleton,
          List.flatMap_singleton] at hevents
        exact hevents
      rw [Value.without, Value.events_branches, Value.events_branches,
        Branches.flatMap_without (fun name => (context.target name).firstEvents)
          (fun entry _ h => (hnone entry h).1) ih,
        Branches.flatMap_without (fun name => (context.target name).pinnedEvents)
          (fun entry _ h => (hnone entry h).2) ih]

theorem Spec.events_without
    (hgone : ∀ entry, gone entry = true → (Value.branches [entry]).events context = [])
    (spec : Spec) : (spec.without gone).events context = spec.events context := by
  simp only [Spec.events, Spec.without, Table.pairs_map, List.flatMap_map,
    Value.events_without hgone]

theorem Value.events_of_dropped {entries : List (String × Value)}
    (h : ∀ entry ∈ entries, context.target entry.1 = .dropped) :
    (Value.branches entries).events context = [] := by
  rw [Value.events_branches, List.append_eq_nil_iff, List.flatMap_eq_nil_iff,
    List.flatMap_eq_nil_iff]
  constructor <;>
    · intro entry hentry
      rw [h entry hentry]
      rfl

theorem Spec.compile_without
    (hgone : ∀ entry, gone entry = true → context.target entry.1 = .dropped) (spec : Spec) :
    (spec.without gone).compile context = spec.compile context := by
  have hnone : ∀ entry, gone entry = true → (Value.branches [entry]).events context = [] :=
    fun entry h => Value.events_of_dropped (List.forall_mem_singleton.2 (hgone entry h))
  have hevents := Spec.events_without hnone spec
  rw [Spec.compile_eq_events, Spec.compile_eq_events, hevents]

end

/-! ### Values that are alike where it matters -/

/-- The values differ at most in what stands under dropped names. -/
inductive Value.Alike (context : Context) : Value → Value → Prop
  | refl (value : Value) : Alike context value value
  | dropped {entries others} {entry other : String × Value} (hname : entry.1 = other.1)
      (hdropped : context.drops entry = true)
      (hrest : Alike context (.branches entries) (.branches others)) :
      Alike context (.branches (entry :: entries)) (.branches (other :: others))
  | kept {entries others} {entry other : String × Value} (hname : entry.1 = other.1)
      (hvalue : Alike context entry.2 other.2)
      (hrest : Alike context (.branches entries) (.branches others)) :
      Alike context (.branches (entry :: entries)) (.branches (other :: others))

structure Spec.Alike (context : Context) (spec other : Spec) : Prop where
  keys : spec.keys = other.keys
  values : ∀ property value otherValue, spec.get? property = some value →
    other.get? property = some otherValue → value.Alike context otherValue

theorem Value.Alike.without_eq {context : Context} {value other : Value}
    (h : value.Alike context other) :
    value.without context.drops = other.without context.drops := by
  induction h with
  | refl value => rfl
  | @dropped entries others entry other hname hdropped _ ih =>
      -- Both entries disappear, whatever their values are.
      have hother : context.drops other = true := by
        rw [Context.drops, ← hname]
        exact hdropped
      rw [Value.without, Value.without, Value.branches.injEq] at ih ⊢
      rw [Branches.without, Branches.without, if_pos hdropped, if_pos hother, ih]
  | @kept entries others entry other hname _ _ ihvalue ihrest =>
      have hdrops : context.drops entry = context.drops other := by
        rw [Context.drops, hname]
        rfl
      rw [Value.without, Value.without, Value.branches.injEq] at ihrest ⊢
      rw [Branches.without, Branches.without, hdrops, ihrest, ihvalue, hname]

theorem Spec.Alike.without_eq {context : Context} {spec other : Spec}
    (h : spec.Alike context other) :
    spec.without context.drops = other.without context.drops := by
  apply Table.eq_of_get?
  · rw [Spec.without, Spec.without, Table.keys_map, Table.keys_map]
    exact h.keys
  · intro property
    rw [Spec.without, Spec.without, Table.get?_map, Table.get?_map]
    cases hvalue : spec.get? property with
    | none =>
        rw [Table.get?_eq_none_iff, h.keys, ← Table.get?_eq_none_iff] at hvalue
        rw [hvalue]
    | some value =>
        cases hother : other.get? property with
        | none =>
            rw [Table.get?_eq_none_iff, ← h.keys, ← Table.get?_eq_none_iff, hvalue] at hother
            cases hother
        | some otherValue =>
            exact congrArg some (h.values property value otherValue hvalue hother).without_eq

/-! ### States that are pinned to false -/

/-- The names that stand for the state. -/
def PseudoState.names : PseudoState → List String
  | focus => [focus.name, "focusWithin"]
  | state => [state.name]

theorem Resolvers.get?_builtin_of_mem_names {state : PseudoState} {name : String}
    (h : name ∈ state.names) : builtin.get? name = some state.resolver := by
  cases state <;> simp only [PseudoState.names, List.mem_cons, List.not_mem_nil, or_false] at h
  case focus =>
    rcases h with rfl | rfl
    · rfl
    · rfl
  all_goals
    subst h
    rfl

theorem PseudoState.baseName_not_mem_names (state : PseudoState) :
    Branches.baseName ∉ state.names := by
  cases state <;> decide

theorem Context.target_of_pinned_false {context : Context} {boundary : Boundary}
    {state : PseudoState} (hresolvers : context.resolvers = Resolvers.builtin)
    (hboundary : context.boundary = some boundary) (hpinned : boundary.pinned state = some false)
    {name : String} (hname : name ∈ state.names) : context.target name = .dropped := by
  have hbase : name ≠ Branches.baseName := by
    rintro rfl
    exact state.baseName_not_mem_names hname
  refine Context.target_of_resolve_none hbase ?_
  rw [Context.resolve, hresolvers, hboundary,
    Resolvers.resolve_of_get? (Resolvers.get?_builtin_of_mem_names hname)]
  simp only [PseudoState.resolver, hpinned]

/-- What stands under names that resolve to nothing has no influence on what compiling comes to: the
branches can be left out at any depth or be exchanged for others, whether they fail or not. Under a
boundary that pins a state to false this holds of all branches of that state. -/
theorem Spec.compile_ignores_dropped (context : Context) (spec : Spec) :
    (spec.without context.drops).compile context = spec.compile context ∧
    (∀ other : Spec, spec.Alike context other → other.compile context = spec.compile context) ∧
    ∀ boundary state, context.resolvers = Resolvers.builtin → context.boundary = some boundary →
      boundary.pinned state = some false →
        (spec.without fun entry => entry.1 ∈ state.names).compile context =
          spec.compile context := by
  have hdrops (spec : Spec) :
      (spec.without context.drops).compile context = spec.compile context :=
    Spec.compile_without (fun _ h => Context.target_of_drops h) spec
  refine ⟨hdrops spec, ?_, ?_⟩
  · intro other halike
    rw [← hdrops other, ← hdrops spec, halike.without_eq]
  · intro boundary state hresolvers hboundary hpinned
    refine Spec.compile_without (fun entry h => ?_) spec
    exact Context.target_of_pinned_false hresolvers hboundary hpinned (of_decide_eq_true h)

/-- A colour of the hovered card, given only while the card is active. -/
def Spec.pressed (value : Value) : Spec :=
  .ofPairs [("color", .branches [
    ("hover", .branches [("active", value)]),
    ("default", .literal (.text "grey"))])]

theorem Spec.pressed_alike (value other : Value) :
    (pressed value).Alike (Request.link.context Resolvers.builtin) (pressed other) := by
  refine ⟨rfl, ?_⟩
  intro property whole otherWhole hwhole hother
  have hwhole := List.mem_singleton.1 (Table.get?_eq_some_iff.1 hwhole)
  have hother := List.mem_singleton.1 (Table.get?_eq_some_iff.1 hother)
  obtain ⟨_, rfl⟩ := Prod.mk.inj hwhole
  obtain ⟨_, rfl⟩ := Prod.mk.inj hother
  exact .kept rfl (.dropped rfl rfl (.refl _)) (.refl _)

theorem Spec.pressed_compile_ignores_dropped :
    (pressed (.themed fun _ => .error "no colour")).Alike
      (Request.link.context Resolvers.builtin) (pressed .empty) ∧
    (pressed .empty).compile (Request.link.context Resolvers.builtin) =
      (pressed (.themed fun _ => .error "no colour")).compile
        (Request.link.context Resolvers.builtin) ∧
    (∃ boundary, (Request.link.context Resolvers.builtin).boundary = some boundary ∧
      boundary.pinned .active = some false) ∧
    ((pressed .empty).without fun entry => entry.1 ∈ PseudoState.active.names).compile
        (Request.link.context Resolvers.builtin) =
      (pressed .empty).compile (Request.link.context Resolvers.builtin) := by
  have halike := pressed_alike (.themed fun _ => .error "no colour") .empty
  obtain ⟨_, hexchange, _⟩ := Spec.compile_ignores_dropped
    (Request.link.context Resolvers.builtin) (pressed (.themed fun _ => .error "no colour"))
  obtain ⟨_, _, hstate⟩ := Spec.compile_ignores_dropped
    (Request.link.context Resolvers.builtin) (pressed .empty)
  exact ⟨halike, hexchange _ halike, ⟨_, rfl, rfl⟩, hstate _ .active rfl rfl rfl⟩

example : (Spec.pressed .empty).compile (Request.link.context Resolvers.builtin) =
    .ok ⟨[(".card:hover &", .nested []), ("color", .literal (.text "grey"))]⟩ := rfl

end StyleTree
