import Mathlib.Data.List.Basic
import StyleTree.Proofs.Replay

/-!
Handing the interactive states over to a boundary is a renaming. A boundary of a class that pins
nothing sends the branches of a state to the selector of its insides where they would go to the
element itself in that state. Nothing else changes: the same branches share a level, and all keys
come up in the same order.
-/

namespace StyleTree

/-! ### Renaming the selectors of a style -/

/-- The key of an entry after the selectors are renamed. Properties keep their names. -/
def Entry.renamedKey (f : String → String) (key : String) : Entry → String
  | literal _ => key
  | nested _ => f key

mutual

/-- The entry with its selectors renamed, at any depth. -/
def Entry.renamed (f : String → String) : Entry → Entry
  | .literal value => .literal value
  | .nested entries => .nested (Entry.renamedEntries f entries)

def Entry.renamedEntries (f : String → String) : List (String × Entry) → List (String × Entry)
  | [] => []
  | (key, entry) :: rest =>
      (entry.renamedKey f key, Entry.renamed f entry) :: Entry.renamedEntries f rest

end

theorem Entry.renamedEntries_eq_map (f : String → String) (entries : List (String × Entry)) :
    Entry.renamedEntries f entries =
      entries.map fun e => (e.2.renamedKey f e.1, e.2.renamed f) := by
  induction entries with
  | nil => rfl
  | cons e entries ih => rw [Entry.renamedEntries, ih, List.map_cons]

/-- The entry stands under a key of its kind, and so does all in it: at any depth the literals stand
under these properties and the levels under these selectors. -/
inductive Entry.KeysIn (properties selectors : String → Prop) : String → Entry → Prop
  | literal {key : String} (hkey : properties key) (value : Literal) :
      KeysIn properties selectors key (.literal value)
  | nested {key : String} {entries : List (String × Entry)} (hkey : selectors key)
      (hentries : ∀ e ∈ entries, KeysIn properties selectors e.1 e.2) :
      KeysIn properties selectors key (.nested entries)

namespace Level

def renamed (f : String → String) (level : Level) : Level :=
  ⟨Entry.renamedEntries f level.entries⟩

theorem entries_renamed (f : String → String) (level : Level) :
    (level.renamed f).entries =
      level.entries.map fun e => (e.2.renamedKey f e.1, e.2.renamed f) :=
  Entry.renamedEntries_eq_map f level.entries

def KeysIn (properties selectors : String → Prop) (level : Level) : Prop :=
  ∀ e ∈ level.entries, e.2.KeysIn properties selectors e.1

section

variable {properties selectors : String → Prop} {level inner : Level}

theorem keysIn_empty : KeysIn properties selectors ∅ :=
  fun _ h => absurd h List.not_mem_nil

theorem KeysIn.set (h : KeysIn properties selectors level) {property : String}
    (hproperty : properties property) (value : Literal) :
    KeysIn properties selectors (level.set property value) := by
  intro e hmem
  rcases Pairs.mem_of_mem_insert hmem with rfl | hmem
  · exact .literal hproperty value
  · exact h e hmem

theorem KeysIn.nest (h : KeysIn properties selectors level) {selector : String}
    (hselector : selectors selector) (hinner : KeysIn properties selectors inner) :
    KeysIn properties selectors (level.nest selector inner) := by
  intro e hmem
  rcases Pairs.mem_of_mem_insert hmem with rfl | hmem
  · exact .nested hselector hinner
  · exact h e hmem

theorem KeysIn.under (h : KeysIn properties selectors level) (selector : String) :
    KeysIn properties selectors (level.under selector) := by
  rw [Level.under]
  cases hfound : level.nested? selector with
  | none => exact keysIn_empty
  | some inner =>
      have hentry := h _ (Pairs.mem_of_lookup (nested?_eq_some_iff.1 hfound))
      cases hentry with
      | nested _ hentries => exact hentries

end

/-! ### Writing into a renamed level -/

/-- The renaming tells apart what stood apart: it takes no two selectors to one, and none to the
name of another property. -/
structure Separates (f : String → String) (properties selectors : String → Prop) : Prop where
  selector_iff : ∀ s t, selectors s → selectors t → (f s = f t ↔ s = t)
  property_iff : ∀ p s, properties p → selectors s → (f s = p ↔ s = p)

section

variable {f : String → String} {properties selectors : String → Prop} {level inner : Level}

theorem KeysIn.renamedKey_eq_property_iff (h : KeysIn properties selectors level)
    (hf : Separates f properties selectors) {property : String} (hproperty : properties property) :
    ∀ e ∈ level.entries, e.2.renamedKey f e.1 = property ↔ e.1 = property := by
  rintro ⟨key, entry⟩ hmem
  cases h _ hmem with
  | literal _ value => exact Iff.rfl
  | nested hkey _ => exact hf.property_iff property key hproperty hkey

theorem KeysIn.renamedKey_eq_selector_iff (h : KeysIn properties selectors level)
    (hf : Separates f properties selectors) {selector : String} (hselector : selectors selector) :
    ∀ e ∈ level.entries, e.2.renamedKey f e.1 = f selector ↔ e.1 = selector := by
  rintro ⟨key, entry⟩ hmem
  cases h _ hmem with
  | literal hkey value =>
      have hiff := hf.property_iff key selector hkey hselector
      exact eq_comm.trans (hiff.trans eq_comm)
  | nested hkey _ => exact hf.selector_iff key selector hkey hselector

theorem renamed_set (hf : Separates f properties selectors)
    (h : KeysIn properties selectors level) {property : String} (hproperty : properties property)
    (value : Literal) :
    (level.set property value).renamed f = (level.renamed f).set property value := by
  apply congrArg Level.mk
  rw [Entry.renamedEntries_eq_map, entries_set, entries_renamed]
  refine Pairs.map_insert ?_
  exact h.renamedKey_eq_property_iff hf hproperty

theorem renamed_nest (hf : Separates f properties selectors)
    (h : KeysIn properties selectors level) {selector : String} (hselector : selectors selector)
    (inner : Level) :
    (level.nest selector inner).renamed f =
      (level.renamed f).nest (f selector) (inner.renamed f) := by
  apply congrArg Level.mk
  rw [Entry.renamedEntries_eq_map, entries_nest, entries_renamed f level]
  refine Pairs.map_insert ?_
  exact h.renamedKey_eq_selector_iff hf hselector

theorem under_renamed (hf : Separates f properties selectors)
    (h : KeysIn properties selectors level) {selector : String} (hselector : selectors selector) :
    (level.renamed f).under (f selector) = (level.under selector).renamed f := by
  rw [under, under, nested?, nested?, get?, get?, entries_renamed,
    Pairs.lookup_map_of_iff (h.renamedKey_eq_selector_iff hf hselector)]
  cases level.entries.lookup selector with
  | none => rfl
  | some entry => cases entry <;> rfl

theorem renamed_updateAt (hf : Separates f properties selectors) {g : Level → Level}
    (hkeeps : ∀ level, KeysIn properties selectors level →
      KeysIn properties selectors (g level) ∧ (g level).renamed f = g (level.renamed f))
    {path : List String} (hpath : ∀ s ∈ path, selectors s)
    (h : KeysIn properties selectors level) :
    KeysIn properties selectors (level.updateAt g path) ∧
      (level.updateAt g path).renamed f = (level.renamed f).updateAt g (path.map f) := by
  induction path generalizing level with
  | nil => exact hkeeps level h
  | cons selector path ih =>
      rw [List.forall_mem_cons] at hpath
      obtain ⟨hinner, hrenamed⟩ := ih hpath.2 (h.under selector)
      refine ⟨h.nest hpath.1 hinner, ?_⟩
      rw [updateAt, renamed_nest hf h hpath.1, hrenamed, List.map_cons, updateAt,
        under_renamed hf h hpath.1]

end

end Level

/-! ### Renamed events -/

/-- The event with the selectors on its way renamed. -/
def Event.renamed (f : String → String) : Event → Event
  | touch path => touch (path.map f)
  | write path leaf => write (path.map f) leaf

namespace Event

variable {f : String → String} {properties selectors : String → Prop}

theorem renamed_within (f : String → String) (selector : String) (event : Event) :
    (event.within selector).renamed f = (event.renamed f).within (f selector) := by
  cases event <;> rfl

@[simp] theorem failure?_renamed (f : String → String) (theme : Theme) (property : String)
    (event : Event) :
    (event.renamed f).failure? theme property = event.failure? theme property := by
  cases event <;> rfl

theorem apply_renamed (hf : Level.Separates f properties selectors) (theme : Theme)
    {property : String} (hproperty : properties property) {event : Event}
    (hpath : ∀ s ∈ event.path, selectors s) {level : Level}
    (h : Level.KeysIn properties selectors level) :
    Level.KeysIn properties selectors (event.apply theme property level) ∧
      (event.apply theme property level).renamed f =
        (event.renamed f).apply theme property (level.renamed f) := by
  have htouch := Level.renamed_updateAt hf (g := id) (fun level h => ⟨h, rfl⟩) hpath h
  cases event with
  | touch path => exact htouch
  | write path leaf =>
      simp only [renamed, apply]
      cases leaf.answer theme with
      | error reason => exact htouch
      | ok value =>
          exact Level.renamed_updateAt hf (fun level h =>
            ⟨h.set hproperty value, Level.renamed_set hf h hproperty value⟩) hpath h

end Event

/-- Replaying renamed events makes the renamed level. -/
theorem Level.replay_renamed {f : String → String} {properties selectors : String → Prop}
    (hf : Separates f properties selectors) (theme : Theme) {events : List (String × Event)}
    (hevents : ∀ e ∈ events, properties e.1 ∧ ∀ s ∈ e.2.path, selectors s) {level : Level}
    (h : KeysIn properties selectors level) :
    (level.renamed f).replay theme (events.map fun e => (e.1, e.2.renamed f)) =
      (level.replay theme events).renamed f := by
  induction events generalizing level with
  | nil => rfl
  | cons e events ih =>
      rw [List.forall_mem_cons] at hevents
      obtain ⟨hkeys, hrenamed⟩ := Event.apply_renamed hf theme hevents.1.1 hevents.1.2 h
      rw [List.map_cons, replay_cons, replay_cons, ← hrenamed]
      exact ih hevents.2 hkeys

/-! ### Values in two contexts -/

def Target.renamed (f : String → String) : Target → Target
  | under selector => under (f selector)
  | target => target

theorem Target.firstEvents_renamed (f : String → String) (target : Target) (events : List Event) :
    (target.renamed f).firstEvents (events.map (.renamed f)) =
      (target.firstEvents events).map (.renamed f) := by
  cases target with
  | under selector =>
      simp only [renamed, firstEvents, List.map_cons, List.map_map]
      congr 2
      funext event
      exact (Event.renamed_within f selector event).symm
  | _ => rfl

theorem Target.pinnedEvents_renamed (f : String → String) (target : Target) (events : List Event) :
    (target.renamed f).pinnedEvents (events.map (.renamed f)) =
      (target.pinnedEvents events).map (.renamed f) := by
  cases target <;> rfl

mutual

/-- The selector names of a value, at any depth. -/
def Value.names : Value → List String
  | .branches entries => Branches.names entries
  | _ => []

def Branches.names : List (String × Value) → List String
  | [] => []
  | (name, value) :: rest => name :: (Value.names value ++ Branches.names rest)

end

theorem Branches.names_eq_flatMap (entries : List (String × Value)) :
    Branches.names entries = entries.flatMap fun e => e.1 :: e.2.names := by
  induction entries with
  | nil => rfl
  | cons e entries ih => rw [Branches.names, ih, List.flatMap_cons, List.cons_append]

theorem Value.forall_mem_names_branches {entries : List (String × Value)} {p : String → Prop} :
    (∀ name ∈ (Value.branches entries).names, p name) ↔
      ∀ entry ∈ entries, p entry.1 ∧ ∀ name ∈ entry.2.names, p name := by
  rw [Value.names, Branches.names_eq_flatMap, List.forall_mem_flatMap]
  simp only [List.forall_mem_cons]

section

variable {context other : Context} {f : String → String}

/-- Where every name goes to the renamed place, the events are the renamed ones. -/
theorem Value.events_renamed {value : Value}
    (h : ∀ name ∈ value.names, other.target name = (context.target name).renamed f) :
    value.events other = (value.events context).map (.renamed f) := by
  induction value with
  | literal value => rfl
  | themed compute => rfl
  | empty => rfl
  | branches entries ih =>
      rw [Value.forall_mem_names_branches] at h
      rw [Value.events_branches, Value.events_branches, List.map_append, List.map_flatMap,
        List.map_flatMap]
      congr 1
      · refine List.flatMap_congr fun entry hentry => ?_
        rw [ih entry hentry (h entry hentry).2, (h entry hentry).1, Target.firstEvents_renamed]
      · refine List.flatMap_congr fun entry hentry => ?_
        rw [ih entry hentry (h entry hentry).2, (h entry hentry).1, Target.pinnedEvents_renamed]

theorem Value.forall_mem_path {p : String → Prop} {value : Value}
    (h : ∀ name ∈ value.names, ∀ selector, context.target name = .under selector → p selector) :
    ∀ event ∈ value.events context, ∀ selector ∈ event.path, p selector := by
  induction value with
  | literal value => exact List.forall_mem_singleton.2 fun _ hmem => absurd hmem List.not_mem_nil
  | themed compute => exact List.forall_mem_singleton.2 fun _ hmem => absurd hmem List.not_mem_nil
  | empty => exact fun _ hmem => absurd hmem List.not_mem_nil
  | branches entries ih =>
      rw [Value.forall_mem_names_branches] at h
      intro event hevent
      obtain ⟨entry, hentry, ⟨_, hinner⟩ | ⟨selector, htarget, rfl | ⟨inner, hinner, rfl⟩⟩⟩ :=
        Value.mem_events_branches.1 hevent
      · exact ih entry hentry (h entry hentry).2 event hinner
      · exact List.forall_mem_singleton.2 ((h entry hentry).1 selector htarget)
      · rw [Event.path_within, List.forall_mem_cons]
        exact ⟨(h entry hentry).1 selector htarget,
          ih entry hentry (h entry hentry).2 inner hinner⟩

/-- Where every name goes to the renamed place and the renaming keeps apart what is apart, the style
is the renamed one, and a failure is the same. -/
theorem Spec.compile_renamed {properties selectors : String → Prop}
    (hf : Level.Separates f properties selectors) (htheme : other.theme = context.theme)
    {spec : Spec} (hproperties : ∀ property ∈ spec.keys, properties property)
    (hnames : ∀ entry ∈ spec.pairs, ∀ name ∈ entry.2.names,
      other.target name = (context.target name).renamed f ∧
        ∀ selector, context.target name = .under selector → selectors selector) :
    spec.compile other = (spec.compile context).map (Level.renamed f) := by
  have hevents : spec.events other =
      (spec.events context).map fun e => (e.1, e.2.renamed f) := by
    rw [Spec.events, Spec.events, List.map_flatMap]
    refine List.flatMap_congr fun entry hentry => ?_
    rw [Value.events_renamed fun name hname => (hnames entry hentry name hname).1, List.map_map,
      List.map_map]
    rfl
  have hkeys : ∀ e ∈ spec.events context,
      properties e.1 ∧ ∀ selector ∈ e.2.path, selectors selector := by
    intro e he
    obtain ⟨entry, hentry, hproperty, hevent⟩ := Spec.mem_events.1 he
    exact ⟨hproperty ▸ hproperties _ (Pairs.mem_keys_of_mem hentry),
      Value.forall_mem_path (fun name hname => (hnames entry hentry name hname).2) _ hevent⟩
  have hreplay := Level.replay_renamed hf context.theme hkeys Level.keysIn_empty
  rw [Spec.compile_eq_events, Spec.compile_eq_events, hevents, htheme, List.findSome?_map]
  simp only [Function.comp_def, Event.failure?_renamed]
  cases (spec.events context).findSome? fun e => e.2.failure? context.theme e.1 with
  | none => exact congrArg Except.ok hreplay
  | some error => rfl

end

/-! ### The states of a boundary -/

namespace PseudoState

/-- The selector of the element itself while it is in the state. -/
def ownSelector (state : PseudoState) : String := selfSelector ++ state.pseudoClass

theorem name_injective {s t : PseudoState} (h : s.name = t.name) : s = t := by
  cases s <;> cases t <;> simp [name] at h <;> rfl

theorem ownSelector_injective {s t : PseudoState} (h : s.ownSelector = t.ownSelector) : s = t :=
  name_injective ((String.append_right_inj _).1 ((String.append_right_inj _).1 h))

theorem ownSelector_ne_self (state : PseudoState) : state.ownSelector ≠ selfSelector := by
  cases state <;> decide

end PseudoState

namespace ClassBoundary

/-- The selector of what lies inside an element of the class while that element is in the state. -/
def insideSelector (className : String) (state : PseudoState) : String :=
  (ofClass className).inside state.pseudoClass

/-- A selector that delegation takes away or brings in. -/
def Reserved (className selector : String) : Prop :=
  ∃ state : PseudoState,
    selector = state.ownSelector ∨ selector = insideSelector className state

instance (className selector : String) : Decidable (Reserved className selector) :=
  decidable_of_iff (∃ state ∈ PseudoState.all,
      selector = state.ownSelector ∨ selector = insideSelector className state)
    ⟨fun ⟨state, _, h⟩ => ⟨state, h⟩, fun ⟨state, h⟩ => ⟨state, state.mem_all, h⟩⟩

/-- Puts the inside of the boundary in the place of the element itself, for each state. -/
def delegate (className selector : String) : String :=
  match PseudoState.all.find? fun state => state.ownSelector = selector with
  | some state => insideSelector className state
  | none => selector

variable {className : String}

theorem insideSelector_injective {s t : PseudoState}
    (h : insideSelector className s = insideSelector className t) : s = t :=
  PseudoState.name_injective ((String.append_right_inj _).1
    ((String.append_right_inj _).1 ((String.append_left_inj _).1 h)))

theorem head?_insideSelector (state : PseudoState) :
    (insideSelector className state).toList.head? = some '.' := by
  simp [insideSelector, inside]

theorem insideSelector_ne_ownSelector (s t : PseudoState) :
    insideSelector className s ≠ t.ownSelector := by
  intro h
  have hhead := @head?_insideSelector className s
  rw [h] at hhead
  cases t <;> simp [PseudoState.ownSelector, selfSelector] at hhead

theorem insideSelector_ne_self (state : PseudoState) :
    insideSelector className state ≠ selfSelector := by
  intro h
  have hhead := @head?_insideSelector className state
  rw [h] at hhead
  simp [selfSelector] at hhead

theorem delegate_ownSelector (state : PseudoState) :
    delegate className state.ownSelector = insideSelector className state := by
  rw [delegate]
  cases hfind : PseudoState.all.find? fun other => other.ownSelector = state.ownSelector with
  | none =>
      have hnone := List.find?_eq_none.1 hfind state state.mem_all
      exact absurd (decide_eq_true rfl) hnone
  | some other =>
      have heq : other.ownSelector = state.ownSelector := by simpa using List.find?_some hfind
      rw [PseudoState.ownSelector_injective heq]

theorem delegate_of_ne {selector : String}
    (h : ∀ state : PseudoState, selector ≠ state.ownSelector) :
    delegate className selector = selector := by
  have hnone : (PseudoState.all.find? fun state => state.ownSelector = selector) = none :=
    List.find?_eq_none.2 fun state _ heq => h state (of_decide_eq_true heq).symm
  rw [delegate, hnone]

theorem delegate_cases (className selector : String) :
    (∃ state : PseudoState, selector = state.ownSelector ∧
      delegate className selector = insideSelector className state) ∨
    (∀ state : PseudoState, selector ≠ state.ownSelector) ∧
      delegate className selector = selector := by
  by_cases hown : ∃ state : PseudoState, selector = state.ownSelector
  · obtain ⟨state, rfl⟩ := hown
    exact .inl ⟨state, rfl, delegate_ownSelector state⟩
  · rw [not_exists] at hown
    exact .inr ⟨hown, delegate_of_ne hown⟩

/-- Delegation confuses no selectors unless one of them is there that it brings in. -/
theorem separates_delegate (className : String) :
    Level.Separates (delegate className) (fun property => ¬ Reserved className property)
      fun selector => ∀ state, selector ≠ insideSelector className state where
  selector_iff := by
    intro s t hs ht
    rcases delegate_cases className s with ⟨state, rfl, hs'⟩ | ⟨hsown, hs'⟩ <;>
      rcases delegate_cases className t with ⟨other, rfl, ht'⟩ | ⟨htown, ht'⟩ <;>
      rw [hs', ht']
    · exact ⟨fun h => by rw [insideSelector_injective h],
        fun h => by rw [PseudoState.ownSelector_injective h]⟩
    · exact ⟨fun h => absurd h.symm (ht state), fun h => absurd h.symm (htown state)⟩
    · exact ⟨fun h => absurd h (hs other), fun h => absurd h (hsown other)⟩
  property_iff := by
    intro property selector hproperty _
    rw [Reserved, not_exists] at hproperty
    rcases delegate_cases className selector with ⟨state, rfl, hs'⟩ | ⟨_, hs'⟩ <;> rw [hs']
    exact ⟨fun h => absurd (.inr h.symm) (hproperty state),
      fun h => absurd (.inl h.symm) (hproperty state)⟩

end ClassBoundary

theorem Resolvers.get?_builtin_cases (name : String) :
    builtin.get? name = none ∨ ∃ state : PseudoState, builtin.get? name = some state.resolver := by
  cases hfound : builtin.get? name with
  | none => exact .inl rfl
  | some resolver =>
      have hmem : (name, resolver) ∈ [("active", PseudoState.active.resolver),
          ("checked", PseudoState.checked.resolver), ("disabled", PseudoState.disabled.resolver),
          ("focus", PseudoState.focus.resolver), ("focusWithin", PseudoState.focus.resolver),
          ("hover", PseudoState.hover.resolver)] := Table.get?_eq_some_iff.1 hfound
      refine .inr ?_
      simp only [List.mem_cons, Prod.mk.injEq, List.not_mem_nil, or_false] at hmem
      rcases hmem with ⟨_, rfl⟩ | ⟨_, rfl⟩ | ⟨_, rfl⟩ | ⟨_, rfl⟩ | ⟨_, rfl⟩ | ⟨_, rfl⟩
      all_goals exact ⟨_, rfl⟩

def Context.delegated (context : Context) (className : String) : Context :=
  { context with boundary := some (ClassBoundary.ofClass className).toBoundary }

section

variable {context : Context} {className : String}

theorem Context.resolve_of_get?_none {name : String} (h : context.resolvers.get? name = none) :
    context.resolve name = some name :=
  Resolvers.resolve_of_get?_none h context.theme context.boundary

theorem Context.resolve_eq_ownSelector {name : String} {state : PseudoState}
    (h : context.resolvers.get? name = some state.resolver) (hboundary : context.boundary = none) :
    context.resolve name = some state.ownSelector := by
  rw [Context.resolve, Resolvers.resolve_of_get? h, hboundary]
  rfl

theorem Context.resolve_delegated {name : String} {state : PseudoState}
    (h : context.resolvers.get? name = some state.resolver) :
    (context.delegated className).resolve name =
      some (ClassBoundary.insideSelector className state) :=
  Resolvers.resolve_of_get? h context.theme _

/-- The boundary changes no more than where the branches of the states go, and nothing else goes
there. -/
theorem Context.target_delegated (hresolvers : context.resolvers = Resolvers.builtin)
    (hboundary : context.boundary = none) {name : String}
    (hname : ¬ ClassBoundary.Reserved className name) :
    (context.delegated className).target name =
        (context.target name).renamed (ClassBoundary.delegate className) ∧
      ∀ selector, context.target name = .under selector →
        ∀ state, selector ≠ ClassBoundary.insideSelector className state := by
  by_cases hbase : name = Branches.baseName
  · subst hbase
    rw [Context.target_baseName, Context.target_baseName]
    exact ⟨rfl, fun _ h => Target.noConfusion h⟩
  have hbuiltin := Resolvers.get?_builtin_cases name
  rw [← hresolvers] at hbuiltin
  rcases hbuiltin with hnone | ⟨state, hstate⟩
  · -- A name without a resolver is a selector as it stands.
    have hown := Context.resolve_of_get?_none hnone
    have hinside : (context.delegated className).resolve name = some name :=
      Context.resolve_of_get?_none hnone
    rw [ClassBoundary.Reserved, not_exists] at hname
    by_cases hself : name = selfSelector
    · subst hself
      rw [Context.target_of_resolve_self hbase hown, Context.target_of_resolve_self hbase hinside]
      exact ⟨rfl, fun _ h => Target.noConfusion h⟩
    · rw [Context.target_of_resolve hbase hown hself,
        Context.target_of_resolve hbase hinside hself, Target.renamed,
        ClassBoundary.delegate_of_ne fun state h => hname state (.inl h)]
      refine ⟨rfl, fun selector h state heq => ?_⟩
      obtain rfl := Target.under.inj h
      exact hname state (.inr heq)
  · rw [Context.target_of_resolve hbase (Context.resolve_eq_ownSelector hstate hboundary)
        state.ownSelector_ne_self,
      Context.target_of_resolve hbase (Context.resolve_delegated hstate)
        (ClassBoundary.insideSelector_ne_self state),
      Target.renamed, ClassBoundary.delegate_ownSelector]
    refine ⟨rfl, fun selector h other heq => ?_⟩
    obtain rfl := Target.under.inj h
    exact ClassBoundary.insideSelector_ne_ownSelector other state heq.symm

end

/-- Under a boundary of a class that pins nothing, compiling comes to what it comes to without a
boundary, with the selectors of the element itself in a state renamed to those of the inside of the
boundary. No property and no selector name may be one of these selectors; as a raw name it would
share a level with the state on one side only. -/
theorem Request.compile_delegated (request : Request) (fallback : Resolvers) (className : String)
    (hresolvers : request.resolvers.getD fallback = Resolvers.builtin)
    (hfree : ∀ spec, request.expandedSpec = .ok spec →
      (∀ property ∈ spec.keys, ¬ ClassBoundary.Reserved className property) ∧
      ∀ entry ∈ spec.pairs, ∀ name ∈ entry.2.names, ¬ ClassBoundary.Reserved className name) :
    { request with
        boundary := some (ClassBoundary.ofClass className).toBoundary }.compile fallback =
      ({ request with boundary := none }.compile fallback).map
        (Level.renamed (ClassBoundary.delegate className)) := by
  have hcompile (boundary : Option Boundary) :
      { request with boundary := boundary }.compile fallback =
        request.expandedSpec.bind fun spec =>
          spec.compile ⟨request.combinedTheme, Resolvers.builtin, boundary⟩ := by
    rw [← hresolvers]
    rfl
  rw [hcompile, hcompile]
  cases hspec : request.expandedSpec with
  | error error => rfl
  | ok spec =>
      obtain ⟨hproperties, hnames⟩ := hfree spec hspec
      let context : Context := ⟨request.combinedTheme, Resolvers.builtin, none⟩
      show spec.compile (context.delegated className) = (spec.compile context).map _
      refine Spec.compile_renamed (ClassBoundary.separates_delegate className) ?_ hproperties ?_
      · rfl
      · intro entry hentry name hname
        exact Context.target_delegated rfl rfl (hnames entry hentry name hname)

/-- A menu whose branches for a hovered and for a focused element meet below each other, and in
print. -/
def Request.menu : Request where
  layers := .one (.ofPairs [
    ("color", .branches [
      ("hover", .branches [
        ("focusWithin", .literal (.text "red")), ("default", .literal (.text "blue"))]),
      ("@media print", .branches [("hover", .literal (.text "black"))])]),
    ("border", .branches [("focus", .literal (.text "thin")), ("hover", .empty)])])

theorem Request.menu_free : ∀ spec, menu.expandedSpec = .ok spec →
    (∀ property ∈ spec.keys, ¬ ClassBoundary.Reserved "card" property) ∧
    ∀ entry ∈ spec.pairs, ∀ name ∈ entry.2.names, ¬ ClassBoundary.Reserved "card" name := by
  intro spec hspec
  obtain rfl := Except.ok.inj hspec
  decide

theorem Request.menu_compile_delegated :
    (∀ spec, menu.expandedSpec = .ok spec →
      (∀ property ∈ spec.keys, ¬ ClassBoundary.Reserved "card" property) ∧
      ∀ entry ∈ spec.pairs, ∀ name ∈ entry.2.names, ¬ ClassBoundary.Reserved "card" name) ∧
    { menu with
        boundary := some (ClassBoundary.ofClass "card").toBoundary }.compile Resolvers.builtin =
      ({ menu with boundary := none }.compile Resolvers.builtin).map
        (Level.renamed (ClassBoundary.delegate "card")) ∧
    { menu with boundary := none }.compile Resolvers.builtin = .ok ⟨[
      ("&:hover", .nested [
        ("&:focus", .nested [("color", .literal (.text "red"))]),
        ("color", .literal (.text "blue"))]),
      ("@media print", .nested [("&:hover", .nested [("color", .literal (.text "black"))])]),
      ("&:focus", .nested [("border", .literal (.text "thin"))])]⟩ :=
  ⟨menu_free, Request.compile_delegated menu Resolvers.builtin "card" rfl menu_free, rfl⟩

end StyleTree
