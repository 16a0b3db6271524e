import Mathlib.Data.List.Infix
import StyleTree.Proofs.Replay

/-!
What a compiled style answers at every path of selectors. As long as no property has the name of a
selector, the events that fall below a selector make its level by themselves: all others leave it
alone. So the level at a path is what the events at that path or further in make of the empty level.
-/

namespace StyleTree

/-! ### Live branches and leaves -/

/-- Evaluating the value comes to the part, and what the part writes goes to the level at the path.
Branches of the element itself stay on their level, and dropped ones are not live. -/
inductive Value.Live (context : Context) : Value → List String → Value → Prop
  | self (value : Value) : Live context value [] value
  | base {entries name value path part} (hmem : (name, value) ∈ entries)
      (htarget : context.target name = .base) (hlive : Live context value path part) :
      Live context (.branches entries) path part
  | pinned {entries name value path part} (hmem : (name, value) ∈ entries)
      (htarget : context.target name = .pinned) (hlive : Live context value path part) :
      Live context (.branches entries) path part
  | under {entries name value path part selector} (hmem : (name, value) ∈ entries)
      (htarget : context.target name = .under selector) (hlive : Live context value path part) :
      Live context (.branches entries) (selector :: path) part

def Leaf.value : Leaf → Value
  | literal value => .literal value
  | themed compute => .themed compute

/-- The live leaves of a value in the order of evaluation, each with its path. -/
def Value.leaves (context : Context) (value : Value) : List (List String × Leaf) :=
  (value.events context).filterMap fun
    | .touch _ => none
    | .write path leaf => some (path, leaf)

namespace Spec

def lastLeaf? (context : Context) (spec : Spec) (path : List String) (property : String) :
    Option Leaf :=
  (spec.get? property).bind fun value =>
    (((value.leaves context).filter fun leaf => leaf.1 == path).getLast?).map Prod.snd

end Spec

namespace Event

/-- The event as it looks from the level at a path, if it happens there or further in. -/
def below? (path : List String) : Event → Option Event
  | touch whole => (path.isPrefixOf? whole).map touch
  | write whole leaf => (path.isPrefixOf? whole).map (write · leaf)

/-- The key of the outermost level that the event falls under: the next selector on its way, or the
property if it is written right there. -/
def key? (property : String) : Event → Option String
  | touch path => path.head?
  | write path _ => some (path.headD property)

def leaf? : Event → Option Leaf
  | write [] leaf => some leaf
  | _ => none

end Event

def Event.allBelow (path : List String) (events : List (String × Event)) :
    List (String × Event) :=
  events.filterMap fun e => (e.2.below? path).map (e.1, ·)

/-- The keys of the level at a path as evaluation comes to them, each time it does. -/
def Spec.keysAt (context : Context) (spec : Spec) (path : List String) : List String :=
  (Event.allBelow path (spec.events context)).filterMap fun e => e.2.key? e.1

/-! ### Events seen from a level -/

namespace Event

@[elab_as_elim] theorem rootCases {motive : Event → Prop} (touch : motive (.touch []))
    (write : ∀ leaf, motive (.write [] leaf))
    (within : ∀ selector inner, motive (Event.within selector inner)) (event : Event) :
    motive event := by
  match event with
  | .touch [] => exact touch
  | .write [] leaf => exact write leaf
  | .touch (selector :: path) => exact within selector (.touch path)
  | .write (selector :: path) leaf => exact within selector (.write path leaf)

@[simp] theorem below?_nil (event : Event) : event.below? [] = some event := by
  cases event <;> rfl

theorem below?_cons_within (selector other : String) (path : List String) (event : Event) :
    (event.within other).below? (selector :: path) =
      if selector = other then event.below? path else none := by
  by_cases h : selector = other <;>
    cases event <;> simp [within, below?, List.isPrefixOf?, h]

theorem below?_cons (selector : String) (path : List String) (event : Event) :
    event.below? (selector :: path) = (event.below? [selector]).bind (·.below? path) := by
  cases event using rootCases with
  | touch => rfl
  | write leaf => rfl
  | within other inner =>
      rw [below?_cons_within, below?_cons_within]
      split <;> simp

theorem path_of_below? {path : List String} {event inner : Event}
    (h : event.below? path = some inner) : event.path = path ++ inner.path := by
  cases event <;>
    simp only [below?, Option.map_eq_some_iff, List.isPrefixOf?_eq_some_iff_append_eq] at h <;>
    · obtain ⟨rest, happend, rfl⟩ := h
      exact happend.symm

theorem failure?_of_below? {path : List String} {event inner : Event}
    (h : event.below? path = some inner) (theme : Theme) (property : String) :
    inner.failure? theme property = event.failure? theme property := by
  cases event <;>
    simp only [below?, Option.map_eq_some_iff] at h <;>
    · obtain ⟨rest, _, rfl⟩ := h
      rfl

theorem below?_isSome_iff {path : List String} {event : Event} :
    (event.below? path).isSome ↔ path <+: event.path := by
  cases event <;>
    simp [below?, Event.path, List.isSome_isPrefixOf?_eq_isPrefixOf]

theorem apply_within (theme : Theme) (property selector : String) (event : Event) (level : Level) :
    (event.within selector).apply theme property level =
      level.nest selector (event.apply theme property (level.under selector)) := by
  cases event with
  | touch path => rfl
  | write path leaf =>
      simp only [within, apply]
      cases leaf.answer theme <;> rfl

theorem apply_write_nil {theme : Theme} {leaf : Leaf} {value : Literal}
    (h : leaf.answer theme = .ok value) (property : String) (level : Level) :
    (write [] leaf).apply theme property level = level.set property value := by
  simp [apply, h, Level.updateAt]

theorem answer_of_failure? {theme : Theme} {property : String} {path : List String} {leaf : Leaf}
    (h : (write path leaf).failure? theme property = none) :
    ∃ value, leaf.answer theme = .ok value :=
  StyleError.ofAnswer?_eq_none_iff.1 h

/-! ### Lists of events seen from a level -/

def Answered (theme : Theme) (events : List (String × Event)) : Prop :=
  ∀ e ∈ events, e.2.failure? theme e.1 = none

def Apart (events : List (String × Event)) : Prop :=
  ∀ e ∈ events, ∀ f ∈ events, e.1 ∉ f.2.path

theorem mem_allBelow {path : List String} {events : List (String × Event)} {e : String × Event} :
    e ∈ allBelow path events ↔ ∃ event, (e.1, event) ∈ events ∧ event.below? path = some e.2 := by
  obtain ⟨property, inner⟩ := e
  simp only [allBelow, List.mem_filterMap, Option.map_eq_some_iff, Prod.mk.injEq]
  constructor
  · rintro ⟨⟨_, event⟩, hmem, _, hbelow, rfl, rfl⟩
    exact ⟨event, hmem, hbelow⟩
  · rintro ⟨event, hmem, hbelow⟩
    exact ⟨(property, event), hmem, inner, hbelow, rfl, rfl⟩

@[simp] theorem allBelow_nil (events : List (String × Event)) : allBelow [] events = events := by
  simp [allBelow]

theorem allBelow_cons (selector : String) (path : List String) (events : List (String × Event)) :
    allBelow (selector :: path) events = allBelow path (allBelow [selector] events) := by
  rw [allBelow, allBelow, allBelow, List.filterMap_filterMap]
  congr 1
  funext e
  rw [below?_cons, Option.bind_map]
  cases e.2.below? [selector] <;> rfl

theorem Answered.allBelow {theme : Theme} {events : List (String × Event)}
    (h : Answered theme events) (path : List String) : Answered theme (allBelow path events) := by
  intro e he
  obtain ⟨event, hmem, hbelow⟩ := mem_allBelow.1 he
  rw [failure?_of_below? hbelow]
  exact h _ hmem

theorem Apart.allBelow {events : List (String × Event)} (h : Apart events) (path : List String) :
    Apart (allBelow path events) := by
  intro e he f hf
  obtain ⟨event, hmem, _⟩ := mem_allBelow.1 he
  obtain ⟨other, hother, hbelow⟩ := mem_allBelow.1 hf
  have hnot := h _ hmem _ hother
  rw [path_of_below? hbelow, List.mem_append, not_or] at hnot
  exact hnot.2

theorem Apart.allBelow_eq_nil {events : List (String × Event)} (h : Apart events)
    {e : String × Event} (he : e ∈ events) : Event.allBelow [e.1] events = [] := by
  rw [List.eq_nil_iff_forall_not_mem]
  intro f hf
  obtain ⟨event, hmem, hbelow⟩ := mem_allBelow.1 hf
  refine h e he _ hmem ?_
  rw [path_of_below? hbelow]
  exact List.mem_append_left _ List.mem_cons_self

theorem allBelow_append (path : List String) (events others : List (String × Event)) :
    allBelow path (events ++ others) = allBelow path events ++ allBelow path others :=
  List.filterMap_append ..

theorem Answered.of_append {theme : Theme} {events others : List (String × Event)}
    (h : Answered theme (events ++ others)) : Answered theme events :=
  fun e he => h e (List.mem_append_left _ he)

theorem Apart.of_append {events others : List (String × Event)} (h : Apart (events ++ others)) :
    Apart events :=
  fun e he f hf => h e (List.mem_append_left _ he) f (List.mem_append_left _ hf)

def rootLeaves (property : String) (events : List (String × Event)) : List Leaf :=
  events.filterMap fun e => if e.1 = property then e.2.leaf? else none

end Event

/-! ### The level that a list of events makes -/

namespace Level

variable {theme : Theme} {events : List (String × Event)}

theorem replay_append (theme : Theme) (events others : List (String × Event)) (level : Level) :
    level.replay theme (events ++ others) = (level.replay theme events).replay theme others :=
  List.foldl_append ..

theorem replay_singleton (theme : Theme) (e : String × Event) (level : Level) :
    level.replay theme [e] = e.2.apply theme e.1 level := rfl

/-- What is under a selector is made by the events that go there, and by no others. -/
theorem nested?_replay (hanswered : Event.Answered theme events) (hapart : Event.Apart events)
    (selector : String) :
    ((∅ : Level).replay theme events).nested? selector =
      if Event.allBelow [selector] events = [] then none
      else some ((∅ : Level).replay theme (Event.allBelow [selector] events)) := by
  -- From the last event backwards, since a replay ends with it.
  induction events using List.reverseRecOn with
  | nil => rfl
  | append_singleton events e ih =>
      have ih := ih hanswered.of_append hapart.of_append
      have hlast : e ∈ events ++ [e] := List.mem_append_right _ List.mem_cons_self
      have hbelow := hapart.allBelow_eq_nil hlast
      obtain ⟨property, event⟩ := e
      rw [replay_append, replay_singleton, Event.allBelow_append]
      cases event using Event.rootCases with
      | touch =>
          have hnone : Event.allBelow [selector] [(property, .touch [])] = [] := rfl
          rw [hnone, List.append_nil, ← ih]
          rfl
      | write leaf =>
          obtain ⟨value, hvalue⟩ := Event.answer_of_failure? (hanswered _ hlast)
          have hnone : Event.allBelow [selector] [(property, .write [] leaf)] = [] := rfl
          rw [Event.apply_write_nil hvalue, nested?_set, hnone, List.append_nil]
          -- A property that is written here has no level under its name.
          rcases eq_or_ne selector property with rfl | hs
          · rw [Event.allBelow_append, hnone, List.append_nil] at hbelow
            rw [if_pos rfl, if_pos hbelow]
          · rw [if_neg hs, ih]
      | within other inner =>
          rw [Event.apply_within, nested?_nest]
          rcases eq_or_ne selector other with rfl | hs
          · have hinner : Event.allBelow [selector] [(property, inner.within selector)] =
                [(property, inner)] := by
              simp [Event.allBelow, Event.below?_cons_within]
            have hunder : ((∅ : Level).replay theme events).under selector =
                (∅ : Level).replay theme (Event.allBelow [selector] events) := by
              rw [under, ih]
              split
              · rename_i hnil
                rw [hnil]
                rfl
              · rfl
            rw [if_pos rfl, hinner, if_neg (by simp), hunder, replay_append, replay_singleton]
          · have hnone : Event.allBelow [selector] [(property, inner.within other)] = [] := by
              simp [Event.allBelow, Event.below?_cons_within, hs]
            rw [if_neg hs, hnone, List.append_nil, ih]

/-- The literal of a property is that of the last leaf written for it. -/
theorem literal?_replay (hanswered : Event.Answered theme events) (hapart : Event.Apart events)
    (property : String) :
    (((∅ : Level).replay theme events).literal? property).map Except.ok =
      (Event.rootLeaves property events).getLast?.map (Leaf.answer theme) := by
  induction events using List.reverseRecOn with
  | nil => rfl
  | append_singleton events e ih =>
      have ih := ih hanswered.of_append hapart.of_append
      have hlast : e ∈ events ++ [e] := List.mem_append_right _ List.mem_cons_self
      obtain ⟨other, event⟩ := e
      have happend : Event.rootLeaves property (events ++ [(other, event)]) =
          Event.rootLeaves property events ++ Event.rootLeaves property [(other, event)] :=
        List.filterMap_append ..
      rw [replay_append, replay_singleton, happend, List.getLast?_append]
      cases event using Event.rootCases with
      | touch =>
          have hnone : Event.rootLeaves property [(other, .touch [])] = [] := by
            simp [Event.rootLeaves, Event.leaf?]
          rw [hnone, List.getLast?_nil, Option.none_or, ← ih]
          rfl
      | write leaf =>
          obtain ⟨value, hvalue⟩ := Event.answer_of_failure? (hanswered _ hlast)
          rw [Event.apply_write_nil hvalue, literal?_set]
          rcases eq_or_ne property other with rfl | hp
          · have hleaf : Event.rootLeaves property [(property, .write [] leaf)] = [leaf] := by
              simp [Event.rootLeaves, Event.leaf?]
            rw [if_pos rfl, hleaf]
            simp [hvalue]
          · have hnone : Event.rootLeaves property [(other, .write [] leaf)] = [] := by
              simp [Event.rootLeaves, Ne.symm hp]
            rw [if_neg hp, hnone, List.getLast?_nil, Option.none_or, ih]
      | within selector inner =>
          have hnone : Event.rootLeaves property [(other, inner.within selector)] = [] := by
            cases inner <;> simp [Event.rootLeaves, Event.leaf?, Event.within]
          rw [Event.apply_within, literal?_nest, hnone, List.getLast?_nil, Option.none_or]
          -- A selector replaces no literal, since it is no property.
          rcases eq_or_ne property selector with rfl | hp
          · have hnil : Event.rootLeaves property events = [] := by
              rw [Event.rootLeaves, List.filterMap_eq_nil_iff]
              intro f hf
              have hnot := hapart f (List.mem_append_left _ hf) _ hlast
              rw [Event.path_within, List.mem_cons, not_or] at hnot
              rw [if_neg hnot.1]
            rw [if_pos rfl, hnil]
            rfl
          · rw [if_neg hp, ih]

/-- Keys stand in the order in which the events first come to them. -/
theorem keys_replay (hanswered : Event.Answered theme events) :
    ((∅ : Level).replay theme events).keys =
      (events.filterMap fun e => e.2.key? e.1).eraseDups := by
  induction events using List.reverseRecOn with
  | nil => rfl
  | append_singleton events e ih =>
      have ih := ih hanswered.of_append
      have hlast : e ∈ events ++ [e] := List.mem_append_right _ List.mem_cons_self
      obtain ⟨property, event⟩ := e
      have hadd (key : String) :
          (events.filterMap (fun e => e.2.key? e.1) ++ [key]).eraseDups =
            if key ∈ ((∅ : Level).replay theme events).keys
            then ((∅ : Level).replay theme events).keys
            else ((∅ : Level).replay theme events).keys ++ [key] := by
        rw [ih, List.eraseDups_append]
        by_cases hkey : key ∈ events.filterMap fun e => e.2.key? e.1
        · rw [if_pos (List.mem_eraseDups.2 hkey)]
          simp [List.removeAll, hkey]
        · rw [if_neg (fun h => hkey (List.mem_eraseDups.1 h))]
          simp [List.removeAll, hkey, List.eraseDups_cons]
      rw [replay_append, replay_singleton, List.filterMap_append]
      cases event using Event.rootCases with
      | touch =>
          simp only [List.filterMap_cons, List.filterMap_nil, Event.key?, List.head?_nil,
            List.append_nil]
          exact ih
      | write leaf =>
          obtain ⟨value, hvalue⟩ := Event.answer_of_failure? (hanswered _ hlast)
          rw [Event.apply_write_nil hvalue, keys_set]
          exact (hadd property).symm
      | within selector inner =>
          have hkey : (inner.within selector).key? property = some selector := by
            cases inner <;> rfl
          rw [Event.apply_within, keys_nest]
          simp only [List.filterMap_cons, List.filterMap_nil, hkey]
          exact (hadd selector).symm

/-- The level at a path is made by the events that happen there or further in, if there are any. -/
theorem descend?_replay (hanswered : Event.Answered theme events) (hapart : Event.Apart events)
    (path : List String) :
    ((∅ : Level).replay theme events).descend? path =
      if path ≠ [] ∧ Event.allBelow path events = [] then none
      else some ((∅ : Level).replay theme (Event.allBelow path events)) := by
  induction path generalizing events with
  | nil => simp
  | cons selector path ih =>
      rw [descend?_cons, nested?_replay hanswered hapart,
        Event.allBelow_cons selector path]
      by_cases hnil : Event.allBelow [selector] events = []
      · rw [if_pos hnil, hnil]
        simp [Event.allBelow]
      · rw [if_neg hnil, Option.bind_some, ih (hanswered.allBelow _) (hapart.allBelow _)]
        -- One selector alone leads to a level, since some event goes there.
        cases path with
        | nil => simp [hnil]
        | cons next path => simp

end Level

/-! ### Events of values and specifications -/

theorem Value.live_of_prefix {context : Context} {value : Value} {event : Event}
    {path : List String} (hevent : event ∈ value.events context) (hpath : path <+: event.path) :
    ∃ part, value.Live context path part := by
  induction value generalizing event path with
  | literal l =>
      obtain rfl := List.mem_singleton.1 hevent
      obtain rfl := List.prefix_nil.1 hpath
      exact ⟨_, .self _⟩
  | themed compute =>
      obtain rfl := List.mem_singleton.1 hevent
      obtain rfl := List.prefix_nil.1 hpath
      exact ⟨_, .self _⟩
  | empty => cases hevent
  | branches entries ih =>
      obtain ⟨⟨name, value⟩, hmem, ⟨hsame, hinner⟩ | ⟨selector, hunder, hevent⟩⟩ :=
        Value.mem_events_branches.1 hevent
      · obtain ⟨part, hlive⟩ := ih _ hmem hinner hpath
        rcases hsame with hbase | hpinned
        · exact ⟨part, .base hmem hbase hlive⟩
        · exact ⟨part, .pinned hmem hpinned hlive⟩
      · cases path with
        | nil => exact ⟨_, .self _⟩
        | cons other path =>
            obtain rfl | ⟨inner, hinner, rfl⟩ := hevent
            · obtain ⟨rfl, hnil⟩ := List.cons_prefix_cons.1 hpath
              obtain rfl := List.prefix_nil.1 hnil
              exact ⟨_, .under hmem hunder (.self _)⟩
            · rw [Event.path_within] at hpath
              obtain ⟨rfl, hrest⟩ := List.cons_prefix_cons.1 hpath
              obtain ⟨part, hlive⟩ := ih _ hmem hinner hrest
              exact ⟨part, .under hmem hunder hlive⟩

theorem Value.Live.touch_mem {context : Context} {value part : Value} {path : List String}
    (hlive : value.Live context path part) (hpath : path ≠ []) :
    .touch path ∈ value.events context := by
  induction hlive with
  | self value => exact absurd rfl hpath
  | base hmem htarget _ ih =>
      exact Value.mem_events_branches.2 ⟨_, hmem, .inl ⟨.inl htarget, ih hpath⟩⟩
  | pinned hmem htarget _ ih =>
      exact Value.mem_events_branches.2 ⟨_, hmem, .inl ⟨.inr htarget, ih hpath⟩⟩
  | @under entries name value path part selector hmem htarget _ ih =>
      refine Value.mem_events_branches.2 ⟨_, hmem, .inr ⟨selector, htarget, ?_⟩⟩
      rcases eq_or_ne path [] with rfl | hnil
      · exact .inl rfl
      · exact .inr ⟨_, ih hnil, rfl⟩

theorem Value.mem_leaves {context : Context} {value : Value} {path : List String} {leaf : Leaf} :
    (path, leaf) ∈ value.leaves context ↔ .write path leaf ∈ value.events context := by
  rw [Value.leaves, List.mem_filterMap]
  constructor
  · rintro ⟨event, hevent, hleaf⟩
    cases event with
    | touch whole => cases hleaf
    | write whole other =>
        obtain ⟨rfl, rfl⟩ := Prod.mk.inj (Option.some.inj hleaf)
        exact hevent
  · intro hevent
    exact ⟨_, hevent, rfl⟩

/-- The leaves of a value are the live parts of it that are no branches and not empty. -/
theorem Value.mem_leaves_iff_live {context : Context} {value : Value} {path : List String}
    {leaf : Leaf} :
    (path, leaf) ∈ value.leaves context ↔ value.Live context path leaf.value := by
  rw [Value.mem_leaves]
  constructor
  · intro hwrite
    induction value generalizing path with
    | literal l =>
        cases List.mem_singleton.1 hwrite
        exact .self _
    | themed compute =>
        cases List.mem_singleton.1 hwrite
        exact .self _
    | empty => cases hwrite
    | branches entries ih =>
        obtain ⟨⟨name, value⟩, hmem, ⟨hsame, hinner⟩ | ⟨selector, hunder, hevent⟩⟩ :=
          Value.mem_events_branches.1 hwrite
        · have hlive := ih _ hmem hinner
          rcases hsame with hbase | hpinned
          · exact .base hmem hbase hlive
          · exact .pinned hmem hpinned hlive
        · obtain htouch | ⟨inner, hinner, hwithin⟩ := hevent
          · cases htouch
          · cases inner with
            | touch path => cases hwithin
            | write path leaf =>
                cases hwithin
                exact .under hmem hunder (ih _ hmem hinner)
  · intro hlive
    generalize hpart : leaf.value = part at hlive
    induction hlive with
    | self value =>
        subst hpart
        cases leaf <;> exact List.mem_singleton.2 rfl
    | base hmem htarget _ ih =>
        exact Value.mem_events_branches.2 ⟨_, hmem, .inl ⟨.inl htarget, ih hpart⟩⟩
    | pinned hmem htarget _ ih =>
        exact Value.mem_events_branches.2 ⟨_, hmem, .inl ⟨.inr htarget, ih hpart⟩⟩
    | under hmem htarget _ ih =>
        exact Value.mem_events_branches.2
          ⟨_, hmem, .inr ⟨_, htarget, .inr ⟨_, ih hpart, rfl⟩⟩⟩

theorem Spec.allBelow_events_ne_nil_iff {context : Context} {spec : Spec} {path : List String}
    (hpath : path ≠ []) :
    Event.allBelow path (spec.events context) ≠ [] ↔
      ∃ entry ∈ spec.pairs, ∃ part, entry.2.Live context path part := by
  constructor
  · intro hne
    obtain ⟨inner, hinner⟩ := List.exists_mem_of_ne_nil _ hne
    obtain ⟨event, hmem, hbelow⟩ := Event.mem_allBelow.1 hinner
    obtain ⟨entry, hentry, _, hevent⟩ := Spec.mem_events.1 hmem
    have hprefix : path <+: event.path :=
      Event.below?_isSome_iff.1 (Option.isSome_iff_exists.2 ⟨_, hbelow⟩)
    exact ⟨entry, hentry, Value.live_of_prefix hevent hprefix⟩
  · rintro ⟨entry, hentry, part, hlive⟩
    have hmem : (entry.1, .touch path) ∈ spec.events context :=
      Spec.mem_events.2 ⟨entry, hentry, rfl, hlive.touch_mem hpath⟩
    have hsome : ((Event.touch path).below? path).isSome :=
      Event.below?_isSome_iff.2 (List.prefix_rfl)
    obtain ⟨inner, hinner⟩ := Option.isSome_iff_exists.1 hsome
    exact List.ne_nil_of_mem (a := (entry.1, inner)) (Event.mem_allBelow.2 ⟨_, hmem, hinner⟩)

theorem Spec.events_apart {context : Context} {spec : Spec}
    (h : ∀ property ∈ spec.keys, ∀ entry ∈ spec.pairs, ∀ path part,
      entry.2.Live context path part → property ∉ path) :
    Event.Apart (spec.events context) := by
  intro e he f hf
  obtain ⟨entry, hentry, hproperty, _⟩ := Spec.mem_events.1 he
  obtain ⟨other, hother, _, hevent⟩ := Spec.mem_events.1 hf
  obtain ⟨part, hlive⟩ := Value.live_of_prefix hevent List.prefix_rfl
  exact h e.1 (hproperty ▸ Pairs.mem_keys_of_mem hentry) other hother _ part hlive

/-- The leaves of a value at a path, as the events give them. -/
theorem Value.leaves_at (context : Context) (value : Value) (path : List String) :
    ((value.leaves context).filter fun leaf => leaf.1 == path).map Prod.snd =
      (value.events context).filterMap fun event => (event.below? path).bind Event.leaf? := by
  rw [Value.leaves, List.filter_filterMap, List.map_filterMap]
  congr 1
  funext event
  cases event with
  | touch whole => cases h : path.isPrefixOf? whole <;> simp [Event.below?, Event.leaf?, h]
  | write whole leaf =>
      by_cases hwhole : whole = path
      · have hself : path.isPrefixOf? path = some [] :=
          List.isPrefixOf?_eq_some_iff_append_eq.2 (List.append_nil path)
        simp [Event.below?, Event.leaf?, hwhole, hself]
      · cases h : path.isPrefixOf? whole with
        | none => simp [Event.below?, hwhole, h]
        | some rest =>
            have happend := List.isPrefixOf?_eq_some_iff_append_eq.1 h
            cases rest with
            | nil => exact absurd (by simpa using happend.symm) hwhole
            | cons selector rest => simp [Event.below?, Event.leaf?, hwhole, h]

theorem Spec.lastLeaf?_eq (context : Context) (spec : Spec) (path : List String)
    (property : String) :
    (Event.rootLeaves property (Event.allBelow path (spec.events context))).getLast? =
      spec.lastLeaf? context path property := by
  have hleaves : Event.rootLeaves property (Event.allBelow path (spec.events context)) =
      spec.pairs.flatMap fun entry =>
        if entry.1 = property then
          ((entry.2.leaves context).filter fun leaf => leaf.1 == path).map Prod.snd
        else [] := by
    rw [Event.rootLeaves, Event.allBelow, Spec.events, List.filterMap_filterMap,
      List.filterMap_flatMap]
    congr 1
    funext entry
    rw [List.filterMap_map, Value.leaves_at]
    by_cases h : entry.1 = property
    · rw [if_pos h]
      congr 1
      funext event
      cases hb : event.below? path <;> simp [hb, h]
    · rw [if_neg h, List.filterMap_eq_nil_iff]
      intro event _
      cases hb : event.below? path <;> simp [hb, h]
  rw [hleaves, Pairs.flatMap_eq_lookup spec.nodup property fun value =>
    ((value.leaves context).filter fun leaf => leaf.1 == path).map Prod.snd, Spec.lastLeaf?,
    Table.get?]
  cases spec.pairs.lookup property <;> simp

theorem Spec.compile_eq_ok {context : Context} {spec : Spec} {style : Level}
    (hstyle : spec.compile context = .ok style) :
    Event.Answered context.theme (spec.events context) ∧
      style = (∅ : Level).replay context.theme (spec.events context) := by
  rw [Spec.compile_eq_events] at hstyle
  cases hfind : (spec.events context).findSome? fun e => e.2.failure? context.theme e.1 with
  | none =>
      rw [hfind] at hstyle
      exact ⟨List.findSome?_eq_none_iff.1 hfind, (Except.ok.inj hstyle).symm⟩
  | some error =>
      rw [hfind] at hstyle
      cases hstyle

theorem Request.exists_expandedSpec {request : Request} {fallback : Resolvers} {style : Level}
    (hstyle : request.compile fallback = .ok style) :
    ∃ spec, request.expandedSpec = .ok spec := by
  cases hspec : request.expandedSpec with
  | ok spec => exact ⟨spec, rfl⟩
  | error error =>
      rw [Request.compile, hspec] at hstyle
      cases hstyle

theorem Request.compile_eq_ok {request : Request} {fallback : Resolvers} {spec : Spec}
    {style : Level} (hspec : request.expandedSpec = .ok spec)
    (hstyle : request.compile fallback = .ok style) :
    Event.Answered request.combinedTheme (spec.events (request.context fallback)) ∧
      style = (∅ : Level).replay request.combinedTheme
        (spec.events (request.context fallback)) := by
  rw [Request.compile_of_expandedSpec hspec] at hstyle
  exact Spec.compile_eq_ok hstyle

/-- What a compiled style answers at every path. No property may have the name of a selector that a
live branch goes to; such a name would stand for a literal and for a level, and only the one written
last would be there. -/
theorem Request.compile_answers (request : Request) (fallback : Resolvers) (spec : Spec)
    (style : Level) (hspec : request.expandedSpec = .ok spec)
    (hstyle : request.compile fallback = .ok style)
    (hapart : ∀ property ∈ spec.keys, ∀ entry ∈ spec.pairs, ∀ path part,
      entry.2.Live (request.context fallback) path part → property ∉ path) :
    (∀ path property,
      ((style.descend? path).bind (·.literal? property)).map Except.ok =
        (spec.lastLeaf? (request.context fallback) path property).map
          (Leaf.answer request.combinedTheme)) ∧
    (∀ path, path ≠ [] →
      ((style.descend? path).isSome ↔
        ∃ entry ∈ spec.pairs, ∃ part, entry.2.Live (request.context fallback) path part)) ∧
    ∀ path level, style.descend? path = some level →
      level.keys = (spec.keysAt (request.context fallback) path).eraseDups := by
  obtain ⟨hanswered, rfl⟩ := Request.compile_eq_ok hspec hstyle
  have hevents := Spec.events_apart hapart
  refine ⟨?_, ?_, ?_⟩
  · intro path property
    rw [← Spec.lastLeaf?_eq, Level.descend?_replay hanswered hevents]
    split
    · rename_i h
      rw [h.2]
      rfl
    · exact Level.literal?_replay (hanswered.allBelow path) (hevents.allBelow path) property
  · intro path hpath
    rw [← Spec.allBelow_events_ne_nil_iff hpath, Level.descend?_replay hanswered hevents]
    by_cases hnil : Event.allBelow path (spec.events (request.context fallback)) = []
    · simp [hnil, hpath]
    · simp [hnil]
  · intro path level hlevel
    rw [Level.descend?_replay hanswered hevents] at hlevel
    split at hlevel
    · cases hlevel
    · obtain rfl := Option.some.inj hlevel
      exact Level.keys_replay (hanswered.allBelow path)

theorem Spec.not_mem_of_live {context : Context} {spec : Spec}
    (h : ∀ property ∈ spec.keys, ∀ e ∈ spec.events context, property ∉ e.2.path) :
    ∀ property ∈ spec.keys, ∀ entry ∈ spec.pairs, ∀ path part,
      entry.2.Live context path part → property ∉ path := by
  intro property hproperty entry hentry path part hlive
  rcases eq_or_ne path [] with rfl | hpath
  · exact List.not_mem_nil
  · exact h property hproperty (entry.1, .touch path)
      (Spec.mem_events.2 ⟨entry, hentry, rfl, hlive.touch_mem hpath⟩)

theorem Request.link_compile_answers :
    ∃ style, link.expandedSpec = .ok link.layers.merged ∧
      link.compile Resolvers.builtin = .ok style ∧
      (∀ property ∈ link.layers.merged.keys, ∀ entry ∈ link.layers.merged.pairs, ∀ path part,
        entry.2.Live (link.context Resolvers.builtin) path part → property ∉ path) ∧
      ((style.descend? [".card:hover &"]).bind (·.literal? "color")).map Except.ok =
        some (.ok (.text "navy") : Except String Literal) ∧
      (∃ entry ∈ link.layers.merged.pairs, ∃ part,
        entry.2.Live (link.context Resolvers.builtin) [".card:hover &", ".card:focus &"] part) ∧
      ∀ level, style.descend? [".card:hover &"] = some level →
        level.keys = [".card:focus &", "color", "border"] := by
  have hapart := @Spec.not_mem_of_live (link.context Resolvers.builtin) link.layers.merged
    (by decide)
  obtain ⟨hliteral, hlevel, hkeys⟩ :=
    Request.compile_answers link Resolvers.builtin _ _ rfl rfl hapart
  refine ⟨_, rfl, rfl, hapart, ?_, ?_, ?_⟩
  · exact hliteral [".card:hover &"] "color"
  · exact (hlevel [".card:hover &", ".card:focus &"] (List.cons_ne_nil _ _)).1 rfl
  · exact hkeys [".card:hover &"]

end StyleTree
