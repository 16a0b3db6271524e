import StyleTree.Proofs.Dropped
import StyleTree.Proofs.Provenance
import StyleTree.Proofs.Reordering

/-!
What empty values contribute to a style. An empty value writes nothing, but under a selector it
comes too late to be without a trace: the level of the selector is there before the value is looked
at, and if no other branch goes there it stays, with nothing in it. Leaving out the empty values
takes away these touches and no other event. So it never changes a failure and never touches a
literal that no level replaces, and the styles are the same if and only if no level is missing
afterwards.
-/

namespace StyleTree

theorem Branches.keys_without_sublist (gone : String × Value → Bool)
    (entries : List (String × Value)) :
    (Pairs.keys (Branches.without gone entries)).Sublist (Pairs.keys entries) := by
  induction entries with
  | nil => exact .slnil
  | cons entry entries ih =>
      obtain ⟨name, value⟩ := entry
      rw [Branches.without]
      split
      · exact ih.cons name
      · exact ih.cons_cons name

/-- The specification without its empty values: neither a property nor a selector name has one any
more, at any depth. -/
def Spec.withoutEmpty (spec : Spec) : Spec :=
  ⟨Branches.without (fun entry => entry.2.isEmpty) spec.pairs,
    spec.nodup.sublist (Branches.keys_without_sublist _ spec.pairs)⟩

/-- The same stands in every position, but for levels that only the first of the two has. -/
def Level.Covers (level other : Level) : Prop :=
  ∀ path, level.find? path = other.find? path ∨ level.find? path = some .level

/-- The second list is the first one without some of its spare elements. -/
inductive Trimmed {α : Type} (spare : α → Prop) : List α → List α → Prop
  | nil : Trimmed spare [] []
  | keep (a : α) {as bs : List α} (h : Trimmed spare as bs) : Trimmed spare (a :: as) (a :: bs)
  | drop {a : α} {as bs : List α} (ha : spare a) (h : Trimmed spare as bs) :
      Trimmed spare (a :: as) bs

namespace Trimmed

variable {α β : Type} {spare : α → Prop} {as bs cs ds : List α}

theorem refl (as : List α) : Trimmed spare as as := by
  induction as with
  | nil => exact .nil
  | cons a as ih => exact .keep a ih

theorem append (h : Trimmed spare as bs) (h' : Trimmed spare cs ds) :
    Trimmed spare (as ++ cs) (bs ++ ds) := by
  induction h with
  | nil => exact h'
  | keep a _ ih => exact .keep a ih
  | drop ha _ ih => exact .drop ha ih

theorem map {other : β → Prop} {f : α → β} (hf : ∀ a, spare a → other (f a))
    (h : Trimmed spare as bs) : Trimmed other (as.map f) (bs.map f) := by
  induction h with
  | nil => exact .nil
  | keep a _ ih => exact .keep (f a) ih
  | drop ha _ ih => exact .drop (hf _ ha) ih

theorem mono {other : α → Prop} (hspare : ∀ a, spare a → other a) (h : Trimmed spare as bs) :
    Trimmed other as bs := by
  induction h with
  | nil => exact .nil
  | keep a _ ih => exact .keep a ih
  | drop ha _ ih => exact .drop (hspare _ ha) ih

theorem subset (h : Trimmed spare as bs) : bs ⊆ as := by
  induction h with
  | nil => exact List.Subset.refl _
  | keep a _ ih => exact List.cons_subset_cons a ih
  | drop _ _ ih => exact List.subset_cons_of_subset _ ih

theorem filterMap_eq {f : α → Option β} (hspare : ∀ a, spare a → f a = none)
    (h : Trimmed spare as bs) : as.filterMap f = bs.filterMap f := by
  induction h with
  | nil => rfl
  | keep a _ ih => rw [List.filterMap_cons, List.filterMap_cons, ih]
  | drop ha _ ih => rw [List.filterMap_cons, hspare _ ha, ih]

theorem eq_of_forall_not (hspare : ∀ a, ¬ spare a) (h : Trimmed spare as bs) : as = bs := by
  induction h with
  | nil => rfl
  | keep a _ ih => rw [ih]
  | drop ha _ _ => exact absurd ha (hspare _)

end Trimmed

/-! ### The events of empty values -/

/-- A touch of a level, only because an empty value stands under its selector. -/
def Event.Idle (context : Context) (value : Value) (event : Event) : Prop :=
  ∃ path, path ≠ [] ∧ event = .touch path ∧ value.Live context path .empty

section

variable {context : Context}

theorem Branches.trimmed_flatMap {α : Type} {spare : α → Prop}
    (events : String → List Event → List α) {entries : List (String × Value)}
    (hempty : ∀ entry ∈ entries, entry.2.isEmpty = true →
      Trimmed spare (events entry.1 (entry.2.events context)) [])
    (hkept : ∀ entry ∈ entries, entry.2.isEmpty = false →
      Trimmed spare (events entry.1 (entry.2.events context))
        (events entry.1 ((entry.2.without fun e => e.2.isEmpty).events context))) :
    Trimmed spare (entries.flatMap fun e => events e.1 (e.2.events context))
      ((Branches.without (fun e => e.2.isEmpty) entries).flatMap fun e =>
        events e.1 (e.2.events context)) := by
  induction entries with
  | nil => exact .nil
  | cons entry entries ih =>
      obtain ⟨name, value⟩ := entry
      rw [List.forall_mem_cons] at hempty hkept
      have ih := ih hempty.2 hkept.2
      rw [Branches.without, List.flatMap_cons]
      cases hvalue : value.isEmpty with
      | true =>
          rw [if_pos rfl]
          exact (hempty.1 hvalue).append ih
      | false =>
          rw [if_neg Bool.false_ne_true, List.flatMap_cons]
          exact (hkept.1 hvalue).append ih

/-- Leaving out the empty values of a value takes away idle touches of levels and nothing else. -/
theorem Value.trimmed_events (value : Value) :
    Trimmed (Event.Idle context value) (value.events context)
      ((value.without fun e => e.2.isEmpty).events context) := by
  induction value with
  | literal value => exact .refl _
  | themed compute => exact .refl _
  | empty => exact .refl _
  | branches entries ih =>
      rw [Value.without, Value.events_branches, Value.events_branches]
      refine .append
        (Branches.trimmed_flatMap (fun name => (context.target name).firstEvents) ?_ ?_)
        (Branches.trimmed_flatMap (fun name => (context.target name).pinnedEvents) ?_ ?_)
      · -- In the first round an empty value has at most the touch of its own level.
        rintro ⟨name, value⟩ hmem hvalue
        cases value with
        | empty =>
            cases htarget : context.target name with
            | under selector =>
                refine .drop ⟨[selector], List.cons_ne_nil _ _, rfl, ?_⟩ .nil
                exact .under hmem htarget (.self _)
            | _ => exact .nil
        | _ => cases hvalue
      · rintro ⟨name, value⟩ hmem _
        have ih := ih _ hmem
        cases htarget : context.target name with
        | base =>
            refine ih.mono ?_
            rintro event ⟨path, hpath, rfl, hlive⟩
            exact ⟨path, hpath, rfl, .base hmem htarget hlive⟩
        | under selector =>
            refine .keep _ (ih.map ?_)
            rintro event ⟨path, hpath, rfl, hlive⟩
            exact ⟨selector :: path, List.cons_ne_nil _ _, rfl, .under hmem htarget hlive⟩
        | pinned => exact .nil
        | dropped => exact .nil
      · rintro ⟨name, value⟩ hmem hvalue
        cases value with
        | empty => cases context.target name <;> exact .nil
        | _ => cases hvalue
      · rintro ⟨name, value⟩ hmem _
        have ih := ih _ hmem
        cases htarget : context.target name with
        | pinned =>
            refine ih.mono ?_
            rintro event ⟨path, hpath, rfl, hlive⟩
            exact ⟨path, hpath, rfl, .pinned hmem htarget hlive⟩
        | _ => exact .nil

theorem Spec.trimmed_events (context : Context) (spec : Spec) :
    Trimmed (fun e => ∃ entry ∈ spec.pairs, entry.1 = e.1 ∧ e.2.Idle context entry.2)
      (spec.events context) (spec.withoutEmpty.events context) := by
  refine Branches.trimmed_flatMap (fun property events => events.map (property, ·)) ?_ ?_
  · rintro ⟨property, value⟩ _ hvalue
    cases value with
    | empty => exact .nil
    | _ => cases hvalue
  · rintro ⟨property, value⟩ hmem _
    refine value.trimmed_events.map ?_
    intro event hidle
    exact ⟨_, hmem, rfl, hidle⟩

end

/-! ### Levels that only empty values open -/

namespace Level

variable {theme : Theme} {level other : Level}

theorem Covers.refl (level : Level) : level.Covers level := fun _ => .inl rfl

theorem Covers.apply (h : level.Covers other) {property : String} {event : Event}
    (hanswered : event.failure? theme property = none) :
    (event.apply theme property level).Covers (event.apply theme property other) := by
  intro path
  cases event with
  | touch target =>
      rw [Event.find?_apply_touch, Event.find?_apply_touch]
      split
      · exact .inl rfl
      · exact h path
  | write target leaf =>
      obtain ⟨value, hvalue⟩ := Event.answer_of_failure? hanswered
      rw [Event.find?_apply_write hvalue, Event.find?_apply_write hvalue]
      split
      · exact .inl rfl
      · split
        · exact .inl rfl
        · split
          · exact .inl rfl
          · exact h path

theorem Covers.touch (h : level.Covers other) (property : String) (target : List String) :
    ((Event.touch target).apply theme property level).Covers other := by
  intro path
  rw [Event.find?_apply_touch]
  split
  · exact .inr rfl
  · exact h path

/-- Touches that are left out can only be missed as levels. -/
theorem Covers.replay {spare : String × Event → Prop} {events others : List (String × Event)}
    (h : level.Covers other) (htrimmed : Trimmed spare events others)
    (hspare : ∀ e, spare e → ∃ target, e.2 = .touch target)
    (hanswered : Event.Answered theme events) :
    (level.replay theme events).Covers (other.replay theme others) := by
  induction htrimmed generalizing level other with
  | nil => exact h
  | keep e _ ih =>
      rw [Event.Answered, List.forall_mem_cons] at hanswered
      exact ih (h.apply hanswered.1) hanswered.2
  | @drop e _ _ he _ ih =>
      rw [Event.Answered, List.forall_mem_cons] at hanswered
      obtain ⟨property, event⟩ := e
      obtain ⟨target, rfl⟩ := hspare _ he
      exact ih (h.touch property target) hanswered.2

theorem Covers.reordered_iff (h : level.Covers other) (hlevel : level.Distinct)
    (hother : other.Distinct) :
    level.Reordered other ↔
      ∀ path, (level.descend? path).isSome → (other.descend? path).isSome := by
  rw [hlevel.reordered_iff hother]
  simp only [← find?_eq_level_iff]
  constructor
  · intro hsame path hfound
    rw [← hsame, hfound]
  · intro hlevels path
    rcases h path with hsame | hfound
    · exact hsame
    · rw [hfound, hlevels path hfound]

end Level

section

variable {context : Context} {spec : Spec}

theorem Spec.isSome_descend?_replay_iff
    (hanswered : Event.Answered context.theme (spec.events context))
    (hapart : Event.Apart (spec.events context)) {path : List String} (hpath : path ≠ []) :
    (((∅ : Level).replay context.theme (spec.events context)).descend? path).isSome ↔
      ∃ entry ∈ spec.pairs, ∃ part, entry.2.Live context path part := by
  rw [← Spec.allBelow_events_ne_nil_iff hpath, Level.descend?_replay hanswered hapart]
  by_cases hnil : Event.allBelow path (spec.events context) = []
  · simp [hnil, hpath]
  · simp [hnil]

theorem Spec.findSome?_failure?_withoutEmpty (context : Context) (spec : Spec) :
    (spec.withoutEmpty.events context).findSome? (fun e => e.2.failure? context.theme e.1) =
      (spec.events context).findSome? fun e => e.2.failure? context.theme e.1 := by
  rw [← List.head?_filterMap, ← List.head?_filterMap]
  refine congrArg List.head? (Trimmed.filterMap_eq ?_ (Spec.trimmed_events context spec)).symm
  rintro ⟨property, event⟩ ⟨_, _, _, path, _, rfl, _⟩
  rfl

end

/-- Without its empty values a specification fails as before. If none of them stands right under a
selector, it compiles to the same. In any case the two styles are the same in every position where
the first one has no level, and they are the same but for the order of keys if and only if the
second one has all levels of the first. Where no property has the name of a selector, this means
that whatever level a live branch goes to, some branch still goes there when the empty values are
left out. -/
theorem Spec.compile_withoutEmpty (context : Context) (spec : Spec) :
    (∀ error, spec.withoutEmpty.compile context = .error error ↔
      spec.compile context = .error error) ∧
    ((∀ entry ∈ spec.pairs, ∀ path, entry.2.Live context path .empty → path = []) →
      spec.withoutEmpty.compile context = spec.compile context) ∧
    ∀ style other, spec.compile context = .ok style →
      spec.withoutEmpty.compile context = .ok other →
      style.Covers other ∧
      (style.Reordered other ↔
        ∀ path, (style.descend? path).isSome → (other.descend? path).isSome) ∧
      ((∀ property ∈ spec.keys, ∀ entry ∈ spec.pairs, ∀ path part,
          entry.2.Live context path part → property ∉ path) →
        (style.Reordered other ↔ ∀ path, path ≠ [] →
          (∃ entry ∈ spec.pairs, ∃ part, entry.2.Live context path part) →
          ∃ entry ∈ spec.withoutEmpty.pairs, ∃ part, entry.2.Live context path part)) := by
  have htrimmed := Spec.trimmed_events context spec
  refine ⟨?_, ?_, ?_⟩
  · intro error
    rw [Spec.compile_eq_events, Spec.compile_eq_events, Spec.findSome?_failure?_withoutEmpty]
    cases (spec.events context).findSome? fun e => e.2.failure? context.theme e.1 <;> simp
  · intro hnone
    have hevents : spec.events context = spec.withoutEmpty.events context := by
      refine htrimmed.eq_of_forall_not ?_
      rintro e ⟨entry, hentry, _, path, hpath, _, hlive⟩
      exact hpath (hnone entry hentry path hlive)
    rw [Spec.compile_eq_events, Spec.compile_eq_events, hevents]
  · intro style other hstyle hother
    obtain ⟨hanswered, rfl⟩ := Spec.compile_eq_ok hstyle
    obtain ⟨hotherAnswered, rfl⟩ := Spec.compile_eq_ok hother
    have hcovers := (Level.Covers.refl ∅).replay htrimmed (by
      rintro e ⟨_, _, _, path, _, htouch, _⟩
      exact ⟨path, htouch⟩) hanswered
    have hiff := hcovers.reordered_iff (Level.distinct_empty.replay _ _)
      (Level.distinct_empty.replay _ _)
    refine ⟨hcovers, hiff, fun hproperties => ?_⟩
    have hapart := Spec.events_apart hproperties
    have hotherApart : Event.Apart (spec.withoutEmpty.events context) := fun e he f hf =>
      hapart e (htrimmed.subset he) f (htrimmed.subset hf)
    rw [hiff]
    constructor
    · intro hlevels path hpath hlive
      rw [← Spec.isSome_descend?_replay_iff hotherAnswered hotherApart hpath]
      exact hlevels path ((Spec.isSome_descend?_replay_iff hanswered hapart hpath).2 hlive)
    · intro hlive path hsome
      rcases eq_or_ne path [] with rfl | hpath
      · rfl
      · rw [Spec.isSome_descend?_replay_iff hotherAnswered hotherApart hpath]
        exact hlive path hpath
          ((Spec.isSome_descend?_replay_iff hanswered hapart hpath).1 hsome)

def Context.plain : Context where
  theme := ∅
  resolvers := Resolvers.builtin
  boundary := none

/-- A colour that is authored as `null` for the hovered element. -/
def Spec.hushed : Spec := .ofJson (.object [("color", .object [("hover", .null)])])

/-- Nothing is left of this specification without its empty value, yet it opens a level. -/
theorem Spec.hushed_opens_level :
    hushed.withoutEmpty.compile Context.plain = .ok ∅ ∧
    ∃ style, hushed.compile Context.plain = .ok style ∧
      style = ⟨[("&:hover", .nested [])]⟩ ∧ ¬ style.Reordered ∅ := by
  refine ⟨rfl, _, rfl, rfl, ?_⟩
  intro hreordered
  cases hreordered with
  | nested hkeys _ => exact List.cons_ne_nil _ _ hkeys.eq_nil

/-- An empty value right under a selector that the border has a branch for too, and another one
deeper in this branch. -/
def Spec.sparse : Spec := .ofPairs [
  ("color", .branches [("default", .empty), ("hover", .empty),
    ("focus", .literal (.text "blue"))]),
  ("border", .branches [("hover", .branches [("default", .literal (.text "thin")),
    ("&", .empty)])])]

def Spec.vacant : Spec := .ofPairs [("margin", .empty), ("color", .branches [("default", .empty)])]

theorem Spec.vacant_live_empty :
    ∀ entry ∈ vacant.pairs, ∀ path, entry.2.Live Context.plain path .empty → path = [] := by
  intro entry hentry path hlive
  rcases List.mem_cons.1 hentry with rfl | hentry
  · cases hlive
    rfl
  · obtain rfl := List.mem_singleton.1 hentry
    cases hlive with
    | base hmem _ hlive =>
        obtain ⟨_, rfl⟩ := Prod.mk.inj (List.mem_singleton.1 hmem)
        cases hlive
        rfl
    | pinned hmem _ hlive =>
        obtain ⟨_, rfl⟩ := Prod.mk.inj (List.mem_singleton.1 hmem)
        cases hlive
        rfl
    | under hmem htarget _ =>
        obtain ⟨rfl, _⟩ := Prod.mk.inj (List.mem_singleton.1 hmem)
        cases htarget

theorem Spec.sparse_compile_withoutEmpty :
    ((∀ entry ∈ vacant.pairs, ∀ path, entry.2.Live Context.plain path .empty → path = []) ∧
      vacant.withoutEmpty.compile Context.plain = vacant.compile Context.plain) ∧
    (∀ property ∈ sparse.keys, ∀ entry ∈ sparse.pairs, ∀ path part,
      entry.2.Live Context.plain path part → property ∉ path) ∧
    ∃ style other, sparse.compile Context.plain = .ok style ∧
      sparse.withoutEmpty.compile Context.plain = .ok other ∧
      style.keys = ["&:hover", "&:focus"] ∧ other.keys = ["&:focus", "&:hover"] ∧
      style.Reordered other := by
  have hapart := @Spec.not_mem_of_live Context.plain sparse (by decide)
  have hkept : ∀ e ∈ sparse.events Context.plain,
      ∃ f ∈ sparse.withoutEmpty.events Context.plain, e.2.path <+: f.2.path := by decide
  obtain ⟨_, hequal, _⟩ := Spec.compile_withoutEmpty Context.plain vacant
  obtain ⟨_, _, hsame⟩ := Spec.compile_withoutEmpty Context.plain sparse
  obtain ⟨_, _, hlive⟩ := hsame _ _ rfl rfl
  refine ⟨⟨vacant_live_empty, hequal vacant_live_empty⟩, hapart, _, _, rfl, rfl, rfl, rfl,
    (hlive hapart).2 ?_⟩
  rintro path hpath ⟨entry, hentry, part, hpart⟩
  have hmem : (entry.1, Event.touch path) ∈ sparse.events Context.plain :=
    Spec.mem_events.2 ⟨entry, hentry, rfl, hpart.touch_mem hpath⟩
  obtain ⟨f, hf, hprefix⟩ := hkept _ hmem
  obtain ⟨other, hother, _, hevent⟩ := Spec.mem_events.1 hf
  exact ⟨other, hother, Value.live_of_prefix hevent hprefix⟩

end StyleTree
