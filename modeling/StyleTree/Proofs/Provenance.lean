import StyleTree.Level.Positions
import StyleTree.Proofs.Answers

/-!
Where everything in a compiled style comes from. An event makes levels of all positions on its way
and writes at most one literal, at its end; whatever stood behind that literal is gone, and all
other positions stay as they are. So each literal of a style was written by an event at this very
position and each level was passed by one. This holds also where a property has the name of a
selector, so that literals and levels replace each other.
-/

namespace StyleTree

/-! ### What one event does to the positions of a level -/

namespace Level

theorem find?_updateAt_cons (f : Level → Level) (selector : String) (target : List String)
    (level : Level) (key : String) (path : List String) :
    (level.updateAt f (selector :: target)).find? (key :: path) =
      if key = selector then ((level.under selector).updateAt f target).find? path
      else level.find? (key :: path) :=
  find?_nest level selector _ key path

theorem find?_updateAt_id (target path : List String) (level : Level) :
    (level.updateAt id target).find? path =
      if path <+: target then some .level else level.find? path := by
  induction target generalizing path level with
  | nil => cases path <;> simp [updateAt]
  | cons selector target ih =>
      cases path with
      | nil => simp
      | cons key path =>
          simp only [find?_updateAt_cons, List.cons_prefix_cons]
          by_cases hkey : key = selector
          · subst hkey
            rw [if_pos rfl, ih]
            cases path with
            | nil => simp
            | cons next path => simp [find?_under]
          · simp [hkey]

theorem find?_updateAt_set (property : String) (value : Literal) (target path : List String)
    (level : Level) :
    (level.updateAt (·.set property value) target).find? path =
      if path <+: target then some .level
      else if path = target ++ [property] then some (.literal value)
      else if target ++ [property] <+: path then none
      else level.find? path := by
  induction target generalizing path level with
  | nil =>
      cases path with
      | nil => simp
      | cons key path =>
          rw [updateAt, find?_set]
          by_cases hkey : key = property
          · subst hkey
            cases path <;> simp [Entry.find?, Entry.finding]
          · simp [hkey, Ne.symm hkey]
  | cons selector target ih =>
      cases path with
      | nil => simp
      | cons key path =>
          simp only [find?_updateAt_cons, List.cons_append, List.cons_prefix_cons]
          by_cases hkey : key = selector
          · subst hkey
            rw [if_pos rfl, ih]
            cases path with
            | nil => simp
            | cons next path => simp [find?_under]
          · simp [hkey, Ne.symm hkey]

end Level

namespace Event

variable {theme : Theme} {property : String} {level : Level} {path : List String}

theorem find?_apply_touch (target : List String) :
    ((touch target).apply theme property level).find? path =
      if path <+: target then some .level else level.find? path :=
  Level.find?_updateAt_id target path level

theorem find?_apply_write {target : List String} {leaf : Leaf} {value : Literal}
    (h : leaf.answer theme = .ok value) :
    ((write target leaf).apply theme property level).find? path =
      if path <+: target then some .level
      else if path = target ++ [property] then some (.literal value)
      else if target ++ [property] <+: path then none
      else level.find? path := by
  simp only [apply, h]
  exact Level.find?_updateAt_set property value target path level

/-- A literal that is there after an event is the one that the event writes, or it was there
before. -/
theorem find?_apply_eq_literal {event : Event} {value : Literal}
    (hanswered : event.failure? theme property = none)
    (h : (event.apply theme property level).find? path = some (.literal value)) :
    (∃ target leaf, event = write target leaf ∧ path = target ++ [property] ∧
      leaf.answer theme = .ok value) ∨ level.find? path = some (.literal value) := by
  cases event with
  | touch target =>
      rw [find?_apply_touch] at h
      split at h
      · cases h
      · exact .inr h
  | write target leaf =>
      obtain ⟨written, hwritten⟩ := answer_of_failure? hanswered
      rw [find?_apply_write hwritten] at h
      split at h
      · cases h
      · split at h
        · rename_i hpath
          cases h
          exact .inl ⟨target, leaf, rfl, hpath, hwritten⟩
        · split at h
          · cases h
          · exact .inr h

/-- A level that is there after an event lies on the way of the event, or it was there before. -/
theorem find?_apply_eq_level {event : Event} (hanswered : event.failure? theme property = none)
    (h : (event.apply theme property level).find? path = some .level) :
    path <+: event.path ∨ level.find? path = some .level := by
  cases event with
  | touch target =>
      rw [find?_apply_touch] at h
      split at h
      · exact .inl ‹_›
      · exact .inr h
  | write target leaf =>
      obtain ⟨written, hwritten⟩ := answer_of_failure? hanswered
      rw [find?_apply_write hwritten] at h
      split at h
      · exact .inl ‹_›
      · split at h
        · cases h
        · split at h
          · cases h
          · exact .inr h

end Event

/-! ### What a style is made of -/

namespace Level

section

variable {theme : Theme} {events : List (String × Event)} {level : Level} {path : List String}

theorem find?_replay_eq_literal {value : Literal} (hanswered : Event.Answered theme events)
    (h : (level.replay theme events).find? path = some (.literal value)) :
    (∃ e ∈ events, ∃ target leaf, e.2 = .write target leaf ∧ path = target ++ [e.1] ∧
      leaf.answer theme = .ok value) ∨ level.find? path = some (.literal value) := by
  induction events generalizing level with
  | nil => exact .inr h
  | cons e events ih =>
      rw [Event.Answered, List.forall_mem_cons] at hanswered
      rcases ih hanswered.2 h with ⟨later, hlater, hwrite⟩ | hbefore
      · exact .inl ⟨later, List.mem_cons_of_mem _ hlater, hwrite⟩
      · rcases Event.find?_apply_eq_literal hanswered.1 hbefore with hwrite | hbefore
        · exact .inl ⟨e, List.mem_cons_self, hwrite⟩
        · exact .inr hbefore

theorem find?_replay_eq_level (hanswered : Event.Answered theme events)
    (h : (level.replay theme events).find? path = some .level) :
    (∃ e ∈ events, path <+: e.2.path) ∨ level.find? path = some .level := by
  induction events generalizing level with
  | nil => exact .inr h
  | cons e events ih =>
      rw [Event.Answered, List.forall_mem_cons] at hanswered
      rcases ih hanswered.2 h with ⟨later, hlater, hprefix⟩ | hbefore
      · exact .inl ⟨later, List.mem_cons_of_mem _ hlater, hprefix⟩
      · rcases Event.find?_apply_eq_level hanswered.1 hbefore with hprefix | hbefore
        · exact .inl ⟨e, List.mem_cons_self, hprefix⟩
        · exact .inr hbefore

theorem Distinct.updateAt {f : Level → Level} (hf : ∀ level, level.Distinct → (f level).Distinct)
    (h : level.Distinct) (target : List String) : (level.updateAt f target).Distinct := by
  induction target generalizing level with
  | nil => exact hf level h
  | cons selector target ih => exact h.nest selector (ih (h.under selector))

theorem Distinct.apply (h : level.Distinct) (theme : Theme) (property : String) (event : Event) :
    (event.apply theme property level).Distinct := by
  cases event with
  | touch target => exact h.updateAt (fun _ h => h) target
  | write target leaf =>
      rw [Event.apply]
      cases leaf.answer theme with
      | error reason => exact h.updateAt (fun _ h => h) target
      | ok value => exact h.updateAt (fun _ h => h.set property value) target

theorem Distinct.replay (h : level.Distinct) (theme : Theme) (events : List (String × Event)) :
    (level.replay theme events).Distinct := by
  induction events generalizing level with
  | nil => exact h
  | cons e events ih => exact ih (h.apply theme e.1 e.2)

end

end Level

/-! ### Live branches behind it -/

theorem Value.Live.exists_branch {context : Context} {value part : Value} {path : List String}
    {selector : String} (h : value.Live context (path ++ [selector]) part) :
    ∃ entries name inner, value.Live context path (.branches entries) ∧ (name, inner) ∈ entries ∧
      context.target name = .under selector := by
  generalize hwhole : path ++ [selector] = whole at h
  induction h generalizing path with
  | self value => simp at hwhole
  | base hmem htarget _ ih =>
      obtain ⟨entries, name, inner, hlive, hbranch⟩ := ih hwhole
      exact ⟨entries, name, inner, .base hmem htarget hlive, hbranch⟩
  | pinned hmem htarget _ ih =>
      obtain ⟨entries, name, inner, hlive, hbranch⟩ := ih hwhole
      exact ⟨entries, name, inner, .pinned hmem htarget hlive, hbranch⟩
  | under hmem htarget _ ih =>
      cases path with
      | nil =>
          obtain ⟨rfl, rfl⟩ := List.cons.inj hwhole
          exact ⟨_, _, _, .self _, hmem, htarget⟩
      | cons first path =>
          obtain ⟨rfl, hrest⟩ := List.cons.inj hwhole
          obtain ⟨entries, name, inner, hlive, hbranch⟩ := ih hrest
          exact ⟨entries, name, inner, .under hmem htarget hlive, hbranch⟩

section

variable {context : Context} {spec : Spec} {path : List String}

theorem Spec.exists_leaf_of_find? {property : String} {literal : Literal}
    (hanswered : Event.Answered context.theme (spec.events context))
    (h : ((∅ : Level).replay context.theme (spec.events context)).find? (path ++ [property]) =
      some (.literal literal)) :
    ∃ value, spec.get? property = some value ∧ ∃ leaf : Leaf,
      value.Live context path leaf.value ∧ leaf.answer context.theme = .ok literal := by
  rcases Level.find?_replay_eq_literal hanswered h with
    ⟨e, he, target, leaf, hwrite, hpath, hanswer⟩ | hempty
  · obtain ⟨entry, hentry, hproperty, hevent⟩ := Spec.mem_events.1 he
    obtain ⟨rfl, hlast⟩ := List.append_inj' hpath rfl
    obtain rfl : property = e.1 := List.singleton_inj.1 hlast
    rw [hwrite, ← Value.mem_leaves, Value.mem_leaves_iff_live] at hevent
    exact ⟨entry.2, Table.get?_eq_some_iff.2 (hproperty ▸ hentry), leaf, hevent, hanswer⟩
  · rw [Level.find?_empty (List.append_ne_nil_of_right_ne_nil _ (List.cons_ne_nil _ _))] at hempty
    cases hempty

theorem Spec.exists_branch_of_find? {selector : String}
    (hanswered : Event.Answered context.theme (spec.events context))
    (h : ((∅ : Level).replay context.theme (spec.events context)).find? (path ++ [selector]) =
      some .level) :
    ∃ property value, spec.get? property = some value ∧ ∃ branches name part,
      value.Live context path (.branches branches) ∧ (name, part) ∈ branches ∧
      context.target name = .under selector := by
  rcases Level.find?_replay_eq_level hanswered h with ⟨e, he, hprefix⟩ | hempty
  · obtain ⟨entry, hentry, _, hevent⟩ := Spec.mem_events.1 he
    obtain ⟨part, hlive⟩ := Value.live_of_prefix hevent hprefix
    exact ⟨entry.1, entry.2, Table.get?_eq_some_iff.2 hentry, hlive.exists_branch⟩
  · rw [Level.find?_empty (List.append_ne_nil_of_right_ne_nil _ (List.cons_ne_nil _ _))] at hempty
    cases hempty

end

/-- Nothing in a style is invented. At any depth, no key occurs twice in a level; each literal
stands under a property of the expanded specification and is that of a live leaf of its value whose
path is that of the level; and each level stands under a selector that the name of a live branch at
this path resolves to, which is never the element itself. -/
theorem Request.compile_invents_nothing (request : Request) (fallback : Resolvers) (style : Level)
    (hstyle : request.compile fallback = .ok style) :
    ∃ spec, request.expandedSpec = .ok spec ∧ ∀ path level, style.Inside path level →
      level.keys.Nodup ∧
      (∀ property literal, (property, .literal literal) ∈ level.entries →
        ∃ value, spec.get? property = some value ∧ ∃ leaf : Leaf,
          value.Live (request.context fallback) path leaf.value ∧
          leaf.answer request.combinedTheme = .ok literal) ∧
      ∀ selector entries, (selector, .nested entries) ∈ level.entries →
        selector ≠ selfSelector ∧
        ∃ property value, spec.get? property = some value ∧ ∃ branches name part,
          value.Live (request.context fallback) path (.branches branches) ∧
          (name, part) ∈ branches ∧ name ≠ Branches.baseName ∧
          (request.context fallback).resolve name = some selector := by
  obtain ⟨spec, hspec⟩ := Request.exists_expandedSpec hstyle
  obtain ⟨hanswered, rfl⟩ := Request.compile_eq_ok hspec hstyle
  have hdistinct := Level.distinct_empty.replay request.combinedTheme
    (spec.events (request.context fallback))
  refine ⟨spec, hspec, fun path level hinside => ⟨(hdistinct.inside hinside).keys, ?_, ?_⟩⟩
  · intro property literal hmem
    have hfound := hdistinct.find?_of_mem hinside hmem
    exact Spec.exists_leaf_of_find? hanswered hfound
  · intro selector entries hmem
    have hfound := hdistinct.find?_of_mem hinside hmem
    obtain ⟨property, value, hvalue, branches, name, part, hlive, hbranch, htarget⟩ :=
      Spec.exists_branch_of_find? hanswered hfound
    obtain ⟨hname, hresolve, hself⟩ := Context.target_eq_under_iff.1 htarget
    exact ⟨hself, property, value, hvalue, branches, name, part, hlive, hbranch, hname, hresolve⟩

/-- A property with the name of a selector. Its literal takes the place of the level that the colour
of the hovered element is in, and the width brings a new level to this place. -/
def Request.toggle : Request where
  layers := .one (.ofPairs [
    ("color", .branches [("hover", .literal (.text "red")), ("focus", .literal (.text "blue"))]),
    ("&:hover", .literal (.text "on")),
    ("width", .branches [("hover", .themed fun _ => .ok (.text "wide"))])])

def Level.toggled : Level := ⟨[
  ("&:hover", .nested [("width", .literal (.text "wide"))]),
  ("&:focus", .nested [("color", .literal (.text "blue"))])]⟩

theorem Request.toggle_invents_nothing :
    toggle.compile Resolvers.builtin = .ok Level.toggled ∧
    ∃ spec, toggle.expandedSpec = .ok spec ∧ Level.toggled.keys.Nodup ∧
      Level.toggled.Inside ["&:hover"] ⟨[("width", .literal (.text "wide"))]⟩ ∧
      (∃ value, spec.get? "width" = some value ∧ ∃ leaf : Leaf,
        value.Live (toggle.context Resolvers.builtin) ["&:hover"] leaf.value ∧
        leaf.answer toggle.combinedTheme = .ok (.text "wide")) ∧
      ∃ property value, spec.get? property = some value ∧ ∃ branches name part,
        value.Live (toggle.context Resolvers.builtin) [] (.branches branches) ∧
        (name, part) ∈ branches ∧ name ≠ Branches.baseName ∧
        (toggle.context Resolvers.builtin).resolve name = some "&:hover" := by
  have hstyle : toggle.compile Resolvers.builtin = .ok Level.toggled := rfl
  have hinside : Level.toggled.Inside ["&:hover"] ⟨[("width", .literal (.text "wide"))]⟩ :=
    .nested List.mem_cons_self (.self _)
  obtain ⟨spec, hspec, horigin⟩ :=
    Request.compile_invents_nothing toggle Resolvers.builtin Level.toggled hstyle
  obtain ⟨hkeys, _, hlevels⟩ := horigin [] _ (.self _)
  obtain ⟨_, hliterals, _⟩ := horigin _ _ hinside
  exact ⟨hstyle, spec, hspec, hkeys, hinside, hliterals "width" _ List.mem_cons_self,
    (hlevels "&:hover" _ List.mem_cons_self).2⟩

end StyleTree
