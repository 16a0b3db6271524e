import StyleTree.Proofs.Answers

/-!
Pinned branches win wherever they stand. Evaluation takes them out of a choice in order and leaves
the others in order, so it makes no difference how the two are mixed. What a pinned branch writes on
its own level comes after all that the others write there, and of several pinned branches the last
one counts.
-/

namespace StyleTree

/-- A branch that is evaluated after the others. -/
def Context.pins (context : Context) (entry : String × Value) : Bool :=
  context.target entry.1 = .pinned

mutual

/-- The values differ at most in how the pinned branches of a choice are mixed with the others, at
any depth. The order among the pinned branches and the order among the others are the same. -/
inductive Value.Remixed (context : Context) : Value → Value → Prop
  | refl (value : Value) : Value.Remixed context value value
  | branches {entries others : List (String × Value)}
      (hpinned : Branches.Matched context (entries.filter context.pins)
        (others.filter context.pins))
      (hrest : Branches.Matched context (entries.filter fun entry => !context.pins entry)
        (others.filter fun entry => !context.pins entry)) :
      Value.Remixed context (.branches entries) (.branches others)

inductive Branches.Matched (context : Context) :
    List (String × Value) → List (String × Value) → Prop
  | nil : Branches.Matched context [] []
  | cons {name : String} {value other : Value} {entries others : List (String × Value)}
      (hvalue : Value.Remixed context value other)
      (hrest : Branches.Matched context entries others) :
      Branches.Matched context ((name, value) :: entries) ((name, other) :: others)

end

def Value.lastLeaf? (context : Context) (value : Value) (path : List String) : Option Leaf :=
  (((value.leaves context).filter fun leaf => leaf.1 == path).getLast?).map Prod.snd

/-! ### Mixing does not show in the events -/

section

variable {context : Context}

theorem Branches.flatMap_filter {α : Type} {keep : String × Value → Bool}
    {f : String × Value → List α} (h : ∀ entry, keep entry = false → f entry = [])
    (entries : List (String × Value)) : (entries.filter keep).flatMap f = entries.flatMap f := by
  induction entries with
  | nil => rfl
  | cons entry entries ih =>
      rw [List.filter_cons, List.flatMap_cons]
      cases hkeep : keep entry with
      | true => rw [if_pos rfl, List.flatMap_cons, ih]
      | false => rw [if_neg Bool.false_ne_true, ih, h entry hkeep, List.nil_append]

mutual

theorem Value.Remixed.events_eq {value other : Value} (h : value.Remixed context other) :
    value.events context = other.events context := by
  match h with
  | .refl _ => rfl
  | @Value.Remixed.branches _ entries others hpinned hrest =>
      -- Each round sees only one of the two groups.
      have hfirst (entry : String × Value) (h : (!context.pins entry) = false) :
          (context.target entry.1).firstEvents (entry.2.events context) = [] := by
        rw [of_decide_eq_true ((Bool.not_eq_false' _).mp h)]
        rfl
      have hlast (entry : String × Value) (h : context.pins entry = false) :
          (context.target entry.1).pinnedEvents (entry.2.events context) = [] := by
        have hne := of_decide_eq_false h
        cases htarget : context.target entry.1 with
        | pinned => exact absurd htarget hne
        | _ => rfl
      rw [Value.events_branches, Value.events_branches, ← Branches.flatMap_filter hfirst entries,
        ← Branches.flatMap_filter hfirst others, ← Branches.flatMap_filter hlast entries,
        ← Branches.flatMap_filter hlast others,
        hrest.flatMap_events_eq fun name => (context.target name).firstEvents,
        hpinned.flatMap_events_eq fun name => (context.target name).pinnedEvents]

theorem Branches.Matched.flatMap_events_eq {α : Type} {entries others : List (String × Value)}
    (h : Branches.Matched context entries others) (f : String → List Event → List α) :
    (entries.flatMap fun e => f e.1 (e.2.events context)) =
      others.flatMap fun e => f e.1 (e.2.events context) := by
  match h with
  | .nil => rfl
  | .cons hvalue hrest =>
      rw [List.flatMap_cons, List.flatMap_cons, hvalue.events_eq, hrest.flatMap_events_eq f]

end

theorem Value.Remixed.write_eq {value other : Value} (h : value.Remixed context other)
    (property : String) : value.write context property = other.write context property := by
  rw [Value.write_eq_forM, Value.write_eq_forM, h.events_eq]

theorem Spec.compile_eq_of_matched {spec other : Spec}
    (h : Branches.Matched context spec.pairs other.pairs) :
    spec.compile context = other.compile context := by
  have hevents : spec.events context = other.events context :=
    h.flatMap_events_eq fun property events => events.map (property, ·)
  rw [Spec.compile_eq_events, Spec.compile_eq_events, hevents]

end

/-! ### The leaf that is written last -/

/-- What a writing that comes to an end has done. -/
theorem Writing.runOn_forM_eq_ok {theme : Theme} {events : List (String × Event)}
    {level after : Level}
    (h : (forM events fun e => e.2.perform theme e.1 : Writing Unit).runOn level =
      (.ok (), after)) :
    Event.Answered theme events ∧ after = level.replay theme events := by
  cases hfind : events.findSome? fun e => e.2.failure? theme e.1 with
  | none =>
      have hanswered := List.findSome?_eq_none_iff.1 hfind
      rw [Writing.runOn_forM theme hanswered] at h
      exact ⟨hanswered, (Prod.mk.inj h).2.symm⟩
  | some error =>
      obtain ⟨left, hrun⟩ := Writing.runOn_forM_error theme hfind level
      rw [hrun] at h
      cases (Prod.mk.inj h).1

theorem Value.runOn_write_eq_ok {context : Context} {property : String} {value : Value}
    {level after : Level} (h : (value.write context property).runOn level = (.ok (), after)) :
    Event.Answered context.theme ((value.events context).map (property, ·)) ∧
      after = level.replay context.theme ((value.events context).map (property, ·)) := by
  apply Writing.runOn_forM_eq_ok
  rw [List.forM_map, ← h, Value.write_eq_forM]

/-- Of the events of one property that is no selector on their way, the last leaf written on the
level itself decides. Without one the level keeps the literal that it has. -/
theorem Level.literal?_replay_property {theme : Theme} {property : String} {events : List Event}
    (hanswered : Event.Answered theme (events.map (property, ·)))
    (hapart : ∀ event ∈ events, property ∉ event.path) (level : Level) :
    ((level.replay theme (events.map (property, ·))).literal? property).map Except.ok =
      (((events.filterMap Event.leaf?).getLast?).map (Leaf.answer theme)).or
        ((level.literal? property).map Except.ok) := by
  induction events using List.reverseRecOn with
  | nil => rfl
  | append_singleton events event ih =>
      rw [List.map_append] at hanswered
      have hlast := hanswered _ (List.mem_append_right _ List.mem_cons_self)
      have hevent := hapart event (List.mem_append_right _ List.mem_cons_self)
      have ih := ih hanswered.of_append fun e he => hapart e (List.mem_append_left _ he)
      rw [List.map_append, List.map_singleton, replay_append, replay_singleton,
        List.filterMap_append, List.getLast?_append]
      cases event using Event.rootCases with
      | touch => exact ih
      | write leaf =>
          obtain ⟨value, hvalue⟩ := Event.answer_of_failure? hlast
          rw [Event.apply_write_nil hvalue, literal?_set, if_pos rfl]
          simp [Event.leaf?, hvalue]
      | within selector inner =>
          rw [Event.path_within, List.mem_cons, not_or] at hevent
          have hnone : [inner.within selector].filterMap Event.leaf? = [] := by
            cases inner <;> rfl
          rw [Event.apply_within, literal?_nest, if_neg hevent.1, hnone]
          exact ih

section

variable {context : Context}

theorem Value.filterMap_leaf?_events (value : Value) :
    (value.events context).filterMap Event.leaf? =
      ((value.leaves context).filter fun leaf => leaf.1 == []).map Prod.snd := by
  rw [Value.leaves_at]
  simp

theorem Value.getLast?_leaf?_events (value : Value) :
    ((value.events context).filterMap Event.leaf?).getLast? = value.lastLeaf? context [] := by
  rw [Value.filterMap_leaf?_events, List.getLast?_map]
  rfl

theorem Value.lastLeaf?_eq_none_iff {value : Value} {path : List String} :
    value.lastLeaf? context path = none ↔ ∀ leaf : Leaf, ¬ value.Live context path leaf.value := by
  rw [Value.lastLeaf?, Option.map_eq_none_iff, List.getLast?_eq_none_iff, List.filter_eq_nil_iff]
  constructor
  · intro h leaf hlive
    exact h _ (Value.mem_leaves_iff_live.2 hlive) (beq_self_eq_true path)
  · rintro h ⟨other, leaf⟩ hmem heq
    obtain rfl : other = path := beq_iff_eq.1 heq
    exact h leaf (Value.mem_leaves_iff_live.1 hmem)

/-- The leaf that a pinned branch writes last on the level of its choice. -/
def Value.pinnedLeaf? (context : Context) (entry : String × Value) : Option Leaf :=
  if context.target entry.1 = .pinned then entry.2.lastLeaf? context [] else none

theorem Value.pinnedLeaf?_eq_some_iff {entry : String × Value} {leaf : Leaf} :
    Value.pinnedLeaf? context entry = some leaf ↔
      context.target entry.1 = .pinned ∧ entry.2.lastLeaf? context [] = some leaf := by
  rw [Value.pinnedLeaf?, Option.ite_none_right_eq_some]

theorem Value.pinnedLeaf?_eq_none_iff {entry : String × Value} :
    Value.pinnedLeaf? context entry = none ↔
      (context.target entry.1 = .pinned →
        ∀ leaf : Leaf, ¬ entry.2.Live context [] leaf.value) := by
  rw [← Value.lastLeaf?_eq_none_iff, Value.pinnedLeaf?]
  split
  · rename_i htarget
    exact ⟨fun hnone _ => hnone, fun hnone => hnone htarget⟩
  · rename_i hne
    exact ⟨fun _ htarget => absurd htarget hne, fun _ => rfl⟩

theorem Value.getLast?_pinnedEvents (entries : List (String × Value)) :
    ((entries.flatMap fun e =>
      (context.target e.1).pinnedEvents (e.2.events context)).filterMap Event.leaf?).getLast? =
      entries.reverse.findSome? (Value.pinnedLeaf? context) := by
  rw [List.filterMap_flatMap, List.getLast?_flatMap]
  congr 1
  funext entry
  rw [Value.pinnedLeaf?, ← Value.getLast?_leaf?_events]
  cases context.target entry.1 <;> rfl

/-- If a pinned branch writes on the level of the choice, then the last leaf written there is the
last one of the last such branch. -/
theorem Value.lastLeaf?_branches {entries : List (String × Value)}
    (h : ∃ entry ∈ entries, context.target entry.1 = .pinned ∧
      ∃ leaf : Leaf, entry.2.Live context [] leaf.value) :
    ∃ before entry after leaf, entries = before ++ entry :: after ∧
      context.target entry.1 = .pinned ∧ entry.2.lastLeaf? context [] = some leaf ∧
      (∀ later ∈ after, context.target later.1 = .pinned →
        ∀ leaf : Leaf, ¬ later.2.Live context [] leaf.value) ∧
      (Value.branches entries).lastLeaf? context [] = some leaf := by
  have hsearch := @Value.getLast?_pinnedEvents context entries
  cases hfound : entries.reverse.findSome? (Value.pinnedLeaf? context) with
  | none =>
      obtain ⟨entry, hmem, htarget, leaf, hlive⟩ := h
      have hnone := List.findSome?_eq_none_iff.1 hfound entry (List.mem_reverse.2 hmem)
      exact absurd hlive (Value.pinnedLeaf?_eq_none_iff.1 hnone htarget leaf)
  | some leaf =>
      rw [hfound] at hsearch
      obtain ⟨after, entry, before, hreverse, hleaf, hafter⟩ :=
        List.findSome?_eq_some_iff.1 hfound
      obtain ⟨htarget, hleaf⟩ := Value.pinnedLeaf?_eq_some_iff.1 hleaf
      have hentries : entries = before.reverse ++ entry :: after.reverse := by
        rw [← List.reverse_reverse entries, hreverse]
        simp
      refine ⟨before.reverse, entry, after.reverse, leaf, hentries, htarget, hleaf, ?_, ?_⟩
      · intro later hlater
        exact Value.pinnedLeaf?_eq_none_iff.1 (hafter later (List.mem_reverse.1 hlater))
      · rw [← Value.getLast?_leaf?_events, Value.events_branches, List.filterMap_append,
          List.getLast?_append, hsearch]
        rfl

end

/-- How the pinned branches are mixed with the others makes no difference to what a value writes or
what a specification compiles to. Where a pinned branch writes on the level of its choice, the
literal there is the one that the last such branch wrote last, whatever stands under `default`. -/
theorem Value.pinned_branches_win (context : Context) (property : String) :
    (∀ value other : Value, value.Remixed context other → ∀ level,
      (value.write context property).runOn level = (other.write context property).runOn level) ∧
    (∀ spec other : Spec, Branches.Matched context spec.pairs other.pairs →
      spec.compile context = other.compile context) ∧
    ∀ entries level after,
      ((Value.branches entries).write context property).runOn level = (.ok (), after) →
      (∀ path part, (Value.branches entries).Live context path part → property ∉ path) →
      (∃ entry ∈ entries, context.target entry.1 = .pinned ∧
        ∃ leaf : Leaf, entry.2.Live context [] leaf.value) →
      ∃ earlier entry later leaf literal, entries = earlier ++ entry :: later ∧
        context.target entry.1 = .pinned ∧ entry.2.lastLeaf? context [] = some leaf ∧
        (∀ other ∈ later, context.target other.1 = .pinned →
          ∀ leaf : Leaf, ¬ other.2.Live context [] leaf.value) ∧
        leaf.answer context.theme = .ok literal ∧ after.literal? property = some literal := by
  refine ⟨?_, ?_, ?_⟩
  · intro value other h level
    rw [h.write_eq]
  · exact fun spec other h => Spec.compile_eq_of_matched h
  · intro entries level after hrun hapart hpinned
    obtain ⟨earlier, entry, later, leaf, hentries, htarget, hleaf, hlater, hlast⟩ :=
      Value.lastLeaf?_branches hpinned
    obtain ⟨hanswered, rfl⟩ := Value.runOn_write_eq_ok hrun
    have hliteral := Level.literal?_replay_property hanswered (fun event hevent => by
      obtain ⟨part, hlive⟩ := Value.live_of_prefix hevent List.prefix_rfl
      exact hapart _ part hlive) level
    rw [Value.getLast?_leaf?_events, hlast, Option.map_some, Option.some_or,
      Option.map_eq_some_iff] at hliteral
    obtain ⟨literal, hliteral, hanswer⟩ := hliteral
    exact ⟨earlier, entry, later, leaf, literal, hentries, htarget, hleaf, hlater, hanswer.symm,
      hliteral⟩

/-- The colour of a badge. On a checked card two of its branches are pinned, one of which writes
only under a selector. -/
def Value.badge : Value := .branches [
  ("checked", .literal (.text "black")),
  ("hover", .branches [
    ("checked", .literal (.text "navy")), ("default", .literal (.text "blue"))]),
  ("&", .branches [("focus", .literal (.text "red"))]),
  ("default", .literal (.text "grey"))]

def Value.badgeRemixed : Value := .branches [
  ("hover", .branches [
    ("default", .literal (.text "blue")), ("checked", .literal (.text "navy"))]),
  ("default", .literal (.text "grey")),
  ("checked", .literal (.text "black")),
  ("&", .branches [("focus", .literal (.text "red"))])]

def Spec.colored (value : Value) : Spec := .ofPairs [("color", value)]

theorem Value.badge_remixed :
    badge.Remixed (Request.link.context Resolvers.builtin) badgeRemixed :=
  .branches (.cons (.refl _) (.cons (.refl _) .nil))
    (.cons (.branches (.cons (.refl _) .nil) (.cons (.refl _) .nil)) (.cons (.refl _) .nil))

theorem Value.badge_apart : ∀ path part,
    badge.Live (Request.link.context Resolvers.builtin) path part → "color" ∉ path := by
  intro path part hlive
  have hapart := @Spec.not_mem_of_live (Request.link.context Resolvers.builtin) (.colored badge)
    (by decide)
  exact hapart "color" List.mem_cons_self ("color", badge) List.mem_cons_self path part hlive

theorem Value.badge_pinned_branches_win :
    badge.Remixed (Request.link.context Resolvers.builtin) badgeRemixed ∧
    (∀ level, (badge.write (Request.link.context Resolvers.builtin) "color").runOn level =
      (badgeRemixed.write (Request.link.context Resolvers.builtin) "color").runOn level) ∧
    (Spec.colored badge).compile (Request.link.context Resolvers.builtin) =
      (Spec.colored badgeRemixed).compile (Request.link.context Resolvers.builtin) ∧
    (∀ path part, badge.Live (Request.link.context Resolvers.builtin) path part →
      "color" ∉ path) ∧
    ∃ after, (badge.write (Request.link.context Resolvers.builtin) "color").runOn ∅ =
        (.ok (), after) ∧
      ∃ (entry : String × Value) (leaf : Leaf),
        (Request.link.context Resolvers.builtin).target entry.1 = .pinned ∧
        entry.2.lastLeaf? (Request.link.context Resolvers.builtin) [] = some leaf ∧
        leaf.answer Request.link.combinedTheme = .ok (.text "black") ∧
        after.literal? "color" = some (.text "black") := by
  obtain ⟨hvalues, hspecs, hwins⟩ :=
    Value.pinned_branches_win (Request.link.context Resolvers.builtin) "color"
  obtain ⟨_, entry, _, leaf, literal, _, htarget, hleaf, _, hanswer, hliteral⟩ :=
    hwins _ ∅ _ rfl badge_apart ⟨_, List.mem_cons_self, rfl, .literal (.text "black"), .self _⟩
  obtain rfl : Literal.text "black" = literal := Option.some.inj hliteral
  exact ⟨badge_remixed, hvalues _ _ badge_remixed, hspecs _ _ (.cons badge_remixed .nil),
    badge_apart, _, rfl, entry, leaf, htarget, hleaf, hanswer, hliteral⟩

end StyleTree
