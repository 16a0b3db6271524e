import StyleTree.Proofs.Events

/-!
Compiling does what replaying the events of a specification does. The step is that working under a
selector on one thing after the other is working there once on both: it lets a branch, which the
compiler writes in one go, be taken apart into its events, each with the whole path in front.
-/

namespace StyleTree

namespace Writing

theorem ext {v w : Writing Unit} (h : ∀ level, v.runOn level = w.runOn level) : v = w :=
  funext h

def atPath (path : List String) (w : Writing Unit) : Writing Unit := path.foldr within w

theorem within_bind (selector : String) (v w : Writing Unit) :
    within selector (do v; w) = (do within selector v; within selector w) := by
  apply ext
  intro level
  rw [runOn_within, runOn_bind, runOn_within]
  simp only [Level.modifyUnder, runOn_bind]
  -- After a failure the level is put back as it is, on either side.
  rcases v.runOn (level.under selector) with ⟨_ | _, inner⟩
  · rfl
  · simp [Level.modifyUnder]

theorem runOn_atPath {w : Writing Unit} {answer : Except StyleError Unit} {f : Level → Level}
    (h : ∀ level, w.runOn level = (answer, f level)) (path : List String) (level : Level) :
    (atPath path w).runOn level = (answer, level.updateAt f path) := by
  induction path generalizing level with
  | nil => exact h level
  | cons selector path ih =>
      show (within selector (atPath path w)).runOn level = _
      rw [runOn_within, Level.modifyUnder, ih]
      rfl

end Writing

namespace Event

/-- What the compiler does at an event, from the outermost level. -/
def perform (theme : Theme) (property : String) : Event → Writing Unit
  | touch path => Writing.atPath path (pure ())
  | write path leaf => Writing.atPath path (Writing.setThemed property (leaf.answer theme))

theorem perform_within (theme : Theme) (property selector : String) (event : Event) :
    (event.within selector).perform theme property =
      Writing.within selector (event.perform theme property) := by
  cases event <;> rfl

/-- The run of one event: its error, if it ends in one, and the level it leaves. -/
theorem runOn_perform (theme : Theme) (property : String) (event : Event) (level : Level) :
    (event.perform theme property).runOn level =
      ((event.failure? theme property).elim (.ok ()) .error, event.apply theme property level) := by
  cases event with
  | touch path => exact Writing.runOn_atPath (fun _ => rfl) path level
  | write path leaf =>
      cases h : leaf.answer theme with
      | ok value =>
          simp only [perform, failure?, StyleError.ofAnswer?, apply, h]
          exact Writing.runOn_atPath (fun _ => rfl) path level
      | error reason =>
          simp only [perform, failure?, StyleError.ofAnswer?, apply, h]
          exact Writing.runOn_atPath (fun _ => rfl) path level

end Event

/-! ### From values to events -/

/-- Touching the level of a selector first makes no difference to what is written there. -/
theorem Writing.within_forM (theme : Theme) (property selector : String) (events : List Event) :
    Writing.within selector (forM events (Event.perform theme property)) =
      forM (.touch [selector] :: events.map (.within selector)) (Event.perform theme property) := by
  rw [List.forM_cons, List.forM_map]
  show _ = (do within selector (pure ()); _)
  induction events with
  | nil =>
      rw [List.forM_nil, List.forM_nil]
      exact (bind_pure _).symm
  | cons event events ih =>
      -- The touch can be taken in before the first event, and put out again behind it.
      have hfirst : (do within selector (pure ()); within selector (event.perform theme property)) =
          within selector (event.perform theme property) := by
        rw [← within_bind, pure_bind]
      have hlast : (do within selector (event.perform theme property); within selector (pure ())) =
          within selector (event.perform theme property) := by
        rw [← within_bind]
        exact congrArg _ (bind_pure _)
      simp only [List.forM_cons, Event.perform_within] at ih ⊢
      rw [within_bind, ih, ← bind_assoc, ← bind_assoc, hfirst, hlast]

theorem Target.firstRound_forM (theme : Theme) (property : String) (target : Target)
    (events : List Event) :
    target.firstRound (forM events (Event.perform theme property)) =
      forM (target.firstEvents events) (Event.perform theme property) := by
  cases target with
  | base => rfl
  | pinned => rfl
  | under selector => exact Writing.within_forM theme property selector events
  | dropped => rfl

theorem Target.secondRound_forM (theme : Theme) (property : String) (target : Target)
    (events : List Event) :
    target.secondRound (forM events (Event.perform theme property)) =
      forM (target.pinnedEvents events) (Event.perform theme property) := by
  cases target <;> rfl

/-- Writing a value is performing its events one after the other. -/
theorem Value.write_eq_forM (context : Context) (property : String) (value : Value) :
    value.write context property =
      forM (value.events context) (Event.perform context.theme property) := by
  induction value with
  | literal l => exact (bind_pure _).symm
  | themed compute => exact (bind_pure _).symm
  | empty => rfl
  | branches entries ih =>
      -- The two rounds are two recursions over the same entries, each with its own induction.
      have hfirst : Branches.writeFirst context property entries =
          forM (Branches.firstEvents context entries) (Event.perform context.theme property) := by
        induction entries with
        | nil => rfl
        | cons entry entries ihe =>
            rw [List.forall_mem_cons] at ih
            rw [Branches.writeFirst, Branches.firstEvents, ih.1, ihe ih.2,
              Target.firstRound_forM, List.forM_append]
      have hpinned : Branches.writePinned context property entries =
          forM (Branches.pinnedEvents context entries) (Event.perform context.theme property) := by
        clear hfirst
        induction entries with
        | nil => rfl
        | cons entry entries ihe =>
            rw [List.forall_mem_cons] at ih
            rw [Branches.writePinned, Branches.pinnedEvents, ih.1, ihe ih.2,
              Target.secondRound_forM, List.forM_append]
      rw [Value.write, Value.events, List.forM_append, hfirst, hpinned]

theorem Spec.write_eq_forM (context : Context) (spec : Spec) :
    spec.write context =
      forM (spec.events context) fun e => e.2.perform context.theme e.1 := by
  obtain ⟨pairs, nodup⟩ := spec
  simp only [Spec.write, Spec.events]
  clear nodup
  induction pairs with
  | nil => rfl
  | cons entry pairs ih =>
      show (do entry.2.write context entry.1; List.forM pairs _) = _
      rw [ih, Value.write_eq_forM, List.flatMap_cons, List.forM_append, List.forM_map]

/-! ### Running the events -/

section

variable (theme : Theme)

theorem Level.replay_cons (e : String × Event) (events : List (String × Event)) (level : Level) :
    level.replay theme (e :: events) = (e.2.apply theme e.1 level).replay theme events := rfl

theorem Writing.runOn_forM {events : List (String × Event)}
    (h : ∀ e ∈ events, e.2.failure? theme e.1 = none) (level : Level) :
    (forM events fun e => e.2.perform theme e.1 : Writing Unit).runOn level =
      (.ok (), level.replay theme events) := by
  induction events generalizing level with
  | nil => rfl
  | cons e events ih =>
      rw [List.forall_mem_cons] at h
      rw [List.forM_cons, Writing.runOn_bind, Event.runOn_perform, h.1, Level.replay_cons]
      exact ih h.2 _

theorem Writing.runOn_forM_error {events : List (String × Event)} {error : StyleError}
    (h : events.findSome? (fun e => e.2.failure? theme e.1) = some error) (level : Level) :
    ∃ left, (forM events fun e => e.2.perform theme e.1 : Writing Unit).runOn level =
      (.error error, left) := by
  induction events generalizing level with
  | nil => cases h
  | cons e events ih =>
      rw [List.forM_cons, Writing.runOn_bind, Event.runOn_perform]
      rw [List.findSome?_cons] at h
      cases hfail : e.2.failure? theme e.1 with
      | some _ =>
          rw [hfail] at h
          obtain rfl := Option.some.inj h
          exact ⟨_, rfl⟩
      | none =>
          rw [hfail] at h
          exact ih h _

end

/-- The first event with an error ends a compilation. Without one, the style is what the events make
of the empty level. -/
theorem Spec.compile_eq_events (context : Context) (spec : Spec) :
    spec.compile context =
      match (spec.events context).findSome? fun e => e.2.failure? context.theme e.1 with
      | none => .ok ((∅ : Level).replay context.theme (spec.events context))
      | some error => .error error := by
  rw [Spec.compile, Spec.write_eq_forM]
  cases h : (spec.events context).findSome? fun e => e.2.failure? context.theme e.1 with
  | none =>
      rw [List.findSome?_eq_none_iff] at h
      rw [Writing.runOn_forM context.theme h]
  | some error =>
      obtain ⟨left, hrun⟩ := Writing.runOn_forM_error context.theme h ∅
      rw [hrun]

theorem Request.compile_of_expandedSpec {request : Request} {spec : Spec}
    (hspec : request.expandedSpec = .ok spec) (fallback : Resolvers) :
    request.compile fallback = spec.compile (request.context fallback) := by
  rw [Request.compile, hspec]
  rfl

/-- If every function of the theme that is called has an answer, then the style is what the events
of the expanded specification, one at a time, make of the empty level. -/
theorem Request.compile_replays_events (request : Request) (fallback : Resolvers) (spec : Spec)
    (hspec : request.expandedSpec = .ok spec)
    (hanswers : ∀ c ∈ spec.computations (request.context fallback),
      ∃ value, c.2 request.combinedTheme = .ok value) :
    request.compile fallback =
      .ok ((∅ : Level).replay request.combinedTheme (spec.events (request.context fallback))) := by
  have hnone : (spec.events (request.context fallback)).findSome?
      (fun e => e.2.failure? (request.context fallback).theme e.1) = none := by
    rw [Spec.findSome?_failure?, List.findSome?_eq_none_iff]
    intro c hc
    exact StyleError.ofAnswer?_eq_none_iff.2 (hanswers c hc)
  rw [Request.compile_of_expandedSpec hspec, Spec.compile_eq_events, hnone]
  rfl

/-- A link on a card that is checked and not active. Its colour on a checked card is also that of
the hovered card, where another branch and another property write too. -/
def Request.link : Request where
  layers := .one (.ofPairs [
    ("color", .branches [
      ("hover", .branches [
        ("focus", .themed fun theme => .ok (.text ((theme.string? "accent").getD "blue"))),
        ("default", .literal (.text "blue"))]),
      ("checked", .branches [
        ("hover", .literal (.text "navy")),
        ("default", .literal (.text "black"))]),
      ("active", .themed fun _ => .error "no colour"),
      ("default", .literal (.text "grey"))]),
    ("border", .branches [("hover", .literal (.text "thin"))])])
  theme := some (.ofPairs [("accent", .string "red")])
  boundary := some (((ClassBoundary.ofClass "card").pin .checked true).pin .active false).toBoundary

theorem Request.link_answers :
    ∀ c ∈ link.layers.merged.computations (link.context Resolvers.builtin),
      ∃ value, c.2 link.combinedTheme = .ok value := by
  have hcalls : link.layers.merged.computations (link.context Resolvers.builtin) =
      [("color", fun theme => .ok (.text ((theme.string? "accent").getD "blue")))] := rfl
  rw [hcalls]
  intro c hc
  obtain rfl := List.mem_singleton.1 hc
  exact ⟨_, rfl⟩

theorem Request.link_replays_events :
    link.expandedSpec = .ok link.layers.merged ∧
    (link.layers.merged.computations (link.context Resolvers.builtin)).map Prod.fst = ["color"] ∧
    (∀ c ∈ link.layers.merged.computations (link.context Resolvers.builtin),
      ∃ value, c.2 link.combinedTheme = .ok value) ∧
    link.compile Resolvers.builtin =
      .ok ((∅ : Level).replay link.combinedTheme
        (link.layers.merged.events (link.context Resolvers.builtin))) :=
  ⟨rfl, rfl, link_answers, Request.compile_replays_events link Resolvers.builtin _ rfl link_answers⟩

example : Request.link.compile Resolvers.builtin = .ok ⟨[
    (".card:hover &", .nested [
      (".card:focus &", .nested [("color", .literal (.text "red"))]),
      ("color", .literal (.text "navy")),
      ("border", .literal (.text "thin"))]),
    ("color", .literal (.text "black"))]⟩ := rfl

end StyleTree
