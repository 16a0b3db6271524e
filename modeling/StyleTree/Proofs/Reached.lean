import Mathlib.Data.List.Basic
import StyleTree.Proofs.Delegation

/-!
What compiling reads of the resolvers and of the boundary. Both are asked for the selectors of names
and for nothing else, and only for those names that the evaluation comes to: never for `default`,
and never for what stands under a name that resolves to nothing. Where two pairs of resolvers and a
boundary give these names the same selectors, they give the same style or the same error.
-/

namespace StyleTree

/-! ### The names that the evaluation comes to -/

/-- The names that are looked up for a branch, from those that are looked up in its value. -/
def Target.reached (target : Target) (name : String) (below : List String) : List String :=
  match target with
  | base => below
  | dropped => [name]
  | _ => name :: below

theorem Target.mem_reached {target : Target} {name other : String} {below : List String} :
    other ∈ target.reached name below ↔
      target ≠ .base ∧ other = name ∨ target ≠ .dropped ∧ other ∈ below := by
  cases target <;> simp [reached]

mutual

/-- The names that are looked up when the value is compiled, in order of declaration. -/
def Value.reached (context : Context) : Value → List String
  | .branches entries => Branches.reached context entries
  | _ => []

def Branches.reached (context : Context) : List (String × Value) → List String
  | [] => []
  | (name, value) :: rest =>
      (context.target name).reached name (Value.reached context value) ++
        Branches.reached context rest

end

theorem Branches.reached_eq_flatMap (context : Context) (entries : List (String × Value)) :
    Branches.reached context entries =
      entries.flatMap fun e => (context.target e.1).reached e.1 (e.2.reached context) := by
  induction entries with
  | nil => rfl
  | cons e entries ih => rw [Branches.reached, ih, List.flatMap_cons]

theorem Value.forall_mem_reached_branches {context : Context} {entries : List (String × Value)}
    {p : String → Prop} :
    (∀ name ∈ (Value.branches entries).reached context, p name) ↔
      ∀ entry ∈ entries,
        ∀ name ∈ (context.target entry.1).reached entry.1 (entry.2.reached context), p name := by
  rw [Value.reached, Branches.reached_eq_flatMap, List.forall_mem_flatMap]

def Spec.reached (context : Context) (spec : Spec) : List String :=
  spec.pairs.flatMap fun entry => entry.2.reached context

/-! ### Contexts that agree on these names -/

section

variable {target : Target} {events others : List Event}

theorem Target.firstEvents_congr (h : target ≠ .dropped → events = others) :
    target.firstEvents events = target.firstEvents others := by
  cases target with
  | dropped => rfl
  | _ => rw [h Target.noConfusion]

theorem Target.pinnedEvents_congr (h : target ≠ .dropped → events = others) :
    target.pinnedEvents events = target.pinnedEvents others := by
  cases target with
  | dropped => rfl
  | _ => rw [h Target.noConfusion]

end

section

variable {context other : Context}

theorem Context.target_eq_base_iff {name : String} :
    context.target name = .base ↔ name = Branches.baseName := by
  constructor
  · intro h
    rw [Context.target] at h
    split at h
    · assumption
    · cases hresolve : context.resolve name with
      | none => simp [hresolve] at h
      | some selector =>
          simp only [hresolve] at h
          split at h <;> cases h
  · rintro rfl
    exact Context.target_baseName context

/-- A branch goes to the same place if its name is not looked up or has the same selector. -/
theorem Context.target_eq_of_reached {name : String} {below : List String}
    (h : ∀ reached ∈ (context.target name).reached name below,
      other.resolve reached = context.resolve reached) :
    other.target name = context.target name := by
  by_cases hname : name = Branches.baseName
  · rw [hname, Context.target_baseName, Context.target_baseName]
  · have hlooked : name ∈ (context.target name).reached name below :=
      Target.mem_reached.2 (.inl ⟨fun h => hname (Context.target_eq_base_iff.1 h), rfl⟩)
    rw [Context.target, Context.target, h name hlooked]

/-- Contexts that agree on the names that are looked up evaluate a value in the same way. -/
theorem Value.events_eq_of_reached {value : Value}
    (h : ∀ name ∈ value.reached context, other.resolve name = context.resolve name) :
    value.events other = value.events context := by
  induction value with
  | literal value => rfl
  | themed compute => rfl
  | empty => rfl
  | branches entries ih =>
      rw [Value.forall_mem_reached_branches] at h
      have hbelow (entry : String × Value) (hentry : entry ∈ entries)
          (hlive : context.target entry.1 ≠ .dropped) :
          entry.2.events other = entry.2.events context :=
        ih entry hentry fun name hname =>
          h entry hentry name (Target.mem_reached.2 (.inr ⟨hlive, hname⟩))
      rw [Value.events_branches, Value.events_branches]
      congr 1
      · refine List.flatMap_congr fun entry hentry => ?_
        rw [Context.target_eq_of_reached (h entry hentry)]
        exact Target.firstEvents_congr (hbelow entry hentry)
      · refine List.flatMap_congr fun entry hentry => ?_
        rw [Context.target_eq_of_reached (h entry hentry)]
        exact Target.pinnedEvents_congr (hbelow entry hentry)

theorem Spec.compile_eq_of_reached (htheme : other.theme = context.theme) {spec : Spec}
    (h : ∀ name ∈ spec.reached context, other.resolve name = context.resolve name) :
    spec.compile other = spec.compile context := by
  have hevents : spec.events other = spec.events context := by
    refine List.flatMap_congr fun entry hentry => ?_
    rw [Value.events_eq_of_reached fun name hname =>
      h name (List.mem_flatMap.2 ⟨entry, hentry, hname⟩)]
  rw [Spec.compile_eq_events, Spec.compile_eq_events, hevents, htheme]

end

theorem Value.baseName_not_mem_reached (context : Context) (value : Value) :
    Branches.baseName ∉ value.reached context := by
  suffices ∀ name ∈ value.reached context, name ≠ Branches.baseName from fun h => this _ h rfl
  induction value with
  | literal value => exact fun _ h => absurd h List.not_mem_nil
  | themed compute => exact fun _ h => absurd h List.not_mem_nil
  | empty => exact fun _ h => absurd h List.not_mem_nil
  | branches entries ih =>
      rw [Value.forall_mem_reached_branches]
      intro entry hentry name hname
      rcases Target.mem_reached.1 hname with ⟨hbase, rfl⟩ | ⟨_, hbelow⟩
      · exact fun h => hbase (Context.target_eq_base_iff.2 h)
      · exact ih entry hentry name hbelow

theorem Spec.baseName_not_mem_reached (context : Context) (spec : Spec) :
    Branches.baseName ∉ spec.reached context := by
  intro h
  obtain ⟨entry, _, hmem⟩ := List.mem_flatMap.1 h
  exact Value.baseName_not_mem_reached context entry.2 hmem

/-! ### Changing the resolvers -/

inductive Resolvers.Step
  | register (name : String) (resolver : Resolver)
  | addAlias (name target : String)

namespace Resolvers

def Step.name : Step → String
  | register name _ => name
  | addAlias name _ => name

def Step.apply (resolvers : Resolvers) : Step → Resolvers
  | register name resolver => resolvers.insert name resolver
  | addAlias name target => resolvers.addAlias name target

/-- The resolvers after changes made one after the other. -/
def after (resolvers : Resolvers) (steps : List Step) : Resolvers :=
  steps.foldl Step.apply resolvers

section

variable {resolvers : Resolvers} {name : String}

theorem Step.get?_apply_of_ne {step : Step} (h : step.name ≠ name) :
    (step.apply resolvers).get? name = resolvers.get? name := by
  cases step with
  | register other resolver => exact (Table.get?_insert ..).trans (if_neg h.symm)
  | addAlias other target =>
      rw [apply, Resolvers.addAlias]
      cases resolvers.get? target with
      | none => rfl
      | some resolver => exact (Table.get?_insert ..).trans (if_neg h.symm)

theorem get?_after {steps : List Step} (h : ∀ step ∈ steps, step.name ≠ name) :
    (resolvers.after steps).get? name = resolvers.get? name := by
  induction steps generalizing resolvers with
  | nil => rfl
  | cons step steps ih =>
      rw [List.forall_mem_cons] at h
      exact (ih h.2).trans (Step.get?_apply_of_ne h.1)

theorem resolve_after {steps : List Step} (h : ∀ step ∈ steps, step.name ≠ name) (theme : Theme)
    (boundary : Option Boundary) :
    (resolvers.after steps).resolve name theme boundary =
      resolvers.resolve name theme boundary := by
  rw [resolve, resolve, get?_after h]

end

/-- The resolvers of the states ask a boundary for its pins, and for what lies inside it only in the
states that it leaves open. -/
theorem resolve_builtin_of_agree {boundary other : Boundary}
    (hpinned : ∀ state, other.pinned state = boundary.pinned state)
    (hinside : ∀ state, boundary.pinned state = none →
      other.inside state.pseudoClass = boundary.inside state.pseudoClass)
    (name : String) (theme : Theme) :
    builtin.resolve name theme (some other) = builtin.resolve name theme (some boundary) := by
  rcases get?_builtin_cases name with hnone | ⟨state, hstate⟩
  · rw [resolve_of_get?_none hnone, resolve_of_get?_none hnone]
  · rw [resolve_of_get? hstate, resolve_of_get? hstate]
    simp only [PseudoState.resolver, hpinned]
    cases hpin : boundary.pinned state with
    | none => simp only [hinside state hpin]
    | some value => cases value <;> rfl

end Resolvers

theorem Request.compile_eq_of_reached {request other : Request} {fallback otherFallback : Resolvers}
    (hspec : other.expandedSpec = request.expandedSpec)
    (htheme : other.combinedTheme = request.combinedTheme)
    (h : ∀ spec, request.expandedSpec = .ok spec →
      ∀ name ∈ spec.reached (request.context fallback),
        (other.context otherFallback).resolve name = (request.context fallback).resolve name) :
    other.compile otherFallback = request.compile fallback := by
  rw [Request.compile, Request.compile, hspec]
  cases hexpanded : request.expandedSpec with
  | error error => rfl
  | ok spec => exact Spec.compile_eq_of_reached htheme (h spec hexpanded)

/-- Compiling looks at the resolvers and the boundary through the selectors of the names that it
comes to: two pairs that give these the same selectors are not told apart. So whatever is done to
the resolvers of other names changes nothing, also where it gives `default` a resolver, and the
resolvers of the states do not tell boundaries apart that pin the same states to the same values and
have the same inside in the other states. -/
theorem Request.compile_reads_reached (request : Request) (fallback : Resolvers) :
    (∀ resolvers boundary otherFallback,
      (∀ spec, request.expandedSpec = .ok spec →
        ∀ name ∈ spec.reached (request.context fallback),
          ({ request with resolvers, boundary }.context otherFallback).resolve name =
            (request.context fallback).resolve name) →
      { request with resolvers, boundary }.compile otherFallback = request.compile fallback) ∧
    (∀ steps : List Resolvers.Step,
      (∀ step ∈ steps, step.name = Branches.baseName ∨
        ∀ spec, request.expandedSpec = .ok spec →
          step.name ∉ spec.reached (request.context fallback)) →
      { request with
          resolvers := some ((request.resolvers.getD fallback).after steps) }.compile fallback =
        request.compile fallback) ∧
    ∀ boundary other : Boundary, request.resolvers.getD fallback = Resolvers.builtin →
      (∀ state, other.pinned state = boundary.pinned state) →
      (∀ state, boundary.pinned state = none →
        other.inside state.pseudoClass = boundary.inside state.pseudoClass) →
      { request with boundary := some other }.compile fallback =
        { request with boundary := some boundary }.compile fallback := by
  -- Merging, expanding and the theme depend neither on the resolvers nor on the boundary.
  refine ⟨fun _ _ _ h => compile_eq_of_reached rfl rfl h, ?_, ?_⟩
  · intro steps hsteps
    refine compile_eq_of_reached rfl rfl fun spec hspec name hname => ?_
    have hother : ∀ step ∈ steps, step.name ≠ name := by
      rintro step hstep rfl
      rcases hsteps step hstep with hbase | hunread
      · exact Spec.baseName_not_mem_reached _ spec (hbase ▸ hname)
      · exact hunread spec hspec hname
    exact Resolvers.resolve_after hother request.combinedTheme request.boundary
  · intro boundary other hbuiltin hpinned hinside
    refine compile_eq_of_reached rfl rfl fun spec _ name _ => ?_
    show (request.resolvers.getD fallback).resolve name _ _ =
      (request.resolvers.getD fallback).resolve name _ _
    rw [hbuiltin]
    exact Resolvers.resolve_builtin_of_agree hpinned hinside name request.combinedTheme

def Boundary.idleCard : Boundary := ((ClassBoundary.ofClass "card").pin .active false).toBoundary

/-- The inside of the same card, except that it has another selector while the card is active. -/
def Boundary.otherIdleCard : Boundary where
  pinned := idleCard.pinned
  inside suffix := if suffix = PseudoState.active.pseudoClass then "&" else idleCard.inside suffix

/-- A banner on a card that is not active: `focus` stands under a name that resolves to nothing. -/
def Request.banner : Request where
  layers := .one (.ofPairs [("color", .branches [
    ("hover", .branches [("@media print", .literal (.text "blue"))]),
    ("active", .branches [("focus", .literal (.text "red"))]),
    ("default", .literal (.text "black"))])])
  boundary := some .idleCard

theorem Request.banner_reached : ∀ spec, banner.expandedSpec = .ok spec →
    spec.reached (banner.context Resolvers.builtin) = ["hover", "@media print", "active"] := by
  intro spec hspec
  obtain rfl := Except.ok.inj hspec
  rfl

def Resolvers.ofBanner : Resolvers :=
  .ofPairs [("hover", fun _ _ => some ".card:hover &"), ("active", fun _ _ => none),
    (Branches.baseName, fun _ _ => none)]

theorem Request.banner_reads_reached :
    { banner with resolvers := some Resolvers.ofBanner, boundary := none }.compile ∅ =
      banner.compile Resolvers.builtin ∧
    { banner with
        resolvers := some (Resolvers.builtin.after [
          .register Branches.baseName fun _ _ => none, .addAlias "focus" "hover"]) }.compile
            Resolvers.builtin =
      banner.compile Resolvers.builtin ∧
    { banner with boundary := some .otherIdleCard }.compile Resolvers.builtin =
      { banner with boundary := some .idleCard }.compile Resolvers.builtin ∧
    banner.compile Resolvers.builtin = .ok ⟨[
      (".card:hover &", .nested [("@media print", .nested [("color", .literal (.text "blue"))])]),
      ("color", .literal (.text "black"))]⟩ := by
  obtain ⟨hpair, hsteps, hboundary⟩ := Request.compile_reads_reached banner Resolvers.builtin
  refine ⟨hpair _ _ ∅ ?_, hsteps _ ?_, hboundary .idleCard .otherIdleCard rfl ?_ ?_, rfl⟩
  · intro spec hspec
    rw [banner_reached spec hspec]
    simp only [List.forall_mem_cons]
    exact ⟨rfl, rfl, rfl, fun _ h => absurd h List.not_mem_nil⟩
  · simp only [List.forall_mem_cons]
    refine ⟨.inl rfl, .inr fun spec hspec => ?_, fun _ h => absurd h List.not_mem_nil⟩
    rw [banner_reached spec hspec]
    decide
  · exact fun _ => rfl
  · intro state hopen
    cases state with
    | active => cases hopen
    | _ => rfl

end StyleTree
