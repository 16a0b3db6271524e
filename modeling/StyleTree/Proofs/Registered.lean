import StyleTree.Proofs.Edits
import StyleTree.Proofs.Reached

/-!
Resolvers over whole histories of steps. A registration binds its name to its resolver. An alias
binds its name to the resolver that the target has at that very step, and binds nothing if the
target has none. In the end every name has the resolver that it was bound to last, so a later step
at the target never reaches the alias, and a chain of aliases ends at the resolver that it started
from.
-/

namespace StyleTree.Resolvers

/-! ### What a history binds -/

/-- What a step binds, after what was bound before it. -/
def Step.binding? (past : Pairs Resolver) : Step → Option (String × Resolver)
  | register name resolver => some (name, resolver)
  | addAlias name target => (past.valuesOf target).getLast?.map (name, ·)

def Step.record (past : Pairs Resolver) (step : Step) : Pairs Resolver :=
  past ++ (step.binding? past).toList

/-- The names with the resolvers that the steps bind them to, in order. -/
def bindings (steps : List Step) : Pairs Resolver := steps.foldl Step.record []

theorem bindings_append_singleton (steps : List Step) (step : Step) :
    bindings (steps ++ [step]) = step.record (bindings steps) := by
  rw [bindings, List.foldl_append]
  rfl

theorem Step.apply_ofPairs (past : Pairs Resolver) (step : Step) :
    step.apply (Table.ofPairs past) = Table.ofPairs (step.record past) := by
  rw [record, Table.ofPairs_append]
  cases step with
  | register name resolver => rfl
  | addAlias name target =>
      rw [apply, Resolvers.addAlias, Table.get?_ofPairs, binding?]
      cases (past.valuesOf target).getLast? <;> rfl

/-- The resolvers are those that the bindings of the history amount to. -/
theorem after_eq_ofPairs (steps : List Step) :
    (∅ : Resolvers).after steps = Table.ofPairs (bindings steps) := by
  induction steps using List.reverseRecOn with
  | nil => rfl
  | append_singleton steps step ih =>
      rw [bindings_append_singleton, ← Step.apply_ofPairs, ← ih, after, List.foldl_append]
      rfl

theorem after_append (resolvers : Resolvers) (steps later : List Step) :
    resolvers.after (steps ++ later) = (resolvers.after steps).after later :=
  List.foldl_append

theorem get?_after_eq (steps : List Step) (name : String) :
    ((∅ : Resolvers).after steps).get? name = ((bindings steps).valuesOf name).getLast? := by
  rw [after_eq_ofPairs, Table.get?_ofPairs]

theorem get?_after_eq_none_iff {steps : List Step} {name : String} :
    ((∅ : Resolvers).after steps).get? name = none ↔ name ∉ Pairs.keys (bindings steps) := by
  rw [Table.get?_eq_none_iff, after_eq_ofPairs, Table.keys_ofPairs, List.mem_eraseDups]

theorem exists_get?_after {steps : List Step} {name : String}
    (h : name ∈ Pairs.keys (bindings steps)) :
    ∃ resolver, ((∅ : Resolvers).after steps).get? name = some resolver := by
  rw [← Option.ne_none_iff_exists', ne_eq, get?_after_eq_none_iff, Decidable.not_not]
  exact h

/-! ### Aliases -/

section

variable {resolvers : Resolvers} {resolver : Resolver} {name target : String}

/-- An alias keeps the resolver that its target had, whatever is done to other names later on. -/
theorem get?_after_addAlias (h : resolvers.get? target = some resolver) {later : List Step}
    (hlater : ∀ step ∈ later, step.name ≠ name) :
    (resolvers.after (.addAlias name target :: later)).get? name = some resolver := by
  show ((resolvers.addAlias name target).after later).get? name = _
  rw [get?_after hlater, addAlias_of_get? h, Table.get?_insert, if_pos rfl]

/-- Aliases one of the other: each link is an alias of the one before it, and after it come further
steps. -/
def chain : String → List (String × List Step) → List Step
  | _, [] => []
  | target, (name, between) :: links => .addAlias name target :: (between ++ chain name links)

/-- The last alias of a chain has the resolver that the first target had, as long as no alias is
bound anew before the next one is made of it. -/
theorem get?_after_chain (h : resolvers.get? target = some resolver)
    {links : List (String × List Step)}
    (hlinks : ∀ link ∈ links, ∀ step ∈ link.2, step.name ≠ link.1) :
    (resolvers.after (chain target links)).get? ((links.map Prod.fst).getLastD target) =
      some resolver := by
  induction links generalizing resolvers target with
  | nil => exact h
  | cons link links ih =>
      rw [List.forall_mem_cons] at hlinks
      have hlink := get?_after_addAlias h hlinks.1
      rw [chain, ← List.cons_append, after_append, List.map_cons, List.getLastD_cons]
      exact ih hlink hlinks.2

end

/-! ### The resolvers of the states -/

def builtinSteps : List Step := [
  .register PseudoState.active.name PseudoState.active.resolver,
  .register PseudoState.checked.name PseudoState.checked.resolver,
  .register PseudoState.disabled.name PseudoState.disabled.resolver,
  .register PseudoState.focus.name PseudoState.focus.resolver,
  .addAlias "focusWithin" PseudoState.focus.name,
  .register PseudoState.hover.name PseudoState.hover.resolver]

theorem builtin_after (steps : List Step) :
    builtin.after steps = (∅ : Resolvers).after (builtinSteps ++ steps) := by
  rw [after_append]
  rfl

/-- After any steps the names are those that have been bound, in the order in which they first were,
and a name resolves by the resolver that it was bound to last, or to itself if it never was. An
alias of a name without a resolver changes nothing. Any other alias resolves as its target did at
that step, whatever is done to the target later, and so does the last one of a chain of aliases. The
resolvers of the states are made by such steps themselves, so all of this holds of what is built on
them; in particular `focusWithin` goes by the focus whatever becomes of the name `focus`. -/
theorem resolve_by_history (steps : List Step) :
    (((∅ : Resolvers).after steps).keys.Nodup ∧
      ((∅ : Resolvers).after steps).keys = (Pairs.keys (bindings steps)).eraseDups) ∧
    (∀ name theme boundary, ((∅ : Resolvers).after steps).resolve name theme boundary =
      match ((bindings steps).valuesOf name).getLast? with
      | some resolver => resolver theme boundary
      | none => some name) ∧
    (∀ name, name ∉ Pairs.keys (bindings steps) → ∀ theme boundary,
      ((∅ : Resolvers).after steps).resolve name theme boundary = some name) ∧
    (∀ name target, target ∉ Pairs.keys (bindings steps) →
      (∅ : Resolvers).after (steps ++ [.addAlias name target]) = (∅ : Resolvers).after steps) ∧
    (∀ name target later, target ∈ Pairs.keys (bindings steps) →
      (∀ step ∈ later, step.name ≠ name) → ∀ theme boundary,
      ((∅ : Resolvers).after (steps ++ .addAlias name target :: later)).resolve name theme
          boundary =
        ((∅ : Resolvers).after steps).resolve target theme boundary) ∧
    (∀ target links, target ∈ Pairs.keys (bindings steps) →
      (∀ link ∈ links, ∀ step ∈ link.2, step.name ≠ link.1) → ∀ theme boundary,
      ((∅ : Resolvers).after (steps ++ chain target links)).resolve
          ((links.map Prod.fst).getLastD target) theme boundary =
        ((∅ : Resolvers).after steps).resolve target theme boundary) ∧
    builtin.after steps = (∅ : Resolvers).after (builtinSteps ++ steps) ∧
    ((∀ step ∈ steps, step.name ≠ "focusWithin") → ∀ theme boundary,
      (builtin.after steps).resolve "focusWithin" theme boundary =
        PseudoState.focus.resolver theme boundary) := by
  refine ⟨⟨Table.nodup _, ?_⟩, ?_, ?_, ?_, ?_, ?_, builtin_after steps, ?_⟩
  · rw [after_eq_ofPairs, Table.keys_ofPairs]
  · intro name theme boundary
    rw [← get?_after_eq]
    rfl
  · intro name hname theme boundary
    exact resolve_of_get?_none (get?_after_eq_none_iff.2 hname) theme boundary
  · intro name target htarget
    rw [after_append]
    exact addAlias_of_get?_none (get?_after_eq_none_iff.2 htarget) name
  · intro name target later htarget hlater theme boundary
    obtain ⟨resolver, hresolver⟩ := exists_get?_after htarget
    rw [after_append, resolve_of_get? hresolver,
      resolve_of_get? (get?_after_addAlias hresolver hlater)]
  · intro target links htarget hlinks theme boundary
    obtain ⟨resolver, hresolver⟩ := exists_get?_after htarget
    rw [after_append, resolve_of_get? hresolver,
      resolve_of_get? (get?_after_chain hresolver hlinks)]
  · intro hsteps theme boundary
    have hfocus : builtin.get? "focusWithin" = some PseudoState.focus.resolver := rfl
    rw [resolve_after hsteps, resolve_of_get? hfocus]

/-- A name for presses with an alias that was made before the name was given another resolver, an
alias of nothing, and another resolver for `focus`. -/
def touchSteps : List Step := [
  .register "press" fun _ _ => some "&:active",
  .addAlias "tap" "press",
  .addAlias "ghost" "missing",
  .register "press" fun _ _ => some "&.pressed",
  .register "focus" fun _ _ => none]

theorem keys_bindings_touchSteps :
    Pairs.keys (bindings touchSteps) = ["press", "tap", "press", "focus"] := rfl

theorem touch_resolve_by_history :
    ((∅ : Resolvers).after touchSteps).keys = ["press", "tap", "focus"] ∧
    (∀ theme boundary, ((∅ : Resolvers).after touchSteps).resolve "press" theme boundary =
        some "&.pressed" ∧
      ((∅ : Resolvers).after touchSteps).resolve "tap" theme boundary = some "&:active" ∧
      ((∅ : Resolvers).after touchSteps).resolve "ghost" theme boundary = some "ghost") ∧
    (∅ : Resolvers).after (touchSteps ++ [.addAlias "swipe" "missing"]) =
      (∅ : Resolvers).after touchSteps ∧
    (∀ theme boundary, ((∅ : Resolvers).after (touchSteps ++
        [.addAlias "click" "tap", .register "tap" fun _ _ => none])).resolve "click" theme
        boundary =
      some "&:active") ∧
    (∀ theme boundary, ((∅ : Resolvers).after (touchSteps ++
        [.addAlias "hold" "press", .register "press" fun _ _ => none, .addAlias "drag" "hold",
          .register "hold" fun _ _ => none])).resolve "drag" theme boundary = some "&.pressed") ∧
    ∀ theme, (builtin.after touchSteps).resolve "focus" theme none = none ∧
      (builtin.after touchSteps).resolve "focusWithin" theme none = some "&:focus" := by
  obtain ⟨⟨_, hkeys⟩, hresolve, hself, hunbound, halias, hchain, _, hfocus⟩ :=
    resolve_by_history touchSteps
  rw [keys_bindings_touchSteps] at hkeys hself hunbound halias hchain
  refine ⟨hkeys, fun theme boundary => ⟨hresolve "press" theme boundary,
    hresolve "tap" theme boundary, hself "ghost" (by decide) theme boundary⟩,
    hunbound "swipe" "missing" (by decide), ?_, ?_, fun theme => ⟨rfl, ?_⟩⟩
  · exact halias "click" "tap" [.register "tap" fun _ _ => none] (by decide)
      (by simp [Step.name])
  · exact hchain "press" [("hold", [.register "press" fun _ _ => none]),
      ("drag", [.register "hold" fun _ _ => none])] (by decide) (by simp [Step.name])
  · exact hfocus (by simp [touchSteps, Step.name]) theme none

end StyleTree.Resolvers
