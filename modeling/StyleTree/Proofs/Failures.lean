import StyleTree.Proofs.Replay

/-!
Which failures end a compilation. Only functions supplied from outside fail: those that expand
shorthand properties and those that compute a literal from the theme. They are called in a certain
order, and a compilation gives a style unless one of them fails. Otherwise its error is that of the
first one that does. What stands under a dropped branch is never called.
-/

namespace StyleTree

inductive Call
  | shorthand (property : String) (expansion : Shorthand) (value : Value)
  | themed (property : String) (compute : Theme → Except String Literal)

def Call.failure? (theme : Theme) : Call → Option StyleError
  | shorthand property expansion value =>
      match expansion value theme with
      | .ok _ => none
      | .error reason => some (.shorthand property reason)
  | themed property compute =>
      match compute theme with
      | .ok _ => none
      | .error reason => some (.themed property reason)

/-- The calls in the order in which they are made: the shorthand properties in the order of the
table, each if the specification has it at its turn, and then the functions of the theme in what the
specification has become. Where an expansion fails there is nothing to go on with. -/
def Spec.calls (context : Context) : Pairs Shorthand → Spec → List Call
  | [], spec => (spec.computations context).map fun c => .themed c.1 c.2
  | (property, expansion) :: table, spec =>
      match spec.get? property with
      | none => calls context table spec
      | some value =>
          .shorthand property expansion value ::
            match expansion value context.theme with
            | .ok expanded => calls context table ((spec.erase property).merge expanded)
            | .error _ => []

def Request.calls (request : Request) (fallback : Resolvers) : List Call :=
  request.layers.merged.calls (request.context fallback) (request.shorthands.getD ∅).pairs

/-- What compiling comes to by its calls: a style, or the error of the first call that fails. -/
theorem Spec.exists_compile_eq (context : Context) (table : Pairs Shorthand) (spec : Spec) :
    ∃ style,
      (do
        let expanded ← table.foldlM
          (fun (spec : Spec) (entry : String × Shorthand) =>
            Shorthands.expandOne context.theme spec entry.1 entry.2) spec
        expanded.compile context) =
        ((spec.calls context table).findSome? (Call.failure? context.theme)).elim
          (.ok style) .error := by
  induction table generalizing spec with
  | nil =>
      refine ⟨(∅ : Level).replay context.theme (spec.events context), ?_⟩
      -- All expansions are done, and what is left are the functions of the theme.
      have hthemed : (Call.failure? context.theme ∘
            fun c : String × (Theme → Except String Literal) => .themed c.1 c.2) =
          fun c => StyleError.ofAnswer? c.1 (c.2 context.theme) := by
        funext c
        simp only [Function.comp_apply, Call.failure?]
        cases c.2 context.theme <;> rfl
      rw [Spec.calls, List.findSome?_map, hthemed, ← Spec.findSome?_failure?]
      show spec.compile context = _
      rw [Spec.compile_eq_events]
      cases (spec.events context).findSome? fun e => e.2.failure? context.theme e.1 <;> rfl
  | cons entry table ih =>
      obtain ⟨property, expansion⟩ := entry
      rw [List.foldlM_cons, Spec.calls]
      cases hvalue : spec.get? property with
      | none =>
          rw [Shorthands.expandOne_of_get?_none hvalue]
          exact ih spec
      | some value =>
          cases hexpanded : expansion value context.theme with
          | error reason =>
              rw [Shorthands.expandOne_of_error hvalue hexpanded]
              refine ⟨∅, ?_⟩
              simp only [List.findSome?_cons, Call.failure?, hexpanded]
              rfl
          | ok expanded =>
              rw [Shorthands.expandOne_of_ok hvalue hexpanded]
              simp only [List.findSome?_cons, Call.failure?, hexpanded]
              exact ih _

/-! ### Documents hold no functions -/

theorem Value.computation?_branches {context : Context} {entries : List (String × Value)}
    (h : ∀ entry ∈ entries, ∀ event ∈ entry.2.events context, event.computation? = none) :
    ∀ event ∈ (Value.branches entries).events context, event.computation? = none := by
  intro event hevent
  obtain ⟨entry, hentry, ⟨_, hinner⟩ | ⟨selector, _, rfl | ⟨inner, hinner, rfl⟩⟩⟩ :=
    Value.mem_events_branches.1 hevent
  · exact h entry hentry event hinner
  · rfl
  · rw [Event.computation?_within]
    exact h entry hentry inner hinner

mutual

theorem Value.computation?_ofJson (context : Context) (doc : Json) :
    ∀ event ∈ (Value.ofJson doc).events context, event.computation? = none := by
  match doc with
  | .null | .bool _ | .array _ => exact fun _ h => absurd h List.not_mem_nil
  | .number n => exact List.forall_mem_singleton.2 rfl
  | .string s => exact List.forall_mem_singleton.2 rfl
  | .object members => exact computation?_branches (computation?_ofMembers context members)

theorem Value.computation?_ofMembers (context : Context) (members : List (String × Json)) :
    ∀ entry ∈ Value.ofMembers members,
      ∀ event ∈ entry.2.events context, event.computation? = none := by
  match members with
  | [] => exact fun _ h => absurd h List.not_mem_nil
  | (name, doc) :: rest =>
      exact List.forall_mem_cons.2
        ⟨computation?_ofJson context doc, computation?_ofMembers context rest⟩

end

theorem Spec.computation?_ofJson (context : Context) (doc : Json) :
    ∀ entry ∈ (Spec.ofJson doc).pairs, ∀ event ∈ entry.2.events context,
      event.computation? = none := by
  intro entry hentry
  rcases Pairs.mem_of_mem_extend hentry with hnil | hentry
  · cases hnil
  · cases doc with
    | object members => exact Value.computation?_ofMembers context members entry hentry
    | _ => cases hentry

theorem Request.calls_of_docs {request : Request}
    (hdocs : ∀ spec ∈ request.layers.specs, ∃ doc, spec = Spec.ofJson doc)
    (htable : request.shorthands.getD ∅ = ∅) (fallback : Resolvers) :
    request.calls fallback = [] := by
  rw [Request.calls, htable]
  show List.map _ _ = []
  rw [List.map_eq_nil_iff, Spec.computations, List.filterMap_eq_nil_iff]
  intro e he
  obtain ⟨entry, hentry, _, hevent⟩ := Spec.mem_events.1 he
  obtain ⟨spec, hspec, hentry⟩ := Table.mem_of_mem_mergeAll hentry
  obtain ⟨doc, rfl⟩ := hdocs spec hspec
  rw [Spec.computation?_ofJson (request.context fallback) doc entry hentry e.2 hevent]
  rfl

/-- A compilation gives a style unless one of its calls fails, and else it ends in the error of the
first call that does. Nothing fails in specifications made of documents alone. -/
theorem Request.compile_fails_first (request : Request) (fallback : Resolvers) :
    ((∃ style, request.compile fallback = .ok style) ↔
      ∀ call ∈ request.calls fallback, call.failure? request.combinedTheme = none) ∧
    (∀ error, request.compile fallback = .error error ↔
      ∃ before call after, request.calls fallback = before ++ call :: after ∧
        call.failure? request.combinedTheme = some error ∧
        ∀ earlier ∈ before, earlier.failure? request.combinedTheme = none) ∧
    ((∀ spec ∈ request.layers.specs, ∃ doc, spec = Spec.ofJson doc) →
      request.shorthands.getD ∅ = ∅ → ∃ style, request.compile fallback = .ok style) := by
  obtain ⟨style, hstyle⟩ := Spec.exists_compile_eq (request.context fallback)
    (request.shorthands.getD ∅).pairs request.layers.merged
  have hresult : request.compile fallback =
      ((request.calls fallback).findSome? (Call.failure? request.combinedTheme)).elim
        (.ok style) .error := by
    rw [Request.compile, Request.expandedSpec_eq_expand]
    exact hstyle
  have hok : (∃ style, request.compile fallback = .ok style) ↔
      ∀ call ∈ request.calls fallback, call.failure? request.combinedTheme = none := by
    rw [hresult, ← List.findSome?_eq_none_iff]
    cases (request.calls fallback).findSome? (Call.failure? request.combinedTheme) <;> simp
  refine ⟨hok, ?_, ?_⟩
  · intro error
    rw [hresult, ← List.findSome?_eq_some_iff]
    cases (request.calls fallback).findSome? (Call.failure? request.combinedTheme) <;> simp
  · intro hdocs htable
    refine hok.2 ?_
    rw [Request.calls_of_docs hdocs htable]
    exact fun _ h => absurd h List.not_mem_nil

/-- A size that is shorthand for a gap, beside a colour that has no answer. -/
def Request.gap : Request where
  layers := .one (.ofPairs [
    ("color", .themed fun _ => .error "no colour"), ("size", .literal (.text "small"))])
  shorthands := some (.ofPairs [
    ("size", fun value _ => .ok (.ofPairs [("gap", value)])),
    ("gap", fun _ _ => .error "bad gap")])

def Request.page : Request where
  layers := .one (.ofJson (.object [
    ("width", .object [("default", .string "100%"), ("hover", .null), ("print", .array [])])]))

theorem Request.gap_fails_first :
    gap.compile Resolvers.builtin = .error (.shorthand "gap" "bad gap") ∧
    page.layers.specs ≠ [] ∧ (∀ spec ∈ page.layers.specs, ∃ doc, spec = Spec.ofJson doc) ∧
    page.shorthands.getD ∅ = ∅ ∧ ∃ style, page.compile Resolvers.builtin = .ok style := by
  obtain ⟨_, hgap, _⟩ := Request.compile_fails_first gap Resolvers.builtin
  obtain ⟨_, _, hpage⟩ := Request.compile_fails_first page Resolvers.builtin
  have hdocs : ∀ spec ∈ page.layers.specs, ∃ doc, spec = Spec.ofJson doc := by
    intro spec hspec
    obtain rfl := List.mem_singleton.1 hspec
    exact ⟨_, rfl⟩
  -- The expansion of the size goes well and brings in the gap, whose own expansion fails.
  have herror : gap.compile Resolvers.builtin = .error (.shorthand "gap" "bad gap") := by
    refine (hgap _).2 ⟨[_], _, [], rfl, rfl, ?_⟩
    intro earlier hearlier
    obtain rfl := List.mem_singleton.1 hearlier
    rfl
  exact ⟨herror, List.cons_ne_nil _ _, hdocs, rfl, hpage hdocs rfl⟩

end StyleTree
