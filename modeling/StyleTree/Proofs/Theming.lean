import StyleTree.Session

/-!
The one theme of a compilation. Whichever way the ambient theme and the override are given, or left
out, the compilation goes by the one laid over the other, and every function that it calls is called
with exactly this theme. A theme that is laid over another hides whole entries: a path whose first
name it has is not looked for underneath, even if it leads nowhere.
-/

namespace StyleTree

/-! ### Looking up in combined themes -/

namespace Theme

theorem combine_none_comm (theme : Option Theme) : combine none theme = combine theme none := by
  cases theme with
  | none => rfl
  | some theme => rw [combine_none_left, combine_none_right]

def firstSegment (path : String) : String := (segments path).head (segments_ne_nil path)

theorem lookup?_eq_bind (theme : Theme) (path : String) :
    theme.lookup? path =
      (theme.get? (firstSegment path)).bind (·.descend? (segments path).tail) := by
  obtain ⟨name, rest, hsegments⟩ := List.exists_cons_of_ne_nil (segments_ne_nil path)
  simp only [lookup?, firstSegment, hsegments, List.head_cons, List.tail_cons]

theorem lookup?_merge (theme override : Theme) (path : String) :
    lookup? (theme.merge override) path =
      if override.contains (firstSegment path) then override.lookup? path
      else theme.lookup? path := by
  rw [lookup?_eq_bind, lookup?_eq_bind override, lookup?_eq_bind theme, Table.get?_merge,
    Table.contains]
  cases override.get? (firstSegment path) with
  | none => rfl
  | some entry => rfl

/-- A palette that is replaced by a string leaves nothing behind. -/
example : lookup? ((Table.ofPairs [("palette", .object [("muted", .string "grey")])]).merge
    (.ofPairs [("palette", .string "plain")])) "palette.muted" = none := by cbv

end Theme

/-! ### Functions that no longer depend on the theme they are handed -/

/-- Calls the resolver with `theme`, whatever theme it is handed. -/
def Resolver.sealed (theme : Theme) (resolver : Resolver) : Resolver :=
  fun _ boundary => resolver theme boundary

def Shorthand.sealed (theme : Theme) (shorthand : Shorthand) : Shorthand :=
  fun value _ => shorthand value theme

mutual

/-- The value with all its functions called with `theme`, whatever theme they are handed. -/
def Value.sealed (theme : Theme) : Value → Value
  | .literal value => .literal value
  | .themed compute => .themed fun _ => compute theme
  | .branches entries => .branches (Branches.sealed theme entries)
  | .empty => .empty

def Branches.sealed (theme : Theme) : List (String × Value) → List (String × Value)
  | [] => []
  | (name, value) :: rest => (name, Value.sealed theme value) :: Branches.sealed theme rest

end

def Spec.sealed (theme : Theme) (spec : Spec) : Spec := spec.map (Value.sealed theme)

/-- The context with its resolvers called with its theme, while `handed` is what is handed round. -/
def Context.sealed (context : Context) (handed : Theme) : Context where
  theme := handed
  resolvers := context.resolvers.map (Resolver.sealed context.theme)
  boundary := context.boundary

theorem Shorthands.expand_sealed (table : Shorthands) (spec : Spec) (theme handed : Theme) :
    Shorthands.expand (table.map (Shorthand.sealed theme)) spec handed =
      table.expand spec theme := by
  rw [Shorthands.expand, Shorthands.expand, Table.pairs_map, List.foldlM_map]
  rfl

section

variable (context : Context) (handed : Theme)

theorem Context.resolve_sealed (name : String) :
    (context.sealed handed).resolve name = context.resolve name := by
  have hfound : (context.sealed handed).resolvers.get? name =
      (context.resolvers.get? name).map (Resolver.sealed context.theme) :=
    Table.get?_map _ _ _
  rw [Context.resolve, Context.resolve, Resolvers.resolve, Resolvers.resolve, hfound]
  cases context.resolvers.get? name with
  | none => rfl
  | some resolver => rfl

theorem Context.target_sealed (name : String) :
    (context.sealed handed).target name = context.target name := by
  rw [Context.target, Context.target, Context.resolve_sealed]

theorem Value.write_sealed (property : String) (value : Value) :
    (value.sealed context.theme).write (context.sealed handed) property =
      value.write context property := by
  induction value with
  | literal value => rfl
  | themed compute => rfl
  | empty => rfl
  | branches entries ih =>
      -- The two rounds are two recursions over the same entries, each with its own induction.
      have hfirst :
          Branches.writeFirst (context.sealed handed) property
              (Branches.sealed context.theme entries) =
            Branches.writeFirst context property entries := by
        induction entries with
        | nil => rfl
        | cons entry entries ihe =>
            rw [List.forall_mem_cons] at ih
            rw [Branches.sealed, Branches.writeFirst, Branches.writeFirst, ih.1, ihe ih.2,
              Context.target_sealed]
      have hpinned :
          Branches.writePinned (context.sealed handed) property
              (Branches.sealed context.theme entries) =
            Branches.writePinned context property entries := by
        clear hfirst
        induction entries with
        | nil => rfl
        | cons entry entries ihe =>
            rw [List.forall_mem_cons] at ih
            rw [Branches.sealed, Branches.writePinned, Branches.writePinned, ih.1, ihe ih.2,
              Context.target_sealed]
      rw [Value.sealed, Value.write, Value.write, hfirst, hpinned]

theorem Spec.compile_sealed (spec : Spec) :
    (spec.sealed context.theme).compile (context.sealed handed) = spec.compile context := by
  have hwrite : (spec.sealed context.theme).write (context.sealed handed) =
      spec.write context := by
    rw [Spec.write, Spec.write, Spec.sealed, Table.pairs_map, List.forM_eq_forM, List.forM_map]
    simp only [Value.write_sealed]
  rw [Spec.compile, Spec.compile, hwrite]

end

/-! ### Compiling -/

def Request.themed (request : Request) (theme override : Option Theme) : Request :=
  { request with theme := theme, override := override }

/-- Of the themes only what they combine to matters. -/
theorem Request.compile_themed (request : Request) (fallback : Resolvers)
    {theme override other otherOverride : Option Theme}
    (h : Theme.combine theme override = Theme.combine other otherOverride) :
    (request.themed theme override).compile fallback =
      (request.themed other otherOverride).compile fallback :=
  Request.compile_congr h rfl rfl rfl rfl

/-- The preset with what the request brings, and nothing where it brings nothing. -/
def Request.preset (request : Request) : Preset where
  resolvers := request.resolvers
  shorthands := request.shorthands.getD ∅
  theme := request.theme.getD ∅

theorem Request.compile_preset (request : Request) (fallback : Resolvers) :
    request.preset.compile fallback request.layers request.boundary request.override =
      request.compile fallback :=
  Request.compile_congr (Theme.combine_congr rfl rfl) rfl rfl rfl rfl

/-- A compilation goes by one theme, the ambient one with the override laid over it. Leaving out a
theme is the same as giving an empty one, and so is leaving out the shorthand properties, with a
preset and without. All functions, be they expansions, values or resolvers, could as well be called
with this theme beforehand and be handed any other. Laying themes over each other is associative
with the empty theme as identity, and a path is looked up in the upper theme alone if that has an
entry under its first name, and in the lower one alone if it has none. -/
theorem Request.compile_with_one_theme (request : Request) (fallback : Resolvers) :
    (∀ theme override : Theme,
      (request.themed (some theme) (some override)).compile fallback =
        (request.themed (some (theme.merge override)) none).compile fallback) ∧
    (∀ theme : Option Theme,
      (request.themed none theme).compile fallback =
          (request.themed (some ∅) theme).compile fallback ∧
        (request.themed theme none).compile fallback =
          (request.themed theme (some ∅)).compile fallback ∧
        (request.themed none theme).compile fallback =
          (request.themed theme none).compile fallback) ∧
    { request with shorthands := none }.compile fallback =
      { request with shorthands := some ∅ }.compile fallback ∧
    request.preset.compile fallback request.layers request.boundary request.override =
      request.compile fallback ∧
    (∀ theme override handed other : Theme,
      (request.themed (some theme) (some override)).compile fallback = do
        let spec ← Shorthands.expand
          ((request.shorthands.getD ∅).map (Shorthand.sealed (theme.merge override)))
          request.layers.merged handed
        (spec.sealed (theme.merge override)).compile ⟨other,
          (request.resolvers.getD fallback).map (Resolver.sealed (theme.merge override)),
          request.boundary⟩) ∧
    (∀ s t u : Theme, (s.merge t).merge u = s.merge (t.merge u)) ∧
    (∀ theme : Theme, (∅ : Theme).merge theme = theme ∧ theme.merge ∅ = theme) ∧
    ∀ (theme override : Theme) (path : String),
      Theme.lookup? (theme.merge override) path =
        if override.contains (Theme.firstSegment path) then override.lookup? path
        else theme.lookup? path := by
  refine ⟨fun theme override => request.compile_themed fallback rfl, fun theme => ⟨?_, ?_, ?_⟩,
    ?_, request.compile_preset fallback, ?_, Table.merge_assoc,
    fun theme => ⟨Table.empty_merge theme, Table.merge_empty theme⟩, Theme.lookup?_merge⟩
  · exact request.compile_themed fallback (Theme.combine_congr rfl rfl)
  · exact request.compile_themed fallback (Theme.combine_congr rfl rfl)
  · exact request.compile_themed fallback (Theme.combine_none_comm theme)
  · exact Request.compile_congr rfl rfl rfl rfl rfl
  · intro theme override handed other
    let context := (request.themed (some theme) (some override)).context fallback
    have hcompile : (fun spec : Spec => (spec.sealed context.theme).compile
        (context.sealed other)) = fun spec => spec.compile context :=
      funext (Spec.compile_sealed context other)
    show _ = Shorthands.expand _ _ _ >>= fun spec : Spec =>
      (spec.sealed context.theme).compile (context.sealed other)
    rw [Shorthands.expand_sealed, hcompile, Request.compile, Request.expandedSpec_eq_expand]
    rfl

end StyleTree
