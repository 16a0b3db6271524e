import Mathlib.Data.List.Induction
import Mathlib.Logic.Relation
import StyleTree.Compile

/-!
What layers of specifications amount to. Only the specifications in order matter and not how they
are grouped, and of these only the first place and the last value of each property. Laying
specifications over each other is associative, so that a part of them can be merged beforehand.
-/

namespace StyleTree

/-! ### Tables laid over each other -/

namespace Table

variable {α : Type}

theorem keys_mergeAll (ts : List (Table α)) :
    (mergeAll ts).keys = (ts.flatMap keys).eraseDups := by
  induction ts using List.reverseRecOn with
  | nil => rfl
  | append_singleton ts t ih =>
      have hnew : (t.keys.filter (· ∉ (ts.flatMap keys).eraseDups)).Nodup := t.nodup.filter _
      have hold : t.keys.filter (· ∉ (ts.flatMap keys).eraseDups) =
          t.keys.removeAll (ts.flatMap keys) := by
        rw [List.removeAll]
        refine List.filter_congr fun name _ => ?_
        simp only [List.mem_eraseDups, decide_not, List.elem_eq_mem]
      rw [mergeAll_append, mergeAll_singleton, keys_merge, ih, List.flatMap_append,
        List.flatMap_singleton, List.eraseDups_append, ← hold, eraseDups_of_nodup hnew]

theorem mem_keys_mergeAll {name : String} {ts : List (Table α)} :
    name ∈ (mergeAll ts).keys ↔ ∃ t ∈ ts, name ∈ t.keys := by
  rw [keys_mergeAll, List.mem_eraseDups, List.mem_flatMap]

theorem get?_mergeAll (ts : List (Table α)) (name : String) :
    (mergeAll ts).get? name = (ts.filterMap (·.get? name)).getLast? := by
  induction ts with
  | nil => rfl
  | cons t ts ih =>
      rw [mergeAll_cons, get?_merge, ih, List.filterMap_cons]
      cases t.get? name with
      | none => rw [Option.or_none]
      | some value =>
          rw [List.getLast?_cons]
          cases (ts.filterMap (·.get? name)).getLast? <;> rfl

end Table

/-! ### Grouping -/

/-- The entries of an entry when it is taken for a list. -/
def Layer.entries : Layer → List (Option Spec)
  | missing => [none]
  | spec s => [some s]
  | group ss => ss

/-- One change in how specifications are handed over: a gap is left out, a run of entries becomes a
group, or a run of specifications is merged beforehand. -/
inductive Layers.Regroups : Layers → Layers → Prop
  | none : Regroups .none (.many [])
  | one (s : Spec) : Regroups (.one s) (.many [.spec s])
  | skip (before after : List Layer) :
      Regroups (.many (before ++ .missing :: after)) (.many (before ++ after))
  | skipInside (before after : List Layer) (ss ts : List (Option Spec)) :
      Regroups (.many (before ++ .group (ss ++ Option.none :: ts) :: after))
        (.many (before ++ .group (ss ++ ts) :: after))
  | group (before run after : List Layer) :
      Regroups (.many (before ++ run ++ after))
        (.many (before ++ .group (run.flatMap Layer.entries) :: after))
  | merge (before after : List Layer) (run : List Spec) :
      Regroups (.many (before ++ run.map .spec ++ after))
        (.many (before ++ .spec (Table.mergeAll run) :: after))
  | mergeInside (before after : List Layer) (ss ts : List (Option Spec)) (run : List Spec) :
      Regroups (.many (before ++ .group (ss ++ run.map some ++ ts) :: after))
        (.many (before ++ .group (ss ++ some (Table.mergeAll run) :: ts) :: after))

namespace Layer

theorem filterMap_entries (layer : Layer) : layer.entries.filterMap id = layer.specs := by
  cases layer <;> rfl

theorem specs_group_append (ss ts : List (Option Spec)) :
    (group (ss ++ ts)).specs = (group ss).specs ++ (group ts).specs :=
  List.filterMap_append

theorem specs_group_flatMap (run : List Layer) :
    (group (run.flatMap entries)).specs = run.flatMap specs := by
  rw [specs, List.filterMap_flatMap]
  exact congrArg run.flatMap (funext filterMap_entries)

end Layer

namespace Layers

theorem merged_append (layers others : List Layer) :
    (many (layers ++ others)).merged = (many layers).merged.merge (many others).merged := by
  rw [merged, merged, merged, specs, specs, specs, List.flatMap_append, Table.mergeAll_append]

theorem merged_cons (layer : Layer) (layers : List Layer) :
    (many (layer :: layers)).merged = (Table.mergeAll layer.specs).merge (many layers).merged := by
  rw [merged, merged, specs, specs, List.flatMap_cons, Table.mergeAll_append]

theorem merged_map_spec (run : List Spec) : (many (run.map .spec)).merged = Table.mergeAll run :=
  congrArg Table.mergeAll (specs_ofSpecs run)

theorem Regroups.merged_eq {layers other : Layers} (h : Regroups layers other) :
    layers.merged = other.merged := by
  cases h with
  | none => rfl
  | one s => rfl
  | skip before after =>
      have hmissing : Table.mergeAll Layer.missing.specs = ∅ := rfl
      rw [merged_append, merged_append, merged_cons, hmissing, Table.empty_merge]
  | skipInside before after ss ts =>
      have hinside : (Layer.group (ss ++ Option.none :: ts)).specs =
          (Layer.group (ss ++ ts)).specs := by
        rw [Layer.specs_group_append, Layer.specs_group_append]
        rfl
      rw [merged_append, merged_append, merged_cons, merged_cons, hinside]
  | group before run after =>
      have hrun : (many run).merged =
          Table.mergeAll (Layer.group (run.flatMap Layer.entries)).specs := by
        rw [Layer.specs_group_flatMap]
        rfl
      rw [merged_append, merged_append, merged_append, merged_cons, hrun, Table.merge_assoc]
  | merge before after run =>
      have hrun : Table.mergeAll (Layer.spec (Table.mergeAll run)).specs = Table.mergeAll run :=
        Table.mergeAll_singleton _
      rw [merged_append, merged_append, merged_append, merged_cons, merged_map_spec, hrun,
        Table.merge_assoc]
  | mergeInside before after ss ts run =>
      have hrun : (Layer.group (run.map some)).specs = run := by
        rw [Layer.specs, List.filterMap_map]
        exact List.filterMap_some
      have hone : (Layer.group (some (Table.mergeAll run) :: ts)).specs =
          Table.mergeAll run :: (Layer.group ts).specs := rfl
      have hinside : Table.mergeAll (Layer.group (ss ++ run.map some ++ ts)).specs =
          Table.mergeAll (Layer.group (ss ++ some (Table.mergeAll run) :: ts)).specs := by
        rw [Layer.specs_group_append, Layer.specs_group_append, Layer.specs_group_append, hrun,
          hone, Table.mergeAll_append, Table.mergeAll_append, Table.mergeAll_append,
          Table.mergeAll_cons, Table.merge_assoc]
      rw [merged_append, merged_append, merged_cons, merged_cons, hinside]

/-- And so does any number of changes, in either direction. -/
theorem merged_eq_of_eqvGen {layers other : Layers} (h : Relation.EqvGen Regroups layers other) :
    layers.merged = other.merged := by
  induction h with
  | rel layers other h => exact h.merged_eq
  | refl layers => rfl
  | symm layers other _ ih => exact ih.symm
  | trans layers mid other _ _ ih ih' => exact ih.trans ih'

end Layers

/-! ### Values that are redefined -/

/-- The same properties in each specification, and the same values, except where a later
specification of the list redefines the property. -/
inductive Spec.Underlaid : List Spec → List Spec → Prop
  | nil : Underlaid [] []
  | cons {s t : Spec} {ss ts : List Spec} (hkeys : s.keys = t.keys)
      (hvalues : ∀ property, (∀ later ∈ ss, property ∉ later.keys) →
        s.get? property = t.get? property)
      (h : Underlaid ss ts) : Underlaid (s :: ss) (t :: ts)

/-- Values that are redefined do not show. -/
theorem Spec.Underlaid.mergeAll_eq {ss ts : List Spec} (h : Underlaid ss ts) :
    Table.mergeAll ss = Table.mergeAll ts := by
  induction h with
  | nil => rfl
  | @cons s t ss ts hkeys hvalues _ ih =>
      rw [Table.mergeAll_cons, Table.mergeAll_cons, ← ih]
      refine Table.eq_of_get? ?_ fun property => ?_
      · rw [Table.keys_merge, Table.keys_merge, hkeys]
      · rw [Table.get?_merge, Table.get?_merge]
        cases hlater : (Table.mergeAll ss).get? property with
        | some value => rfl
        | none =>
            -- No later specification has the property, so this one decides, and here both agree.
            have hnone := Table.get?_eq_none_iff.1 hlater
            rw [Table.mem_keys_mergeAll] at hnone
            rw [hvalues property fun later hmem hkey => hnone ⟨later, hmem, hkey⟩]

theorem Request.compile_of_merged_eq {request : Request} {layers : Layers}
    (h : layers.merged = request.layers.merged) (fallback : Resolvers) :
    { request with layers := layers }.compile fallback = request.compile fallback :=
  Request.compile_congr rfl rfl h rfl rfl

/-- Layers amount to the properties of their specifications in the order in which these first come
up, each with its last value. They may be grouped in any other way, and any part of them may be
merged beforehand, since laying over is associative with the empty specification as identity. So a
compilation does not depend on the grouping, nor on values that are redefined, even if these would
fail. -/
theorem Request.compile_layers (request : Request) (fallback : Resolvers) :
    (request.layers.merged.keys = (request.layers.specs.flatMap Table.keys).eraseDups ∧
      ∀ property, request.layers.merged.get? property =
        (request.layers.specs.filterMap (·.get? property)).getLast?) ∧
    (∀ layers, Relation.EqvGen Layers.Regroups request.layers layers →
      layers.merged = request.layers.merged ∧
      { request with layers := layers }.compile fallback = request.compile fallback) ∧
    (∀ layers : Layers, Spec.Underlaid request.layers.specs layers.specs →
      layers.merged = request.layers.merged ∧
      { request with layers := layers }.compile fallback = request.compile fallback) ∧
    (∀ s t u : Spec, (s.merge t).merge u = s.merge (t.merge u)) ∧
    ∀ s : Spec, (∅ : Spec).merge s = s ∧ s.merge ∅ = s := by
  refine ⟨⟨Table.keys_mergeAll _, Table.get?_mergeAll _⟩, ?_, ?_, Table.merge_assoc,
    fun s => ⟨Table.empty_merge s, Table.merge_empty s⟩⟩
  · intro layers hregrouped
    have hmerged := (Layers.merged_eq_of_eqvGen hregrouped).symm
    exact ⟨hmerged, Request.compile_of_merged_eq hmerged fallback⟩
  · intro layers hunderlaid
    have hmerged : layers.merged = request.layers.merged := hunderlaid.mergeAll_eq.symm
    exact ⟨hmerged, Request.compile_of_merged_eq hmerged fallback⟩

/-- A colour at the bottom that the top redefines. -/
def Spec.bottom (color : Value) : Spec :=
  .ofPairs [("color", color), ("margin", .literal (.text "none"))]

def Spec.middle : Spec := .ofPairs [("border", .literal (.text "thin"))]

def Spec.top : Spec := .ofPairs [("color", .literal (.text "red"))]

def Value.failing : Value := .themed fun _ => .error "no colour"

/-- The three of them, with a gap and a group in between. -/
def Request.stack (color : Value) : Request where
  layers := .many [.spec (Spec.bottom color), .missing, .group [some Spec.middle, none],
    .spec Spec.top]

theorem Request.stack_regroups (color : Value) :
    Relation.EqvGen Layers.Regroups (stack color).layers
      (.one (Table.mergeAll [Spec.bottom color, Spec.middle, Spec.top])) := by
  have hskip := Layers.Regroups.skip [.spec (Spec.bottom color)]
    [.group [some Spec.middle, none], .spec Spec.top]
  have hinside := Layers.Regroups.skipInside [.spec (Spec.bottom color)] [.spec Spec.top]
    [some Spec.middle] []
  have hgroup := Layers.Regroups.group [.spec (Spec.bottom color)] [.spec Spec.middle]
    [.spec Spec.top]
  have hmerge := Layers.Regroups.merge [] [] [Spec.bottom color, Spec.middle, Spec.top]
  have hone := Layers.Regroups.one (Table.mergeAll [Spec.bottom color, Spec.middle, Spec.top])
  exact .trans _ _ _ (.rel _ _ hskip) (.trans _ _ _ (.rel _ _ hinside) (.trans _ _ _
    (.symm _ _ (.rel _ _ hgroup)) (.trans _ _ _ (.rel _ _ hmerge) (.symm _ _ (.rel _ _ hone)))))

theorem Spec.bottom_underlaid (color other : Value) :
    Underlaid [bottom color, middle, top] [bottom other, middle, top] := by
  refine .cons rfl ?_ (.cons rfl (fun _ _ => rfl) (.cons rfl (fun _ _ => rfl) .nil))
  intro property hproperty
  have hcolor : property ≠ "color" := fun heq =>
    hproperty top (List.mem_cons_of_mem _ List.mem_cons_self) (heq ▸ List.mem_cons_self)
  have hbottom (color : Value) : bottom color =
      ((∅ : Spec).insert "color" color).insert "margin" (.literal (.text "none")) := rfl
  rw [hbottom, hbottom, Table.get?_insert, Table.get?_insert, Table.get?_insert, Table.get?_insert,
    if_neg hcolor, if_neg hcolor]

theorem Request.stack_compile_layers :
    (Relation.EqvGen Layers.Regroups (stack .failing).layers
        (.one (Table.mergeAll [Spec.bottom .failing, Spec.middle, Spec.top])) ∧
      Request.compile
          { layers := .one (Table.mergeAll [Spec.bottom .failing, Spec.middle, Spec.top]) }
          Resolvers.builtin =
        (stack .failing).compile Resolvers.builtin) ∧
    (Spec.Underlaid (stack .failing).layers.specs (stack .empty).layers.specs ∧
      (stack .empty).compile Resolvers.builtin = (stack .failing).compile Resolvers.builtin) ∧
    (stack .failing).compile Resolvers.builtin = .ok ⟨[("color", .literal (.text "red")),
      ("margin", .literal (.text "none")), ("border", .literal (.text "thin"))]⟩ := by
  have hregroups := Request.stack_regroups .failing
  have hunderlaid := Spec.bottom_underlaid .failing .empty
  obtain ⟨_, hgrouping, hvalues, _⟩ :=
    Request.compile_layers (stack .failing) Resolvers.builtin
  exact ⟨⟨hregroups, (hgrouping _ hregroups).2⟩,
    ⟨hunderlaid, (hvalues (stack .empty).layers hunderlaid).2⟩, rfl⟩

end StyleTree
