import StyleTree.Level.Positions
import StyleTree.Proofs.Answers
import StyleTree.Proofs.Expansion

/-!
The order of properties is a matter of presentation. What is written for a property keeps its order
within the property, and the answers of a style ask for no more than that, as long as no property
has the name of a selector. Only the keys of a level stand in another order if the properties do.
-/

namespace StyleTree

/-- The entries are the same but for the order of keys, at any depth. -/
inductive Entry.Reordered : Entry → Entry → Prop
  | literal (value : Literal) : Reordered (.literal value) (.literal value)
  | nested {entries others : List (String × Entry)}
      (hkeys : (Pairs.keys entries).Perm (Pairs.keys others))
      (hentries : ∀ key entry other, entries.lookup key = some entry →
        others.lookup key = some other → Reordered entry other) :
      Reordered (.nested entries) (.nested others)

/-- Every level of the one has the same keys as that of the other, with the same literals and the
same levels under them, but for the order. -/
def Level.Reordered (level other : Level) : Prop :=
  Entry.Reordered (.nested level.entries) (.nested other.entries)

/-- The events are the same, and those of each property are in the same order. -/
structure Event.Reordered (events others : List (String × Event)) : Prop where
  perm : events.Perm others
  ofProperty : ∀ property,
    (events.filter fun e => e.1 = property) = others.filter fun e => e.1 = property

/-! ### The same in every position -/

theorem Entry.isSome_find?_singleton {entries : List (String × Entry)} {key : String} :
    ((Entry.nested entries).find? [key]).isSome ↔ key ∈ Pairs.keys entries := by
  rw [← Pairs.isSome_lookup_iff, Entry.find?]
  cases entries.lookup key with
  | none => rfl
  | some entry => cases entry <;> simp [Entry.find?]

theorem Entry.Reordered.find?_eq {entry other : Entry} (h : entry.Reordered other)
    (path : List String) : entry.find? path = other.find? path := by
  induction path generalizing entry other with
  | nil => cases h <;> rfl
  | cons key path ih =>
      cases h with
      | literal value => rfl
      | @nested entries others hkeys hentries =>
          rw [Entry.find?, Entry.find?]
          cases hentry : entries.lookup key with
          | none =>
              rw [Pairs.lookup_eq_none_iff, hkeys.mem_iff, ← Pairs.lookup_eq_none_iff] at hentry
              rw [hentry]
          | some entry =>
              obtain ⟨other, hother⟩ :=
                Pairs.exists_lookup_of_mem (hkeys.mem_iff.1 (Pairs.mem_keys_of_lookup hentry))
              rw [hother]
              exact ih (hentries key entry other hentry hother)

theorem Entry.Distinct.reordered {entry other : Entry} (h : entry.Distinct)
    (hother : other.Distinct) (hsame : ∀ path, entry.find? path = other.find? path) :
    entry.Reordered other := by
  induction h generalizing other with
  | literal value =>
      have hfinding := hsame []
      cases hother with
      | literal value => cases hfinding; exact .literal _
      | nested _ _ => cases hfinding
  | @nested entries hkeys _ ih =>
      have hfinding := hsame []
      cases hother with
      | literal value => cases hfinding
      | @nested others hotherKeys hothers =>
          refine .nested ?_ ?_
          · rw [List.perm_ext_iff_of_nodup hkeys hotherKeys]
            intro key
            rw [← Entry.isSome_find?_singleton, hsame, Entry.isSome_find?_singleton]
          · intro key entry other hentry hlookup
            refine ih _ (Pairs.mem_of_lookup hentry) (hothers _ (Pairs.mem_of_lookup hlookup)) ?_
            intro path
            have hpath := hsame (key :: path)
            rwa [Entry.find?, Entry.find?, hentry, hlookup] at hpath

/-- Where keys are distinct, two levels are the same but for the order of keys if and only if the
same stands in every position. -/
theorem Level.Distinct.reordered_iff {level other : Level} (h : level.Distinct)
    (hother : other.Distinct) :
    level.Reordered other ↔ ∀ path, level.find? path = other.find? path :=
  ⟨fun hreordered path => Entry.Reordered.find?_eq hreordered path,
    fun hsame => Entry.Distinct.reordered h hother hsame⟩

/-! ### Levels of reordered events -/

theorem Event.filter_allBelow (path : List String) (events : List (String × Event))
    (property : String) :
    ((allBelow path events).filter fun e => e.1 = property) =
      allBelow path (events.filter fun e => e.1 = property) := by
  rw [allBelow, allBelow, List.filter_filterMap, List.filterMap_filter]
  congr 1
  funext e
  by_cases he : e.1 = property <;> cases e.2.below? path <;> simp [he]

theorem Event.rootLeaves_eq_filterMap (property : String) (events : List (String × Event)) :
    rootLeaves property events =
      (events.filter fun e => e.1 = property).filterMap fun e => e.2.leaf? := by
  rw [rootLeaves, List.filterMap_filter]
  congr 1
  funext e
  by_cases he : e.1 = property <;> simp [he]

namespace Event.Reordered

variable {theme : Theme} {events others : List (String × Event)}

theorem allBelow (h : Reordered events others) (path : List String) :
    Reordered (Event.allBelow path events) (Event.allBelow path others) := by
  refine ⟨h.perm.filterMap _, fun property => ?_⟩
  rw [Event.filter_allBelow, Event.filter_allBelow, h.ofProperty]

theorem rootLeaves_eq (h : Reordered events others) (property : String) :
    Event.rootLeaves property events = Event.rootLeaves property others := by
  rw [Event.rootLeaves_eq_filterMap, Event.rootLeaves_eq_filterMap, h.ofProperty]

theorem answered (h : Reordered events others) (hanswered : Event.Answered theme events) :
    Event.Answered theme others :=
  fun e he => hanswered e (h.perm.mem_iff.2 he)

theorem apart (h : Reordered events others) (hapart : Event.Apart events) : Event.Apart others :=
  fun e he f hf => hapart e (h.perm.mem_iff.2 he) f (h.perm.mem_iff.2 hf)

end Event.Reordered

theorem Event.length_path_lt_of_mem_allBelow {events : List (String × Event)} {selector : String}
    {bound : Nat} (hbound : ∀ e ∈ events, e.2.path.length ≤ bound) :
    ∀ e ∈ Event.allBelow [selector] events, e.2.path.length < bound := by
  intro e he
  obtain ⟨event, hmem, hbelow⟩ := Event.mem_allBelow.1 he
  have hlength := hbound _ hmem
  rw [Event.path_of_below? hbelow] at hlength
  exact hlength

theorem Event.exists_length_path_le (events : List (String × Event)) :
    ∃ bound, ∀ e ∈ events, e.2.path.length ≤ bound := by
  induction events with
  | nil => exact ⟨0, fun _ h => absurd h List.not_mem_nil⟩
  | cons e events ih =>
      obtain ⟨bound, hbound⟩ := ih
      refine ⟨max e.2.path.length bound, List.forall_mem_cons.2 ⟨Nat.le_max_left .., ?_⟩⟩
      exact fun f hf => Nat.le_trans (hbound f hf) (Nat.le_max_right ..)

namespace Level

variable {theme : Theme} {events others : List (String × Event)}

/-- One level: its keys and literals are the same if the levels under its keys are. -/
theorem replay_reordered_of_nested (h : Event.Reordered events others)
    (hanswered : Event.Answered theme events) (hapart : Event.Apart events)
    (hnested : ∀ selector, Event.allBelow [selector] events ≠ [] →
      ((∅ : Level).replay theme (Event.allBelow [selector] events)).Reordered
        ((∅ : Level).replay theme (Event.allBelow [selector] others))) :
    ((∅ : Level).replay theme events).Reordered ((∅ : Level).replay theme others) := by
  have hothers := h.answered hanswered
  refine .nested ?_ ?_
  · show ((∅ : Level).replay theme events).keys.Perm ((∅ : Level).replay theme others).keys
    rw [keys_replay hanswered, keys_replay hothers]
    exact eraseDups_perm (h.perm.filterMap _)
  · intro key entry other hentry hother
    cases entry with
    | literal value =>
        have hliteral := literal?_replay hanswered hapart key
        rw [h.rootLeaves_eq, ← literal?_replay hothers (h.apart hapart),
          literal?_eq_some_iff.2 hentry] at hliteral
        obtain ⟨found, hfound, heq⟩ := Option.map_eq_some_iff.1 hliteral.symm
        have hsame := hother.symm.trans (literal?_eq_some_iff.1 hfound)
        rw [Option.some.inj hsame, Except.ok.inj heq]
        exact .literal value
    | nested entries =>
        have hinner : ((∅ : Level).replay theme events).nested? key = some ⟨entries⟩ :=
          nested?_eq_some_iff.2 hentry
        rw [nested?_replay hanswered hapart, Option.ite_none_left_eq_some] at hinner
        obtain ⟨hne, hlevel⟩ := hinner
        have hne' : Event.allBelow [key] others ≠ [] :=
          fun hnil => hne (List.Perm.eq_nil (hnil ▸ (h.allBelow [key]).perm))
        have hfound : ((∅ : Level).replay theme others).nested? key =
            some ((∅ : Level).replay theme (Event.allBelow [key] others)) := by
          rw [nested?_replay hothers (h.apart hapart), if_neg hne']
        have hsame := hother.symm.trans (nested?_eq_some_iff.1 hfound)
        have hreordered := hnested key hne
        rw [Option.some.inj hlevel] at hreordered
        rw [Option.some.inj hsame]
        exact hreordered

/-- Reordered events make a level that is the same but for the order of its keys. -/
theorem replay_reordered (h : Event.Reordered events others)
    (hanswered : Event.Answered theme events) (hapart : Event.Apart events) :
    ((∅ : Level).replay theme events).Reordered ((∅ : Level).replay theme others) := by
  -- By induction on how deep the events go.
  obtain ⟨bound, hbound⟩ := Event.exists_length_path_le events
  induction bound generalizing events others with
  | zero =>
      refine replay_reordered_of_nested h hanswered hapart fun selector hne => ?_
      obtain ⟨e, he⟩ := List.exists_mem_of_ne_nil _ hne
      exact absurd (Event.length_path_lt_of_mem_allBelow hbound e he) (Nat.not_lt_zero _)
  | succ bound ih =>
      refine replay_reordered_of_nested h hanswered hapart fun selector _ => ?_
      exact ih (h.allBelow _) (hanswered.allBelow _) (hapart.allBelow _) fun e he =>
        Nat.le_of_lt_succ (Event.length_path_lt_of_mem_allBelow hbound e he)

end Level

/-! ### Specifications with the same values -/

theorem Spec.filter_events (context : Context) (spec : Spec) (property : String) :
    ((spec.events context).filter fun e => e.1 = property) =
      ((spec.get? property).map fun value =>
        (value.events context).map (property, ·)).getD [] := by
  rw [Spec.events, List.filter_flatMap, Table.get?, ← Pairs.flatMap_eq_lookup spec.nodup]
  congr 1
  funext entry
  split
  · rename_i heq
    subst heq
    simp
  · rename_i hne
    simp [hne]

/-- The same properties with the same values have the same events, in the order of the
properties. -/
theorem Spec.events_reordered {context : Context} {spec other : Spec}
    (hsame : ∀ property, spec.get? property = other.get? property) :
    Event.Reordered (spec.events context) (other.events context) := by
  refine ⟨(Table.perm_pairs_iff.2 hsame).flatMap_right _, fun property => ?_⟩
  rw [Spec.filter_events, Spec.filter_events, hsame]

theorem Spec.exists_compile_eq_ok_iff {context : Context} {spec : Spec} :
    (∃ style, spec.compile context = .ok style) ↔
      Event.Answered context.theme (spec.events context) := by
  rw [Spec.compile_eq_events, Event.Answered, ← List.findSome?_eq_none_iff]
  cases (spec.events context).findSome? fun e => e.2.failure? context.theme e.1 <;> simp

theorem Request.expandedSpec_of_get?_eq {request : Request} {layers : Layers} {spec : Spec}
    (hsame : ∀ property, layers.merged.get? property = request.layers.merged.get? property)
    (hspec : request.expandedSpec = .ok spec) :
    ∃ other, { request with layers := layers }.expandedSpec = .ok other ∧
      ∀ property, other.get? property = spec.get? property := by
  rw [Request.expandedSpec_eq_expand] at hspec ⊢
  exact Shorthands.expand_of_get?_eq hspec hsame

theorem Request.exists_compile_eq_ok_of_get?_eq {request : Request} {layers : Layers}
    {fallback : Resolvers} {style : Level}
    (hsame : ∀ property, layers.merged.get? property = request.layers.merged.get? property)
    (hstyle : request.compile fallback = .ok style) :
    ∃ other, { request with layers := layers }.compile fallback = .ok other := by
  obtain ⟨spec, hspec⟩ := Request.exists_expandedSpec hstyle
  obtain ⟨other, hother, hvalues⟩ := Request.expandedSpec_of_get?_eq hsame hspec
  obtain ⟨hanswered, _⟩ := Request.compile_eq_ok hspec hstyle
  rw [Request.compile_of_expandedSpec hother]
  refine Spec.exists_compile_eq_ok_iff.2 ?_
  exact (Spec.events_reordered fun property => (hvalues property).symm).answered hanswered

/-- The order of the properties shows in nothing but the order of keys: with the same values under
the same properties a compilation comes to a style or it does not, and the style holds the same at
every level. No property may have the name of a selector that a live branch goes to; of such a name
it depends on the order whether a literal or a level is there in the end. -/
theorem Request.compile_ignores_order (request : Request) (fallback : Resolvers) (layers : Layers)
    (hsame : ∀ property, layers.merged.get? property = request.layers.merged.get? property) :
    ((∃ other, { request with layers := layers }.compile fallback = .ok other) ↔
      ∃ style, request.compile fallback = .ok style) ∧
    ∀ spec style other, request.expandedSpec = .ok spec →
      request.compile fallback = .ok style →
      { request with layers := layers }.compile fallback = .ok other →
      (∀ property ∈ spec.keys, ∀ entry ∈ spec.pairs, ∀ path part,
        entry.2.Live (request.context fallback) path part → property ∉ path) →
      style.Reordered other := by
  refine ⟨⟨?_, ?_⟩, ?_⟩
  · rintro ⟨other, hother⟩
    exact @Request.exists_compile_eq_ok_of_get?_eq { request with layers := layers } request.layers
      fallback other (fun property => (hsame property).symm) hother
  · rintro ⟨style, hstyle⟩
    exact Request.exists_compile_eq_ok_of_get?_eq hsame hstyle
  · intro spec style other hspec hstyle hother hapart
    obtain ⟨otherSpec, hotherSpec, hvalues⟩ := Request.expandedSpec_of_get?_eq hsame hspec
    obtain ⟨hanswered, rfl⟩ := Request.compile_eq_ok hspec hstyle
    obtain ⟨_, rfl⟩ := Request.compile_eq_ok hotherSpec hother
    exact Level.replay_reordered
      (Spec.events_reordered fun property => (hvalues property).symm) hanswered
      (Spec.events_apart hapart)

def Request.linkReversed : Request :=
  { link with layers := .one (.ofPairs link.layers.merged.pairs.reverse) }

theorem Request.get?_linkReversed (property : String) :
    linkReversed.layers.merged.get? property = link.layers.merged.get? property :=
  Table.perm_pairs_iff.1 (List.reverse_perm link.layers.merged.pairs) property

theorem Request.link_ignores_order :
    ∃ style other, link.compile Resolvers.builtin = .ok style ∧
      linkReversed.compile Resolvers.builtin = .ok other ∧
      (∀ property, linkReversed.layers.merged.get? property = link.layers.merged.get? property) ∧
      (∀ property ∈ link.layers.merged.keys, ∀ entry ∈ link.layers.merged.pairs, ∀ path part,
        entry.2.Live (link.context Resolvers.builtin) path part → property ∉ path) ∧
      style.Reordered other ∧
      (style.descend? [".card:hover &"]).map Level.keys =
        some [".card:focus &", "color", "border"] ∧
      (other.descend? [".card:hover &"]).map Level.keys =
        some ["border", ".card:focus &", "color"] := by
  have hapart := @Spec.not_mem_of_live (link.context Resolvers.builtin) link.layers.merged
    (by decide)
  obtain ⟨hok, hreordered⟩ := Request.compile_ignores_order link Resolvers.builtin
    linkReversed.layers get?_linkReversed
  obtain ⟨other, hother⟩ := hok.2 ⟨_, rfl⟩
  exact ⟨_, other, rfl, hother, get?_linkReversed, hapart,
    hreordered _ _ _ rfl rfl hother hapart, rfl, Except.ok.inj hother ▸ rfl⟩

end StyleTree
