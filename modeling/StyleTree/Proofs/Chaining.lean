import Mathlib.Data.List.Nodup
import StyleTree.Proofs.Expansion

/-!
How the expansions of a table feed each other. What one of them makes is expanded again by those
that come later and by no others. Where none makes a property of the table and no two make the same
property, each is called with a value of the original specification and adds properties of its own,
so their order shows only in the order of what they add. Where each makes only what later ones take
out again, one pass through the table leaves nothing to expand.
-/

namespace StyleTree.Shorthands

/-- What an entry of the table makes of the value that its property has in the specification.
Without a value or without an answer it makes nothing. -/
def outputOf (theme : Theme) (spec : Spec) (entry : String × Shorthand) : Spec :=
  match spec.get? entry.1 with
  | none => ∅
  | some value =>
      match entry.2 value theme with
      | .ok output => output
      | .error _ => ∅

/-- On the values of the specification no entry makes a property of the table, and no two entries
make the same property. -/
structure Independent (table : Shorthands) (spec : Spec) (theme : Theme) : Prop where
  outside : ∀ entry ∈ table.pairs, ∀ name ∈ (outputOf theme spec entry).keys, name ∉ table.keys
  disjoint : ∀ entry ∈ table.pairs, ∀ other ∈ table.pairs, entry.1 ≠ other.1 →
    ∀ name ∈ (outputOf theme spec entry).keys, name ∉ (outputOf theme spec other).keys

/-- Whatever value and theme it is called with, an entry makes only properties outside the table and
properties of entries that come after it. -/
def Forward (table : Shorthands) : Prop :=
  ∀ (earlier : Pairs Shorthand) (entry : String × Shorthand) (later : Pairs Shorthand),
    table.pairs = earlier ++ entry :: later →
      ∀ value theme output, entry.2 value theme = .ok output →
        ∀ name ∈ output.keys, name ∉ table.keys ∨ name ∈ Pairs.keys later

/-- What entries make that the specification does not have, in the order of the entries. -/
def added (theme : Theme) (spec : Spec) (table : Pairs Shorthand) : List String :=
  (table.flatMap fun entry => (outputOf theme spec entry).keys).filter fun name => name ∉ spec.keys

/-! ### Turns that leave the rest of the table alone -/

section

variable {theme : Theme} {property : String} {shorthand : Shorthand} {spec next : Spec}
  {turn : Turn}

theorem exists_takes
    (hanswer : ∀ value, spec.get? property = some value →
      ∃ output, shorthand value theme = .ok output) :
    ∃ turn next, Takes theme property shorthand spec turn next := by
  cases hvalue : spec.get? property with
  | none => exact ⟨.idle, spec, .idle hvalue⟩
  | some value =>
      obtain ⟨output, houtput⟩ := hanswer value hvalue
      exact ⟨.run value output, _, .run hvalue houtput⟩

theorem Takes.output_eq (h : Takes theme property shorthand spec turn next) :
    turn.output = outputOf theme spec (property, shorthand) := by
  cases h with
  | idle hmissing => simp only [Turn.output, outputOf, hmissing]
  | run hvalue houtput => simp only [Turn.output, outputOf, hvalue, houtput]

theorem Takes.exists_answer (h : Takes theme property shorthand spec turn next) {value : Value}
    (hvalue : spec.get? property = some value) : ∃ output, shorthand value theme = .ok output := by
  cases h with
  | idle hmissing =>
      rw [hmissing] at hvalue
      cases hvalue
  | run hown houtput =>
      rw [hown] at hvalue
      obtain rfl := Option.some.inj hvalue
      exact ⟨_, houtput⟩

theorem Takes.get?_of_outside (h : Takes theme property shorthand spec turn next)
    {names : List String} (hown : property ∉ names)
    (houtside : ∀ name ∈ turn.output.keys, name ∉ names) {name : String} (hname : name ∈ names) :
    next.get? name = spec.get? name := by
  have hnone : turn.output.get? name = none :=
    Table.get?_eq_none_iff.2 fun hmem => houtside name hmem hname
  have hne : name ≠ property := fun heq => hown (heq ▸ hname)
  rw [h.get?_eq, hnone, if_neg hne, Option.none_or]

theorem Takes.not_mem_keys (h : Takes theme property shorthand spec turn next)
    {gone : List String} (hgone : ∀ name ∈ gone, name ∉ spec.keys)
    (hmakes : ∀ name ∈ turn.output.keys, name ∉ gone ++ [property]) :
    ∀ name ∈ gone ++ [property], name ∉ next.keys := by
  intro name hname hmem
  rw [h.keys_eq, List.mem_append, List.mem_filter, List.mem_filter, bne_iff_ne] at hmem
  rcases hmem with ⟨hspec, hne⟩ | ⟨houtput, _⟩
  · rcases List.mem_append.1 hname with hname | hname
    · exact hgone name hname hspec
    · exact hne (List.mem_singleton.1 hname)
  · exact hmakes name houtput hname

end

/-! ### Independent entries -/

section

variable {theme : Theme} {table : Pairs Shorthand} {spec result : Spec} {turns : List Turn}

theorem outputOf_congr {other : Spec} {entry : String × Shorthand}
    (h : other.get? entry.1 = spec.get? entry.1) :
    outputOf theme other entry = outputOf theme spec entry := by
  rw [outputOf, outputOf, h]

/-- After a turn that makes no property of the table, the rest of the table finds the values that it
would have found before, and makes of them what it would have made. -/
theorem Takes.rest {property : String} {shorthand : Shorthand} {next : Spec} {turn : Turn}
    (h : Takes theme property shorthand spec turn next)
    (hnodup : (Pairs.keys ((property, shorthand) :: table)).Nodup)
    (houtside : ∀ entry ∈ (property, shorthand) :: table,
      ∀ name ∈ (outputOf theme spec entry).keys,
        name ∉ Pairs.keys ((property, shorthand) :: table)) :
    (∀ entry ∈ table, next.get? entry.1 = spec.get? entry.1) ∧
      ∀ entry ∈ table, ∀ name ∈ (outputOf theme next entry).keys, name ∉ Pairs.keys table := by
  rw [Pairs.keys_cons, List.nodup_cons] at hnodup
  rw [List.forall_mem_cons, Pairs.keys_cons] at houtside
  have hsame : ∀ entry ∈ table, next.get? entry.1 = spec.get? entry.1 := by
    intro entry hentry
    refine h.get?_of_outside hnodup.1 ?_ (Pairs.mem_keys_of_mem hentry)
    intro name hname hmem
    exact houtside.1 name (h.output_eq ▸ hname) (List.mem_cons_of_mem _ hmem)
  refine ⟨hsame, fun entry hentry name hname hmem => ?_⟩
  rw [outputOf_congr (hsame entry hentry)] at hname
  exact houtside.2 entry hentry name hname (List.mem_cons_of_mem _ hmem)

/-- Where no entry makes a property of the table, each entry makes at its turn what it would make of
the original specification. -/
theorem Expands.map_output (h : Expands theme table spec turns result)
    (hnodup : (Pairs.keys table).Nodup)
    (houtside : ∀ entry ∈ table, ∀ name ∈ (outputOf theme spec entry).keys,
      name ∉ Pairs.keys table) :
    turns.map Turn.output = table.map (outputOf theme spec) := by
  induction h with
  | nil spec => rfl
  | cons hturn _ ih =>
      obtain ⟨hsame, hrest⟩ := hturn.rest hnodup houtside
      rw [List.map_cons, List.map_cons, hturn.output_eq, ih (List.nodup_cons.1 hnodup).2 hrest,
        List.map_congr_left fun entry hentry => outputOf_congr (hsame entry hentry)]

/-- Where no entry makes a property of the table, the pass succeeds if and only if every entry has
an answer for the original specification. -/
theorem exists_expands_iff (hnodup : (Pairs.keys table).Nodup)
    (houtside : ∀ entry ∈ table, ∀ name ∈ (outputOf theme spec entry).keys,
      name ∉ Pairs.keys table) :
    (∃ result turns, Expands theme table spec turns result) ↔
      ∀ entry ∈ table, ∀ value, spec.get? entry.1 = some value →
        ∃ output, entry.2 value theme = .ok output := by
  induction table generalizing spec with
  | nil => exact ⟨fun _ _ h => absurd h List.not_mem_nil, fun _ => ⟨spec, [], .nil spec⟩⟩
  | cons entry table ih =>
      obtain ⟨property, shorthand⟩ := entry
      have hlater {turn : Turn} {next : Spec}
          (hturn : Takes theme property shorthand spec turn next) :
          (∃ result turns, Expands theme table next turns result) ↔
            ∀ entry ∈ table, ∀ value, spec.get? entry.1 = some value →
              ∃ output, entry.2 value theme = .ok output := by
        obtain ⟨hsame, hrest⟩ := hturn.rest hnodup houtside
        rw [ih (List.nodup_cons.1 hnodup).2 hrest]
        refine forall₂_congr fun entry hentry => ?_
        rw [hsame entry hentry]
      rw [List.forall_mem_cons]
      constructor
      · rintro ⟨result, _, hexpands⟩
        cases hexpands with
        | cons hturn hexpands =>
            exact ⟨fun value => hturn.exists_answer, (hlater hturn).1 ⟨_, _, hexpands⟩⟩
      · rintro ⟨hfirst, hothers⟩
        obtain ⟨turn, next, hturn⟩ := exists_takes hfirst
        obtain ⟨result, turns, hexpands⟩ := (hlater hturn).2 hothers
        exact ⟨result, turn :: turns, .cons hturn hexpands⟩

theorem Expands.made_eq (h : Expands theme table spec turns result)
    (houtside : ∀ turn ∈ turns, ∀ name ∈ turn.output.keys, name ∉ Pairs.keys table) :
    made table turns = turns.flatMap fun turn => turn.output.keys := by
  induction h with
  | nil spec => rfl
  | @cons property shorthand table turn turns _ _ _ _ _ ih =>
      rw [List.forall_mem_cons, Pairs.keys_cons] at houtside
      have hall : (turn.output.keys.filter fun name => name ∉ Pairs.keys table) =
          turn.output.keys :=
        List.filter_eq_self.2 fun name hname =>
          decide_eq_true fun hmem => houtside.1 name hname (List.mem_cons_of_mem _ hmem)
      rw [made, List.flatMap_cons, hall, ih fun turn hturn name hname hmem =>
        houtside.2 turn hturn name hname (List.mem_cons_of_mem _ hmem)]

theorem Expands.get?_of_mem (h : Expands theme table spec turns result)
    (hnodup : (Pairs.keys table).Nodup) {property : String} (hmem : property ∈ Pairs.keys table)
    (hnone : ∀ turn ∈ turns, property ∉ turn.output.keys) : result.get? property = none := by
  obtain ⟨⟨name, shorthand⟩, hentry, rfl⟩ := List.mem_map.1 hmem
  obtain ⟨i, hi⟩ := List.mem_iff_getElem?.1 hentry
  rw [h.get?_of_getElem? hnodup hi, lastGiven?, List.getLast?_eq_none_iff,
    List.filterMap_eq_nil_iff]
  exact fun turn hturn => Table.get?_eq_none_iff.2 (hnone turn (List.mem_of_mem_drop hturn))

end

section

variable {table other : Shorthands} {spec result : Spec} {theme : Theme}

theorem Independent.pairwise (h : table.Independent spec theme) :
    table.pairs.Pairwise fun entry other =>
      ∀ name ∈ (outputOf theme spec entry).keys, name ∉ (outputOf theme spec other).keys :=
  (List.pairwise_map.1 table.nodup).imp_of_mem fun hentry hother hne =>
    h.disjoint _ hentry _ hother hne

theorem Independent.perm (h : table.Independent spec theme) (hperm : table.pairs.Perm other.pairs) :
    other.Independent spec theme where
  outside entry hentry name hname hmem :=
    h.outside entry (hperm.mem_iff.2 hentry) name hname ((hperm.map Prod.fst).mem_iff.2 hmem)
  disjoint entry hentry other hother :=
    h.disjoint entry (hperm.mem_iff.2 hentry) other (hperm.mem_iff.2 hother)

theorem Independent.exists_expand_iff (h : table.Independent spec theme) :
    (∃ result, table.expand spec theme = .ok result) ↔
      ∀ entry ∈ table.pairs, ∀ value, spec.get? entry.1 = some value →
        ∃ output, entry.2 value theme = .ok output := by
  rw [← exists_expands_iff table.nodup h.outside]
  exact exists_congr fun result => expand_eq_ok_iff

/-- What the turns of independent entries make is what the entries make of the original
specification, and it lies outside the table. -/
theorem Independent.turns (h : table.Independent spec theme) {turns : List Turn}
    (hturns : Expands theme table.pairs spec turns result) :
    turns.map Turn.output = table.pairs.map (outputOf theme spec) ∧
      ∀ turn ∈ turns, ∀ name ∈ turn.output.keys, name ∉ table.keys := by
  have hmap := hturns.map_output table.nodup h.outside
  refine ⟨hmap, fun turn hturn name hname => ?_⟩
  have hmem : turn.output ∈ table.pairs.map (outputOf theme spec) :=
    hmap ▸ List.mem_map_of_mem hturn
  obtain ⟨entry, hentry, heq⟩ := List.mem_map.1 hmem
  exact h.outside entry hentry name (heq ▸ hname)

/-- A property outside the table has the value that an entry makes for it, or else its own. -/
theorem Independent.get?_expand (h : table.Independent spec theme)
    (hresult : table.expand spec theme = .ok result) (property : String) :
    result.get? property =
      if property ∈ table.keys then none
      else
        (table.pairs.filterMap fun entry =>
          (outputOf theme spec entry).get? property).getLast?.or (spec.get? property) := by
  obtain ⟨turns, hturns⟩ := expand_eq_ok_iff.1 hresult
  obtain ⟨hmap, houtside⟩ := h.turns hturns
  split
  · rename_i hmem
    exact hturns.get?_of_mem table.nodup hmem fun turn hturn hname =>
      houtside turn hturn property hname hmem
  · rename_i hnot
    have hgiven : (turns.filterMap fun turn => turn.output.get? property) =
        table.pairs.filterMap fun entry => (outputOf theme spec entry).get? property := by
      have hsame := congrArg (List.filterMap fun output : Spec => output.get? property) hmap
      rwa [List.filterMap_map, List.filterMap_map] at hsame
    rw [hturns.get?_of_not_mem hnot, lastGiven?, hgiven]

/-- First the original properties outside the table, then what the entries add. -/
theorem Independent.keys_expand (h : table.Independent spec theme)
    (hresult : table.expand spec theme = .ok result) :
    result.keys = (spec.keys.filter fun property => property ∉ table.keys) ++
      added theme spec table.pairs := by
  obtain ⟨turns, hturns⟩ := expand_eq_ok_iff.1 hresult
  obtain ⟨hmap, houtside⟩ := h.turns hturns
  have hmade : made table.pairs turns =
      table.pairs.flatMap fun entry => (outputOf theme spec entry).keys := by
    have hsame := congrArg (List.flatMap Table.keys) hmap
    rw [hturns.made_eq houtside]
    rwa [List.flatMap_map, List.flatMap_map] at hsame
  have hnodup : (made table.pairs turns).Nodup := by
    rw [hmade, List.nodup_flatMap]
    exact ⟨fun entry _ => (outputOf theme spec entry).nodup, h.pairwise⟩
  have hfilter : ((made table.pairs turns).filter fun property =>
        property ∉ spec.keys ∨ property ∈ table.keys) = added theme spec table.pairs := by
    rw [hmade]
    refine List.filter_congr fun name hname => ?_
    obtain ⟨entry, hentry, hname⟩ := List.mem_flatMap.1 hname
    have hnot := h.outside entry hentry name hname
    simp [hnot]
  have heq := eraseDups_of_nodup (hnodup.filter fun property =>
    decide (property ∉ spec.keys ∨ property ∈ table.keys))
  rw [hturns.keys_eq]
  exact congrArg _ (heq.trans hfilter)

theorem Independent.filterMap_get?_eq (h : table.Independent spec theme)
    (hperm : table.pairs.Perm other.pairs) (property : String) :
    (table.pairs.filterMap fun entry => (outputOf theme spec entry).get? property) =
      other.pairs.filterMap fun entry => (outputOf theme spec entry).get? property := by
  have hfalse {table : Shorthands} (h : table.Independent spec theme) :
      (table.pairs.filterMap fun entry => (outputOf theme spec entry).get? property).Pairwise
        fun _ _ => False :=
    h.pairwise.filterMap _ fun entry other hdisjoint value hvalue _ hother =>
      hdisjoint property (Pairs.mem_keys_of_lookup hvalue) (Pairs.mem_keys_of_lookup hother)
  exact (hperm.filterMap _).eq_of_pairwise (fun _ _ _ _ hle _ => hle.elim) (hfalse h)
    (hfalse (h.perm hperm))

end

/-- Independent entries can stand in any order. A pass through the table succeeds in one order if it
does in another, and the results have the same values. The properties outside the table stand first,
in their original order, and of the others only the order depends on that of the table. -/
theorem expand_commutes (table other : Shorthands) (spec : Spec) (theme : Theme)
    (hperm : table.pairs.Perm other.pairs) (hindependent : table.Independent spec theme) :
    ((∃ result, table.expand spec theme = .ok result) ↔
      ∃ result, other.expand spec theme = .ok result) ∧
    ∀ result otherResult, table.expand spec theme = .ok result →
      other.expand spec theme = .ok otherResult →
      (∀ property, result.get? property = otherResult.get? property) ∧
      result.keys = (spec.keys.filter fun property => property ∉ table.keys) ++
        added theme spec table.pairs ∧
      otherResult.keys = (spec.keys.filter fun property => property ∉ table.keys) ++
        added theme spec other.pairs ∧
      (added theme spec table.pairs).Perm (added theme spec other.pairs) := by
  have hother := hindependent.perm hperm
  have hmem (property : String) : property ∈ other.keys ↔ property ∈ table.keys :=
    (hperm.map Prod.fst).mem_iff.symm
  refine ⟨?_, fun result otherResult hresult hotherResult => ⟨fun property => ?_,
    hindependent.keys_expand hresult, ?_, (hperm.flatMap_right _).filter _⟩⟩
  · rw [hindependent.exists_expand_iff, hother.exists_expand_iff]
    exact forall_congr' fun entry => by rw [hperm.mem_iff]
  · rw [hindependent.get?_expand hresult, hother.get?_expand hotherResult,
      hindependent.filterMap_get?_eq hperm]
    simp only [hmem]
  · rw [hother.keys_expand hotherResult]
    simp only [hmem]

/-- Two shorthands that have nothing to do with each other, and one that nobody uses. -/
def sides : Shorthands := .ofPairs [
  ("inset", fun value _ => .ok (.ofPairs [("left", value), ("right", value)])),
  ("size", fun value _ => .ok (.ofPairs [("width", value), ("height", value)])),
  ("edge", fun _ _ => .error "no edge")]

def sidesReversed : Shorthands := .ofPairs sides.pairs.reverse

theorem sides_independent : sides.Independent (box ["size", "width", "color", "inset"]) ∅ where
  outside := by decide
  disjoint := by decide

theorem sides_expand_commutes :
    sides.pairs.Perm sidesReversed.pairs ∧
    sides.Independent (box ["size", "width", "color", "inset"]) ∅ ∧
    ∃ result other, sides.expand (box ["size", "width", "color", "inset"]) ∅ = .ok result ∧
      sidesReversed.expand (box ["size", "width", "color", "inset"]) ∅ = .ok other ∧
      (∀ property, result.get? property = other.get? property) ∧
      result.keys = ["width", "color", "left", "right", "height"] ∧
      other.keys = ["width", "color", "height", "left", "right"] := by
  have hperm : sides.pairs.Perm sidesReversed.pairs := (List.reverse_perm sides.pairs).symm
  obtain ⟨hok, hsame⟩ := expand_commutes sides sidesReversed
    (box ["size", "width", "color", "inset"]) ∅ hperm sides_independent
  obtain ⟨other, hother⟩ := hok.1 ⟨_, rfl⟩
  obtain ⟨hget, _, hkeys, _⟩ := hsame _ other rfl hother
  exact ⟨hperm, sides_independent, _, other, rfl, hother, hget, rfl, hkeys⟩

/-! ### Entries that make only what comes later -/

section

variable {theme : Theme} {table : Pairs Shorthand} {spec result : Spec} {turns : List Turn}

theorem Takes.forall_mem_output {property : String} {shorthand : Shorthand} {next : Spec}
    {turn : Turn} (h : Takes theme property shorthand spec turn next) {p : String → Prop}
    (hmakes : ∀ value theme output, shorthand value theme = .ok output →
      ∀ name ∈ output.keys, p name) : ∀ name ∈ turn.output.keys, p name := by
  cases h with
  | idle _ => exact fun _ hname => absurd hname List.not_mem_nil
  | run _ houtput => exact hmakes _ _ _ houtput

/-- If no entry makes a property that is gone, its own property or one of an entry before it, then
what is gone stays away, and after the pass all properties of the table are gone too. -/
theorem Expands.not_mem_keys (h : Expands theme table spec turns result) {gone : List String}
    (hgone : ∀ name ∈ gone, name ∉ spec.keys)
    (hmakes : ∀ (earlier : Pairs Shorthand) (entry : String × Shorthand) (later : Pairs Shorthand),
      table = earlier ++ entry :: later →
        ∀ value theme output, entry.2 value theme = .ok output →
          ∀ name ∈ output.keys, name ∉ gone ++ Pairs.keys earlier ++ [entry.1]) :
    ∀ name ∈ gone ++ Pairs.keys table, name ∉ result.keys := by
  -- Along the pass `gone` grows by the property whose turn it was.
  induction h generalizing gone with
  | nil spec =>
      intro name hname
      exact hgone name (by simpa using hname)
  | @cons property shorthand table _ _ _ _ _ hturn _ ih =>
      have hfirst := hturn.forall_mem_output (hmakes [] (property, shorthand) table rfl)
      rw [Pairs.keys_nil, List.append_nil] at hfirst
      have hrest := ih (hturn.not_mem_keys hgone hfirst)
        fun earlier entry later hsplit value theme output houtput name hname => by
          have hnot := hmakes ((property, shorthand) :: earlier) entry later
            (congrArg _ hsplit) value theme output houtput name hname
          simpa using hnot
      simpa using hrest

theorem foldlM_expandOne_of_not_mem (h : ∀ name ∈ Pairs.keys table, name ∉ spec.keys) :
    table.foldlM (fun spec entry => expandOne theme spec entry.1 entry.2) spec = .ok spec := by
  induction table with
  | nil => rfl
  | cons entry table ih =>
      rw [Pairs.keys_cons, List.forall_mem_cons] at h
      rw [List.foldlM_cons, expandOne_of_get?_none (Table.get?_eq_none_iff.2 h.1)]
      exact ih h.2

end

theorem Forward.not_mem {table : Shorthands} (h : table.Forward) {earlier later : Pairs Shorthand}
    {entry : String × Shorthand} (hsplit : table.pairs = earlier ++ entry :: later) {value : Value}
    {theme : Theme} {output : Spec} (houtput : entry.2 value theme = .ok output) {name : String}
    (hname : name ∈ output.keys) : name ∉ Pairs.keys earlier ++ [entry.1] := by
  have hkeys : table.keys = (Pairs.keys earlier ++ [entry.1]) ++ Pairs.keys later := by
    rw [Table.keys, hsplit]
    simp [Pairs.keys]
  intro hmem
  rcases h earlier entry later hsplit value theme output houtput name hname with hnot | hlater
  · exact hnot (hkeys ▸ List.mem_append_left _ hmem)
  · have hnodup : ((Pairs.keys earlier ++ [entry.1]) ++ Pairs.keys later).Nodup :=
      hkeys ▸ table.nodup
    exact (List.nodup_append.1 hnodup).2.2 name hmem name hlater rfl

/-- One pass is enough for a table whose entries make only what comes later: no property of the
table is left, and another pass, with whatever theme, changes nothing. -/
theorem expand_forward (table : Shorthands) (hforward : table.Forward) (spec result : Spec)
    (theme : Theme) (h : table.expand spec theme = .ok result) :
    (∀ name ∈ table.keys, name ∉ result.keys) ∧
      ∀ other : Theme, table.expand result other = .ok result := by
  obtain ⟨turns, hturns⟩ := expand_eq_ok_iff.1 h
  have hgone : ∀ name ∈ table.keys, name ∉ result.keys :=
    hturns.not_mem_keys (fun _ hname => absurd hname List.not_mem_nil)
      fun _ _ _ hsplit _ _ _ houtput _ hname => hforward.not_mem hsplit houtput hname
  exact ⟨hgone, fun other => foldlM_expandOne_of_not_mem hgone⟩

/-- A size stands for a gap and a width, and a gap for a margin if the theme has a unit. -/
def frames : Shorthands := .ofPairs [
  ("size", fun value _ => .ok (.ofPairs [("gap", value), ("width", value)])),
  ("gap", fun value theme =>
    if theme.contains "unit" then .ok (.ofPairs [("margin", value)]) else .error "no unit")]

theorem frames_forward : frames.Forward := by
  have hsize (value : Value) : (Table.ofPairs [("gap", value), ("width", value)]).keys =
      ["gap", "width"] := rfl
  have hgap (value : Value) : (Table.ofPairs [("margin", value)]).keys = ["margin"] := rfl
  intro earlier entry later hsplit value theme output houtput name hname
  rcases earlier with _ | ⟨_, _ | ⟨_, earlier⟩⟩
  · obtain ⟨rfl, rfl⟩ := List.cons.inj hsplit
    obtain rfl := Except.ok.inj houtput
    rw [hsize] at hname
    revert name
    decide
  · obtain ⟨_, hsplit⟩ := List.cons.inj hsplit
    obtain ⟨rfl, rfl⟩ := List.cons.inj hsplit
    dsimp only at houtput
    split at houtput
    · obtain rfl := Except.ok.inj houtput
      rw [hgap] at hname
      revert name
      decide
    · cases houtput
  · have hlength : 2 = _ := congrArg List.length hsplit
    simp only [List.length_append, List.length_cons] at hlength
    omega

theorem frames_expand_forward :
    frames.Forward ∧ ∃ result,
      frames.expand (box ["gap", "color", "size"]) (.ofPairs [("unit", .string "px")]) =
        .ok result ∧
      result.keys = ["color", "width", "margin"] ∧ (∀ name ∈ frames.keys, name ∉ result.keys) ∧
      frames.expand result ∅ = .ok result := by
  obtain ⟨hgone, hstays⟩ := expand_forward frames frames_forward (box ["gap", "color", "size"]) _
    (.ofPairs [("unit", .string "px")]) rfl
  exact ⟨frames_forward, _, rfl, rfl, hgone, hstays ∅⟩

end StyleTree.Shorthands
