import StyleTree.Level.Lemmas

/-!
What stands where in a style. A position is a path of keys: selectors lead from level to level, and
the last key may also be that of a literal. Nothing stands behind a literal.
-/

namespace StyleTree

inductive Finding
  | level
  | literal (value : Literal)

namespace Entry

def finding : Entry → Finding
  | literal value => .literal value
  | nested _ => .level

/-- What stands at the end of a path of keys that starts at the entry. -/
def find? : Entry → List String → Option Finding
  | entry, [] => some entry.finding
  | literal _, _ :: _ => none
  | nested entries, key :: path => (entries.lookup key).bind (·.find? path)

/-- No key occurs twice at any depth. -/
inductive Distinct : Entry → Prop
  | literal (value : Literal) : Distinct (.literal value)
  | nested {entries : List (String × Entry)} (hkeys : (Pairs.keys entries).Nodup)
      (hentries : ∀ e ∈ entries, Distinct e.2) : Distinct (.nested entries)

end Entry

namespace Level

def find? (level : Level) (path : List String) : Option Finding :=
  (Entry.nested level.entries).find? path

def Distinct (level : Level) : Prop := (Entry.nested level.entries).Distinct

/-- The second level stands in the first one, at the end of a path of selectors. -/
inductive Inside : Level → List String → Level → Prop
  | self (level : Level) : Inside level [] level
  | nested {level inner : Level} {selector : String} {entries : List (String × Entry)}
      {path : List String} (hmem : (selector, .nested entries) ∈ level.entries)
      (hinside : Inside ⟨entries⟩ path inner) : Inside level (selector :: path) inner

@[simp] theorem find?_nil (level : Level) : level.find? [] = some .level := rfl

theorem find?_empty {path : List String} (h : path ≠ []) : (∅ : Level).find? path = none := by
  cases path with
  | nil => exact absurd rfl h
  | cons key path => rfl

theorem find?_cons (level : Level) (key : String) (path : List String) :
    level.find? (key :: path) = (level.get? key).bind (·.find? path) := rfl

/-! ### Writing and positions -/

theorem find?_set (level : Level) (property : String) (value : Literal) (key : String)
    (path : List String) :
    (level.set property value).find? (key :: path) =
      if key = property then (Entry.literal value).find? path else level.find? (key :: path) := by
  rw [find?_cons, find?_cons, get?_set]
  split <;> rfl

theorem find?_nest (level : Level) (selector : String) (inner : Level) (key : String)
    (path : List String) :
    (level.nest selector inner).find? (key :: path) =
      if key = selector then inner.find? path else level.find? (key :: path) := by
  rw [find?_cons, find?_cons, get?_nest]
  split <;> rfl

theorem find?_under (level : Level) (selector key : String) (path : List String) :
    (level.under selector).find? (key :: path) = level.find? (selector :: key :: path) := by
  rw [find?_cons level, under, nested?]
  cases level.get? selector with
  | none => rfl
  | some entry => cases entry <;> rfl

theorem find?_eq_level_iff {level : Level} {path : List String} :
    level.find? path = some .level ↔ (level.descend? path).isSome := by
  induction path generalizing level with
  | nil => simp
  | cons key path ih =>
      rw [find?_cons, descend?_cons, nested?]
      cases level.get? key with
      | none => simp
      | some entry =>
          cases entry with
          | literal value => cases path <;> simp [Entry.find?, Entry.finding, Entry.level?]
          | nested entries => exact ih

/-! ### Keys without repetition -/

section

variable {level inner : Level}

theorem Distinct.keys (h : level.Distinct) : level.keys.Nodup := by
  cases h with
  | nested hkeys _ => exact hkeys

theorem Distinct.of_mem (h : level.Distinct) {e : String × Entry} (he : e ∈ level.entries) :
    e.2.Distinct := by
  cases h with
  | nested _ hentries => exact hentries e he

theorem distinct_empty : (∅ : Level).Distinct :=
  .nested List.nodup_nil fun _ h => absurd h List.not_mem_nil

theorem Distinct.insert (h : level.Distinct) (key : String) {entry : Entry}
    (hentry : entry.Distinct) : Distinct ⟨Pairs.insert key entry level.entries⟩ := by
  refine .nested (Pairs.nodup_keys_insert key entry h.keys) fun e he => ?_
  rcases Pairs.mem_of_mem_insert he with rfl | he
  · exact hentry
  · exact h.of_mem he

theorem Distinct.set (h : level.Distinct) (property : String) (value : Literal) :
    (level.set property value).Distinct :=
  h.insert property (.literal value)

theorem Distinct.nest (h : level.Distinct) (selector : String) (hinner : inner.Distinct) :
    (level.nest selector inner).Distinct :=
  h.insert selector hinner

theorem Distinct.under (h : level.Distinct) (selector : String) :
    (level.under selector).Distinct := by
  rw [Level.under]
  cases hfound : level.nested? selector with
  | none => exact distinct_empty
  | some inner => exact h.of_mem (Pairs.mem_of_lookup (nested?_eq_some_iff.1 hfound))

theorem Distinct.inside (h : level.Distinct) {path : List String}
    (hinside : level.Inside path inner) :
    inner.Distinct := by
  induction hinside with
  | self => exact h
  | nested hmem _ ih => exact ih (h.of_mem hmem)

/-- Where keys are distinct, every entry is found at its position. -/
theorem Distinct.find?_of_mem (h : level.Distinct) {path : List String}
    (hinside : level.Inside path inner) {e : String × Entry} (he : e ∈ inner.entries) :
    level.find? (path ++ [e.1]) = some e.2.finding := by
  induction hinside with
  | self level =>
      rw [List.nil_append, find?_cons, get?, (Pairs.lookup_eq_some_iff h.keys).2 he]
      rfl
  | @nested level inner selector entries path hmem hinside ih =>
      have hlookup : level.get? selector = some (.nested entries) :=
        (Pairs.lookup_eq_some_iff h.keys).2 hmem
      rw [List.cons_append, find?_cons, hlookup]
      exact ih (h.of_mem hmem) he

end

end Level

end StyleTree
