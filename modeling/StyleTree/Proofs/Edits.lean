import Mathlib.Data.List.Basic
import StyleTree.Proofs.Layering

/-!
Tables over whole histories. Whatever is written to a table, taken out of it and laid over it, the
table is in the end what collecting those entries would give that were written and have not been
removed since: its names stand in the order in which these first came up, and each has the last
value that was given to it.
-/

namespace StyleTree

/-! ### Tables collected from entries -/

namespace Pairs

variable {α : Type}

def valuesOf (ps : Pairs α) (name : String) : List α :=
  ps.filterMap fun p => if p.1 = name then some p.2 else none

theorem erase_insert_self (k : String) (a : α) (ps : Pairs α) :
    erase k (insert k a ps) = erase k ps := by
  induction ps with
  | nil => simp [insert, erase]
  | cons p ps ih =>
      obtain ⟨k', a'⟩ := p
      by_cases hk : k' = k
      · simp [insert, erase_cons, hk]
      · simp [insert, erase_cons, hk, ih]

theorem erase_insert_of_ne {k l : String} (h : l ≠ k) (a : α) (ps : Pairs α) :
    erase k (insert l a ps) = insert l a (erase k ps) := by
  induction ps with
  | nil => simp [insert, erase, h]
  | cons p ps ih =>
      obtain ⟨k', a'⟩ := p
      by_cases hl : k' = l
      · simp [insert, erase_cons, hl, h]
      · by_cases hk : k' = k
        · simp [insert, erase_cons, hk, Ne.symm h, ih]
        · simp [insert, erase_cons, hk, hl, ih]

theorem erase_extend (k : String) (ps qs : Pairs α) :
    erase k (extend ps qs) = extend (erase k ps) (erase k qs) := by
  induction qs generalizing ps with
  | nil => rfl
  | cons q qs ih =>
      rw [extend_cons, ih, erase_cons]
      split
      · rename_i hk
        rw [hk, erase_insert_self]
      · rename_i hk
        rw [erase_insert_of_ne hk, extend_cons]

theorem eq_filterMap_keys {ps : Pairs α} (h : (keys ps).Nodup) :
    ps = (keys ps).filterMap fun name => (ps.lookup name).map (name, ·) := by
  rw [keys, List.filterMap_map]
  symm
  refine (List.filterMap_congr fun p hp => ?_).trans List.filterMap_some
  show (ps.lookup p.1).map (p.1, ·) = some p
  rw [(lookup_eq_some_iff h).2 hp]
  rfl

end Pairs

namespace Table

variable {α : Type}

theorem extend_eq_foldl (t : Table α) (ps : Pairs α) :
    t.extend ps = ps.foldl (fun t p => t.insert p.1 p.2) t := by
  induction ps generalizing t with
  | nil => rfl
  | cons p ps ih => exact ih (t.insert p.1 p.2)

theorem ofPairs_eq_mergeAll (ps : Pairs α) :
    ofPairs ps = mergeAll (ps.map fun p => (∅ : Table α).insert p.1 p.2) := by
  rw [ofPairs, mergeAll, List.foldl_map, extend_eq_foldl]
  rfl

theorem keys_ofPairs (ps : Pairs α) : (ofPairs ps).keys = (Pairs.keys ps).eraseDups := by
  rw [ofPairs_eq_mergeAll, keys_mergeAll, List.flatMap_map, Pairs.keys, List.map_eq_flatMap]
  rfl

theorem get?_ofPairs (ps : Pairs α) (name : String) :
    (ofPairs ps).get? name = (ps.valuesOf name).getLast? := by
  rw [ofPairs_eq_mergeAll, get?_mergeAll, List.filterMap_map, Pairs.valuesOf]
  congr 2
  funext p
  rw [Function.comp_apply, get?_insert, get?_empty]
  simp only [eq_comm]

theorem ofPairs_append (ps qs : Pairs α) : ofPairs (ps ++ qs) = (ofPairs ps).extend qs :=
  Table.ext (Pairs.extend_append [] ps qs)

theorem ofPairs_erase (name : String) (ps : Pairs α) :
    ofPairs (Pairs.erase name ps) = (ofPairs ps).erase name :=
  Table.ext (Pairs.erase_extend name [] ps).symm

/-- Writing entries one after the other is laying over the table that they are collected to. -/
theorem extend_eq_merge (t : Table α) (ps : Pairs α) : t.extend ps = t.merge (ofPairs ps) := by
  induction ps generalizing t with
  | nil => rfl
  | cons p ps ih =>
      have hfirst : ofPairs (p :: ps) = ((∅ : Table α).insert p.1 p.2).merge (ofPairs ps) :=
        ih ((∅ : Table α).insert p.1 p.2)
      rw [hfirst, ← merge_assoc]
      exact ih (t.insert p.1 p.2)

end Table

/-! ### Histories -/

namespace Table

variable {α : Type}

/-- What a caller can do to a table. -/
inductive Edit (α : Type)
  | add (name : String) (value : α)
  | insert (name : String) (value : α)
  | remove (name : String)
  | extend (entries : Pairs α)
  | merge (other : Table α)

def edit (t : Table α) : Edit α → Table α
  | .add name value => t.insert name value
  | .insert name value => (t.getThenInsert? name value).2
  | .remove name => (t.getThenErase? name).2
  | .extend entries => t.extend entries
  | .merge other => t.merge other

def edited (edits : List (Edit α)) : Table α := edits.foldl edit ∅

/-- What happens to a single name. -/
inductive Change (α : Type)
  | give (name : String) (value : α)
  | remove (name : String)

/-- The changes of single names that an edit amounts to, in order. -/
def Edit.changes : Edit α → List (Change α)
  | add name value => [.give name value]
  | insert name value => [.give name value]
  | remove name => [.remove name]
  | extend entries => entries.map fun p => .give p.1 p.2
  | merge other => other.pairs.map fun p => .give p.1 p.2

namespace Change

def removes (name : String) : Change α → Bool
  | give _ _ => false
  | remove other => other = name

/-- The entries given since the last removal of their name, in order. -/
def standing : List (Change α) → Pairs α
  | [] => []
  | give name value :: later =>
      if later.any (removes name) then standing later else (name, value) :: standing later
  | remove _ :: later => standing later

def apply (t : Table α) : Change α → Table α
  | give name value => t.insert name value
  | remove name => t.erase name

theorem standing_append_give (changes : List (Change α)) (name : String) (value : α) :
    standing (changes ++ [give name value]) = standing changes ++ [(name, value)] := by
  induction changes with
  | nil => rfl
  | cons change changes ih =>
      cases change with
      | remove other => exact ih
      | give other otherValue =>
          simp only [List.cons_append, standing, ih, List.any_append, List.any_cons, removes,
            List.any_nil, Bool.or_false]
          split <;> rfl

theorem standing_append_remove (changes : List (Change α)) (name : String) :
    standing (changes ++ [remove name]) = Pairs.erase name (standing changes) := by
  induction changes with
  | nil => rfl
  | cons change changes ih =>
      cases change with
      | remove other => exact ih
      | give other value =>
          simp only [List.cons_append, standing, ih, List.any_append, List.any_cons, removes,
            List.any_nil, Bool.or_false]
          by_cases hname : other = name
          · subst hname
            by_cases hlater : changes.any (removes other) <;> simp [hlater, Pairs.erase_cons]
          · by_cases hlater : changes.any (removes other) <;>
              simp [hlater, hname, Ne.symm hname, Pairs.erase_cons]

/-- Of a history of changes only those entries matter that still stand. -/
theorem foldl_apply (changes : List (Change α)) :
    changes.foldl apply ∅ = ofPairs (standing changes) := by
  induction changes using List.reverseRecOn with
  | nil => rfl
  | append_singleton changes change ih =>
      rw [List.foldl_append, List.foldl_cons, List.foldl_nil, ih]
      cases change with
      | give name value => rw [standing_append_give, ofPairs_append]; rfl
      | remove name => rw [standing_append_remove, ofPairs_erase]; rfl

end Change

theorem edit_eq_foldl (t : Table α) (e : Edit α) : t.edit e = e.changes.foldl Change.apply t := by
  cases e with
  | add name value => rfl
  | insert name value => rfl
  | remove name => rfl
  | extend entries => rw [Edit.changes, List.foldl_map]; exact t.extend_eq_foldl entries
  | merge other => rw [Edit.changes, List.foldl_map]; exact t.extend_eq_foldl other.pairs

/-- The entries that the edits gave since the last removal of their name, in order. -/
def given (edits : List (Edit α)) : Pairs α := Change.standing (edits.flatMap Edit.changes)

theorem edited_eq_ofPairs (edits : List (Edit α)) : edited edits = ofPairs (given edits) := by
  rw [given, ← Change.foldl_apply, List.foldl_flatMap, edited]
  congr 1
  funext t e
  exact edit_eq_foldl t e

theorem edited_append (edits others : List (Edit α)) :
    edited (edits ++ others) = others.foldl edit (edited edits) :=
  List.foldl_append

section

variable (edits : List (Edit α))

theorem keys_edited : (edited edits).keys = (Pairs.keys (given edits)).eraseDups := by
  rw [edited_eq_ofPairs, keys_ofPairs]

theorem get?_edited (name : String) :
    (edited edits).get? name = ((given edits).valuesOf name).getLast? := by
  rw [edited_eq_ofPairs, get?_ofPairs]

theorem contains_edited_iff (name : String) :
    (edited edits).contains name = true ↔ name ∈ Pairs.keys (given edits) := by
  rw [contains_iff, keys_edited, List.mem_eraseDups]

theorem size_edited : (edited edits).size = (Pairs.keys (given edits)).eraseDups.length := by
  rw [← keys_edited, keys, Pairs.keys, List.length_map, size]

theorem pairs_edited :
    (edited edits).pairs = (Pairs.keys (given edits)).eraseDups.filterMap fun name =>
      (((given edits).valuesOf name).getLast?).map (name, ·) := by
  simp only [← keys_edited, ← get?_edited]
  exact Pairs.eq_filterMap_keys (edited edits).nodup

theorem keys_edited_remove_add (name : String) (value : α) :
    (edited (edits ++ [.remove name, .add name value])).keys =
      (edited edits).keys.filter (· != name) ++ [name] := by
  have hgone : name ∉ ((edited edits).erase name).keys := by
    rw [keys_erase]
    simp
  rw [← keys_erase, edited_append]
  show (((edited edits).erase name).insert name value).keys = _
  rw [keys_insert, if_neg hgone]

/-- After any edits of the empty table its names are those given since their last removal, in the
order in which they first came up since then, and each has the last value given since then. All
queries, and what insertion and removal hand back, go by this. So a name that is given again keeps
its place, a removal keeps the order of the others, and a name that is given after its removal comes
last. Entries that are written one after the other may as well be collected and laid over. -/
theorem edited_by_history :
    ((edited edits).keys.Nodup ∧
      (edited edits).keys = (Pairs.keys (given edits)).eraseDups) ∧
    (∀ name, (edited edits).get? name = ((given edits).valuesOf name).getLast? ∧
      (∀ value, ((edited edits).getThenInsert? name value).1 =
        ((given edits).valuesOf name).getLast?) ∧
      ((edited edits).getThenErase? name).1 = ((given edits).valuesOf name).getLast? ∧
      ((edited edits).contains name = true ↔ name ∈ Pairs.keys (given edits))) ∧
    (edited edits).size = (Pairs.keys (given edits)).eraseDups.length ∧
    (edited edits).pairs = ((Pairs.keys (given edits)).eraseDups.filterMap fun name =>
      (((given edits).valuesOf name).getLast?).map (name, ·)) ∧
    (∀ name value, (edited (edits ++ [.insert name value])).keys =
      if name ∈ (edited edits).keys then (edited edits).keys else (edited edits).keys ++ [name]) ∧
    (∀ name, (edited (edits ++ [.remove name])).keys = (edited edits).keys.filter (· != name)) ∧
    (∀ name value, (edited (edits ++ [.remove name, .add name value])).keys =
      (edited edits).keys.filter (· != name) ++ [name]) ∧
    (∀ entries, edited (edits ++ [.extend entries]) =
      edited (edits ++ [.merge (ofPairs entries)])) ∧
    ∀ other, edited (edits ++ [.merge other]) = mergeAll [edited edits, other] := by
  refine ⟨⟨(edited edits).nodup, keys_edited edits⟩, fun name => ?_, size_edited edits,
    pairs_edited edits, fun name value => ?_, fun name => ?_, keys_edited_remove_add edits,
    fun entries => ?_, fun other => ?_⟩
  · exact ⟨get?_edited edits name, fun _ => get?_edited edits name, get?_edited edits name,
      contains_edited_iff edits name⟩
  · rw [edited_append]
    exact keys_insert (edited edits) name value
  · rw [edited_append]
    exact keys_erase (edited edits) name
  · rw [edited_append, edited_append]
    exact extend_eq_merge (edited edits) entries
  · rw [edited_append, mergeAll_cons, mergeAll_singleton]
    rfl

end

example : (edited [.add "color" 1, .add "margin" 2, .remove "color", .insert "margin" 3,
    .extend [("color", 4), ("gap", 5), ("color", 6)], .merge (.ofPairs [("margin", 7)])]).pairs =
      [("margin", 7), ("color", 6), ("gap", 5)] := rfl

end Table

end StyleTree
