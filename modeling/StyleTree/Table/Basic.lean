/-!
Named entries in the order in which their names first came up. A name that is written again keeps
its place and takes the new value, and a name that is removed leaves the order of the others
alone. `Pairs` holds these operations for plain lists, which the recursive types of the library
store directly. `Table` adds the fact that no name occurs twice.
-/

namespace StyleTree

universe u

abbrev Pairs (α : Type u) := List (String × α)

namespace Pairs

variable {α : Type u}

def keys (ps : Pairs α) : List String := ps.map Prod.fst

/-- Writes `a` under `k`: in place if the name is there, at the end if it is not. -/
def insert (k : String) (a : α) : Pairs α → Pairs α
  | [] => [(k, a)]
  | (k', a') :: rest => if k' = k then (k, a) :: rest else (k', a') :: insert k a rest

def erase (k : String) (ps : Pairs α) : Pairs α := ps.filter fun p => p.1 != k

def extend (ps qs : Pairs α) : Pairs α := qs.foldl (fun acc p => insert p.1 p.2 acc) ps

/-! ### What the operations do to the names -/

@[simp] theorem keys_nil : keys ([] : Pairs α) = [] := rfl

@[simp] theorem keys_cons (p : String × α) (ps : Pairs α) : keys (p :: ps) = p.1 :: keys ps := rfl

theorem keys_insert_of_mem {k : String} {ps : Pairs α} (a : α) (h : k ∈ keys ps) :
    keys (insert k a ps) = keys ps := by
  induction ps with
  | nil => simp at h
  | cons p ps ih =>
      obtain ⟨k', a'⟩ := p
      by_cases hk : k' = k
      · simp [insert, hk]
      · have hmem : k ∈ keys ps := by simpa [Ne.symm hk] using h
        simp [insert, hk, ih hmem]

theorem keys_insert_of_not_mem {k : String} {ps : Pairs α} (a : α) (h : k ∉ keys ps) :
    keys (insert k a ps) = keys ps ++ [k] := by
  induction ps with
  | nil => rfl
  | cons p ps ih =>
      obtain ⟨k', a'⟩ := p
      simp only [keys_cons, List.mem_cons, not_or] at h
      simp [insert, Ne.symm h.1, ih h.2]

theorem mem_keys_insert {k x : String} {a : α} {ps : Pairs α} :
    x ∈ keys (insert k a ps) ↔ x = k ∨ x ∈ keys ps := by
  by_cases h : k ∈ keys ps
  · rw [keys_insert_of_mem a h]
    exact ⟨Or.inr, fun hx => hx.elim (fun e => e ▸ h) id⟩
  · rw [keys_insert_of_not_mem a h]
    simp [or_comm]

theorem nodup_keys_insert {ps : Pairs α} (k : String) (a : α) (h : (keys ps).Nodup) :
    (keys (insert k a ps)).Nodup := by
  by_cases hk : k ∈ keys ps
  · rwa [keys_insert_of_mem a hk]
  · rw [keys_insert_of_not_mem a hk]
    exact List.nodup_append.2 ⟨h, by simp, by
      intro x hx y hy e
      simp only [List.mem_singleton] at hy
      exact hk (hy ▸ e ▸ hx)⟩

theorem keys_erase (k : String) (ps : Pairs α) :
    keys (erase k ps) = (keys ps).filter (· != k) := by
  simp [keys, erase, List.filter_map, Function.comp_def]

theorem nodup_keys_erase {ps : Pairs α} (k : String) (h : (keys ps).Nodup) :
    (keys (erase k ps)).Nodup := by
  rw [keys_erase]
  exact h.filter _

@[simp] theorem extend_nil (ps : Pairs α) : extend ps [] = ps := rfl

@[simp] theorem extend_cons (ps : Pairs α) (q : String × α) (qs : Pairs α) :
    extend ps (q :: qs) = extend (insert q.1 q.2 ps) qs := rfl

theorem extend_append (ps qs rs : Pairs α) :
    extend ps (qs ++ rs) = extend (extend ps qs) rs := by
  simp [extend, List.foldl_append]

theorem nodup_keys_extend {ps : Pairs α} (qs : Pairs α) (h : (keys ps).Nodup) :
    (keys (extend ps qs)).Nodup := by
  induction qs generalizing ps with
  | nil => exact h
  | cons q qs ih => exact ih (nodup_keys_insert q.1 q.2 h)

end Pairs

/-- Named entries in order, no name occurring twice. -/
@[ext] structure Table (α : Type u) where
  pairs : Pairs α
  nodup : (Pairs.keys pairs).Nodup

namespace Table

variable {α : Type u}

def empty : Table α := ⟨[], List.nodup_nil⟩

instance : EmptyCollection (Table α) := ⟨empty⟩

instance : Inhabited (Table α) := ⟨empty⟩

def keys (t : Table α) : List String := Pairs.keys t.pairs

def size (t : Table α) : Nat := t.pairs.length

def isEmpty (t : Table α) : Bool := t.pairs.isEmpty

def get? (t : Table α) (k : String) : Option α := t.pairs.lookup k

def contains (t : Table α) (k : String) : Bool := (t.get? k).isSome

/-- Writes a value under a name; a name that is there keeps its place. -/
def insert (t : Table α) (k : String) (a : α) : Table α :=
  ⟨Pairs.insert k a t.pairs, Pairs.nodup_keys_insert k a t.nodup⟩

def erase (t : Table α) (k : String) : Table α :=
  ⟨Pairs.erase k t.pairs, Pairs.nodup_keys_erase k t.nodup⟩

def extend (t : Table α) (ps : Pairs α) : Table α :=
  ⟨Pairs.extend t.pairs ps, Pairs.nodup_keys_extend ps t.nodup⟩

/-- The table that a list of entries amounts to: of a repeated name the first place and the last
value count. -/
def ofPairs (ps : Pairs α) : Table α := (∅ : Table α).extend ps

/-- Lays `u` over `t`: names of both take their value from `u` and their place from `t`. -/
def merge (t u : Table α) : Table α := t.extend u.pairs

def mergeAll (ts : List (Table α)) : Table α := ts.foldl merge ∅

def map {β : Type u} (f : α → β) (t : Table α) : Table β :=
  ⟨t.pairs.map fun p => (p.1, f p.2), by
    simpa [Pairs.keys, Function.comp_def] using t.nodup⟩

def getThenInsert? (t : Table α) (k : String) (a : α) : Option α × Table α :=
  (t.get? k, t.insert k a)

def getThenErase? (t : Table α) (k : String) : Option α × Table α :=
  (t.get? k, t.erase k)

@[simp] theorem pairs_empty : (∅ : Table α).pairs = [] := rfl

@[simp] theorem pairs_map {β : Type u} (f : α → β) (t : Table α) :
    (t.map f).pairs = t.pairs.map fun p => (p.1, f p.2) := rfl

@[simp] theorem pairs_insert (t : Table α) (k : String) (a : α) :
    (t.insert k a).pairs = Pairs.insert k a t.pairs := rfl

@[simp] theorem pairs_erase (t : Table α) (k : String) :
    (t.erase k).pairs = Pairs.erase k t.pairs := rfl

@[simp] theorem pairs_extend (t : Table α) (ps : Pairs α) :
    (t.extend ps).pairs = Pairs.extend t.pairs ps := rfl

@[simp] theorem pairs_merge (t u : Table α) :
    (t.merge u).pairs = Pairs.extend t.pairs u.pairs := rfl

end Table

end StyleTree
