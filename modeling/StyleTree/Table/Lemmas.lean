import StyleTree.Table.Basic

/-!
What the operations on tables do to the two views of a table: its names in order, and the value
under each name. Two tables are equal if they have the same names in the same order and the same
value under each name.
-/

namespace StyleTree

universe u

/-! ### Names without repetition -/

theorem nodup_eraseDups (names : List String) : names.eraseDups.Nodup := by
  match names with
  | [] => exact List.nodup_nil
  | name :: names =>
      rw [List.eraseDups_cons, List.nodup_cons]
      refine ⟨fun h => ?_, nodup_eraseDups _⟩
      simpa using List.mem_eraseDups.1 h
termination_by names.length
decreasing_by exact Nat.lt_succ_of_le (List.length_filter_le _ _)

theorem eraseDups_of_nodup {names : List String} (h : names.Nodup) : names.eraseDups = names := by
  induction names with
  | nil => rfl
  | cons name names ih =>
      rw [List.nodup_cons] at h
      have hall : names.filter (fun other => !other == name) = names :=
        List.filter_eq_self.2 fun other hother => bne_iff_ne.2 fun heq => h.1 (heq ▸ hother)
      rw [List.eraseDups_cons, hall, ih h.2]

theorem eraseDups_perm {names others : List String} (h : names.Perm others) :
    names.eraseDups.Perm others.eraseDups := by
  rw [List.perm_ext_iff_of_nodup (nodup_eraseDups names) (nodup_eraseDups others)]
  intro name
  rw [List.mem_eraseDups, List.mem_eraseDups, h.mem_iff]

namespace Pairs

variable {α : Type u}

theorem lookup_cons (k : String) (p : String × α) (ps : Pairs α) :
    List.lookup k (p :: ps) = if k = p.1 then some p.2 else List.lookup k ps := by
  obtain ⟨k', a⟩ := p
  by_cases h : k = k'
  · simp [h]
  · simp [List.lookup_cons, beq_false_of_ne h, h]

theorem lookup_eq_none_iff {k : String} {ps : Pairs α} :
    ps.lookup k = none ↔ k ∉ keys ps := by
  rw [List.lookup_eq_none_iff]
  constructor
  · intro h hk
    obtain ⟨p, hp, rfl⟩ := List.mem_map.1 hk
    exact bne_iff_ne.1 (h p hp) rfl
  · intro h p hp
    exact bne_iff_ne.2 fun heq => h (heq ▸ List.mem_map_of_mem hp)

theorem isSome_lookup_iff {k : String} {ps : Pairs α} : (ps.lookup k).isSome ↔ k ∈ keys ps := by
  rw [Option.isSome_iff_ne_none, ne_eq, lookup_eq_none_iff, Decidable.not_not]

theorem exists_lookup_of_mem {k : String} {ps : Pairs α} (h : k ∈ keys ps) :
    ∃ a, ps.lookup k = some a :=
  Option.isSome_iff_exists.1 (isSome_lookup_iff.2 h)

theorem mem_keys_of_lookup {k : String} {a : α} {ps : Pairs α} (h : ps.lookup k = some a) :
    k ∈ keys ps :=
  isSome_lookup_iff.1 (Option.isSome_of_eq_some h)

theorem mem_of_lookup {k : String} {a : α} {ps : Pairs α} (h : ps.lookup k = some a) :
    (k, a) ∈ ps := by
  obtain ⟨before, after, rfl, -⟩ := List.lookup_eq_some_iff.1 h
  exact List.mem_append_right _ List.mem_cons_self

theorem mem_keys_of_mem {p : String × α} {ps : Pairs α} (h : p ∈ ps) : p.1 ∈ keys ps :=
  List.mem_map_of_mem h

theorem lookup_eq_some_iff {k : String} {a : α} {ps : Pairs α} (hn : (keys ps).Nodup) :
    ps.lookup k = some a ↔ (k, a) ∈ ps := by
  refine ⟨mem_of_lookup, fun h => ?_⟩
  induction ps with
  | nil => simp at h
  | cons p ps ih =>
      rw [keys_cons, List.nodup_cons] at hn
      rcases List.mem_cons.1 h with rfl | h
      · simp
      · have hk : k ≠ p.1 := fun e => hn.1 (e ▸ mem_keys_of_mem h)
        simp [lookup_cons, hk, ih hn.2 h]

theorem lookup_insert (k x : String) (a : α) (ps : Pairs α) :
    (insert k a ps).lookup x = if x = k then some a else ps.lookup x := by
  induction ps with
  | nil => simp [insert, lookup_cons]
  | cons p ps ih =>
      obtain ⟨k', a'⟩ := p
      by_cases hk : k' = k
      · by_cases h : x = k <;> simp [insert, lookup_cons, hk, h]
      · by_cases h : x = k'
        · simp [insert, hk, h]
        · simp [insert, lookup_cons, hk, h, ih]

@[simp] theorem lookup_insert_self (k : String) (a : α) (ps : Pairs α) :
    (insert k a ps).lookup k = some a := by
  simp [lookup_insert]

theorem lookup_insert_of_ne {k x : String} (a : α) (ps : Pairs α) (h : x ≠ k) :
    (insert k a ps).lookup x = ps.lookup x := by
  simp [lookup_insert, h]

theorem erase_cons (k : String) (p : String × α) (ps : Pairs α) :
    erase k (p :: ps) = if p.1 = k then erase k ps else p :: erase k ps := by
  by_cases hk : p.1 = k <;> simp [erase, hk]

theorem lookup_erase (k x : String) (ps : Pairs α) :
    (erase k ps).lookup x = if x = k then none else ps.lookup x := by
  induction ps with
  | nil => simp [erase]
  | cons p ps ih =>
      by_cases hk : p.1 = k
      · by_cases h : x = k
        · rw [erase_cons, if_pos hk, ih, if_pos h, if_pos h]
        · rw [erase_cons, if_pos hk, ih, if_neg h, if_neg h, lookup_cons,
            if_neg (hk ▸ h)]
      · rw [erase_cons, if_neg hk, lookup_cons, ih, lookup_cons]
        by_cases h : x = p.1
        · simp [h, hk]
        · simp [h]

/-- Of two values written under a name only the second one counts. -/
@[simp] theorem insert_insert_self (k : String) (a b : α) (ps : Pairs α) :
    insert k b (insert k a ps) = insert k b ps := by
  induction ps with
  | nil => simp [insert]
  | cons p ps ih =>
      obtain ⟨k', a'⟩ := p
      by_cases hk : k' = k <;> simp [insert, hk, ih]

/-- Writing the value that is there changes nothing. -/
theorem insert_lookup {k : String} {a : α} {ps : Pairs α} (h : ps.lookup k = some a) :
    insert k a ps = ps := by
  induction ps with
  | nil => simp at h
  | cons p ps ih =>
      obtain ⟨k', a'⟩ := p
      rw [lookup_cons] at h
      by_cases hk : k' = k
      · simp_all [insert]
      · simp [insert, hk, ih (by simpa [Ne.symm hk] using h)]

theorem insert_of_not_mem {k : String} (a : α) {ps : Pairs α} (h : k ∉ keys ps) :
    insert k a ps = ps ++ [(k, a)] := by
  induction ps with
  | nil => rfl
  | cons p ps ih =>
      obtain ⟨k', a'⟩ := p
      simp only [keys_cons, List.mem_cons, not_or] at h
      simp [insert, Ne.symm h.1, ih h.2]

/-- Writing under two names commutes if the second one is there already. -/
theorem insert_comm_of_mem {k l : String} (a b : α) {ps : Pairs α} (hkl : k ≠ l)
    (hl : l ∈ keys ps) : insert k a (insert l b ps) = insert l b (insert k a ps) := by
  induction ps with
  | nil => simp at hl
  | cons p ps ih =>
      obtain ⟨k', a'⟩ := p
      by_cases hk : k' = k
      · subst hk
        simp [insert, hkl]
      · by_cases hl' : k' = l
        · subst hl'
          simp [insert, hk]
        · have hmem : l ∈ keys ps := by simpa [Ne.symm hl'] using hl
          simp [insert, hk, hl', ih hmem]

/-- Writing under two names commutes if one of them is there already, and only then: two new names
stand in the order in which they are written. -/
theorem insert_comm_iff {k l : String} (a b : α) {ps : Pairs α} (hkl : k ≠ l) :
    insert k a (insert l b ps) = insert l b (insert k a ps) ↔ k ∈ keys ps ∨ l ∈ keys ps := by
  constructor
  · -- If neither is there, the names of the two sides end differently.
    refine fun h => Decidable.byContradiction fun hnone => ?_
    rw [not_or] at hnone
    have hkl' : k ∉ keys (insert l b ps) := by simp [mem_keys_insert, hkl, hnone.1]
    have hlk' : l ∉ keys (insert k a ps) := by simp [mem_keys_insert, hkl.symm, hnone.2]
    have hkeys := congrArg keys h
    rw [keys_insert_of_not_mem a hkl', keys_insert_of_not_mem b hnone.2,
      keys_insert_of_not_mem b hlk', keys_insert_of_not_mem a hnone.1, List.append_assoc,
      List.append_assoc, List.append_cancel_left_eq] at hkeys
    exact hkl (List.cons.inj hkeys).1.symm
  · rintro (hk | hl)
    · exact (insert_comm_of_mem b a hkl.symm hk).symm
    · exact insert_comm_of_mem a b hkl hl

/-- The entries under other names are those that were there, each in its place. -/
theorem getElem?_insert_of_ne {k : String} (a : α) (ps : Pairs α) {p : String × α} (h : p.1 ≠ k)
    (i : Nat) : (insert k a ps)[i]? = some p ↔ ps[i]? = some p := by
  have hne (b : α) : (k, b) ≠ p := fun heq => h (congrArg Prod.fst heq).symm
  induction ps generalizing i with
  | nil => cases i <;> simp [insert, hne]
  | cons q ps ih =>
      obtain ⟨k', b⟩ := q
      by_cases hk : k' = k
      · subst hk
        cases i <;> simp [insert, hne]
      · cases i with
        | zero => simp [insert, hk]
        | succ i => simpa [insert, hk] using ih i

theorem getElem?_insert_self {k : String} (a : α) {ps : Pairs α} (hn : (keys ps).Nodup) {i : Nat}
    (h : (keys ps)[i]? = some k) : (insert k a ps)[i]? = some (k, a) := by
  induction ps generalizing i with
  | nil => simp at h
  | cons p ps ih =>
      obtain ⟨k', b⟩ := p
      rw [keys_cons, List.nodup_cons] at hn
      cases i with
      | zero =>
          obtain rfl : k' = k := by simpa using h
          simp [insert]
      | succ i =>
          have htail : (keys ps)[i]? = some k := by simpa using h
          have hk : k' ≠ k := fun heq => hn.1 (heq ▸ List.mem_of_getElem? htail)
          simpa [insert, hk] using ih hn.2 htail

/-- Where the new entries have no name twice, a name takes its value from them if they have it. -/
theorem lookup_extend {ps qs : Pairs α} (hq : (keys qs).Nodup) (x : String) :
    (extend ps qs).lookup x = (qs.lookup x).or (ps.lookup x) := by
  induction qs generalizing ps with
  | nil => simp
  | cons q qs ih =>
      rw [keys_cons, List.nodup_cons] at hq
      rw [extend_cons, ih hq.2, lookup_insert, lookup_cons]
      by_cases h : x = q.1
      · simp [h, lookup_eq_none_iff.2 hq.1]
      · simp [h]

/-- The names of the new entries that were not there follow in order. -/
theorem keys_extend {ps qs : Pairs α} (hq : (keys qs).Nodup) :
    keys (extend ps qs) = keys ps ++ (keys qs).filter (· ∉ keys ps) := by
  induction qs generalizing ps with
  | nil => simp
  | cons q qs ih =>
      rw [keys_cons, List.nodup_cons] at hq
      rw [extend_cons, ih hq.2]
      by_cases h : q.1 ∈ keys ps
      · simp [keys_insert_of_mem _ h, h]
      · have hrest : (keys qs).filter (· ∉ keys ps ++ [q.1]) =
            (keys qs).filter (· ∉ keys ps) := by
          apply List.filter_congr
          intro x hx
          have hne : x ≠ q.1 := fun e => hq.1 (e ▸ hx)
          simp [hne]
        rw [keys_insert_of_not_mem _ h, hrest]
        simp [h]

theorem extend_nil_left {ps : Pairs α} (h : (keys ps).Nodup) : extend [] ps = ps := by
  suffices ∀ acc : Pairs α, (keys (acc ++ ps)).Nodup → extend acc ps = acc ++ ps from
    this [] h
  clear h
  induction ps with
  | nil => simp
  | cons p ps ih =>
      intro acc hacc
      have hp : p.1 ∉ keys acc := by
        simp only [keys, List.map_append, List.map_cons] at hacc ⊢
        exact fun hm => (List.nodup_append.1 hacc).2.2 _ hm _ List.mem_cons_self rfl
      rw [extend_cons, insert_of_not_mem _ hp, ih _ (by simpa using hacc)]
      simp

theorem mem_of_mem_insert {k : String} {a : α} {ps : Pairs α} {p : String × α}
    (h : p ∈ insert k a ps) : p = (k, a) ∨ p ∈ ps := by
  induction ps with
  | nil => exact .inl (List.mem_singleton.1 h)
  | cons q ps ih =>
      rw [insert] at h
      split at h
      · exact (List.mem_cons.1 h).imp_right (List.mem_cons_of_mem _)
      · rcases List.mem_cons.1 h with rfl | h
        · exact .inr List.mem_cons_self
        · exact (ih h).imp_right (List.mem_cons_of_mem _)

theorem mem_of_mem_extend {ps qs : Pairs α} {p : String × α}
    (h : p ∈ extend ps qs) : p ∈ ps ∨ p ∈ qs := by
  induction qs generalizing ps with
  | nil => exact .inl h
  | cons q qs ih =>
      rcases ih h with h | h
      · rcases mem_of_mem_insert h with rfl | h
        · exact .inr List.mem_cons_self
        · exact .inl h
      · exact .inr (List.mem_cons_of_mem _ h)

theorem lookup_map {β : Type u} (f : α → β) (k : String) (ps : Pairs α) :
    (ps.map fun p => (p.1, f p.2)).lookup k = (ps.lookup k).map f := by
  induction ps with
  | nil => rfl
  | cons p ps ih =>
      rw [List.map_cons, lookup_cons, lookup_cons, ih]
      split <;> rfl

/-- Changing names commutes with looking one up if no other name becomes the same. -/
theorem lookup_map_of_iff {β : Type u} {f : String × α → String × β} {k k' : String} {ps : Pairs α}
    (h : ∀ p ∈ ps, (f p).1 = k' ↔ p.1 = k) :
    List.lookup k' (ps.map f) = (ps.lookup k).map fun a => (f (k, a)).2 := by
  induction ps with
  | nil => rfl
  | cons p ps ih =>
      obtain ⟨name, a⟩ := p
      rw [List.forall_mem_cons] at h
      rw [List.map_cons, lookup_cons, lookup_cons, ih h.2]
      by_cases hk : name = k
      · rw [if_pos (h.1.2 hk).symm, if_pos hk.symm, hk]
        rfl
      · rw [if_neg fun heq => hk (h.1.1 heq.symm), if_neg (Ne.symm hk)]

theorem map_insert {β : Type u} {f : String × α → String × β} {k : String} {a : α} {ps : Pairs α}
    (h : ∀ p ∈ ps, (f p).1 = (f (k, a)).1 ↔ p.1 = k) :
    (insert k a ps).map f = insert (f (k, a)).1 (f (k, a)).2 (ps.map f) := by
  induction ps with
  | nil => rfl
  | cons p ps ih =>
      obtain ⟨name, b⟩ := p
      rw [List.forall_mem_cons] at h
      rw [insert, List.map_cons, insert]
      by_cases hk : name = k
      · rw [if_pos hk, if_pos (h.1.2 hk)]
        rfl
      · rw [if_neg hk, if_neg fun heq => hk (h.1.1 heq), List.map_cons, ih h.2]

theorem flatMap_eq_lookup {β : Type u} {ps : Pairs α} (h : (keys ps).Nodup) (k : String)
    (f : α → List β) :
    (ps.flatMap fun p => if p.1 = k then f p.2 else []) = ((ps.lookup k).map f).getD [] := by
  induction ps with
  | nil => rfl
  | cons p ps ih =>
      rw [keys_cons, List.nodup_cons] at h
      rw [List.flatMap_cons, ih h.2, lookup_cons]
      by_cases hk : k = p.1
      · subst hk
        have hnone : ps.lookup p.1 = none := lookup_eq_none_iff.2 h.1
        simp [hnone]
      · simp [hk, Ne.symm hk]

end Pairs

namespace Table

variable {α : Type u}

@[simp] theorem keys_empty : (∅ : Table α).keys = [] := rfl

@[simp] theorem get?_empty (k : String) : (∅ : Table α).get? k = none := rfl

theorem get?_eq_none_iff {t : Table α} {k : String} : t.get? k = none ↔ k ∉ t.keys :=
  Pairs.lookup_eq_none_iff

theorem contains_iff {t : Table α} {k : String} : t.contains k = true ↔ k ∈ t.keys := by
  rw [contains, Option.isSome_iff_ne_none, ne_eq, get?_eq_none_iff, Decidable.not_not]

theorem get?_eq_some_iff {t : Table α} {k : String} {a : α} :
    t.get? k = some a ↔ (k, a) ∈ t.pairs :=
  Pairs.lookup_eq_some_iff t.nodup

theorem keys_map {β : Type u} (f : α → β) (t : Table α) : (t.map f).keys = t.keys := by
  simp [keys, Pairs.keys, Function.comp_def]

theorem get?_map {β : Type u} (f : α → β) (t : Table α) (k : String) :
    (t.map f).get? k = (t.get? k).map f :=
  Pairs.lookup_map f k t.pairs

theorem get?_insert (t : Table α) (k x : String) (a : α) :
    (t.insert k a).get? x = if x = k then some a else t.get? x :=
  Pairs.lookup_insert k x a t.pairs

theorem get?_erase (t : Table α) (k x : String) :
    (t.erase k).get? x = if x = k then none else t.get? x :=
  Pairs.lookup_erase k x t.pairs

theorem get?_merge (t u : Table α) (x : String) :
    (t.merge u).get? x = (u.get? x).or (t.get? x) :=
  Pairs.lookup_extend u.nodup x

theorem keys_insert (t : Table α) (k : String) (a : α) :
    (t.insert k a).keys = if k ∈ t.keys then t.keys else t.keys ++ [k] := by
  split
  · exact Pairs.keys_insert_of_mem a ‹_›
  · exact Pairs.keys_insert_of_not_mem a ‹_›

theorem keys_erase (t : Table α) (k : String) : (t.erase k).keys = t.keys.filter (· != k) :=
  Pairs.keys_erase k t.pairs

theorem keys_merge (t u : Table α) :
    (t.merge u).keys = t.keys ++ u.keys.filter (· ∉ t.keys) :=
  Pairs.keys_extend u.nodup

@[simp] theorem merge_empty (t : Table α) : t.merge ∅ = t := rfl

@[simp] theorem empty_merge (t : Table α) : (∅ : Table α).merge t = t :=
  Table.ext (Pairs.extend_nil_left t.nodup)

/-- A table is determined by its names in order and the value under each name. -/
theorem eq_of_get? {t u : Table α} (hk : t.keys = u.keys) (hv : ∀ k, t.get? k = u.get? k) :
    t = u := by
  apply Table.ext
  have aux : ∀ ps qs : Pairs α, (Pairs.keys ps).Nodup → Pairs.keys ps = Pairs.keys qs →
      (∀ k ∈ Pairs.keys ps, ps.lookup k = qs.lookup k) → ps = qs := by
    intro ps
    induction ps with
    | nil =>
        intro qs _ hk _
        exact (List.map_eq_nil_iff.1 hk.symm).symm
    | cons p ps ih =>
        intro qs hn hk hv
        cases qs with
        | nil => simp at hk
        | cons q qs =>
            obtain ⟨k, a⟩ := p
            obtain ⟨l, b⟩ := q
            simp only [Pairs.keys_cons, List.cons.injEq] at hk
            obtain ⟨rfl, hk⟩ := hk
            rw [Pairs.keys_cons, List.nodup_cons] at hn
            have hab : a = b := by simpa [Pairs.lookup_cons] using hv k (by simp)
            have hrest := ih qs hn.2 hk fun x hx => by
              have hne : x ≠ k := fun e => hn.1 (e ▸ hx)
              have hx' := hv x (by simp [hx])
              simpa [Pairs.lookup_cons, hne] using hx'
            rw [hab, hrest]
  exact aux t.pairs u.pairs t.nodup hk fun k _ => hv k

theorem nodup_pairs (t : Table α) : t.pairs.Nodup :=
  List.Pairwise.of_map Prod.fst (fun _ _ hne heq => hne (congrArg Prod.fst heq)) t.nodup

/-- Two tables have the same value under each name if they have the same entries in any order. -/
theorem perm_pairs_iff {t u : Table α} :
    t.pairs.Perm u.pairs ↔ ∀ k, t.get? k = u.get? k := by
  have hmem (t : Table α) (p : String × α) : p ∈ t.pairs ↔ t.get? p.1 = some p.2 :=
    get?_eq_some_iff.symm
  rw [List.perm_ext_iff_of_nodup t.nodup_pairs u.nodup_pairs]
  constructor
  · intro h k
    ext a
    rw [get?_eq_some_iff, get?_eq_some_iff, h]
  · intro h p
    rw [hmem, hmem, h]

theorem merge_assoc (t u v : Table α) : (t.merge u).merge v = t.merge (u.merge v) := by
  apply eq_of_get?
  · simp only [keys_merge, List.append_assoc, List.filter_append, List.append_cancel_left_eq,
      List.filter_filter]
    apply List.filter_congr
    intro x _
    by_cases hu : x ∈ u.keys <;> by_cases ht : x ∈ t.keys <;> simp [hu, ht]
  · intro k
    simp [get?_merge, Option.or_assoc]

theorem mergeAll_append (ts us : List (Table α)) :
    mergeAll (ts ++ us) = (mergeAll ts).merge (mergeAll us) := by
  have aux : ∀ (us : List (Table α)) (t : Table α), us.foldl merge t = t.merge (mergeAll us) := by
    intro us
    induction us with
    | nil => simp [mergeAll]
    | cons u us ih =>
        intro t
        simp only [mergeAll, List.foldl_cons] at ih ⊢
        rw [ih (t.merge u), ih ((∅ : Table α).merge u), empty_merge, merge_assoc]
  rw [mergeAll, List.foldl_append, aux]
  rfl

@[simp] theorem mergeAll_singleton (t : Table α) : mergeAll [t] = t := empty_merge t

theorem mergeAll_cons (t : Table α) (ts : List (Table α)) :
    mergeAll (t :: ts) = t.merge (mergeAll ts) := by
  have happend := mergeAll_append [t] ts
  rwa [mergeAll_singleton] at happend

theorem mem_of_mem_mergeAll {ts : List (Table α)} {p : String × α}
    (h : p ∈ (mergeAll ts).pairs) : ∃ t ∈ ts, p ∈ t.pairs := by
  induction ts with
  | nil => cases h
  | cons t ts ih =>
      rw [mergeAll_cons, pairs_merge] at h
      rcases Pairs.mem_of_mem_extend h with h | h
      · exact ⟨t, List.mem_cons_self, h⟩
      · obtain ⟨u, hu, hp⟩ := ih h
        exact ⟨u, List.mem_cons_of_mem _ hu, hp⟩

end Table

end StyleTree
