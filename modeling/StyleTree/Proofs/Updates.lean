import StyleTree.Compile.Writing
import StyleTree.Level.Positions

/-!
Changes at one key of a level. Writing a literal and working on the level under a selector both read
nothing but what stands under their key, and write nothing but one entry there. So all other entries
stay as they are, each in its place, and what happens at different keys can be done in any order,
unless it brings two new keys: these stand in the order in which they come.
-/

namespace StyleTree

namespace Level

/-- The level that work under a selector has to start from: the one that stands there, or an empty
one if the key is missing or holds a literal. -/
inductive StartsFrom (level : Level) (selector : String) : Level → Prop
  | nested {inner : Level} (h : level.get? selector = some (.nested inner.entries)) :
      StartsFrom level selector inner
  | literal {value : Literal} (h : level.get? selector = some (.literal value)) :
      StartsFrom level selector ∅
  | absent (h : selector ∉ level.keys) : StartsFrom level selector ∅

/-- A level after nothing but one entry was written into it: in the old place of its key, or behind
all others if the key is new. -/
structure WrittenAt (before : Level) (key : String) (entry : Entry) (after : Level) : Prop where
  others (i : Nat) {e : String × Entry} (h : e.1 ≠ key) :
    after.entries[i]? = some e ↔ before.entries[i]? = some e
  kept (i : Nat) (h : before.keys[i]? = some key) : after.entries[i]? = some (key, entry)
  last (h : key ∉ before.keys) : after.entries = before.entries ++ [(key, entry)]
  get?_eq (other : String) :
    after.get? other = if other = key then some entry else before.get? other
  nodup_keys : after.keys.Nodup

def updating {α : Type} (selector : String) (f : StateM Level α) : StateM Level α :=
  fun level => level.modifyUnder selector f

/-- The computations that change a level at one key. -/
inductive ChangesAt (key : String) : {α : Type} → StateM Level α → Prop
  | set (value : Literal) : ChangesAt key (modify (·.set key value))
  | update {α : Type} (f : StateM Level α) : ChangesAt key (updating key f)

/-- What stands under the key, if anything does, decides on the answer and on the entry that is
written there. -/
def atKey {α : Type} (key : String) (turn : Option Entry → α × Entry) : StateM Level α :=
  fun level =>
    let (answer, entry) := turn (level.get? key)
    (answer, ⟨Pairs.insert key entry level.entries⟩)

/-! ### One change -/

section

variable {α : Type} {level : Level} {selector : String}

theorem startsFrom_under (level : Level) (selector : String) :
    level.StartsFrom selector (level.under selector) := by
  rw [under, nested?]
  cases hentry : level.get? selector with
  | none => exact .absent (Pairs.lookup_eq_none_iff.1 hentry)
  | some entry =>
      cases entry with
      | literal value => exact .literal hentry
      | nested entries => exact .nested hentry

theorem startsFrom_iff {start : Level} :
    level.StartsFrom selector start ↔ start = level.under selector := by
  refine ⟨fun h => ?_, fun h => h ▸ startsFrom_under level selector⟩
  rw [under, nested?]
  cases h with
  | nested h => rw [h]; rfl
  | literal h => rw [h]; rfl
  | absent h =>
      have hnone : level.get? selector = none := Pairs.lookup_eq_none_iff.2 h
      rw [hnone]
      rfl

theorem writtenAt_insert (hkeys : level.keys.Nodup) (key : String) (entry : Entry) :
    level.WrittenAt key entry ⟨Pairs.insert key entry level.entries⟩ where
  others i _ h := Pairs.getElem?_insert_of_ne entry level.entries h i
  kept _ h := Pairs.getElem?_insert_self entry hkeys h
  last h := Pairs.insert_of_not_mem entry h
  get?_eq other := Pairs.lookup_insert key other entry level.entries
  nodup_keys := Pairs.nodup_keys_insert key entry hkeys

theorem modifyUnder_of_eq {start : Level} {answer : α} {f : Level → α × Level}
    (hstart : level.nested? selector = some start) (hf : f start = (answer, start)) :
    level.modifyUnder selector f = (answer, level) := by
  have hunder : level.under selector = start := by simp [under, hstart]
  have hnest : level.nest selector start = level :=
    congrArg Level.mk (Pairs.insert_lookup (nested?_eq_some_iff.1 hstart))
  rw [modifyUnder, hunder, hf]
  exact congrArg (answer, ·) hnest

end

/-! ### Two changes -/

section

variable {α β : Type} {key other : String}

theorem updating_updating (selector : String) (f : StateM Level α) (g : StateM Level β) :
    (do let a ← updating selector f; let b ← updating selector g; return (a, b)) =
      updating selector (do let a ← f; let b ← g; return (a, b)) := by
  funext level
  show ((_, ((level.modifyUnder selector f).2.modifyUnder selector g).1),
    ((level.modifyUnder selector f).2.modifyUnder selector g).2) = _
  rw [modifyUnder_modifyUnder]
  rfl

theorem ChangesAt.exists_turn {c : StateM Level α} (h : ChangesAt key c) :
    ∃ turn, c = atKey key turn := by
  cases h with
  | set value => exact ⟨fun _ => ((), .literal value), rfl⟩
  | update f =>
      exact ⟨fun found =>
        let (answer, inner) := f ((found.bind Entry.level?).getD ∅)
        (answer, .nested inner.entries), rfl⟩

/-- Neither of two changes at different keys sees the other one, so their answers do not depend on
the order. -/
theorem run_atKey_atKey {γ : Type} (hne : other ≠ key) (turn : Option Entry → α × Entry)
    (next : Option Entry → β × Entry) (pair : α → β → γ) (level : Level) :
    (do let a ← atKey key turn; let b ← atKey other next; return pair a b : StateM Level γ).run
        level =
      (pair (turn (level.get? key)).1 (next (level.get? other)).1,
        ⟨Pairs.insert other (next (level.get? other)).2
          (Pairs.insert key (turn (level.get? key)).2 level.entries)⟩) := by
  have hother : Level.get? ⟨Pairs.insert key (turn (level.get? key)).2 level.entries⟩ other =
      level.get? other := Pairs.lookup_insert_of_ne _ _ hne
  rw [← hother]
  rfl

theorem ChangesAt.comm_iff {c : StateM Level α} {d : StateM Level β} (hc : ChangesAt key c)
    (hd : ChangesAt other d) (hne : other ≠ key) (level : Level) :
    (do let a ← c; let b ← d; return (a, b) : StateM Level (α × β)).run level =
        (do let b ← d; let a ← c; return (a, b) : StateM Level (α × β)).run level ↔
      key ∈ level.keys ∨ other ∈ level.keys := by
  obtain ⟨turn, rfl⟩ := hc.exists_turn
  obtain ⟨next, rfl⟩ := hd.exists_turn
  -- The answers are the same in any case; what is left is the order of the two entries.
  rw [run_atKey_atKey hne turn next Prod.mk, run_atKey_atKey hne.symm next turn fun b a => (a, b),
    Prod.mk.injEq, Level.mk.injEq, or_comm]
  exact (and_iff_right rfl).trans (Pairs.insert_comm_iff _ _ hne)

end

/-- Work under a selector, in a level without repeated keys. It starts from the level that stands
there, or from an empty one, and its answer is the answer of the whole. What it leaves stands under
the selector, in the old place or behind all others, and nothing else moves or changes; nor does it
show that an empty level holds the place meanwhile. Where the answer is a failure, what was there
and what was written before is still there. Working twice under one selector is working there once,
and changes at two different keys can be exchanged exactly if one of the keys is there already. -/
theorem updates_stay_local {α : Type} (level : Level) (hkeys : level.keys.Nodup)
    (selector : String) (f : StateM Level α) :
    (∃ start, (∀ other, level.StartsFrom selector other ↔ other = start) ∧
      (level.modifyUnder selector f).1 = (f start).1 ∧
      level.WrittenAt selector (.nested (f start).2.entries) (level.modifyUnder selector f).2 ∧
      (level.modifyUnder selector f).2 = (level.nest selector ∅).nest selector (f start).2) ∧
    (level.Distinct → (∀ inner : Level, inner.Distinct → (f inner).2.Distinct) →
      (level.modifyUnder selector f).2.Distinct) ∧
    (∀ start answer, level.nested? selector = some start → f start = (answer, start) →
      level.modifyUnder selector f = (answer, level)) ∧
    (∀ (w : Writing Unit) start error left, level.StartsFrom selector start →
      w.runOn start = (.error error, left) →
        ((Writing.within selector w).runOn level).1 = .error error ∧
        level.WrittenAt selector (.nested left.entries)
          ((Writing.within selector w).runOn level).2) ∧
    (∀ {β : Type} (g : StateM Level β),
      (do let a ← updating selector f; let b ← updating selector g; return (a, b)) =
        updating selector (do let a ← f; let b ← g; return (a, b))) ∧
    ∀ {β γ : Type} (other : String) (c : StateM Level β) (d : StateM Level γ),
      ChangesAt selector c → ChangesAt other d → other ≠ selector →
        ((do let a ← c; let b ← d; return (a, b) : StateM Level (β × γ)).run level =
            (do let b ← d; let a ← c; return (a, b) : StateM Level (β × γ)).run level ↔
          selector ∈ level.keys ∨ other ∈ level.keys) := by
  refine ⟨⟨level.under selector, fun _ => startsFrom_iff, rfl, ?_, ?_⟩, ?_, ?_, ?_, ?_, ?_⟩
  · exact writtenAt_insert hkeys selector _
  · exact (nest_nest_self level selector ∅ _).symm
  · exact fun hdistinct hf => hdistinct.nest selector (hf _ (hdistinct.under selector))
  · exact fun _ _ hstart hf => modifyUnder_of_eq hstart hf
  · intro w start error left hstart hw
    obtain rfl := startsFrom_iff.1 hstart
    rw [Writing.runOn_within, modifyUnder, hw]
    exact ⟨rfl, writtenAt_insert hkeys selector _⟩
  · exact fun g => updating_updating selector f g
  · exact fun _ _ _ hc hd hne => hc.comm_iff hd hne level

def shelf : Level := ⟨[
  ("&:hover", .nested [("color", .literal (.text "red"))]),
  ("&:focus", .literal (.text "on")),
  ("width", .literal (.int 1))]⟩

def fillAndFail : Writing Unit := do
  Writing.set "fill" (.text "blue")
  throw (.themed "fill" "no pattern")

def filled : Level := ⟨[("fill", .literal (.text "blue"))]⟩

theorem shelf_distinct : shelf.Distinct :=
  ((distinct_empty.nest "&:hover" (distinct_empty.set "color" (.text "red"))).set "&:focus"
    (.text "on")).set "width" (.int 1)

/-- The failure under `&:focus` takes the place of the literal there and leaves its colour behind.
The one under `&:hover` changes nothing. The one under `&:active` comes behind all others, and
cannot be exchanged with a new height. -/
theorem shelf_updates_stay_local :
    shelf.keys.Nodup ∧
    (shelf.StartsFrom "&:focus" ∅ ∧
      (shelf.modifyUnder "&:focus" fillAndFail.runOn).1 = .error (.themed "fill" "no pattern") ∧
      shelf.WrittenAt "&:focus" (.nested filled.entries)
        (shelf.modifyUnder "&:focus" fillAndFail.runOn).2 ∧
      (shelf.modifyUnder "&:focus" fillAndFail.runOn).2.Distinct) ∧
    shelf.modifyUnder "&:hover" (fun inner => (Except.error "no pattern", inner)) =
      ((.error "no pattern" : Except String Unit), shelf) ∧
    (((Writing.within "&:active" fillAndFail).runOn shelf).1 =
        .error (.themed "fill" "no pattern") ∧
      shelf.WrittenAt "&:active" (.nested filled.entries)
        ((Writing.within "&:active" fillAndFail).runOn shelf).2) ∧
    (do let a ← updating "&:focus" fillAndFail.runOn
        let b ← modify (·.set "width" (.int 2))
        return (a, b) : StateM Level (Except StyleError Unit × Unit)).run shelf =
      (do let b ← modify (·.set "width" (.int 2))
          let a ← updating "&:focus" fillAndFail.runOn
          return (a, b) : StateM Level (Except StyleError Unit × Unit)).run shelf ∧
    (do let a ← updating "&:active" fillAndFail.runOn
        let b ← modify (·.set "height" (.int 2))
        return (a, b) : StateM Level (Except StyleError Unit × Unit)).run shelf ≠
      (do let b ← modify (·.set "height" (.int 2))
          let a ← updating "&:active" fillAndFail.runOn
          return (a, b) : StateM Level (Except StyleError Unit × Unit)).run shelf := by
  have hkeys : shelf.keys.Nodup := by decide
  obtain ⟨⟨start, hstart, hanswer, hwritten, _⟩, hdistinct, _, _, _, hcomm⟩ :=
    updates_stay_local shelf hkeys "&:focus" fillAndFail.runOn
  obtain ⟨_, _, hunchanged, _⟩ := updates_stay_local shelf hkeys "&:hover"
    (fun inner => ((.error "no pattern" : Except String Unit), inner))
  obtain ⟨_, _, _, hfailure, _, hnew⟩ :=
    updates_stay_local shelf hkeys "&:active" fillAndFail.runOn
  have hliteral : shelf.StartsFrom "&:focus" ∅ := .literal rfl
  obtain rfl := (hstart ∅).1 hliteral
  refine ⟨hkeys, ⟨hliteral, hanswer, hwritten, ?_⟩, ?_, ?_, ?_, ?_⟩
  · exact hdistinct shelf_distinct fun _ h => h.set "fill" (.text "blue")
  · exact hunchanged ⟨[("color", .literal (.text "red"))]⟩ _ rfl rfl
  · exact hfailure fillAndFail ∅ _ filled (.absent (by decide)) rfl
  · exact (hcomm "width" _ _ (.update _) (.set _) (by decide)).2 (.inl (by decide))
  · intro heq
    have hmem := (hnew "height" _ _ (.update _) (.set _) (by decide)).1 heq
    exact absurd hmem (by decide)

example : (shelf.modifyUnder "&:focus" fillAndFail.runOn).2 = ⟨[
    ("&:hover", .nested [("color", .literal (.text "red"))]),
    ("&:focus", .nested [("fill", .literal (.text "blue"))]),
    ("width", .literal (.int 1))]⟩ := rfl

end Level

end StyleTree
