import StyleTree.Shorthand

/-!
What expanding the shorthand properties of a specification means. Each entry of the table has its
turn. It is idle if its property is missing, and else it takes the property out and lays what it
makes of the value over the rest. So what was made for a property at an earlier turn is expanded
again, and what is made for it at its own turn or later stays. A turn depends on the values under
the properties and never on their order.
-/

namespace StyleTree.Shorthands

/-- What an entry of the table does at its turn. -/
inductive Turn
  | idle
  | run (value : Value) (output : Spec)

namespace Turn

def value? : Turn → Option Value
  | idle => none
  | run value _ => some value

def output : Turn → Spec
  | idle => ∅
  | run _ output => output

/-- What the turn of a property adds for good: the rest of the table leaves it alone, and the
specification did not have it before, or not in this place. -/
def fresh (turn : Turn) (spec : Spec) (property : String) (rest : List String) : List String :=
  (turn.output.keys.filter fun name => name ∉ rest).filter fun name =>
    name ∉ spec.keys ∨ name ∈ property :: rest

theorem nodup_fresh (turn : Turn) (spec : Spec) (property : String) (rest : List String) :
    (turn.fresh spec property rest).Nodup :=
  (turn.output.nodup.filter _).filter _

end Turn

/-- One turn: the specification before it, what is done, and the specification after it. -/
inductive Takes (theme : Theme) (property : String) (shorthand : Shorthand) :
    Spec → Turn → Spec → Prop
  | idle {spec : Spec} (hmissing : spec.get? property = none) :
      Takes theme property shorthand spec .idle spec
  | run {spec output : Spec} {value : Value} (hvalue : spec.get? property = some value)
      (houtput : shorthand value theme = .ok output) :
      Takes theme property shorthand spec (.run value output) ((spec.erase property).merge output)

/-- The entries of a table take their turns one after the other. -/
inductive Expands (theme : Theme) : Pairs Shorthand → Spec → List Turn → Spec → Prop
  | nil (spec : Spec) : Expands theme [] spec [] spec
  | cons {property : String} {shorthand : Shorthand} {table : Pairs Shorthand} {turn : Turn}
      {turns : List Turn} {spec next result : Spec}
      (hturn : Takes theme property shorthand spec turn next)
      (hrest : Expands theme table next turns result) :
      Expands theme ((property, shorthand) :: table) spec (turn :: turns) result

/-- The value that a property is given by the last of the turns that makes it. -/
def lastGiven? (turns : List Turn) (property : String) : Option Value :=
  (turns.filterMap fun turn => turn.output.get? property).getLast?

/-- The properties that the turns make, each time they do. A property of the table does not count
until its own turn, which takes it out. -/
def made : Pairs Shorthand → List Turn → List String
  | _ :: table, turn :: turns =>
      (turn.output.keys.filter fun property => property ∉ Pairs.keys table) ++ made table turns
  | _, _ => []

/-! ### One turn -/

section

variable {theme : Theme} {property : String} {shorthand : Shorthand} {spec next : Spec}
  {turn : Turn}

theorem expandOne_eq_ok_iff :
    expandOne theme spec property shorthand = .ok next ↔
      ∃ turn, Takes theme property shorthand spec turn next := by
  constructor
  · intro h
    cases hvalue : spec.get? property with
    | none =>
        rw [expandOne_of_get?_none hvalue] at h
        cases h
        exact ⟨.idle, .idle hvalue⟩
    | some value =>
        cases houtput : shorthand value theme with
        | error reason =>
            rw [expandOne_of_error hvalue houtput] at h
            cases h
        | ok output =>
            rw [expandOne_of_ok hvalue houtput] at h
            cases h
            exact ⟨.run value output, .run hvalue houtput⟩
  · rintro ⟨turn, hmissing | ⟨hvalue, houtput⟩⟩
    · exact expandOne_of_get?_none hmissing theme shorthand
    · exact expandOne_of_ok hvalue houtput

/-- An expansion is called with the value that its property has at its turn, and only if it has
one. -/
theorem Takes.value?_eq (h : Takes theme property shorthand spec turn next) :
    turn.value? = spec.get? property := by
  cases h with
  | idle hmissing => exact hmissing.symm
  | run hvalue _ => exact hvalue.symm

theorem Takes.answer {value : Value} {output : Spec}
    (h : Takes theme property shorthand spec (.run value output) next) :
    shorthand value theme = .ok output := by
  cases h with
  | run _ houtput => exact houtput

theorem Takes.get?_eq (h : Takes theme property shorthand spec turn next) (other : String) :
    next.get? other =
      (turn.output.get? other).or (if other = property then none else spec.get? other) := by
  cases h with
  | idle hmissing =>
      split
      · rename_i heq
        rw [heq, hmissing]
        rfl
      · rfl
  | run _ _ => rw [Table.get?_merge, Table.get?_erase]; rfl

theorem Takes.keys_eq (h : Takes theme property shorthand spec turn next) :
    next.keys = spec.keys.filter (· != property) ++
      turn.output.keys.filter fun other => other ∉ spec.keys ∨ other = property := by
  cases h with
  | idle hmissing =>
      have hnot := Table.get?_eq_none_iff.1 hmissing
      have hall : spec.keys.filter (· != property) = spec.keys :=
        List.filter_eq_self.2 fun other hother => bne_iff_ne.2 fun heq => hnot (heq ▸ hother)
      rw [hall]
      exact (List.append_nil _).symm
  | run _ _ =>
      rw [Table.keys_merge, Table.keys_erase]
      congr 1
      refine List.filter_congr fun other _ => ?_
      simp only [List.mem_filter, bne_iff_ne]
      grind

theorem Takes.filter_keys_eq (h : Takes theme property shorthand spec turn next)
    (rest : List String) :
    (next.keys.filter fun name => name ∉ rest) =
      (spec.keys.filter fun name => name ∉ property :: rest) ++ turn.fresh spec property rest := by
  rw [Turn.fresh, h.keys_eq, List.filter_append, List.filter_filter, List.filter_filter,
    List.filter_filter]
  congr 1 <;>
    · refine List.filter_congr fun name _ => ?_
      grind

theorem Takes.filter_notMem_keys_eq (h : Takes theme property shorthand spec turn next)
    (rest names : List String) :
    (names.filter fun name => name ∉ next.keys ∨ name ∈ rest) =
      (names.filter fun name => name ∉ spec.keys ∨ name ∈ property :: rest).removeAll
        (turn.fresh spec property rest) := by
  rw [Turn.fresh, List.removeAll, List.filter_filter, h.keys_eq]
  refine List.filter_congr fun name _ => ?_
  grind

/-- The same turn is taken from every specification with the same values. -/
theorem Takes.of_get?_eq (h : Takes theme property shorthand spec turn next) {other : Spec}
    (hsame : ∀ name, other.get? name = spec.get? name) :
    ∃ otherNext, Takes theme property shorthand other turn otherNext ∧
      ∀ name, otherNext.get? name = next.get? name := by
  have hother : ∃ otherNext, Takes theme property shorthand other turn otherNext := by
    cases h with
    | idle hmissing => exact ⟨_, .idle ((hsame property).trans hmissing)⟩
    | run hvalue houtput => exact ⟨_, .run ((hsame property).trans hvalue) houtput⟩
  obtain ⟨otherNext, htakes⟩ := hother
  refine ⟨otherNext, htakes, fun name => ?_⟩
  rw [htakes.get?_eq, h.get?_eq, hsame name]

end

/-! ### All turns of a table -/

section

variable {theme : Theme} {table : Pairs Shorthand} {spec result : Spec} {turns : List Turn}

theorem foldlM_expandOne_eq_ok_iff :
    table.foldlM (fun spec entry => expandOne theme spec entry.1 entry.2) spec = .ok result ↔
      ∃ turns, Expands theme table spec turns result := by
  induction table generalizing spec with
  | nil =>
      constructor
      · intro h
        cases h
        exact ⟨[], .nil _⟩
      · rintro ⟨turns, ⟨⟩⟩
        rfl
  | cons entry table ih =>
      obtain ⟨property, shorthand⟩ := entry
      rw [List.foldlM_cons]
      constructor
      · intro h
        cases hone : expandOne theme spec property shorthand with
        | error e =>
            rw [hone] at h
            cases h
        | ok next =>
            rw [hone] at h
            obtain ⟨turns, hrest⟩ := ih.1 h
            obtain ⟨turn, hturn⟩ := expandOne_eq_ok_iff.1 hone
            exact ⟨turn :: turns, .cons hturn hrest⟩
      · rintro ⟨_, h⟩
        cases h with
        | cons hturn hrest =>
            rw [expandOne_eq_ok_iff.2 ⟨_, hturn⟩]
            exact ih.2 ⟨_, hrest⟩

theorem lastGiven?_cons (turn : Turn) (turns : List Turn) (property : String) :
    lastGiven? (turn :: turns) property =
      (lastGiven? turns property).or (turn.output.get? property) := by
  rw [lastGiven?, lastGiven?, List.filterMap_cons]
  cases turn.output.get? property with
  | none => exact (Option.or_none).symm
  | some value => rw [List.getLast?_cons]; cases List.getLast? _ <;> rfl

/-- A property outside the table has the value that it is given last, or else its first one. -/
theorem Expands.get?_of_not_mem (h : Expands theme table spec turns result) {property : String}
    (hnot : property ∉ Pairs.keys table) :
    result.get? property = (lastGiven? turns property).or (spec.get? property) := by
  induction h with
  | nil spec => rfl
  | cons hturn _ ih =>
      rw [Pairs.keys_cons, List.mem_cons, not_or] at hnot
      rw [ih hnot.2, hturn.get?_eq, if_neg hnot.1, lastGiven?_cons, Option.or_assoc]

/-- A property of the table has the value that it is given last from its own turn on. -/
theorem Expands.get?_of_getElem? (h : Expands theme table spec turns result)
    (hnodup : (Pairs.keys table).Nodup) {i : Nat} {property : String} {shorthand : Shorthand}
    (hentry : table[i]? = some (property, shorthand)) :
    result.get? property = lastGiven? (turns.drop i) property := by
  induction h generalizing i with
  | nil spec => cases hentry
  | @cons first _ table turn turns _ next _ hturn hrest ih =>
      rw [Pairs.keys_cons, List.nodup_cons] at hnodup
      cases i with
      | zero =>
          cases hentry
          rw [hrest.get?_of_not_mem hnodup.1, hturn.get?_eq, if_pos rfl, Option.or_none,
            List.drop_zero, lastGiven?_cons]
      | succ i => exact ih hnodup.2 hentry

/-- At its turn an expansion is called with the value that its property was given last, or else with
the first one. -/
theorem Expands.turn_of_getElem? (h : Expands theme table spec turns result)
    (hnodup : (Pairs.keys table).Nodup) {i : Nat} {property : String} {shorthand : Shorthand}
    (hentry : table[i]? = some (property, shorthand)) :
    ∃ turn, turns[i]? = some turn ∧
      turn.value? = (lastGiven? (turns.take i) property).or (spec.get? property) ∧
      ∀ value output, turn = .run value output → shorthand value theme = .ok output := by
  induction h generalizing i with
  | nil spec => cases hentry
  | @cons first _ table turn turns _ next _ hturn hrest ih =>
      rw [Pairs.keys_cons, List.nodup_cons] at hnodup
      cases i with
      | zero =>
          cases hentry
          refine ⟨turn, rfl, hturn.value?_eq, ?_⟩
          rintro value output rfl
          exact hturn.answer
      | succ i =>
          obtain ⟨own, hown, hvalue, hanswer⟩ := ih hnodup.2 hentry
          have hmem := Pairs.mem_keys_of_mem
            (List.mem_of_getElem? (List.getElem?_cons_succ ▸ hentry))
          have hne : property ≠ first := fun heq => hnodup.1 (heq ▸ hmem)
          refine ⟨own, hown, ?_, hanswer⟩
          rw [hvalue, hturn.get?_eq, if_neg hne, List.take_succ_cons, lastGiven?_cons,
            Option.or_assoc]

/-- First the properties outside the table in their order, then what the turns make. -/
theorem Expands.keys_eq (h : Expands theme table spec turns result) :
    result.keys = (spec.keys.filter fun property => property ∉ Pairs.keys table) ++
      ((made table turns).filter fun property =>
        property ∉ spec.keys ∨ property ∈ Pairs.keys table).eraseDups := by
  induction h with
  | nil spec =>
      have hall : (spec.keys.filter fun property =>
          property ∉ Pairs.keys ([] : Pairs Shorthand)) = spec.keys :=
        List.filter_eq_self.2 fun _ _ => rfl
      rw [hall]
      exact (List.append_nil _).symm
  | @cons first shorthand table turn turns spec next _ hturn _ ih =>
      have hmade : ((made ((first, shorthand) :: table) (turn :: turns)).filter fun property =>
          property ∉ spec.keys ∨ property ∈ first :: Pairs.keys table) =
          turn.fresh spec first (Pairs.keys table) ++
            (made table turns).filter fun property =>
              property ∉ spec.keys ∨ property ∈ first :: Pairs.keys table :=
        List.filter_append ..
      rw [Pairs.keys_cons, hmade, List.eraseDups_append,
        eraseDups_of_nodup (turn.nodup_fresh spec first _), ih, hturn.filter_keys_eq,
        hturn.filter_notMem_keys_eq, List.append_assoc]

theorem Expands.of_get?_eq (h : Expands theme table spec turns result) {other : Spec}
    (hsame : ∀ name, other.get? name = spec.get? name) :
    ∃ otherResult, Expands theme table other turns otherResult ∧
      ∀ name, otherResult.get? name = result.get? name := by
  induction h generalizing other with
  | nil spec => exact ⟨other, .nil other, hsame⟩
  | cons hturn _ ih =>
      obtain ⟨next, hother, hnext⟩ := hturn.of_get?_eq hsame
      obtain ⟨otherResult, hrest, hresult⟩ := ih hnext
      exact ⟨otherResult, .cons hother hrest, hresult⟩

/-- The result depends on the order only as far as it concerns properties outside the table. -/
theorem Expands.eq_of_get?_eq (h : Expands theme table spec turns result) {other : Spec}
    (hsame : ∀ name, other.get? name = spec.get? name)
    (horder : (other.keys.filter fun name => name ∉ Pairs.keys table) =
      spec.keys.filter fun name => name ∉ Pairs.keys table) :
    Expands theme table other turns result := by
  obtain ⟨otherResult, hother, hresult⟩ := h.of_get?_eq hsame
  have hmem (name : String) : name ∉ other.keys ↔ name ∉ spec.keys := by
    rw [← Table.get?_eq_none_iff, ← Table.get?_eq_none_iff, hsame]
  have hkeys : otherResult.keys = result.keys := by
    rw [hother.keys_eq, h.keys_eq, horder]
    simp only [hmem]
  obtain rfl := Table.eq_of_get? hkeys hresult
  exact hother

end

theorem expand_eq_ok_iff {table : Shorthands} {spec result : Spec} {theme : Theme} :
    table.expand spec theme = .ok result ↔ ∃ turns, Expands theme table.pairs spec turns result :=
  foldlM_expandOne_eq_ok_iff

theorem expand_of_get?_eq {table : Shorthands} {spec other result : Spec} {theme : Theme}
    (h : table.expand spec theme = .ok result)
    (hsame : ∀ name, other.get? name = spec.get? name) :
    ∃ otherResult, table.expand other theme = .ok otherResult ∧
      ∀ name, otherResult.get? name = result.get? name := by
  obtain ⟨turns, hturns⟩ := expand_eq_ok_iff.1 h
  obtain ⟨otherResult, hother, hresult⟩ := hturns.of_get?_eq hsame
  exact ⟨otherResult, expand_eq_ok_iff.2 ⟨turns, hother⟩, hresult⟩

/-- An expansion runs if its property is there at its turn, and it is called with the value given
last by then. In the result a property of the table has the value given last from its own turn on,
and any other property the value given last or else its first one. The properties outside the table
keep their order, and those that the turns make follow in the order in which they are made first.
The order of the properties of the table is of no importance. -/
theorem expand_turns (table : Shorthands) (spec result : Spec) (theme : Theme)
    (h : table.expand spec theme = .ok result) :
    ∃ turns, Expands theme table.pairs spec turns result ∧
      (∀ (i : Nat) property shorthand, table.pairs[i]? = some (property, shorthand) →
        (∃ turn, turns[i]? = some turn ∧
          turn.value? = (lastGiven? (turns.take i) property).or (spec.get? property) ∧
          ∀ value output, turn = .run value output → shorthand value theme = .ok output) ∧
        result.get? property = lastGiven? (turns.drop i) property) ∧
      (∀ property, property ∉ table.keys →
        result.get? property = (lastGiven? turns property).or (spec.get? property)) ∧
      result.keys = (spec.keys.filter fun property => property ∉ table.keys) ++
        ((made table.pairs turns).filter fun property =>
          property ∉ spec.keys ∨ property ∈ table.keys).eraseDups ∧
      ∀ other : Spec, (∀ property, other.get? property = spec.get? property) →
        (other.keys.filter fun property => property ∉ table.keys) =
          (spec.keys.filter fun property => property ∉ table.keys) →
        table.expand other theme = .ok result := by
  obtain ⟨turns, hturns⟩ := expand_eq_ok_iff.1 h
  refine ⟨turns, hturns, ?_, ?_, hturns.keys_eq, ?_⟩
  · intro i property shorthand hentry
    exact ⟨hturns.turn_of_getElem? table.nodup hentry,
      hturns.get?_of_getElem? table.nodup hentry⟩
  · exact fun property hnot => hturns.get?_of_not_mem hnot
  · intro other hsame horder
    exact expand_eq_ok_iff.2 ⟨turns, hturns.eq_of_get?_eq hsame horder⟩

/-- A size stands for a gap and a width, and a gap for itself, a margin and an empty size. -/
def boxes : Shorthands := .ofPairs [
  ("size", fun value _ => .ok (.ofPairs [("gap", value), ("width", value)])),
  ("gap", fun value _ => .ok (.ofPairs [("gap", value), ("margin", value), ("size", .empty)])),
  ("edge", fun _ _ => .error "no edge")]

def box (properties : List String) : Spec :=
  .ofPairs (properties.map fun property => (property, .literal (.text property)))

theorem get?_box_eq (property : String) :
    (box ["size", "width", "color", "gap"]).get? property =
      (box ["gap", "width", "size", "color"]).get? property := by
  refine Table.perm_pairs_iff.1 ?_ property
  have hnames : ["size", "width", "color", "gap"].Perm ["gap", "width", "size", "color"] := by
    decide
  exact hnames.map fun property => (property, Value.literal (.text property))

theorem boxes_expand_turns :
    ∃ result turns, boxes.expand (box ["gap", "width", "size", "color"]) ∅ = .ok result ∧
      Expands ∅ boxes.pairs (box ["gap", "width", "size", "color"]) turns result ∧
      (∃ turn, turns[1]? = some turn ∧ turn.value? = (lastGiven? (turns.take 1) "gap").or
        ((box ["gap", "width", "size", "color"]).get? "gap")) ∧
      result.get? "size" = lastGiven? turns "size" ∧
      result.get? "color" = (lastGiven? turns "color").or (some (.literal (.text "color"))) ∧
      result.keys = ["width", "color", "gap", "margin", "size"] ∧
      boxes.expand (box ["size", "width", "color", "gap"]) ∅ = .ok result := by
  obtain ⟨turns, hturns, hentries, houtside, _, hother⟩ :=
    expand_turns boxes (box ["gap", "width", "size", "color"]) _ ∅ rfl
  obtain ⟨⟨turn, hturn, hvalue, _⟩, _⟩ := hentries 1 _ _ rfl
  exact ⟨_, turns, rfl, hturns, ⟨turn, hturn, hvalue⟩, (hentries 0 _ _ rfl).2,
    houtside "color" (by decide), rfl, hother _ get?_box_eq rfl⟩

end StyleTree.Shorthands
