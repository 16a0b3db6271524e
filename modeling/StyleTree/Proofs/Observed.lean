import Mathlib.Data.List.Perm.Subperm
import StyleTree.Proofs.Reordering
import StyleTree.Proofs.Unambiguous

/-!
Equal styles are those that cannot be told apart by asking. A style is asked by walking along
selectors from level to level and looking at a key there. Equality compares the sizes of two levels
and looks up each key of the one in the other; where no key occurs twice this finds the same entries
on both sides, in whatever order they stand.
-/

namespace StyleTree

/-! ### Questions -/

/-- What stands under a key, without what it holds. -/
inductive Entry.Kind
  | literal
  | level

def Entry.kind : Entry → Kind
  | literal _ => .literal
  | nested _ => .level

namespace Level

structure Answer where
  kind : Option Entry.Kind
  literal : Option Literal
  hasLevel : Bool

def answer (level : Level) (key : String) : Answer :=
  ⟨(level.get? key).map Entry.kind, level.literal? key, (level.nested? key).isSome⟩

/-- The answer about a key at the end of a path of selectors, if the path leads to a level. -/
def ask (level : Level) (path : List String) (key : String) : Option Answer :=
  (level.descend? path).map (·.answer key)

def Answer.finding? (answer : Answer) : Option Finding :=
  if answer.hasLevel then some .level else answer.literal.map .literal

def Answer.ofFinding? : Option Finding → Answer
  | none => ⟨none, none, false⟩
  | some .level => ⟨some .level, none, true⟩
  | some (.literal value) => ⟨some .literal, some value, false⟩

theorem answer_eq (level : Level) (key : String) :
    level.answer key = Answer.ofFinding? (level.find? [key]) := by
  rw [find?_cons, answer, literal?, nested?]
  cases level.get? key with
  | none => rfl
  | some entry => cases entry <;> rfl

theorem find?_singleton (level : Level) (key : String) :
    level.find? [key] = (level.get? key).map Entry.finding := by
  rw [find?_cons]
  cases level.get? key with
  | none => rfl
  | some entry => cases entry <;> rfl

theorem finding?_answer (level : Level) (key : String) :
    (level.answer key).finding? = level.find? [key] := by
  rw [answer_eq]
  cases level.find? [key] with
  | none => rfl
  | some finding => cases finding <;> rfl

theorem find?_append_singleton (level : Level) (path : List String) (key : String) :
    level.find? (path ++ [key]) = (level.descend? path).bind (·.find? [key]) := by
  induction path generalizing level with
  | nil => rfl
  | cons selector path ih =>
      rw [List.cons_append, find?_cons, descend?_cons, nested?]
      cases level.get? selector with
      | none => rfl
      | some entry =>
          cases entry with
          | nested entries => exact ih ⟨entries⟩
          | literal value => cases path <;> rfl

theorem find?_eq_ask (level : Level) (path : List String) (key : String) :
    level.find? (path ++ [key]) = (level.ask path key).bind Answer.finding? := by
  rw [find?_append_singleton, ask]
  cases level.descend? path with
  | none => rfl
  | some inner => exact (finding?_answer inner key).symm

theorem ask_eq_find? (level : Level) (path : List String) (key : String) :
    level.ask path key =
      match level.find? path with
      | some .level => some (Answer.ofFinding? (level.find? (path ++ [key])))
      | _ => none := by
  rw [find?_append_singleton, ask]
  have hlevel : level.find? path = some .level ↔ (level.descend? path).isSome := find?_eq_level_iff
  cases hinner : level.descend? path with
  | some inner =>
      rw [hlevel.2 (hinner ▸ rfl)]
      exact congrArg some (answer_eq inner key)
  | none =>
      cases hfound : level.find? path with
      | none => rfl
      | some finding =>
          cases finding with
          | literal value => rfl
          | level => exact absurd (hlevel.1 hfound) (by simp [hinner])

/-- The same answers are given if and only if the same stands in every position. -/
theorem ask_eq_iff {level other : Level} :
    (∀ path key, level.ask path key = other.ask path key) ↔
      ∀ path, level.find? path = other.find? path := by
  constructor
  · intro h path
    cases path using List.reverseRecOn with
    | nil => rfl
    | append_singleton path key => rw [find?_eq_ask, find?_eq_ask, h]
  · intro h path key
    rw [ask_eq_find?, ask_eq_find?, h, h]

end Level

/-! ### Equality -/

namespace Literal

theorem beq_text_iff {s : String} (l : Literal) : (text s == l) = true ↔ l = text s := by
  cases l with
  | text t =>
      show (s == t) = true ↔ _
      rw [beq_iff_eq, text.injEq, eq_comm]
  | int n => exact ⟨Bool.noConfusion, Literal.noConfusion⟩
  | float f => exact ⟨Bool.noConfusion, Literal.noConfusion⟩

theorem beq_int_iff {n : Int64} (l : Literal) : (int n == l) = true ↔ l = int n := by
  cases l with
  | text s => exact ⟨Bool.noConfusion, Literal.noConfusion⟩
  | int m =>
      show (n == m) = true ↔ _
      rw [beq_iff_eq, int.injEq, eq_comm]
  | float f => exact ⟨Bool.noConfusion, Literal.noConfusion⟩

end Literal

namespace Entry

theorem sameEntries_iff {entries others : List (String × Entry)} :
    sameEntries entries others = true ↔
      ∀ e ∈ entries, ∃ other, others.lookup e.1 = some other ∧ e.2.same other = true := by
  induction entries with
  | nil => simp [sameEntries]
  | cons e entries ih =>
      rw [sameEntries, Bool.and_eq_true, ih, List.forall_mem_cons]
      cases others.lookup e.1 <;> simp

theorem same_nested_iff {entries others : List (String × Entry)} :
    (nested entries).same (nested others) = true ↔
      entries.length = others.length ∧
        ∀ e ∈ entries, ∃ other, others.lookup e.1 = some other ∧ e.2.same other = true := by
  rw [same, Bool.and_eq_true, beq_iff_eq, sameEntries_iff]

theorem same_literal_iff {value : Literal} (h : ∀ l, (value == l) = true ↔ l = value)
    {other : Entry} : (literal value).same other = true ↔ other = literal value := by
  cases other with
  | literal l => rw [same, h, literal.injEq]
  | nested entries => simp [same]

theorem reordered_literal_iff {value : Literal} {other : Entry} :
    (literal value).Reordered other ↔ other = literal value := by
  constructor
  · intro h
    cases h
    rfl
  · rintro rfl
    exact .literal value

theorem FloatFree.same_iff {entry other : Entry} (hfloat : entry.FloatFree) (h : entry.Distinct)
    (hother : other.Distinct) : entry.same other = true ↔ entry.Reordered other := by
  induction hfloat generalizing other with
  | text s => rw [same_literal_iff Literal.beq_text_iff, reordered_literal_iff]
  | int n => rw [same_literal_iff Literal.beq_int_iff, reordered_literal_iff]
  | @nested entries _ ih =>
      cases h with
      | nested hkeys hentries =>
      cases hother with
      | literal value => exact ⟨Bool.noConfusion, fun h => nomatch h⟩
      | @nested others hotherKeys hothers =>
          rw [same_nested_iff]
          constructor
          · rintro ⟨hlength, hsame⟩
            refine .nested ?_ ?_
            · -- No key occurs twice, so the keys found are all there are.
              have hsubset : Pairs.keys entries ⊆ Pairs.keys others := by
                intro key hkey
                obtain ⟨e, he, rfl⟩ := List.mem_map.1 hkey
                obtain ⟨other, hlookup, _⟩ := hsame e he
                exact Pairs.mem_keys_of_lookup hlookup
              refine (List.subperm_of_subset hkeys hsubset).perm_of_length_le ?_
              rw [Pairs.keys, Pairs.keys, List.length_map, List.length_map, hlength]
            · intro key entry other hentry hlookup
              have he := Pairs.mem_of_lookup hentry
              obtain ⟨found, hfound, hentrySame⟩ := hsame _ he
              obtain rfl := Option.some.inj (hlookup.symm.trans hfound)
              exact (ih _ he (hentries _ he) (hothers _ (Pairs.mem_of_lookup hlookup))).1 hentrySame
          · intro hreordered
            cases hreordered with
            | nested hperm hinner =>
                refine ⟨by simpa [Pairs.keys] using hperm.length_eq, fun e he => ?_⟩
                have hentry := (Pairs.lookup_eq_some_iff hkeys).2 he
                obtain ⟨other, hlookup⟩ := Pairs.exists_lookup_of_mem
                  (hperm.mem_iff.1 (Pairs.mem_keys_of_mem he))
                refine ⟨other, hlookup, ?_⟩
                exact (ih e he (hentries e he) (hothers _ (Pairs.mem_of_lookup hlookup))).2
                  (hinner e.1 e.2 other hentry hlookup)

end Entry

namespace Level

/-- No key occurs twice at any depth, and all literals are strings and whole numbers. -/
structure Plain (level : Level) : Prop where
  distinct : level.Distinct
  floatFree : level.FloatFree

section

variable {level other : Level}

theorem Plain.beq_iff_reordered (h : level.Plain) (hother : other.Plain) :
    (level == other) = true ↔ level.Reordered other :=
  h.floatFree.same_iff h.distinct hother.distinct

theorem Plain.beq_iff_find? (h : level.Plain) (hother : other.Plain) :
    (level == other) = true ↔ ∀ path, level.find? path = other.find? path := by
  rw [h.beq_iff_reordered hother, h.distinct.reordered_iff hother.distinct]

theorem equivalence_beq :
    Equivalence fun level other : { level : Level // level.Plain } =>
      (level.1 == other.1) = true where
  refl level := (level.2.beq_iff_find? level.2).2 fun _ => rfl
  symm {level other} h := by
    rw [level.2.beq_iff_find? other.2] at h
    exact (other.2.beq_iff_find? level.2).2 fun path => (h path).symm
  trans {level other third} h h' := by
    rw [level.2.beq_iff_find? other.2] at h
    rw [other.2.beq_iff_find? third.2] at h'
    exact (level.2.beq_iff_find? third.2).2 fun path => (h path).trans (h' path)

/-- Levels in the same place that answer differently about a key stand in different styles. -/
theorem Plain.beq_eq_false (h : level.Plain) (hother : other.Plain) {path : List String}
    {inner innerOther : Level} (hinner : level.descend? path = some inner)
    (hinnerOther : other.descend? path = some innerOther) (key : String)
    (hne : (inner.get? key).map Entry.finding ≠ (innerOther.get? key).map Entry.finding) :
    (level == other) = false := by
  rw [← Bool.not_eq_true, h.beq_iff_find? hother]
  intro hsame
  have hkey := hsame (path ++ [key])
  rw [find?_append_singleton, find?_append_singleton, hinner, hinnerOther, Option.bind_some,
    Option.bind_some, find?_singleton, find?_singleton] at hkey
  exact hne hkey

end

/-- Two styles whose literals are strings and whole numbers are equal if and only if every question
about a key at the end of a path of selectors has the same answer in both. So equality is an
equivalence, and what it leaves open is the order of keys at every level and nothing else. Unequal
are two styles of which, in the same place, one has a level where the other has a literal or
nothing, even if that level is empty, and two of which one has a number where the other has its
digits as a string. -/
theorem beq_iff_ask {level other : Level} (h : level.Plain) (hother : other.Plain) :
    ((level == other) = true ↔ ∀ path key, level.ask path key = other.ask path key) ∧
    (Equivalence fun level other : { level : Level // level.Plain } =>
      (level.1 == other.1) = true) ∧
    ((level == other) = true ↔ level.Reordered other) ∧
    ∀ path inner innerOther key, level.descend? path = some inner →
      other.descend? path = some innerOther →
      (∀ below value, inner.nested? key = some below → innerOther.literal? key = some value →
        (level == other) = false) ∧
      (∀ below, inner.nested? key = some below → innerOther.get? key = none →
        (level == other) = false) ∧
      ∀ n, inner.literal? key = some (.int n) →
        innerOther.literal? key = some (.text (Literal.int n).display) →
        (level == other) = false := by
  refine ⟨(h.beq_iff_find? hother).trans ask_eq_iff.symm, equivalence_beq,
    h.beq_iff_reordered hother, ?_⟩
  intro path inner innerOther key hinner hinnerOther
  refine ⟨fun below value hbelow hvalue => ?_, fun below hbelow hnone => ?_, fun n hint htext => ?_⟩
  · refine h.beq_eq_false hother hinner hinnerOther key ?_
    rw [nested?_eq_some_iff.1 hbelow, literal?_eq_some_iff.1 hvalue]
    exact fun heq => nomatch heq
  · refine h.beq_eq_false hother hinner hinnerOther key ?_
    rw [nested?_eq_some_iff.1 hbelow, hnone]
    exact fun heq => nomatch heq
  · refine h.beq_eq_false hother hinner hinnerOther key ?_
    rw [literal?_eq_some_iff.1 hint, literal?_eq_some_iff.1 htext]
    exact fun heq => nomatch heq

theorem plain_empty : (∅ : Level).Plain :=
  ⟨distinct_empty, .nested fun _ h => absurd h List.not_mem_nil⟩

theorem Plain.cons {entries : List (String × Entry)} (h : Plain ⟨entries⟩) {key : String}
    (hkey : key ∉ Pairs.keys entries) {entry : Entry} (hentry : entry.Distinct)
    (hfloat : entry.FloatFree) : Plain ⟨(key, entry) :: entries⟩ where
  distinct := .nested (List.nodup_cons.2 ⟨hkey, h.distinct.keys⟩)
    (List.forall_mem_cons.2 ⟨hentry, fun _ he => h.distinct.of_mem he⟩)
  floatFree := by
    cases h.floatFree with
    | nested hentries => exact .nested (List.forall_mem_cons.2 ⟨hfloat, hentries⟩)

def chip (hovered : List (String × Entry)) : Level :=
  ⟨[("color", .literal (.text "red")), ("&:hover", .nested hovered)]⟩

def narrow (width : Literal) : List (String × Entry) :=
  [("width", .literal width), ("&:focus", .nested [])]

theorem Plain.chip {hovered : List (String × Entry)} (h : Plain ⟨hovered⟩) :
    (Level.chip hovered).Plain :=
  (plain_empty.cons List.not_mem_nil h.distinct h.floatFree).cons
    (show "color" ∉ ["&:hover"] by decide) (.literal _) (.text "red")

theorem plain_narrow {width : Literal} (h : (Entry.literal width).FloatFree) :
    Plain ⟨narrow width⟩ :=
  (plain_empty.cons List.not_mem_nil distinct_empty plain_empty.floatFree).cons
    (show "width" ∉ ["&:focus"] by decide) (.literal _) h

theorem chip_beq_iff_ask :
    (chip (narrow (.int 1))).Plain ∧ (chip (narrow (.int 1)).reverse).Plain ∧
    (chip (narrow (.int 1)) == chip (narrow (.int 1)).reverse) = true ∧
    (∀ path key, (chip (narrow (.int 1))).ask path key =
      (chip (narrow (.int 1)).reverse).ask path key) ∧
    (chip (narrow (.int 1))).Reordered (chip (narrow (.int 1)).reverse) ∧
    (chip (narrow (.int 1)) == chip (narrow (.text "1"))) = false ∧
    (chip (narrow (.int 1)) == chip [("width", .literal (.int 1))]) = false ∧
    (chip (narrow (.int 1)) == chip [("width", .literal (.int 1)),
      ("&:focus", .literal (.text "none"))]) = false := by
  have hchip : (chip (narrow (.int 1))).Plain := (plain_narrow (.int 1)).chip
  have hbare : Plain ⟨[("width", .literal (.int 1))]⟩ :=
    plain_empty.cons List.not_mem_nil (.literal _) (.int 1)
  have hreversed : (chip (narrow (.int 1)).reverse).Plain :=
    (hbare.cons (show "&:focus" ∉ ["width"] by decide) distinct_empty plain_empty.floatFree).chip
  have hfilled : Plain ⟨[("width", .literal (.int 1)), ("&:focus", .literal (.text "none"))]⟩ :=
    (plain_empty.cons List.not_mem_nil (.literal _) (.text "none")).cons
      (show "width" ∉ ["&:focus"] by decide) (.literal _) (.int 1)
  obtain ⟨hask, _, hreordered, _⟩ := beq_iff_ask hchip hreversed
  obtain ⟨_, _, _, hquoted⟩ := beq_iff_ask hchip (plain_narrow (.text "1")).chip
  obtain ⟨_, _, _, habsent⟩ := beq_iff_ask hchip hbare.chip
  obtain ⟨_, _, _, hliteral⟩ := beq_iff_ask hchip hfilled.chip
  refine ⟨hchip, hreversed, rfl, hask.1 rfl, hreordered.1 rfl, ?_, ?_, ?_⟩
  · exact (hquoted ["&:hover"] _ _ "width" rfl rfl).2.2 1 rfl rfl
  · exact (habsent ["&:hover"] _ _ "&:focus" rfl rfl).2.1 _ rfl rfl
  · exact (hliteral ["&:hover"] _ _ "&:focus" rfl rfl).1 _ _ rfl rfl

end Level

end StyleTree
