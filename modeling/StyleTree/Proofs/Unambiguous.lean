import Mathlib.Tactic.IntervalCases
import StyleTree.Level.Json

/-!
The text of a style can be read in one way only. A quoted string ends at the first quote that is not
escaped, a number where its digits end, and a level at the brace that closes it. So whatever
strings, keys and levels a style is made of, its text tells where each of them ends and of which
kind it is, and two styles without floating-point numbers that have the same text are the same.
-/

namespace StyleTree

/-! ### Quoted strings -/

namespace Json

def hexValue (c : Char) : Nat :=
  if c.isDigit then c.toNat - '0'.toNat else c.toNat - 'a'.toNat + 10

/-- Reads one character of a quoted string, and gives what follows it. There is none before the
closing quote. -/
def readChar? : List Char → Option (Char × List Char)
  | '\\' :: 'u' :: '0' :: '0' :: high :: low :: rest =>
      some (Char.ofNat (16 * hexValue high + hexValue low), rest)
  | '\\' :: 'b' :: rest => some ('\x08', rest)
  | '\\' :: 'f' :: rest => some ('\x0c', rest)
  | '\\' :: 'n' :: rest => some ('\n', rest)
  | '\\' :: 'r' :: rest => some ('\r', rest)
  | '\\' :: 't' :: rest => some ('\t', rest)
  | '\\' :: c :: rest => some (c, rest)
  | '"' :: _ => none
  | c :: rest => some (c, rest)
  | [] => none

theorem readChar?_escape_ofNat {n : Nat} (h : n < 0x20) (rest : List Char) :
    readChar? (escape (Char.ofNat n) ++ rest) = some (Char.ofNat n, rest) := by
  interval_cases n <;> rfl

theorem escape_of_le {c : Char} (h : 0x20 ≤ c.toNat) (hquote : c ≠ '"') (hslash : c ≠ '\\') :
    escape c = [c] := by
  unfold escape
  split
  · exact absurd rfl hquote
  · exact absurd rfl hslash
  · exact absurd h (by decide)
  · exact absurd h (by decide)
  · exact absurd h (by decide)
  · exact absurd h (by decide)
  · exact absurd h (by decide)
  · exact if_neg (Nat.not_lt.2 h)

theorem readChar?_escape (c : Char) (rest : List Char) :
    readChar? (escape c ++ rest) = some (c, rest) := by
  by_cases hc : c.toNat < 0x20
  · rw [← Char.ofNat_toNat c]
    exact readChar?_escape_ofNat hc rest
  · by_cases hquote : c = '"'
    · rw [hquote]
      rfl
    · by_cases hslash : c = '\\'
      · rw [hslash]
        rfl
      · rw [escape_of_le (Nat.not_lt.1 hc) hquote hslash]
        simp [readChar?, hslash]

theorem flatMap_escape_append_inj {cs ds r r' : List Char}
    (h : cs.flatMap escape ++ '"' :: r = ds.flatMap escape ++ '"' :: r') : cs = ds ∧ r = r' := by
  induction cs generalizing ds with
  | nil =>
      cases ds with
      | nil => exact ⟨rfl, List.tail_eq_of_cons_eq h⟩
      | cons d ds =>
          have hread := congrArg readChar? h
          rw [List.flatMap_cons, List.append_assoc, readChar?_escape] at hread
          cases hread
  | cons c cs ih =>
      cases ds with
      | nil =>
          have hread := congrArg readChar? h
          rw [List.flatMap_cons, List.append_assoc, readChar?_escape] at hread
          cases hread
      | cons d ds =>
          have hread := congrArg readChar? h
          rw [List.flatMap_cons, List.flatMap_cons, List.append_assoc, List.append_assoc,
            readChar?_escape, readChar?_escape, Option.some.injEq, Prod.mk.injEq] at hread
          obtain ⟨hcs, hr⟩ := ih hread.2
          exact ⟨by rw [hread.1, hcs], hr⟩

theorem quoted_append_inj {s t : String} {r r' : List Char}
    (h : quoted s ++ r = quoted t ++ r') : s = t ∧ r = r' := by
  simp only [quoted, List.cons_append, List.append_assoc, List.nil_append, List.cons.injEq,
    true_and] at h
  obtain ⟨hchars, hr⟩ := flatMap_escape_append_inj h
  exact ⟨String.toList_inj.1 hchars, hr⟩

theorem bracketed_cons (opening closing : Char) (part : List Char) (parts : List (List Char)) :
    bracketed opening closing (part :: parts) =
      opening :: (part ++ (parts.flatMap (',' :: ·) ++ [closing])) := by
  rw [bracketed]
  induction parts generalizing part with
  | nil => simp
  | cons next parts ih =>
      have ih := List.tail_eq_of_cons_eq (ih next)
      rw [List.intercalate_cons_cons, List.append_assoc, ih]
      simp

end Json

/-! ### Whole numbers -/

namespace Decimal

def Stops (rest : List Char) : Prop := ∀ c ∈ rest.head?, c.isDigit = false

theorem isDigit_of_mem_natChars {n : Nat} {c : Char} (h : c ∈ natChars n) : c.isDigit = true :=
  Nat.isDigit_of_mem_toDigits (by decide) (by decide) h

theorem takeWhile_natChars_append (n : Nat) {rest : List Char} (h : Stops rest) :
    (natChars n ++ rest).takeWhile Char.isDigit = natChars n := by
  rw [List.takeWhile_append_of_pos fun c hc => isDigit_of_mem_natChars hc]
  cases rest with
  | nil => simp
  | cons c rest => simp [h c rfl]

theorem natChars_injective {m n : Nat} (h : natChars m = natChars n) : m = n := by
  have hvalue := congrArg (Nat.ofDigitChars 10 · 0) h
  simpa only [natChars, Nat.ofDigitChars_ten_toDigits] using hvalue

theorem natChars_append_inj {m n : Nat} {r r' : List Char} (hr : Stops r) (hr' : Stops r')
    (h : natChars m ++ r = natChars n ++ r') : m = n ∧ r = r' := by
  have hdigits : natChars m = natChars n := by
    rw [← takeWhile_natChars_append m hr, h, takeWhile_natChars_append n hr']
  rw [hdigits] at h
  exact ⟨natChars_injective hdigits, List.append_cancel_left h⟩

theorem exists_natChars_eq_cons (n : Nat) :
    ∃ c rest, natChars n = c :: rest ∧ c.isDigit = true := by
  obtain ⟨c, rest, hchars⟩ := List.exists_cons_of_ne_nil (Nat.toDigits_ne_nil (n := n) (b := 10))
  exact ⟨c, rest, hchars, isDigit_of_mem_natChars (hchars ▸ List.mem_cons_self)⟩

theorem intChars_append_ne {c : Char} (hdigit : c.isDigit = false) (hminus : c ≠ '-') (n : Int)
    (r r' : List Char) : intChars n ++ r ≠ c :: r' := by
  intro h
  cases n with
  | ofNat n =>
      obtain ⟨d, rest, hchars, hd⟩ := exists_natChars_eq_cons n
      rw [intChars, hchars] at h
      rw [List.head_eq_of_cons_eq h, hdigit] at hd
      cases hd
  | negSucc n => exact hminus (List.head_eq_of_cons_eq h).symm

theorem intChars_append_inj {m n : Int} {r r' : List Char} (hr : Stops r) (hr' : Stops r')
    (h : intChars m ++ r = intChars n ++ r') : m = n ∧ r = r' := by
  have hsign (k : Nat) (r r' : List Char) : natChars k ++ r ≠ '-' :: r' := by
    intro h
    obtain ⟨c, rest, hchars, hdigit⟩ := exists_natChars_eq_cons k
    rw [hchars] at h
    rw [List.head_eq_of_cons_eq h] at hdigit
    cases hdigit
  cases m with
  | ofNat m =>
      cases n with
      | ofNat n =>
          obtain ⟨rfl, hrest⟩ := natChars_append_inj hr hr' h
          exact ⟨rfl, hrest⟩
      | negSucc n => exact absurd h (hsign m r _)
  | negSucc m =>
      cases n with
      | ofNat n => exact absurd h.symm (hsign n r' _)
      | negSucc n =>
          obtain ⟨hnumber, hrest⟩ := natChars_append_inj hr hr' (List.tail_eq_of_cons_eq h)
          exact ⟨by rw [Nat.succ.inj hnumber], hrest⟩

end Decimal

/-! ### Levels -/

/-- No floating-point number occurs at any depth. -/
inductive Entry.FloatFree : Entry → Prop
  | text (s : String) : FloatFree (.literal (.text s))
  | int (n : Int64) : FloatFree (.literal (.int n))
  | nested {entries : List (String × Entry)} (hentries : ∀ e ∈ entries, FloatFree e.2) :
      FloatFree (.nested entries)

def Level.FloatFree (level : Level) : Prop := (Entry.nested level.entries).FloatFree

namespace Entry

/-- The text of a level from behind one of its entries: the other entries, the brace that closes it
and what comes after. -/
def restChars (entries : List (String × Entry)) (after : List Char) : List Char :=
  (memberChars entries).flatMap (',' :: ·) ++ '}' :: after

theorem restChars_cons (e : String × Entry) (entries : List (String × Entry))
    (after : List Char) :
    restChars (e :: entries) after =
      ',' :: (Json.quoted e.1 ++ ':' :: (e.2.chars ++ restChars entries after)) := by
  simp [restChars, memberChars]

theorem chars_nested_cons_append (e : String × Entry) (entries : List (String × Entry))
    (after : List Char) :
    (nested (e :: entries)).chars ++ after =
      '{' :: (Json.quoted e.1 ++ ':' :: (e.2.chars ++ restChars entries after)) := by
  simp [chars, memberChars, Json.bracketed_cons, restChars]

theorem stops_restChars (entries : List (String × Entry)) (after : List Char) :
    Decimal.Stops (restChars entries after) := by
  cases entries with
  | nil =>
      rintro c ⟨⟩
      rfl
  | cons e entries =>
      rw [restChars_cons]
      rintro c ⟨⟩
      rfl

/-- Where the text of the entry stands, no other entry can be read. -/
def ReadsOnly (entry : Entry) : Prop :=
  ∀ other : Entry, other.FloatFree → ∀ r r', Decimal.Stops r → Decimal.Stops r' →
    entry.chars ++ r = other.chars ++ r' → entry = other ∧ r = r'

theorem readsOnly_text (s : String) : (literal (.text s)).ReadsOnly := by
  intro other hother r r' _ _ h
  cases hother with
  | text t =>
      obtain ⟨rfl, hrest⟩ := Json.quoted_append_inj h
      exact ⟨rfl, hrest⟩
  | int n => exact absurd h.symm (Decimal.intChars_append_ne rfl (by decide) n.toInt r' _)
  | nested _ => exact absurd (List.head_eq_of_cons_eq h) (by decide)

theorem readsOnly_int (n : Int64) : (literal (.int n)).ReadsOnly := by
  intro other hother r r' hr hr' h
  cases hother with
  | text t => exact absurd h (Decimal.intChars_append_ne rfl (by decide) n.toInt r _)
  | int m =>
      obtain ⟨hvalue, hrest⟩ := Decimal.intChars_append_inj hr hr' h
      exact ⟨by rw [Int64.toInt_inj.1 hvalue], hrest⟩
  | nested _ => exact absurd h (Decimal.intChars_append_ne rfl (by decide) n.toInt r _)

theorem restChars_inj {entries others : List (String × Entry)}
    (hentries : ∀ e ∈ entries, e.2.ReadsOnly) (hothers : ∀ e ∈ others, e.2.FloatFree)
    {r r' : List Char} (h : restChars entries r = restChars others r') :
    entries = others ∧ r = r' := by
  induction entries generalizing others with
  | nil =>
      cases others with
      | nil => exact ⟨rfl, List.tail_eq_of_cons_eq h⟩
      | cons f others =>
          rw [restChars_cons] at h
          exact absurd (List.head_eq_of_cons_eq h) (by decide)
  | cons e entries ih =>
      cases others with
      | nil =>
          rw [restChars_cons] at h
          exact absurd (List.head_eq_of_cons_eq h) (by decide)
      | cons f others =>
          rw [List.forall_mem_cons] at hentries hothers
          rw [restChars_cons, restChars_cons] at h
          obtain ⟨hkey, hvalue⟩ := Json.quoted_append_inj (List.tail_eq_of_cons_eq h)
          obtain ⟨hentry, hrest⟩ := hentries.1 f.2 hothers.1 _ _ (stops_restChars entries r)
            (stops_restChars others r') (List.tail_eq_of_cons_eq hvalue)
          obtain ⟨rfl, hafter⟩ := ih hentries.2 hothers.2 hrest
          exact ⟨by rw [Prod.ext hkey hentry], hafter⟩

theorem readsOnly_nested {entries : List (String × Entry)}
    (hentries : ∀ e ∈ entries, e.2.ReadsOnly) : (nested entries).ReadsOnly := by
  intro other hother r r' _ _ h
  cases hother with
  | text t => exact absurd (List.head_eq_of_cons_eq h) (by decide)
  | int n => exact absurd h.symm (Decimal.intChars_append_ne rfl (by decide) n.toInt r' _)
  | @nested others hothers =>
      -- An opening brace takes the place of the first comma, unless there are no entries.
      have hrest : restChars entries r = restChars others r' := by
        cases entries with
        | nil =>
            cases others with
            | nil => exact List.tail_eq_of_cons_eq h
            | cons f others =>
                rw [chars_nested_cons_append] at h
                exact absurd (List.head_eq_of_cons_eq (List.tail_eq_of_cons_eq h)) (by decide)
        | cons e entries =>
            cases others with
            | nil =>
                rw [chars_nested_cons_append] at h
                exact absurd (List.head_eq_of_cons_eq (List.tail_eq_of_cons_eq h)) (by decide)
            | cons f others =>
                rw [chars_nested_cons_append, chars_nested_cons_append] at h
                rw [restChars_cons, restChars_cons, List.tail_eq_of_cons_eq h]
      obtain ⟨rfl, hafter⟩ := restChars_inj hentries hothers hrest
      exact ⟨rfl, hafter⟩

theorem FloatFree.readsOnly {entry : Entry} (h : entry.FloatFree) : entry.ReadsOnly := by
  induction h with
  | text s => exact readsOnly_text s
  | int n => exact readsOnly_int n
  | nested _ ih => exact readsOnly_nested ih

end Entry

/-- Styles whose literals are strings and whole numbers have the same text only if they are the
same: the same keys in the same order at every level, and under each the same string, the same
number or the same level. -/
theorem Level.text_eq_iff {level other : Level} (hlevel : level.FloatFree)
    (hother : other.FloatFree) : level.text = other.text ↔ level = other := by
  refine ⟨fun h => ?_, fun h => by rw [h]⟩
  have hchars : (Entry.nested level.entries).chars ++ [] =
      (Entry.nested other.entries).chars ++ [] :=
    congrArg (· ++ []) (String.ofList_injective h)
  have hend : Decimal.Stops [] := fun c hc => by cases hc
  obtain ⟨hentries, _⟩ := hlevel.readsOnly _ hother [] [] hend hend hchars
  exact congrArg Level.mk (Entry.nested.inj hentries)

def Level.hovered : Level :=
  ⟨[("color", .literal (.text "red")), ("&:hover", .nested [("width", .literal (.int 1))])]⟩

/-- A colour that is written like the end of the string and the level after it. -/
def Level.forged : Level :=
  ⟨[("color", .literal (.text "red\",\"&:hover\":\x7b\"width\":1"))]⟩

theorem Level.forged_text_ne :
    hovered.FloatFree ∧ forged.FloatFree ∧ (hovered.text = forged.text ↔ hovered = forged) ∧
    hovered.text ≠ forged.text := by
  have hhovered : hovered.FloatFree := by
    refine .nested (List.forall_mem_cons.2 ⟨.text "red", List.forall_mem_singleton.2 ?_⟩)
    exact .nested (List.forall_mem_singleton.2 (.int 1))
  have hforged : forged.FloatFree := .nested (List.forall_mem_singleton.2 (.text _))
  have hiff := Level.text_eq_iff hhovered hforged
  refine ⟨hhovered, hforged, hiff, fun htext => ?_⟩
  have hsize : hovered.size = forged.size := congrArg Level.size (hiff.1 htext)
  cases hsize

end StyleTree
