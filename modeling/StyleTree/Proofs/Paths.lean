import StyleTree.Proofs.Theming

/-!
Dotted paths into a theme. Looking up two paths with a dot between them is looking up the first one
and then, if it leads to an object, the second one in the theme that this object makes. Nothing but
an object has anything further in. Every dot of a path separates two names, so an entry of a theme
with a dot in its name is out of reach.
-/

namespace StyleTree

/-- No object has two members of the same name, at any depth. -/
inductive Json.Distinct : Json → Prop
  | null : Distinct .null
  | bool (value : Bool) : Distinct (.bool value)
  | number (value : Json.Number) : Distinct (.number value)
  | string (value : String) : Distinct (.string value)
  | array {items : List Json} (hitems : ∀ item ∈ items, Distinct item) : Distinct (.array items)
  | object {members : List (String × Json)} (hkeys : (Pairs.keys members).Nodup)
      (hmembers : ∀ m ∈ members, Distinct m.2) : Distinct (.object members)

namespace Json.Distinct

theorem ofMembers {members : Pairs Json} (h : ∀ m ∈ members, m.2.Distinct) :
    (Json.ofMembers members).Distinct := by
  refine .object (Table.ofPairs members).nodup fun m hm => ?_
  exact h m ((Pairs.mem_of_mem_extend hm).resolve_left List.not_mem_nil)

theorem member? {doc inner : Json} {name : String} (h : doc.Distinct)
    (hinner : doc.member? name = some inner) : inner.Distinct := by
  cases h with
  | object _ hmembers => exact hmembers _ (Pairs.mem_of_lookup hinner)
  | _ => cases hinner

theorem descend? {doc inner : Json} {path : List String} (h : doc.Distinct)
    (hinner : doc.descend? path = some inner) : inner.Distinct := by
  induction path generalizing doc with
  | nil =>
      obtain rfl := Option.some.inj hinner
      exact h
  | cons name path ih =>
      rw [Json.descend?_cons, Option.bind_eq_some_iff] at hinner
      obtain ⟨next, hnext, hinner⟩ := hinner
      exact ih (h.member? hnext) hinner

end Json.Distinct

/-! ### The names of a path -/

theorem not_mem_of_mem_splitOn {chars part : List Char} {c : Char} (h : part ∈ chars.splitOn c) :
    c ∉ part := by
  induction chars generalizing part with
  | nil =>
      rw [List.splitOn_nil, List.mem_singleton] at h
      exact h ▸ List.not_mem_nil
  | cons d chars ih =>
      rw [List.splitOn_cons_eq_if_modifyHead] at h
      split at h
      · rcases List.mem_cons.1 h with rfl | h
        · exact List.not_mem_nil
        · exact ih h
      · rename_i hne
        obtain ⟨first, others, hsplit⟩ := List.exists_cons_of_ne_nil (List.splitOn_ne_nil c chars)
        rw [hsplit] at h ih
        rcases List.mem_cons.1 h with rfl | h
        · rw [List.mem_cons, not_or]
          exact ⟨fun heq => hne (beq_iff_eq.2 heq.symm), ih List.mem_cons_self⟩
        · exact ih (List.mem_cons_of_mem _ h)

namespace Theme

theorem segments_of_not_mem {name : String} (h : '.' ∉ name.toList) : segments name = [name] := by
  rw [segments, List.splitOn_eq_singleton h]
  simp

theorem not_mem_firstSegment (path : String) : '.' ∉ (firstSegment path).toList := by
  obtain ⟨part, hpart, hname⟩ := List.mem_map.1 (List.head_mem (segments_ne_nil path))
  rw [firstSegment, ← hname, String.toList_ofList]
  exact not_mem_of_mem_splitOn hpart

theorem lookup?_eq_descend? (theme : Theme) (path : String) :
    theme.lookup? path = theme.toJson.descend? (segments path) := by
  obtain ⟨name, rest, hsegments⟩ := List.exists_cons_of_ne_nil (segments_ne_nil path)
  rw [lookup?, hsegments]
  rfl

theorem distinct_toJson_iff {theme : Theme} :
    theme.toJson.Distinct ↔ ∀ entry ∈ theme.pairs, entry.2.Distinct := by
  constructor
  · intro h
    cases h with
    | object _ hmembers => exact hmembers
  · exact fun h => .object theme.nodup h

theorem distinct_ofJson {doc : Json} (h : doc.Distinct) : (ofJson doc).toJson.Distinct := by
  cases h with
  | object _ hmembers => exact Json.Distinct.ofMembers hmembers
  | _ => exact distinct_toJson_iff.2 fun _ hentry => absurd hentry List.not_mem_nil

theorem distinct_merge {theme override : Theme} (h : theme.toJson.Distinct)
    (hoverride : override.toJson.Distinct) : (toJson (theme.merge override)).Distinct := by
  rw [distinct_toJson_iff] at h hoverride ⊢
  exact fun entry hentry => (Pairs.mem_of_mem_extend hentry).elim (h entry) (hoverride entry)

theorem toJson_ofJson {members : Pairs Json} (h : (Pairs.keys members).Nodup) :
    (ofJson (.object members)).toJson = .object members :=
  congrArg Json.object (Pairs.extend_nil_left h)

/-- What a document has at a path is what the theme made of it has there. Only objects make one. -/
theorem descend?_segments {doc : Json} (h : doc.Distinct) (path : String) :
    doc.descend? (segments path) = (ofObject? doc).bind (·.lookup? path) := by
  cases h with
  | @object members hkeys _ =>
      show _ = (ofJson (.object members)).lookup? path
      rw [lookup?_eq_descend?, toJson_ofJson hkeys]
  | _ =>
      obtain ⟨name, rest, hsegments⟩ := List.exists_cons_of_ne_nil (segments_ne_nil path)
      rw [hsegments]
      rfl

/-- Looking up two paths with a dot between them is looking up the second one in the theme of the
object that the first one leads to; if it leads to no object, there is nothing. No object of the
theme may have two members of one name, and none has that is made of its members in order, however
themes are laid over each other. A name without a dot is looked up among the entries of the theme,
and an entry with a dot in its name never matters. -/
theorem lookup?_dotted (theme : Theme) :
    (theme.toJson.Distinct → ∀ p q, theme.lookup? (p ++ "." ++ q) =
      match theme.lookup? p with
      | some (.object members) => (ofJson (.object members)).lookup? q
      | _ => none) ∧
    (∀ name, '.' ∉ name.toList → theme.lookup? name = theme.get? name) ∧
    ∀ other : Theme, (∀ name, '.' ∉ name.toList → other.get? name = theme.get? name) →
      ∀ path, other.lookup? path = theme.lookup? path := by
  refine ⟨?_, ?_, ?_⟩
  · intro hdistinct p q
    rw [lookup?_eq_descend?, segments_append, Json.descend?_append, ← lookup?_eq_descend?]
    cases hdoc : theme.lookup? p with
    | none => rfl
    | some doc =>
        rw [lookup?_eq_descend?] at hdoc
        rw [Option.bind_some, descend?_segments (hdistinct.descend? hdoc)]
        cases doc <;> rfl
  · intro name hname
    rw [lookup?, segments_of_not_mem hname]
    show (theme.get? name).bind some = _
    exact Option.bind_fun_some _
  · intro other hsame path
    rw [lookup?_eq_bind, lookup?_eq_bind, hsame _ (not_mem_firstSegment path)]

/-- Colours for text, some lengths, and an entry that looks like a path. -/
def tokens : Theme := .ofPairs [
  ("palette", .ofMembers [("text", .ofMembers [("main", .string "black"), ("", .string "grey")])]),
  ("palette.text", .string "red"),
  ("lengths", .array [.string "thin"])]

theorem tokens_distinct : tokens.toJson.Distinct := by
  have htext : (Json.ofMembers [("main", .string "black"), ("", .string "grey")]).Distinct :=
    .ofMembers (by simp [Json.Distinct.string])
  have hpalette : (Json.ofMembers [("text",
      .ofMembers [("main", .string "black"), ("", .string "grey")])]).Distinct :=
    .ofMembers (by simpa using htext)
  have hlengths : (Json.array [.string "thin"]).Distinct :=
    .array (by simp [Json.Distinct.string])
  refine .ofMembers ?_
  simp [hpalette, hlengths, Json.Distinct.string]

theorem get?_erase_tokens {name : String} (h : '.' ∉ name.toList) :
    (tokens.erase "palette.text").get? name = tokens.get? name := by
  rw [Table.get?_erase, if_neg]
  rintro rfl
  exact h (by decide)

theorem tokens_lookup?_dotted :
    tokens.toJson.Distinct ∧
    (tokens.lookup? "palette" = some (.ofMembers [("text",
        .ofMembers [("main", .string "black"), ("", .string "grey")])]) ∧
      tokens.lookup? ("palette" ++ "." ++ "text.main") = some (.string "black") ∧
      tokens.lookup? ("palette" ++ "." ++ "text.") = some (.string "grey") ∧
      tokens.lookup? ("lengths" ++ "." ++ "0") = none) ∧
    ('.' ∉ "lengths".toList ∧ tokens.lookup? "lengths" = tokens.get? "lengths") ∧
    (∀ name, '.' ∉ name.toList → (tokens.erase "palette.text").get? name = tokens.get? name) ∧
    ∀ path, lookup? (tokens.erase "palette.text") path = tokens.lookup? path := by
  obtain ⟨hdotted, hname, hother⟩ := lookup?_dotted tokens
  have hdotted := hdotted tokens_distinct
  exact ⟨tokens_distinct, ⟨rfl, hdotted "palette" "text.main", hdotted "palette" "text.",
      hdotted "lengths" "0"⟩, ⟨by decide, hname _ (by decide)⟩, fun _ => get?_erase_tokens,
    hother _ fun _ => get?_erase_tokens⟩

end Theme

end StyleTree
