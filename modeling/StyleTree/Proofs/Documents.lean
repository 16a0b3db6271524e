import StyleTree.Level.Json
import StyleTree.Value

/-!
The documents of styles. The text of the document of a style is the text of the style itself, and a
value that is read from the document is the style once more: a choice for each level, with the same
names in the same order, and a literal for each literal. Only floating-point numbers that are not
finite are lost, since they have no JSON form: they are `null` in both texts, and are read as
nothing.
-/

namespace StyleTree

/-! ### One text -/

theorem Json.chars_ofFloat (f : Float) :
    (Json.ofFloat f).chars =
      if f.isFinite then (Json.numberLayout.text f).toList else "null".toList := by
  rw [Json.ofFloat]
  split <;> rfl

theorem Literal.chars_toJson (l : Literal) : l.toJson.chars = l.chars := by
  cases l with
  | text s => rfl
  | int n => rfl
  | float f => exact Json.chars_ofFloat f

theorem Entry.chars_toJson (entry : Entry) : entry.toJson.chars = entry.chars := by
  induction entry using Entry.induct with
  | literal value => exact value.chars_toJson
  | nested entries ih =>
      rw [Entry.toJson, Json.chars, Json.memberChars_eq_map, Entry.toMembers_eq_map, List.map_map,
        Entry.chars, Entry.memberChars_eq_map]
      congr 1
      refine List.map_congr_left fun e he => ?_
      rw [Function.comp_apply, ih e he]

theorem Level.text_toJson (level : Level) : level.toJson.text = level.text :=
  congrArg String.ofList (Entry.nested level.entries).chars_toJson

/-! ### What is read back -/

/-- What is left of a literal in a document: all of it, unless it has no JSON form. -/
def Literal.readBack : Literal → Value
  | text s => .literal (.text s)
  | int n => .literal (.int n)
  | float f => if f.isFinite then .literal (.float f) else .empty

mutual

/-- The value that stands for an entry: a level is a choice with a branch under each of its keys. -/
def Entry.readBack : Entry → Value
  | .literal l => l.readBack
  | .nested es => .branches (Entry.readBackEntries es)

def Entry.readBackEntries : List (String × Entry) → List (String × Value)
  | [] => []
  | (k, e) :: rest => (k, Entry.readBack e) :: Entry.readBackEntries rest

end

def Level.readBack (level : Level) : Value := .branches (Entry.readBackEntries level.entries)

theorem Entry.readBackEntries_eq_map (es : List (String × Entry)) :
    Entry.readBackEntries es = es.map fun e => (e.1, e.2.readBack) := by
  induction es with
  | nil => rfl
  | cons e es ih => simp [Entry.readBackEntries, ih]

theorem Literal.ofNumber_toInt (n : Int64) : Literal.ofNumber (.int n.toInt) = .int n := by
  rw [Literal.ofNumber, if_pos ⟨n.minValue_le_toInt, n.toInt_le⟩, Int64.ofInt_toInt]

theorem Literal.ofJson_toJson (l : Literal) : Value.ofJson l.toJson = l.readBack := by
  cases l with
  | text s => rfl
  | int n => exact congrArg Value.literal (Literal.ofNumber_toInt n)
  | float f =>
      rw [Literal.toJson, Json.ofFloat, Literal.readBack]
      split <;> rfl

theorem Entry.ofJson_toJson (entry : Entry) : Value.ofJson entry.toJson = entry.readBack := by
  induction entry using Entry.induct with
  | literal value => exact value.ofJson_toJson
  | nested entries ih =>
      rw [Entry.toJson, Value.ofJson, Value.ofMembers_eq_map, Entry.toMembers_eq_map, List.map_map,
        Entry.readBack, Entry.readBackEntries_eq_map]
      congr 1
      refine List.map_congr_left fun e he => ?_
      rw [Function.comp_apply, ih e he]

/-- The text that is written for a style directly is that of its document, however the document is
asked for. The value that is read from the document has a choice for each level, with the same names
in the same order, and each literal as it was: strings, whole numbers and floating-point numbers
keep their kind, also where a floating-point number has no fraction. Nothing stands where the
document says `null`, for a number that is not finite. -/
theorem Level.document_agrees (level : Level) :
    level.toJson.text = level.text ∧ (Json.ofLevel level).text = level.text ∧
    Value.ofJson level.toJson = level.readBack :=
  ⟨level.text_toJson, level.text_toJson, (Entry.nested level.entries).ofJson_toJson⟩

example : Value.ofJson (Level.toJson ⟨[("order", .literal (.float 1)), ("&:hover", .nested [
    ("order", .literal (.int (-1))), ("scale", .literal (.float (0 / 0)))])]⟩) =
      .branches [("order", .literal (.float 1)), ("&:hover", .branches [
        ("order", .literal (.int (-1))), ("scale", .empty)])] := rfl

end StyleTree
