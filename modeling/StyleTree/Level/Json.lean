import StyleTree.Level.Basic

/-!
The JSON form of a compiled style: an object with the keys of the level in order. It can be had as
a document or directly as text.
-/

namespace StyleTree

mutual

def Entry.toJson : Entry → Json
  | .literal l => l.toJson
  | .nested es => .object (Entry.toMembers es)

def Entry.toMembers : List (String × Entry) → List (String × Json)
  | [] => []
  | (k, e) :: rest => (k, Entry.toJson e) :: Entry.toMembers rest

end

def Level.toJson (level : Level) : Json := .object (Entry.toMembers level.entries)

def Json.ofLevel (level : Level) : Json := level.toJson

def Literal.chars : Literal → List Char
  | text s => Json.quoted s
  | int n => Decimal.intChars n.toInt
  | float f => if f.isFinite then (Json.numberLayout.text f).toList else "null".toList

mutual

def Entry.chars : Entry → List Char
  | .literal l => l.chars
  | .nested es => Json.bracketed '{' '}' (Entry.memberChars es)

def Entry.memberChars : List (String × Entry) → List (List Char)
  | [] => []
  | (k, e) :: rest => (Json.quoted k ++ ':' :: Entry.chars e) :: Entry.memberChars rest

end

/-- The text of a style, written without making a document first. -/
def Level.text (level : Level) : String :=
  String.ofList (Json.bracketed '{' '}' (Entry.memberChars level.entries))

theorem Entry.toMembers_eq_map (es : List (String × Entry)) :
    Entry.toMembers es = es.map fun e => (e.1, e.2.toJson) := by
  induction es with
  | nil => rfl
  | cons e es ih => simp [Entry.toMembers, ih]

theorem Entry.memberChars_eq_map (es : List (String × Entry)) :
    Entry.memberChars es = es.map fun e => Json.quoted e.1 ++ ':' :: e.2.chars := by
  induction es with
  | nil => rfl
  | cons e es ih => simp [Entry.memberChars, ih]

end StyleTree
