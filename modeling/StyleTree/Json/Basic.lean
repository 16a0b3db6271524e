import StyleTree.Table.Basic

/-!
JSON documents whose objects keep the order of their members. Themes are made of them, style
values can be written in them, and a compiled style is delivered as one. Two documents are the
same if they differ at most in the order of object members.
-/

namespace StyleTree

/-- A JSON number. Whole numbers and floating-point numbers are different kinds: `1` is not `1.0`.
Infinities and not-a-number have no JSON form. -/
inductive Json.Number
  | int (value : Int)
  | float (value : Float) (finite : value.isFinite = true)

def Json.Number.same : Json.Number → Json.Number → Bool
  | .int a, .int b => a == b
  | .float a _, .float b _ => a == b
  | _, _ => false

inductive Json
  | null
  | bool (value : Bool)
  | number (value : Json.Number)
  | string (value : String)
  | array (items : List Json)
  | object (members : List (String × Json))

namespace Json

instance : Inhabited Json := ⟨null⟩

def int (n : Int) : Json := number (.int n)

def ofFloat (f : Float) : Json :=
  if h : f.isFinite = true then number (.float f h) else null

/-- The object with the given members; a repeated name keeps its first place and its last value. -/
def ofMembers (ps : Pairs Json) : Json := object (Table.ofPairs ps).pairs

def string? : Json → Option String
  | string s => some s
  | _ => none

def members? : Json → Option (Pairs Json)
  | object ms => some ms
  | _ => none

def member? (doc : Json) (name : String) : Option Json :=
  doc.members?.bind (·.lookup name)

def descend? (doc : Json) (path : List String) : Option Json := path.foldlM member? doc

@[simp] theorem descend?_nil (doc : Json) : doc.descend? [] = some doc := rfl

@[simp] theorem descend?_cons (doc : Json) (name : String) (path : List String) :
    doc.descend? (name :: path) = (doc.member? name).bind (·.descend? path) := rfl

theorem descend?_append (doc : Json) (p q : List String) :
    doc.descend? (p ++ q) = (doc.descend? p).bind (·.descend? q) := by
  simp only [descend?, List.foldlM_append]
  rfl

mutual

/-- Equality of documents up to the order of object members. -/
def same : Json → Json → Bool
  | null, null => true
  | bool a, bool b => a == b
  | number a, number b => a.same b
  | string a, string b => a == b
  | array xs, array ys => sameItems xs ys
  | object xs, object ys => xs.length == ys.length && sameMembers xs ys
  | _, _ => false

def sameItems : List Json → List Json → Bool
  | [], [] => true
  | x :: xs, y :: ys => same x y && sameItems xs ys
  | _, _ => false

def sameMembers : List (String × Json) → List (String × Json) → Bool
  | [], _ => true
  | (k, x) :: rest, ys =>
      (match ys.lookup k with
        | some y => same x y
        | none => false) && sameMembers rest ys

end

end Json

end StyleTree
