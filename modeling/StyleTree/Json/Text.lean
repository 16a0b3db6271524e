import StyleTree.Json.Basic
import StyleTree.Decimal

/-!
The compact text of a JSON document: no white space, members in order, and in strings only those
characters escaped that have to be.
-/

namespace StyleTree.Json

def escape (c : Char) : List Char :=
  match c with
  | '"' => ['\\', '"']
  | '\\' => ['\\', '\\']
  | '\x08' => ['\\', 'b']
  | '\x0c' => ['\\', 'f']
  | '\n' => ['\\', 'n']
  | '\r' => ['\\', 'r']
  | '\t' => ['\\', 't']
  | c =>
      if c.toNat < 0x20 then
        ['\\', 'u', '0', '0', Nat.digitChar (c.toNat / 16), Nat.digitChar (c.toNat % 16)]
      else [c]

def quoted (s : String) : List Char := '"' :: (s.toList.flatMap escape ++ ['"'])

def bracketed (opening closing : Char) (parts : List (List Char)) : List Char :=
  opening :: ([','].intercalate parts ++ [closing])

/-- Numbers have a digit after the point. From `1e16` on, and below `0.00001`, they have an
exponent, whose sign is always written. -/
def numberLayout : Decimal.Layout where
  positional p := -5 ≤ p && p ≤ 15
  pointZero := true
  plusSign := true
  tie := .toEven

def Number.chars : Number → List Char
  | .int n => Decimal.intChars n
  | .float f _ => (numberLayout.text f).toList

mutual

def chars : Json → List Char
  | null => "null".toList
  | bool true => "true".toList
  | bool false => "false".toList
  | number n => n.chars
  | string s => quoted s
  | array items => bracketed '[' ']' (itemChars items)
  | object members => bracketed '{' '}' (memberChars members)

def itemChars : List Json → List (List Char)
  | [] => []
  | x :: rest => chars x :: itemChars rest

def memberChars : List (String × Json) → List (List Char)
  | [] => []
  | (k, x) :: rest => (quoted k ++ ':' :: chars x) :: memberChars rest

end

def text (doc : Json) : String := String.ofList doc.chars

theorem itemChars_eq_map (xs : List Json) : itemChars xs = xs.map chars := by
  induction xs with
  | nil => rfl
  | cons x xs ih => simp [itemChars, ih]

theorem memberChars_eq_map (ms : List (String × Json)) :
    memberChars ms = ms.map fun m => quoted m.1 ++ ':' :: m.2.chars := by
  induction ms with
  | nil => rfl
  | cons m ms ih => simp [memberChars, ih]

end StyleTree.Json
