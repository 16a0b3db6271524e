import StyleTree.Json.Text
import StyleTree.Text

/-!
Literals: the values that end up in a compiled style. A whole number is never equal to a
floating-point number, and floating-point numbers compare as numbers do, so that not-a-number
differs from itself and negative zero equals zero.
-/

namespace StyleTree

inductive Literal
  | text (value : String)
  | int (value : Int64)
  | float (value : Float)
  deriving BEq, Inhabited

namespace Literal

def text? : Literal → Option String
  | text s => some s
  | _ => none

/-- A number from a document: whole if it fits into sixty-four bits with a sign, else the nearest
floating-point number. -/
def ofNumber : Json.Number → Literal
  | .int n =>
      if Int64.minValue.toInt ≤ n ∧ n ≤ Int64.maxValue.toInt then int (Int64.ofInt n)
      else float (Float.ofInt n)
  | .float f _ => float f

/-- The JSON form. Numbers without one become `null`. -/
def toJson : Literal → Json
  | text s => .string s
  | int n => .int n.toInt
  | float f => .ofFloat f

/-- In plain text numbers never have an exponent, and whole ones no point. -/
def plainLayout : Decimal.Layout where
  positional _ := true
  pointZero := false
  plusSign := false
  tie := .up

def display : Literal → String
  | text s => s
  | int n => Decimal.intText n.toInt
  | float f => plainLayout.text f

/-- In descriptions floating-point numbers always show that they are no whole numbers. -/
def descriptionLayout : Decimal.Layout where
  positional p := -4 ≤ p && p ≤ 15
  pointZero := true
  plusSign := false
  tie := .up

def describe : Literal → String
  | text s => "Str(" ++ Text.quoted s ++ ")"
  | int n => "Int(" ++ Decimal.intText n.toInt ++ ")"
  | float f => "Float(" ++ descriptionLayout.text f ++ ")"

end Literal

end StyleTree
