import StyleTree.Literal
import StyleTree.Theme

/-!
Values of style properties. A value is a literal, a function of the theme, or a choice between
branches, each under a selector name. The name `default` stands for the element itself.
-/

namespace StyleTree

inductive Value
  | literal (value : Literal)
  | themed (compute : Theme → Except String Literal)
  | branches (entries : List (String × Value))
  /-- Contributes nothing. -/
  | empty

instance : Inhabited Value := ⟨.empty⟩

/-- What passes from all branches of a choice to the choice holds of every value. -/
@[elab_as_elim, induction_eliminator] theorem Value.induct {motive : Value → Prop}
    (literal : ∀ l, motive (.literal l)) (themed : ∀ compute, motive (.themed compute))
    (branches : ∀ entries, (∀ entry ∈ entries, motive entry.2) → motive (.branches entries))
    (empty : motive .empty) (value : Value) : motive value :=
  @Value.rec motive (fun entries => ∀ entry ∈ entries, motive entry.2) (fun entry => motive entry.2)
    literal themed branches empty (by simp)
    (fun _ _ hentry hrest => List.forall_mem_cons.2 ⟨hentry, hrest⟩) (fun _ _ hvalue => hvalue)
    value

abbrev Branches := Pairs Value

namespace Branches

/-- The selector name that stands for the element itself. -/
def baseName : String := "default"

def insert (bs : Branches) (name : String) (value : Value) : Branches :=
  Pairs.insert name value bs

def insertBase (bs : Branches) (value : Value) : Branches := bs.insert baseName value

def get? (bs : Branches) (name : String) : Option Value := bs.lookup name

/-- The branches that a list of entries amounts to. -/
def ofPairs (ps : Pairs Value) : Branches := Pairs.extend [] ps

end Branches

namespace Value

def isEmpty : Value → Bool
  | empty => true
  | _ => false

def literal? : Value → Option Literal
  | literal l => some l
  | _ => none

def branches? : Value → Option Branches
  | branches bs => some bs
  | _ => none

/-- The value as the only branch under a name, `n` times over. -/
def nest (name : String) (value : Value) : Nat → Value
  | 0 => value
  | n + 1 => branches [(name, nest name value n)]

mutual

/-- The value that a document stands for: strings and numbers are literals and objects are branches.
Anything else contributes nothing. -/
def ofJson : Json → Value
  | .string s => literal (.text s)
  | .number n => literal (.ofNumber n)
  | .object ms => branches (ofMembers ms)
  | .null => empty
  | .bool _ => empty
  | .array _ => empty

def ofMembers : List (String × Json) → List (String × Value)
  | [] => []
  | (k, x) :: rest => (k, ofJson x) :: ofMembers rest

end

theorem ofMembers_eq_map (ms : List (String × Json)) :
    ofMembers ms = ms.map fun m => (m.1, ofJson m.2) := by
  induction ms with
  | nil => rfl
  | cons m ms ih => simp [ofMembers, ih]

mutual

def describe : Value → String
  | literal l => "Literal(" ++ l.describe ++ ")"
  | themed _ => "Theme(<fn>)"
  | branches bs => "Variants(" ++ Text.nameMap (describeEntries bs) ++ ")"
  | empty => "Empty"

def describeEntries : List (String × Value) → List (String × String)
  | [] => []
  | (k, v) :: rest => (k, describe v) :: describeEntries rest

end

theorem describeEntries_eq_map (bs : List (String × Value)) :
    describeEntries bs = bs.map fun e => (e.1, describe e.2) := by
  induction bs with
  | nil => rfl
  | cons e bs ih => simp [describeEntries, ih]

end Value

def Branches.describe (bs : Branches) : String := Text.nameMap (Value.describeEntries bs)

end StyleTree
