import StyleTree.Decimal

/-!
Boundaries: elements whose interactive state governs the styles of their descendants. A boundary
may pin a state to true or false. For a state that it leaves open it says how to select what lies
inside it while it is in that state.
-/

namespace StyleTree

inductive PseudoState
  | active
  | checked
  | disabled
  | focus
  | hover
  deriving DecidableEq, Inhabited

namespace PseudoState

def name : PseudoState → String
  | active => "active"
  | checked => "checked"
  | disabled => "disabled"
  | focus => "focus"
  | hover => "hover"

def pseudoClass (state : PseudoState) : String := ":" ++ state.name

def all : List PseudoState := [active, checked, disabled, focus, hover]

theorem mem_all (state : PseudoState) : state ∈ all := by cases state <;> decide

end PseudoState

/-- What a resolver can ask of a boundary. -/
structure Boundary where
  pinned : PseudoState → Option Bool
  inside : String → String

structure ClassBoundary where
  className : String
  pins : PseudoState → Option Bool

namespace ClassBoundary

def ofClass (className : String) : ClassBoundary := ⟨className, fun _ => none⟩

def pin (b : ClassBoundary) (state : PseudoState) (value : Bool) : ClassBoundary :=
  { b with pins := fun s => if s = state then some value else b.pins s }

/-- The selector of what lies inside an element of the class while that element matches a suffix. -/
def inside (b : ClassBoundary) (suffix : String) : String :=
  "." ++ b.className ++ suffix ++ " &"

def toBoundary (b : ClassBoundary) : Boundary := ⟨b.pins, b.inside⟩

instance : DecidableEq ClassBoundary := fun a b =>
  decidable_of_iff (a.className = b.className ∧ ∀ s ∈ PseudoState.all, a.pins s = b.pins s) <| by
    constructor
    · intro ⟨hc, hp⟩
      obtain ⟨c, p⟩ := a
      obtain ⟨c', p'⟩ := b
      obtain rfl : c = c' := hc
      obtain rfl : p = p' := funext fun s => hp s s.mem_all
      rfl
    · rintro rfl
      exact ⟨rfl, fun _ _ => rfl⟩

/-- A boundary with the class that belongs to a number, and the number for the next one. Numbers
have sixty-four bits and start again after the last one. -/
def fresh (next : UInt64) : ClassBoundary × UInt64 :=
  (ofClass ("sx-control-" ++ Decimal.natText next.toNat), next + 1)

def freshList : Nat → UInt64 → List ClassBoundary × UInt64
  | 0, next => ([], next)
  | n + 1, next =>
      let (b, next) := fresh next
      let (bs, next) := freshList n next
      (b :: bs, next)

@[simp] theorem pins_ofClass (c : String) (s : PseudoState) : (ofClass c).pins s = none := rfl

@[simp] theorem pins_pin (b : ClassBoundary) (s t : PseudoState) (value : Bool) :
    (b.pin s value).pins t = if t = s then some value else b.pins t := rfl

@[simp] theorem className_pin (b : ClassBoundary) (s : PseudoState) (value : Bool) :
    (b.pin s value).className = b.className := rfl

end ClassBoundary

end StyleTree
