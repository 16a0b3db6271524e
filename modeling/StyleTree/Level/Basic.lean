import StyleTree.Literal

/-!
Levels of a compiled style. A level holds literals under property names and further levels under
selectors, in the order in which they were first written. Writing a literal or a level under a key
that is there keeps the place of the key, whatever it held before.
-/

namespace StyleTree

/-- What a level holds under one key. -/
inductive Entry
  | literal (value : Literal)
  | nested (entries : List (String × Entry))

instance : Inhabited Entry := ⟨.nested []⟩

/-- What passes from all entries of a level to the level holds of every entry. -/
@[elab_as_elim] theorem Entry.induct {motive : Entry → Prop}
    (literal : ∀ value, motive (.literal value))
    (nested : ∀ entries, (∀ e ∈ entries, motive e.2) → motive (.nested entries)) (entry : Entry) :
    motive entry :=
  @Entry.rec motive (fun entries => ∀ e ∈ entries, motive e.2) (fun e => motive e.2)
    literal nested (by simp) (fun _ _ he hrest => List.forall_mem_cons.2 ⟨he, hrest⟩)
    (fun _ _ hentry => hentry) entry

/-- One level of a compiled style; as a whole, the style itself. -/
structure Level where
  entries : List (String × Entry)
  deriving Inhabited

namespace Entry

def literal? : Entry → Option Literal
  | literal l => some l
  | nested _ => none

def level? : Entry → Option Level
  | literal _ => none
  | nested es => some ⟨es⟩

mutual

def same : Entry → Entry → Bool
  | literal a, literal b => a == b
  | nested es, nested fs => es.length == fs.length && sameEntries es fs
  | _, _ => false

def sameEntries : List (String × Entry) → List (String × Entry) → Bool
  | [], _ => true
  | (k, e) :: rest, fs =>
      (match fs.lookup k with
        | some f => same e f
        | none => false) && sameEntries rest fs

end

end Entry

namespace Level

def empty : Level := ⟨[]⟩

instance : EmptyCollection Level := ⟨empty⟩

def keys (level : Level) : List String := Pairs.keys level.entries

def size (level : Level) : Nat := level.entries.length

def isEmpty (level : Level) : Bool := level.entries.isEmpty

def get? (level : Level) (key : String) : Option Entry := level.entries.lookup key

def literal? (level : Level) (property : String) : Option Literal :=
  (level.get? property).bind Entry.literal?

def nested? (level : Level) (selector : String) : Option Level :=
  (level.get? selector).bind Entry.level?

/-- The level at the end of a path of selectors. -/
def descend? (level : Level) (path : List String) : Option Level := path.foldlM nested? level

/-- Two levels are equal if they have equal entries under the same keys, in whatever order. -/
instance : BEq Level :=
  ⟨fun a b => a.entries.length == b.entries.length && Entry.sameEntries a.entries b.entries⟩

def set (level : Level) (property : String) (value : Literal) : Level :=
  ⟨Pairs.insert property (.literal value) level.entries⟩

def nest (level : Level) (selector : String) (inner : Level) : Level :=
  ⟨Pairs.insert selector (.nested inner.entries) level.entries⟩

/-- The level that writing under a selector starts from: the one that is there, or an empty one. -/
def under (level : Level) (selector : String) : Level := (level.nested? selector).getD ∅

/-- Lets `f` work on the level under a selector, and keeps what it leaves there beside its answer.
-/
def modifyUnder {α : Type} (level : Level) (selector : String) (f : Level → α × Level) :
    α × Level :=
  let (answer, inner) := f (level.under selector)
  (answer, level.nest selector inner)

@[simp] theorem entries_empty : (∅ : Level).entries = [] := rfl

@[simp] theorem keys_empty : (∅ : Level).keys = [] := rfl

@[simp] theorem get?_empty (key : String) : (∅ : Level).get? key = none := rfl

@[simp] theorem entries_set (level : Level) (property : String) (value : Literal) :
    (level.set property value).entries = Pairs.insert property (.literal value) level.entries := rfl

@[simp] theorem entries_nest (level : Level) (selector : String) (inner : Level) :
    (level.nest selector inner).entries =
      Pairs.insert selector (.nested inner.entries) level.entries := rfl

@[simp] theorem descend?_nil (level : Level) : level.descend? [] = some level := rfl

@[simp] theorem descend?_cons (level : Level) (selector : String) (path : List String) :
    level.descend? (selector :: path) = (level.nested? selector).bind (·.descend? path) := rfl

end Level

end StyleTree
