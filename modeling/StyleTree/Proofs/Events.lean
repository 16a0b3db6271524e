import StyleTree.Compile
import StyleTree.Level.Lemmas

/-!
Compilation as a flat list of events. Evaluating a value comes to touching levels and writing
leaves, each at the end of a path of selectors. The compiler takes a level out of its place, writes
a whole branch into it and puts it back. Replaying the events does nothing of the kind: each event
on its own goes down from the outermost level. The two give the same style, with the same entries in
the same order at every level, and the first leaf without a literal is what a compilation fails
with.
-/

namespace StyleTree

/-- What stands at the end of the branches of a value. -/
inductive Leaf
  | literal (value : Literal)
  | themed (compute : Theme → Except String Literal)

/-- The literal of a leaf, or the reason why it has none. -/
def Leaf.answer (theme : Theme) : Leaf → Except String Literal
  | literal value => .ok value
  | themed compute => compute theme

def StyleError.ofAnswer? (property : String) : Except String Literal → Option StyleError
  | .ok _ => none
  | .error reason => some (.themed property reason)

theorem StyleError.ofAnswer?_eq_none_iff {property : String} {answer : Except String Literal} :
    ofAnswer? property answer = none ↔ ∃ value, answer = .ok value := by
  cases answer <;> simp [ofAnswer?]

/-- One step of the evaluation of a value. Paths start at the level the value is written into. -/
inductive Event
  /-- The level at the end of the path is reached. -/
  | touch (path : List String)
  /-- A leaf is written at the end of the path. -/
  | write (path : List String) (leaf : Leaf)

namespace Event

def path : Event → List String
  | touch path => path
  | write path _ => path

/-- The event with a selector put in front of its path. -/
def within (selector : String) : Event → Event
  | touch path => touch (selector :: path)
  | write path leaf => write (selector :: path) leaf

def computation? : Event → Option (Theme → Except String Literal)
  | write _ (.themed compute) => some compute
  | _ => none

@[simp] theorem path_within (selector : String) (event : Event) :
    (event.within selector).path = selector :: event.path := by
  cases event <;> rfl

@[simp] theorem computation?_within (selector : String) (event : Event) :
    (event.within selector).computation? = event.computation? := by
  cases event with
  | touch path => rfl
  | write path leaf => cases leaf <;> rfl

end Event

namespace Target

def firstEvents (target : Target) (events : List Event) : List Event :=
  match target with
  | base => events
  | under selector => .touch [selector] :: events.map (.within selector)
  | pinned => []
  | dropped => []

def pinnedEvents (target : Target) (events : List Event) : List Event :=
  match target with
  | pinned => events
  | _ => []

end Target

mutual

/-- The events of a value in the order of evaluation. -/
def Value.events (context : Context) : Value → List Event
  | .literal value => [.write [] (.literal value)]
  | .themed compute => [.write [] (.themed compute)]
  | .branches entries =>
      Branches.firstEvents context entries ++ Branches.pinnedEvents context entries
  | .empty => []

def Branches.firstEvents (context : Context) : List (String × Value) → List Event
  | [] => []
  | (name, value) :: rest =>
      (context.target name).firstEvents (Value.events context value) ++
        Branches.firstEvents context rest

def Branches.pinnedEvents (context : Context) : List (String × Value) → List Event
  | [] => []
  | (name, value) :: rest =>
      (context.target name).pinnedEvents (Value.events context value) ++
        Branches.pinnedEvents context rest

end

theorem Branches.firstEvents_eq_flatMap (context : Context) (entries : List (String × Value)) :
    Branches.firstEvents context entries =
      entries.flatMap fun e => (context.target e.1).firstEvents (e.2.events context) := by
  induction entries with
  | nil => rfl
  | cons e entries ih => rw [Branches.firstEvents, ih, List.flatMap_cons]

theorem Branches.pinnedEvents_eq_flatMap (context : Context) (entries : List (String × Value)) :
    Branches.pinnedEvents context entries =
      entries.flatMap fun e => (context.target e.1).pinnedEvents (e.2.events context) := by
  induction entries with
  | nil => rfl
  | cons e entries ih => rw [Branches.pinnedEvents, ih, List.flatMap_cons]

/-- First all branches that are not pinned in order, then the pinned ones in order. -/
theorem Value.events_branches (context : Context) (entries : List (String × Value)) :
    (Value.branches entries).events context =
      (entries.flatMap fun e => (context.target e.1).firstEvents (e.2.events context)) ++
        entries.flatMap fun e => (context.target e.1).pinnedEvents (e.2.events context) := by
  rw [Value.events, Branches.firstEvents_eq_flatMap, Branches.pinnedEvents_eq_flatMap]

theorem Target.mem_events {target : Target} {events : List Event} {event : Event} :
    event ∈ target.firstEvents events ∨ event ∈ target.pinnedEvents events ↔
      (target = .base ∨ target = .pinned) ∧ event ∈ events ∨
        ∃ selector, target = .under selector ∧
          (event = .touch [selector] ∨ ∃ inner ∈ events, event = inner.within selector) := by
  cases target <;> simp [firstEvents, pinnedEvents, eq_comm]

/-- An event of a choice is an event of a live branch, seen from around the branch, or it is the
first to come to the level of a branch. -/
theorem Value.mem_events_branches {context : Context} {entries : List (String × Value)}
    {event : Event} :
    event ∈ (Value.branches entries).events context ↔
      ∃ entry ∈ entries,
        (context.target entry.1 = .base ∨ context.target entry.1 = .pinned) ∧
            event ∈ entry.2.events context ∨
          ∃ selector, context.target entry.1 = .under selector ∧
            (event = .touch [selector] ∨
              ∃ inner ∈ entry.2.events context, event = inner.within selector) := by
  rw [Value.events_branches, List.mem_append, List.mem_flatMap, List.mem_flatMap, ← exists_or]
  simp only [← and_or_left, Target.mem_events]

namespace Spec

/-- The events of all properties in order, each with its property. -/
def events (context : Context) (spec : Spec) : List (String × Event) :=
  spec.pairs.flatMap fun entry => (entry.2.events context).map (entry.1, ·)

/-- The functions of the theme in the order in which they are called, each with its property. -/
def computations (context : Context) (spec : Spec) :
    List (String × (Theme → Except String Literal)) :=
  (spec.events context).filterMap fun e => e.2.computation?.map (e.1, ·)

end Spec

theorem Spec.mem_events {context : Context} {spec : Spec} {e : String × Event} :
    e ∈ spec.events context ↔
      ∃ entry ∈ spec.pairs, entry.1 = e.1 ∧ e.2 ∈ entry.2.events context := by
  obtain ⟨property, event⟩ := e
  simp only [Spec.events, List.mem_flatMap, List.mem_map, Prod.mk.injEq]
  constructor
  · rintro ⟨entry, hentry, _, hevent, rfl, rfl⟩
    exact ⟨entry, hentry, rfl, hevent⟩
  · rintro ⟨entry, hentry, rfl, hevent⟩
    exact ⟨entry, hentry, event, hevent, rfl, rfl⟩

/-- Lets `f` work on the level at the end of a path. A selector that is missing on the way is added
last, with an empty level, and a literal in the way gives its place to an empty level. -/
def Level.updateAt (f : Level → Level) : List String → Level → Level
  | [], level => f level
  | selector :: path, level => level.nest selector (updateAt f path (level.under selector))

namespace Event

/-- What a level becomes by an event of a property. A leaf without a literal writes nothing. -/
def apply (theme : Theme) (property : String) : Event → Level → Level
  | touch path => Level.updateAt id path
  | write path leaf =>
      match leaf.answer theme with
      | .ok value => Level.updateAt (·.set property value) path
      | .error _ => Level.updateAt id path

def failure? (theme : Theme) (property : String) : Event → Option StyleError
  | touch _ => none
  | write _ leaf => StyleError.ofAnswer? property (leaf.answer theme)

theorem failure?_eq_bind (theme : Theme) (property : String) (event : Event) :
    event.failure? theme property =
      event.computation?.bind fun compute => StyleError.ofAnswer? property (compute theme) := by
  cases event with
  | touch path => rfl
  | write path leaf => cases leaf <;> rfl

end Event

/-- Only functions of the theme fail. -/
theorem Spec.findSome?_failure? (context : Context) (spec : Spec) :
    (spec.events context).findSome? (fun e => e.2.failure? context.theme e.1) =
      (spec.computations context).findSome? fun c =>
        StyleError.ofAnswer? c.1 (c.2 context.theme) := by
  rw [← List.head?_filterMap, ← List.head?_filterMap, Spec.computations, List.filterMap_filterMap]
  congr 2
  funext e
  rw [Event.failure?_eq_bind, Option.bind_map]
  rfl

def Level.replay (theme : Theme) (events : List (String × Event)) (level : Level) : Level :=
  events.foldl (fun level e => e.2.apply theme e.1 level) level

end StyleTree
