import StyleTree.Json.Basic
import StyleTree.Table.Lemmas

/-!
Themes: the named values that style functions read. A theme is the top level of a JSON object.
Laying one theme over another replaces whole entries and never looks inside them.
-/

namespace StyleTree

abbrev Theme := Table Json

namespace Theme

def ofObject? (doc : Json) : Option Theme := doc.members?.map Table.ofPairs

/-- The theme made of the members of an object. Any other document makes an empty theme. -/
def ofJson (doc : Json) : Theme := (ofObject? doc).getD ∅

def toJson (theme : Theme) : Json := .object theme.pairs

def string? (theme : Theme) (name : String) : Option String := (theme.get? name).bind Json.string?

/-- The names between the dots of a path. Two dots in a row have the empty name between them. -/
def segments (path : String) : List String := (path.toList.splitOn '.').map String.ofList

/-- The value at a dotted path: the first name is looked up in the theme, each further one among the
members of what was found so far. -/
def lookup? (theme : Theme) (path : String) : Option Json :=
  match segments path with
  | [] => none
  | name :: rest => (theme.get? name).bind (·.descend? rest)

def same (theme other : Theme) : Bool := theme.toJson.same other.toJson

def combine : Option Theme → Option Theme → Theme
  | some ambient, some override => ambient.merge override
  | some theme, none => theme
  | none, some theme => theme
  | none, none => ∅

@[simp] theorem combine_none_right (theme : Theme) : combine (some theme) none = theme := rfl

@[simp] theorem combine_none_left (theme : Theme) : combine none (some theme) = theme := rfl

@[simp] theorem combine_some (ambient override : Theme) :
    combine (some ambient) (some override) = ambient.merge override := rfl

/-- A theme that is left out and an empty one come to the same. -/
theorem combine_eq_merge (ambient override : Option Theme) :
    combine ambient override = (ambient.getD ∅).merge (override.getD ∅) := by
  cases ambient with
  | none =>
      cases override with
      | none => exact (Table.empty_merge ∅).symm
      | some override => exact (Table.empty_merge override).symm
  | some ambient =>
      cases override with
      | none => exact (Table.merge_empty ambient).symm
      | some override => rfl

theorem combine_congr {theme override other otherOverride : Option Theme}
    (htheme : theme.getD ∅ = other.getD ∅) (hoverride : override.getD ∅ = otherOverride.getD ∅) :
    combine theme override = combine other otherOverride := by
  rw [combine_eq_merge, combine_eq_merge, htheme, hoverride]

theorem segments_append (p q : String) : segments (p ++ "." ++ q) = segments p ++ segments q := by
  have h : (p ++ "." ++ q).toList = p.toList ++ '.' :: q.toList := by simp
  simp [segments, h, List.splitOn_append_cons_self]

theorem segments_ne_nil (path : String) : segments path ≠ [] := by
  simp [segments, List.splitOn_ne_nil]

end Theme

end StyleTree
