import StyleTree.Compile.Context
import StyleTree.Shorthand

/-!
Compilation from what was authored to a style: the layers are merged, the themes are combined, the
shorthand properties are expanded, and what remains is written property by property into an empty
level. The first failure ends it.
-/

namespace StyleTree

/-!
### Writing values

A literal is written under the name of the property. Of branches, first the branches that are not
pinned are written in order, each on its own level, and then the pinned ones in order, on this
level, so that they win over `default`.
-/

/-- What the first round does about a branch: it leaves out the pinned ones and the dropped ones. -/
def Target.firstRound (target : Target) (branch : Writing Unit) : Writing Unit :=
  match target with
  | base => branch
  | under selector => Writing.within selector branch
  | pinned => pure ()
  | dropped => pure ()

def Target.secondRound (target : Target) (branch : Writing Unit) : Writing Unit :=
  match target with
  | pinned => branch
  | _ => pure ()

mutual

def Value.write (context : Context) (property : String) : Value → Writing Unit
  | .literal l => Writing.set property l
  | .themed compute => Writing.setThemed property (compute context.theme)
  | .branches entries => do
      Branches.writeFirst context property entries
      Branches.writePinned context property entries
  | .empty => pure ()

def Branches.writeFirst (context : Context) (property : String) :
    List (String × Value) → Writing Unit
  | [] => pure ()
  | (name, value) :: rest => do
      (context.target name).firstRound (Value.write context property value)
      Branches.writeFirst context property rest

def Branches.writePinned (context : Context) (property : String) :
    List (String × Value) → Writing Unit
  | [] => pure ()
  | (name, value) :: rest => do
      (context.target name).secondRound (Value.write context property value)
      Branches.writePinned context property rest

end

def Spec.write (context : Context) (spec : Spec) : Writing Unit :=
  spec.pairs.forM fun entry => entry.2.write context entry.1

/-- The style that a specification without shorthand properties compiles to: what its properties
write into an empty level. After a failure there is no style. -/
def Spec.compile (context : Context) (spec : Spec) : Except StyleError Level :=
  match (spec.write context).runOn ∅ with
  | (.ok _, level) => .ok level
  | (.error e, _) => .error e

/-! ### Requests -/

structure Request where
  layers : Layers
  resolvers : Option Resolvers := none
  shorthands : Option Shorthands := none
  theme : Option Theme := none
  /-- Laid over the theme for this compilation only. -/
  override : Option Theme := none
  boundary : Option Boundary := none
  deriving Inhabited

namespace Request

def combinedTheme (request : Request) : Theme := Theme.combine request.theme request.override

/-- What the specification is compiled in. Where the request brings no resolvers, `fallback` is
used. -/
def context (request : Request) (fallback : Resolvers) : Context where
  theme := request.combinedTheme
  resolvers := request.resolvers.getD fallback
  boundary := request.boundary

def expandedSpec (request : Request) : Except StyleError Spec :=
  match request.shorthands with
  | some shorthands => shorthands.expand request.layers.merged request.combinedTheme
  | none => .ok request.layers.merged

def compile (request : Request) (fallback : Resolvers) : Except StyleError Level := do
  let spec ← request.expandedSpec
  spec.compile (request.context fallback)

/-- A table of shorthand properties that is left out and an empty one come to the same. -/
theorem expandedSpec_eq_expand (request : Request) :
    request.expandedSpec =
      (request.shorthands.getD ∅).expand request.layers.merged request.combinedTheme := by
  rw [expandedSpec]
  cases request.shorthands with
  | none => exact (Shorthands.expand_empty _ _).symm
  | some shorthands => rfl

/-- Of the layers a compilation depends only on the specification they amount to, and of the themes
on what they combine to. No table of shorthand properties is the same as an empty one. -/
theorem compile_congr {request other : Request} {fallback otherFallback : Resolvers}
    (htheme : request.combinedTheme = other.combinedTheme)
    (hshorthands : request.shorthands.getD ∅ = other.shorthands.getD ∅)
    (hlayers : request.layers.merged = other.layers.merged)
    (hresolvers : request.resolvers.getD fallback = other.resolvers.getD otherFallback)
    (hboundary : request.boundary = other.boundary) :
    request.compile fallback = other.compile otherFallback := by
  have hspec : request.expandedSpec = other.expandedSpec := by
    rw [expandedSpec_eq_expand, expandedSpec_eq_expand, htheme, hshorthands, hlayers]
  have hcontext : request.context fallback = other.context otherFallback := by
    rw [context, context, htheme, hresolvers, hboundary]
  rw [compile, compile, hspec, hcontext]

end Request

end StyleTree
