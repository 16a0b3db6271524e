import StyleTree.Compile

/-!
Presets are resolvers, shorthand properties and a theme that many specifications are compiled with.
A preset without resolvers of its own uses those in force when it compiles. A session is a preset
that is built up step by step, a saved copy of one, and the resolvers in force.
-/

namespace StyleTree

/-! ### Presets -/

structure Preset where
  resolvers : Option Resolvers := none
  shorthands : Shorthands := ∅
  theme : Theme := ∅
  deriving Inhabited

namespace Preset

def request (preset : Preset) (layers : Layers) (boundary : Option Boundary)
    (override : Option Theme) : Request where
  layers := layers
  resolvers := preset.resolvers
  shorthands := some preset.shorthands
  theme := some preset.theme
  override := override
  boundary := boundary

def compile (preset : Preset) (fallback : Resolvers) (layers : Layers)
    (boundary : Option Boundary) (override : Option Theme) : Except StyleError Level :=
  (preset.request layers boundary override).compile fallback

end Preset

/-! ### Sessions -/

structure Session where
  current : Preset := {}
  saved : Preset := {}
  /-- The resolvers for compilations that bring none. -/
  fallback : Resolvers := Resolvers.builtin
  deriving Inhabited

namespace Session

inductive Command
  | fresh
  | useResolvers (resolvers : Resolvers)
  | useShorthands (shorthands : Shorthands)
  | useTheme (theme : Theme)
  | save
  | load
  | compile (layers : Layers) (boundary : Option Boundary) (override : Option Theme)
  | compileRequest (request : Request)
  | setFallback (resolvers : Resolvers)
  | resetFallback
  | fallbackNames
  | resolveFallback (name : String) (theme : Theme) (boundary : Option Boundary)

inductive Reply
  | done
  | style (outcome : Except StyleError Level)
  | names (names : List String)
  | selector (selector : Option String)

/-- The reply to one command, and the session after it. Compiling changes nothing. -/
def step (session : Session) : Command → Reply × Session
  | .fresh => (.done, { session with current := {} })
  | .useResolvers r =>
      (.done, { session with current := { session.current with resolvers := some r } })
  | .useShorthands t =>
      (.done, { session with current := { session.current with shorthands := t } })
  | .useTheme t => (.done, { session with current := { session.current with theme := t } })
  | .save => (.done, { session with saved := session.current })
  | .load => (.done, { session with current := session.saved })
  | .compile layers boundary override =>
      (.style (session.current.compile session.fallback layers boundary override), session)
  | .compileRequest request => (.style (request.compile session.fallback), session)
  | .setFallback r => (.done, { session with fallback := r })
  | .resetFallback => (.done, { session with fallback := Resolvers.builtin })
  | .fallbackNames => (.names session.fallback.keys, session)
  | .resolveFallback name theme boundary =>
      (.selector (session.fallback.resolve name theme boundary), session)

def run (session : Session) : List Command → List Reply × Session
  | [] => ([], session)
  | c :: rest =>
      let (reply, session) := session.step c
      let (replies, session) := session.run rest
      (reply :: replies, session)

end Session

end StyleTree
