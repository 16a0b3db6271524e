import StyleTree.Session

/-!
What the replies of a session depend on. The current preset is the work of those commands that lead
to it, through copies and back to the last fresh start. Together with the last change of the
resolvers in force they determine each compilation of the session completely: it is a compilation
without a preset, to which all that goes into it is given. Compilations themselves leave no trace.
-/

namespace StyleTree

namespace Session

/-! ### Runs -/

theorem run_cons (session : Session) (command : Command) (commands : List Command) :
    session.run (command :: commands) =
      ((session.step command).1 :: ((session.step command).2.run commands).1,
        ((session.step command).2.run commands).2) := rfl

theorem run_append (session : Session) (before after : List Command) :
    session.run (before ++ after) =
      ((session.run before).1 ++ ((session.run before).2.run after).1,
        ((session.run before).2.run after).2) := by
  induction before generalizing session with
  | nil => rfl
  | cons command before ih => rw [List.cons_append, run_cons, run_cons, ih, List.cons_append]

@[simp] theorem length_run (session : Session) (commands : List Command) :
    (session.run commands).1.length = commands.length := by
  induction commands generalizing session with
  | nil => rfl
  | cons command commands ih => rw [run_cons, List.length_cons, List.length_cons, ih]

theorem getElem?_run (session : Session) (before : List Command) (command : Command)
    (after : List Command) :
    (session.run (before ++ command :: after)).1[before.length]? =
      some ((session.run before).2.step command).1 := by
  rw [run_append, ← session.length_run before, List.getElem?_append_right (Nat.le_refl _),
    Nat.sub_self, run_cons, List.getElem?_cons_zero]

theorem drop_run_append (session : Session) (before after : List Command) :
    (session.run (before ++ after)).1.drop before.length =
      ((session.run before).2.run after).1 := by
  rw [run_append, ← session.length_run before, List.drop_left]

/-- A command that leaves the session as it is can be left out. -/
theorem run_eraseIdx {session : Session} {before : List Command} {command : Command}
    (hsame : ((session.run before).2.step command).2 = (session.run before).2)
    (after : List Command) :
    (session.run (before ++ command :: after)).1.eraseIdx before.length =
      (session.run (before ++ after)).1 := by
  rw [run_append, run_append, ← session.length_run before,
    List.eraseIdx_append_of_length_le (Nat.le_refl _), Nat.sub_self, run_cons, hsame,
    List.eraseIdx_cons_zero]

/-! ### What the commands so far say -/

inductive Slot
  | current
  | saved

namespace Command

def resolvers? : Command → Option Resolvers
  | useResolvers resolvers => some resolvers
  | _ => none

def shorthands? : Command → Option Shorthands
  | useShorthands shorthands => some shorthands
  | _ => none

def theme? : Command → Option Theme
  | useTheme theme => some theme
  | _ => none

/-- The resolvers that a command puts in force for compilations that bring none. -/
def fallback? : Command → Option Resolvers
  | setFallback resolvers => some resolvers
  | resetFallback => some Resolvers.builtin
  | _ => none

/-- Those of the earlier commands, the latest one first, that lead to the preset in a slot. A copy
goes on with the commands that lead to the other slot, and a fresh start has none before it. -/
def lineage : Slot → List Command → List Command
  | _, [] => []
  | .current, fresh :: _ => []
  | .current, load :: earlier => lineage .saved earlier
  | .current, command :: earlier => command :: lineage .current earlier
  | .saved, save :: earlier => lineage .current earlier
  | .saved, _ :: earlier => lineage .saved earlier

/-- The resolvers in force after the earlier commands, the latest one first. -/
def installed (earlier : List Command) : Resolvers :=
  (earlier.findSome? fallback?).getD Resolvers.builtin

/-- The resolvers that a compilation brings, from its request or from the preset it uses. -/
def ownResolvers? (earlier : List Command) : Command → Option Resolvers
  | compile _ _ _ => (lineage .current earlier).findSome? resolvers?
  | compileRequest request => request.resolvers
  | _ => none

/-- The compilation that a command asks for after the earlier ones, with all that goes into it. -/
def request? (earlier : List Command) : Command → Option Request
  | compile layers boundary override => some {
      layers := layers
      resolvers := some (((lineage .current earlier).findSome? resolvers?).getD (installed earlier))
      shorthands := (lineage .current earlier).findSome? shorthands?
      theme := (lineage .current earlier).findSome? theme?
      override := override
      boundary := boundary }
  | compileRequest request =>
      some { request with resolvers := some (request.resolvers.getD (installed earlier)) }
  | _ => none

end Command

def presetOf (commands : List Command) : Preset where
  resolvers := commands.findSome? Command.resolvers?
  shorthands := (commands.findSome? Command.shorthands?).getD ∅
  theme := (commands.findSome? Command.theme?).getD ∅

/-- The session as the earlier commands tell it, the latest one first. -/
def ofHistory (earlier : List Command) : Session where
  current := presetOf (Command.lineage .current earlier)
  saved := presetOf (Command.lineage .saved earlier)
  fallback := Command.installed earlier

theorem step_ofHistory (earlier : List Command) (command : Command) :
    ((ofHistory earlier).step command).2 = ofHistory (command :: earlier) := by
  cases command <;> rfl

theorem run_ofHistory (earlier commands : List Command) :
    ((ofHistory earlier).run commands).2 = ofHistory (commands.reverse ++ earlier) := by
  -- The commands that are done go over to the earlier ones, so these vary in the induction.
  induction commands generalizing earlier with
  | nil => rfl
  | cons command commands ih =>
      rw [run_cons, step_ofHistory, ih, List.reverse_cons, List.append_assoc, List.singleton_append]

/-- Every session that a run leads to is the one that its commands tell. -/
theorem run_eq_ofHistory (commands : List Command) :
    (({} : Session).run commands).2 = ofHistory commands.reverse := by
  have hrun := run_ofHistory [] commands
  rwa [List.append_nil] at hrun

/-! ### Compilations -/

/-- A compilation leaves the session as it is, and its reply is that to the request with all that
goes into it, whatever resolvers are in force then. -/
theorem step_of_request? {earlier : List Command} {command : Command} {request : Request}
    (h : command.request? earlier = some request) (fallback : Resolvers) :
    (ofHistory earlier).step command = (.style (request.compile fallback), ofHistory earlier) := by
  cases command with
  | compile layers boundary override =>
      obtain rfl := Option.some.inj h
      refine Prod.ext (congrArg Reply.style ?_) rfl
      -- The preset has an empty theme and an empty table where the request has none.
      exact Request.compile_congr (Theme.combine_congr rfl rfl) rfl rfl rfl rfl
  | compileRequest request =>
      obtain rfl := Option.some.inj h
      rfl
  | _ => cases h

/-! ### What the commands do not lead to -/

/-- Changes of the resolvers in force lead to no preset. -/
theorem Command.lineage_filter (slot : Slot) (earlier : List Command) :
    lineage slot (earlier.filter (·.fallback?.isNone)) =
      (lineage slot earlier).filter (·.fallback?.isNone) := by
  -- A copy turns from one slot to the other, so the slot varies too.
  induction earlier generalizing slot with
  | nil => cases slot <;> rfl
  | cons command earlier ih =>
      cases slot with
      | current =>
          cases command with
          | fresh => rfl
          | load => exact ih .saved
          | setFallback _ => exact ih .current
          | resetFallback => exact ih .current
          | _ => exact congrArg (List.cons _) (ih .current)
      | saved =>
          cases command with
          | save => exact ih .current
          | _ => exact ih .saved

theorem Command.findSome?_filter {α : Type} {setting? : Command → Option α}
    (hsetting : ∀ command, command.fallback?.isSome → setting? command = none)
    (commands : List Command) :
    (commands.filter (·.fallback?.isNone)).findSome? setting? = commands.findSome? setting? := by
  rw [← List.head?_filterMap, ← List.head?_filterMap, List.filterMap_filter]
  congr 2
  funext command
  cases hfallback : command.fallback? with
  | none => rfl
  | some resolvers =>
      rw [hsetting command (hfallback ▸ rfl)]
      rfl

theorem Command.findSome?_lineage_congr {α : Type} {setting? : Command → Option α}
    (hsetting : ∀ command, command.fallback?.isSome → setting? command = none)
    {earlier other : List Command}
    (hsame : other.filter (·.fallback?.isNone) = earlier.filter (·.fallback?.isNone)) :
    (lineage .current other).findSome? setting? =
      (lineage .current earlier).findSome? setting? := by
  rw [← findSome?_filter hsetting, ← findSome?_filter hsetting (lineage .current earlier),
    ← lineage_filter, ← lineage_filter, hsame]

theorem Command.settings_eq_none (command : Command) (h : command.fallback?.isSome) :
    command.resolvers? = none ∧ command.shorthands? = none ∧ command.theme? = none := by
  cases command with
  | setFallback resolvers => exact ⟨rfl, rfl, rfl⟩
  | resetFallback => exact ⟨rfl, rfl, rfl⟩
  | _ => cases h

theorem Command.request?_congr {earlier other : List Command} {command : Command}
    (hown : (command.ownResolvers? earlier).isSome)
    (hsame : other.filter (·.fallback?.isNone) = earlier.filter (·.fallback?.isNone)) :
    command.request? other = command.request? earlier := by
  obtain ⟨resolvers, hown⟩ := Option.isSome_iff_exists.1 hown
  cases command with
  | compile layers boundary override =>
      have hresolvers := findSome?_lineage_congr (fun c h => (c.settings_eq_none h).1) hsame
      have hshorthands := findSome?_lineage_congr (fun c h => (c.settings_eq_none h).2.1) hsame
      have htheme := findSome?_lineage_congr (fun c h => (c.settings_eq_none h).2.2) hsame
      rw [ownResolvers?] at hown
      rw [request?, request?, hresolvers, hshorthands, htheme, hown]
      rfl
  | compileRequest request =>
      rw [ownResolvers?] at hown
      rw [request?, request?, hown]
      rfl
  | _ => cases hown

/-- Only a copy leads to the saved preset. -/
theorem Command.lineage_saved_append {later : List Command} (hsave : ∀ c ∈ later, c ≠ save)
    (earlier : List Command) : lineage .saved (later ++ earlier) = lineage .saved earlier := by
  induction later with
  | nil => rfl
  | cons command later ih =>
      rw [List.forall_mem_cons] at hsave
      rw [← ih hsave.2]
      cases command with
      | save => exact absurd rfl hsave.1
      | _ => rfl

/-- A copy that is taken back is what it was, and of the commands in the meantime only the last
change of the resolvers in force counts. -/
theorem ofHistory_load_append_save {later : List Command} (hsave : ∀ c ∈ later, c ≠ .save)
    (earlier : List Command) :
    ofHistory (.load :: (later ++ .save :: earlier)) =
      { current := presetOf (Command.lineage .current earlier)
        saved := presetOf (Command.lineage .current earlier)
        fallback := (later.findSome? Command.fallback?).getD (Command.installed earlier) } := by
  have hsaved : Command.lineage .saved (later ++ .save :: earlier) =
      Command.lineage .current earlier := Command.lineage_saved_append hsave _
  have hfallback : Command.installed (.load :: (later ++ .save :: earlier)) =
      (later.findSome? Command.fallback?).getD (Command.installed earlier) := by
    have hload : (Command.load :: (later ++ .save :: earlier)).findSome? Command.fallback? =
        (later.findSome? Command.fallback?).or (earlier.findSome? Command.fallback?) :=
      List.findSome?_append
    rw [Command.installed, hload]
    cases later.findSome? Command.fallback? <;> rfl
  have hcopy (slot : Slot) : Command.lineage slot (.load :: (later ++ .save :: earlier)) =
      Command.lineage .saved (later ++ .save :: earlier) := by cases slot <;> rfl
  rw [ofHistory, hcopy, hcopy, hsaved, hfallback]

theorem findSome?_fallback?_reverse_congr {mid other : List Command}
    (h : mid.filterMap Command.fallback? = other.filterMap Command.fallback?) :
    mid.reverse.findSome? Command.fallback? = other.reverse.findSome? Command.fallback? := by
  rw [← List.head?_filterMap, ← List.head?_filterMap, List.filterMap_reverse,
    List.filterMap_reverse, h]

/-- In every run, each compilation is answered like the request that spells out what goes into it:
the resolvers, the shorthands and the theme last given on the way to the current preset, and if no
resolvers were given, those in force at this time. It changes no later reply, and if it has its own
resolvers, be they none at all, changes of those in force do not change its own. Whatever is done
between saving a preset and taking it back changes later replies only through the resolvers in
force. -/
theorem replies_by_history :
    (∀ before command after request, Command.request? before.reverse command = some request →
      (∀ fallback, (({} : Session).run (before ++ command :: after)).1[before.length]? =
        some (.style (request.compile fallback))) ∧
      (({} : Session).run (before ++ command :: after)).1.eraseIdx before.length =
        (({} : Session).run (before ++ after)).1 ∧
      ((command.ownResolvers? before.reverse).isSome → ∀ other,
        other.filter (·.fallback?.isNone) = before.filter (·.fallback?.isNone) →
        (({} : Session).run (other ++ command :: after)).1[other.length]? =
          (({} : Session).run (before ++ command :: after)).1[before.length]?)) ∧
    ∀ before mid other after, (∀ c ∈ mid ++ other, c ≠ Command.save) →
      mid.filterMap Command.fallback? = other.filterMap Command.fallback? →
      (({} : Session).run (before ++ Command.save :: mid ++ [Command.load] ++ after)).1.drop
          (before ++ Command.save :: mid ++ [Command.load]).length =
        (({} : Session).run (before ++ Command.save :: other ++ [Command.load] ++ after)).1.drop
          (before ++ Command.save :: other ++ [Command.load]).length := by
  constructor
  · intro before command after request hrequest
    have hreply (commands : List Command)
        (hcommand : command.request? commands.reverse = some request)
        (fallback : Resolvers) :
        (({} : Session).run (commands ++ command :: after)).1[commands.length]? =
          some (.style (request.compile fallback)) := by
      rw [getElem?_run, run_eq_ofHistory, step_of_request? hcommand fallback]
    refine ⟨hreply before hrequest, ?_, ?_⟩
    · refine run_eraseIdx ?_ after
      rw [run_eq_ofHistory, step_of_request? hrequest ∅]
    · intro hown other hsame
      have hother : command.request? other.reverse = some request := by
        rw [← hrequest]
        refine Command.request?_congr hown ?_
        rw [List.filter_reverse, List.filter_reverse, hsame]
      rw [hreply other hother ∅, hreply before hrequest ∅]
  · intro before mid other after hsave hfallback
    rw [drop_run_append, drop_run_append, run_eq_ofHistory, run_eq_ofHistory]
    have hhistory (mid : List Command) :
        (before ++ Command.save :: mid ++ [Command.load]).reverse =
          Command.load :: (mid.reverse ++ Command.save :: before.reverse) := by simp
    have hmid : ∀ c ∈ mid.reverse, c ≠ Command.save := fun c hc =>
      hsave c (List.mem_append_left _ (List.mem_reverse.1 hc))
    have hother : ∀ c ∈ other.reverse, c ≠ Command.save := fun c hc =>
      hsave c (List.mem_append_right _ (List.mem_reverse.1 hc))
    rw [hhistory, hhistory, ofHistory_load_append_save hmid, ofHistory_load_append_save hother,
      findSome?_fallback?_reverse_congr hfallback]

def compileHovered : Command :=
  .compile (.one (.ofPairs [("color", .branches [("hover", .literal (.text "red"))])])) none none

/-- A preset that knows no selector names is saved and taken back after another one was used. -/
def detour : List Command :=
  [.useResolvers ∅, .save, .setFallback Resolvers.builtin, .fresh, compileHovered, .load]

theorem detour_replies_by_history :
    (∃ request, Command.request? detour.reverse compileHovered = some request ∧
      request.resolvers = some ∅ ∧
      (∀ fallback, (({} : Session).run (detour ++ [compileHovered])).1[detour.length]? =
        some (.style (request.compile fallback))) ∧
      (({} : Session).run (detour ++ [compileHovered])).1.eraseIdx detour.length =
        (({} : Session).run detour).1 ∧
      (({} : Session).run [.useResolvers ∅, .save, .fresh, compileHovered, .load,
          compileHovered]).1[5]? =
        (({} : Session).run (detour ++ [compileHovered])).1[detour.length]? ∧
      request.compile ∅ = .ok ⟨[("hover", .nested [("color", .literal (.text "red"))])]⟩) ∧
    (({} : Session).run (detour ++ [compileHovered])).1.drop 6 =
      (({} : Session).run [.useResolvers ∅, .save, .setFallback Resolvers.builtin, .load,
        compileHovered]).1.drop 4 := by
  obtain ⟨hcompiles, hsaved⟩ := Session.replies_by_history
  obtain ⟨hreply, herase, hown⟩ := hcompiles detour compileHovered [] _ rfl
  have hmid := hsaved [.useResolvers ∅] [.setFallback Resolvers.builtin, .fresh, compileHovered]
    [.setFallback Resolvers.builtin] [compileHovered] (by simp [compileHovered]) rfl
  exact ⟨⟨_, rfl, rfl, hreply, herase,
    hown rfl [.useResolvers ∅, .save, .fresh, compileHovered, .load] rfl, rfl⟩, hmid⟩

end Session

end StyleTree
