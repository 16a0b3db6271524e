import StyleTree.Proofs.Delegation
import StyleTree.Proofs.Unambiguous
import StyleTree.Proofs.Wrappers

/-!
Boundaries with fresh classes. Their classes are numbered, and until the numbers start again no two
of them have the same number. The number can be read off the class, and the class off the selector
of what lies inside, as it ends at the first colon; so it does no harm that one class may be the
beginning of another. What is written for the inside of one such boundary therefore never comes to
stand in the level of another.
-/

namespace StyleTree

namespace ClassBoundary

/-! ### Classes -/

theorem fresh_className_injective {m n : UInt64}
    (h : (fresh m).1.className = (fresh n).1.className) : m = n := by
  have hdigits := (String.append_right_inj _).1 h
  exact UInt64.toNat_inj.1 (Decimal.natChars_injective (String.ofList_injective hdigits))

theorem getElem?_freshList {n i : Nat} (hi : i < n) (next : UInt64) :
    (freshList n next).1[i]? = some (fresh (next + .ofNat i)).1 := by
  induction n generalizing i next with
  | zero => exact absurd hi (Nat.not_lt_zero i)
  | succ n ih =>
      cases i with
      | zero => simp [freshList]
      | succ i =>
          show (freshList n (next + 1)).1[i]? = _
          rw [ih (Nat.lt_of_succ_lt_succ hi), UInt64.add_assoc, Nat.add_comm, UInt64.ofNat_add]
          rfl

theorem add_ofNat_injective {i j : Nat} (hi : i < 2 ^ 64) (hj : j < 2 ^ 64) {next : UInt64}
    (h : next + .ofNat i = next + .ofNat j) : i = j := by
  have hnat := congrArg UInt64.toNat ((UInt64.add_right_inj next).1 h)
  rwa [UInt64.toNat_ofNat_of_lt' hi, UInt64.toNat_ofNat_of_lt' hj] at hnat

/-! ### Selectors -/

theorem takeWhile_inside {b : ClassBoundary} (h : ':' ∉ b.className.toList)
    (state : PseudoState) :
    (b.inside state.pseudoClass).toList.takeWhile (· ≠ ':') = '.' :: b.className.toList := by
  have hchars : (b.inside state.pseudoClass).toList =
      ('.' :: b.className.toList) ++ ':' :: (state.name ++ " &").toList := by
    simp [inside, PseudoState.pseudoClass]
  rw [hchars, List.takeWhile_append_of_pos, List.takeWhile_cons_of_neg (by decide),
    List.append_nil]
  intro c hc
  refine decide_eq_true fun heq => ?_
  rcases List.mem_cons.1 hc with rfl | hc
  · cases heq
  · exact h (heq ▸ hc)

/-- A class without a colon can be read off the selectors of what lies inside. -/
theorem className_eq_of_inside_eq {b c : ClassBoundary} (hb : ':' ∉ b.className.toList)
    (hc : ':' ∉ c.className.toList) {s t : PseudoState}
    (h : b.inside s.pseudoClass = c.inside t.pseudoClass) : b.className = c.className := by
  have htake := takeWhile_inside hb s
  rw [h, takeWhile_inside hc t] at htake
  exact String.toList_inj.1 (List.tail_eq_of_cons_eq htake.symm)

theorem colon_not_mem_fresh (n : UInt64) : ':' ∉ (fresh n).1.className.toList := by
  have hclass : (fresh n).1.className.toList =
      "sx-control-".toList ++ Decimal.natChars n.toNat := by
    simp [fresh, ofClass, Decimal.natText]
  rw [hclass, List.mem_append, not_or]
  exact ⟨by decide, fun h => Bool.noConfusion (Decimal.isDigit_of_mem_natChars h)⟩

theorem inside_ne_self (b : ClassBoundary) (state : PseudoState) :
    b.inside state.pseudoClass ≠ selfSelector :=
  @insideSelector_ne_self b.className state

/-! ### Pins -/

def pinAll (b : ClassBoundary) (pins : List (PseudoState × Bool)) : ClassBoundary :=
  pins.foldl (fun b p => b.pin p.1 p.2) b

theorem className_pinAll (b : ClassBoundary) (pins : List (PseudoState × Bool)) :
    (b.pinAll pins).className = b.className := by
  induction pins generalizing b with
  | nil => rfl
  | cons p pins ih => exact ih (b.pin p.1 p.2)

end ClassBoundary

/-! ### Levels -/

/-- The name leaves a state that the boundary does not pin to the boundary. -/
structure Context.Delegates (context : Context) (name : String) (b : ClassBoundary)
    (state : PseudoState) : Prop where
  ne_baseName : name ≠ Branches.baseName
  isOpen : b.pins state = none
  resolve_eq : context.resolve name = state.resolver context.theme (some b.toBoundary)

theorem Context.Delegates.target_eq {context : Context} {name : String} {b : ClassBoundary}
    {state : PseudoState} (h : context.Delegates name b state) :
    context.target name = .under (b.inside state.pseudoClass) := by
  refine Context.target_of_resolve h.ne_baseName ?_ (b.inside_ne_self state)
  have hpinned : b.toBoundary.pinned state = none := h.isOpen
  simp only [h.resolve_eq, PseudoState.resolver, hpinned]
  rfl

/-- What is written under a name stays within the level that the name goes to. -/
theorem Value.nested?_write_of_ne {context : Context} {name selector other : String}
    (h : context.target name = .under selector) (hne : other ≠ selector) (property : String)
    (value : Value) (level : Level) :
    (((Value.branches [(name, value)]).write context property).runOn level).2.nested? other =
      level.nested? other := by
  rw [Value.write_under h, Writing.runOn_within, Level.modifyUnder]
  exact (Level.nested?_nest ..).trans (if_neg hne)

namespace ClassBoundary

/-- The first boundary has nothing in common with the second: not the class, not a selector of what
lies inside, and not a level. What is left to it goes to a level of its own, and is not to be found
in any level of the other. -/
structure Apart (b c : ClassBoundary) : Prop where
  className_ne : b.className ≠ c.className
  inside_ne (s t : PseudoState) : b.inside s.pseudoClass ≠ c.inside t.pseudoClass
  inside_ne_self (s : PseudoState) : b.inside s.pseudoClass ≠ selfSelector
  target_eq {context : Context} {name : String} {s : PseudoState}
    (h : context.Delegates name b s) : context.target name = .under (b.inside s.pseudoClass)
  nested?_write {context : Context} {name : String} {s : PseudoState}
    (h : context.Delegates name b s) (t : PseudoState) (property : String) (value : Value)
    (level : Level) :
    (((Value.branches [(name, value)]).write context property).runOn level).2.nested?
      (c.inside t.pseudoClass) = level.nested? (c.inside t.pseudoClass)

theorem apart_of_className_ne {b c : ClassBoundary} (hb : ':' ∉ b.className.toList)
    (hc : ':' ∉ c.className.toList) (hne : b.className ≠ c.className) : b.Apart c where
  className_ne := hne
  inside_ne _ _ h := hne (className_eq_of_inside_eq hb hc h)
  inside_ne_self := b.inside_ne_self
  target_eq h := h.target_eq
  nested?_write h _ property value level :=
    Value.nested?_write_of_ne h.target_eq
      (fun heq => hne (className_eq_of_inside_eq hc hb heq).symm) property value level

/-- Any two boundaries of a run of fresh ones are apart, whatever is pinned on them, as long as the
numbers do not start again within the run. -/
theorem freshList_apart {n : Nat} (hn : n ≤ 2 ^ 64) (next : UInt64) {i j : Nat} (hi : i < n)
    (hj : j < n) (hij : i ≠ j) :
    ∃ b c, (freshList n next).1[i]? = some b ∧ (freshList n next).1[j]? = some c ∧
      ∀ pins otherPins, (b.pinAll pins).Apart (c.pinAll otherPins) := by
  refine ⟨_, _, getElem?_freshList hi next, getElem?_freshList hj next, fun pins otherPins => ?_⟩
  refine apart_of_className_ne ?_ ?_ ?_
  · rw [className_pinAll]
    exact colon_not_mem_fresh _
  · rw [className_pinAll]
    exact colon_not_mem_fresh _
  · rw [className_pinAll, className_pinAll]
    intro hclass
    exact hij (add_ofNat_injective (Nat.lt_of_lt_of_le hi hn) (Nat.lt_of_lt_of_le hj hn)
      (fresh_className_injective hclass))

end ClassBoundary

/-- Inside a fresh boundary, with a name for the hovered state of another one around it. The class
of the outer one is the beginning of the class of the inner one. -/
def Context.panels : Context where
  theme := ∅
  resolvers := Resolvers.builtin.insert "outerHover" fun theme _ =>
    PseudoState.hover.resolver theme (some (ClassBoundary.ofClass "sx-control-1").toBoundary)
  boundary := some (ClassBoundary.ofClass "sx-control-10").toBoundary

theorem ClassBoundary.panels_apart :
    (freshList 12 0).1[1]? = some (ofClass "sx-control-1") ∧
    (freshList 12 0).1[10]? = some (ofClass "sx-control-10") ∧
    (∀ pins otherPins,
      ((ofClass "sx-control-1").pinAll pins).Apart ((ofClass "sx-control-10").pinAll otherPins)) ∧
    Context.panels.Delegates "outerHover" (ofClass "sx-control-1") .hover ∧
    Context.panels.Delegates "hover" (ofClass "sx-control-10") .hover ∧
    ∀ value level, (((Value.branches [("outerHover", value)]).write Context.panels "color").runOn
        level).2.nested? ".sx-control-10:hover &" = level.nested? ".sx-control-10:hover &" := by
  have hone : (freshList 12 0).1[1]? = some (ofClass "sx-control-1") := rfl
  have hten : (freshList 12 0).1[10]? = some (ofClass "sx-control-10") := rfl
  obtain ⟨b, c, hb, hc, hapart⟩ :=
    freshList_apart (show 12 ≤ 2 ^ 64 by decide) 0 (show 1 < 12 by decide)
      (show 10 < 12 by decide) (by decide)
  obtain rfl := Option.some.inj (hb.symm.trans hone)
  obtain rfl := Option.some.inj (hc.symm.trans hten)
  have houter : Context.panels.Delegates "outerHover" (ofClass "sx-control-1") .hover :=
    ⟨by decide, rfl, rfl⟩
  exact ⟨hone, hten, hapart, houter, ⟨by decide, rfl, rfl⟩,
    (hapart [] []).nested?_write houter .hover "color"⟩

end StyleTree
