import Mathlib.Data.List.Forall2
import PureLint.Proofs.Lists
import PureLint.Proofs.Tree.Lineage
import PureLint.Survey.Basic

/-!
# Scopes and lineages

The scope at a visited node, which the walk keeps by saving and restoring, is a property of the
node's lineage alone. Whatever a complete part of the walk opens is closed at its end.
-/

namespace PureLint

namespace Scope

/-- The kinds of node that are patterns. -/
def patternKinds : List String :=
  ["ObjectPattern", "ArrayPattern", "RestElement", "AssignmentPattern"]

/-- Whether a visit is to a function with a body. -/
def isFunction (visit : Visit) : Bool := visit.node.hasKind Node.functionKinds

/-- Whether a visit is to a catch clause. -/
def isCatch (visit : Visit) : Bool := visit.node.kind == "CatchClause"

/-- Whether a visit is to a pattern that stands as a parameter. -/
def isPatternParameter (visit : Visit) : Bool :=
  visit.node.hasKind patternKinds && isParameter visit

/-- The part of a lineage below its last function, all of it if there is none. -/
def belowFunction (lineage : List Visit) : List Visit :=
  lineage.takeWhile fun visit => !isFunction visit

/-- What a lineage tells about where the walk is. -/
structure Describes (scope : Scope) (lineage : List Visit) : Prop where
  inFunction : scope.inFunction = true ↔ ∃ visit ∈ lineage, isFunction visit = true
  inPattern : scope.inPattern = true ↔
    ∃ visit ∈ belowFunction lineage, isPatternParameter visit = true
  /-- A default that is itself a parameter, or stands inside a pattern that is one. -/
  inDefault : scope.inDefault = true ↔
    ∃ nearer visit further, belowFunction lineage = nearer ++ visit :: further ∧
      visit.node.kind = "AssignmentPattern" ∧
      (isParameter visit = true ∨ ∃ outer ∈ further, isPatternParameter outer = true)
  inCatch : scope.inCatch = true ↔ ∃ visit ∈ lineage, isCatch visit = true
  catchName : scope.catchName = (lineage.find? isCatch).bind fun visit => visit.node.nameAt "param"

/-- The scope inside a visited node, flag by flag. -/
theorem opened?_flags (scope : Scope) (visit : Visit) :
    (scope.opened? visit).getD scope =
      { inFunction := isFunction visit || scope.inFunction
        inCatch := isCatch visit || scope.inCatch
        catchName := if isCatch visit then visit.node.nameAt "param" else scope.catchName
        inDefault := !isFunction visit &&
          (visit.node.kind == "AssignmentPattern" && (isParameter visit || scope.inPattern) ||
            scope.inDefault)
        inPattern := !isFunction visit && (isPatternParameter visit || scope.inPattern) } := by
  obtain ⟨inFunction, inCatch, catchName, inDefault, inPattern⟩ := scope
  have hfunction : isFunction visit = Node.functionKinds.contains visit.node.kind := rfl
  have hpattern : isPatternParameter visit =
      (patternKinds.contains visit.node.kind && isParameter visit) := rfl
  unfold opened? isCatch
  rw [hfunction, hpattern]
  -- what is left hangs on the kind and two truths alone
  generalize visit.node.kind = kind, isParameter visit = parameter
  split
  case h_9 => simp_all [Node.functionKinds, patternKinds]
  all_goals cases parameter <;> cases inPattern <;> rfl

/-- Below a function nothing of the lineage counts, below any other node that node does. -/
theorem belowFunction_cons (visit : Visit) (above : List Visit) :
    belowFunction (visit :: above) =
      if isFunction visit then [] else visit :: belowFunction above := by
  unfold belowFunction
  rw [List.takeWhile_cons]
  cases isFunction visit <;> rfl

/-- The scope before anything is visited is that of the empty lineage. -/
theorem Describes.nil : Describes {} [] := by
  refine ⟨?_, ?_, ?_, ?_, rfl⟩ <;> simp [belowFunction]

/-- The scope inside a visited node is that of its lineage. -/
theorem Describes.cons {scope : Scope} {above : List Visit} (h : scope.Describes above)
    (visit : Visit) : ((scope.opened? visit).getD scope).Describes (visit :: above) := by
  rw [opened?_flags]
  constructor
  · simp only [Bool.or_eq_true, h.inFunction, List.mem_cons, exists_eq_or_imp]
  · simp only [belowFunction_cons]
    cases hfunction : isFunction visit with
    | true => simp
    | false => simp [h.inPattern]
  · simp only [belowFunction_cons]
    cases hfunction : isFunction visit with
    | true => simp
    | false =>
      simp only [Bool.false_eq_true, if_false, exists_split_cons, Bool.not_false, Bool.true_and,
        Bool.or_eq_true, Bool.and_eq_true, beq_iff_eq, h.inPattern, h.inDefault]
  · simp only [Bool.or_eq_true, h.inCatch, List.mem_cons, exists_eq_or_imp]
  · simp only [List.find?_cons]
    cases isCatch visit with
    | true => rfl
    | false => exact h.catchName

end Scope

namespace ScopeStack

/-- The stack that a lineage builds up. -/
def ofLineage : List Visit → ScopeStack
  | [] => {}
  | visit :: above => (ofLineage above).enter visit

/-- The scope inside a visited node is the one that it opens, if it opens one. -/
theorem scope_enter (s : ScopeStack) (visit : Visit) :
    (s.enter visit).scope = (s.scope.opened? visit).getD s.scope := by
  unfold enter
  cases s.scope.opened? visit <;> rfl

/-- The scope at a node is that of its lineage. -/
theorem describes_ofLineage (lineage : List Visit) :
    (ofLineage lineage).scope.Describes lineage := by
  induction lineage with
  | nil => exact Scope.Describes.nil
  | cons visit above ih =>
    rw [ofLineage, scope_enter]
    exact ih.cons visit

/-- Each scope on the stack of a lineage was closed off by a node of the lineage. -/
theorem owner_mem_lineage {lineage : List Visit} {entry : Nat × Scope}
    (h : entry ∈ (ofLineage lineage).around) : ∃ visit ∈ lineage, visit.node.id = entry.1 := by
  induction lineage with
  | nil => cases h
  | cons visit above ih =>
    rw [ofLineage, enter] at h
    split at h
    · rcases List.mem_cons.mp h with rfl | h
      · exact ⟨visit, List.mem_cons_self, rfl⟩
      · obtain ⟨owner, howner, hid⟩ := ih h
        exact ⟨owner, List.mem_cons_of_mem _ howner, hid⟩
    · obtain ⟨owner, howner, hid⟩ := ih h
      exact ⟨owner, List.mem_cons_of_mem _ howner, hid⟩

/-- Leaving a node restores the stack from before it was entered. -/
theorem leave_ofLineage_cons {visit : Visit} {above : List Visit}
    (h : ∀ outer ∈ above, outer.node.id ≠ visit.node.id) :
    (ofLineage (visit :: above)).leave visit.node = ofLineage above := by
  rw [ofLineage, enter]
  split
  · simp [leave]
  · -- the node opened nothing, so what is on the stack belongs to nodes around it
    unfold leave
    split
    · rename_i owner scope rest haround
      have hmem : (owner, scope) ∈ (ofLineage above).around := by
        rw [haround]
        exact List.mem_cons_self
      obtain ⟨outer, houter, hid⟩ := owner_mem_lineage hmem
      have hne : owner ≠ visit.node.id := by
        intro heq
        exact h outer houter (hid.trans heq)
      rw [if_neg hne]
    · rfl

end ScopeStack

namespace Survey

open Event

/-- No two of the open nodes are one object. -/
def Apart (opened : List Visit) : Prop :=
  opened.Pairwise fun visit outer => outer.node.id ≠ visit.node.id

/-- A step from the stack of the open nodes leads to the stack of those open afterwards. -/
theorem scopes_step {opened : List Visit} {event : Event} {rest : List Event}
    (h : Nests opened (event :: rest)) (hapart : Apart opened) {s : Survey}
    (hs : s.scopes = ScopeStack.ofLineage opened) :
    (s.step event).scopes = ScopeStack.ofLineage (openAfter opened [event]) ∧
      Apart (openAfter opened [event]) ∧ Nests (openAfter opened [event]) rest := by
  cases event with
  | enter visit =>
    refine ⟨?_, List.pairwise_cons.mpr ⟨h.1, hapart⟩, h.2⟩
    change s.scopes.enter visit = _
    rw [hs]
    rfl
  | leave visit =>
    obtain ⟨hhead, hrest⟩ := h
    cases opened with
    | nil => cases hhead
    | cons first above =>
      cases hhead
      obtain ⟨hfirst, habove⟩ := List.pairwise_cons.mp hapart
      refine ⟨?_, habove, hrest⟩
      change s.scopes.leave visit.node = _
      rw [hs]
      exact ScopeStack.leave_ofLineage_cons hfirst

/-- After a part of a walk the stack is that of the nodes that are open. -/
theorem scopes_run {opened : List Visit} {before after : List Event}
    (h : Nests opened (before ++ after)) (hapart : Apart opened) {s : Survey}
    (hs : s.scopes = ScopeStack.ofLineage opened) :
    (s.run before).scopes = ScopeStack.ofLineage (openAfter opened before) := by
  induction before generalizing opened s with
  | nil => exact hs
  | cons event before ih =>
    obtain ⟨hstep, hapart, hnests⟩ := scopes_step h hapart hs
    have hsplit : openAfter opened (event :: before) =
        openAfter (openAfter opened [event]) before :=
      openAfter_append opened [event] before
    rw [run_cons, hsplit]
    exact ih hnests hapart hstep

/-- The stages of a walk have the stacks of the nodes that are open at its enters. -/
theorem stages_scopes {opened : List Visit} {events : List Event} (h : Nests opened events)
    (hapart : Apart opened) {s : Survey} (hs : s.scopes = ScopeStack.ofLineage opened) :
    List.Forall₂ (fun stage lineage =>
        lineage.head? = some stage.1 ∧ stage.2.scopes = ScopeStack.ofLineage lineage)
      (s.stages events) (openAtEnters opened events) := by
  induction events generalizing opened s with
  | nil => exact List.Forall₂.nil
  | cons event events ih =>
    obtain ⟨hstep, hapart, hnests⟩ := scopes_step h hapart hs
    cases event with
    | enter visit => exact List.Forall₂.cons ⟨rfl, hstep⟩ (ih hnests hapart hstep)
    | leave visit => exact ih hnests hapart hstep

/-- **Scopes are a property of lineages, and are always restored.** Right after entering a node of
any tree, from a fresh survey on, the scope is what the node's lineage tells; and a part of the walk
in which every entered node is left again leaves the whole stack as it was, as does the walk over
the tree. -/
theorem scope_of_lineage (root : Node) (hroot : root.Acyclic) (topLevel : TopLevel) :
    let start : Survey := { topLevel := topLevel }
    List.Forall₂ (fun stage lineage =>
        lineage.head? = some stage.1 ∧ stage.2.scope.Describes lineage)
      (start.stages root.events) root.lineages ∧
    (∀ before inside after, root.events = before ++ inside ++ after → Balanced inside →
      (start.run (before ++ inside)).scopes = (start.run before).scopes) ∧
    (start.run root.events).scopes = {} := by
  intro start
  have hnests := Node.nests_events hroot
  have hfresh : start.scopes = ScopeStack.ofLineage [] := rfl
  have hrun {before after : List Event} (h : root.events = before ++ after) :
      (start.run before).scopes = ScopeStack.ofLineage (openAfter [] before) :=
    scopes_run (h ▸ hnests) List.Pairwise.nil hfresh
  refine ⟨?_, ?_, ?_⟩
  · rw [← Node.openAtEnters_events]
    refine (stages_scopes hnests List.Pairwise.nil hfresh).imp ?_
    rintro stage lineage ⟨hhead, hscopes⟩
    refine ⟨hhead, ?_⟩
    rw [scope, hscopes]
    exact ScopeStack.describes_ofLineage lineage
  · intro before inside after hsplit hinside
    have hbefore : root.events = before ++ (inside ++ after) := by rw [hsplit, List.append_assoc]
    rw [hrun hsplit, hrun hbefore, openAfter_append, hinside.openAfter_eq]
  · rw [hrun (List.append_nil _).symm, root.balanced_events.openAfter_eq]
    rfl

/-- The tree of a function whose parameter has a function as its default. -/
def callbackDefault : Node :=
  ⟨0, "FunctionExpression", .int 0, .int 0, [("params", .array [
    .atStart 1 "AssignmentPattern" [
      ("left", .atStart 2 "Identifier" []),
      ("right", .atStart 3 "ArrowFunctionExpression" [("body", .atStart 4 "Identifier" [])])]])]⟩

/-- The walk over a function with a default is in the default but not in the function given there,
and everything is closed at the end. -/
theorem scope_of_lineage_callbackDefault :
    let start : Survey := { topLevel := {} }
    callbackDefault.Acyclic ∧
      (start.stages callbackDefault.events).map (fun stage => stage.2.scope.inDefault) =
        [false, true, true, false, false] ∧
      (start.run callbackDefault.events).scopes = {} := by
  intro start
  have hacyclic : callbackDefault.Acyclic := by decide
  obtain ⟨-, -, hrestored⟩ := scope_of_lineage callbackDefault hacyclic {}
  exact ⟨hacyclic, by decide +kernel, hrestored⟩

end Survey

end PureLint
