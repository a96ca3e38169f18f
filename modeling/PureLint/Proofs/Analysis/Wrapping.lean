import PureLint.Proofs.Analysis.Arrays
import PureLint.Proofs.Rule.Grant
import PureLint.Rule.Construct

/-!
# Parentheses around what is called or assigned to

Parentheses around the callee of a call do not change the name that it calls, but a member in them
is not seen any more. Nor is a computed member that is assigned to. So the rules on members, and the
record of the arrays that are changed, are silent about both, while the rules on plain names and the
rule on assignments to members say what they say without the parentheses.
-/

namespace PureLint

namespace Node

/-- One node is another with parentheses, one or more, around the expression in a field. In all
else that they hold, and in their place, they are the same. -/
structure Wrapped (key : String) (plain wrapped : Node) : Prop where
  kind : wrapped.kind = plain.kind
  span : wrapped.span = plain.span
  others : ∀ other ≠ key, wrapped.fields.lookup other = plain.fields.lookup other
  around : ∃ outer inner, wrapped.child key = some outer ∧ plain.child key = some inner ∧
    Relation.TransGen Encloses outer inner

variable {plain wrapped : Node} {key : String}

/-- What stands in the field is one of parentheses. -/
theorem Wrapped.kind_of_child (h : plain.Wrapped key wrapped) {outer : Node}
    (houter : wrapped.child key = some outer) : outer.kind = "ParenthesizedExpression" := by
  obtain ⟨other, inner, hother, -, hsteps⟩ := h.around
  cases hother.symm.trans houter
  obtain ⟨next, hnext, -⟩ := Relation.TransGen.head'_iff.mp hsteps
  exact hnext.kind

/-- Seen through parentheses, the expressions in the field are the same. -/
theorem Wrapped.unparenthesized_eq (h : plain.Wrapped key wrapped) :
    (wrapped.child key).map unparenthesized = (plain.child key).map unparenthesized := by
  obtain ⟨outer, inner, houter, hinner, hsteps⟩ := h.around
  rw [houter, hinner, Option.map_some, Option.map_some,
    unparenthesized_of_steps hsteps.to_reflTransGen]

/-- Parentheses around a callee do not change the name that is called. -/
theorem Wrapped.calleeName_eq (h : plain.Wrapped "callee" wrapped) :
    wrapped.calleeName = plain.calleeName := by
  have hname (call : Node) :
      call.calleeName = ((call.child "callee").map unparenthesized).bind name? := by
    rw [Option.bind_map]
    rfl
  rw [hname, h.unparenthesized_eq, hname]

/-- A member in parentheses is not called. -/
theorem Wrapped.calleeMember_eq_none (h : plain.Wrapped "callee" wrapped) :
    wrapped.calleeMember = none := by
  obtain ⟨outer, inner, houter, -, -⟩ := h.around
  simp [calleeMember, houter, member?, h.kind_of_child houter]

/-- A member in parentheses is not assigned to. -/
theorem Wrapped.assignedIndexOf_eq_none (h : plain.Wrapped "left" wrapped) :
    Names.assignedIndexOf wrapped = none := by
  obtain ⟨outer, inner, houter, -, -⟩ := h.around
  simp [Names.assignedIndexOf, houter, h.kind_of_child houter]

/-- The ways in which a call or an assignment changes an array are gone. -/
theorem not_changesArray {n : Node} (hcall : n.kind = "CallExpression" → n.calleeMember = none)
    (hassignment : n.kind = "AssignmentExpression" → Names.assignedIndexOf n = none)
    (name : String) : ¬n.ChangesArray name := by
  rintro (⟨hkind, hmember, -⟩ | ⟨hkind, hleft, hmember, hcomputed, hobject, hname⟩)
  · cases (hcall hkind).symm.trans hmember
  · have hindex := Names.assignedIndexOf_eq_some_iff.mpr
      ⟨_, _, hleft, hmember, hcomputed, hobject, hname⟩
    cases (hassignment hkind).symm.trans hindex

end Node

/-- A call of no member adds nothing to the names. -/
theorem Names.enter_call (names : Names) {visit : Visit}
    (hkind : visit.node.kind = "CallExpression") (hmember : visit.node.calleeMember = none) :
    names.enter visit = names := by
  simp [enter, hkind, addCall, hmember]

/-- An assignment to no computed member adds nothing to the names. -/
theorem Names.enter_assignment (names : Names) {visit : Visit}
    (hkind : visit.node.kind = "AssignmentExpression")
    (hindex : assignedIndexOf visit.node = none) : names.enter visit = names := by
  simp [enter, hkind, addAssignment, hindex]

namespace Rule

/-- The rules that ask what a call or a `new` names. -/
def onCallees : List Rule :=
  [noForeach, noObjectAssign, noDefineProperty, noSideEffectFunctions, allowDirectives]

/-- What the checks of a rule come to at a stage of the walk. -/
def outcomesAt (rule : Rule) (file : SourceFile) (stage : Visit × Survey) : List Outcome :=
  (Call.atVisit (.ofRules [rule]) file stage.1 stage.2).map fun due => due.run []

variable {rule : Rule} {file : SourceFile} {survey : Survey} {visit other : Visit}

/-- Where no name is read, the checks under the kind of the node are due. -/
theorem outcomesAt_eq (h : visit.node.kind ≠ "Identifier") :
    rule.outcomesAt file (visit, survey) =
      (rule.checks.filter fun entry => entry.1 == visit.node.kind).map fun entry =>
        entry.2 ⟨file, survey⟩ visit := by
  have hall :
      (Call.atVisit (.ofRules [rule]) file visit survey).flatMap (fun due => [due.run []]) = _ :=
    flatMap_atVisit rule fun outcome => [outcome]
  have hkinds : survey.kindsAt visit = [visit.node.kind] := by simp [Survey.kindsAt, h]
  rw [hkinds, List.flatMap_singleton, ← List.map_eq_flatMap, ← List.map_eq_flatMap] at hall
  exact hall

/-- A check that looks at nothing but the place of a call and at what it names, and that comes to
nothing where it names nothing. -/
structure OnCallee (check : Check) : Prop where
  same : ∀ context {visit other : Visit}, other.node.span = visit.node.span →
    other.node.calleeName = visit.node.calleeName →
      other.node.calleeMember = visit.node.calleeMember → check context other = check context visit
  silent : ∀ context {visit : Visit}, visit.node.calleeName = none →
    visit.node.calleeMember = none → check context visit = {}

/-- A ban on some members is such a check. -/
theorem onCallee_member (banned : Node.Member → Bool) (message : String) :
    OnCallee fun _ visit =>
      { reports := reportIf (visit.node.calleeMember.any banned) visit message } where
  same _ _ _ hspan _ hmember := by simp only [reportIf, Node.report, hspan, hmember]
  silent _ _ _ hmember := by simp [reportIf, hmember]

/-- The check of calls for hidden inputs and timers is such a check. -/
theorem onCallee_effect : OnCallee fun context visit =>
    { reports :=
        if inFunctionBody context then
          match effectOf? (context.file.allows .timers) visit.node with
          | some usage => [visit.node.report (effectMessage usage)]
          | none => []
        else [] } where
  same _ _ _ hspan hname hmember := by simp only [effectOf?, Node.report, hspan, hname, hmember]
  silent _ _ hname hmember := by simp [effectOf?, hname, hmember]

/-- The check of calls for features is such a check. -/
theorem onCallee_guarding : OnCallee (guarding "CallExpression" callUse?).2 where
  same _ _ _ hspan hname hmember := by
    simp only [guarding, callUse?, FeatureUse.outcome, Node.report, hspan, hname, hmember]
  silent _ _ hname hmember := by simp [guarding, callUse?, hname, hmember]

/-- Each of the rules on callees has one such check for calls. -/
theorem exists_callCheck (hrule : rule ∈ onCallees) :
    ∃ check, rule.checks.filter (fun entry => entry.1 == "CallExpression") =
      [("CallExpression", check)] ∧ OnCallee check := by
  simp only [onCallees, List.mem_cons, List.not_mem_nil, or_false] at hrule
  rcases hrule with rfl | rfl | rfl | rfl | rfl
  · exact ⟨_, rfl, onCallee_member _ _⟩
  · exact ⟨_, rfl, onCallee_member _ _⟩
  · exact ⟨_, rfl, onCallee_member _ _⟩
  · exact ⟨_, rfl, onCallee_effect⟩
  · exact ⟨_, rfl, onCallee_guarding⟩

/-- At a call these rules look at nothing but its place and what it names. -/
theorem outcomesAt_call_congr (hrule : rule ∈ onCallees)
    (hkind : visit.node.kind = "CallExpression") (hother : other.node.kind = visit.node.kind)
    (hspan : other.node.span = visit.node.span)
    (hname : other.node.calleeName = visit.node.calleeName)
    (hmember : other.node.calleeMember = visit.node.calleeMember) :
    rule.outcomesAt file (other, survey) = rule.outcomesAt file (visit, survey) := by
  obtain ⟨check, hchecks, hcheck⟩ := exists_callCheck hrule
  rw [outcomesAt_eq (by simp [hother, hkind]), outcomesAt_eq (by simp [hkind]), hother, hkind,
    hchecks]
  exact congrArg (fun outcome => [outcome]) (hcheck.same _ hspan hname hmember)

/-- A call that names nothing comes to nothing. -/
theorem outcomesAt_call_silent (hrule : rule ∈ onCallees)
    (hkind : visit.node.kind = "CallExpression") (hname : visit.node.calleeName = none)
    (hmember : visit.node.calleeMember = none) :
    rule.outcomesAt file (visit, survey) = [{}] := by
  obtain ⟨check, hchecks, hcheck⟩ := exists_callCheck hrule
  rw [outcomesAt_eq (by simp [hkind]), hkind, hchecks]
  exact congrArg (fun outcome => [outcome]) (hcheck.silent _ hname hmember)

/-- At a `new` these rules look at nothing but its place and the plain name there. -/
theorem outcomesAt_new_congr (hrule : rule ∈ onCallees)
    (hkind : visit.node.kind = "NewExpression") (hother : other.node.kind = visit.node.kind)
    (hspan : other.node.span = visit.node.span)
    (hname : other.node.calleeName = visit.node.calleeName) :
    rule.outcomesAt file (other, survey) = rule.outcomesAt file (visit, survey) := by
  rw [outcomesAt_eq (by simp [hother, hkind]), outcomesAt_eq (by simp [hkind]), hother, hkind]
  simp only [onCallees, List.mem_cons, List.not_mem_nil, or_false] at hrule
  rcases hrule with rfl | rfl | rfl | rfl | rfl
  case inr.inr.inr.inl =>
    have hchecks : noSideEffectFunctions.checks.filter (fun entry => entry.1 == "NewExpression") =
        reporting ["NewExpression"] fun context visit =>
          reportIf (inFunctionBody context && visit.node.calleeName == some "Date") visit
            (effectMessage "new Date()") := rfl
    rw [hchecks]
    simp only [reporting, List.map_singleton, reportIf, Node.report, hspan, hname]
  all_goals rfl

/-- Assignments are judged by what is seen through parentheses. -/
theorem outcomesAt_assignment_congr {plain wrapped : Node} {parent : Option Node}
    {key : Option String} (h : plain.Wrapped "left" wrapped)
    (hkind : plain.kind = "AssignmentExpression") :
    noMemberAssignments.outcomesAt file (⟨wrapped, parent, key⟩, survey) =
      noMemberAssignments.outcomesAt file (⟨plain, parent, key⟩, survey) := by
  have hreports : memberAssignmentReports ⟨wrapped, parent, key⟩ =
      memberAssignmentReports ⟨plain, parent, key⟩ := by
    obtain ⟨outer, inner, houter, hinner, hsteps⟩ := h.around
    simp only [memberAssignmentReports, houter, hinner, reportIf, Node.report, h.span,
      Node.unparenthesized_of_steps hsteps.to_reflTransGen]
  have hchecks : noMemberAssignments.checks.filter
      (fun entry => entry.1 == "AssignmentExpression") = noMemberAssignments.checks := rfl
  rw [outcomesAt_eq (by simp [h.kind, hkind]), outcomesAt_eq (by simp [hkind]), h.kind, hkind,
    hchecks]
  simp only [noMemberAssignments, reporting, List.map_singleton, hreports]

end Rule

/-- **A name that is called is called in parentheses too, however many there are, and so is what is
assigned to. A member is not: around the callee they leave a call without a member, at which each of
the rules on callees comes to nothing, and no call and no assignment in them changes an array.** -/
theorem Rule.outcomesAt_wrapped (file : SourceFile) (survey : Survey) (plain wrapped : Node)
    (parent : Option Node) (key : Option String) :
    let before : Visit × Survey := (⟨plain, parent, key⟩, survey)
    let after : Visit × Survey := (⟨wrapped, parent, key⟩, survey)
    (plain.Wrapped "callee" wrapped →
      wrapped.calleeName = plain.calleeName ∧ wrapped.calleeMember = none ∧
        (plain.kind = "NewExpression" → ∀ rule ∈ onCallees,
          rule.outcomesAt file after = rule.outcomesAt file before) ∧
        (plain.kind = "CallExpression" →
          (plain.calleeMember = none → ∀ rule ∈ onCallees,
            rule.outcomesAt file after = rule.outcomesAt file before) ∧
          (plain.calleeMember.isSome → ∀ rule ∈ onCallees, rule.outcomesAt file after = [{}]) ∧
          survey.names.enter after.1 = survey.names ∧ ∀ name, ¬wrapped.ChangesArray name)) ∧
      (plain.Wrapped "left" wrapped → plain.kind = "AssignmentExpression" →
        noMemberAssignments.outcomesAt file after = noMemberAssignments.outcomesAt file before ∧
          survey.names.enter after.1 = survey.names ∧ ∀ name, ¬wrapped.ChangesArray name) := by
  intro before after
  constructor
  · intro h
    have hmember := h.calleeMember_eq_none
    refine ⟨h.calleeName_eq, hmember, ?_, ?_⟩
    · intro hkind rule hrule
      exact outcomesAt_new_congr hrule hkind h.kind h.span h.calleeName_eq
    · intro hkind
      refine ⟨?_, ?_, ?_, ?_⟩
      · intro hplain rule hrule
        exact outcomesAt_call_congr hrule hkind h.kind h.span h.calleeName_eq
          (hmember.trans hplain.symm)
      · intro hplain rule hrule
        exact outcomesAt_call_silent hrule (h.kind.trans hkind)
          (h.calleeName_eq.trans (Node.calleeName_eq_none hplain)) hmember
      · exact survey.names.enter_call (h.kind.trans hkind) hmember
      · apply Node.not_changesArray (fun _ => hmember)
        intro hother
        exact absurd (hother.symm.trans (h.kind.trans hkind)) (by decide)
  · intro h hkind
    have hindex := h.assignedIndexOf_eq_none
    refine ⟨outcomesAt_assignment_congr h hkind, ?_, ?_⟩
    · exact survey.names.enter_assignment (h.kind.trans hkind) hindex
    · apply Node.not_changesArray _ fun _ => hindex
      intro hother
      exact absurd (hother.symm.trans (h.kind.trans hkind)) (by decide)

/-- A node of a kind that covers nothing and holds one expression in a field. -/
def holding (kind key : String) (expression : Value) : Node :=
  ⟨1, kind, .int 0, .int 0, [(key, expression)]⟩

/-- The tree of an expression in two pairs of parentheses. -/
def inParentheses (expression : Value) : Value :=
  .atStart 2 "ParenthesizedExpression" [
    ("expression", .atStart 3 "ParenthesizedExpression" [("expression", expression)])]

/-- The tree of a member of `items`, by a name or by a computed key. -/
def memberOfItems (computed : Bool) (property : Value) : Value :=
  .atStart 4 "MemberExpression" [("object", .atStart 5 "Identifier" [("name", .text "items")]),
    ("property", property), ("computed", .bool computed)]

/-- The tree of `items.forEach`. -/
def itemsForEach : Value :=
  memberOfItems false (.atStart 6 "Identifier" [("name", .text "forEach")])

/-- The tree of `items[0]`. -/
def itemsFirst : Value := memberOfItems true (.atStart 6 "Literal" [("value", .number (.int 0))])

/-- With two pairs of parentheses around the expression in its field, a node is wrapped. -/
theorem wrapped_holding {kind key : String} {expression : Value} {inner : Node}
    (h : expression.node? = some inner) :
    (holding kind key expression).Wrapped key (holding kind key (inParentheses expression)) where
  kind := rfl
  span := rfl
  others other hother := by
    simp [holding, List.lookup_cons, beq_eq_false_iff_ne.mpr hother]
  around := by
    have hchild (value : Value) : (holding kind key value).child key = value.node? := by
      simp [holding, Node.child]
    exact ⟨_, inner, hchild _, (hchild _).trans h, .head ⟨rfl, rfl⟩ (.single ⟨rfl, h⟩)⟩

/-- In parentheses `forEach` is called and nothing is said, and an item is set and only the
assignment is reported. -/
theorem Rule.outcomesAt_wrapped_items :
    let file := AnalysisOptions.allRules.file []
    let survey : Survey := { topLevel := {} }
    let call := holding "CallExpression" "callee" (inParentheses itemsForEach)
    let set := holding "AssignmentExpression" "left" (inParentheses itemsFirst)
    noForeach.outcomesAt file (⟨call, none, none⟩, survey) = [{}] ∧
      (noMemberAssignments.outcomesAt file (⟨set, none, none⟩, survey)).length = 1 ∧
      (survey.names.enter ⟨set, none, none⟩).mutated = [] := by
  intro file survey call set
  have hcall := (outcomesAt_wrapped file survey (holding "CallExpression" "callee" itemsForEach)
    call none none).1 (wrapped_holding rfl)
  have hset := (outcomesAt_wrapped file survey (holding "AssignmentExpression" "left" itemsFirst)
    set none none).2 (wrapped_holding rfl) rfl
  refine ⟨?_, ?_, ?_⟩
  · exact (hcall.2.2.2 rfl).2.1 rfl noForeach List.mem_cons_self
  · rw [hset.1]
    decide +kernel
  · rw [hset.2.1]

/-- A program of one statement that calls what an expression is. -/
def callOnly (callee : Value) : Node :=
  ⟨0, "Program", .int 0, .int 0, [("body", .array [
    .atStart 10 "ExpressionStatement" [("expression", .atStart 1 "CallExpression" [
      ("callee", callee), ("arguments", .array [])])]])]⟩

/-- The call of `forEach` is reported, in parentheses it is not. -/
theorem AnalysisOptions.messagesOf_noForeach_parentheses :
    (allRules.messagesOf (callOnly itemsForEach) [] "no-foreach").map (·.text) =
        ["forEach is not allowed in pure TypeScript subset. Use for-of loop instead"] ∧
      allRules.messagesOf (callOnly (inParentheses itemsForEach)) [] "no-foreach" = [] := by
  exact ⟨by decide +kernel, List.isEmpty_iff.mp (by decide +kernel)⟩

end PureLint
