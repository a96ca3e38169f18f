import PureLint.Proofs.Rule.Feature
import PureLint.Proofs.Survey.Reordering

/-!
# Rules and the order of statements

A rule does not ask in which order the statements of a program stand. At alike visits its checks
come to the same, and at the end it reports the same messages, in some order. The rule on the number
of exported functions names all exported functions but the first: there the messages differ, and
their number is the same.
-/

namespace PureLint

/-- The messages of reports, without their places. -/
def Report.messages (reports : List Report) : List String := reports.map Report.message

/-- Two outcomes without a failure that report the same messages in some order and note the same
features. -/
structure Outcome.Alike (outcome other : Outcome) : Prop where
  messages : (Report.messages outcome.reports).Perm (Report.messages other.reports)
  uses : other.uses = outcome.uses
  failure : outcome.failure = none
  otherFailure : other.failure = none

/-- The same outcome is alike, if it is no failure. -/
theorem Outcome.Alike.of_eq {outcome other : Outcome} (h : other = outcome)
    (hfailure : outcome.failure = none) : outcome.Alike other := by
  subst h
  exact ⟨List.Perm.refl _, rfl, hfailure, hfailure⟩

/-- What a check can look at in one file at two alike moments. -/
structure Context.Alike (context other : Context) : Prop where
  file : other.file = context.file
  survey : context.survey.Alike other.survey

/-- What a check can look at in one file at the ends of two walks that have taught as much. -/
structure Context.AlikeAtEnd (context other : Context) : Prop where
  file : other.file = context.file
  survey : context.survey.AlikeAtEnd other.survey

namespace Rule

/-- A rule that does not ask in which order the statements of a program stand. -/
structure Orderless (rule : Rule) : Prop where
  checks : ∀ entry ∈ rule.checks, ∀ (context other : Context) (visit otherVisit : Visit),
    context.Alike other → visit.Alike otherVisit →
      (entry.2 context visit).Alike (entry.2 other otherVisit)
  finish : ∀ finish ∈ rule.finish, ∀ (context other : Context) (used seen : List Feature),
    context.AlikeAtEnd other → (∀ feature, feature ∈ used ↔ feature ∈ seen) →
      (finish context used).Alike (finish other seen)

/-- Of two alike moments a check that only reports makes the same messages. -/
def OrderlessFind (find : Context → Visit → List Report) : Prop :=
  ∀ context other visit otherVisit, context.Alike other → visit.Alike otherVisit →
    (Report.messages (find context visit)).Perm (Report.messages (find other otherVisit))

/-- What reports the same is orderless. -/
theorem OrderlessFind.of_eq {find : Context → Visit → List Report}
    (h : ∀ context other visit otherVisit, context.Alike other → visit.Alike otherVisit →
      find other otherVisit = find context visit) : OrderlessFind find := by
  intro context other visit otherVisit hcontext hvisit
  rw [h context other visit otherVisit hcontext hvisit]

section

variable (id description : String)

/-- A rule whose checks only report the same messages is orderless. -/
theorem orderless_reporting (kinds : List String) {find : Context → Visit → List Report}
    (h : OrderlessFind find) : Orderless { id, description, checks := reporting kinds find } := by
  constructor
  · intro entry hentry context other visit otherVisit hcontext hvisit
    obtain ⟨kind, -, rfl⟩ := List.mem_map.mp hentry
    exact ⟨h context other visit otherVisit hcontext hvisit, rfl, rfl, rfl⟩
  · intro finish hfinish
    cases hfinish

/-- A rule of two checks that only report the same messages is orderless. -/
theorem orderless_reporting_append (kinds others : List String)
    {find findOther : Context → Visit → List Report} (h : OrderlessFind find)
    (hother : OrderlessFind findOther) :
    Orderless
      { id, description, checks := reporting kinds find ++ reporting others findOther } := by
  constructor
  · intro entry hentry
    rcases List.mem_append.mp hentry with hentry | hentry
    · exact (orderless_reporting id description kinds h).checks entry hentry
    · exact (orderless_reporting id description others hother).checks entry hentry
  · intro finish hfinish
    cases hfinish

/-- A rule that reports the same messages at the end is orderless. -/
theorem orderless_reportingAtEnd {find : Survey → List Report}
    (h : ∀ s t : Survey, s.AlikeAtEnd t →
      (Report.messages (find s)).Perm (Report.messages (find t))) :
    Orderless { id, description, finish := reportingAtEnd find } := by
  constructor
  · intro entry hentry
    cases hentry
  · intro finish hfinish context other used seen hcontext _
    cases hfinish
    exact ⟨h context.survey other.survey hcontext.survey, rfl, rfl, rfl⟩

end

/-! ## What is found at alike visits -/

section

variable {visit other : Visit} (h : visit.Alike other)

include h

/-- The same is reported about alike accessors. -/
theorem accessorReports_alike : accessorReports other = accessorReports visit := by
  simp [accessorReports, h.node.text?, h.node.report]

/-- The same is reported about alike assignments to members. -/
theorem memberAssignmentReports_alike :
    memberAssignmentReports other = memberAssignmentReports visit := by
  simp only [memberAssignmentReports, h.node.child, reportIf, h.node.report]

/-- The same is reported about alike constant conditions. -/
theorem constantConditionReports_alike (keyword : String) :
    constantConditionReports keyword other = constantConditionReports keyword visit := by
  simp only [constantConditionReports, h.node.child, h.node.report]

/-- Functions at alike visits are called the same. -/
theorem shownName_alike : shownName other = shownName visit := by
  rw [shownName, h.node.nameAt, h.parentNameAt, shownName]

/-- Of the nodes at alike visits both are assigned to, or none is. -/
theorem isAssigned_alike : isAssigned other = isAssigned visit := by
  unfold isAssigned
  rw [h.node.same]
  apply h.parent_any
  intro n m hparent
  rw [hparent.kind, hparent.child]

end

section

variable {n m : Node} (h : n.Alike m)

include h

/-- Alike calls are of the same members. -/
theorem callsObject_alike (methods : List String) :
    callsObject methods m = callsObject methods n := by
  rw [callsObject, h.calleeMember, callsObject]

/-- Alike assertions are to the same type. -/
theorem isConstAssertion_alike : isConstAssertion m = isConstAssertion n := by
  rw [isConstAssertion, h.child, isConstAssertion]

/-- Alike declarators start from the same value. -/
theorem isEmptyRecord_alike : isEmptyRecord m = isEmptyRecord n := by
  simp only [isEmptyRecord, h.child]

/-- Alike declarators start empty under the same name. -/
theorem emptyArrayName?_alike : emptyArrayName? m = emptyArrayName? n := by
  simp only [emptyArrayName?, h.child]

/-- Alike calls have the same effect. -/
theorem effectOf?_alike (timersAllowed : Bool) :
    effectOf? timersAllowed m = effectOf? timersAllowed n := by
  simp only [effectOf?, h.calleeMember, h.calleeName]

/-- Alike statements discard the same. -/
theorem discardsMap_alike : discardsMap m = discardsMap n := by
  rw [discardsMap, h.child, discardsMap]

/-- The same is reported about alike catch clauses. -/
theorem catchReports_alike : catchReports m = catchReports n := by
  simp only [catchReports, h.child, h.report]

/-- Alike imports are of the same namespaces. -/
theorem importsNamespace_alike : importsNamespace m = importsNamespace n := by
  rw [importsNamespace, h.children (by decide), importsNamespace]

/-- The same is reported about the style of alike imports. -/
theorem importStyleReports_alike (source : String) :
    importStyleReports m source = importStyleReports n source := by
  simp only [importStyleReports, h.report, importsNamespace_alike h]

/-- The same is reported about alike uses of a library. -/
theorem libraryReports_alike (source : String) :
    libraryReports m source = libraryReports n source := by
  simp only [libraryReports, h.report]

/-- The same is reported about the parameters of alike functions. -/
theorem parameterCountReports_alike (subject : String) :
    parameterCountReports subject m = parameterCountReports subject n := by
  simp [parameterCountReports, h.children, h.report]

/-- The same is reported about doc blocks above alike exports. -/
theorem undocumentedReports_alike (file : SourceFile) (subject : String) :
    undocumentedReports file m subject = undocumentedReports file n subject := by
  rw [undocumentedReports, h.start, h.report, undocumentedReports]

/-- The same is reported about doc blocks above alike default exports. -/
theorem undocumentedDefault_alike (file : SourceFile) :
    undocumentedDefault file m = undocumentedDefault file n := by
  simp only [undocumentedDefault, h.child, undocumentedReports_alike h]

end

/-- At alike moments the walk is in the body of a function, or at none of them. -/
theorem inFunctionBody_alike {context other : Context} (h : context.Alike other) :
    inFunctionBody other = inFunctionBody context := by
  rw [inFunctionBody, h.survey.scope, inFunctionBody]

/-! ## Rules on statements and re-exports -/

/-- The rule on side effects at the top level looks at the statements one by one. -/
theorem orderless_noTopLevelSideEffects : noTopLevelSideEffects.Orderless := by
  apply orderless_reporting
  intro context other visit otherVisit hcontext hvisit
  simp only [hcontext.file]
  split
  · exact List.Perm.refl _
  · exact (hvisit.node.body.filterMap _).map _

/-- The rule on re-exports looks at them one by one. -/
theorem orderless_noReexports : noReexports.Orderless := by
  apply orderless_reporting
  intro context other visit otherVisit hcontext _
  simp only [hcontext.file]
  exact (hcontext.survey.topLevel.reexports.flatMap_right _).map _

/-! ## Rules on named functions -/

/-- What is reported about named functions is the same at alike visits, if it is the same for alike
functions. -/
theorem orderless_namedFunctions (find : Context → NamedFunction → List Report)
    (h : ∀ context other named otherNamed, context.Alike other → named.Alike otherNamed →
      find other otherNamed = find context named) :
    OrderlessFind fun context visit =>
      (visit.node.namedFunctions visit.parent).flatMap (find context) := by
  intro context other visit otherVisit hcontext hvisit
  apply List.Perm.map
  apply (Matched.of_forall₂ hvisit.namedFunctions).flatMap_perm
  intro named otherNamed hnamed
  rw [h context other named otherNamed hcontext hnamed]

/-- The rule on parameter tags reports the same about alike functions. -/
theorem orderless_jsdocParamMatch : jsdocParamMatch.Orderless := by
  apply orderless_reporting
  apply orderless_namedFunctions fun context => docReports context.file
  intro context other named otherNamed hcontext hnamed
  simp [docReports, tagReports, hcontext.file, hnamed.name, hnamed.anchor.start,
    hnamed.fn.children, hnamed.fn.report]

/-- The rule on the types of parameters reports the same about alike functions. -/
theorem orderless_paramMissingType : paramMissingType.Orderless := by
  apply orderless_reporting
  apply orderless_namedFunctions fun _ named =>
    (named.fn.children "params").filterMap (untypedParameter? named)
  intro context other named otherNamed _ hnamed
  have huntyped : untypedParameter? otherNamed = untypedParameter? named := by
    funext param
    simp only [untypedParameter?, hnamed.name]
  simp [hnamed.fn.children, huntyped]

/-! ## Rules that report at the end -/

/-- Messages about the entries of tables with the same names are the same, in some order, if they do
not ask for the places. -/
theorem messages_filterMap_perm {table others : NameTable}
    {find found : String × Span → Option Report}
    (hnames : (table.map Prod.fst).Perm (others.map Prod.fst))
    (h : ∀ name span place,
      (find (name, span)).map Report.message = (found (name, place)).map Report.message) :
    (Report.messages (table.filterMap find)).Perm (Report.messages (others.filterMap found)) := by
  have hmessages {entries : NameTable} {f : String × Span → Option Report}
      (hf : ∀ name span, (f (name, span)).map Report.message =
        (found (name, .fileStart)).map Report.message) :
      Report.messages (entries.filterMap f) = (entries.map Prod.fst).filterMap fun name =>
        (found (name, .fileStart)).map Report.message := by
    rw [Report.messages, List.map_filterMap, List.filterMap_map]
    apply List.filterMap_congr
    intro entry _
    exact hf entry.1 entry.2
  rw [hmessages fun name span => h name span _,
    hmessages fun name place => (h name place place).symm.trans (h name place _)]
  exact hnames.filterMap _

/-- Of tables with the same names the same names are left unread, where the same are read. -/
theorem unread_perm {s t : Survey} (h : s.AlikeAtEnd t) {table others : NameTable}
    (hnames : (table.map Prod.fst).Perm (others.map Prod.fst)) :
    ((unread table s.names.used).map Prod.fst).Perm
      ((unread others t.names.used).map Prod.fst) := by
  have hunread (entries : NameTable) (used : List String) :
      (unread entries used).map Prod.fst = (entries.map Prod.fst).filter fun name =>
        !Text.startsWith name "_" && !used.contains name := by
    rw [unread, List.filter_map]
    rfl
  simp only [hunread, contains_congr (h.used _)]
  exact hnames.filter _

/-- The rule on arrays that never change asks for their names alone. -/
theorem orderless_preferReadonlyArray : preferReadonlyArray.Orderless := by
  apply orderless_reportingAtEnd
  intro s t h
  apply messages_filterMap_perm (h.table .arrays)
  intro name span place
  have hmutated : s.names.mutated.contains name = t.names.mutated.contains name :=
    contains_congr (h.table .mutated).mem_iff
  have hreadonly : s.names.readonlyArrays.contains name = t.names.readonlyArrays.contains name :=
    contains_congr (h.table .readonlyArrays).mem_iff
  simp only [hmutated, hreadonly]
  split <;> rfl

/-- The rule on unused variables asks for their names alone. -/
theorem orderless_noUnusedVariables : noUnusedVariables.Orderless := by
  apply orderless_reportingAtEnd
  intro s t h
  apply messages_filterMap_perm (unread_perm h (h.table .declared))
  intro name span place
  simp only [contains_congr (h.topLevel.names name)]
  split <;> rfl

/-- The rule on unused imports asks for their names alone. -/
theorem orderless_noUnusedImports : noUnusedImports.Orderless := by
  apply orderless_reportingAtEnd
  intro s t h
  simp only [← List.filterMap_eq_map]
  apply messages_filterMap_perm (unread_perm h (h.table .imported))
  intro name span place
  rfl

/-- The rule on the number of exports makes as many messages. The function that is exported first is
in none of them. -/
theorem length_finish_onePublicFunction {finish : Finish} (h : finish ∈ onePublicFunction.finish)
    {context other : Context} (hcontext : context.AlikeAtEnd other) (used seen : List Feature) :
    (finish other seen).reports.length = (finish context used).reports.length := by
  cases h
  have htopLevel := hcontext.survey.topLevel
  simp [htopLevel.functions.length_eq, htopLevel.others.length_eq]

/-! ## Rules that note features -/

/-- The rule on throw statements reports the same and notes the same. -/
theorem orderless_noThrow : noThrow.Orderless := by
  constructor
  · intro entry hentry context other visit otherVisit hcontext hvisit
    cases List.mem_singleton.mp hentry
    apply Outcome.Alike.of_eq
    · simp only [hcontext.file, hvisit.node.child, reportIf, hvisit.node.report]
    · simp only
      split <;> rfl
  · intro finish hfinish
    cases hfinish

/-- A check of uses comes to the same, if the same uses are found in alike nodes. -/
theorem alike_guarding (kind : String) {find : Node → Option FeatureUse}
    (hfind : ∀ n m : Node, n.Alike m → find m = find n) {context other : Context}
    {visit otherVisit : Visit} (hcontext : context.Alike other) (hvisit : visit.Alike otherVisit) :
    ((guarding kind find).2 context visit).Alike ((guarding kind find).2 other otherVisit) := by
  apply Outcome.Alike.of_eq _ (failure_guarding kind find context visit)
  simp only [guarding, FeatureUse.outcome, hfind _ _ hvisit.node, hcontext.file, hvisit.node.report]

/-- The guard of the features reports the same uses and grants, and notes the same. -/
theorem orderless_allowDirectives : allowDirectives.Orderless := by
  constructor
  · intro entry hentry context other visit otherVisit hcontext hvisit
    fin_cases hentry
    · apply alike_guarding _ _ hcontext hvisit
      intro n m h
      simp only [callUse?, h.calleeMember, h.calleeName]
    · apply alike_guarding _ _ hcontext hvisit
      intro n m h
      simp only [h.name?]
    · apply alike_guarding _ _ hcontext hvisit
      intro n m h
      simp only [Node.typeName?, h.kind, h.nameAt]
    · apply Outcome.Alike.of_eq
      · simp only [hcontext.file]
      · simp only
        split <;> rfl
  · intro finish hfinish context other used seen hcontext hused
    have hseen := finish_guard_congr hfinish context hused
    cases hfinish
    apply Outcome.Alike.of_eq _ rfl
    rw [hseen]
    simp only [hcontext.file]

/-! ## All rules -/

/-- All built-in rules but the one on the number of exports are orderless. -/
theorem orderless_of_mem_all {rule : Rule} (h : rule ∈ all) (hrule : rule ≠ onePublicFunction) :
    rule.Orderless := by
  fin_cases h
  all_goals first
    | exact orderless_noTopLevelSideEffects
    | exact orderless_noReexports
    | exact orderless_jsdocParamMatch
    | exact orderless_paramMissingType
    | exact orderless_preferReadonlyArray
    | exact orderless_noUnusedVariables
    | exact orderless_noUnusedImports
    | exact orderless_noThrow
    | exact orderless_allowDirectives
    | exact absurd rfl hrule
    | apply orderless_reporting
    | apply orderless_reporting_append
  -- the other rules report the same about the visited node
  all_goals
    apply OrderlessFind.of_eq
    intro context other visit otherVisit hcontext hvisit
    have hnode := hvisit.node
    have hprocess := contains_congr (hcontext.survey.topLevel.processNames "process")
    simp only [hprocess, reportIf, hcontext.file, hcontext.survey.scope,
      inFunctionBody_alike hcontext, accessorReports_alike hvisit,
      memberAssignmentReports_alike hvisit, constantConditionReports_alike hvisit,
      shownName_alike hvisit, isAssigned_alike hvisit, hvisit.parentHasKind,
      callsObject_alike hnode, isConstAssertion_alike hnode, isEmptyRecord_alike hnode,
      emptyArrayName?_alike hnode, effectOf?_alike hnode, discardsMap_alike hnode,
      catchReports_alike hnode, importsNamespace_alike hnode, importStyleReports_alike hnode,
      libraryReports_alike hnode, parameterCountReports_alike hnode,
      undocumentedReports_alike hnode, undocumentedDefault_alike hnode, hnode.report, hnode.child,
      hnode.nameAt, hnode.name?, hnode.calleeName, hnode.calleeMember, hnode.literalTextAt,
      hnode.text?, hnode.flag, hnode.children, ne_eq, String.reduceEq, not_false_eq_true]

/-- At alike visits the checks of all built-in rules come to the same. -/
theorem alike_check {rule : Rule} (h : rule ∈ all) {entry : String × Check}
    (hentry : entry ∈ rule.checks) {context other : Context} {visit otherVisit : Visit}
    (hcontext : context.Alike other) (hvisit : visit.Alike otherVisit) :
    (entry.2 context visit).Alike (entry.2 other otherVisit) := by
  by_cases hrule : rule = onePublicFunction
  · subst hrule
    cases hentry
  · exact (orderless_of_mem_all h hrule).checks entry hentry context other visit otherVisit
      hcontext hvisit

/-- The final checks of all built-in rules come to no failure. -/
theorem failure_finish {rule : Rule} (h : rule ∈ all) {finish : Finish}
    (hfinish : finish ∈ rule.finish) {context other : Context} (hcontext : context.AlikeAtEnd other)
    (used : List Feature) :
    (finish context used).failure = none ∧ (finish other used).failure = none := by
  by_cases hrule : rule = onePublicFunction
  · subst hrule
    cases hfinish
    exact ⟨rfl, rfl⟩
  · have halike := (orderless_of_mem_all h hrule).finish finish hfinish context other used used
      hcontext fun _ => Iff.rfl
    exact ⟨halike.failure, halike.otherFailure⟩

end Rule

end PureLint
