import PureLint.Proofs.Rule.Feature
import PureLint.Proofs.Survey.Location

/-!
# Where rules report

Rules report about nodes of the tree and about the beginning of the file. So where all nodes begin
at whole offsets, all that is reported does, be it at once or from what the survey has kept.
-/

namespace PureLint

/-- Reports at whole offsets. -/
def Report.AllWhole (reports : List Report) : Prop := ∀ r ∈ reports, r.span.Whole

namespace Report.AllWhole

/-- No report is at another offset. -/
@[simp] theorem nil : AllWhole [] := fun _ h => by cases h

/-- Reports are at whole offsets if the first and all others are. -/
@[simp] theorem cons_iff {r : Report} {rest : List Report} :
    AllWhole (r :: rest) ↔ r.span.Whole ∧ AllWhole rest := List.forall_mem_cons

/-- Reports one after the other are at whole offsets if all of them are. -/
@[simp] theorem append_iff {first second : List Report} :
    AllWhole (first ++ second) ↔ AllWhole first ∧ AllWhole second := List.forall_mem_append

/-- A report about a node is at its offset. -/
theorem node {n : Node} (h : n.Whole) (message : String) : AllWhole [n.report message] :=
  cons_iff.mpr ⟨h.span, nil⟩

/-- Reports that hang on a condition are at whole offsets if they are in both cases. -/
theorem ite {condition : Prop} [Decidable condition] {first second : List Report}
    (hfirst : AllWhole first) (hsecond : AllWhole second) :
    AllWhole (if condition then first else second) := by
  split
  · exact hfirst
  · exact hsecond

/-- A report about a visited node is at its offset. -/
theorem reportIf {visit : Visit} (h : visit.node.Whole) (condition : Bool) (message : String) :
    AllWhole (reportIf condition visit message) := ite (node h message) nil

/-- Reports on items are at whole offsets if those on each are. -/
theorem flatMap {α : Type} {items : List α} {find : α → List Report}
    (h : ∀ item ∈ items, AllWhole (find item)) : AllWhole (items.flatMap find) := by
  intro r hr
  obtain ⟨item, hitem, hr⟩ := List.mem_flatMap.mp hr
  exact h item hitem r hr

/-- Reports on some items are at whole offsets if each is. -/
theorem filterMap {α : Type} {items : List α} {find : α → Option Report}
    (h : ∀ item ∈ items, ∀ r ∈ find item, r.span.Whole) : AllWhole (items.filterMap find) := by
  intro r hr
  obtain ⟨item, hitem, hr⟩ := List.mem_filterMap.mp hr
  exact h item hitem r hr

/-- Reports on items are at whole offsets if each is. -/
theorem map {α : Type} {items : List α} {find : α → Report}
    (h : ∀ item ∈ items, (find item).span.Whole) : AllWhole (items.map find) := by
  intro r hr
  obtain ⟨item, hitem, rfl⟩ := List.mem_map.mp hr
  exact h item hitem

end Report.AllWhole

namespace Rule

open Report (AllWhole)

/-- A rule that reports at whole offsets where it is shown such. -/
structure Whole (rule : Rule) : Prop where
  checks : ∀ entry ∈ rule.checks, ∀ (context : Context) (visit : Visit), context.survey.Whole →
    visit.node.Whole → AllWhole (entry.2 context visit).reports
  finish : ∀ finish ∈ rule.finish, ∀ (context : Context) (used : List Feature),
    context.survey.Whole → AllWhole (finish context used).reports

section

variable (id description : String)

/-- A rule of one check that reports at whole offsets does so. -/
theorem whole_reporting (kinds : List String) {find : Context → Visit → List Report}
    (h : ∀ context visit, context.survey.Whole → visit.node.Whole → AllWhole (find context visit)) :
    Whole { id, description, checks := reporting kinds find } := by
  constructor
  · intro entry hentry context visit hsurvey hvisit
    obtain ⟨kind, -, rfl⟩ := List.mem_map.mp hentry
    exact h context visit hsurvey hvisit
  · intro finish hfinish
    cases hfinish

/-- A rule of two checks that report at whole offsets does so. -/
theorem whole_reporting_append (kinds others : List String)
    {find findOther : Context → Visit → List Report}
    (h : ∀ context visit, context.survey.Whole → visit.node.Whole → AllWhole (find context visit))
    (hother : ∀ context visit, context.survey.Whole → visit.node.Whole →
      AllWhole (findOther context visit)) :
    Whole { id, description, checks := reporting kinds find ++ reporting others findOther } := by
  constructor
  · intro entry hentry context visit hsurvey hvisit
    rcases List.mem_append.mp hentry with hentry | hentry
    · obtain ⟨kind, -, rfl⟩ := List.mem_map.mp hentry
      exact h context visit hsurvey hvisit
    · obtain ⟨kind, -, rfl⟩ := List.mem_map.mp hentry
      exact hother context visit hsurvey hvisit
  · intro finish hfinish
    cases hfinish

/-- A rule that reports at the end, at places that the survey keeps, does so at whole offsets. -/
theorem whole_reportingAtEnd {find : Survey → List Report}
    (h : ∀ survey : Survey, survey.Whole → AllWhole (find survey)) :
    Whole { id, description, finish := reportingAtEnd find } := by
  constructor
  · intro entry hentry
    cases hentry
  · intro finish hfinish context used hsurvey
    cases hfinish
    exact h context.survey hsurvey

end

/-! ## Rules that report about the visited node -/

section

variable {visit : Visit} (h : visit.node.Whole)

include h

/-- An accessor is reported where it is. -/
theorem whole_accessorReports : AllWhole (accessorReports visit) := by
  unfold accessorReports
  split
  · exact AllWhole.node h _
  · exact AllWhole.node h _
  · exact AllWhole.nil

/-- An assignment to a member is reported where it is. -/
theorem whole_memberAssignmentReports : AllWhole (memberAssignmentReports visit) := by
  unfold memberAssignmentReports
  split
  · exact AllWhole.nil
  · exact AllWhole.reportIf h _ _

/-- A constant condition is reported at its statement. -/
theorem whole_constantConditionReports (keyword : String) :
    AllWhole (constantConditionReports keyword visit) := by
  unfold constantConditionReports
  split
  · exact AllWhole.node h _
  · exact AllWhole.nil

end

section

variable {n : Node} (h : n.Whole)

include h

/-- A catch clause is reported where it is. -/
theorem whole_catchReports : AllWhole (catchReports n) := by
  unfold catchReports
  split
  · exact AllWhole.node h _
  · split
    · exact AllWhole.node h _
    · exact AllWhole.ite AllWhole.nil (AllWhole.node h _)

/-- The style of an import is reported at the import. -/
theorem whole_importStyleReports (source : String) : AllWhole (importStyleReports n source) := by
  simp only [importStyleReports, AllWhole.append_iff]
  refine ⟨⟨?_, ?_⟩, ?_⟩ <;> exact AllWhole.ite (AllWhole.node h _) AllWhole.nil

/-- The use of a library is reported where it is. -/
theorem whole_libraryReports (source : String) : AllWhole (libraryReports n source) := by
  unfold libraryReports
  apply AllWhole.ite (AllWhole.node h _)
  split
  · exact AllWhole.node h _
  · exact AllWhole.nil

/-- Too many parameters are reported at their function. -/
theorem whole_parameterCountReports (subject : String) :
    AllWhole (parameterCountReports subject n) :=
  AllWhole.ite AllWhole.nil (AllWhole.node h _)

/-- A missing doc block is reported at the export. -/
theorem whole_undocumentedReports (file : SourceFile) (subject : String) :
    AllWhole (undocumentedReports file n subject) :=
  AllWhole.ite AllWhole.nil (AllWhole.node h _)

/-- A default export without a doc block is reported where it is. -/
theorem whole_undocumentedDefault (file : SourceFile) : AllWhole (undocumentedDefault file n) := by
  unfold undocumentedDefault
  split
  · exact AllWhole.ite (whole_undocumentedReports h _ _) AllWhole.nil
  · exact AllWhole.nil

end

/-! ## Rules that report about other nodes -/

/-- The rule on variables without a type reports about declarators. -/
theorem whole_letRequiresType : letRequiresType.Whole := by
  apply whole_reporting
  intro context visit _ hvisit
  split
  · exact AllWhole.nil
  · apply AllWhole.filterMap
    intro declarator hdeclarator r hr
    obtain ⟨name, -, rfl⟩ := Option.map_eq_some_iff.mp hr
    exact (hvisit.children hdeclarator).span

/-- The rule on exported constants reports about declarations and declarators. -/
theorem whole_exportConstTypeRequired : exportConstTypeRequired.Whole := by
  apply whole_reporting
  intro context visit _ hvisit
  split
  · rename_i declaration hdeclaration
    have hwhole := hvisit.child hdeclaration
    unfold exportedVariableReports
    split
    · split
      · exact AllWhole.node hwhole _
      · apply AllWhole.filterMap
        intro declarator hdeclarator r hr
        obtain ⟨id, -, hr⟩ := Option.bind_eq_some_iff.mp hr
        simp only at hr
        split at hr
        · cases hr
        · cases hr
          exact (hwhole.children hdeclarator).span
      · exact AllWhole.nil
    · exact AllWhole.nil
  · exact AllWhole.nil

/-- The rule on side effects at the top level reports about statements. -/
theorem whole_noTopLevelSideEffects : noTopLevelSideEffects.Whole := by
  apply whole_reporting
  intro context visit _ hvisit
  split
  · exact AllWhole.nil
  · apply AllWhole.filterMap
    intro statement hstatement r hr
    obtain ⟨effect, -, rfl⟩ := Option.map_eq_some_iff.mp hr
    exact (hvisit.children hstatement).span

/-- The rule on re-exports reports about those that the survey keeps. -/
theorem whole_noReexports : noReexports.Whole := by
  apply whole_reporting
  intro context visit hsurvey _
  apply AllWhole.flatMap
  intro statement hstatement
  have hspan := hsurvey.reexports statement hstatement
  unfold reexportReports
  simp only
  split
  · exact AllWhole.cons_iff.mpr ⟨hspan, AllWhole.nil⟩
  · split
    · exact AllWhole.cons_iff.mpr ⟨hspan, AllWhole.nil⟩
    · exact AllWhole.nil

/-- The rule on parameter tags reports about functions and their parameters. -/
theorem whole_jsdocParamMatch : jsdocParamMatch.Whole := by
  apply whole_reporting
  intro context visit _ hvisit
  apply AllWhole.flatMap
  intro named hnamed
  have hfn := hvisit.namedFunctions hnamed
  have htags (tags : List String) :
      AllWhole (tagReports named (named.fn.children "params") tags) := by
    simp only [tagReports, AllWhole.append_iff]
    refine ⟨⟨AllWhole.filterMap ?_, AllWhole.map fun tag _ => hfn.span⟩, ?_⟩
    · intro param hparam r hr
      split at hr
      · split at hr
        · cases hr
        · cases hr
          exact (hfn.children hparam).span
      · cases hr
    · split
      · exact AllWhole.nil
      · exact AllWhole.node hfn _
  simp only [docReports]
  split
  · exact AllWhole.nil
  · split
    · exact AllWhole.nil
    · split
      · exact AllWhole.nil
      · exact htags _

/-- The rule on the types of parameters reports about them. -/
theorem whole_paramMissingType : paramMissingType.Whole := by
  apply whole_reporting
  intro context visit _ hvisit
  apply AllWhole.flatMap
  intro named hnamed
  apply AllWhole.filterMap
  intro param hparam r hr
  obtain ⟨name, -, hr⟩ := Option.bind_eq_some_iff.mp hr
  simp only at hr
  split at hr
  · cases hr
    exact ((hvisit.namedFunctions hnamed).children hparam).span
  · cases hr

/-! ## Rules that report at the end -/

/-- The rule on arrays that never change reports where they were found. -/
theorem whole_preferReadonlyArray : preferReadonlyArray.Whole := by
  apply whole_reportingAtEnd
  intro survey hsurvey
  apply AllWhole.filterMap
  intro entry hentry r hr
  simp only at hr
  split at hr
  · cases hr
  · cases hr
    exact hsurvey.names entry (List.mem_append_right _ hentry)

/-- The rule on unused variables reports where they were declared. -/
theorem whole_noUnusedVariables : noUnusedVariables.Whole := by
  apply whole_reportingAtEnd
  intro survey hsurvey
  apply AllWhole.filterMap
  intro entry hentry r hr
  simp only at hr
  split at hr
  · cases hr
  · cases hr
    exact hsurvey.names entry (List.mem_append_left _
      (List.mem_append_left _ (List.mem_filter.mp hentry).1))

/-- The rule on unused imports reports where they were imported. -/
theorem whole_noUnusedImports : noUnusedImports.Whole := by
  apply whole_reportingAtEnd
  intro survey hsurvey
  apply AllWhole.map
  intro entry hentry
  exact hsurvey.names entry (List.mem_append_left _
    (List.mem_append_right _ (List.mem_filter.mp hentry).1))

/-- The rule on exports reports where they are. -/
theorem whole_onePublicFunction : onePublicFunction.Whole := by
  apply whole_reportingAtEnd
  intro survey hsurvey
  rw [AllWhole.append_iff]
  constructor
  · exact AllWhole.map fun e he => hsurvey.others e he
  · exact AllWhole.map fun e he => hsurvey.functions e (List.mem_of_mem_drop he)

/-! ## Rules that note features -/

/-- The rule on throw statements reports about them. -/
theorem whole_noThrow : noThrow.Whole := by
  constructor
  · intro entry hentry context visit _ hvisit
    cases List.mem_singleton.mp hentry
    simp only
    split
    · exact AllWhole.reportIf hvisit _ _
    · exact AllWhole.node hvisit _
  · intro finish hfinish
    cases hfinish

/-- A check of uses reports about the visited node. -/
theorem whole_guarding (kind : String) (find : Node → Option FeatureUse) (context : Context)
    {visit : Visit} (h : visit.node.Whole) :
    AllWhole ((guarding kind find).2 context visit).reports := by
  simp only [guarding]
  split
  · unfold FeatureUse.outcome
    split
    · exact AllWhole.nil
    · exact AllWhole.node h _
  · exact AllWhole.nil

/-- The guard of the features reports about their uses, and about grants at the beginning of the
file. -/
theorem whole_allowDirectives : allowDirectives.Whole := by
  constructor
  · intro entry hentry context visit _ hvisit
    fin_cases hentry
    · exact whole_guarding _ _ context hvisit
    · exact whole_guarding _ _ context hvisit
    · exact whole_guarding _ _ context hvisit
    · simp only
      split <;> exact AllWhole.nil
  · intro finish hfinish context used _
    cases hfinish
    exact AllWhole.map fun feature _ => ⟨0, rfl⟩

/-! ## All rules -/

/-- All built-in rules report at whole offsets. -/
theorem whole_of_mem_all {rule : Rule} (h : rule ∈ all) : rule.Whole := by
  fin_cases h
  all_goals first
    | exact whole_letRequiresType
    | exact whole_exportConstTypeRequired
    | exact whole_noTopLevelSideEffects
    | exact whole_noReexports
    | exact whole_jsdocParamMatch
    | exact whole_paramMissingType
    | exact whole_preferReadonlyArray
    | exact whole_noUnusedVariables
    | exact whole_noUnusedImports
    | exact whole_onePublicFunction
    | exact whole_noThrow
    | exact whole_allowDirectives
    | apply whole_reporting
    | apply whole_reporting_append
  -- the other rules report about the visited node, if they report
  all_goals
    intro context visit _ hvisit
    repeat' split
    all_goals
      simp [AllWhole.ite, AllWhole.reportIf hvisit, AllWhole.node hvisit,
        whole_accessorReports hvisit, whole_memberAssignmentReports hvisit,
        whole_constantConditionReports hvisit,
        whole_catchReports hvisit, whole_importStyleReports hvisit, whole_libraryReports hvisit,
        whole_parameterCountReports hvisit, whole_undocumentedReports hvisit,
        whole_undocumentedDefault hvisit]

/-- An action reports where it is performed. -/
theorem whole_perform (action : Action) (file : SourceFile) {span : Span} (h : span.Whole) :
    AllWhole (action.perform file span).reports := by
  cases action <;> simp [Action.perform, h]

/-- A custom rule reports at whole offsets. -/
theorem whole_custom (id : String) (visits : List (String × Action)) (finish : Option Action) :
    (custom id visits finish).Whole := by
  constructor
  · intro entry hentry context visit _ hvisit
    obtain ⟨⟨kind, action⟩, -, rfl⟩ := List.mem_map.mp hentry
    exact whole_perform action _ hvisit.span
  · intro check hcheck context used _
    obtain ⟨action, -, rfl⟩ := Option.map_eq_some_iff.mp hcheck
    exact whole_perform action _ ⟨0, rfl⟩

/-- All rules there are report at whole offsets. -/
theorem Known.whole {rule : Rule} (h : rule.Known) : rule.Whole := by
  rcases h with h | ⟨id, visits, finish, rfl⟩
  · exact whole_of_mem_all h
  · exact whole_custom id visits finish

end Rule

end PureLint
