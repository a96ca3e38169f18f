import PureLint.Proofs.Analysis.Arrays
import PureLint.Proofs.Survey.Reference
import PureLint.Proofs.Survey.Statements

/-!
# Reports on the global `process`

Whether a file has a `process` of its own is known before the walk, from its import declarations
alone. If it has one, wherever the declaration stands, nothing is reported; if not, each identifier
is reported once that reads the name as a value. A namespace import does not count: it brings in the
module, not what the module is the source of.
-/

namespace PureLint

namespace TopLevel

/-- A statement imports `process` under a name: it is an import declaration of one of the two
sources, and one of its specifiers, but for a namespace specifier, brings in the name. -/
structure ImportsProcess (statement : Node) (name : String) : Prop where
  kind : statement.kind = "ImportDeclaration"
  source : statement.literalTextAt "source" = some "process" ∨
    statement.literalTextAt "source" = some "node:process"
  specifier : ∃ specifier ∈ statement.children "specifiers",
    specifier.kind ≠ "ImportNamespaceSpecifier" ∧ specifier.nameAt "local" = some name

variable {program statement : Node} {name : String}

/-- A specifier adds its name, but for a namespace specifier. -/
theorem processName_mem_specifierEntries {specifier : Node} :
    .processName name ∈ specifierEntries specifier ↔
      specifier.kind ≠ "ImportNamespaceSpecifier" ∧ specifier.nameAt "local" = some name := by
  unfold specifierEntries
  by_cases hkind : specifier.kind = "ImportNamespaceSpecifier"
  · simp [hkind]
  · cases specifier.nameAt "local" <;> simp [hkind, eq_comm]

/-- An import declaration of one of the two sources adds the names of its specifiers. -/
theorem processName_mem_importEntries :
    .processName name ∈ importEntries statement ↔
      (statement.literalTextAt "source" = some "process" ∨
        statement.literalTextAt "source" = some "node:process") ∧
      ∃ specifier ∈ statement.children "specifiers",
        specifier.kind ≠ "ImportNamespaceSpecifier" ∧ specifier.nameAt "local" = some name := by
  unfold importEntries
  cases statement.literalTextAt "source" with
  | none => simp
  | some source =>
    by_cases hsource : source ∈ processSources
    · have hknown : source = "process" ∨ source = "node:process" := by
        simpa [processSources] using hsource
      simp [hsource, hknown, List.mem_flatMap, processName_mem_specifierEntries]
    · have hknown : ¬(source = "process" ∨ source = "node:process") := by
        simpa [processSources] using hsource
      simp [hsource, hknown]

/-- A declaration that a statement exports by name adds no name of `process`. -/
theorem processName_notMem_declarationEntries {declaration : Node} :
    .processName name ∉ declarationEntries statement declaration := by
  have hvariable (declarator : Node) :
      .processName name ∉ variableEntries statement declarator := by
    unfold variableEntries Entry.ofExport
    cases declarator.nameAt "id" with
    | none => exact List.not_mem_nil
    | some other => cases declarator.holdsFunction "init" <;> simp
  unfold declarationEntries
  split
  · cases declaration.nameAt "id" <;> simp
  · split
    · simp [hvariable]
    · cases declaration.nameAt "id" <;> simp

/-- Only an import of `process` adds a name of it. -/
theorem processName_mem_entriesOf :
    .processName name ∈ entriesOf statement ↔ ImportsProcess statement name := by
  have himports : ImportsProcess statement name ↔
      statement.kind = "ImportDeclaration" ∧ .processName name ∈ importEntries statement := by
    rw [processName_mem_importEntries]
    exact ⟨fun h => ⟨h.kind, h.source, h.specifier⟩, fun ⟨hkind, hsource, hspecifier⟩ =>
      ⟨hkind, hsource, hspecifier⟩⟩
  rw [himports, entriesOf]
  split
  case h_1 hkind => simp [hkind]
  case h_2 hkind =>
    have hexport : .processName name ∉ namedExportEntries statement := by
      unfold namedExportEntries
      cases statement.child "declaration" with
      | none => split <;> simp
      | some declaration => split <;> simp [processName_notMem_declarationEntries]
    simp [hkind, hexport]
  case h_3 hkind => simp [hkind]
  case h_4 hkind =>
    unfold Entry.ofExport
    split <;> simp [hkind]
  case h_5 hother _ _ _ => exact iff_of_false List.not_mem_nil fun h => hother h.1

/-- The names under which a program imports `process` are those that its statements bring in. -/
theorem mem_processNames_iff :
    name ∈ (ofProgram program).processNames ↔
      ∃ statement ∈ program.children "body", ImportsProcess statement name := by
  rw [mem_processNames_ofProgram, entries, List.mem_flatMap]
  simp only [processName_mem_entriesOf]

end TopLevel

/-- The places at which a walk reads a name as a value: visits to identifiers of the name, with what
is known there. -/
def Survey.valueReads (name : String) (stages : List (Visit × Survey)) : List (Visit × Survey) :=
  stages.filter fun (visit, survey) =>
    visit.node.name? = some name ∧ survey.reference? visit = some .value

/-- At an identifier with a name, the checks for references are due where it reads the name as a
value. -/
theorem Survey.checksReference_iff_of_name {survey : Survey} {visit : Visit} {name : String}
    (h : visit.node.name? = some name) :
    survey.ChecksReference visit ↔ survey.reference? visit = some .value := by
  have hkind : visit.node.kind = "Identifier" := by
    unfold Node.name? at h
    split at h
    · assumption
    · cases h
  have hother : visit.node.kind ≠ referenceCheckKind := by
    rw [hkind]
    decide
  rw [ChecksReference, or_iff_right hother, and_iff_right hkind]

namespace AnalysisOptions

variable {o : AnalysisOptions} {program : Node} {comments : List Comment}

section

variable {id description : String} {find : Context → Visit → List Report}

/-- The checks of a rule that looks at references only are all for references. -/
theorem isReferenceCheck_of_mem {due : Call}
    (hdue : due ∈ Call.all
      [{ id, description, checks := reporting [referenceCheckKind] find }] [] (o.file comments)
      program) : due.isReferenceCheck = true ∧ due.OnlyReports := by
  have hwalk : due ∈ Call.ofWalk
      (.ofRules [{ id, description, checks := reporting [referenceCheckKind] find }])
      (o.file comments) ((Survey.ofProgram program).stages program.events) := by
    simpa [Call.all, Call.ofPolicies, Call.ofFinishes] using hdue
  obtain ⟨stage, -, rule, hrule, entry, hentry, -, rfl⟩ := (Call.mem_ofWalk _ _).mp hwalk
  cases List.mem_singleton.mp hrule
  cases List.mem_singleton.mp hentry
  exact ⟨rfl, _, fun _ => rfl⟩

/-- A rule that only reports at references reports what it finds at each, stage by stage. -/
theorem messagesOf_atReferences (hnames : (o.rules.map (·.id) ++ o.policies.map (·.id)).Nodup)
    (hrule : ({ id, description, checks := reporting [referenceCheckKind] find } : Rule) ∈
      o.rules) :
    o.messagesOf program comments id =
      (((Survey.ofProgram program).stages program.events).flatMap fun stage =>
        if stage.2.ChecksReference stage.1 then find ⟨o.file comments, stage.2⟩ stage.1
        else []).map (Report.messageOf id) := by
  rw [messagesOf_eq hnames hrule fun due hdue => (isReferenceCheck_of_mem hdue).2,
    ← List.filter_eq_self.mpr fun due hdue => (isReferenceCheck_of_mem hdue).1, Call.filter_all,
    List.flatMap_assoc]
  congr 1
  apply List.flatMap_congr
  rintro ⟨visit, survey⟩ -
  split
  · rw [Call.reports_atKind (List.nodup_singleton _), if_pos List.mem_cons_self]
  · rfl

end

/-- What is known about the top level at a stage of the walk is what was known before. -/
theorem topLevel_of_mem_stages {stage : Visit × Survey}
    (h : stage ∈ (Survey.ofProgram program).stages program.events) :
    stage.2.topLevel = TopLevel.ofProgram program := by
  obtain ⟨before, after, -, hstage⟩ := Survey.exists_split_of_mem_stages h
  rw [hstage, Survey.topLevel_run]
  rfl

/-- **Before any directive takes one away, there is one report for each visit to an identifier that
reads `process` as a value, and no other. There is none at all where a statement, wherever it
stands, imports `process` under this name by default, by name or by another name.** -/
theorem messagesOf_noGlobalProcess (o : AnalysisOptions) (program : Node) (comments : List Comment)
    (hnames : (o.rules.map (·.id) ++ o.policies.map (·.id)).Nodup)
    (hrule : Rule.noGlobalProcess ∈ o.rules) :
    let stages := (Survey.ofProgram program).stages program.events
    let imported := ∃ statement ∈ program.children "body",
      TopLevel.ImportsProcess statement "process"
    stages.map Prod.fst = program.visits ∧
      (imported → o.messagesOf program comments "no-global-process" = []) ∧
      (¬imported → o.messagesOf program comments "no-global-process" =
        (Survey.valueReads "process" stages).map fun stage => ⟨"no-global-process",
          "Global 'process' is not allowed. Import it from 'node:process' instead",
          stage.1.node.span⟩) := by
  intro stages imported
  have hmessages : o.messagesOf program comments "no-global-process" = _ :=
    messagesOf_atReferences hnames hrule
  have hknown (stage : Visit × Survey) (hstage : stage ∈ stages) :
      "process" ∈ stage.2.topLevel.processNames ↔ imported := by
    rw [topLevel_of_mem_stages hstage, TopLevel.mem_processNames_iff]
  refine ⟨Survey.stages_fst _ _, ?_, ?_⟩
  · intro himported
    rw [hmessages, List.map_eq_nil_iff, List.flatMap_eq_nil_iff]
    intro stage hstage
    simp [(hknown stage hstage).mpr himported, reportIf]
  · intro hglobal
    rw [hmessages, Survey.valueReads, List.map_flatMap, List.map_eq_flatMap, flatMap_filter]
    apply List.flatMap_congr
    intro stage hstage
    have hunknown : "process" ∉ stage.2.topLevel.processNames :=
      mt (hknown stage hstage).mp hglobal
    by_cases hname : stage.1.node.name? = some "process"
    · simp only [Survey.checksReference_iff_of_name hname, hname, true_and, decide_eq_true_eq]
      split
      · simp [hunknown, reportIf, Report.messageOf, Node.report]
      · rfl
    · simp [hname, reportIf]

/-- The tree of `process.process`. -/
def processRead : Node :=
  ⟨0, "Program", .int 0, .int 0, [("body", .array [
    .atStart 1 "ExpressionStatement" [("expression", .atStart 2 "MemberExpression" [
      ("object", .atStart 3 "Identifier" [("name", .text "process")]),
      ("property", .atStart 4 "Identifier" [("name", .text "process")]),
      ("computed", .bool false)])]])]⟩

/-- An import of `process` from its module with a specifier of a kind, below a statement that reads
it. -/
def processImport (kind : String) : Node :=
  ⟨0, "Program", .int 0, .int 0, [("body", .array [
    .atStart 1 "ExpressionStatement" [
      ("expression", .atStart 2 "Identifier" [("name", .text "process")])],
    .atStart 3 "ImportDeclaration" [
      ("specifiers", .array [
        .atStart 4 kind [("local", .atStart 5 "Identifier" [("name", .text "process")])]]),
      ("source", .atStart 6 "Literal" [("value", .text "node:process")])]])]⟩

/-- The object is reported and the property is not. With an import below there is no report. -/
theorem messagesOf_noGlobalProcess_processRead :
    (allRules.messagesOf processRead [] "no-global-process").map (·.text) =
        ["Global 'process' is not allowed. Import it from 'node:process' instead"] ∧
      allRules.messagesOf (processImport "ImportDefaultSpecifier") [] "no-global-process" = [] := by
  have hrule : Rule.noGlobalProcess ∈ allRules.rules := by simp [allRules, Rule.all]
  have hglobal : ¬∃ statement ∈ processRead.children "body",
      TopLevel.ImportsProcess statement "process" := by
    rintro ⟨statement, hstatement, himport⟩
    cases List.mem_singleton.mp hstatement
    exact absurd himport.kind (by decide)
  have himported : ∃ statement ∈ (processImport "ImportDefaultSpecifier").children "body",
      TopLevel.ImportsProcess statement "process" := by
    refine ⟨_, List.mem_cons_of_mem _ List.mem_cons_self, ⟨by decide, Or.inr (by decide), ?_⟩⟩
    exact ⟨_, List.mem_cons_self, by decide, by decide⟩
  constructor
  · rw [(messagesOf_noGlobalProcess allRules processRead [] nodup_names_allRules hrule).2.2 hglobal]
    decide +kernel
  · exact (messagesOf_noGlobalProcess allRules _ [] nodup_names_allRules hrule).2.1 himported

/-- A namespace import binds the name, but its use is reported. -/
theorem messagesOf_noGlobalProcess_namespaceImport :
    let program := processImport "ImportNamespaceSpecifier"
    (∃ statement ∈ program.children "body", statement.kind = "ImportDeclaration" ∧
        statement.literalTextAt "source" = some "node:process" ∧
        ∃ specifier ∈ statement.children "specifiers",
          specifier.nameAt "local" = some "process") ∧
      (allRules.messagesOf program [] "no-global-process").map (·.text) =
        ["Global 'process' is not allowed. Import it from 'node:process' instead"] := by
  decide +kernel

end AnalysisOptions

end PureLint
