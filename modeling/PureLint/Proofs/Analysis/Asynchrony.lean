import PureLint.Proofs.Analysis.Reordering
import PureLint.Proofs.Policy.Asynchrony
import PureLint.Proofs.Survey.Exports

/-!
# What an analysis tells about asynchronous functions

Where both policies are on and no directive is, an analysis tells what they report. So in a pure
directory it forbids an asynchronous function exactly if a statement declares one: a function that
is exported in another way gets through.
-/

namespace PureLint

/-- The names of the built-in policies. -/
def Policy.ids : List String := Policy.all.map (·.id)

/-- No two built-in policies share a name. -/
theorem Policy.eq_of_id_eq {policy other : Policy} (h : policy ∈ Policy.all)
    (hother : other ∈ Policy.all) (hid : policy.id = other.id) : policy = other := by
  have hnodup : (Policy.all.map (·.id)).Nodup := by decide
  exact List.inj_on_of_nodup_map hnodup h hother hid

/-- An outcome tells, under the name it is told under, the messages of its reports. -/
theorem Outcome.mem_told_iff {outcome : Outcome} {id other message : String} :
    (other, message) ∈ outcome.told id ↔
      id = other ∧ ∃ report ∈ outcome.reports, report.message = message := by
  simp only [told, Report.messages, List.mem_map, Prod.mk.injEq]
  constructor
  · rintro ⟨told, ⟨report, hreport, rfl⟩, rfl, rfl⟩
    exact ⟨rfl, report, hreport, rfl⟩
  · rintro ⟨rfl, report, hreport, rfl⟩
    exact ⟨report.message, ⟨report, hreport, rfl⟩, rfl, rfl⟩

namespace AnalysisOptions

/-- Both built-in policies are on, and no other check goes by the name of one. -/
structure AppliesPolicies (o : AnalysisOptions) : Prop where
  both : Policy.all ⊆ o.policies
  policies : ∀ policy ∈ o.policies, policy.id ∈ Policy.ids → policy ∈ Policy.all
  rules : ∀ rule ∈ o.rules, rule.id ∉ Policy.ids

namespace AppliesPolicies

variable {o : AnalysisOptions} (h : o.AppliesPolicies) {program : Node} {comments : List Comment}

include h

/-- A check that is due under the name of a built-in policy is that of the policy. -/
theorem call_eq {due : Call} (hdue : due ∈ o.calls program comments) {policy : Policy}
    (hpolicy : policy ∈ Policy.all) (hid : due.id = policy.id) (used : List Feature) :
    due.run used = policy.check (Context.final (o.file comments) program) program := by
  have hids : due.id ∈ Policy.ids := by
    rw [hid]
    exact List.mem_map_of_mem hpolicy
  rw [calls, Call.all_eq] at hdue
  rcases List.mem_append.mp hdue with hdue | hdue
  · rcases List.mem_append.mp hdue with hdue | hdue
    · obtain ⟨stage, -, rule, hrule, entry, -, -, rfl⟩ := (Call.mem_ofWalk _ _).mp hdue
      exact absurd hids (h.rules rule hrule)
    · obtain ⟨other, hother, rfl⟩ := List.mem_map.mp hdue
      rw [Policy.eq_of_id_eq hpolicy (h.policies other hother hids) hid.symm]
  · obtain ⟨rule, hrule, finish, -, rfl⟩ := Call.mem_ofFinishes.mp hdue
    exact absurd hids (h.rules rule hrule)

/-- A built-in policy is run, as no check under its name fails. -/
theorem exists_run {policy : Policy} (hpolicy : policy ∈ Policy.all) :
    ∃ run ∈ o.runs program comments, run.id = policy.id ∧
      run.outcome = policy.check (Context.final (o.file comments) program) program := by
  let due : Call :=
    ⟨policy.id, .policy, fun _ => policy.check (Context.final (o.file comments) program) program⟩
  have hdue : due ∈ o.calls program comments := by
    rw [calls, Call.all_eq]
    exact List.mem_append_left _ (List.mem_append_right _ (List.mem_map_of_mem (h.both hpolicy)))
  have hfailure := (Policy.orderless_of_mem_all hpolicy
    (Context.final (o.file comments) program) _ program program rfl (List.Perm.refl _)).failure
  have hunfailed : due.id ∉ ((o.calls program comments).foldl Session.call o.fresh).failed := by
    rw [Session.mem_failed_foldl]
    rintro (hfailed | ⟨run, hrun, hfails, hid⟩)
    · cases hfailed
    · obtain ⟨hmem, used, houtcome⟩ := Session.due_of_mem_runs hrun
      rw [Run.fails, houtcome, h.call_eq hmem hpolicy hid, hfailure] at hfails
      cases hfails
  obtain ⟨used, hrun⟩ := Session.exists_run_of_mem hdue hunfailed
  exact ⟨_, hrun, rfl, rfl⟩

/-- Where no directive is, an analysis tells under the name of a built-in policy what the policy
reports. -/
theorem mem_told_iff (hsource : Directive.Free o.source) {policy : Policy}
    (hpolicy : policy ∈ Policy.all) (message : String) :
    (policy.id, message) ∈ o.told program comments ↔
      ∃ report ∈ (policy.check (Context.final (o.file comments) program) program).reports,
        report.message = message := by
  rw [told_eq_runs o program comments hsource, List.mem_flatMap]
  constructor
  · rintro ⟨run, hrun, htold⟩
    obtain ⟨hid, hreport⟩ := Outcome.mem_told_iff.mp htold
    obtain ⟨hdue, used, houtcome⟩ := Session.due_of_mem_runs hrun
    rw [houtcome, h.call_eq hdue hpolicy hid] at hreport
    exact hreport
  · intro hreport
    obtain ⟨run, hrun, hid, houtcome⟩ := h.exists_run hpolicy
    rw [← houtcome] at hreport
    exact ⟨run, hrun, Outcome.mem_told_iff.mpr ⟨hid, hreport⟩⟩

end AppliesPolicies

/-- In a pure directory where both policies are on and no directive is, some diagnostic of a policy
says that a pure function cannot be asynchronous exactly if a statement declares an asynchronous
function. -/
theorem forbidden_iff_declaresAsync (o : AnalysisOptions) (program : Node) (comments : List Comment)
    (entries : EntryPaths) (htraits : o.traits = Path.classify o.filePath entries)
    (hpure : o.traits.directory = .pure) (hexempt : Policy.isExempt o.traits = false)
    (hsource : Directive.Free o.source) (h : o.AppliesPolicies) :
    (∃ diagnostic ∈ (o.check program comments).diagnostics,
      diagnostic.rule ∈ Policy.ids ∧ Policy.ForbidsAsync diagnostic.message) ↔
      ∃ statement ∈ program.children "body", Policy.DeclaresAsync statement := by
  have hconventional : Policy.Conventional o.traits := by
    rw [htraits] at hpure hexempt ⊢
    exact Policy.conventional_classify hexempt (Policy.inOneDirectory_of_pure hpure)
  have hcontext : (Context.final (o.file comments) program).file.traits = o.traits := rfl
  rw [← Policy.forbids_iff hconventional hpure hcontext program]
  constructor
  · rintro ⟨diagnostic, hdiagnostic, hid, hforbids⟩
    obtain ⟨policy, hpolicy, hid⟩ := List.mem_map.mp hid
    have htold : (policy.id, diagnostic.message) ∈ o.told program comments := by
      rw [hid]
      exact List.mem_map_of_mem hdiagnostic
    obtain ⟨report, hreport, hmessage⟩ := (h.mem_told_iff hsource hpolicy _).mp htold
    rw [← hmessage] at hforbids
    exact ⟨policy, hpolicy, report, hreport, hforbids⟩
  · rintro ⟨policy, hpolicy, report, hreport, hforbids⟩
    have htold := (h.mem_told_iff hsource hpolicy report.message).mpr ⟨report, hreport, rfl⟩
    obtain ⟨diagnostic, hdiagnostic, heq⟩ := List.mem_map.mp htold
    obtain ⟨hid, hmessage⟩ := Prod.mk.inj heq
    refine ⟨diagnostic, hdiagnostic, ?_, hmessage ▸ hforbids⟩
    rw [hid]
    exact List.mem_map_of_mem hpolicy

/-- **In a pure directory only declared functions are kept from being asynchronous.** Let both
policies be on, for a file to which the convention for pure functions applies and in which no
directive is. Then some diagnostic of a policy says that a pure function cannot be asynchronous
exactly if a statement declares an asynchronous function, be it exported by name or not. Each of the
exported functions of the program is one that a statement exports, and it is kept from being
asynchronous if it is itself what the statement exports by name. -/
theorem forbidsAsync_iff (o : AnalysisOptions) (program : Node) (comments : List Comment)
    (entries : EntryPaths) (htraits : o.traits = Path.classify o.filePath entries)
    (hpure : o.traits.directory = .pure) (hexempt : Policy.isExempt o.traits = false)
    (hsource : Directive.Free o.source) (h : o.AppliesPolicies) :
    let forbidden := ∃ diagnostic ∈ (o.check program comments).diagnostics,
      diagnostic.rule ∈ Policy.ids ∧ Policy.ForbidsAsync diagnostic.message
    (forbidden ↔ ∃ statement ∈ program.children "body", Policy.DeclaresAsync statement) ∧
    ∀ e ∈ (TopLevel.ofProgram program).functions,
      ∃ statement ∈ program.children "body", ∃ fn,
        TopLevel.ExportsFunction statement e.name fn ∧ e.span = statement.span ∧
        (fn.flag "async" = true → statement.kind = "ExportNamedDeclaration" →
          statement.child "declaration" = some fn → forbidden) := by
  intro forbidden
  have hiff : forbidden ↔
      ∃ statement ∈ program.children "body", Policy.DeclaresAsync statement :=
    forbidden_iff_declaresAsync o program comments entries htraits hpure hexempt hsource h
  refine ⟨hiff, ?_⟩
  intro e he
  obtain ⟨statement, hstatement, name, fn, hexports, rfl⟩ := TopLevel.mem_functions_iff.mp he
  refine ⟨statement, hstatement, fn, hexports, rfl, ?_⟩
  intro hasync hkind hchild
  exact hiff.mpr ⟨statement, hstatement, fn, hexports.kind_of_child hkind hchild, hasync,
    Or.inr ⟨hkind, hchild⟩⟩

/-- A file in a pure directory, looked at by the policies. -/
def pureLoad : AnalysisOptions where
  filePath := "src/pure/load.ts"
  source := ""
  traits := Path.classify "src/pure/load.ts"
  policies := Policy.all

/-- Only the policies look at the file. -/
theorem appliesPolicies_pureLoad : pureLoad.AppliesPolicies where
  both := List.Subset.refl _
  policies _ hpolicy _ := hpolicy
  rules _ hrule := absurd hrule List.not_mem_nil

/-- A program that exports the declaration of an asynchronous function. -/
def declaredLoad : Node :=
  programOf [.atStart 1 "ExportNamedDeclaration" [
    ("declaration", .atStart 2 "FunctionDeclaration" [
      ("id", .atStart 3 "Identifier" [("name", .text "load")]), ("async", .bool true)])]]

/-- A program that exports a variable with an asynchronous function. -/
def boundLoad : Node :=
  programOf [.atStart 1 "ExportNamedDeclaration" [
    ("declaration", .atStart 2 "VariableDeclaration" [("declarations", .array [
      .atStart 3 "VariableDeclarator" [
        ("id", .atStart 4 "Identifier" [("name", .text "load")]),
        ("init", .atStart 5 "ArrowFunctionExpression" [("async", .bool true)])]])])]]

/-- The declared function is kept from being asynchronous. -/
theorem forbidsAsync_iff_declaredLoad :
    pureLoad.traits.directory = .pure ∧ Policy.isExempt pureLoad.traits = false ∧
      Directive.Free pureLoad.source ∧ pureLoad.AppliesPolicies ∧
      ∃ diagnostic ∈ (pureLoad.check declaredLoad []).diagnostics,
        diagnostic.rule ∈ Policy.ids ∧ Policy.ForbidsAsync diagnostic.message := by
  have hpure : pureLoad.traits.directory = .pure := by decide +kernel
  have hexempt : Policy.isExempt pureLoad.traits = false := by decide +kernel
  have hsource : Directive.Free pureLoad.source := by decide +kernel
  refine ⟨hpure, hexempt, hsource, appliesPolicies_pureLoad, ?_⟩
  apply (forbidsAsync_iff pureLoad declaredLoad [] {} rfl hpure hexempt hsource
    appliesPolicies_pureLoad).1.mpr
  exact ⟨_, List.mem_cons_self, _, rfl, rfl, Or.inr ⟨rfl, rfl⟩⟩

/-- An asynchronous function that is exported as a variable counts as an exported function, and
nothing is told about it. -/
theorem overlooked_boundLoad :
    pureLoad.traits.directory = .pure ∧ Policy.isExempt pureLoad.traits = false ∧
      Directive.Free pureLoad.source ∧ pureLoad.AppliesPolicies ∧
      (TopLevel.ofProgram boundLoad).functions.map (·.name) = ["load"] ∧
      (∃ statement ∈ boundLoad.children "body", ∃ fn,
        TopLevel.ExportsFunction statement "load" fn ∧ fn.flag "async" = true) ∧
      (pureLoad.check boundLoad []).diagnostics = [] := by
  refine ⟨by decide +kernel, by decide +kernel, by decide +kernel, appliesPolicies_pureLoad,
    by decide +kernel, ?_, ?_⟩
  · refine ⟨_, List.mem_cons_self, _, .bound rfl rfl rfl List.mem_cons_self rfl rfl ?_, ?_⟩
    · simp [Node.isFunction, Node.unparenthesized, Node.hasKind, Node.functionKinds]
    · simp [Node.unparenthesized]
      rfl
  · apply List.isEmpty_iff.mp
    decide +kernel

end AnalysisOptions

end PureLint
