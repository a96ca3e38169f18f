import PureLint.Proofs.Analysis.Isolation
import PureLint.Proofs.Directive.Marker
import PureLint.Proofs.Policy.Reordering

/-!
# Analyses and the order of statements

All built-in rules and policies tell the same about a program when its statements stand in another
order, as long as no directive picks out lines. The one exception is by design: of several exported
functions the rule on their number names all but the first.
-/

namespace PureLint

open Rule (onePublicFunction)

/-! ## What checks tell -/

/-- Messages of outcomes, each with the name it is told under. -/
def Outcome.told (id : String) (outcome : Outcome) : List (String × String) :=
  (Report.messages outcome.reports).map fun message => (id, message)

/-- Alike outcomes tell the same, in some order. -/
theorem Outcome.Alike.told {outcome other : Outcome} (h : outcome.Alike other) (id : String) :
    (outcome.told id).Perm (other.told id) := h.messages.map _

namespace Call

/-- What a check tells that is told of features. -/
def told (used : List Feature) (due : Call) : List (String × String) := (due.run used).told due.id

/-- Checks under one name that come to the same. -/
structure Alike (due other : Call) : Prop where
  id : other.id = due.id
  outcome : (due.run []).Alike (other.run [])

/-- Alike checks tell the same, in some order. -/
theorem Alike.told {due other : Call} (h : due.Alike other) :
    (due.told []).Perm (other.told []) := by
  unfold Call.told
  rw [h.id]
  exact h.outcome.told due.id

variable {rules : List Rule} {policies : List Policy}

/-- At alike stages the checks that are due are alike. -/
theorem matched_atVisit (hrules : rules ⊆ Rule.all) (file : SourceFile)
    {stage other : Visit × Survey} (h : Survey.AlikeStages stage other) :
    Matched Alike (atVisit (.ofRules rules) file stage.1 stage.2)
      (atVisit (.ofRules rules) file other.1 other.2) := by
  have hkinds : other.2.kindsAt other.1 = stage.2.kindsAt stage.1 := by
    rw [Survey.kindsAt, h.visit.node.kind, h.reference?, Survey.kindsAt]
  apply Matched.of_forall₂
  rw [atVisit_eq, atVisit_eq, hkinds]
  apply forall₂_flatMap
  intro kind _
  rw [atKind_ofRules, atKind_ofRules]
  apply forall₂_flatMap
  intro rule hrule
  rw [List.forall₂_map_left_iff, List.forall₂_map_right_iff, List.forall₂_same]
  intro entry hentry
  exact ⟨rfl, Rule.alike_check (hrules hrule) (List.mem_filter.mp hentry).1 ⟨rfl, h.survey⟩ h.visit⟩

variable {program other : Node}

/-- For programs with the same statements the checks before the final ones are alike, in some
order. -/
theorem matched_beforeFinish (hrules : rules ⊆ Rule.all) (hpolicies : policies ⊆ Policy.all)
    (file : SourceFile) (h : program.Reordered other) (hdistinct : program.Distinct) :
    Matched Alike (beforeFinish rules policies file program)
      (beforeFinish rules policies file other) := by
  apply Matched.append
  · exact (h.matched_stages hdistinct).flatMap fun _ _ hstage => matched_atVisit hrules file hstage
  · apply Matched.of_forall₂
    unfold ofPolicies
    rw [List.forall₂_map_left_iff, List.forall₂_map_right_iff, List.forall₂_same]
    intro policy hpolicy
    exact ⟨rfl, Policy.orderless_of_mem_all (hpolicies hpolicy) _ _ _ _ rfl h.alike.body⟩

end Call

/-! ## Names under which the messages may differ -/

/-- The same is told, in some order, apart from one name: of what is told under it only the number
is the same. -/
structure SameBut (id : String) (told others : List (String × String)) : Prop where
  rest : (told.filter fun pair => pair.1 != id).Perm (others.filter fun pair => pair.1 != id)
  count : (told.filter fun pair => pair.1 == id).length =
    (others.filter fun pair => pair.1 == id).length

namespace SameBut

variable {id : String} {told others more further : List (String × String)}

/-- What is the same but for the order, is so under all names. -/
theorem of_perm (h : told.Perm others) : SameBut id told others :=
  ⟨h.filter _, (h.filter _).length_eq⟩

/-- Of what is told under one name, only the number matters. -/
theorem of_length (h : told.length = others.length) (htold : ∀ pair ∈ told, pair.1 = id)
    (hothers : ∀ pair ∈ others, pair.1 = id) : SameBut id told others := by
  have hown {pairs : List (String × String)} (hpairs : ∀ pair ∈ pairs, pair.1 = id) :
      (pairs.filter fun pair => pair.1 != id) = [] ∧
        (pairs.filter fun pair => pair.1 == id) = pairs := by
    constructor
    · rw [List.filter_eq_nil_iff]
      intro pair hpair
      simp [hpairs pair hpair]
    · rw [List.filter_eq_self]
      intro pair hpair
      simp [hpairs pair hpair]
  obtain ⟨hrest, hcount⟩ := hown htold
  obtain ⟨hotherRest, hotherCount⟩ := hown hothers
  constructor
  · rw [hrest, hotherRest]
  · rw [hcount, hotherCount, h]

/-- What is told in two parts is the same if both parts are. -/
theorem append (h : SameBut id told others) (h' : SameBut id more further) :
    SameBut id (told ++ more) (others ++ further) := by
  constructor
  · rw [List.filter_append, List.filter_append]
    exact h.rest.append h'.rest
  · rw [List.filter_append, List.filter_append, List.length_append, List.length_append, h.count,
      h'.count]

/-- What is told about items is the same if it is for each of them. -/
theorem flatMap {α : Type} {items : List α} {f g : α → List (String × String)}
    (h : ∀ a ∈ items, SameBut id (f a) (g a)) :
    SameBut id (items.flatMap f) (items.flatMap g) := by
  induction items with
  | nil => exact of_perm (List.Perm.refl _)
  | cons a items ih =>
    rw [List.flatMap_cons, List.flatMap_cons]
    exact (h a List.mem_cons_self).append (ih fun b hb => h b (List.mem_cons_of_mem _ hb))

end SameBut

/-! ## What final checks tell -/

namespace Rule

/-- What the final check of a rule tells, if it has one. -/
def toldAtEnd (rule : Rule) (context : Context) (used : List Feature) : List (String × String) :=
  rule.finish.toList.flatMap fun finish => (finish context used).told rule.id

/-- The final check of a built-in rule tells the same, or it is the rule on the number of exported
functions and tells as much. -/
theorem sameBut_toldAtEnd {rule : Rule} (h : rule ∈ all) {context other : Context}
    (hcontext : context.AlikeAtEnd other) {used seen : List Feature}
    (hused : ∀ feature, feature ∈ used ↔ feature ∈ seen) :
    SameBut onePublicFunction.id (rule.toldAtEnd context used) (rule.toldAtEnd other seen) := by
  apply SameBut.flatMap
  intro finish hfinish
  rw [Option.mem_toList] at hfinish
  by_cases hrule : rule = onePublicFunction
  · subst hrule
    have hlength := length_finish_onePublicFunction hfinish hcontext used seen
    apply SameBut.of_length
    · simp [Outcome.told, Report.messages, hlength]
    · intro pair hpair
      obtain ⟨message, -, rfl⟩ := List.mem_map.mp hpair
      rfl
    · intro pair hpair
      obtain ⟨message, -, rfl⟩ := List.mem_map.mp hpair
      rfl
  · exact SameBut.of_perm (((orderless_of_mem_all h hrule).finish finish hfinish context other used
      seen hcontext hused).told rule.id)

end Rule

/-- The final checks that are due tell what the final checks of the rules tell. -/
theorem Call.told_ofFinishes (rules : List Rule) (context : Context) (used : List Feature) :
    (ofFinishes rules context).flatMap (told used) =
      rules.flatMap fun rule => rule.toldAtEnd context used := by
  rw [ofFinishes, List.filterMap_eq_flatMap_toList, List.flatMap_assoc]
  congr 1
  funext rule
  unfold Rule.toldAtEnd
  cases rule.finish <;> rfl

/-! ## What an analysis tells -/

/-- What a check that was run told. -/
def Run.told (run : Run) : List (String × String) := run.outcome.told run.id

/-- Where no check fails, the checks before the final ones tell what they do if no feature was
noted, and the final ones what they do if all features of those before were. -/
theorem Session.flatMap_told_runs {rules : List Rule} {policies : List Policy} {file : SourceFile}
    {program : Node} {s : Session} (hfailed : s.failed = []) (hused : s.used = [])
    (hmodest : ∀ rule ∈ rules, rule.Modest)
    (hbefore : ∀ due ∈ Call.beforeFinish rules policies file program, (due.run []).failure = none)
    (hfinish : ∀ rule ∈ rules, ∀ finish ∈ rule.finish, ∀ used,
      (finish (Context.final file program) used).failure = none) :
    let before := Call.beforeFinish rules policies file program
    (s.runs (Call.all rules policies file program)).flatMap Run.told =
      before.flatMap (Call.told []) ++ rules.flatMap fun rule =>
        rule.toldAtEnd (Context.final file program) (before.flatMap Call.uses) := by
  intro before
  have hsteady : ∀ due ∈ before, due.Steady := fun due hdue => Call.steady_of_mem_beforeFinish hdue
  have hruns : s.runs before = before.map fun due => ⟨due, due.run []⟩ := by
    apply runs_eq_map hfailed
    · intro due hdue used
      rw [hsteady due hdue used]
      exact hbefore due hdue
    · intro run hrun
      exact outcome_of_steady hsteady hrun
  have hfollows := follows_foldl s before
  have hunfailed : (before.foldl call s).failed = [] := by
    rw [hfollows.failed, hfailed, hruns, List.nil_append, List.map_eq_nil_iff,
      List.filter_eq_nil_iff]
    intro run hrun
    obtain ⟨due, hdue, rfl⟩ := List.mem_map.mp hrun
    simp [Run.fails, hbefore due hdue]
  have hnoted : (before.foldl call s).used = before.flatMap Call.uses := by
    rw [hfollows.used, hused, hruns, List.nil_append, List.flatMap_map]
    rfl
  have hends : (before.foldl call s).runs (Call.ofFinishes rules (Context.final file program)) =
      (Call.ofFinishes rules (Context.final file program)).map fun due =>
        ⟨due, due.run (before.flatMap Call.uses)⟩ := by
    apply runs_eq_map hunfailed
    · intro due hdue used
      obtain ⟨rule, hrule, finish, hmem, rfl⟩ := Call.mem_ofFinishes.mp hdue
      exact hfinish rule hrule finish hmem used
    · intro run hrun
      rw [← hnoted]
      exact outcome_of_quiet (Call.uses_ofFinishes hmodest _) hrun
  rw [Call.all_eq, runs_append, List.flatMap_append, hruns, hends, List.flatMap_map,
    List.flatMap_map, ← Call.told_ofFinishes]
  rfl

namespace AnalysisOptions

variable (o : AnalysisOptions) (program : Node) (comments : List Comment)

/-- The names and messages of the diagnostics of an analysis. -/
def told : List (String × String) :=
  (o.check program comments).diagnostics.map fun diagnostic => (diagnostic.rule, diagnostic.message)

/-- Where no directive is, an analysis tells what its checks told. -/
theorem told_eq_runs (hsource : Directive.Free o.source) :
    o.told program comments = (o.runs program comments).flatMap Run.told := by
  have hkept (m : Message) : (Sink.ofSource o.filePath o.source).fateOf m = .kept := by
    simp only [Sink.fateOf_ofSource, Expectations.announced_of_free hsource]
    simp [Sink.ofSource, Suppressions.covers_of_free hsource]
  rw [told, diagnostics_eq]
  simp only [hkept, Expectations.announced_of_free hsource, decide_true, List.filter_true,
    List.filter_nil, List.map_nil, List.append_nil, List.map_map, messages, List.map_flatMap]
  apply List.flatMap_congr
  intro run _
  rw [Run.messages, Run.told, Outcome.told, Report.messages, List.map_map, List.map_map]
  rfl

/-- **The order of statements does not matter.** Where no directive is, the built-in rules and
policies tell the same about a program when its statements stand in another order, under each name
but that of the rule on the number of exported functions; and that rule tells as much. -/
theorem told_reordered {program other : Node} (hrules : o.rules ⊆ Rule.all)
    (hpolicies : o.policies ⊆ Policy.all) (hsource : Directive.Free o.source)
    (hdistinct : program.Distinct) (h : program.Reordered other) :
    ((o.told program comments).filter fun pair => pair.1 != onePublicFunction.id).Perm
        ((o.told other comments).filter fun pair => pair.1 != onePublicFunction.id) ∧
      ((o.told program comments).filter fun pair => pair.1 == onePublicFunction.id).length =
        ((o.told other comments).filter fun pair => pair.1 == onePublicFunction.id).length := by
  have hbefore := Call.matched_beforeFinish hrules hpolicies (o.file comments) h hdistinct
  have hend : (Context.final (o.file comments) program).AlikeAtEnd
      (Context.final (o.file comments) other) := ⟨rfl, h.alikeAtEnd hdistinct⟩
  have hmodest : ∀ rule ∈ o.rules, rule.Modest := fun rule hrule =>
    Rule.Known.modest (Or.inl (hrules hrule))
  have huses : ((Call.beforeFinish o.rules o.policies (o.file comments) program).flatMap
      Call.uses).Perm
        ((Call.beforeFinish o.rules o.policies (o.file comments) other).flatMap Call.uses) := by
    apply hbefore.flatMap_perm
    intro due otherDue hdue
    exact List.Perm.of_eq hdue.outcome.uses.symm
  have hsame : SameBut onePublicFunction.id (o.told program comments) (o.told other comments) := by
    rw [told_eq_runs o program comments hsource, told_eq_runs o other comments hsource, runs, runs,
      calls, calls, Session.flatMap_told_runs rfl rfl hmodest,
      Session.flatMap_told_runs rfl rfl hmodest]
    · apply SameBut.append
      · exact SameBut.of_perm (hbefore.flatMap_perm fun _ _ hdue => hdue.told)
      · apply SameBut.flatMap
        intro rule hrule
        exact Rule.sameBut_toldAtEnd (hrules hrule) hend fun feature => huses.mem_iff
    · exact hbefore.symm.forall_mem fun _ _ hdue => hdue.outcome.otherFailure
    · intro rule hrule finish hfinish used
      exact (Rule.failure_finish (hrules hrule) hfinish hend used).2
    · exact hbefore.forall_mem fun _ _ hdue => hdue.outcome.failure
    · intro rule hrule finish hfinish used
      exact (Rule.failure_finish (hrules hrule) hfinish hend used).1
  exact ⟨hsame.rest, hsame.count⟩

/-- A statement that exports a function without parameters. -/
def exportedFunction (id : Nat) (name : String) : Value :=
  .atStart id "ExportNamedDeclaration" [("declaration", .atStart (id + 1) "FunctionDeclaration" [
    ("id", .atStart (id + 2) "Identifier" [("name", .text name)])])]

/-- A statement that imports a default export as `x`. -/
def defaultImport (id : Nat) : Value :=
  .atStart id "ImportDeclaration" [("specifiers", .array [
    .atStart (id + 1) "ImportDefaultSpecifier" [
      ("local", .atStart (id + 2) "Identifier" [("name", .text "x")])]])]

/-- A program of these statements. -/
def programOf (statements : List Value) : Node :=
  ⟨0, "Program", .int 0, .int 0, [("body", .array statements)]⟩

/-- A file without a directive, looked at by all built-in rules and policies. -/
def builtIn : AnalysisOptions where
  filePath := "src/f.ts"
  source := "import x from 'x'\nexport function f() {}\nexport function g() {}"
  traits := Path.classify "src/f.ts"
  rules := Rule.all
  policies := Policy.all

/-- With the second function in front the same is told, but for the name of the function that is one
too many. -/
theorem told_reordered_twoFunctions :
    let program := programOf [defaultImport 1, exportedFunction 4 "f", exportedFunction 7 "g"]
    let other := programOf [exportedFunction 7 "g", defaultImport 1, exportedFunction 4 "f"]
    program.Distinct ∧ program.Reordered other ∧
      ((builtIn.told program []).filter fun pair => pair.1 != onePublicFunction.id).Perm
        ((builtIn.told other []).filter fun pair => pair.1 != onePublicFunction.id) ∧
      ("no-unused-imports", "Import 'x' is declared but never used") ∈ builtIn.told program [] ∧
      ((builtIn.told program []).filter fun pair => pair.1 == onePublicFunction.id) =
        [("one-public-function",
          "Only one function can be exported per file. Found additional export: g")] ∧
      ((builtIn.told other []).filter fun pair => pair.1 == onePublicFunction.id) =
        [("one-public-function",
          "Only one function can be exported per file. Found additional export: f")] := by
  intro program other
  have hdistinct : program.Distinct := by decide
  have hperm : ([defaultImport 1, exportedFunction 4 "f"] ++ [exportedFunction 7 "g"]).Perm
      ([exportedFunction 7 "g"] ++ [defaultImport 1, exportedFunction 4 "f"]) :=
    List.perm_append_comm
  have hreordered : program.Reordered other := ⟨[], _, _, [], rfl, rfl, rfl, hperm⟩
  have hsource : Directive.Free builtIn.source := by decide +kernel
  obtain ⟨hrest, -⟩ := told_reordered builtIn [] (List.Subset.refl _) (List.Subset.refl _) hsource
    hdistinct hreordered
  exact ⟨hdistinct, hreordered, hrest, by decide +kernel, by decide +kernel, by decide +kernel⟩

end AnalysisOptions

end PureLint
