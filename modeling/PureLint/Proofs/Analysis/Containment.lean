import Mathlib.Data.List.Forall2
import PureLint.Proofs.Analysis.Completion
import PureLint.Proofs.Analysis.Isolation
import PureLint.Proofs.Tree.Inside

/-!
# A failing check is contained

A check that fails costs its own name the checks that are still due, and no more: what was reported
under the name stays, the walk goes on as it would have, and under all other names the same checks
are run and come to the same as if nothing went by the name of the failing one. Only a final check
can notice, as it is told which features were noted.
-/

namespace PureLint

open Event
open Rule (allowDirectives)

/-! ## The walk and the checks hand in hand -/

/-- How far an analysis is in its walk: what is known about the file, which nodes were entered, and
the state of the analysis. -/
structure Progress where
  survey : Survey
  entered : List Visit := []
  session : Session

namespace Progress

/-- One step of the walk. On entering a node the survey is brought up to date first, and then the
checks due there are run. -/
def step (rules : List Rule) (file : SourceFile) (p : Progress) : Event → Progress
  | .enter visit =>
    let survey := p.survey.enter visit
    { survey := survey
      entered := p.entered ++ [visit]
      session := (Call.atVisit (.ofRules rules) file visit survey).foldl Session.call p.session }
  | .leave visit => { p with survey := p.survey.leave visit.node }

/-- Checks that are run step by step along the walk are those that are due by the stages of the
walk, and whatever they come to, the walk is the same. -/
theorem foldl_step (rules : List Rule) (file : SourceFile) (p : Progress) (events : List Event) :
    events.foldl (step rules file) p =
      { survey := p.survey.run events
        entered := p.entered ++ Event.entered events
        session := (Call.ofWalk (.ofRules rules) file (p.survey.stages events)).foldl Session.call
          p.session } := by
  induction events generalizing p with
  | nil => simp [Survey.stages, Call.ofWalk]
  | cons event events ih =>
    rw [List.foldl_cons, ih]
    cases event with
    | enter visit =>
      simp [step, Survey.step, Survey.stages, Call.ofWalk]
    | leave visit => rfl

end Progress

namespace AnalysisOptions

variable (o : AnalysisOptions) (program : Node) (comments : List Comment)

/-- The progress of an analysis at the end of its walk. -/
def walked : Progress :=
  program.events.foldl (Progress.step o.rules (o.file comments))
    { survey := Survey.ofProgram program, session := o.fresh }

/-- At the end of the walk all visited nodes were entered, whatever the rules. -/
theorem walked_eq :
    o.walked program comments =
      { survey := (Survey.ofProgram program).run program.events
        entered := program.visits
        session := (Call.ofWalk (.ofRules o.rules) (o.file comments)
          ((Survey.ofProgram program).stages program.events)).foldl Session.call o.fresh } :=
  Progress.foldl_step _ _ _ _

/-- After the walk the policies and then the final checks are run, told what the walk has taught. -/
theorem session_eq_walked :
    let walked := o.walked program comments
    let final : Context := ⟨o.file comments, walked.survey⟩
    o.session program comments =
      (Call.ofPolicies o.policies final program ++ Call.ofFinishes o.rules final).foldl
        Session.call walked.session := by
  simp only [walked_eq, ← List.foldl_append, ← List.append_assoc]
  rfl

end AnalysisOptions

/-! ## Checks under other names -/

namespace Session

variable {s t : Session} {id : String}

/-- The same names have failed, one name left aside. -/
def AgreeBut (id : String) (s t : Session) : Prop :=
  ∀ other, other ≠ id → (other ∈ s.failed ↔ other ∈ t.failed)

/-- Where the same checks were run under other names, the same other names have failed. -/
theorem AgreeBut.foldl (h : AgreeBut id s t) {calls others : List Call}
    (hruns : (s.runs calls).filter (fun run => run.id != id) = t.runs others) :
    AgreeBut id (calls.foldl call s) (others.foldl call t) := by
  intro other hother
  rw [mem_failed_foldl, mem_failed_foldl, h other hother, ← hruns]
  refine or_congr_right (exists_congr fun run => ?_)
  rw [List.mem_filter, and_assoc]
  refine and_congr_right fun _ => ⟨?_, And.right⟩
  rintro ⟨hfails, hid⟩
  refine ⟨?_, hfails, hid⟩
  rw [hid, bne_iff_ne]
  exact hother

/-- The checks under other names are run as if nothing were due under the name, if each of these
comes to the same in both runs where those before it have been run so. -/
theorem runs_filter (h : AgreeBut id s t) {calls : List Call}
    (hrun : ∀ before due, before ++ [due] <+: calls → due.id ≠ id →
      due.id ∉ (before.foldl call s).failed →
        (s.runs before).filter (fun run => run.id != id) =
            t.runs (before.filter fun due => due.id != id) →
          due.run (before.foldl call s).used =
            due.run ((before.filter fun due => due.id != id).foldl call t).used) :
    (s.runs calls).filter (fun run => run.id != id) =
      t.runs (calls.filter fun due => due.id != id) := by
  induction calls using List.reverseRecOn with
  | nil => rfl
  | append_singleton before due ih =>
    have hbefore := ih fun earlier other hpart => hrun earlier other
      (hpart.trans (List.prefix_append _ _))
    have hagree : AgreeBut id (before.foldl call s)
        ((before.filter fun due => due.id != id).foldl call t) := h.foldl hbefore
    rw [runs_concat, List.filter_append, hbefore, List.filter_append]
    by_cases hdue : due.id = id
    · have hname : (due.id != id) = false := by simp [hdue]
      have hnone : ∀ run : Run, run.due = due → (run.id != id) = false := by
        rintro run rfl
        exact hname
      split <;> simp [hname, hnone]
    · have hkeep : [due].filter (fun due => due.id != id) = [due] := by simp [hdue]
      rw [hkeep, runs_concat]
      congr 1
      by_cases hfailed : due.id ∈ (before.foldl call s).failed
      · rw [if_pos hfailed, if_pos ((hagree due.id hdue).mp hfailed)]
        rfl
      · rw [if_neg hfailed, if_neg (mt (hagree due.id hdue).mpr hfailed),
          hrun before due (List.prefix_refl _) hdue hfailed hbefore]
        simp [Run.id, hdue]

/-- Where the checks under a name note no feature, the checks under other names are run as if
nothing were due under the name. -/
theorem runs_filter_of_quiet (h : AgreeBut id s t) (hused : s.used = t.used) {calls : List Call}
    (hquiet : ∀ run ∈ s.runs calls, run.id = id → run.outcome.uses = []) :
    (s.runs calls).filter (fun run => run.id != id) =
      t.runs (calls.filter fun due => due.id != id) := by
  apply runs_filter h
  intro before due hpart _ _ hbefore
  have hruns : s.runs before ⊆ s.runs calls := by
    obtain ⟨after, rfl⟩ := (List.prefix_append _ _).trans hpart
    rw [runs_append]
    exact List.subset_append_left _ _
  -- what the runs before noted, those under other names did
  have hnoted : (s.runs before).flatMap (fun run => run.outcome.uses) =
      (t.runs (before.filter fun due => due.id != id)).flatMap fun run => run.outcome.uses := by
    rw [← hbefore, flatMap_filter]
    refine List.flatMap_congr fun run hrun => ?_
    by_cases hid : run.id = id
    · simp [hid, hquiet run (hruns hrun) hid]
    · simp [hid]
  rw [(follows_foldl s before).used, (follows_foldl t _).used, hused, hnoted]

/-- Before the final checks, the checks under other names are run as if no rule or policy went by
the name: nothing asks for the features noted. -/
theorem runs_beforeFinish_filter (rules : List Rule) (policies : List Policy) (file : SourceFile)
    (program : Node) (s : Session) (id : String) :
    (s.runs (Call.beforeFinish rules policies file program)).filter (fun run => run.id != id) =
      s.runs (Call.beforeFinish (rules.filter fun rule => rule.id != id)
        (policies.filter fun policy => policy.id != id) file program) := by
  rw [← Call.filter_id_beforeFinish rules policies file (· != id) program]
  apply runs_filter (fun _ _ => Iff.rfl)
  intro before due hpart _ _ _
  have hsteady : due.Steady := Call.steady_of_mem_beforeFinish
    (hpart.subset (List.mem_append_right _ List.mem_cons_self))
  exact (hsteady _).trans (hsteady _).symm

section Modest

variable {rules : List Rule} {policies : List Policy}
  (hrules : ∀ rule ∈ rules, rule.Modest) (hpolicies : ∀ policy ∈ policies, policy.Featureless)

include hrules hpolicies

/-- Where the guard has not failed before the final checks, it is told of the same features as if no
rule or policy went by another name: it has seen for itself whatever any rule noted. -/
theorem mem_used_beforeFinish_filter (hguard : allowDirectives ∈ rules)
    (hid : allowDirectives.id ≠ id) (file : SourceFile) (program : Node) (s : Session)
    (feature : Feature) :
    let calls := Call.beforeFinish rules policies file program
    let others := Call.beforeFinish (rules.filter fun rule => rule.id != id)
      (policies.filter fun policy => policy.id != id) file program
    allowDirectives.id ∉ (calls.foldl call s).failed →
      (feature ∈ (calls.foldl call s).used ↔ feature ∈ (others.foldl call s).used) := by
  intro calls others hunfailed
  have hagree : AgreeBut id (calls.foldl call s) (others.foldl call s) :=
    AgreeBut.foldl (fun _ _ => Iff.rfl)
      (runs_beforeFinish_filter rules policies file program s id)
  have hunfailedOther := mt (hagree allowDirectives.id hid).mpr hunfailed
  have hother : ∀ rule ∈ rules.filter (fun rule => rule.id != id), rule.Modest :=
    fun rule hrule => hrules rule (List.mem_filter.mp hrule).1
  have hotherPolicy : ∀ policy ∈ policies.filter (fun policy => policy.id != id),
      policy.Featureless := fun policy hpolicy => hpolicies policy (List.mem_filter.mp hpolicy).1
  have hmem : allowDirectives ∈ rules.filter (fun rule => rule.id != id) :=
    List.mem_filter.mpr ⟨hguard, bne_iff_ne.mpr hid⟩
  have hcalls : calls.filter (fun due => due.id != id) = others :=
    Call.filter_id_beforeFinish rules policies file (· != id) program
  rw [mem_used_beforeFinish hrules hpolicies hguard feature hunfailed,
    mem_used_beforeFinish hother hotherPolicy hmem feature hunfailedOther]
  change _ ↔ _ ∨ ∃ own ∈ others, _
  rw [← hcalls]
  refine or_congr_right (exists_congr fun own => ?_)
  rw [List.mem_filter, and_assoc]
  refine and_congr_right fun _ => ⟨?_, And.right⟩
  rintro ⟨howner, hfeature⟩
  refine ⟨?_, howner, hfeature⟩
  rw [howner]
  exact bne_iff_ne.mpr hid

/-- The checks under other names are run as if no rule or policy went by the name. -/
theorem runs_all_filter (file : SourceFile) (program : Node) (s : Session) (id : String) :
    (s.runs (Call.all rules policies file program)).filter (fun run => run.id != id) =
      s.runs (Call.all (rules.filter fun rule => rule.id != id)
        (policies.filter fun policy => policy.id != id) file program) := by
  have hfinishes := Call.filter_id_ofFinishes rules (· != id) (Context.final file program)
  have hbefore := runs_beforeFinish_filter rules policies file program s id
  rw [Call.all_eq, Call.all_eq, runs_append, runs_append, List.filter_append, hbefore, ← hfinishes]
  congr 1
  apply runs_filter (AgreeBut.foldl (fun _ _ => Iff.rfl) hbefore)
  intro before due hpart hid hfailed _
  refine run_ofFinishes_congr hrules hpart (List.filter_subset_self _) ?_
  intro hguard hname feature
  rw [hname] at hid hfailed
  exact mem_used_beforeFinish_filter hrules hpolicies hguard hid file program s feature
    fun hmem => hfailed (failed_subset_foldl _ _ hmem)

end Modest

/-- A check that is due is run unless an earlier run under its name has failed, and it is told the
features that the earlier runs noted. -/
theorem runs_concat_fresh (o : AnalysisOptions) (before : List Call) (due : Call) :
    o.fresh.runs (before ++ [due]) = o.fresh.runs before ++
      if (o.fresh.runs before).any fun run => run.fails && run.id == due.id then []
      else [⟨due, due.run ((o.fresh.runs before).flatMap fun run => run.outcome.uses)⟩] := by
  have hfailed : due.id ∈ (before.foldl call o.fresh).failed ↔
      ((o.fresh.runs before).any fun run => run.fails && run.id == due.id) = true := by
    rw [mem_failed_foldl, List.any_eq_true]
    simp only [Bool.and_eq_true, beq_iff_eq]
    exact or_iff_right List.not_mem_nil
  have hused := (follows_foldl o.fresh before).used
  rw [runs_concat, hused]
  simp only [hfailed]
  rfl

end Session

/-! ## Checks that return in place of failing -/

/-- What a check comes to if it returns without a report in place of failing. -/
def Outcome.calmed (outcome : Outcome) : Outcome :=
  if outcome.failure.isSome then { uses := outcome.uses } else outcome

/-- The rule whose checks return without a report where those of a rule fail. -/
def Rule.calmed (rule : Rule) : Rule :=
  { rule with
    checks := rule.checks.map fun entry =>
      (entry.1, fun context visit => (entry.2 context visit).calmed)
    finish := rule.finish.map fun finish context used => (finish context used).calmed }

/-! ## The analysis -/

namespace Run

/-- Whether a final check was run. -/
def isFinal (run : Run) : Bool :=
  match run.due.occasion with
  | .finish => true
  | _ => false

/-- A text is the warning about a check that failed on a file. -/
def WarnedBy (filePath : String) (run : Run) (warning : String) : Prop :=
  ∃ thrown ∈ run.outcome.failure, ∃ text ∈ thrown.text?,
    warning = Session.failureWarning run.id filePath text

/-- Where whatever is thrown has a text, there is one warning about each check that failed, in their
order. -/
theorem forall₂_warnedBy {runs : List Run} (h : ∀ run ∈ runs, run.isTold = true)
    (filePath : String) :
    List.Forall₂ (WarnedBy filePath) (runs.filter fails)
      (runs.filterMap (warning? filePath)) := by
  induction runs with
  | nil => exact .nil
  | cons run runs ih =>
    have hrest := ih fun other hother => h other (List.mem_cons_of_mem _ hother)
    have htold := h run List.mem_cons_self
    rw [isTold] at htold
    rw [List.filter_cons, fails, List.filterMap_cons, warning?]
    cases hfailure : run.outcome.failure with
    | none => exact hrest
    | some thrown =>
      rw [hfailure, Option.all_some] at htold
      obtain ⟨text, htext⟩ := Option.isSome_iff_exists.mp htold
      simp only [Option.isSome_some, if_true, Option.bind_some, htext, Option.map_some]
      exact .cons ⟨thrown, hfailure, text, htext, rfl⟩ hrest

end Run

namespace AnalysisOptions

/-- The runs of checks of nodes and of policies are those before the final checks. -/
theorem filter_not_isFinal_runs (o : AnalysisOptions) (program : Node) (comments : List Comment) :
    (o.runs program comments).filter (fun run => !run.isFinal) =
      o.fresh.runs (Call.beforeFinish o.rules o.policies (o.file comments) program) := by
  rw [runs, calls, Call.all_eq, Session.runs_append, List.filter_append, List.filter_eq_self.mpr,
    List.filter_eq_nil_iff.mpr, List.append_nil]
  · intro run hrun
    obtain ⟨rule, -, finish, -, hdue⟩ := Call.mem_ofFinishes.mp (Session.due_of_mem_runs hrun).1
    simp [Run.isFinal, hdue]
  · intro run hrun
    rcases List.mem_append.mp (Session.due_of_mem_runs hrun).1 with hdue | hdue
    · obtain ⟨stage, -, rule, -, entry, -, -, hdue⟩ := (Call.mem_ofWalk _ _).mp hdue
      rw [Run.isFinal, hdue]
      rfl
    · obtain ⟨policy, -, hdue⟩ := List.mem_map.mp hdue
      rw [Run.isFinal, ← hdue]
      rfl

section Others

variable (o : AnalysisOptions) (program : Node) (comments : List Comment) {id : String}
  {rules : List Rule} {policies : List Policy}
  (hrules : rules.filter (fun rule => rule.id != id) = o.rules.filter (fun rule => rule.id != id))
  (hpolicies : policies.filter (fun policy => policy.id != id) =
    o.policies.filter (fun policy => policy.id != id))

include hrules hpolicies

/-- At nodes and of policies the same checks are run under other names, whatever goes by the
name. -/
theorem filter_not_isFinal_runs_eq :
    let others := { o with rules := rules, policies := policies }.runs program comments
    (others.filter fun run => !run.isFinal).filter (fun run => run.id != id) =
      ((o.runs program comments).filter fun run => !run.isFinal).filter
        (fun run => run.id != id) := by
  intro others
  have hown := Session.runs_beforeFinish_filter o.rules o.policies (o.file comments) program
    o.fresh id
  have hother := Session.runs_beforeFinish_filter rules policies (o.file comments) program
    o.fresh id
  rw [hrules, hpolicies] at hother
  rw [filter_not_isFinal_runs, filter_not_isFinal_runs]
  exact hother.trans hown.symm

/-- Where no check under the name notes a feature, all the same checks are run under other names. -/
theorem filter_runs_eq_of_quiet :
    let runs := o.runs program comments
    let others := { o with rules := rules, policies := policies }.runs program comments
    (∀ run ∈ runs ++ others, run.id = id → run.outcome.uses = []) →
      others.filter (fun run => run.id != id) = runs.filter (fun run => run.id != id) := by
  intro runs others hquiet
  rw [List.forall_mem_append] at hquiet
  have hown := Session.runs_filter_of_quiet (fun _ _ => Iff.rfl) rfl hquiet.1
  have hother := Session.runs_filter_of_quiet (fun _ _ => Iff.rfl) rfl hquiet.2
  have hcalls : (o.calls program comments).filter (fun due => due.id != id) =
      ({ o with rules := rules, policies := policies }.calls program comments).filter
        fun due => due.id != id := by
    rw [calls, calls, Call.filter_id_all _ _ _ (· != id), Call.filter_id_all _ _ _ (· != id),
      ← hrules, ← hpolicies]
    rfl
  rw [hcalls] at hown
  exact hother.trans hown.symm

/-- Where all rules leave the features to their guard, all the same checks are run under other
names. -/
theorem filter_runs_eq_of_modest (hmodest : ∀ rule ∈ o.rules ++ rules, rule.Modest)
    (hfeatureless : ∀ policy ∈ o.policies ++ policies, policy.Featureless) :
    ({ o with rules := rules, policies := policies }.runs program comments).filter
        (fun run => run.id != id) =
      (o.runs program comments).filter (fun run => run.id != id) := by
  rw [List.forall_mem_append] at hmodest hfeatureless
  have hown := Session.runs_all_filter hmodest.1 hfeatureless.1 (o.file comments) program
    o.fresh id
  have hother := Session.runs_all_filter hmodest.2 hfeatureless.2 (o.file comments) program
    o.fresh id
  rw [hrules, hpolicies] at hother
  exact hother.trans hown.symm

end Others

/-- **A failing check is contained.** The analysis comes to an end unless a look-up fails or
something thrown has no text. The checks are run along the walk, and those at the end after it. The
warnings are one for each run that failed, with the text of what was thrown, no two of them under
one name; of all runs the messages went to the sink, which keeps them or not by the directives of
the source alone; after a run that failed nothing more is run under its name, and nothing else is
left out. Whatever rules and policies go by a name, in particular if a failing check of theirs
returned without a report instead, the walk enters the same nodes and leads to the same survey, and
at nodes and of policies the same checks are run under other names and come to the same. So do the
final checks, if no check under the name notes a feature, or all rules leave the features to their
guard. -/
theorem failure_contained (o : AnalysisOptions) (program : Node) (comments : List Comment) :
    let start := Sink.ofSource o.filePath o.source
    let runs := o.runs program comments
    let failures := runs.filter Run.fails
    let walked := o.walked program comments
    let final : Context := ⟨o.file comments, walked.survey⟩
    (∀ analysis, o.attempt program comments = .ok analysis ↔
      o.Completes program comments ∧ o.check program comments = analysis) ∧
    o.session program comments =
      (Call.ofPolicies o.policies final program ++ Call.ofFinishes o.rules final).foldl
        Session.call walked.session ∧
    ((∀ run ∈ runs, run.isTold = true) →
      List.Forall₂ (Run.WarnedBy o.filePath) failures (o.check program comments).warnings) ∧
    (failures.map Run.id).Nodup ∧
    (o.check program comments).diagnostics =
      ((runs.flatMap Run.messages).filter fun m => start.fateOf m = .kept).map start.diagnosticOf ++
        ((Expectations.announced o.source).filter fun pair =>
          !start.isMet (runs.flatMap Run.messages) pair).map
            (Sink.unmetDiagnostic o.filePath o.source) ∧
    runs.Pairwise (fun run later => run.fails = true → later.id ≠ run.id) ∧
    (∀ before due, o.fresh.runs (before ++ [due]) = o.fresh.runs before ++
      if (o.fresh.runs before).any fun run => run.fails && run.id == due.id then []
      else [⟨due, due.run ((o.fresh.runs before).flatMap fun run => run.outcome.uses)⟩]) ∧
    ∀ id rules policies,
      rules.filter (fun rule => rule.id != id) = o.rules.filter (fun rule => rule.id != id) →
      policies.filter (fun policy => policy.id != id) =
        o.policies.filter (fun policy => policy.id != id) →
      let other := { o with rules := rules, policies := policies }
      let others := other.runs program comments
      (other.walked program comments).survey = walked.survey ∧
      (other.walked program comments).entered = walked.entered ∧
      (others.filter fun run => !run.isFinal).filter (fun run => run.id != id) =
        (runs.filter fun run => !run.isFinal).filter (fun run => run.id != id) ∧
      ((∀ run ∈ runs ++ others, run.id = id → run.outcome.uses = []) ∨
        ((∀ rule ∈ o.rules ++ rules, rule.Modest) ∧
          ∀ policy ∈ o.policies ++ policies, policy.Featureless) →
        others.filter (fun run => run.id != id) = runs.filter (fun run => run.id != id)) := by
  intro start runs failures walked final
  have hfollows := o.follows_session program comments
  refine ⟨fun _ => o.attempt_eq_ok_iff program comments, o.session_eq_walked program comments, ?_,
    Session.nodup_failures _ _, o.diagnostics_eq program comments, Session.pairwise_runs _ _,
    Session.runs_concat_fresh o, ?_⟩
  · intro htold
    have hwarnings : (o.check program comments).warnings =
        runs.filterMap (Run.warning? o.filePath) := hfollows.warnings
    rw [hwarnings]
    exact Run.forall₂_warnedBy htold o.filePath
  · intro id rules policies hrules hpolicies other others
    refine ⟨?_, ?_, ?_, ?_⟩
    · rw [walked_eq, show walked = _ from walked_eq o program comments]
    · rw [walked_eq, show walked = _ from walked_eq o program comments]
    · exact o.filter_not_isFinal_runs_eq program comments hrules hpolicies
    · rintro (hquiet | ⟨hmodest, hfeatureless⟩)
      · exact o.filter_runs_eq_of_quiet program comments hrules hpolicies hquiet
      · exact o.filter_runs_eq_of_modest program comments hrules hpolicies hmodest hfeatureless

/-- The tree of a file with an import between two enums. -/
def importBetweenEnums : Node :=
  ⟨0, "Program", .int 0, .int 0, [("body", .array
    [.atStart 1 "TSEnumDeclaration" [], .atStart 2 "ImportDeclaration" [],
      .atStart 3 "TSEnumDeclaration" []])]⟩

/-- Two rules of one name. The first fails at imports. -/
def failingRules : List Rule :=
  [Rule.custom "x" [("TSEnumDeclaration", .report "enum"), ("ImportDeclaration", .fail "f")] none,
    Rule.custom "x" [("ImportDeclaration", .report "import")] (some (.report "end"))]

/-- A rule of another name, which fails in its final check. -/
def steadyRule : Rule :=
  Rule.custom "y" [("TSEnumDeclaration", .report "enum")] (some (.fail "g"))

/-- A file without directives, looked at by rules and policies that share the name that fails. -/
def failing : AnalysisOptions where
  filePath := "src/a.ts"
  source := ""
  traits := Path.classify "src/a.ts"
  rules := failingRules ++ [steadyRule]
  policies := [Policy.custom "x" (.report "policy"), Policy.custom "p" (.report "policy")]

/-- What was reported before the import stays, and then nothing is run under the name, whereas the
checks under other names go on as if the failing one had returned. -/
theorem failure_contained_sharedName :
    let calmed := { failing with rules := failingRules.map Rule.calmed ++ [steadyRule] }
    failing.attempt importBetweenEnums [] = .ok (failing.check importBetweenEnums []) ∧
      (failing.check importBetweenEnums []).warnings =
        ["Warning: Rule \"x\" threw while analyzing src/a.ts: f",
          "Warning: Rule \"y\" threw while analyzing src/a.ts: g"] ∧
      (failing.check importBetweenEnums []).diagnostics.map (fun d => (d.rule, d.message)) =
        [("x", "enum"), ("y", "enum"), ("y", "enum"), ("p", "policy")] ∧
      (calmed.check importBetweenEnums []).diagnostics.map (fun d => (d.rule, d.message)) =
        [("x", "enum"), ("y", "enum"), ("x", "import"), ("x", "enum"), ("y", "enum"),
          ("x", "policy"), ("p", "policy"), ("x", "end")] ∧
      (calmed.runs importBetweenEnums []).filter (fun run => run.id != "x") =
        (failing.runs importBetweenEnums []).filter (fun run => run.id != "x") := by
  intro calmed
  have hcontained := failure_contained failing importBetweenEnums []
  obtain ⟨hattempt, -, -, -, -, -, -, hother⟩ := hcontained
  have hcompletes : failing.Completes importBetweenEnums [] :=
    ⟨by decide +kernel, by decide +kernel⟩
  obtain ⟨-, -, -, hsame⟩ := hother "x" calmed.rules calmed.policies rfl rfl
  exact ⟨(hattempt _).mpr ⟨hcompletes, rfl⟩, by decide +kernel, by decide +kernel,
    by decide +kernel, hsame (Or.inl (by decide +kernel))⟩

/-- A rule that fails at enums and notes a feature at imports. -/
def notingRule : Rule where
  id := "x"
  description := ""
  checks := [("TSEnumDeclaration", fun _ _ => { failure := some (.error "f") }),
    ("ImportDeclaration", fun _ _ => { uses := [.console] })]

/-- A file that grants itself a feature, looked at by a rule that notes it and by the guard. -/
def noting : AnalysisOptions where
  filePath := "src/a.ts"
  source := "/**\n@allow console\n*/"
  traits := Path.classify "src/a.ts"
  rules := [notingRule, allowDirectives]

/-- A rule that throws a record whose member for making it a text is no function, and a rule of
another name. -/
def textless : AnalysisOptions where
  filePath := "src/a.ts"
  source := ""
  traits := Path.classify "src/a.ts"
  rules := [
    Rule.custom "x" [("TSEnumDeclaration", .throw (.object 4 [("toString", .number (.int 1))]))]
      none,
    steadyRule]

/-- What has no text is not contained. And if the check returned that fails, another check under its
name would note a feature, of which a final check under another name is told. -/
theorem failure_uncontained :
    let calmed := { noting with rules := [notingRule.calmed, allowDirectives] }
    textless.attempt importBetweenEnums [] = .error .noText ∧
      (noting.check importBetweenEnums []).diagnostics.map (fun d => (d.rule, d.message)) =
        [("allow-directives", "Unused '@allow console' directive")] ∧
      (calmed.check importBetweenEnums []).diagnostics.map (fun d => (d.rule, d.message)) = [] :=
  ⟨rfl, by decide +kernel, by decide +kernel⟩

end AnalysisOptions

end PureLint
