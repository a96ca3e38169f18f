import PureLint.Proofs.Analysis.Completion
import PureLint.Proofs.Analysis.Isolation
import PureLint.Proofs.Survey.Reference
import PureLint.Proofs.Tree.Position

/-!
# When the checks are run

A check for a kind of node is run at each visited node of the kind, once, and in a fixed order: node
by node in the order of their positions, and at a node rule by rule. The policies are run after the
walk, and the final checks after the policies.
-/

namespace PureLint

open Event

/-- A rule none of whose checks of nodes ever fails. -/
def Rule.Returns (rule : Rule) : Prop :=
  ∀ entry ∈ rule.checks, ∀ context visit, (entry.2 context visit).failure = none

namespace Call

/-- Whether a check is due at a visit to a node. -/
def isAt (node : Node) (due : Call) : Bool :=
  match due.occasion with
  | .visit _ visit => visit.node.same node
  | _ => false

/-- A check is due at the visit at the end of a path. -/
def DueAt (root : Node) (path : List Nat) (due : Call) : Prop :=
  ∃ kind visit, due.occasion = .visit kind visit ∧ root.VisitedAt path visit

/-- In a tree of distinct nodes a check is due at one position at most. -/
theorem DueAt.path_unique {root : Node} {path other : List Nat} {due : Call}
    (h : due.DueAt root path) (hroot : root.Distinct) (h' : due.DueAt root other) :
    path = other := by
  obtain ⟨kind, visit, hoccasion, hpath⟩ := h
  obtain ⟨otherKind, found, hfound, hother⟩ := h'
  cases hoccasion.symm.trans hfound
  exact hroot.path_unique hpath hother rfl

section

variable {rules : List Rule} {file : SourceFile} {visit : Visit} {survey : Survey} {due : Call}

/-- A check due at a visit is due at no other. -/
theorem occasion_of_mem_atVisit (h : due ∈ atVisit (.ofRules rules) file visit survey) :
    ∃ kind, due.occasion = .visit kind visit := by
  rw [atVisit_eq] at h
  obtain ⟨kind, -, h⟩ := List.mem_flatMap.mp h
  obtain ⟨rule, -, entry, -, rfl, rfl⟩ := (mem_atKind rules file).mp h
  exact ⟨entry.1, rfl⟩

/-- The checks at a visit are due at its node, and at no node else. -/
theorem filter_isAt_atVisit (node : Node) :
    (atVisit (.ofRules rules) file visit survey).filter (isAt node) =
      if visit.node.id = node.id then atVisit (.ofRules rules) file visit survey else [] := by
  have hall (due : Call) (hdue : due ∈ atVisit (.ofRules rules) file visit survey) :
      due.isAt node = visit.node.same node := by
    obtain ⟨kind, hoccasion⟩ := occasion_of_mem_atVisit hdue
    rw [isAt, hoccasion]
  rw [List.filter_congr hall]
  by_cases hid : visit.node.id = node.id
  · simp [Node.same, hid]
  · simp [Node.same, hid]

end

section

variable {rules : List Rule} {file : SourceFile} {stages : List (Visit × Survey)}

/-- Where no node is visited twice, the checks due at a node are those of its one visit. -/
theorem filter_isAt_ofWalk (rules : List Rule) (file : SourceFile)
    (hnodup : (stages.map fun stage => stage.1.node.id).Nodup)
    {stage : Visit × Survey} (hstage : stage ∈ stages) :
    (ofWalk (.ofRules rules) file stages).filter (isAt stage.1.node) =
      atVisit (.ofRules rules) file stage.1 stage.2 := by
  obtain ⟨before, after, rfl⟩ := List.append_of_mem hstage
  rw [List.map_append, List.map_cons, List.nodup_append, List.nodup_cons] at hnodup
  obtain ⟨-, ⟨hafter, -⟩, hbefore⟩ := hnodup
  have hnone {others : List (Visit × Survey)}
      (hothers : ∀ other ∈ others, other.1.node.id ≠ stage.1.node.id) :
      (ofWalk (.ofRules rules) file others).filter (isAt stage.1.node) = [] := by
    rw [ofWalk, List.filter_flatMap, List.flatMap_eq_nil_iff]
    intro other hother
    rw [filter_isAt_atVisit, if_neg (hothers other hother)]
  have hempty : (ofWalk (.ofRules rules) file before).filter (isAt stage.1.node) = [] := by
    apply hnone
    intro other hother
    exact hbefore _ (List.mem_map_of_mem hother) _ List.mem_cons_self
  have hempty' : (ofWalk (.ofRules rules) file after).filter (isAt stage.1.node) = [] := by
    apply hnone
    intro other hother heq
    exact hafter (List.mem_map.mpr ⟨other, hother, heq⟩)
  unfold ofWalk at hempty hempty' ⊢
  rw [List.flatMap_append, List.flatMap_cons, List.filter_append, List.filter_append, hempty,
    hempty', filter_isAt_atVisit, if_pos rfl, List.nil_append, List.append_nil]

/-- The checks due during a walk are due at positions of its tree. -/
theorem dueAt_of_mem_ofWalk {root : Node} (hstages : stages.map Prod.fst = root.visits) {due : Call}
    (h : due ∈ ofWalk (.ofRules rules) file stages) : ∃ path, due.DueAt root path := by
  obtain ⟨stage, hstage, hdue⟩ := List.mem_flatMap.mp h
  obtain ⟨kind, hoccasion⟩ := occasion_of_mem_atVisit hdue
  have hvisit : stage.1 ∈ root.visits := hstages ▸ List.mem_map_of_mem hstage
  obtain ⟨path, hpath⟩ := Node.exists_visitedAt_iff.mpr hvisit
  exact ⟨path, kind, stage.1, hoccasion, hpath⟩

/-- The checks due during a walk are due in the order of the positions of its tree. -/
theorem pairwise_ofWalk {root : Node} (hstages : stages.map Prod.fst = root.visits) :
    (ofWalk (.ofRules rules) file stages).Pairwise fun due later =>
      ∃ path other, due.DueAt root path ∧ later.DueAt root other ∧
        (path = other ∨ path < other) := by
  have hsorted := root.pairwise_visits
  rw [← hstages, List.pairwise_map] at hsorted
  rw [ofWalk, List.pairwise_flatMap]
  refine ⟨?_, hsorted.imp ?_⟩
  · intro stage hstage
    have hvisit : stage.1 ∈ root.visits := hstages ▸ List.mem_map_of_mem hstage
    obtain ⟨path, hpath⟩ := Node.exists_visitedAt_iff.mpr hvisit
    apply List.pairwise_of_forall_mem_list
    intro due hdue later hlater
    obtain ⟨kind, hoccasion⟩ := occasion_of_mem_atVisit hdue
    obtain ⟨otherKind, hother⟩ := occasion_of_mem_atVisit hlater
    exact ⟨path, path, ⟨kind, _, hoccasion, hpath⟩, ⟨otherKind, _, hother, hpath⟩, Or.inl rfl⟩
  · rintro stage after ⟨path, other, hpath, hother, hlt⟩ due hdue later hlater
    obtain ⟨kind, hoccasion⟩ := occasion_of_mem_atVisit hdue
    obtain ⟨otherKind, hlaterOccasion⟩ := occasion_of_mem_atVisit hlater
    exact ⟨path, other, ⟨kind, _, hoccasion, hpath⟩, ⟨otherKind, _, hlaterOccasion, hother⟩,
      Or.inr hlt⟩

/-- The checks due during a walk do not fail if the rules' checks of nodes never do. -/
theorem failure_ofWalk (h : ∀ rule ∈ rules, rule.Returns) {due : Call}
    (hdue : due ∈ ofWalk (.ofRules rules) file stages) (used : List Feature) :
    (due.run used).failure = none := by
  obtain ⟨stage, -, rule, hrule, entry, hentry, -, rfl⟩ := (mem_ofWalk rules file).mp hdue
  exact h rule hrule entry hentry _ _

end

end Call

/-! ## The runs of the rules' own checks -/

/-- The runs of the checks that a rule has for a kind of node, at a visit. -/
def Rule.runsAt (context : Context) (kind : String) (visit : Visit) (rule : Rule) : List Run :=
  (rule.checks.filter fun entry => entry.1 == kind).map fun entry =>
    ⟨⟨rule.id, .visit kind visit, fun _ => entry.2 context visit⟩, entry.2 context visit⟩

/-- The final check of a rule, if it has one. -/
def Rule.dueAtEnd (context : Context) (rule : Rule) : Option Call :=
  rule.finish.map fun finish => ⟨rule.id, .finish, finish context⟩

/-- The run of a policy. -/
def Policy.runAt (context : Context) (program : Node) (policy : Policy) : Run :=
  ⟨⟨policy.id, .policy, fun _ => policy.check context program⟩, policy.check context program⟩

/-- Whether a check was run at a visit to a node. -/
def Run.isAt (node : Node) (run : Run) : Bool := run.due.isAt node

namespace Call

/-- The checks that are registered for a kind of node are the rules' own. -/
theorem map_ofCall_atKind (rules : List Rule) (file : SourceFile) (kind : String) (visit : Visit)
    (survey : Survey) :
    (atKind (.ofRules rules) file kind visit survey).map Run.ofCall =
      rules.flatMap (Rule.runsAt ⟨file, survey⟩ kind visit) := by
  rw [atKind_ofRules, List.map_flatMap]
  refine List.flatMap_congr fun rule _ => ?_
  rw [List.map_map, Rule.runsAt]
  refine List.map_congr_left fun entry hentry => ?_
  rw [← beq_iff_eq.mp (List.mem_filter.mp hentry).2]
  rfl

/-- In a tree of distinct nodes, the runs of the walk at a visit are those of the rules' own checks
for its kind, and of those for references if it reads a value in the end. -/
theorem filter_isAt_map_ofCall (rules : List Rule) (file : SourceFile) {program : Node}
    (hdistinct : program.Distinct) {visit : Visit} {survey : Survey}
    (hstage : (visit, survey) ∈ (Survey.ofProgram program).stages program.events) :
    let stages := (Survey.ofProgram program).stages program.events
    let final := (Survey.ofProgram program).run program.events
    ((ofWalk (.ofRules rules) file stages).map Run.ofCall).filter (Run.isAt visit.node) =
      (rules.flatMap (Rule.runsAt ⟨file, survey⟩ visit.node.kind visit)) ++
        if visit.node.kind = "Identifier" ∧ final.reference? visit = some .value then
          rules.flatMap (Rule.runsAt ⟨file, survey⟩ referenceCheckKind visit)
        else [] := by
  intro stages final
  have hnodup : (stages.map fun stage => stage.1.node.id).Nodup := by
    have hstages : stages.map Prod.fst = program.visits := Survey.stages_fst _ _
    rw [Node.Distinct, ← hstages, List.map_map] at hdistinct
    exact hdistinct
  have hreference : survey.reference? visit = final.reference? visit :=
    Survey.reference?_stage hdistinct hstage
  have hat : Run.isAt visit.node ∘ Run.ofCall = isAt visit.node := rfl
  have hown := filter_isAt_ofWalk rules file hnodup hstage
  rw [List.filter_map, hat, hown, atVisit, hreference, List.map_append, map_ofCall_atKind,
    apply_ite (List.map Run.ofCall), map_ofCall_atKind]
  rfl

/-- In a tree of distinct nodes, the runs of the walk are in the order of their positions. -/
theorem pairwise_map_ofCall_ofWalk {rules : List Rule} {file : SourceFile}
    {stages : List (Visit × Survey)} {root : Node} (hroot : root.Distinct)
    (hstages : stages.map Prod.fst = root.visits) :
    ((ofWalk (.ofRules rules) file stages).map Run.ofCall).Pairwise fun run later =>
      ∀ path other, run.due.DueAt root path → later.due.DueAt root other →
        path = other ∨ path < other := by
  rw [List.pairwise_map]
  refine (pairwise_ofWalk hstages).imp ?_
  rintro due later ⟨path, other, hdue, hlater, horder⟩ found foundLater hfound hfoundLater
  have hpath : found = path := hfound.path_unique hroot hdue
  have hother : foundLater = other := hfoundLater.path_unique hroot hlater
  rwa [hpath, hother]

/-- The runs of policies are their own. -/
theorem map_ofCall_ofPolicies (policies : List Policy) (context : Context) (program : Node) :
    (ofPolicies policies context program).map Run.ofCall =
      policies.map (Policy.runAt context program) := by
  rw [ofPolicies, List.map_map]
  rfl

end Call

namespace Session

variable {s : Session} {calls : List Call}

/-- Of the checks that are due some are run, in their order. -/
theorem map_due_runs_sublist (s : Session) (calls : List Call) :
    ((s.runs calls).map Run.due).Sublist calls := by
  induction calls generalizing s with
  | nil => exact List.Sublist.slnil
  | cons due calls ih =>
    rw [runs]
    split
    · exact (ih (s.call due)).cons due
    · exact (ih (s.call due)).cons_cons due

/-- Some of the policies are run, in their order. -/
theorem runs_ofPolicies_sublist (s : Session) (policies : List Policy) (context : Context)
    (program : Node) :
    (s.runs (Call.ofPolicies policies context program)).Sublist
      (policies.map (Policy.runAt context program)) := by
  have hsteady : ∀ due ∈ Call.ofPolicies policies context program, due.Steady := fun _ =>
    Call.steady_of_mem_ofPolicies
  have hsome := runs_sublist_of_steady hsteady s
  rwa [Call.map_ofCall_ofPolicies] at hsome

/-- Under a name that has not failed in the end, all policies of the name are run. -/
theorem filter_runs_ofPolicies {policies : List Policy} {context : Context} {program : Node}
    {id : String}
    (h : id ∉ ((Call.ofPolicies policies context program).foldl call s).failed) :
    (s.runs (Call.ofPolicies policies context program)).filter (fun run => run.id == id) =
      (policies.filter fun policy => policy.id == id).map (Policy.runAt context program) := by
  have hsteady : ∀ due ∈ Call.ofPolicies policies context program, due.Steady := fun _ =>
    Call.steady_of_mem_ofPolicies
  rw [filter_runs_eq_map hsteady h, Call.filter_id_ofPolicies policies (· == id),
    Call.map_ofCall_ofPolicies]

/-- Under a name that has not failed in the end, all final checks of the name are run. -/
theorem map_due_filter_runs_ofFinishes {rules : List Rule} {context : Context} {id : String}
    (h : id ∉ ((Call.ofFinishes rules context).foldl call s).failed) :
    ((s.runs (Call.ofFinishes rules context)).filter fun run => run.id == id).map Run.due =
      (rules.filter fun rule => rule.id == id).filterMap (Rule.dueAtEnd context) := by
  rw [map_due_filter_runs h, Call.filter_id_ofFinishes rules (· == id)]
  rfl

/-- Where no check of a node fails, all checks due during a walk are run. -/
theorem runs_ofWalk_eq_map {rules : List Rule} {file : SourceFile}
    {stages : List (Visit × Survey)} (hfailed : s.failed = [])
    (hrules : ∀ rule ∈ rules, rule.Returns) :
    s.runs (Call.ofWalk (.ofRules rules) file stages) =
      (Call.ofWalk (.ofRules rules) file stages).map Run.ofCall :=
  runs_eq_map hfailed (fun _ hdue used => Call.failure_ofWalk hrules hdue used) fun _ hrun =>
    outcome_of_steady (fun _ => Call.steady_of_mem_ofWalk) hrun

end Session

namespace AnalysisOptions

/-- **Each check is run once at each node of its kind, in a fixed order.** Let no node of a tree be
visited twice, and no check of a node fail. Then the runs are first those of the walk, then those of
policies, and then those of final checks. At each node that a path leads to, those of the walk are
of the checks that the rules themselves have for its kind, rule by rule, and, if the node is an
identifier that reads a value, after them of those for references; all of them are told where the
node was found. They are at such nodes only, in the order of the paths. The policies and the final
checks are run in the order of the lists, and under a name that does not fail each is run once. A
final check is told the features that all runs before it noted. The state of the analysis is what
these runs make of a fresh one, and the analysis answers from it, unless it breaks off: where the
look-up of how an identifier reads its name fails, or something thrown has no text. -/
theorem checked_once_inOrder (o : AnalysisOptions) (program : Node) (comments : List Comment)
    (hdistinct : program.Distinct) (hrules : ∀ rule ∈ o.rules, rule.Returns) :
    let file := o.file comments
    let final := Context.final file program
    let stages := (Survey.ofProgram program).stages program.events
    let runs := o.runs program comments
    (∃ walk policies finishes : List Run,
      runs = walk ++ policies ++ finishes ∧
      (∀ path visit, program.VisitedAt path visit → ∃ survey, (visit, survey) ∈ stages ∧
        walk.filter (Run.isAt visit.node) =
          (o.rules.flatMap (Rule.runsAt ⟨file, survey⟩ visit.node.kind visit)) ++
            if visit.node.kind = "Identifier" ∧ final.survey.reference? visit = some .value then
              o.rules.flatMap (Rule.runsAt ⟨file, survey⟩ referenceCheckKind visit)
            else []) ∧
      (∀ run ∈ walk, ∃ path, run.due.DueAt program path) ∧
      (walk.Pairwise fun run later => ∀ path other, run.due.DueAt program path →
        later.due.DueAt program other → path = other ∨ path < other) ∧
      policies.Sublist (o.policies.map (Policy.runAt final program)) ∧
      (finishes.map Run.due).Sublist (o.rules.filterMap (Rule.dueAtEnd final)) ∧
      (∀ before run after, finishes = before ++ run :: after → run.outcome =
        run.due.run ((walk ++ policies ++ before).flatMap fun earlier => earlier.outcome.uses)) ∧
      ∀ id, (∀ run ∈ runs, run.fails = true → run.id ≠ id) →
        policies.filter (fun run => run.id == id) =
          (o.policies.filter fun policy => policy.id == id).map (Policy.runAt final program) ∧
        (finishes.filter fun run => run.id == id).map Run.due =
          (o.rules.filter fun rule => rule.id == id).filterMap (Rule.dueAtEnd final)) ∧
    Session.Follows o.fresh runs (o.session program comments) ∧
    ∀ analysis, o.attempt program comments = .ok analysis ↔
      ((∀ stage ∈ stages, stage.1.node.kind = "Identifier" →
          ¬stage.1.LooksInherited stage.2.names.bindings) ∧
        ∀ run ∈ runs, run.isTold = true) ∧
      answer (o.session program comments) = analysis := by
  intro file final stages runs
  refine ⟨?_, o.follows_session program comments, ?_⟩
  · let walk := Call.ofWalk (.ofRules o.rules) file stages
    let duePolicies := Call.ofPolicies o.policies final program
    let dueFinishes := Call.ofFinishes o.rules final
    let walked := walk.foldl Session.call o.fresh
    let judged := duePolicies.foldl Session.call walked
    have hstages : stages.map Prod.fst = program.visits := Survey.stages_fst _ _
    have hwalk : o.fresh.runs walk = walk.map Run.ofCall :=
      Session.runs_ofWalk_eq_map rfl hrules
    have hruns : runs = walk.map Run.ofCall ++ walked.runs duePolicies ++
        judged.runs dueFinishes := by
      change o.fresh.runs (walk ++ duePolicies ++ dueFinishes) = _
      rw [Session.runs_append, Session.runs_append, hwalk, List.foldl_append]
    have hsession : o.session program comments = dueFinishes.foldl Session.call judged := by
      change (walk ++ duePolicies ++ dueFinishes).foldl Session.call o.fresh = _
      rw [List.foldl_append, List.foldl_append]
    refine ⟨walk.map Run.ofCall, walked.runs duePolicies, judged.runs dueFinishes, hruns,
      ?_, ?_, Call.pairwise_map_ofCall_ofWalk hdistinct hstages,
      Session.runs_ofPolicies_sublist _ _ _ _, Session.map_due_runs_sublist _ _, ?_, ?_⟩
    · intro path visit hvisited
      have hvisit : visit ∈ program.visits := Node.exists_visitedAt_iff.mp ⟨path, hvisited⟩
      rw [← hstages] at hvisit
      obtain ⟨⟨visit, survey⟩, hstage, rfl⟩ := List.mem_map.mp hvisit
      exact ⟨survey, hstage, Call.filter_isAt_map_ofCall o.rules file hdistinct hstage⟩
    · intro run hrun
      obtain ⟨due, hdue, rfl⟩ := List.mem_map.mp hrun
      exact Call.dueAt_of_mem_ofWalk hstages hdue
    · intro before run after hsplit
      rw [hsplit, ← List.append_assoc] at hruns
      exact Session.outcome_of_split hruns
    · intro id hid
      have hunfailed : id ∉ (dueFinishes.foldl Session.call judged).failed :=
        hsession ▸ Session.notMem_failed_of_runs List.not_mem_nil hid
      have hjudged : id ∉ judged.failed := fun hfailed =>
        hunfailed (Session.failed_subset_foldl judged dueFinishes hfailed)
      exact ⟨Session.filter_runs_ofPolicies hjudged,
        Session.map_due_filter_runs_ofFinishes hunfailed⟩
  · intro analysis
    rw [attempt_eq_ok_iff]
    exact and_congr_left fun _ => ⟨fun h => ⟨h.looks, h.told⟩, fun h => ⟨h.1, h.2⟩⟩

/-- The tree of a file whose statements are an identifier inside a wrapper that is no node, and a
function of one parameter that returns the parameter. -/
def wrappedIdentifier : Node :=
  ⟨0, "Program", .int 0, .int 0, [("body", .array [
    .object 1 [("type", .text "Wrapper"),
      ("inner", .atStart 2 "Identifier" [("name", .text "a")])],
    .atStart 3 "ArrowFunctionExpression" [
      ("params", .array [.atStart 4 "Identifier" [("name", .text "b")]]),
      ("body", .atStart 5 "Identifier" [("name", .text "b")])]])]⟩

/-- Two rules on identifiers, the first with a check for references and one at the end, and a policy
that fails under the name of the first. -/
def identifierRules : AnalysisOptions where
  filePath := "src/a.ts"
  source := ""
  traits := Path.classify "src/a.ts"
  rules := [
    Rule.custom "x" [(referenceCheckKind, .report "read"), ("Identifier", .report "name")]
      (some (.report "end")),
    Rule.custom "y" [("Identifier", .report "name")] (some (.report "end"))]
  policies := [Policy.custom "x" (.fail "f"), Policy.custom "p" (.report "policy")]

/-- No check of the two rules fails at a node. -/
theorem returns_identifierRules : ∀ rule ∈ identifierRules.rules, rule.Returns := by
  intro rule hrule entry hentry context visit
  simp only [identifierRules, List.mem_cons, List.not_mem_nil, or_false] at hrule
  rcases hrule with rfl | rfl
  · rcases List.mem_cons.mp hentry with rfl | hentry
    · rfl
    · cases List.mem_singleton.mp hentry
      rfl
  · cases List.mem_singleton.mp hentry
    rfl

/-- The identifier in the wrapper is found at a path and has no parent. The checks of it come first,
then those of the parameter, which is no reference, and then those of what the function returns. The
first rule has no final check any more, since the policy of its name has failed. -/
theorem checked_once_inOrder_wrappedIdentifier :
    let wrapped : Value := .atStart 2 "Identifier" [("name", .text "a")]
    let final := Context.final (identifierRules.file []) wrappedIdentifier
    wrappedIdentifier.Distinct ∧ (∀ rule ∈ identifierRules.rules, rule.Returns) ∧
      (∃ node, wrapped.node? = some node ∧
        wrappedIdentifier.VisitedAt [0, 1] ⟨node, none, some "inner"⟩) ∧
      ((identifierRules.runs wrappedIdentifier []).map fun run =>
        (run.id, match run.due.occasion with
          | .visit kind visit => (kind, visit.node.id)
          | .policy => ("policy", 0)
          | .finish => ("finish", 0))) =
        [("x", "Identifier", 2), ("y", "Identifier", 2), ("x", referenceCheckKind, 2),
          ("x", "Identifier", 4), ("y", "Identifier", 4),
          ("x", "Identifier", 5), ("y", "Identifier", 5), ("x", referenceCheckKind, 5),
          ("x", "policy", 0), ("p", "policy", 0), ("y", "finish", 0)] ∧
      (∃ walk policies finishes : List Run,
        identifierRules.runs wrappedIdentifier [] = walk ++ policies ++ finishes ∧
        (∀ run ∈ walk, ∃ path, run.due.DueAt wrappedIdentifier path) ∧
        policies.Sublist (identifierRules.policies.map (Policy.runAt final wrappedIdentifier)) ∧
        (finishes.map Run.due).Sublist (identifierRules.rules.filterMap (Rule.dueAtEnd final))) ∧
      identifierRules.attempt wrappedIdentifier [] =
        .ok (identifierRules.check wrappedIdentifier []) := by
  intro wrapped final
  have hdistinct : wrappedIdentifier.Distinct := by decide
  obtain ⟨⟨walk, policies, finishes, hruns, -, hdue, -, hpolicies, hfinishes, -⟩, -, hattempt⟩ :=
    checked_once_inOrder identifierRules wrappedIdentifier [] hdistinct returns_identifierRules
  refine ⟨hdistinct, returns_identifierRules, ⟨_, rfl, ?_⟩, by decide +kernel,
    ⟨walk, policies, finishes, hruns, hdue, hpolicies, hfinishes⟩, (hattempt _).mpr ⟨?_, rfl⟩⟩
  · exact Or.inr ⟨0, [1], "body", _, rfl, rfl, .inside rfl rfl (.here rfl)⟩
  · exact ⟨by decide +kernel, by decide +kernel⟩

/-- The tree of a file with an identifier in a node of a kind by whose name every record has a
member. -/
def inheritedParent : Node :=
  ⟨0, "Program", .int 0, .int 0, [("body", .array [.atStart 1 "constructor" [
    ("inner", .atStart 2 "Identifier" [("name", .text "a")])]])]⟩

/-- No check of a node fails, and yet the analysis breaks off at the identifier. -/
theorem attempt_inheritedParent :
    inheritedParent.Distinct ∧ (∀ rule ∈ identifierRules.rules, rule.Returns) ∧
      (∃ visit ∈ inheritedParent.visits, visit.node.kind = "Identifier") ∧
      identifierRules.attempt inheritedParent [] = .error (.inheritedMember "constructor") :=
  ⟨by decide, returns_identifierRules, by decide, rfl⟩

end AnalysisOptions

end PureLint
