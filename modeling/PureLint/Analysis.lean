import PureLint.Rule.Basic
import PureLint.Diagnostic.Sink

/-!
# The analysis of a file

All rules and policies look at a file during a single walk. What the walk learns about the file does
not depend on any rule, so the checks that are due can be listed beforehand: those at each node in
the order the walk enters them, then the policies, then the final checks. A check that fails is
reported as a warning, and nothing is run under its name any more.
-/

namespace PureLint

/-- When a check is due. -/
inductive Occasion where
  /-- At a visited node, under a kind of node. -/
  | visit (kind : String) (visit : Visit)
  /-- After the walk, as a policy. -/
  | policy
  /-- At the very end, as the final check of a rule. -/
  | finish

/-- A check that is due, under the name of its rule or policy. It is told the features seen used
so far. -/
structure Call where
  id : String
  occasion : Occasion
  run : List Feature → Outcome

/-- A check that is registered under the name of its rule. -/
structure Registered where
  id : String
  check : Check

/-- The registered checks by kind of node. -/
abbrev Dispatch := List (String × List Registered)

namespace Dispatch

/-- Registers a check of a rule after those that there are for its kind of node. -/
def register (id : String) (dispatch : Dispatch) (entry : String × Check) : Dispatch :=
  updateEntry entry.1 (fun registered => registered.getD [] ++ [⟨id, entry.2⟩]) dispatch

/-- The checks of all rules, registered rule by rule. -/
def ofRules (rules : List Rule) : Dispatch :=
  rules.foldl (fun dispatch rule => rule.checks.foldl (register rule.id) dispatch) []

/-- The checks that are registered for a kind of node. -/
def checksFor (dispatch : Dispatch) (kind : String) : List Registered :=
  (dispatch.lookup kind).getD []

/-- A check is registered for its own kind of node, and for no other. -/
theorem checksFor_register (id : String) (dispatch : Dispatch) (entry : String × Check)
    (kind : String) :
    (register id dispatch entry).checksFor kind =
      dispatch.checksFor kind ++ if entry.1 = kind then [⟨id, entry.2⟩] else [] := by
  unfold checksFor register
  rw [lookup_updateEntry]
  by_cases h : kind = entry.1
  · subst h
    simp
  · rw [if_neg h, if_neg (Ne.symm h), List.append_nil]

/-- Of the checks of a rule, those for a kind of node are registered for it, in their order. -/
theorem checksFor_foldl_register (id : String) (dispatch : Dispatch)
    (entries : List (String × Check)) (kind : String) :
    (entries.foldl (register id) dispatch).checksFor kind =
      dispatch.checksFor kind ++
        (entries.filter fun entry => entry.1 == kind).map fun entry => ⟨id, entry.2⟩ := by
  induction entries generalizing dispatch with
  | nil => simp
  | cons entry entries ih =>
    rw [List.foldl_cons, ih, checksFor_register, List.append_assoc, List.filter_cons]
    by_cases h : entry.1 = kind <;> simp [h]

/-- Each check of each rule is registered once, rule by rule, and for its kind of node only. -/
theorem checksFor_ofRules (rules : List Rule) (kind : String) :
    (ofRules rules).checksFor kind = rules.flatMap fun rule =>
      (rule.checks.filter fun entry => entry.1 == kind).map fun entry => ⟨rule.id, entry.2⟩ := by
  have hrest (dispatch : Dispatch) :
      (rules.foldl (fun dispatch rule => rule.checks.foldl (register rule.id) dispatch)
        dispatch).checksFor kind = dispatch.checksFor kind ++ rules.flatMap fun rule =>
          (rule.checks.filter fun entry => entry.1 == kind).map fun entry =>
            ⟨rule.id, entry.2⟩ := by
    induction rules generalizing dispatch with
    | nil => simp
    | cons rule rules ih =>
      rw [List.foldl_cons, ih, checksFor_foldl_register, List.flatMap_cons, List.append_assoc]
  exact hrest []

end Dispatch

namespace Call

/-- The checks due under a kind of node at a visit, as they are registered. -/
def atKind (dispatch : Dispatch) (file : SourceFile) (kind : String) (visit : Visit)
    (survey : Survey) : List Call :=
  (dispatch.checksFor kind).map fun registered =>
    ⟨registered.id, .visit kind visit, fun _ => registered.check ⟨file, survey⟩ visit⟩

/-- The checks due at a visit: those for the kind of the node, and then those for references if the
node is an identifier that reads a value. -/
def atVisit (dispatch : Dispatch) (file : SourceFile) (visit : Visit) (survey : Survey) :
    List Call :=
  atKind dispatch file visit.node.kind visit survey ++
    if visit.node.kind = "Identifier" ∧ survey.reference? visit = some .value then
      atKind dispatch file referenceCheckKind visit survey
    else []

/-- The checks due during the walk. -/
def ofWalk (dispatch : Dispatch) (file : SourceFile) (stages : List (Visit × Survey)) :
    List Call :=
  stages.flatMap fun (visit, survey) => atVisit dispatch file visit survey

/-- The policies, once the walk is over. -/
def ofPolicies (policies : List Policy) (context : Context) (program : Node) : List Call :=
  policies.map fun policy => ⟨policy.id, .policy, fun _ => policy.check context program⟩

/-- The final checks of the rules. -/
def ofFinishes (rules : List Rule) (context : Context) : List Call :=
  rules.filterMap fun rule =>
    rule.finish.map fun finish => ⟨rule.id, .finish, finish context⟩

/-- All checks due on a program, in the order they run. -/
def all (rules : List Rule) (policies : List Policy) (file : SourceFile) (program : Node) :
    List Call :=
  let start := Survey.ofProgram program
  let final : Context := ⟨file, start.run program.events⟩
  ofWalk (.ofRules rules) file (start.stages program.events) ++ ofPolicies policies final program ++
    ofFinishes rules final

end Call

/-- The state of an analysis. -/
structure Session where
  sink : Sink
  /-- The features seen used. -/
  used : List Feature := []
  /-- The names under which a check has failed. -/
  failed : List String := []
  warnings : List String := []

namespace Session

/-- The warning about a check that failed. -/
def failureWarning (id filePath reason : String) : String :=
  s!"Warning: Rule \"{id}\" threw while analyzing {filePath}: {reason}"

/-- Takes over what a check came to. A failure is told in a warning, if it has a text. -/
def take (s : Session) (id : String) (outcome : Outcome) : Session :=
  let s := { s with
    sink := outcome.reports.foldl (fun sink r => sink.add id r.message r.span) s.sink
    used := s.used ++ outcome.uses }
  match outcome.failure with
  | none => s
  | some thrown =>
    { s with
      failed := s.failed ++ [id]
      warnings := s.warnings ++ (thrown.text?.map (failureWarning id s.sink.filePath)).toList }

/-- Runs a check that is due, unless one under the same name has failed. -/
def call (s : Session) (due : Call) : Session :=
  if s.failed.contains due.id then s else s.take due.id (due.run s.used)

/-- Runs a check that is due, unless one under the same name has failed, and breaks off if it fails
with something that has no text. -/
def attempt (s : Session) (due : Call) : Except Breakdown Session :=
  if s.failed.contains due.id then .ok s
  else
    let outcome := due.run s.used
    if outcome.failure.any (·.text?.isNone) then .error .noText
    else .ok (s.take due.id outcome)

/-- Enters a node and runs the checks that are due there. How an identifier reads its name is looked
up first, and this look-up is outside any check. -/
def visit (dispatch : Dispatch) (file : SourceFile) (s : Session) (stage : Visit × Survey) :
    Except Breakdown Session := do
  if stage.1.node.kind = "Identifier" then
    let _ ← stage.2.reference stage.1
  (Call.atVisit dispatch file stage.1 stage.2).foldlM attempt s

end Session

/-- What an analysis answers. -/
structure Analysis where
  diagnostics : List Diagnostic := []
  /-- What the parser complained of. A file with such complaints is not checked. -/
  parseErrors : List String := []
  warnings : List String := []

/-- What to analyse a file with, besides its program and comments. -/
structure AnalysisOptions where
  filePath : String
  source : String
  traits : PathTraits
  runner : Option TestRunner := none
  rules : List Rule := []
  policies : List Policy := []

namespace AnalysisOptions

/-- The file as the checks see it. -/
def file (o : AnalysisOptions) (comments : List Comment) : SourceFile :=
  { filePath := o.filePath
    traits := o.traits
    runner := o.runner
    granted := Feature.granted o.source
    units := Text.units o.source.toList
    comments := comments }

/-- The state of an analysis before anything is checked. -/
def fresh (o : AnalysisOptions) : Session := { sink := Sink.ofSource o.filePath o.source }

/-- What an analysis answers in this state once nothing is due any more. -/
def answer (session : Session) : Analysis :=
  { diagnostics := session.sink.close.stored, warnings := session.warnings }

/-- Runs every rule and policy over a program and returns what is left after suppressions and
expectations, in the order it was reported. -/
def attempt (o : AnalysisOptions) (program : Node) (comments : List Comment) :
    Except Breakdown Analysis := do
  let file := o.file comments
  let start := Survey.ofProgram program
  let final : Context := ⟨file, start.run program.events⟩
  let walked ← (start.stages program.events).foldlM (Session.visit (.ofRules o.rules) file) o.fresh
  let judged ← (Call.ofPolicies o.policies final program).foldlM Session.attempt walked
  return answer (← (Call.ofFinishes o.rules final).foldlM Session.attempt judged)

/-- The state of the analysis once all checks have run, where nothing breaks off. -/
def session (o : AnalysisOptions) (program : Node) (comments : List Comment) : Session :=
  (Call.all o.rules o.policies (o.file comments) program).foldl Session.call o.fresh

/-- What `AnalysisOptions.attempt` answers where nothing breaks off. -/
def check (o : AnalysisOptions) (program : Node) (comments : List Comment) : Analysis :=
  answer (o.session program comments)

end AnalysisOptions

end PureLint
