import PureLint.Survey.Names
import PureLint.Survey.Scope

/-!
# The survey of a file

Everything that is learnt about one file while its tree is walked: what its top-level statements
export, the scope of the walk, and its names. Rules read the survey and never change it.
-/

namespace PureLint

/-- What is known about a file at one moment of the walk. -/
structure Survey where
  topLevel : TopLevel
  scopes : ScopeStack := {}
  names : Names := {}

namespace Survey

/-- What is known before the walk. -/
def ofProgram (program : Node) : Survey := { topLevel := TopLevel.ofProgram program }

/-- What is known after entering a node. -/
def enter (s : Survey) (visit : Visit) : Survey :=
  { s with scopes := s.scopes.enter visit, names := s.names.enter visit }

/-- What is known after leaving a node. -/
def leave (s : Survey) (node : Node) : Survey := { s with scopes := s.scopes.leave node }

/-- What is known after a step of the walk. -/
def step (s : Survey) : Event → Survey
  | .enter visit => s.enter visit
  | .leave visit => s.leave visit.node

/-- What is known after several steps. -/
def run (s : Survey) (events : List Event) : Survey := events.foldl step s

/-- Without a step nothing more is known. -/
@[simp] theorem run_nil (s : Survey) : s.run [] = s := rfl

/-- Several steps are one step and the others. -/
@[simp] theorem run_cons (s : Survey) (event : Event) (events : List Event) :
    s.run (event :: events) = (s.step event).run events := rfl

/-- Two walks one after the other are one walk. -/
theorem run_append (s : Survey) (first second : List Event) :
    s.run (first ++ second) = (s.run first).run second := List.foldl_append

/-- The visits of a walk, each with what is known right after entering the node. -/
def stages (s : Survey) : List Event → List (Visit × Survey)
  | [] => []
  | .enter visit :: rest => (visit, s.enter visit) :: stages (s.enter visit) rest
  | .leave visit :: rest => stages (s.leave visit.node) rest

/-- The visits of two walks one after the other, the second from what the first has taught. -/
theorem stages_append (s : Survey) (first second : List Event) :
    s.stages (first ++ second) = s.stages first ++ (s.run first).stages second := by
  induction first generalizing s with
  | nil => rfl
  | cons event first ih => cases event <;> simp [stages, step, ih]

/-- How the identifier of a visit reads its name, as far as is known. -/
def reference (s : Survey) (visit : Visit) : Except Breakdown (Option ReferenceKind) :=
  visit.reference s.names.bindings

/-- What `Survey.reference` answers where no look-up breaks off. -/
def reference? (s : Survey) (visit : Visit) : Option ReferenceKind :=
  visit.reference? s.names.bindings

/-- The scope of the walk. -/
def scope (s : Survey) : Scope := s.scopes.scope

end Survey

end PureLint
