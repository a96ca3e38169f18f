import PureLint.Rule.Basic

/-!
# Custom rules

Rules and policies put together from a few plain actions: report a text, fail, or show the doc block
directly above the place.
-/

namespace PureLint

/-- What a custom check does at a place. -/
inductive Action where
  /-- Reports a text there. -/
  | report (message : String)
  /-- Fails with an error. -/
  | fail (message : String)
  /-- Fails with a value that is no error. -/
  | throw (v : Value)
  /-- Reports the doc block directly above, or that there is none. -/
  | showDoc

/-- What an action comes to at a span of a file. -/
def Action.perform (action : Action) (file : SourceFile) (span : Span) : Outcome :=
  match action with
  | .report message => { reports := [⟨span, message⟩] }
  | .fail message => { failure := some (.error message) }
  | .throw v => { failure := some (.value v) }
  | .showDoc => { reports := [⟨span, (file.docBefore span.start).getD "<none>"⟩] }

/-- A rule that performs actions at nodes by their kind, and at the beginning of the file when the
walk is over. -/
def Rule.custom (id : String) (visits : List (String × Action)) (finish : Option Action) :
    Rule where
  id := id
  description := ""
  checks := visits.map fun (kind, action) =>
    (kind, fun context visit => action.perform context.file visit.node.span)
  finish := finish.map fun action context _ => action.perform context.file .fileStart

/-- A policy that performs an action at the program. -/
def Policy.custom (id : String) (action : Action) : Policy where
  id := id
  description := ""
  check context program := action.perform context.file program.span

end PureLint
