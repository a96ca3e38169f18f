import PureLint.Comment.Basic
import PureLint.Directive.Feature
import PureLint.Path.Traits
import PureLint.Survey.Basic
import PureLint.TestRunner

/-!
# Rules and policies

A rule looks at the nodes of a tree by their kind, and once more when the walk is over. A policy
looks at a file's path and top-level statements. Neither changes anything: each check returns an
outcome, which tells what it reports, which features it saw used, and whether it failed.
-/

namespace PureLint

/-- The kind of node under which identifiers that read a value are checked once more. -/
def referenceCheckKind : String := "IdentifierReference"

/-- What is fixed about a file while it is checked. -/
structure SourceFile where
  filePath : String
  traits : PathTraits
  runner : Option TestRunner
  /-- The features that the file grants itself. -/
  granted : List Feature
  units : List UInt16
  comments : List Comment

namespace SourceFile

/-- The doc block directly above an offset. -/
def docBefore (file : SourceFile) (offset : Number) : Option String :=
  Comment.docBefore file.units file.comments offset

/-- Whether the file grants itself a feature. -/
def allows (file : SourceFile) (feature : Feature) : Bool := file.granted.contains feature

end SourceFile

/-- What a check can look at: the file, and what is known about it at that moment. -/
structure Context where
  file : SourceFile
  survey : Survey

/-- A message about a span. -/
structure Report where
  span : Span
  message : String

/-- A message about a node. -/
def Node.report (n : Node) (message : String) : Report := ⟨n.span, message⟩

/-- What a check can fail with: an error with its message, or any other value. -/
inductive Thrown where
  | error (message : String)
  | value (v : Value)

/-- The text of what was thrown, if it has one: the message of an error, and the text of any other
value. -/
def Thrown.text? : Thrown → Option String
  | .error message => some message
  | .value v => v.text?

/-- What a check comes to. What it reported before it failed counts. -/
structure Outcome where
  reports : List Report := []
  uses : List Feature := []
  /-- What the check failed with, if it failed. -/
  failure : Option Thrown := none

/-- A check of a visited node. -/
abbrev Check := Context → Visit → Outcome

/-- A check at the end of the walk, which is also told the features seen used. -/
abbrev Finish := Context → List Feature → Outcome

/-- A rule: its checks by kind of node, and its check at the end. -/
structure Rule where
  id : String
  description : String
  checks : List (String × Check) := []
  finish : Option Finish := none

/-- A check of a file's path and its top-level statements. -/
structure Policy where
  id : String
  description : String
  check : Context → Node → Outcome

/-- One check for several kinds of node, which only reports. -/
def reporting (kinds : List String) (find : Context → Visit → List Report) :
    List (String × Check) :=
  kinds.map fun kind => (kind, fun context visit => { reports := find context visit })

/-- A check at the end that only reports and depends on the survey alone. -/
def reportingAtEnd (find : Survey → List Report) : Option Finish :=
  some fun context _ => { reports := find context.survey }

/-- A message about the visited node if a condition holds. -/
def reportIf (condition : Bool) (visit : Visit) (message : String) : List Report :=
  if condition then [visit.node.report message] else []

end PureLint
