import PureLint.Json.Basic

/-!
# Issues of a configuration

A value that is read as a configuration can be wrong in several places at once, and all of them are
told. Reading is therefore not cut off at the first issue: readings are put together, and the issues
of all of them add up in order.
-/

namespace PureLint.Config

/-- A step on the way to a part of a value. -/
inductive Step where
  | key (name : String)
  | item (index : Nat)
  deriving DecidableEq, Repr

/-- The text of a step. -/
def Step.text : Step → String
  | .key name => name
  | .item index => toString index

/-- What is wrong with a part of a value. -/
inductive Problem where
  /-- Nothing is there. -/
  | missing
  | wrongSort (expected received : String)
  /-- It is not among the options, and no text. -/
  | noOption (options : List String) (received : String)
  /-- It is a text, but not among the options. -/
  | unknownOption (options : List String) (received : String)
  | unknownRule (id : String)
  deriving DecidableEq, Repr

/-- The options as messages show them. -/
def optionsText (options : List String) : String :=
  " | ".intercalate (options.map fun option => "'" ++ option ++ "'")

/-- The message about a problem. -/
def Problem.message : Problem → String
  | .missing => "Required"
  | .wrongSort expected received => s!"Expected {expected}, received {received}"
  | .noOption options received => "Expected " ++ optionsText options ++ ", received " ++ received
  | .unknownOption options received =>
    "Invalid enum value. Expected " ++ optionsText options ++ ", received '" ++ received ++ "'"
  | .unknownRule id => s!"Unknown rule '{id}'"

/-- A problem and where it is. -/
structure Issue where
  path : List Step
  problem : Problem
  deriving DecidableEq, Repr

/-- The issue in one line: where it is, and what is wrong. -/
def Issue.text (issue : Issue) : String :=
  let place := ".".intercalate (issue.path.map Step.text)
  (if place = "" then "(root)" else place) ++ ": " ++ issue.problem.message

/-- What reading a value comes to: a result, or the issues. -/
abbrev Checked (α : Type) := Except (List Issue) α

namespace Checked

/-- A reading with one issue. -/
def fail {α : Type} (path : List Step) (problem : Problem) : Checked α := .error [⟨path, problem⟩]

/-- Two readings put together. Their issues add up. -/
def both {α β : Type} : Checked α → Checked β → Checked (α × β)
  | .ok a, .ok b => .ok (a, b)
  | .error i, .error j => .error (i ++ j)
  | .error i, .ok _ => .error i
  | .ok _, .error j => .error j

/-- Two readings put together come to a result exactly if both do. -/
theorem both_eq_ok_iff {α β : Type} {a : Checked α} {b : Checked β} {x : α} {y : β} :
    a.both b = .ok (x, y) ↔ a = .ok x ∧ b = .ok y := by
  cases a <;> cases b <;> simp [both]

/-- All the readings put together. -/
def all {α : Type} : List (Checked α) → Checked (List α)
  | [] => .ok []
  | c :: rest => (both c (all rest)).map fun (a, others) => a :: others

/-- A reading of something that need not be there. -/
def optional {α : Type} (read : Json → Checked α) : Option Json → Checked (Option α)
  | none => .ok none
  | some value => (read value).map some

end Checked

end PureLint.Config
