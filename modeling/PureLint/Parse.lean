import PureLint.Analysis
import PureLint.Tree.Numbering

/-!
# Parse results

What a parser hands over for a file: a program, comments and complaints, none of them trusted. A
file is checked only if its parser had no complaint and returned a program.
-/

namespace PureLint

/-- A parse result as it comes. -/
structure RawParse where
  program : Value := .null
  comments : List Value := []
  errors : List Value := []

/-- A parse result in which everything is of the right sort. -/
structure Parse where
  program : Option Node
  comments : List Comment
  /-- What the parser complained of, `none` if a complaint has no text. -/
  errors : Option (List String)

namespace RawParse

/-- The parse result that a piece of data holds. What is missing from it is empty. -/
def ofJson (data : Json) : RawParse :=
  let (program, next) := Value.ofJson 0 ((data.field? "program").getD .null)
  let (comments, next) := Value.ofJsonItems next (listAt "comments")
  { program, comments, errors := (Value.ofJsonItems next (listAt "errors")).1 }
where
  listAt (key : String) : List Json :=
    match data.field? key with
    | some (.array items) => items
    | _ => []

/-- The text of a complaint: its message if it has one. -/
def errorText? : Value → Option String
  | .object id fields => (Value.textField? fields "message").or (Value.object id fields).text?
  | error => error.text?

/-- Keeps what is of the right sort, and puts the comments in order. -/
def read (raw : RawParse) : Parse where
  program := raw.program.node?
  comments := Comment.inOrder (raw.comments.filterMap Comment.ofValue?)
  errors := raw.errors.mapM errorText?

end RawParse

/-- The complaint about a parser that returned no program and had no complaint of its own. -/
def Parse.noProgram : String := "Parser returned no program"

/-- The analysis of a file from its parse result. -/
def AnalysisOptions.analyze (o : AnalysisOptions) (raw : RawParse) : Except Breakdown Analysis :=
  let parse := raw.read
  match parse.errors, parse.program with
  | none, _ => .error .noText
  | some [], some program => o.attempt program parse.comments
  | some [], none => .ok { parseErrors := [Parse.noProgram] }
  | some errors, _ => .ok { parseErrors := errors }

end PureLint
