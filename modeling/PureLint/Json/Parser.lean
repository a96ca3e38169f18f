import PureLint.Json.Token

/-!
# Reading a data file

A machine takes the tokens one by one. It keeps a frame for each array and object that is still
open, and knows what may come next; a complete value goes into the innermost frame. The text is
accepted if one value is complete at its end.
-/

namespace PureLint.Json

/-- An array or object that is still open, its parts last first. -/
inductive Frame where
  | items (done : List Json)
  | members (done : List (String × Json)) (key : String)

/-- What may come next. -/
inductive Next where
  | value
  /-- A value, or the end of an array that is still empty. -/
  | firstItem
  | key
  /-- A key, or the end of an object that is still empty. -/
  | firstKey
  | colon
  /-- A comma, or the end of the innermost frame. -/
  | separator
  | nothing (result : Json)

/-- The state of the machine. -/
structure Parser where
  frames : List Frame := []
  next : Next := .value

namespace Parser

/-- Takes a complete value. -/
def complete (frames : List Frame) (value : Json) : Parser :=
  match frames with
  | [] => ⟨[], .nothing value⟩
  | .items done :: rest => ⟨.items (value :: done) :: rest, .separator⟩
  | .members done key :: rest => ⟨.members ((key, value) :: done) key :: rest, .separator⟩

/-- Takes a token where a value starts. -/
def startValue (frames : List Frame) : Token → Option Parser
  | .scalar value => some (complete frames value)
  | .openBracket => some ⟨.items [] :: frames, .firstItem⟩
  | .openBrace => some ⟨.members [] "" :: frames, .firstKey⟩
  | _ => none

/-- Closes the innermost frame. -/
def close (frames : List Frame) : Token → Option Parser
  | .closeBracket =>
    match frames with
    | .items done :: rest => some (complete rest (.array done.reverse))
    | _ => none
  | .closeBrace =>
    match frames with
    | .members done _ :: rest => some (complete rest (.object (Record.ofPairs done.reverse)))
    | _ => none
  | _ => none

/-- Takes a token where a key is due. -/
def startMember (frames : List Frame) : Token → Option Parser
  | .scalar (.text key) =>
    match frames with
    | .members done _ :: rest => some ⟨.members done key :: rest, .colon⟩
    | _ => none
  | _ => none

/-- Takes a comma. -/
def continue? (frames : List Frame) : Option Parser :=
  match frames with
  | .items _ :: _ => some ⟨frames, .value⟩
  | .members _ _ :: _ => some ⟨frames, .key⟩
  | [] => none

/-- Takes one token. -/
def step (p : Parser) (token : Token) : Option Parser :=
  match p.next with
  | .value => startValue p.frames token
  | .firstItem => (close p.frames token).or (startValue p.frames token)
  | .key => startMember p.frames token
  | .firstKey => (close p.frames token).or (startMember p.frames token)
  | .colon =>
    match token with
    | .colon => some ⟨p.frames, .value⟩
    | _ => none
  | .separator =>
    match token with
    | .comma => continue? p.frames
    | _ => close p.frames token
  | .nothing _ => none

end Parser

/-- The value that a text spells, `none` if it spells none. -/
def parse? (text : List Char) : Option Json := do
  let parser ← (← tokens? text).foldlM Parser.step {}
  match parser.next with
  | .nothing result => some result
  | _ => none

end PureLint.Json
