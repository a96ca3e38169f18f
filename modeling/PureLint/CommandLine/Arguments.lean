import PureLint.CommandLine.Flag
import PureLint.Text.Distance
import PureLint.Text.Search

/-!
# Arguments of the command line

Flags are taken out of the arguments wherever they stand, up to a bare `--`. The other arguments are
operands, but from the first one that looks like a flag and is not known, they are kept apart as
unknown.
-/

namespace PureLint

/-- The way in which a command line can be wrong. -/
inductive UsageError where
  | missingValue (flag : Flag)
  | wrongChoice (flag : Flag) (value : String)
  /-- A flag is not known; the known ones that are written alike are suggested. -/
  | unknownFlag (argument : String) (alike : List String)
  deriving DecidableEq, Repr

namespace UsageError

/-- The question at the end of a message about an unknown flag. -/
def suggestion : List String → String
  | [] => ""
  | [one] => s!"\n(Did you mean {one}?)"
  | many =>
    let listed := ", ".intercalate many
    s!"\n(Did you mean one of {listed}?)"

/-- The message about a wrong command line. -/
def message : UsageError → String
  | .missingValue flag =>
    let text := flag.text
    s!"error: option '{text}' argument missing"
  | .wrongChoice flag value =>
    let text := flag.text
    let allowed := ", ".intercalate flag.choices
    s!"error: option '{text}' argument '{value}' is invalid. Allowed choices are {allowed}."
  | .unknownFlag argument alike =>
    let question := suggestion alike
    s!"error: unknown option '{argument}'{question}"

end UsageError

/-- What ends the reading of a command line early. -/
inductive Stop where
  | version
  | wrong (e : UsageError)
  deriving DecidableEq, Repr

/-- The values that flags give. -/
structure Settings where
  verbose : Bool := false
  preset : Option String := none
  test : Option String := none
  entry : Option String := none
  main : Option String := none
  deriving DecidableEq, Repr

/-- A command line taken apart. -/
structure Arguments where
  settings : Settings := {}
  operands : List String := []
  unknown : List String := []
  deriving DecidableEq, Repr

namespace Arguments

/-- Whether an argument looks like a flag. -/
def looksLikeFlag (argument : String) : Bool :=
  Text.startsWith argument "-" && argument != "-"

/-- Adds an argument that is no known flag. -/
def push (a : Arguments) (argument : String) : Arguments :=
  if a.unknown.isEmpty && !looksLikeFlag argument then
    { a with operands := a.operands ++ [argument] }
  else { a with unknown := a.unknown ++ [argument] }

/-- Adds all that follows a bare `--`. -/
def pushRest (a : Arguments) (rest : List String) : Arguments :=
  if a.unknown.isEmpty then { a with operands := a.operands ++ rest }
  else { a with unknown := a.unknown ++ "--" :: rest }

/-- Takes a flag without a value. -/
def setFlag (a : Arguments) : Flag → Except Stop Arguments
  | .version => .error .version
  | .verbose => .ok { a with settings := { a.settings with verbose := true } }
  | _ => .ok a

/-- The settings with the value of a flag. -/
def withValue (s : Settings) (flag : Flag) (value : String) : Settings :=
  match flag with
  | .preset => { s with preset := some value }
  | .test => { s with test := some value }
  | .entry => { s with entry := some value }
  | .main => { s with main := some value }
  | _ => s

/-- Takes the value of a flag. -/
def setValue (a : Arguments) (flag : Flag) (value : String) : Except Stop Arguments :=
  if flag.choices.isEmpty || flag.choices.contains value then
    .ok { a with settings := withValue a.settings flag value }
  else .error (.wrong (.wrongChoice flag value))

/-- The flag without a value whose short form an argument starts with. -/
def gluedFlag? (flags : List Flag) (argument : String) : Option Flag :=
  flags.find? fun flag =>
    flag.value?.isNone && flag.short?.any (Text.startsWith argument ·)

/-- The flag and the value that an argument of the form `--flag=value` gives. -/
def assigned? (flags : List Flag) (argument : String) : Option (Flag × String) := do
  let cs := argument.toList
  let value ← Text.after? ['='] cs
  let flag ← Flag.ofArgument? flags (String.ofList (cs.takeWhile (· != '=')))
  if flag.value?.isSome then some (flag, String.ofList value) else none

/-- Takes arguments apart, knowing the given flags. -/
def read (flags : List Flag) : List String → Arguments → Except Stop Arguments
  | [], a => .ok a
  | argument :: rest, a =>
    if argument = "--" then .ok (a.pushRest rest)
    else
      match Flag.ofArgument? flags argument with
      | some flag =>
        if flag.value?.isSome then
          match rest with
          | [] => .error (.wrong (.missingValue flag))
          | value :: rest => do read flags rest (← a.setValue flag value)
        else do read flags rest (← a.setFlag flag)
      | none =>
        match gluedFlag? flags argument, assigned? flags argument with
        | some flag, _ => do read flags rest (← a.setFlag flag)
        | none, some (flag, value) => do read flags rest (← a.setValue flag value)
        | none, none => read flags rest (a.push argument)

/-- The words among the candidates that are nearest to a word: at most three changes away, and more
than two fifths alike. -/
def nearest (word : String) (candidates : List String) : List String :=
  let us := Text.units word.toList
  let scored := candidates.filterMap fun candidate =>
    let vs := Text.units candidate.toList
    let distance := Text.distance us vs
    let length := max us.length vs.length
    if distance ≤ 3 ∧ 2 * length < 5 * (length - distance) then some (candidate, distance)
    else none
  let best := (scored.map (·.2)).min?.getD 0
  Text.sortByUnits ((scored.filter (·.2 == best)).map (·.1))

/-- The error about a flag that is not known. -/
def unknownFlag (argument : String) : UsageError :=
  match Text.dropStart? ['-', '-'] argument.toList with
  | some word =>
    let known := (Flag.all.map Flag.long ++ ["--help"]).map (Text.stripStart · "--")
    .unknownFlag argument ((nearest (String.ofList word) known).map ("--" ++ ·))
  | none => .unknownFlag argument []

/-- Whether help is asked for among the unknown arguments. -/
def asksHelp (a : Arguments) : Bool := a.unknown.any helpFlags.contains

end Arguments

end PureLint
