import PureLint.Config.Validator
import PureLint.Preset

/-!
# Configurations

A configuration as it is kept in a file: everything in it may be left out, and what is there must be
of the right sort. Fields that are not known are dropped.
-/

namespace PureLint

/-- The part of a configuration that tells which files to leave out. -/
structure IgnoreConfig where
  files : Option (List String) := none
  deriving DecidableEq, Repr

/-- A configuration. -/
structure Config where
  preset : Option String := none
  rules : Option (List (String × Bool)) := none
  ignore : Option IgnoreConfig := none
  entry : Option (List String) := none
  main : Option (List String) := none
  testRunner : Option TestRunner := none
  verbose : Option Bool := none
  deriving DecidableEq, Repr

namespace Config

section Read

variable (v : Validator)

/-- Reads choices for rules. Whether the rules exist is looked at once all choices are truth
values. -/
def readRules : Reader (List (String × Bool)) := fun path value => do
  let choices ← v.record v.truth path value
  let unknown := choices.filter fun (id, _) => !isRuleId id
  if unknown.isEmpty then .ok choices
  else .error (unknown.map fun (id, _) => ⟨path ++ [.key id], .unknownRule id⟩)

/-- Reads a field that need not be there, of an object at a place. -/
def readField {α : Type} (path : List Step) (fields : List (String × Json)) (name : String)
    (read : Reader α) : Checked (Option α) :=
  Checked.optional (read (path ++ [.key name])) (fields.lookup name)

/-- Reads what to leave out. -/
def readIgnore : Reader IgnoreConfig :=
  v.object fun path fields =>
    (readField path fields "files" (v.array v.text)).map fun files => ⟨files⟩

/-- Reads a test runner by name. -/
def readRunner : Reader (Option TestRunner) := fun path value =>
  (v.option (TestRunner.all.map (·.name)) path value).map TestRunner.ofName?

/-- Reads the fields of a configuration. -/
def readFields (path : List Step) (fields : List (String × Json)) : Checked Config :=
  let choices := (readField path fields "preset" (v.option Preset.names)).both
    (readField path fields "rules" (readRules v))
  let files := (readField path fields "ignore" (readIgnore v)).both
    ((readField path fields "entry" (v.array v.text)).both
      (readField path fields "main" (v.array v.text)))
  let rest := (readField path fields "testRunner" (readRunner v)).both
    (readField path fields "verbose" v.truth)
  (choices.both (files.both rest)).map
    fun ((preset, rules), (ignore, entry, main), (testRunner, verbose)) =>
      { preset, rules, ignore, entry, main, testRunner := testRunner.join, verbose }

/-- Reads a configuration from a value that may be missing. -/
def read : Option Json → Checked Config
  | some value => v.object (readFields v) [] value
  | none => .fail [] .missing

end Read

/-- A list of texts as a value. -/
def textsJson (texts : List String) : Json := .array (texts.map .text)

/-- What to leave out as a value. -/
def ignoreJson (ignore : IgnoreConfig) : Json :=
  .object ((ignore.files.map fun files => ("files", textsJson files)).toList)

/-- The configuration as a value, with the fields that are there. -/
def toJson (c : Config) : Json :=
  .object
    ((c.preset.map fun name => ("preset", .text name)).toList ++
      (c.rules.map fun rules =>
        ("rules", .object (rules.map fun (id, on) => (id, .bool on)))).toList ++
      (c.ignore.map fun ignore => ("ignore", ignoreJson ignore)).toList ++
      (c.entry.map fun paths => ("entry", textsJson paths)).toList ++
      (c.main.map fun paths => ("main", textsJson paths)).toList ++
      (c.testRunner.map fun runner => ("testRunner", .text runner.name)).toList ++
      (c.verbose.map fun on => ("verbose", .bool on)).toList)

end Config

end PureLint
