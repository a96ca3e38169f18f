import PureLint.Preset

/-!
# Flags of the command line

The flags that the program knows, how they are written, and what help tells about them.
-/

namespace PureLint

/-- A flag of the program. -/
inductive Flag where
  | version
  | verbose
  | preset
  | test
  | entry
  | main
  deriving DecidableEq, Repr

namespace Flag

/-- All flags, in the order help lists them. -/
def all : List Flag := [.version, .verbose, .preset, .test, .entry, .main]

/-- The long form of a flag. -/
def long : Flag → String
  | .version => "--version"
  | .verbose => "--verbose"
  | .preset => "--preset"
  | .test => "--test"
  | .entry => "--entry"
  | .main => "--main"

/-- The short form of a flag, if it has one. -/
def short? : Flag → Option String
  | .version => some "-V"
  | _ => none

/-- What help calls the value of a flag, if the flag takes one. -/
def value? : Flag → Option String
  | .preset => some "name"
  | .test => some "runner"
  | .entry => some "files"
  | .main => some "files"
  | _ => none

/-- The values that a flag takes, if it does not take all. -/
def choices : Flag → List String
  | .preset => Preset.names
  | .test => TestRunner.all.map (·.name)
  | _ => []

/-- A flag as messages and help write it. -/
def text (flag : Flag) : String :=
  (flag.short?.map (· ++ ", ")).getD "" ++ flag.long ++
    (flag.value?.map fun name => " <" ++ name ++ ">").getD ""

/-- What help tells about a flag. -/
def description : Flag → String
  | .version => "output the version number"
  | .verbose => "Show the offending source line under each error"
  | .preset => "Rule preset"
  | .test => "Test runner used by test files"
  | .entry => "Comma-separated files treated as entry points"
  | .main => "Comma-separated files treated as main entries"

/-- The flag that an argument writes. -/
def ofArgument? (flags : List Flag) (argument : String) : Option Flag :=
  flags.find? fun flag => flag.long == argument || flag.short? == some argument

end Flag

/-- The forms of the flag that asks for help. -/
def helpFlags : List String := ["-h", "--help"]

/-- A subcommand of the program. -/
inductive Subcommand where
  | rules
  | presets
  deriving DecidableEq, Repr

namespace Subcommand

/-- All subcommands, in the order help lists them. -/
def all : List Subcommand := [.rules, .presets]

/-- The name of a subcommand. -/
def name : Subcommand → String
  | .rules => "rules"
  | .presets => "presets"

/-- What help tells about a subcommand. -/
def description : Subcommand → String
  | .rules => "List every rule"
  | .presets => "List rule presets"

/-- The subcommand of this name. -/
def ofName? (s : String) : Option Subcommand := all.find? fun c => c.name == s

end Subcommand

end PureLint
