import PureLint.Rule.Catalog

/-!
# Presets

Named selections of rules. A choice made for one rule wins over the preset, and a rule that the
preset does not mention is off.
-/

namespace PureLint

/-- A preset: the rules it switches on and those it switches off, the latter winning. -/
structure Preset where
  name : String
  description : String
  enabled : List String
  disabled : List String := []

namespace Preset

/-- All rules. -/
def strict : Preset where
  name := "strict"
  description := "All rules enabled for maximum strictness"
  enabled := ruleIds

/-- A few rules to start with. -/
def relaxed : Preset where
  name := "relaxed"
  description := "Relaxed rules for gradual migration"
  enabled :=
    ["no-eval-function", "no-delete", "no-unused-variables", "catch-error-handling",
     "no-http-imports", "forbidden-libraries"]
  disabled :=
    ["no-classes", "no-throw", "strict-named-export", "export-requires-jsdoc",
     "no-top-level-side-effects"]

/-- The rules of a functional style. -/
def functional : Preset where
  name := "functional"
  description := "Functional programming style enforcement"
  enabled :=
    ["no-classes", "no-this-in-functions", "no-foreach", "no-do-while", "no-delete",
     "no-member-assignments", "no-object-assign", "prefer-readonly-array", "no-mutable-record",
     "no-side-effect-functions", "path-based-restrictions", "let-requires-type",
     "empty-array-requires-type"]
  disabled := ["strict-named-export"]

/-- The rules for a library. -/
def library : Preset where
  name := "library"
  description := "Rules optimized for library development"
  enabled :=
    ["export-requires-jsdoc", "jsdoc-param-match", "no-unused-variables", "no-as-cast",
     "let-requires-type", "prefer-readonly-array", "no-reexports", "no-top-level-side-effects",
     "no-side-effect-functions"]
  disabled := ["no-classes", "strict-named-export", "max-function-params"]

/-- The rules for test files. -/
def test : Preset where
  name := "test"
  description := "Rules for test files"
  enabled := ["no-unused-variables", "catch-error-handling", "import-extensions"]
  disabled :=
    ["no-top-level-side-effects", "export-requires-jsdoc", "no-throw", "max-function-params"]

/-- All presets, in the order they are listed. -/
def all : List Preset := [strict, relaxed, functional, library, test]

/-- The names of the presets. -/
def names : List String := all.map (·.name)

/-- The preset of this name. -/
def ofName? (name : String) : Option Preset := all.find? fun preset => preset.name == name

/-- Whether a preset has a rule on or off, `none` if it does not mention the rule. -/
def mentions? (preset : Preset) (rule : String) : Option Bool :=
  if preset.disabled.contains rule then some false
  else if preset.enabled.contains rule then some true
  else none

end Preset

/-- Choices for single rules. An entry can be left blank, which is a choice too: the rule is off,
whatever the preset has. -/
abbrev RuleChoices := List (String × Option Bool)

/-- A preset by name, strict if none is given, and the choices made for single rules. -/
structure Selection where
  preset : Option String := none
  rules : RuleChoices := []

namespace Selection

/-- The way in which a selection can be wrong. -/
inductive Error where
  /-- There is no preset of this name. -/
  | unknownPreset (name : String)
  deriving DecidableEq, Repr

/-- The preset that a selection names. -/
def preset? (s : Selection) : Except Error Preset :=
  let name := s.preset.getD "strict"
  match Preset.ofName? name with
  | some preset => .ok preset
  | none => .error (.unknownPreset name)

/-- What a selection has for a rule, `none` for a blank choice. The preset is looked up only for a
rule for which no choice is made. -/
def choice (s : Selection) (rule : String) : Except Error (Option Bool) :=
  if rule = Sink.unseenRule then .ok (some true)
  else
    match s.rules.lookup rule with
    | some choice => .ok choice
    | none => do return some (((← s.preset?).mentions? rule).getD false)

/-- Whether a rule is on. -/
def isOn (s : Selection) (rule : String) : Except Error Bool := do
  return (← s.choice rule).getD false

/-- The built-in rules that are on. -/
def selectedRules (s : Selection) : Except Error (List Rule) :=
  Rule.all.filterM fun r => s.isOn r.id

/-- The built-in policies that are on. -/
def selectedPolicies (s : Selection) : Except Error (List Policy) :=
  Policy.all.filterM fun p => s.isOn p.id

end Selection

/-- How to check a file. Everything may be left open. -/
structure LintOptions where
  preset : Option String := none
  rules : RuleChoices := []
  /-- A test runner by name. A name that is none counts as no test runner. -/
  testRunner : Option String := none
  entry : Option (List String) := none
  main : Option (List String) := none

namespace LintOptions

/-- The selection of rules. -/
def selection (o : LintOptions) : Selection := ⟨o.preset, o.rules⟩

/-- The test runner. -/
def runner (o : LintOptions) : Option TestRunner := o.testRunner.bind TestRunner.ofName?

/-- The further entry paths. -/
def entries (o : LintOptions) : EntryPaths := ⟨o.entry.getD [], o.main.getD []⟩

/-- The options with what they leave open taken from others. Choices for rules are made one by
one. -/
def orElse (o base : LintOptions) : LintOptions where
  preset := o.preset.or base.preset
  rules := o.rules ++ base.rules
  testRunner := o.testRunner.or base.testRunner
  entry := o.entry.or base.entry
  main := o.main.or base.main

end LintOptions

end PureLint
