import PureLint.Config.Load
import PureLint.Lint
import PureLint.Project.Scan

/-!
# Checking a project

All source files of a project are checked under its configuration. Options given for a run win over
the configuration, field by field.
-/

namespace PureLint

/-- The options that a configuration gives. -/
def Config.options (c : Config) : LintOptions where
  preset := c.preset
  rules := (c.rules.getD []).map fun (id, on) => (id, some on)
  testRunner := c.testRunner.map (·.name)
  entry := c.entry
  main := c.main

/-- A checked file. -/
structure FileResult where
  filePath : String
  source : String
  analysis : Analysis

/-- The number of messages about a file. -/
def FileResult.errorCount (file : FileResult) : Nat :=
  file.analysis.diagnostics.length + file.analysis.parseErrors.length

/-- A checked project. -/
structure ProjectResult where
  files : List FileResult
  warnings : List String

/-- The number of messages about all files. -/
def ProjectResult.errorCount (result : ProjectResult) : Nat :=
  result.files.foldr (fun file count => file.errorCount + count) 0

/-- Whether checking a project reads the file of this path. -/
def isRead (path : String) : Bool :=
  [Config.fileName, Config.packageName, Scan.ignoreFileName].contains path || Scan.isSource path

/-- Why a project is not checked. -/
inductive ProjectError where
  | lint (e : LintError)
  | read (e : ReadError)
  deriving DecidableEq, Repr

/-- The message of the error. -/
def ProjectError.message : ProjectError → String
  | .lint e => e.message
  | .read e => e.message

namespace Directory

/-- The configuration of a project, read with the validator of the program. -/
def loadConfig (d : Directory) : Except ProjectError LoadedConfig :=
  (Config.load .standard d).mapError .read

/-- Checks one file of a project, given what a parser returns for each path. -/
def lintFile (d : Directory) (parser : String → RawParse) (options : LintOptions)
    (path : String) : Except ProjectError FileResult := do
  let source := (d.read? path).getD ""
  let analysis ← (options.lint path source (parser path)).mapError .lint
  return ⟨path, source, analysis⟩

/-- Checks a project under a configuration that is loaded already. -/
def lintUnder (d : Directory) (config : Config) (parser : String → RawParse)
    (options : LintOptions) : Except ProjectError ProjectResult := do
  let paths ← (Scan.attempt d config).mapError .read
  let files ← paths.mapM (d.lintFile parser (options.orElse config.options))
  return ⟨files, files.flatMap (·.analysis.warnings)⟩

/-- Checks a project under its own configuration. -/
def lint (d : Directory) (parser : String → RawParse) (options : LintOptions) :
    Except ProjectError ProjectResult := do
  let loaded ← d.loadConfig
  let result ← d.lintUnder loaded.config parser options
  return { result with warnings := loaded.warnings ++ result.warnings }

end Directory

end PureLint
