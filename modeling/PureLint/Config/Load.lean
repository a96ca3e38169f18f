import PureLint.Config.Basic
import PureLint.Json.Parser
import PureLint.Project.Directory

/-!
# Loading a configuration

The configuration of a project is its own file, or else a section of its package file. A text that
cannot be used is told in one warning, and then nothing of it is used.
-/

namespace PureLint

/-- A loaded configuration, and what was warned of. -/
structure LoadedConfig where
  config : Config := {}
  warnings : List String := []

namespace Config

/-- The name of the configuration file. -/
def fileName : String := "purets.config.json"

/-- The name of the package file. -/
def packageName : String := "package.json"

/-- The field of the package file that holds the configuration. -/
def sectionName : String := "purets"

/-- The warning about a configuration with issues. -/
def issueWarning (source : String) (issues : List Issue) : String :=
  let told := "; ".intercalate (issues.map Issue.text)
  s!"Warning: Invalid configuration in {source}: {told}"

/-- The warning about a file that does not spell a value. -/
def parseWarning (source : String) : String :=
  s!"Warning: Failed to parse {source}: the text is not valid JSON"

section Load

variable (v : Validator)

/-- Takes over a value as the configuration. -/
def accept (source : String) (value : Json) : LoadedConfig :=
  match read v (some value) with
  | .ok config => { config := config }
  | .error issues => { warnings := [issueWarning source issues] }

/-- The section for the configuration in what stands in the package file, if there is one. -/
def packageSection? (whole : Json) : Option Json :=
  let read := v.object fun path fields => readField path fields sectionName fun _ value => .ok value
  match read [] whole with
  | .ok part => part
  | .error _ => none

/-- The configuration in the text of the configuration file. -/
def ofFile (text : String) : LoadedConfig :=
  match Json.parse? text.toList with
  | some value => accept v fileName value
  | none => { warnings := [parseWarning fileName] }

/-- The configuration in the text of the package file, empty if that has no section for it. -/
def ofPackage (text : String) : LoadedConfig :=
  match Json.parse? text.toList with
  | some whole =>
    match packageSection? v whole with
    | some part => accept v packageName part
    | none => {}
  | none => { warnings := [parseWarning packageName] }

/-- The configuration of a project. Its texts are read before anything is made of them, and what
cannot be read is an error. -/
def load (d : Directory) : Except ReadError LoadedConfig := do
  match ← d.read fileName with
  | some text => return ofFile v text
  | none =>
    match ← d.read packageName with
    | some text => return ofPackage v text
    | none => return {}

end Load

end Config

end PureLint
