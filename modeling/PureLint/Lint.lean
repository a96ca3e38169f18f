import PureLint.Parse
import PureLint.Preset

/-!
# Checking one file

A file is checked with the selected rules and policies, under the traits of its path.
-/

namespace PureLint

/-- The message of the error about an unknown preset. -/
def Selection.Error.message (_ : Selection.Error) : String :=
  "Cannot read properties of undefined (reading 'disabledRules')"

/-- Why a file is not checked. -/
inductive LintError where
  | selection (e : Selection.Error)
  | breakdown (b : Breakdown)
  deriving DecidableEq, Repr

/-- The message of the error. -/
def LintError.message : LintError → String
  | .selection e => e.message
  | .breakdown b => b.message

/-- Checks a file. An unknown preset is an error if the selection of some rule hangs on it. -/
def LintOptions.lint (o : LintOptions) (filePath source : String) (raw : RawParse) :
    Except LintError Analysis := do
  let rules ← o.selection.selectedRules.mapError .selection
  let policies ← o.selection.selectedPolicies.mapError .selection
  let analysis : AnalysisOptions :=
    { filePath := filePath
      source := source
      traits := Path.classify filePath o.entries
      runner := o.runner
      rules := rules
      policies := policies }
  (analysis.analyze raw).mapError .breakdown

end PureLint
