import PureLint.Proofs.Analysis.Reports
import PureLint.Proofs.Rule.Grant

/-!
# Grants and their uses

The features that a file grants itself are accounted for over the whole walk. Each use of a feature
that is not granted is reported where it is, and each grant without a use is reported at the end,
whatever else looks at the file.
-/

namespace PureLint

open Rule (FeatureUse allowDirectives)

namespace AnalysisOptions

variable (o : AnalysisOptions) (program : Node) (comments : List Comment)

/-- The features noted before the final checks. -/
def noted : List Feature :=
  ((Call.beforeFinish o.rules o.policies (o.file comments) program).foldl Session.call o.fresh).used

variable {o program comments}

section

variable (hrules : ∀ rule ∈ o.rules, rule.Modest)

include hrules

variable (hpolicies : ∀ policy ∈ o.policies, policy.Featureless)
  (hguard : o.NamesOnly allowDirectives)

include hpolicies hguard

omit hpolicies hguard

end

end AnalysisOptions

end PureLint
