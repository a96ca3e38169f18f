import PureLint.Proofs.Analysis.Calls
import PureLint.Proofs.Tree.Callee
import PureLint.Rule.Effect
import PureLint.Rule.Grant

/-!
# Uses of features

A visited node makes one use of a feature at most. The guard looks at it under the kind of the node,
or as a reference, and either notes the use or reports it.
-/

namespace PureLint

open Rule (FeatureUse allowDirectives callUse? nameUse? guarding)

namespace Survey

/-- The name that a node reads as a value or refers to as a type, with what messages call that and
the names of the page that count there. -/
inductive Reads (survey : Survey) (visit : Visit) : String → List String → String → Prop
  | value {name : String} :
    survey.reference? visit = some .value → visit.node.name? = some name →
      Reads survey visit "Access to" Rule.pageGlobals name
  | type {name : String} :
    visit.node.typeName? = some name → Reads survey visit "Type" Rule.pageTypes name

end Survey

variable {survey : Survey} {visit : Visit} {file : SourceFile} {feature : Feature}
  {subject : String}

/-! ## One use at most -/

namespace Rule

end Rule

namespace Survey

end Survey

/-- What the checks of a rule at a visit come to, kind by kind. -/
theorem Rule.flatMap_atVisit {α : Type} (rule : Rule) (answer : Outcome → List α) :
    ((Call.atVisit (.ofRules [rule]) file visit survey).flatMap fun due => answer (due.run [])) =
      (survey.kindsAt visit).flatMap fun kind =>
        (rule.checks.filter fun entry => entry.1 == kind).flatMap fun entry =>
          answer (entry.2 ⟨file, survey⟩ visit) := by
  rw [Call.atVisit_eq, List.flatMap_assoc]
  simp only [Call.atKind_ofRules, Call.ofCheck, List.flatMap_singleton, List.flatMap_map]

/-! ## What the guard makes of a use -/

namespace Rule

variable {α : Type} (answer : Outcome → List α) (hnothing : answer {} = [])

include hnothing

end Rule

/-! ## Timers as side effects -/

end PureLint
