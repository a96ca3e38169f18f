import Mathlib.Tactic.FinCases
import PureLint.Rule.Catalog

/-!
# Features that rules note

Only two rules note that a feature is used: the one that guards the features, and the one on throw
statements, which notes no more than the other does at the same place. Only the first is told at the
end which features were noted.
-/

namespace PureLint

namespace Rule

/-- A rule that notes no feature and does not depend on those noted. -/
structure Featureless (rule : Rule) : Prop where
  checks : ∀ entry ∈ rule.checks, ∀ context visit, (entry.2 context visit).uses = []
  finish : ∀ finish ∈ rule.finish, ∀ context used,
    finish context used = finish context [] ∧ (finish context used).uses = []

/-- What only reports notes no feature. -/
theorem uses_of_mem_reporting {kinds : List String} {find : Context → Visit → List Report}
    {entry : String × Check} (h : entry ∈ reporting kinds find) (context : Context)
    (visit : Visit) : (entry.2 context visit).uses = [] := by
  obtain ⟨kind, -, rfl⟩ := List.mem_map.mp h
  rfl

/-- A rule whose checks note no feature, without a final check, is featureless. -/
theorem featureless_of_checks (id description : String) {checks : List (String × Check)}
    (h : ∀ entry ∈ checks, ∀ context visit, (entry.2 context visit).uses = []) :
    Featureless { id, description, checks } := by
  constructor
  · exact h
  · intro finish hfinish
    cases hfinish

/-- A rule of one check that only reports is featureless. -/
theorem featureless_reporting (id description : String) (kinds : List String)
    (find : Context → Visit → List Report) :
    Featureless { id, description, checks := reporting kinds find } := by
  apply featureless_of_checks
  intro entry hentry
  exact uses_of_mem_reporting hentry

/-- A rule of two checks that only report is featureless. -/
theorem featureless_reporting_append (id description : String) (kinds others : List String)
    (find findOther : Context → Visit → List Report) :
    Featureless
      { id, description, checks := reporting kinds find ++ reporting others findOther } := by
  apply featureless_of_checks
  intro entry hentry
  rcases List.mem_append.mp hentry with hentry | hentry
  · exact uses_of_mem_reporting hentry
  · exact uses_of_mem_reporting hentry

/-- A rule that only reports at the end, from what was learnt about the file, is featureless. -/
theorem featureless_reportingAtEnd (id description : String) (find : Survey → List Report) :
    Featureless { id, description, finish := reportingAtEnd find } := by
  constructor
  · intro entry hentry
    cases hentry
  · intro finish hfinish context used
    cases hfinish
    exact ⟨rfl, rfl⟩

/-- An action notes no feature. -/
theorem uses_perform (action : Action) (file : SourceFile) (span : Span) :
    (action.perform file span).uses = [] := by
  cases action <;> rfl

/-- A custom rule is featureless. -/
theorem featureless_custom (id : String) (visits : List (String × Action))
    (finish : Option Action) : (custom id visits finish).Featureless := by
  constructor
  · intro entry hentry context visit
    obtain ⟨⟨kind, action⟩, -, rfl⟩ := List.mem_map.mp hentry
    exact uses_perform action _ _
  · intro check hcheck context used
    obtain ⟨action, -, rfl⟩ := Option.map_eq_some_iff.mp hcheck
    exact ⟨rfl, uses_perform action _ _⟩

/-- All built-in rules but two are featureless. -/
theorem featureless_of_mem_all {rule : Rule} (h : rule ∈ all) :
    rule.Featureless ∨ rule = noThrow ∨ rule = allowDirectives := by
  fin_cases h
  all_goals first
    | exact Or.inl (featureless_reporting _ _ _ _)
    | exact Or.inl (featureless_reporting_append _ _ _ _ _ _)
    | exact Or.inl (featureless_reportingAtEnd _ _ _)
    | exact Or.inr (Or.inl rfl)
    | exact Or.inr (Or.inr rfl)

/-- The rules there are: the built-in ones, and those put together from actions. -/
def Known (rule : Rule) : Prop :=
  rule ∈ all ∨ ∃ id visits finish, rule = custom id visits finish

/-- All rules but two are featureless. -/
theorem Known.cases {rule : Rule} (h : rule.Known) :
    rule.Featureless ∨ rule = noThrow ∨ rule = allowDirectives := by
  rcases h with h | ⟨id, visits, finish, rfl⟩
  · exact featureless_of_mem_all h
  · exact Or.inl (featureless_custom id visits finish)

/-- The guard notes a granted throw. -/
theorem exists_guard_of_throw (context : Context) (visit : Visit) :
    ∃ guard ∈ allowDirectives.checks, guard.1 = "ThrowStatement" ∧
      (guard.2 context visit).uses = if context.file.allows .throws then [.throws] else [] := by
  refine ⟨_, List.mem_of_mem_getLast? rfl, rfl, ?_⟩
  exact apply_ite Outcome.uses _ _ _

/-- A rule that leaves the features to their guard: it is featureless, or one of the two built-in
rules that are not. -/
def Modest (rule : Rule) : Prop :=
  rule.Featureless ∨ rule = noThrow ∨ rule = allowDirectives

/-- All rules there are leave the features to their guard. -/
theorem Known.modest {rule : Rule} (h : rule.Known) : rule.Modest := h.cases

/-- What a check notes, the guard of the features notes at the same place. -/
theorem Modest.exists_guard {rule : Rule} (h : rule.Modest) {entry : String × Check}
    (hentry : entry ∈ rule.checks) {context : Context} {visit : Visit} {feature : Feature}
    (hfeature : feature ∈ (entry.2 context visit).uses) :
    ∃ guard ∈ allowDirectives.checks, guard.1 = entry.1 ∧
      feature ∈ (guard.2 context visit).uses := by
  rcases h with hfeatureless | rfl | rfl
  · rw [hfeatureless.checks entry hentry context visit] at hfeature
    cases hfeature
  · obtain ⟨guard, hguard, hkind, huses⟩ := exists_guard_of_throw context visit
    cases List.mem_singleton.mp hentry
    refine ⟨guard, hguard, hkind, ?_⟩
    rw [huses]
    simp only [apply_ite Outcome.uses] at hfeature
    exact hfeature
  · exact ⟨entry, hentry, rfl, hfeature⟩

/-- A use is noted or reported, and neither fails. -/
theorem failure_outcome (use : FeatureUse) (file : SourceFile) (node : Node) :
    (use.outcome file node).failure = none := by
  unfold FeatureUse.outcome
  split <;> rfl

/-- The checks of uses never fail. -/
theorem failure_guarding (kind : String) (find : Node → Option FeatureUse) (context : Context)
    (visit : Visit) : ((guarding kind find).2 context visit).failure = none := by
  unfold guarding
  simp only
  split
  · exact failure_outcome _ _ _
  · rfl

/-- A final check notes no feature, and all but that of the guard ask for none. -/
theorem Modest.finish {rule : Rule} (h : rule.Modest) {finish : Finish}
    (hfinish : finish ∈ rule.finish) (context : Context) (used : List Feature) :
    (finish context used).uses = [] ∧
      (finish context used = finish context [] ∨ rule = allowDirectives) := by
  rcases h with hfeatureless | rfl | rfl
  · obtain ⟨hsame, huses⟩ := hfeatureless.finish finish hfinish context used
    exact ⟨huses, Or.inl hsame⟩
  · cases hfinish
  · cases hfinish
    exact ⟨rfl, Or.inr rfl⟩

/-- The final check of the guard asks which features were noted, not how often or in which order. -/
theorem finish_guard_congr {finish : Finish} (h : finish ∈ allowDirectives.finish)
    (context : Context) {used others : List Feature}
    (hused : ∀ feature, feature ∈ used ↔ feature ∈ others) :
    finish context used = finish context others := by
  cases h
  have hunused : Feature.unused context.file.granted used =
      Feature.unused context.file.granted others := by
    unfold Feature.unused
    apply List.filter_congr
    intro feature _
    rw [contains_congr (hused feature)]
  simp only [hunused]

end Rule

namespace Policy

/-- The policies there are: the built-in ones, and those put together from actions. -/
def Known (policy : Policy) : Prop := policy ∈ all ∨ ∃ id action, policy = custom id action

/-- A policy that notes no feature. -/
def Featureless (policy : Policy) : Prop :=
  ∀ context program, (policy.check context program).uses = []

end Policy

end PureLint
