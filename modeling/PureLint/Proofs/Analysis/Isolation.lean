import PureLint.Proofs.Analysis.Runs
import PureLint.Proofs.Rule.Feature
import PureLint.Proofs.Tree.Contents

/-!
# Rules do not disturb each other

All rules and policies share one walk, one sink, the features noted and the names that have failed.
Still each reports what it would report alone, as long as no other goes by its name. The one place
where rules could meet are the features noted: the guard of the features is told of them at the end,
and the rule on throw statements notes some. But it notes nothing that the guard does not note.
-/

namespace PureLint

open Rule (allowDirectives)

/-- What a check can look at once the walk is over. -/
def Context.final (file : SourceFile) (program : Node) : Context :=
  ⟨file, (Survey.ofProgram program).run program.events⟩

section

variable {rules : List Rule} {policies : List Policy} {file : SourceFile} {program : Node}

namespace Call

/-- The checks due before the final ones. -/
def beforeFinish (rules : List Rule) (policies : List Policy) (file : SourceFile)
    (program : Node) : List Call :=
  ofWalk (.ofRules rules) file ((Survey.ofProgram program).stages program.events) ++
    ofPolicies policies (Context.final file program) program

/-- All checks are those before the final ones, and these. -/
theorem all_eq (rules : List Rule) (policies : List Policy) (file : SourceFile) (program : Node) :
    all rules policies file program =
      beforeFinish rules policies file program ++ ofFinishes rules (Context.final file program) :=
  rfl

/-- The checks before the final ones under some names are those due for the rules and policies of
the names alone. -/
theorem filter_id_beforeFinish (rules : List Rule) (policies : List Policy) (file : SourceFile)
    (p : String → Bool) (program : Node) :
    (beforeFinish rules policies file program).filter (fun due => p due.id) =
      beforeFinish (rules.filter fun rule => p rule.id) (policies.filter fun policy => p policy.id)
        file program := by
  simp only [beforeFinish, List.filter_append, filter_id_ofWalk, filter_id_ofPolicies]

/-- A check during the walk comes to the same whatever was noted. -/
theorem steady_of_mem_ofWalk {stages : List (Visit × Survey)} {due : Call}
    (h : due ∈ ofWalk (.ofRules rules) file stages) : due.Steady := by
  obtain ⟨stage, -, rule, -, entry, -, -, rfl⟩ := (mem_ofWalk rules file).mp h
  intro used
  rfl

/-- A policy comes to the same whatever was noted. -/
theorem steady_of_mem_ofPolicies {context : Context} {due : Call}
    (h : due ∈ ofPolicies policies context program) : due.Steady := by
  obtain ⟨policy, -, rfl⟩ := List.mem_map.mp h
  intro used
  rfl

/-- A check before the final ones comes to the same whatever was noted. -/
theorem steady_of_mem_beforeFinish {due : Call}
    (h : due ∈ beforeFinish rules policies file program) : due.Steady := by
  rcases List.mem_append.mp h with h | h
  · exact steady_of_mem_ofWalk h
  · exact steady_of_mem_ofPolicies h

/-- Final checks note no feature. -/
theorem uses_ofFinishes (hrules : ∀ rule ∈ rules, rule.Modest) (context : Context) :
    ∀ due ∈ ofFinishes rules context, ∀ used, (due.run used).uses = [] := by
  intro due hdue used
  obtain ⟨rule, hrule, finish, hfinish, rfl⟩ := mem_ofFinishes.mp hdue
  exact ((hrules rule hrule).finish hfinish context used).1

/-- What any check notes before the final ones, the guard notes too. -/
theorem exists_guard_of_mem_beforeFinish (hrules : ∀ rule ∈ rules, rule.Modest)
    (hpolicies : ∀ policy ∈ policies, policy.Featureless) (hguard : allowDirectives ∈ rules)
    {due : Call} (h : due ∈ beforeFinish rules policies file program) {feature : Feature}
    (hfeature : feature ∈ due.uses) :
    ∃ own ∈ beforeFinish rules policies file program,
      own.id = allowDirectives.id ∧ feature ∈ own.uses := by
  rcases List.mem_append.mp h with h | h
  · obtain ⟨stage, hstage, rule, hrule, entry, hentry, hkind, rfl⟩ := (mem_ofWalk rules file).mp h
    obtain ⟨guard, hmem, hsame, hnotes⟩ := (hrules rule hrule).exists_guard hentry hfeature
    rw [← hsame] at hkind
    have hdue : ofCheck file allowDirectives guard stage.1 stage.2 ∈
        ofWalk (.ofRules rules) file ((Survey.ofProgram program).stages program.events) :=
      (mem_ofWalk rules file).mpr ⟨stage, hstage, _, hguard, guard, hmem, hkind, rfl⟩
    exact ⟨_, List.mem_append_left _ hdue, rfl, hnotes⟩
  · obtain ⟨policy, hpolicy, rfl⟩ := List.mem_map.mp h
    have huses := hpolicies policy hpolicy (Context.final file program) program
    rw [uses, huses] at hfeature
    cases hfeature

end Call

namespace Session

/-- Where the guard has not failed before the final checks, the features noted are those of its own
checks. -/
theorem mem_used_beforeFinish (hrules : ∀ rule ∈ rules, rule.Modest)
    (hpolicies : ∀ policy ∈ policies, policy.Featureless) (hguard : allowDirectives ∈ rules)
    {s : Session} (feature : Feature) :
    let calls := Call.beforeFinish rules policies file program
    allowDirectives.id ∉ (calls.foldl call s).failed →
      (feature ∈ (calls.foldl call s).used ↔ feature ∈ s.used ∨
        ∃ own ∈ calls, own.id = allowDirectives.id ∧ feature ∈ own.uses) := by
  intro calls hfailed
  apply mem_used_foldl _ hfailed
  · intro due hdue hfeature
    exact Call.exists_guard_of_mem_beforeFinish hrules hpolicies hguard hdue hfeature
  · intro due hdue
    exact Call.steady_of_mem_beforeFinish hdue

/-- A final check comes to the same after two runs if the rules leave the features to their guard
and the guard is told of the same ones. -/
theorem run_ofFinishes_congr (hmodest : ∀ rule ∈ rules, rule.Modest) {context : Context}
    {before others : List Call} {due : Call} {s t : Session}
    (hpart : before ++ [due] <+: Call.ofFinishes rules context) (hothers : others ⊆ before)
    (hguard : allowDirectives ∈ rules → due.id = allowDirectives.id →
      ∀ feature, feature ∈ s.used ↔ feature ∈ t.used) :
    due.run (before.foldl call s).used = due.run (others.foldl call t).used := by
  -- the final checks before this one noted nothing, so it is told what was noted before them all
  have hquiet : ∀ other ∈ before, ∀ used, (other.run used).uses = [] := by
    intro other hother
    exact Call.uses_ofFinishes hmodest _ other (hpart.subset (List.mem_append_left _ hother))
  rw [used_foldl_of_uses_nil hquiet,
    used_foldl_of_uses_nil fun other hother => hquiet other (hothers hother)]
  have hdue : due ∈ Call.ofFinishes rules context :=
    hpart.subset (List.mem_append_right _ List.mem_cons_self)
  obtain ⟨rule, hrule, finish, hfinish, rfl⟩ := Call.mem_ofFinishes.mp hdue
  by_cases hown : rule = allowDirectives
  · subst hown
    exact Rule.finish_guard_congr hfinish _ (hguard hrule rfl)
  · have hconstant (used : List Feature) : finish context used = finish context [] :=
      ((hmodest rule hrule).finish hfinish _ used).2.resolve_right hown
    exact (hconstant _).trans (hconstant _).symm

end Session

end

namespace AnalysisOptions

variable (o : AnalysisOptions) (program : Node) (comments : List Comment)

end AnalysisOptions

end PureLint
