import Mathlib.Logic.Relation
import PureLint.Tree.Binding

/-!
# What a pattern is made of

A pattern binds the identifiers that it is made of, through properties, elements, defaults, rests
and constructor properties, at any depth.
-/

namespace PureLint.Node

/-- The patterns that wrap another one, each with the field that holds it. -/
def wrapperFields : List (String × String) :=
  [("AssignmentPattern", "left"), ("RestElement", "argument"), ("TSParameterProperty", "parameter")]

/-- One step into a pattern, to a pattern that it is made of. -/
inductive PatternStep : Node → Node → Prop
  | property {pattern property inner : Node} : pattern.kind = "ObjectPattern" →
    property ∈ pattern.children "properties" →
      property.child property.bindingField = some inner → PatternStep pattern inner
  | element {pattern inner : Node} : pattern.kind = "ArrayPattern" →
    inner ∈ pattern.children "elements" → PatternStep pattern inner
  | wrapped {pattern inner : Node} {key : String} : (pattern.kind, key) ∈ wrapperFields →
    pattern.child key = some inner → PatternStep pattern inner

/-- What the inner pattern binds, the outer one binds. -/
theorem PatternStep.boundIdentifiers_subset {pattern inner : Node} (h : PatternStep pattern inner) :
    inner.boundIdentifiers ⊆ pattern.boundIdentifiers := by
  intro identifier hidentifier
  rw [boundIdentifiers]
  cases h with
  | property hkind hproperty hinner =>
    rename_i property
    simp only [hkind, reduceIte, String.reduceEq]
    refine List.mem_flatMap.mpr ⟨⟨property, hproperty⟩, List.mem_attach _ _, ?_⟩
    simp only
    split
    · rename_i other hother
      cases hinner.symm.trans hother
      exact hidentifier
    · rename_i hnone
      cases hinner.symm.trans hnone
  | element hkind hinner =>
    simp only [hkind, reduceIte, String.reduceEq]
    exact List.mem_flatMap.mpr ⟨⟨inner, hinner⟩, List.mem_attach _ _, hidentifier⟩
  | wrapped hkind hinner =>
    simp only [wrapperFields, List.mem_cons, Prod.mk.injEq, List.not_mem_nil, or_false] at hkind
    rcases hkind with ⟨hkind, rfl⟩ | ⟨hkind, rfl⟩ | ⟨hkind, rfl⟩
    all_goals
      simp only [hkind, reduceIte, String.reduceEq]
      split
      · rename_i other hother
        cases hinner.symm.trans hother
        exact hidentifier
      · rename_i hnone
        cases hinner.symm.trans hnone

/-- What a pattern binds is an identifier that steps into the pattern lead to. -/
theorem steps_of_mem_boundIdentifiers {pattern identifier : Node}
    (h : identifier ∈ pattern.boundIdentifiers) :
    identifier.kind = "Identifier" ∧ Relation.ReflTransGen PatternStep pattern identifier := by
  induction pattern using boundIdentifiers.induct with
  | case1 pattern hkind =>
    rw [boundIdentifiers, if_pos hkind] at h
    cases List.mem_singleton.mp h
    exact ⟨hkind, .refl⟩
  | case2 pattern _ hkind ih =>
    rw [boundIdentifiers] at h
    simp only [hkind, reduceIte, String.reduceEq] at h
    obtain ⟨⟨property, hproperty⟩, -, h⟩ := List.mem_flatMap.mp h
    simp only at h
    split at h
    · rename_i inner hinner
      obtain ⟨hidentifier, hsteps⟩ := ih property hproperty inner hinner h
      exact ⟨hidentifier, hsteps.head (.property hkind hproperty hinner)⟩
    · cases h
  | case3 pattern _ _ hkind ih =>
    rw [boundIdentifiers] at h
    simp only [hkind, reduceIte, String.reduceEq] at h
    obtain ⟨⟨element, helement⟩, -, h⟩ := List.mem_flatMap.mp h
    obtain ⟨hidentifier, hsteps⟩ := ih element helement h
    exact ⟨hidentifier, hsteps.head (.element hkind helement)⟩
  | case4 pattern _ _ _ hkind inner hinner ih
  | case6 pattern _ _ _ _ hkind inner hinner ih
  | case8 pattern _ _ _ _ _ hkind inner hinner ih =>
    rw [boundIdentifiers] at h
    simp only [hkind, reduceIte, String.reduceEq] at h
    split at h
    · rename_i other hother
      cases hinner.symm.trans hother
      obtain ⟨hidentifier, hsteps⟩ := ih h
      exact ⟨hidentifier, hsteps.head (.wrapped (by rw [hkind]; decide) hinner)⟩
    · cases h
  | case5 pattern _ _ _ hkind hnone
  | case7 pattern _ _ _ _ hkind hnone
  | case9 pattern _ _ _ _ _ hkind hnone =>
    rw [boundIdentifiers] at h
    simp only [hkind, reduceIte, String.reduceEq] at h
    split at h
    · rename_i other hother
      cases hnone.symm.trans hother
    · cases h
  | case10 pattern h1 h2 h3 h4 h5 h6 =>
    rw [boundIdentifiers, if_neg h1, if_neg h2, if_neg h3, if_neg h4, if_neg h5, if_neg h6] at h
    cases h

/-- A pattern binds just the identifiers that steps into it lead to. -/
theorem mem_boundIdentifiers_iff {pattern identifier : Node} :
    identifier ∈ pattern.boundIdentifiers ↔
      identifier.kind = "Identifier" ∧ Relation.ReflTransGen PatternStep pattern identifier := by
  refine ⟨steps_of_mem_boundIdentifiers, ?_⟩
  rintro ⟨hkind, hsteps⟩
  induction hsteps using Relation.ReflTransGen.head_induction_on with
  | refl =>
    rw [boundIdentifiers, if_pos hkind]
    exact List.mem_singleton_self _
  | head hstep _ ih => exact hstep.boundIdentifiers_subset ih

end PureLint.Node
