import PureLint.Proofs.Survey.Tables

/-!
# Arrays

What makes a name that of an array, what changes the array, and what says that it is read-only. The
walk notes all three wherever it finds them, and what is known at its end does not depend on which
came first.
-/

namespace PureLint

namespace Node

/-- A declarator that gives a variable its plain name, by the given identifier. -/
structure IsVariable (declarator id : Node) (name : String) : Prop where
  kind : declarator.kind = "VariableDeclarator"
  child : declarator.child "id" = some id
  name : id.name? = some name

/-- The ways in which a node changes the array of a name: it calls one of the methods that change
arrays, or assigns to a computed member. The array is seen through parentheses. -/
inductive ChangesArray (n : Node) (name : String) : Prop
  | called {object : Node} {method : String} :
    n.kind = "CallExpression" → n.calleeMember = some ⟨object, some name, method⟩ →
      method ∈ Names.mutatingMethods → ChangesArray n name
  | assigned {left object : Node} :
    n.kind = "AssignmentExpression" → n.child "left" = some left →
      left.kind = "MemberExpression" → left.flag "computed" = true →
      left.child "object" = some object → object.unparenthesized.name? = some name →
      ChangesArray n name

end Node

namespace Names

variable {n : Node} {noted : Note} {name : String} {span : Span}

/-- A declarator makes the notes of its variable. -/
theorem notesAt_declarator (hkind : n.kind = "VariableDeclarator") :
    notesAt n = declaratorNotes n := by
  simp [notesAt, hkind]

/-- A declarator notes what stands at the variable that it names, if it names one. -/
theorem mem_declaratorNotes_iff (hkind : n.kind = "VariableDeclarator") :
    noted ∈ declaratorNotes n ↔ ∃ id name, n.IsVariable id name ∧
      (noted = ⟨.declared, name, n.span⟩ ∨ noted ∈ annotationNotes name n.span id.annotatedType ∨
        noted ∈ initNotes n name id.annotatedType) := by
  rw [declaratorNotes]
  constructor
  · intro h
    split at h
    · cases h
    · rename_i id hid
      split at h
      · cases h
      · rename_i name hname
        rw [List.mem_cons, List.mem_append] at h
        exact ⟨id, name, ⟨hkind, hid, hname⟩, h⟩
  · rintro ⟨id, name, hvariable, h⟩
    simp only [hvariable.child, hvariable.name, List.mem_cons, List.mem_append]
    exact h

/-- No array type is a read-only type. -/
theorem not_isReadonlyArrayType {type : Node} (h : isArrayType type = true) :
    ¬isReadonlyArrayType type = true := by
  unfold isArrayType isReadonlyArrayType Node.typeName? at *
  by_cases hkind : type.kind = "TSTypeReference"
  · simp only [hkind, if_true, Bool.or_eq_true, Bool.and_eq_true, beq_iff_eq] at h ⊢
    simp_all
  · simp_all

/-- What is noted for a written type: an array for an array type, and a read-only array for a
read-only type. -/
theorem mem_annotationNotes_iff {type : Option Node} :
    noted ∈ annotationNotes name span type ↔ ∃ written, type = some written ∧
      (isArrayType written = true ∧ noted = ⟨.arrays, name, span⟩ ∨
        isReadonlyArrayType written = true ∧ noted = ⟨.readonlyArrays, name, span⟩) := by
  cases type with
  | none => simp [annotationNotes]
  | some written =>
    rw [annotationNotes]
    split
    · rename_i harray
      simp [harray, not_isReadonlyArrayType harray]
    · split <;> simp [*]

/-- A name is noted for its initial value where this is an array. -/
theorem mem_initNotes_iff {type : Option Node} {other : String} :
    noted ∈ initNotes n other type ↔ ∃ init, n.child "init" = some init ∧
      isArrayInit type init.unparenthesized = true ∧ noted = ⟨.arrays, other, n.span⟩ := by
  unfold initNotes
  split
  · split <;> simp [*]
  · simp [*]

/-- Which tables a node notes names in, by its kind. -/
theorem cases_of_mem_notesAt (h : noted ∈ notesAt n) :
    (n.kind = "FunctionDeclaration" ∨ n.kind = "FunctionExpression") ∧ noted.table = .declared ∨
      n.kind = "ImportDeclaration" ∧ noted.table = .imported ∨
      n.kind = "VariableDeclarator" ∧ noted ∈ declaratorNotes n ∨
      n.kind = "CallExpression" ∧ noted ∈ callNotes n ∨
      n.kind = "AssignmentExpression" ∧ noted ∈ assignmentNotes n := by
  have hparameters {declares : Bool}
      (h : noted ∈ (n.children "params").flatMap (parameterNotes declares)) :
      declares = true ∧ noted.table = .declared := by
    obtain ⟨param, -, h⟩ := List.mem_flatMap.mp h
    unfold parameterNotes at h
    split at h
    · rename_i hdeclares
      split at h
      · cases List.mem_singleton.mp h
        exact ⟨hdeclares, rfl⟩
      · cases h
    · cases h
  unfold notesAt at h
  split at h
  case h_1 hkind => exact Or.inl ⟨Or.inl hkind, (hparameters h).2⟩
  case h_2 hkind => exact Or.inl ⟨Or.inr hkind, (hparameters h).2⟩
  case h_3 hkind =>
    have hdeclares := (hparameters h).1
    rw [hkind] at hdeclares
    cases hdeclares
  case h_4 hkind => exact Or.inr (Or.inr (Or.inl ⟨hkind, h⟩))
  case h_5 hkind =>
    obtain ⟨specifier, -, h⟩ := List.mem_flatMap.mp h
    unfold importNotes at h
    split at h
    · cases List.mem_singleton.mp h
      exact Or.inr (Or.inl ⟨hkind, rfl⟩)
    · cases h
  case h_6 hkind => exact Or.inr (Or.inr (Or.inr (Or.inl ⟨hkind, h⟩)))
  case h_7 hkind => exact Or.inr (Or.inr (Or.inr (Or.inr ⟨hkind, h⟩)))
  case h_8 => cases h

/-- What a call notes is a changed array. -/
theorem mem_callNotes_iff :
    noted ∈ callNotes n ↔ ∃ object name method, n.calleeMember = some ⟨object, some name, method⟩ ∧
      method ∈ mutatingMethods ∧ noted = ⟨.mutated, name, n.span⟩ := by
  unfold callNotes
  split
  · rename_i object name method hmember
    rw [hmember]
    split
    · rename_i hmethod
      simp [List.contains_iff_mem.mp hmethod]
    · rename_i hmethod
      simp [mt List.contains_iff_mem.mpr hmethod]
  · rename_i hother
    constructor
    · intro h
      cases h
    · rintro ⟨object, name, method, hmember, -⟩
      exact absurd hmember (hother object name method)

/-- The name whose computed member an assignment sets is that of an identifier. -/
theorem assignedIndexOf_eq_some_iff :
    assignedIndexOf n = some name ↔ ∃ left object, n.child "left" = some left ∧
      left.kind = "MemberExpression" ∧ left.flag "computed" = true ∧
      left.child "object" = some object ∧ object.unparenthesized.name? = some name := by
  unfold assignedIndexOf
  cases n.child "left" with
  | none => simp
  | some left =>
    by_cases hcomputed : left.kind = "MemberExpression" ∧ left.flag "computed" = true
    · cases hobject : left.child "object" <;> simp [hcomputed, hobject]
    · simp only [Option.bind_eq_bind, Option.bind_some, Bool.and_eq_true, decide_eq_true_eq,
        if_neg hcomputed, reduceCtorEq, Option.some.injEq, false_iff]
      rintro ⟨_, object, rfl, hkind, hflag, -⟩
      exact hcomputed ⟨hkind, hflag⟩

/-- What an assignment notes is a changed array. -/
theorem mem_assignmentNotes_iff :
    noted ∈ assignmentNotes n ↔
      ∃ name, assignedIndexOf n = some name ∧ noted = ⟨.mutated, name, n.span⟩ := by
  unfold assignmentNotes
  cases assignedIndexOf n <;> simp

end Names

end PureLint
