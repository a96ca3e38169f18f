import PureLint.Proofs.Survey.ExportedVariables
import PureLint.Proofs.Survey.Unread
import PureLint.Proofs.Tree.Renaming

/-!
# Names of a file and names in its markup

Which names a file declares, imports, reads and exports is told by identifiers, and a name in markup
is none. So all of them are the same however the names in the markup of the file are changed.
-/

namespace PureLint

variable {f : String → String} {name : String}

namespace Node

variable {n : Node}

/-- A changed node brings in the same names. -/
theorem importedNames_renameMarkup : (n.renameMarkup f).importedNames = n.importedNames := by
  simp [importedNames, List.filterMap_map]

/-- A changed node declares the same names, by the changed nodes. -/
theorem declarations_renameMarkup :
    (n.renameMarkup f).declarations =
      n.declarations.map fun (name, declared) => (name, declared.renameMarkup f) := by
  unfold declarations
  rw [kind_renameMarkup]
  split
  · rw [nameAt_renameMarkup]
    cases n.nameAt "id" <;> rfl
  · simp [List.filterMap_map, List.map_filterMap, Function.comp_def]
  · simp [List.filterMap_map, List.map_filterMap, Function.comp_def]
  · rfl

/-- A changed node binds the changed identifiers. -/
theorem boundAt_renameMarkup :
    Names.boundAt (n.renameMarkup f) = (Names.boundAt n).map (·.renameMarkup f) := by
  unfold Names.boundAt
  rw [kind_renameMarkup]
  split
  case h_6 =>
    rw [child_renameMarkup, Option.isSome_map]
    split
    · simp [List.filterMap_map, List.map_filterMap]
    · rfl
  all_goals simp [List.flatMap_map, List.map_flatMap]

end Node

/-- A changed identifier stands where it stood. -/
theorem Visit.reference?_renameMarkup (bindings : List Nat) (visit : Visit) :
    (visit.renameMarkup f).reference? bindings = visit.reference? bindings := by
  obtain ⟨node, parent, key⟩ := visit
  cases parent with
  | none => rfl
  | some parent =>
    have hfield (key : String) : Reference.inField? (parent.renameMarkup f) key =
        Reference.inField? parent key := by
      unfold Reference.inField? Reference.readAs
      rw [Node.kind_renameMarkup, Node.flag_renameMarkup]
    cases key <;> simp [reference?, renameMarkup, hfield]

/-- A changed tree reads the same names. -/
theorem Node.reads_renameMarkup_iff {root : Node} :
    (root.renameMarkup f).Reads name ↔ root.Reads name := by
  have hsame (before : List Visit) (visit : Visit) :
      ((visit.renameMarkup f).node.name? = some name ∧
        (∀ earlier ∈ before.map (·.renameMarkup f), ∀ bound ∈ Names.boundAt earlier.node,
          bound.id ≠ (visit.renameMarkup f).node.id) ∧
        ((visit.renameMarkup f).reference? []).isSome = true) ↔
      visit.node.name? = some name ∧
        (∀ earlier ∈ before, ∀ bound ∈ Names.boundAt earlier.node, bound.id ≠ visit.node.id) ∧
        (visit.reference? []).isSome = true := by
    rw [Visit.reference?_renameMarkup]
    simp [Visit.renameMarkup, boundAt_renameMarkup]
  constructor
  · rintro ⟨before, visit, after, hvisits, hread⟩
    rw [visits_renameMarkup, List.map_eq_append_iff] at hvisits
    obtain ⟨before, rest, hvisits, rfl, hrest⟩ := hvisits
    obtain ⟨visit, after, rfl, rfl, rfl⟩ := List.map_eq_cons_iff.mp hrest
    exact ⟨before, visit, after, hvisits, (hsame before visit).mp hread⟩
  · rintro ⟨before, visit, after, hvisits, hread⟩
    refine ⟨_, _, after.map (·.renameMarkup f), ?_, (hsame before visit).mpr hread⟩
    rw [visits_renameMarkup, hvisits, List.map_append, List.map_cons]

/-- A changed statement exports the changed declaration. -/
theorem Node.exportsDeclaration_renameMarkup_iff {statement declaration : Node} :
    (statement.renameMarkup f).ExportsDeclaration declaration ↔
      ∃ original, statement.ExportsDeclaration original ∧
        original.renameMarkup f = declaration := by
  constructor
  · rintro ⟨hkind, hchild⟩
    rw [child_renameMarkup, Option.map_eq_some_iff] at hchild
    obtain ⟨original, hchild, rfl⟩ := hchild
    exact ⟨original, ⟨hkind, hchild⟩, rfl⟩
  · rintro ⟨original, ⟨hkind, hchild⟩, rfl⟩
    exact ⟨hkind, by rw [child_renameMarkup, hchild, Option.map_some]⟩

/-- A changed statement exports what it declares under the same names. -/
theorem TopLevel.exportsName_renameMarkup_iff {statement : Node} :
    ExportsName (statement.renameMarkup f) name ↔ ExportsName statement name := by
  constructor
  · intro h
    cases h with
    | declared hexports hkind hname =>
      obtain ⟨original, horiginal, rfl⟩ := Node.exportsDeclaration_renameMarkup_iff.mp hexports
      exact .declared horiginal hkind (Node.nameAt_renameMarkup.symm.trans hname)
    | bound hexports hkind hdeclarator hname =>
      obtain ⟨original, horiginal, rfl⟩ := Node.exportsDeclaration_renameMarkup_iff.mp hexports
      rw [Node.children_renameMarkup, List.mem_map] at hdeclarator
      obtain ⟨declarator, hdeclarator, rfl⟩ := hdeclarator
      exact .bound horiginal hkind hdeclarator (Node.nameAt_renameMarkup.symm.trans hname)
  · intro h
    cases h with
    | declared hexports hkind hname =>
      exact .declared (Node.exportsDeclaration_renameMarkup_iff.mpr ⟨_, hexports, rfl⟩) hkind
        (Node.nameAt_renameMarkup.trans hname)
    | bound hexports hkind hdeclarator hname =>
      refine .bound (Node.exportsDeclaration_renameMarkup_iff.mpr ⟨_, hexports, rfl⟩) hkind ?_
        ((Node.nameAt_renameMarkup (f := f)).trans hname)
      rw [Node.children_renameMarkup]
      exact List.mem_map_of_mem hdeclarator

namespace Survey

variable (program : Node)

/-- The imported names are those of the tree before. -/
theorem imported_renameMarkup :
    ((Survey.ofProgram (program.renameMarkup f)).run
        (program.renameMarkup f).events).names.imported =
      ((Survey.ofProgram program).run program.events).names.imported := by
  rw [imported_eq_collect, imported_eq_collect, Node.visits_renameMarkup]
  congr 1
  simp [NameTable.entriesOf, List.flatMap_map, Visit.renameMarkup, Node.importedNames_renameMarkup]

/-- The declared names are those of the tree before. -/
theorem declared_renameMarkup :
    ((Survey.ofProgram (program.renameMarkup f)).run
        (program.renameMarkup f).events).names.declared =
      ((Survey.ofProgram program).run program.events).names.declared := by
  rw [declared_eq_collect, declared_eq_collect, Node.visits_renameMarkup]
  congr 1
  simp [NameTable.entriesOf, List.flatMap_map, List.flatMap_assoc, Visit.renameMarkup,
    Node.declarations_renameMarkup]

/-- The names read are those of the tree before. -/
theorem mem_used_renameMarkup_iff :
    name ∈ ((Survey.ofProgram (program.renameMarkup f)).run
        (program.renameMarkup f).events).names.used ↔
      name ∈ ((Survey.ofProgram program).run program.events).names.used := by
  rw [mem_used_iff, mem_used_iff, Node.reads_renameMarkup_iff]

/-- The names of exported declarations are those of the tree before. -/
theorem mem_exported_renameMarkup_iff :
    name ∈ ((Survey.ofProgram (program.renameMarkup f)).run
        (program.renameMarkup f).events).topLevel.names ↔
      name ∈ ((Survey.ofProgram program).run program.events).topLevel.names := by
  rw [topLevel_run, topLevel_run, Survey.ofProgram, Survey.ofProgram, TopLevel.mem_names_iff,
    TopLevel.mem_names_iff, Node.children_renameMarkup]
  simp [TopLevel.exportsName_renameMarkup_iff]

end Survey

end PureLint
