import PureLint.Proofs.Survey.Exports

/-!
# Exported variables

A statement that exports variables counts each of them once, as a function or as another value. A
variable is one that a declarator gives its plain name: what stands inside a pattern is not looked
at, and neither counted nor named.
-/

namespace PureLint

/-- What a declarator exports with its statement: the variable of its plain name. -/
def Node.exportedAs (declarator : Node) (place : Span) : List Export :=
  ((declarator.nameAt "id").map fun name => ⟨name, place⟩).toList

/-- A statement exports what it declares. -/
structure Node.ExportsDeclaration (statement declaration : Node) : Prop where
  kind : statement.kind = "ExportNamedDeclaration"
  child : statement.child "declaration" = some declaration

namespace TopLevel

/-- The names under which a statement exports what it declares. -/
inductive ExportsName (statement : Node) (name : String) : Prop
  | declared {declaration : Node} :
    statement.ExportsDeclaration declaration → declaration.kind ≠ "VariableDeclaration" →
      declaration.nameAt "id" = some name → ExportsName statement name
  | bound {declaration declarator : Node} :
    statement.ExportsDeclaration declaration → declaration.kind = "VariableDeclaration" →
      declarator ∈ declaration.children "declarations" → declarator.nameAt "id" = some name →
      ExportsName statement name

/-- The names that a statement binds by what it exports, those inside patterns among them. -/
inductive BindsExport (statement : Node) (name : String) : Prop
  | declared {declaration : Node} :
    statement.ExportsDeclaration declaration → declaration.kind ≠ "VariableDeclaration" →
      declaration.nameAt "id" = some name → BindsExport statement name
  | bound {declaration declarator identifier : Node} :
    statement.ExportsDeclaration declaration → declaration.kind = "VariableDeclaration" →
      declarator ∈ declaration.children "declarations" →
      identifier ∈ declarator.identifiersAt "id" → identifier.name? = some name →
      BindsExport statement name

variable {statement declaration declarator identifier : Node} {name : String} {place : Span}

/-- A name under which a statement exports is one that it binds. -/
theorem ExportsName.bindsExport (h : ExportsName statement name) : BindsExport statement name := by
  cases h with
  | declared hexports hkind hname => exact .declared hexports hkind hname
  | bound hexports hkind hdeclarator hname =>
    obtain ⟨identifier, hchild, hname⟩ := Option.bind_eq_some_iff.mp hname
    refine .bound hexports hkind hdeclarator ?_ hname
    have hidentifier : identifier.kind = "Identifier" := by
      by_contra hidentifier
      rw [Node.name?, if_neg hidentifier] at hname
      cases hname
    rw [Node.identifiersAt, hchild]
    exact Node.mem_boundIdentifiers_iff.mpr ⟨hidentifier, .refl⟩

/-! ## What a declarator adds -/

/-- A declarator exports its variable, if the identifier is the whole of what it declares. -/
theorem exportedAs_of_child (hchild : declarator.child "id" = some identifier)
    (hname : identifier.name? = some name) : declarator.exportedAs place = [⟨name, place⟩] := by
  simp [Node.exportedAs, Node.nameAt, hchild, hname]

/-- A declarator exports nothing, if the identifier stands inside its pattern. -/
theorem exportedAs_of_inside (hidentifier : identifier ∈ declarator.identifiersAt "id")
    (hinside : declarator.child "id" ≠ some identifier) : declarator.exportedAs place = [] := by
  unfold Node.identifiersAt at hidentifier
  split at hidentifier
  · rename_i pattern hpattern
    have hkind : pattern.kind ≠ "Identifier" := by
      intro hkind
      rw [Node.boundIdentifiers, if_pos hkind] at hidentifier
      cases List.mem_singleton.mp hidentifier
      exact hinside hpattern
    simp [Node.exportedAs, Node.nameAt, hpattern, Node.name?, hkind]
  · cases hidentifier

/-- A declarator adds its variable to the functions if it holds one. -/
theorem functions_variableEntries :
    (variableEntries statement declarator).filterMap Entry.function? =
      if declarator.holdsFunction "init" then declarator.exportedAs statement.span else [] := by
  unfold variableEntries Node.exportedAs
  cases declarator.nameAt "id" <;> cases declarator.holdsFunction "init" <;> rfl

/-- A declarator adds its variable to the other values if it holds no function. -/
theorem others_variableEntries :
    (variableEntries statement declarator).filterMap Entry.other? =
      if declarator.holdsFunction "init" then [] else declarator.exportedAs statement.span := by
  unfold variableEntries Node.exportedAs
  cases declarator.nameAt "id" <;> cases declarator.holdsFunction "init" <;> rfl

/-! ## What a statement adds -/

section

variable {α : Type} (added? : Entry → Option α)

/-- What a statement that exports variables adds are what these add, where re-exports are left
aside. -/
theorem filterMap_entriesOf_exportedVariables (hexports : statement.ExportsDeclaration declaration)
    (hkind : declaration.kind = "VariableDeclaration")
    (hreexport : added? (.reexport statement) = none) :
    (entriesOf statement).filterMap added? =
      (declaration.children "declarations").flatMap fun declarator =>
        (variableEntries statement declarator).filterMap added? := by
  have hentries : entriesOf statement =
      (if (statement.child "source").isSome then [.reexport statement] else []) ++
        (declaration.children "declarations").flatMap (variableEntries statement) := by
    simp only [entriesOf, hexports.kind, namedExportEntries, hexports.child, declarationEntries,
      hkind]
    rfl
  rw [hentries, List.filterMap_append, List.filterMap_flatMap]
  split
  · rw [List.filterMap_cons_none hreexport]
    rfl
  · rfl

/-- What each of several statements adds to a list, it adds between those before and after it. -/
theorem filterMap_entriesOf_split (before after : List Node) :
    ((before ++ statement :: after).flatMap entriesOf).filterMap added? =
      (before.flatMap entriesOf).filterMap added? ++ (entriesOf statement).filterMap added? ++
        (after.flatMap entriesOf).filterMap added? := by
  rw [List.flatMap_append, List.flatMap_cons, List.filterMap_append, List.filterMap_append,
    List.append_assoc]

end

variable {before after : List Node}

/-- The exported functions around a statement that exports variables. -/
theorem functions_exportedVariables (hexports : statement.ExportsDeclaration declaration)
    (hkind : declaration.kind = "VariableDeclaration") :
    (ofStatements (before ++ statement :: after)).functions =
      (ofStatements before).functions ++
        ((declaration.children "declarations").flatMap fun declarator =>
          if declarator.holdsFunction "init" then declarator.exportedAs statement.span else []) ++
        (ofStatements after).functions := by
  simp only [functions_ofStatements]
  rw [filterMap_entriesOf_split, filterMap_entriesOf_exportedVariables _ hexports hkind rfl]
  simp only [functions_variableEntries]

/-- The other exported values around a statement that exports variables. -/
theorem others_exportedVariables (hexports : statement.ExportsDeclaration declaration)
    (hkind : declaration.kind = "VariableDeclaration") :
    (ofStatements (before ++ statement :: after)).others =
      (ofStatements before).others ++
        ((declaration.children "declarations").flatMap fun declarator =>
          if declarator.holdsFunction "init" then [] else declarator.exportedAs statement.span) ++
        (ofStatements after).others := by
  simp only [others_ofStatements]
  rw [filterMap_entriesOf_split, filterMap_entriesOf_exportedVariables _ hexports hkind rfl]
  simp only [others_variableEntries]

/-! ## The names of exported declarations -/

/-- A variable adds its plain name. -/
theorem name_mem_variableEntries :
    .name name ∈ variableEntries statement declarator ↔ declarator.nameAt "id" = some name := by
  unfold variableEntries
  cases declarator.nameAt "id" with
  | none => simp
  | some other => cases declarator.holdsFunction "init" <;> simp [Entry.ofExport, eq_comm]

/-- The names that an exported declaration adds are those under which its statement exports it. -/
theorem name_mem_declarationEntries (hexports : statement.ExportsDeclaration declaration) :
    .name name ∈ declarationEntries statement declaration ↔ ExportsName statement name := by
  constructor
  · intro h
    unfold declarationEntries at h
    split at h
    · rename_i hkind
      split at h
      · rename_i other hname
        have heq : name = other := by simpa using h
        exact .declared hexports (by rw [hkind]; decide) (heq ▸ hname)
      · cases h
    · split at h
      · rename_i hkind
        obtain ⟨declarator, hdeclarator, h⟩ := List.mem_flatMap.mp h
        exact .bound hexports hkind hdeclarator (name_mem_variableEntries.mp h)
      · rename_i hkind
        split at h
        · rename_i other hname
          have heq : name = other := by simpa using h
          exact .declared hexports hkind (heq ▸ hname)
        · cases h
  · intro h
    cases h with
    | declared hother hkind hname =>
      cases hexports.child.symm.trans hother.child
      simp only [declarationEntries, if_neg hkind, hname]
      split <;> simp
    | bound hother hkind hdeclarator hname =>
      cases hexports.child.symm.trans hother.child
      simp only [declarationEntries, hkind]
      exact List.mem_flatMap.mpr ⟨_, hdeclarator, name_mem_variableEntries.mpr hname⟩

/-- The names that a statement adds are those under which it exports what it declares. -/
theorem name_mem_entriesOf : .name name ∈ entriesOf statement ↔ ExportsName statement name := by
  constructor
  · intro h
    unfold entriesOf at h
    split at h
    case h_1 =>
      obtain ⟨_, h⟩ := processName_of_mem_importEntries h
      cases h
    case h_2 hkind =>
      rcases List.mem_append.mp h with h | h
      · split at h <;> simp at h
      · split at h
        · rename_i declaration hchild
          exact (name_mem_declarationEntries ⟨hkind, hchild⟩).mp h
        · cases h
    case h_3 => simp at h
    case h_4 =>
      cases hfunction : statement.holdsFunction "declaration" <;>
        simp [hfunction, Entry.ofExport] at h
    case h_5 => cases h
  · intro h
    have hadds {declaration : Node} (hexports : statement.ExportsDeclaration declaration) :
        .name name ∈ entriesOf statement := by
      simp only [entriesOf, hexports.kind, namedExportEntries, hexports.child]
      exact List.mem_append_right _ ((name_mem_declarationEntries hexports).mpr h)
    cases h with
    | declared hexports => exact hadds hexports
    | bound hexports => exact hadds hexports

/-- **The names of exported declarations are those under which statements export.** -/
theorem mem_names_iff {program : Node} :
    name ∈ (ofProgram program).names ↔
      ∃ statement ∈ program.children "body", ExportsName statement name := by
  rw [mem_names_ofProgram, entries, List.mem_flatMap]
  simp only [name_mem_entriesOf]

end TopLevel

end PureLint
