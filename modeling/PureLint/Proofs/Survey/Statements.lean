import Mathlib.Data.List.Perm.Basic
import PureLint.Proofs.Survey.Names
import PureLint.Survey.TopLevel

/-!
# What statements tell

What is known about the top level of a program are the entries that its statements add one after the
other, and which entries these are depends on each statement alone. So statements in another order
tell the same: the exports and re-exports in another order, and the same names.
-/

namespace PureLint.TopLevel

/-- What a top-level statement adds. -/
inductive Entry where
  | function (e : Export)
  | other (e : Export)
  | name (name : String)
  | reexport (statement : Node)
  | processName (name : String)

namespace Entry

/-- The exported function that an entry adds. -/
def function? : Entry → Option Export
  | .function e => some e
  | _ => none

/-- The other export that an entry adds. -/
def other? : Entry → Option Export
  | .other e => some e
  | _ => none

/-- The re-export that an entry adds. -/
def reexport? : Entry → Option Node
  | .reexport statement => some statement
  | _ => none

/-- The entry of an exported function or other value. -/
def ofExport (isFunction : Bool) (e : Export) : Entry :=
  if isFunction then .function e else .other e

end Entry

/-- What is known with one more entry. -/
def tell (t : TopLevel) : Entry → TopLevel
  | .function e => { t with functions := t.functions ++ [e] }
  | .other e => { t with others := t.others ++ [e] }
  | .name name => t.withName name
  | .reexport statement => { t with reexports := t.reexports ++ [statement] }
  | .processName name => { t with processNames := addOnce name t.processNames }

/-- What a variable of an exported declaration adds. -/
def variableEntries (statement declarator : Node) : List Entry :=
  match declarator.nameAt "id" with
  | some name =>
    [.name name, .ofExport (declarator.holdsFunction "init") ⟨name, statement.span⟩]
  | none => []

/-- What the declaration that a statement exports by name adds. -/
def declarationEntries (statement declaration : Node) : List Entry :=
  if declaration.kind = "FunctionDeclaration" then
    match declaration.nameAt "id" with
    | some name => [.function ⟨name, statement.span⟩, .name name]
    | none => []
  else if declaration.kind = "VariableDeclaration" then
    (declaration.children "declarations").flatMap (variableEntries statement)
  else
    match declaration.nameAt "id" with
    | some name => [.name name]
    | none => []

/-- What a specifier of an import of `process` adds. -/
def specifierEntries (specifier : Node) : List Entry :=
  if specifier.kind = "ImportNamespaceSpecifier" then []
  else
    match specifier.nameAt "local" with
    | some name => [.processName name]
    | none => []

/-- What an import declaration adds. -/
def importEntries (statement : Node) : List Entry :=
  match statement.literalTextAt "source" with
  | some source =>
    if processSources.contains source then
      (statement.children "specifiers").flatMap specifierEntries
    else []
  | none => []

/-- What a statement that exports by name adds. -/
def namedExportEntries (statement : Node) : List Entry :=
  (if (statement.child "source").isSome then [.reexport statement] else []) ++
    match statement.child "declaration" with
    | some declaration => declarationEntries statement declaration
    | none => []

/-- What a top-level statement adds. -/
def entriesOf (statement : Node) : List Entry :=
  match statement.kind with
  | "ImportDeclaration" => importEntries statement
  | "ExportNamedDeclaration" => namedExportEntries statement
  | "ExportAllDeclaration" => [.reexport statement]
  | "ExportDefaultDeclaration" =>
    [.ofExport (statement.holdsFunction "declaration") ⟨"default", statement.span⟩]
  | _ => []

/-- The exports that an entry adds are found at the place. -/
def Entry.At (span : Span) : Entry → Prop
  | .function e => e.span = span
  | .other e => e.span = span
  | .reexport statement => statement.span = span
  | _ => True

/-- An exported value is found at its place. -/
theorem Entry.at_ofExport (isFunction : Bool) (name : String) (span : Span) :
    (Entry.ofExport isFunction ⟨name, span⟩).At span := by
  cases isFunction <;> rfl

/-- What a variable of an exported declaration adds is found at the statement. -/
theorem at_of_mem_variableEntries {statement declarator : Node} {entry : Entry}
    (h : entry ∈ variableEntries statement declarator) : entry.At statement.span := by
  unfold variableEntries at h
  split at h
  · rcases List.mem_cons.mp h with rfl | h
    · trivial
    · cases List.mem_singleton.mp h
      exact Entry.at_ofExport _ _ _
  · cases h

/-- What an exported declaration adds is found at the statement. -/
theorem at_of_mem_declarationEntries {statement declaration : Node} {entry : Entry}
    (h : entry ∈ declarationEntries statement declaration) : entry.At statement.span := by
  unfold declarationEntries at h
  split at h
  · split at h
    · rcases List.mem_cons.mp h with rfl | h
      · rfl
      · cases List.mem_singleton.mp h
        trivial
    · cases h
  · split at h
    · obtain ⟨declarator, -, h⟩ := List.mem_flatMap.mp h
      exact at_of_mem_variableEntries h
    · split at h
      · cases List.mem_singleton.mp h
        trivial
      · cases h

/-- What an import declaration adds is no export. -/
theorem at_of_mem_importEntries {statement : Node} {entry : Entry}
    (h : entry ∈ importEntries statement) : entry.At statement.span := by
  unfold importEntries at h
  split at h
  · split at h
    · obtain ⟨specifier, -, h⟩ := List.mem_flatMap.mp h
      unfold specifierEntries at h
      split at h
      · cases h
      · split at h
        · cases List.mem_singleton.mp h
          trivial
        · cases h
    · cases h
  · cases h

/-- What a statement adds is found at the statement. -/
theorem at_of_mem_entriesOf {statement : Node} {entry : Entry} (h : entry ∈ entriesOf statement) :
    entry.At statement.span := by
  unfold entriesOf at h
  split at h
  · exact at_of_mem_importEntries h
  · rcases List.mem_append.mp h with h | h
    · split at h
      · cases List.mem_singleton.mp h
        rfl
      · cases h
    · split at h
      · exact at_of_mem_declarationEntries h
      · cases h
  · cases List.mem_singleton.mp h
    rfl
  · cases List.mem_singleton.mp h
    exact Entry.at_ofExport _ _ _
  · cases h

/-! ## What is known after statements -/

/-- An exported value adds its entry. -/
theorem withExport_eq (t : TopLevel) (isFunction : Bool) (e : Export) :
    t.withExport isFunction e = t.tell (.ofExport isFunction e) := by
  cases isFunction <;> rfl

/-- A variable adds its entries. -/
theorem addVariable_eq (statement : Node) (t : TopLevel) (declarator : Node) :
    t.addVariable statement declarator = (variableEntries statement declarator).foldl tell t := by
  unfold addVariable variableEntries
  cases declarator.nameAt "id" with
  | none => rfl
  | some name => exact withExport_eq _ _ _

/-- A declaration adds its entries. -/
theorem addDeclaration_eq (t : TopLevel) (statement declaration : Node) :
    t.addDeclaration statement declaration =
      (declarationEntries statement declaration).foldl tell t := by
  unfold addDeclaration declarationEntries
  split
  · cases declaration.nameAt "id" <;> rfl
  · split
    · rw [List.foldl_flatMap]
      simp only [← addVariable_eq]
    · cases declaration.nameAt "id" <;> rfl

/-- A specifier of an import of `process` adds its entries. -/
theorem addProcessName_eq (t : TopLevel) (specifier : Node) :
    t.addProcessName specifier = (specifierEntries specifier).foldl tell t := by
  unfold addProcessName specifierEntries
  split
  · rfl
  · cases specifier.nameAt "local" <;> rfl

/-- A statement adds its entries. -/
theorem addStatement_eq (t : TopLevel) (statement : Node) :
    t.addStatement statement = (entriesOf statement).foldl tell t := by
  unfold addStatement entriesOf
  generalize statement.kind = kind
  split
  · unfold importEntries
    cases statement.literalTextAt "source" with
    | none => rfl
    | some source =>
      simp only
      split
      · rw [List.foldl_flatMap]
        simp only [← addProcessName_eq]
      · rfl
  · unfold namedExportEntries
    cases statement.child "declaration" with
    | none =>
      simp only [List.append_nil]
      split <;> rfl
    | some declaration =>
      simp only [addDeclaration_eq, List.foldl_append]
      split <;> rfl
  · rfl
  · exact withExport_eq _ _ _
  · simp [*]

/-- What several statements tell. -/
def ofStatements (statements : List Node) : TopLevel := statements.foldl addStatement {}

/-- What is known about statements is what they add. -/
theorem ofStatements_eq (statements : List Node) :
    ofStatements statements = (statements.flatMap entriesOf).foldl tell {} := by
  rw [ofStatements, List.foldl_flatMap]
  simp only [← addStatement_eq]

/-- The entries of all statements of a program. -/
def entries (program : Node) : List Entry := (program.children "body").flatMap entriesOf

/-- What is known about a program is what its statements add. -/
theorem ofProgram_eq (program : Node) : ofProgram program = (entries program).foldl tell {} :=
  ofStatements_eq (program.children "body")

section

variable (t : TopLevel) (added : List Entry)

/-- What each entry adds to the end of a list, entries add one after the other. -/
theorem foldl_tell_append {α : Type} {list : TopLevel → List α} {added? : Entry → Option α}
    (h : ∀ t entry, list (t.tell entry) = list t ++ (added? entry).toList) :
    list (added.foldl tell t) = list t ++ added.filterMap added? := by
  induction added generalizing t with
  | nil => simp
  | cons entry added ih =>
    rw [List.foldl_cons, ih, h, List.append_assoc, List.filterMap_cons]
    cases added? entry <;> rfl

/-- A name that one entry adds is there after entries if it was before, or the entry is among
them. -/
theorem mem_foldl_tell {list : TopLevel → List String} {entryOf : String → Entry}
    (h : ∀ t entry name, name ∈ list (t.tell entry) ↔ name ∈ list t ∨ entry = entryOf name)
    (name : String) : name ∈ list (added.foldl tell t) ↔ name ∈ list t ∨ entryOf name ∈ added := by
  induction added generalizing t with
  | nil => simp
  | cons entry added ih => rw [List.foldl_cons, ih, h, List.mem_cons, eq_comm, or_assoc]

end

/-- The exported functions that statements tell of, in their order. -/
theorem functions_ofStatements (statements : List Node) :
    (ofStatements statements).functions =
      (statements.flatMap entriesOf).filterMap Entry.function? := by
  rw [ofStatements_eq]
  apply foldl_tell_append {} (statements.flatMap entriesOf)
  intro t entry
  cases entry <;> simp [tell, withName, Entry.function?]

/-- The other exported values that statements tell of, in their order. -/
theorem others_ofStatements (statements : List Node) :
    (ofStatements statements).others = (statements.flatMap entriesOf).filterMap Entry.other? := by
  rw [ofStatements_eq]
  apply foldl_tell_append {} (statements.flatMap entriesOf)
  intro t entry
  cases entry <;> simp [tell, withName, Entry.other?]

variable (program : Node)

/-- The exported functions of a program, in the order of its statements. -/
theorem functions_ofProgram :
    (ofProgram program).functions = (entries program).filterMap Entry.function? :=
  functions_ofStatements (program.children "body")

/-- The other exported values of a program, in the order of its statements. -/
theorem others_ofProgram :
    (ofProgram program).others = (entries program).filterMap Entry.other? :=
  others_ofStatements (program.children "body")

/-- The re-exports of a program, in the order of its statements. -/
theorem reexports_ofProgram :
    (ofProgram program).reexports = (entries program).filterMap Entry.reexport? := by
  rw [ofProgram_eq]
  apply foldl_tell_append {} (entries program)
  intro t entry
  cases entry <;> simp [tell, withName, Entry.reexport?]

/-- The names of the exported declarations of a program. -/
theorem mem_names_ofProgram (name : String) :
    name ∈ (ofProgram program).names ↔ .name name ∈ entries program := by
  rw [ofProgram_eq, mem_foldl_tell, or_iff_right List.not_mem_nil]
  intro t entry other
  cases entry <;> simp [tell, withName, mem_addOnce]

/-- The names under which a program imports `process`. -/
theorem mem_processNames_ofProgram (name : String) :
    name ∈ (ofProgram program).processNames ↔ .processName name ∈ entries program := by
  rw [ofProgram_eq, mem_foldl_tell, or_iff_right List.not_mem_nil]
  intro t entry other
  cases entry <;> simp [tell, withName, mem_addOnce]

end PureLint.TopLevel
