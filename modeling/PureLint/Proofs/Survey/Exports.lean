import PureLint.Proofs.Survey.Statements

/-!
# Exported functions

A statement exports a function by declaring it, as the initial value of a variable, or as the
default of the file. These are the functions that are counted among the exports of a program.
-/

namespace PureLint.TopLevel

/-- The ways in which a statement exports a function under a name. The value of a variable and the
default of the file are seen through parentheses. -/
inductive ExportsFunction (statement : Node) : String → Node → Prop
  | declared {fn : Node} {name : String} :
    statement.kind = "ExportNamedDeclaration" → statement.child "declaration" = some fn →
      fn.kind = "FunctionDeclaration" → fn.nameAt "id" = some name →
      ExportsFunction statement name fn
  | bound {declaration declarator value : Node} {name : String} :
    statement.kind = "ExportNamedDeclaration" → statement.child "declaration" = some declaration →
      declaration.kind = "VariableDeclaration" →
      declarator ∈ declaration.children "declarations" → declarator.nameAt "id" = some name →
      declarator.child "init" = some value → value.isFunction = true →
      ExportsFunction statement name value.unparenthesized
  | default {value : Node} :
    statement.kind = "ExportDefaultDeclaration" → statement.child "declaration" = some value →
      value.isFunction = true → ExportsFunction statement "default" value.unparenthesized

variable {statement declaration declarator : Node} {e : Export}

/-- An exported function that is itself what the statement exports by name is declared there. -/
theorem ExportsFunction.kind_of_child {name : String} {fn : Node}
    (h : ExportsFunction statement name fn) (hkind : statement.kind = "ExportNamedDeclaration")
    (hchild : statement.child "declaration" = some fn) : fn.kind = "FunctionDeclaration" := by
  cases h with
  | declared _ _ hdeclaration _ => exact hdeclaration
  | bound _ hother hdeclaration _ _ _ hfunction =>
    cases hchild.symm.trans hother
    rw [Node.isFunction, Node.hasKind, hdeclaration] at hfunction
    exact absurd hfunction (by decide)
  | default hdefault _ _ =>
    rw [hkind] at hdefault
    exact absurd hdefault (by decide)

/-- An export is entered as a function exactly if it is one. -/
theorem function_eq_ofExport_iff {isFunction : Bool} {other : Export} :
    Entry.function e = Entry.ofExport isFunction other ↔ isFunction = true ∧ e = other := by
  cases isFunction <;> simp [Entry.ofExport]

/-- A node holds a function exactly if there is one, seen through parentheses. -/
theorem holdsFunction_iff {n : Node} {key : String} :
    n.holdsFunction key = true ↔ ∃ value, n.child key = some value ∧ value.isFunction = true := by
  unfold Node.holdsFunction
  cases n.child key <;> simp

/-- A variable adds a function if it is a plain name whose initial value is one. -/
theorem function_mem_variableEntries :
    .function e ∈ variableEntries statement declarator ↔
      ∃ name value, declarator.nameAt "id" = some name ∧ declarator.child "init" = some value ∧
        value.isFunction = true ∧ e = ⟨name, statement.span⟩ := by
  unfold variableEntries
  cases declarator.nameAt "id" with
  | none => simp
  | some name =>
    simp only [List.mem_cons, List.not_mem_nil, or_false, reduceCtorEq, false_or,
      function_eq_ofExport_iff, holdsFunction_iff, Option.some.injEq]
    constructor
    · rintro ⟨⟨value, hvalue, hfunction⟩, rfl⟩
      exact ⟨name, value, rfl, hvalue, hfunction, rfl⟩
    · rintro ⟨_, value, rfl, hvalue, hfunction, rfl⟩
      exact ⟨⟨value, hvalue, hfunction⟩, rfl⟩

/-- An import adds nothing but names of `process`. -/
theorem processName_of_mem_importEntries {entry : Entry} (h : entry ∈ importEntries statement) :
    ∃ name, entry = .processName name := by
  unfold importEntries at h
  split at h
  · split at h
    · obtain ⟨specifier, -, h⟩ := List.mem_flatMap.mp h
      unfold specifierEntries at h
      split at h
      · cases h
      · split at h
        · exact ⟨_, List.mem_singleton.mp h⟩
        · cases h
    · cases h
  · cases h

/-- What is added for a statement as an exported function is one. -/
theorem exports_of_function_mem (h : .function e ∈ entriesOf statement) :
    ∃ name fn, ExportsFunction statement name fn ∧ e = ⟨name, statement.span⟩ := by
  unfold entriesOf at h
  split at h
  case h_1 =>
    obtain ⟨_, h⟩ := processName_of_mem_importEntries h
    cases h
  case h_2 hkind =>
    rcases List.mem_append.mp h with h | h
    · split at h <;> simp at h
    · split at h
      · rename_i declaration hchild
        unfold declarationEntries at h
        split at h
        · rename_i hdeclaration
          split at h
          · rename_i name hname
            simp only [List.mem_cons, Entry.function.injEq, reduceCtorEq, List.not_mem_nil,
              or_self, or_false] at h
            exact ⟨name, declaration, .declared hkind hchild hdeclaration hname, h⟩
          · cases h
        · split at h
          · rename_i hdeclaration
            obtain ⟨declarator, hdeclarator, h⟩ := List.mem_flatMap.mp h
            obtain ⟨name, value, hname, hvalue, hfunction, rfl⟩ :=
              function_mem_variableEntries.mp h
            exact ⟨name, _,
              .bound hkind hchild hdeclaration hdeclarator hname hvalue hfunction, rfl⟩
          · split at h <;> simp at h
      · cases h
  case h_3 => simp at h
  case h_4 hkind =>
    obtain ⟨hfunction, rfl⟩ := function_eq_ofExport_iff.mp (List.mem_singleton.mp h)
    obtain ⟨value, hvalue, hfunction⟩ := holdsFunction_iff.mp hfunction
    exact ⟨"default", _, .default hkind hvalue hfunction, rfl⟩
  case h_5 => cases h

/-- An exported function is added for its statement. -/
theorem ExportsFunction.mem_entriesOf {name : String} {fn : Node}
    (h : ExportsFunction statement name fn) :
    .function ⟨name, statement.span⟩ ∈ entriesOf statement := by
  have hnamed {declaration : Node} (hkind : statement.kind = "ExportNamedDeclaration")
      (hchild : statement.child "declaration" = some declaration) {entry : Entry}
      (hentry : entry ∈ declarationEntries statement declaration) :
      entry ∈ entriesOf statement := by
    simp only [entriesOf, hkind, namedExportEntries, hchild]
    exact List.mem_append_right _ hentry
  cases h with
  | declared hkind hchild hdeclaration hname =>
    apply hnamed hkind hchild
    simp [declarationEntries, hdeclaration, hname]
  | bound hkind hchild hdeclaration hdeclarator hname hvalue hfunction =>
    apply hnamed hkind hchild
    simp only [declarationEntries, hdeclaration]
    exact List.mem_flatMap.mpr ⟨_, hdeclarator,
      function_mem_variableEntries.mpr ⟨name, _, hname, hvalue, hfunction, rfl⟩⟩
  | default hkind hvalue hfunction =>
    have hholds : statement.holdsFunction "declaration" = true :=
      holdsFunction_iff.mpr ⟨_, hvalue, hfunction⟩
    simp [entriesOf, hkind, hholds, Entry.ofExport]

/-- **The exported functions of a program are those that its statements export.** -/
theorem mem_functions_iff {program : Node} :
    e ∈ (ofProgram program).functions ↔
      ∃ statement ∈ program.children "body", ∃ name fn,
        ExportsFunction statement name fn ∧ e = ⟨name, statement.span⟩ := by
  have hfunction (entry : Entry) : entry.function? = some e ↔ entry = .function e := by
    cases entry <;> simp [Entry.function?]
  simp only [functions_ofProgram, List.mem_filterMap, hfunction, exists_eq_right, entries,
    List.mem_flatMap]
  refine exists_congr fun statement => and_congr_right fun _ => ⟨exports_of_function_mem, ?_⟩
  rintro ⟨name, fn, hexports, rfl⟩
  exact hexports.mem_entriesOf

end PureLint.TopLevel
