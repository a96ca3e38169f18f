import PureLint.Proofs.Survey.Arrays
import PureLint.Proofs.Survey.Reference

/-!
# Declared, imported and read names

Which names a file declares and imports depends on each node alone, and which it reads on where
identifiers stand: an identifier reads its name if no node before it binds it and its field does not
merely hold a name. The walk notes all of them, whichever come first.
-/

namespace PureLint

open Event

namespace Node

/-- The names that a node declares, each with the node that gives it: a declarator declares the
variable of its plain name, and a function with a body, other than an arrow function, its
parameters. -/
def declarations (n : Node) : List (String × Node) :=
  match n.kind with
  | "VariableDeclarator" => ((n.nameAt "id").map fun name => (name, n)).toList
  | "FunctionDeclaration" | "FunctionExpression" =>
    (n.children "params").filterMap fun param => param.parameterName.map fun name => (name, param)
  | _ => []

/-- The names that an import declaration brings in. -/
def importedNames (n : Node) : List String :=
  if n.kind = "ImportDeclaration" then (n.children "specifiers").filterMap (·.nameAt "local")
  else []

/-- Somewhere in the tree an identifier reads the name: no node that is entered before it binds the
identifier, and its field does not merely hold a name. -/
def Reads (root : Node) (name : String) : Prop :=
  ∃ before visit after, root.visits = before ++ visit :: after ∧ visit.node.name? = some name ∧
    (∀ earlier ∈ before, ∀ bound ∈ Names.boundAt earlier.node, bound.id ≠ visit.node.id) ∧
    (visit.reference? []).isSome = true

end Node

namespace Names

variable {n : Node} {table : Table} {notes : List Note}

/-- Notes in other tables make no entries. -/
theorem entriesIn_eq_nil (h : ∀ noted ∈ notes, noted.table ≠ table) :
    entriesIn table notes = [] := by
  rw [entriesIn, List.filterMap_eq_nil_iff]
  intro noted hnoted
  exact if_neg (h noted hnoted)

/-- A declarator notes the variable of its plain name as declared. -/
theorem entriesIn_declarator (hkind : n.kind = "VariableDeclarator") :
    entriesIn .declared (notesAt n) =
      ((n.nameAt "id").map fun name => (name, n.span)).toList := by
  rw [notesAt_declarator hkind]
  cases hname : n.nameAt "id" with
  | none =>
    apply entriesIn_eq_nil
    intro noted h
    obtain ⟨id, name, hvariable, -⟩ := (mem_declaratorNotes_iff hkind).mp h
    rw [Node.nameAt, hvariable.child, Option.bind_some, hvariable.name] at hname
    cases hname
  | some name =>
    obtain ⟨id, hid, hname⟩ := Option.bind_eq_some_iff.mp hname
    have hrest : entriesIn .declared (annotationNotes name n.span id.annotatedType ++
        initNotes n name id.annotatedType) = [] := by
      apply entriesIn_eq_nil
      intro noted h
      rcases List.mem_append.mp h with h | h
      · obtain ⟨_, _, ⟨_, rfl⟩ | ⟨_, rfl⟩⟩ := mem_annotationNotes_iff.mp h <;> simp
      · obtain ⟨_, _, _, rfl⟩ := mem_initNotes_iff.mp h
        simp
    simp only [declaratorNotes, hid, hname]
    rw [entriesIn, List.filterMap_cons, ← entriesIn, hrest]
    rfl

/-- A function notes its parameters as declared. -/
theorem entriesIn_function
    (hkind : n.kind = "FunctionDeclaration" ∨ n.kind = "FunctionExpression") :
    entriesIn .declared (notesAt n) = (n.children "params").filterMap fun param =>
      param.parameterName.map fun name => (name, param.span) := by
  have hnotes : notesAt n = (n.children "params").flatMap (parameterNotes true) := by
    rcases hkind with hkind | hkind <;> simp [notesAt, hkind]
  rw [hnotes, entriesIn, List.filterMap_flatMap, List.filterMap_eq_flatMap_toList]
  apply List.flatMap_congr
  intro param _
  unfold parameterNotes
  cases param.parameterName <;> simp

/-- What a node notes as declared is what it declares. -/
theorem entriesIn_declared (n : Node) :
    entriesIn .declared (notesAt n) =
      n.declarations.map fun (name, declared) => (name, declared.span) := by
  unfold Node.declarations
  split
  case h_1 hkind =>
    rw [entriesIn_declarator hkind]
    cases n.nameAt "id" <;> rfl
  case h_2 hkind =>
    rw [entriesIn_function (Or.inl hkind), List.map_filterMap]
    simp only [Option.map_map]
    rfl
  case h_3 hkind =>
    rw [entriesIn_function (Or.inr hkind), List.map_filterMap]
    simp only [Option.map_map]
    rfl
  case h_4 hdeclarator hdeclaration hexpression =>
    apply entriesIn_eq_nil
    intro noted h
    rcases cases_of_mem_notesAt h with
      ⟨hkind | hkind, -⟩ | ⟨-, htable⟩ | ⟨hkind, -⟩ | ⟨-, h⟩ | ⟨-, h⟩
    · exact absurd hkind hdeclaration
    · exact absurd hkind hexpression
    · simp [htable]
    · exact absurd hkind hdeclarator
    · obtain ⟨_, _, _, _, _, rfl⟩ := mem_callNotes_iff.mp h
      simp
    · obtain ⟨_, _, rfl⟩ := mem_assignmentNotes_iff.mp h
      simp

/-- What a node notes as imported are the names that it brings in. -/
theorem entriesIn_imported (n : Node) :
    entriesIn .imported (notesAt n) = n.importedNames.map fun name => (name, n.span) := by
  unfold Node.importedNames
  split
  · rename_i hkind
    have hnotes : notesAt n = (n.children "specifiers").flatMap (importNotes n) := by
      simp [notesAt, hkind]
    rw [hnotes, entriesIn, List.filterMap_flatMap, List.map_filterMap,
      List.filterMap_eq_flatMap_toList]
    apply List.flatMap_congr
    intro specifier _
    unfold importNotes
    cases specifier.nameAt "local" <;> simp
  · rename_i hkind
    apply entriesIn_eq_nil
    intro noted h
    rcases cases_of_mem_notesAt h with ⟨-, htable⟩ | ⟨himport, -⟩ | ⟨hkind, h⟩ | ⟨-, h⟩ | ⟨-, h⟩
    · simp [htable]
    · exact absurd himport hkind
    · obtain ⟨_, _, -, rfl | h | h⟩ := (mem_declaratorNotes_iff hkind).mp h
      · simp
      · obtain ⟨_, _, ⟨_, rfl⟩ | ⟨_, rfl⟩⟩ := mem_annotationNotes_iff.mp h <;> simp
      · obtain ⟨_, _, _, rfl⟩ := mem_initNotes_iff.mp h
        simp
    · obtain ⟨_, _, _, _, _, rfl⟩ := mem_callNotes_iff.mp h
      simp
    · obtain ⟨_, _, rfl⟩ := mem_assignmentNotes_iff.mp h
      simp

end Names

/-- Where visits are entered one after the other, there is an event of the walk that enters each. -/
theorem Event.exists_split_of_entered {events : List Event} {before after : List Visit}
    {visit : Visit} (h : entered events = before ++ visit :: after) :
    ∃ first rest, events = first ++ .enter visit :: rest ∧ entered first = before := by
  obtain ⟨first, rest, rfl, rfl, hrest⟩ := List.filterMap_eq_append_iff.mp h
  obtain ⟨between, event, rest, rfl, hbetween, hevent, -⟩ := List.filterMap_eq_cons_iff.mp hrest
  have henter : event = .enter visit := by
    cases event with
    | enter other => rw [Option.some.inj hevent]
    | leave other => cases hevent
  refine ⟨first ++ between, rest, by rw [henter, List.append_assoc], ?_⟩
  rw [entered_append, entered, entered, List.filterMap_eq_nil_iff.mpr hbetween, List.append_nil]

/-- An identifier is a reference where it is bound by none, and its field says so. -/
theorem Visit.isSome_reference?_iff {bindings : List Nat} {visit : Visit} :
    (visit.reference? bindings).isSome = true ↔
      visit.node.id ∉ bindings ∧ (visit.reference? []).isSome = true := by
  unfold Visit.reference?
  by_cases h : visit.node.id ∈ bindings <;> simp [h]

namespace Survey

variable (program : Node)

/-- The declared names at the end are those that nodes declare, each at the first of these. -/
theorem declared_eq_collect :
    ((Survey.ofProgram program).run program.events).names.declared =
      NameTable.collect NameTable.putNew (NameTable.entriesOf (fun declaration => [declaration.1])
        (fun declaration => declaration.2.span)
        (program.visits.flatMap fun visit => visit.node.declarations)) := by
  rw [declared_ofProgram]
  simp only [Names.entriesIn_declared, NameTable.entriesOf, List.flatMap_assoc, List.map_singleton,
    ← List.map_eq_flatMap]

/-- The imported names at the end are those that nodes bring in, each at the last of these. -/
theorem imported_eq_collect :
    ((Survey.ofProgram program).run program.events).names.imported =
      NameTable.collect NameTable.put (NameTable.entriesOf (fun visit => visit.node.importedNames)
        (fun visit => visit.node.span) program.visits) := by
  rw [imported_ofProgram]
  simp only [Names.entriesIn_imported]
  rfl

/-- The names read at the end are those that the tree reads. -/
theorem mem_used_iff {name : String} :
    name ∈ ((Survey.ofProgram program).run program.events).names.used ↔ program.Reads name := by
  have hfresh : name ∉ (Survey.ofProgram program).names.used := List.not_mem_nil
  have hunbound (id : Nat) : id ∉ (Survey.ofProgram program).names.bindings := List.not_mem_nil
  rw [mem_used_run, or_iff_right hfresh]
  constructor
  · rintro ⟨stage, hstage, hname, hread⟩
    obtain ⟨before, after, hsplit, hknown⟩ := exists_split_of_mem_stages hstage
    obtain ⟨hfree, hread⟩ := Visit.isSome_reference?_iff.mp hread
    refine ⟨entered before, stage.1, entered after, ?_, hname, ?_, hread⟩
    · have hvisits : program.visits = entered program.events := rfl
      rw [hvisits, hsplit, List.append_assoc, entered_append]
      rfl
    · intro earlier hearlier bound hbound hid
      apply hfree
      rw [hknown, mem_bindings_run, entered_append]
      exact Or.inr ⟨earlier, List.mem_append_left _ hearlier, bound, hbound, hid⟩
  · rintro ⟨before, visit, after, hvisits, hname, hfree, hread⟩
    obtain ⟨first, rest, hsplit, rfl⟩ := exists_split_of_entered hvisits
    refine ⟨_, mem_stages_of_split hsplit _, hname, Visit.isSome_reference?_iff.mpr ⟨?_, hread⟩⟩
    have hkind : visit.node.kind = "Identifier" := by
      by_contra hkind
      rw [Node.name?, if_neg hkind] at hname
      cases hname
    -- the identifier binds nothing itself
    have hbindings : (((Survey.ofProgram program).run first).enter visit).names.bindings =
        ((Survey.ofProgram program).run first).names.bindings := by
      rw [Survey.enter, Names.enter_identifier _ hkind, Names.bindings_addReference]
    rw [hbindings, mem_bindings_run]
    rintro (h | ⟨earlier, hearlier, bound, hbound, hid⟩)
    · exact hunbound _ h
    · exact hfree earlier hearlier bound hbound hid

end Survey

end PureLint
