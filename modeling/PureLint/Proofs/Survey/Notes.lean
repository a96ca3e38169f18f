import PureLint.Proofs.Survey.Names
import PureLint.Survey.Basic

/-!
# Notes on names

Apart from what is bound and read, what a node adds to the names of a file are notes in five tables,
and which notes these are depends on the node alone. So a table holds at the end of a walk what the
entered nodes have noted there: each name once, whatever the order of the nodes.
-/

namespace PureLint

namespace Names

/-- The tables in which the walk notes names. -/
inductive Table where
  | declared
  | imported
  | arrays
  | mutated
  | readonlyArrays
  deriving DecidableEq

/-- A name that is noted in a table, with the place where it was found. -/
structure Note where
  table : Table
  name : String
  span : Span

/-- The names with one more note. Two of the tables keep no places. -/
def note (names : Names) (note : Note) : Names :=
  match note.table with
  | .declared => names.declare note.name note.span
  | .imported => { names with imported := names.imported.put note.name note.span }
  | .arrays => names.addArray note.name note.span
  | .mutated => { names with mutated := addOnce note.name names.mutated }
  | .readonlyArrays => { names with readonlyArrays := addOnce note.name names.readonlyArrays }

/-- The names in a table, in their order. -/
def inTable (names : Names) : Table → List String
  | .declared => names.declared.map Prod.fst
  | .imported => names.imported.map Prod.fst
  | .arrays => names.arrays.map Prod.fst
  | .mutated => names.mutated
  | .readonlyArrays => names.readonlyArrays

/-- The entries of all tables that keep places. -/
def places (names : Names) : NameTable := names.declared ++ names.imported ++ names.arrays

/-! ## What a node notes -/

/-- What the written type of a variable notes. -/
def annotationNotes (name : String) (span : Span) (type : Option Node) : List Note :=
  match type with
  | none => []
  | some type =>
    if isArrayType type then [⟨.arrays, name, span⟩]
    else if isReadonlyArrayType type then [⟨.readonlyArrays, name, span⟩]
    else []

/-- What the initial value of a variable notes. -/
def initNotes (declarator : Node) (name : String) (type : Option Node) : List Note :=
  match declarator.child "init" with
  | some init =>
    if isArrayInit type init.unparenthesized then [⟨.arrays, name, declarator.span⟩] else []
  | none => []

/-- What the declaration of a variable notes. -/
def declaratorNotes (declarator : Node) : List Note :=
  match declarator.child "id" with
  | none => []
  | some id =>
    match id.name? with
    | none => []
    | some name =>
      ⟨.declared, name, declarator.span⟩ ::
        (annotationNotes name declarator.span id.annotatedType ++
          initNotes declarator name id.annotatedType)

/-- What a parameter of a function notes. -/
def parameterNotes (declares : Bool) (param : Node) : List Note :=
  if declares then
    match param.parameterName with
    | some name => [⟨.declared, name, param.span⟩]
    | none => []
  else []

/-- What a specifier of an import declaration notes. -/
def importNotes (declaration specifier : Node) : List Note :=
  match specifier.nameAt "local" with
  | some name => [⟨.imported, name, declaration.span⟩]
  | none => []

/-- What a call notes. -/
def callNotes (call : Node) : List Note :=
  match call.calleeMember with
  | some ⟨_, some object, property⟩ =>
    if mutatingMethods.contains property then [⟨.mutated, object, call.span⟩] else []
  | _ => []

/-- What an assignment notes. -/
def assignmentNotes (assignment : Node) : List Note :=
  match assignedIndexOf assignment with
  | some name => [⟨.mutated, name, assignment.span⟩]
  | none => []

/-- What a node notes as the walk enters it. -/
def notesAt (n : Node) : List Note :=
  match n.kind with
  | "FunctionDeclaration" | "FunctionExpression" | "ArrowFunctionExpression" =>
    (n.children "params").flatMap (parameterNotes (n.kind != "ArrowFunctionExpression"))
  | "VariableDeclarator" => declaratorNotes n
  | "ImportDeclaration" => (n.children "specifiers").flatMap (importNotes n)
  | "CallExpression" => callNotes n
  | "AssignmentExpression" => assignmentNotes n
  | _ => []

/-- What the written type of a variable notes has the place of the variable. -/
theorem span_of_mem_annotationNotes {name : String} {span : Span} {type : Option Node} {n : Note}
    (h : n ∈ annotationNotes name span type) : n.span = span := by
  unfold annotationNotes at h
  split at h
  · cases h
  · split at h
    · cases List.mem_singleton.mp h
      rfl
    · split at h
      · cases List.mem_singleton.mp h
        rfl
      · cases h

/-- What the initial value of a variable notes has the place of the variable. -/
theorem span_of_mem_initNotes {declarator : Node} {name : String} {type : Option Node} {n : Note}
    (h : n ∈ initNotes declarator name type) : n.span = declarator.span := by
  unfold initNotes at h
  split at h
  · split at h
    · cases List.mem_singleton.mp h
      rfl
    · cases h
  · cases h

/-- What the declaration of a variable notes has its place. -/
theorem span_of_mem_declaratorNotes {declarator : Node} {n : Note}
    (h : n ∈ declaratorNotes declarator) : n.span = declarator.span := by
  unfold declaratorNotes at h
  split at h
  · cases h
  · split at h
    · cases h
    · rcases List.mem_cons.mp h with rfl | h
      · rfl
      · rcases List.mem_append.mp h with h | h
        · exact span_of_mem_annotationNotes h
        · exact span_of_mem_initNotes h

/-- What a node notes has its place, or that of one of its parameters. -/
theorem span_of_mem_notesAt {node : Node} {n : Note} (h : n ∈ notesAt node) :
    n.span = node.span ∨ ∃ param ∈ node.children "params", n.span = param.span := by
  have hparameters (declares : Bool)
      (h : n ∈ (node.children "params").flatMap (parameterNotes declares)) :
      ∃ param ∈ node.children "params", n.span = param.span := by
    obtain ⟨param, hparam, h⟩ := List.mem_flatMap.mp h
    refine ⟨param, hparam, ?_⟩
    unfold parameterNotes at h
    split at h
    · split at h
      · cases List.mem_singleton.mp h
        rfl
      · cases h
    · cases h
  unfold notesAt at h
  split at h
  · exact Or.inr (hparameters _ h)
  · exact Or.inr (hparameters _ h)
  · exact Or.inr (hparameters _ h)
  · exact Or.inl (span_of_mem_declaratorNotes h)
  · left
    obtain ⟨specifier, -, h⟩ := List.mem_flatMap.mp h
    unfold importNotes at h
    split at h
    · cases List.mem_singleton.mp h
      rfl
    · cases h
  · left
    unfold callNotes at h
    split at h
    · split at h
      · cases List.mem_singleton.mp h
        rfl
      · cases h
    · cases h
  · left
    unfold assignmentNotes at h
    split at h
    · cases List.mem_singleton.mp h
      rfl
    · cases h
  · cases h

/-! ## The tables after a node -/

/-- The tables are the same in both, whatever is bound or read. -/
structure Tabled (names after : Names) : Prop where
  declared : after.declared = names.declared
  imported : after.imported = names.imported
  arrays : after.arrays = names.arrays
  mutated : after.mutated = names.mutated
  readonlyArrays : after.readonlyArrays = names.readonlyArrays

namespace Tabled

variable {names middle after : Names}

/-- The tables are the same where nothing is done. -/
theorem refl (names : Names) : Tabled names names := ⟨rfl, rfl, rfl, rfl, rfl⟩

/-- What is the same twice is the same. -/
theorem trans (h : Tabled names middle) (h' : Tabled middle after) : Tabled names after :=
  ⟨h'.declared.trans h.declared, h'.imported.trans h.imported, h'.arrays.trans h.arrays,
    h'.mutated.trans h.mutated, h'.readonlyArrays.trans h.readonlyArrays⟩

/-- Binding identifiers leaves the tables. -/
theorem bind (names : Names) (identifiers : List Node) : Tabled names (names.bind identifiers) :=
  ⟨rfl, rfl, rfl, rfl, rfl⟩

/-- One more note is the same in the same tables. -/
theorem note (h : Tabled names after) (n : Note) : Tabled (names.note n) (after.note n) := by
  obtain ⟨hdeclared, himported, harrays, hmutated, hreadonly⟩ := h
  cases n with
  | mk table name span =>
    cases table <;> constructor <;>
      simp only [Names.note, declare, addArray, hdeclared, himported, harrays, hmutated, hreadonly]

/-- More notes are the same in the same tables. -/
theorem foldl_note (h : Tabled names after) (notes : List Note) :
    Tabled (notes.foldl Names.note names) (notes.foldl Names.note after) := by
  induction notes generalizing names after with
  | nil => exact h
  | cons n notes ih => exact ih (h.note n)

/-- A fold of steps that each make notes makes the notes of all. -/
theorem foldl {α : Type} {step : Names → α → Names} {notes : α → List Note}
    (h : ∀ names a, Tabled ((notes a).foldl Names.note names) (step names a)) (names : Names)
    (items : List α) :
    Tabled ((items.flatMap notes).foldl Names.note names) (items.foldl step names) := by
  induction items generalizing names with
  | nil => exact refl names
  | cons a items ih =>
    rw [List.flatMap_cons, List.foldl_append, List.foldl_cons]
    exact ((h names a).foldl_note _).trans (ih (step names a))

end Tabled

/-- A parameter makes its notes. -/
theorem tabled_addParameter (declares : Bool) (names : Names) (param : Node) :
    Tabled ((parameterNotes declares param).foldl note names)
      (names.addParameter declares param) := by
  unfold addParameter parameterNotes
  cases declares with
  | false => exact Tabled.bind names _
  | true =>
    cases param.parameterName with
    | none => exact Tabled.bind names _
    | some name =>
      exact (Tabled.bind names param.boundIdentifiers).note ⟨.declared, name, param.span⟩

/-- A specifier of an import declaration makes its notes. -/
theorem addImport_eq (declaration : Node) (names : Names) (specifier : Node) :
    names.addImport declaration specifier =
      (importNotes declaration specifier).foldl note names := by
  unfold addImport importNotes
  cases specifier.nameAt "local" <;> rfl

/-- A call makes its notes. -/
theorem addCall_eq (names : Names) (call : Node) :
    names.addCall call = (callNotes call).foldl note names := by
  unfold addCall callNotes
  cases call.calleeMember with
  | none => rfl
  | some member =>
    obtain ⟨object, objectName, property⟩ := member
    cases objectName with
    | none => rfl
    | some name =>
      simp only
      split <;> rfl

/-- An assignment makes its notes. -/
theorem addAssignment_eq (names : Names) (assignment : Node) :
    names.addAssignment assignment = (assignmentNotes assignment).foldl note names := by
  unfold addAssignment assignmentNotes
  cases assignedIndexOf assignment <;> rfl

/-- The written type of a variable makes its notes. -/
theorem addAnnotated_eq (names : Names) (name : String) (span : Span) (type : Option Node) :
    names.addAnnotated name span type = (annotationNotes name span type).foldl note names := by
  unfold addAnnotated annotationNotes
  cases type with
  | none => rfl
  | some type =>
    simp only
    split
    · rfl
    · split <;> rfl

/-- The declaration of a variable makes its notes. -/
theorem addDeclarator_eq (names : Names) (declarator : Node) :
    names.addDeclarator declarator =
      (declaratorNotes declarator).foldl note (names.bind (declarator.identifiersAt "id")) := by
  unfold addDeclarator declaratorNotes
  generalize names.bind (declarator.identifiersAt "id") = names
  cases declarator.child "id" with
  | none => rfl
  | some id =>
    cases hname : id.name? with
    | none => simp only [hname, List.foldl_nil]
    | some name =>
      simp only [hname, addAnnotated_eq, List.foldl_cons, List.foldl_append]
      unfold initNotes
      cases declarator.child "init" with
      | none => rfl
      | some init =>
        simp only
        split <;> rfl

/-- A node makes its notes as the walk enters it. -/
theorem tabled_enter (names : Names) (visit : Visit) :
    Tabled ((notesAt visit.node).foldl note names) (names.enter visit) := by
  have hparameters : Tabled
      (((visit.node.children "params").flatMap
        (parameterNotes (visit.node.kind != "ArrowFunctionExpression"))).foldl note names)
      (names.addParameters visit.node) := Tabled.foldl (tabled_addParameter _) names _
  have himports : ((visit.node.children "specifiers").flatMap (importNotes visit.node)).foldl note
      names = (visit.node.children "specifiers").foldl (addImport visit.node) names := by
    rw [List.foldl_flatMap]
    simp only [← addImport_eq]
  unfold enter notesAt
  simp only
  generalize visit.node.kind = kind at hparameters ⊢
  split
  · exact hparameters
  · exact hparameters
  · exact hparameters
  · rw [addDeclarator_eq]
    exact (Tabled.bind names _).foldl_note _
  · rw [himports]
    exact Tabled.refl _
  · exact addCall_eq names visit.node ▸ Tabled.refl _
  · exact addAssignment_eq names visit.node ▸ Tabled.refl _
  · split
    case h_4 => exact Tabled.bind names _
    case h_7 =>
      unfold addReexport
      split
      · exact Tabled.bind names _
      · exact Tabled.refl names
    case h_10 =>
      unfold addReference
      split
      · exact ⟨rfl, rfl, rfl, rfl, rfl⟩
      · exact Tabled.refl names
    case h_11 => exact Tabled.refl names
    all_goals contradiction

/-! ## What a table holds -/

/-- An entry of a table with a name is found under the name. -/
theorem isSome_lookup_iff {table : NameTable} {name : String} :
    (table.lookup name).isSome = true ↔ name ∈ table.map Prod.fst := by
  induction table with
  | nil => simp
  | cons entry rest ih =>
    obtain ⟨key, span⟩ := entry
    rw [lookup_cons_ite, List.map_cons, List.mem_cons]
    by_cases h : name = key <;> simp [h, ih]

/-- Putting a name adds it to the names, unless it is there already. -/
theorem keys_put (name : String) (span : Span) (table : NameTable) :
    (table.put name span).map Prod.fst = addOnce name (table.map Prod.fst) := by
  induction table with
  | nil => rfl
  | cons entry rest ih =>
    obtain ⟨key, old⟩ := entry
    rw [NameTable.put]
    split
    · rename_i h
      simp [addOnce, h]
    · rename_i h
      rw [List.map_cons, ih]
      simp only [addOnce, List.map_cons, List.contains_cons, beq_eq_false_iff_ne.mpr (Ne.symm h),
        Bool.false_or, List.cons_append]
      split <;> rfl

/-- Putting a name that may have a place adds it to the names, unless it is there already. -/
theorem keys_putNew (name : String) (span : Span) (table : NameTable) :
    (table.putNew name span).map Prod.fst = addOnce name (table.map Prod.fst) := by
  unfold NameTable.putNew addOnce
  by_cases h : name ∈ table.map Prod.fst
  · rw [if_pos (isSome_lookup_iff.mpr h), if_pos (List.contains_iff_mem.mpr h)]
  · rw [if_neg (mt isSome_lookup_iff.mp h), if_neg (mt List.contains_iff_mem.mp h), List.map_append]
    rfl

/-- A note adds its name to its table, unless it is there already, and to no other table. -/
theorem inTable_note (names : Names) (n : Note) (table : Table) :
    (names.note n).inTable table =
      if n.table = table then addOnce n.name (names.inTable table) else names.inTable table := by
  obtain ⟨noted, name, span⟩ := n
  cases noted <;> cases table <;>
    simp [note, declare, addArray, inTable, keys_put, keys_putNew]

/-- A table holds after notes what it held before and what was noted there. -/
theorem mem_inTable_foldl (names : Names) (notes : List Note) (table : Table) (name : String) :
    name ∈ (notes.foldl note names).inTable table ↔
      name ∈ names.inTable table ∨ ∃ n ∈ notes, n.table = table ∧ n.name = name := by
  induction notes generalizing names with
  | nil => simp
  | cons n notes ih =>
    rw [List.foldl_cons, ih, inTable_note]
    by_cases h : n.table = table <;> simp [h, mem_addOnce, or_assoc]

/-- A table holds each name once. -/
theorem nodup_inTable_foldl {names : Names} {table : Table} (h : (names.inTable table).Nodup)
    (notes : List Note) : ((notes.foldl note names).inTable table).Nodup := by
  induction notes generalizing names with
  | nil => exact h
  | cons n notes ih =>
    apply ih
    rw [inTable_note]
    split
    · exact nodup_addOnce h n.name
    · exact h

/-- Where the tables are the same they hold the same names. -/
theorem Tabled.inTable {names after : Names} (h : Tabled names after) (table : Table) :
    after.inTable table = names.inTable table := by
  obtain ⟨hdeclared, himported, harrays, hmutated, hreadonly⟩ := h
  cases table <;>
    simp only [Names.inTable, hdeclared, himported, harrays, hmutated, hreadonly]

/-- Where the tables are the same they keep the same places. -/
theorem Tabled.places {names after : Names} (h : Tabled names after) :
    after.places = names.places := by
  unfold Names.places
  rw [h.declared, h.imported, h.arrays]

/-- A place that is kept after a name is put was kept before, or is that of the name. -/
theorem mem_put {name : String} {span : Span} {table : NameTable} {entry : String × Span}
    (h : entry ∈ table.put name span) : entry ∈ table ∨ entry = (name, span) := by
  induction table with
  | nil => exact Or.inr (List.mem_singleton.mp h)
  | cons first rest ih =>
    obtain ⟨key, old⟩ := first
    rw [NameTable.put] at h
    split at h
    · rename_i hkey
      rcases List.mem_cons.mp h with h | h
      · exact Or.inr (h.trans (by rw [hkey]))
      · exact Or.inl (List.mem_cons_of_mem _ h)
    · rcases List.mem_cons.mp h with h | h
      · exact Or.inl (h ▸ List.mem_cons_self)
      · exact (ih h).imp_left (List.mem_cons_of_mem _)

/-- A place that is kept after a name without one is put was kept before, or is that of the name. -/
theorem mem_putNew {name : String} {span : Span} {table : NameTable} {entry : String × Span}
    (h : entry ∈ table.putNew name span) : entry ∈ table ∨ entry = (name, span) := by
  unfold NameTable.putNew at h
  split at h
  · exact Or.inl h
  · exact (List.mem_append.mp h).imp_right List.mem_singleton.mp

/-- A place that is kept after a note was kept before, or is that of the note. -/
theorem mem_places_note {names : Names} {n : Note} {entry : String × Span}
    (h : entry ∈ (names.note n).places) : entry ∈ names.places ∨ entry = (n.name, n.span) := by
  obtain ⟨noted, name, span⟩ := n
  simp only [places, List.mem_append] at h ⊢
  cases noted with
  | declared =>
    rcases h with (h | h) | h
    · exact (mem_putNew h).imp_left fun h => Or.inl (Or.inl h)
    · exact Or.inl (Or.inl (Or.inr h))
    · exact Or.inl (Or.inr h)
  | imported =>
    rcases h with (h | h) | h
    · exact Or.inl (Or.inl (Or.inl h))
    · exact (mem_put h).imp_left fun h => Or.inl (Or.inr h)
    · exact Or.inl (Or.inr h)
  | arrays =>
    rcases h with (h | h) | h
    · exact Or.inl (Or.inl (Or.inl h))
    · exact Or.inl (Or.inl (Or.inr h))
    · exact (mem_put h).imp_left Or.inr
  | mutated => exact Or.inl h
  | readonlyArrays => exact Or.inl h

/-- A place that is kept after notes was kept before, or is that of a note. -/
theorem mem_places_foldl {names : Names} {notes : List Note} {entry : String × Span}
    (h : entry ∈ (notes.foldl note names).places) :
    entry ∈ names.places ∨ ∃ n ∈ notes, entry = (n.name, n.span) := by
  induction notes generalizing names with
  | nil => exact Or.inl h
  | cons n notes ih =>
    rcases ih h with h | ⟨other, hother, h⟩
    · exact (mem_places_note h).imp_right fun h => ⟨n, List.mem_cons_self, h⟩
    · exact Or.inr ⟨other, List.mem_cons_of_mem _ hother, h⟩

end Names

namespace Survey

open Event (entered)

/-- To what was noted before, a walk adds the notes of all entered nodes. -/
theorem tabled_run (s : Survey) (events : List Event) :
    Names.Tabled (((entered events).flatMap fun visit => Names.notesAt visit.node).foldl Names.note
      s.names) (s.run events).names := by
  induction events generalizing s with
  | nil => exact Names.Tabled.refl _
  | cons event events ih =>
    cases event with
    | enter visit =>
      rw [Event.entered_enter, List.flatMap_cons, List.foldl_append]
      exact ((Names.tabled_enter s.names visit).foldl_note _).trans (ih (s.enter visit))
    | leave visit => exact ih (s.leave visit.node)

/-- The walk does not change what is known about the top level. -/
@[simp] theorem topLevel_run (s : Survey) (events : List Event) :
    (s.run events).topLevel = s.topLevel := by
  induction events generalizing s with
  | nil => rfl
  | cons event events ih =>
    rw [run_cons, ih]
    cases event <;> rfl

/-- From a fresh survey on, a table holds the names that the entered nodes have noted there, each
once. -/
theorem inTable_run (topLevel : TopLevel) (events : List Event) (table : Names.Table) :
    let names := (({ topLevel := topLevel } : Survey).run events).names
    (names.inTable table).Nodup ∧ ∀ name, name ∈ names.inTable table ↔
      ∃ visit ∈ entered events, ∃ n ∈ Names.notesAt visit.node,
        n.table = table ∧ n.name = name := by
  intro names
  have htabled := tabled_run { topLevel := topLevel } events
  have hfresh : (({} : Names).inTable table) = [] := by cases table <;> rfl
  rw [htabled.inTable table]
  constructor
  · apply Names.nodup_inTable_foldl
    rw [hfresh]
    exact List.nodup_nil
  · intro name
    rw [Names.mem_inTable_foldl, hfresh, or_iff_right List.not_mem_nil]
    constructor
    · rintro ⟨n, hn, hnoted⟩
      obtain ⟨visit, hvisit, hn⟩ := List.mem_flatMap.mp hn
      exact ⟨visit, hvisit, n, hn, hnoted⟩
    · rintro ⟨visit, hvisit, n, hn, hnoted⟩
      exact ⟨n, List.mem_flatMap.mpr ⟨visit, hvisit, hn⟩, hnoted⟩

/-- From a fresh survey on, each place that is kept with a name is one that an entered node has
noted. -/
theorem mem_places_run {topLevel : TopLevel} {events : List Event} {entry : String × Span}
    (h : entry ∈ (({ topLevel := topLevel } : Survey).run events).names.places) :
    ∃ visit ∈ entered events, ∃ n ∈ Names.notesAt visit.node, entry = (n.name, n.span) := by
  rw [(tabled_run { topLevel := topLevel } events).places] at h
  rcases Names.mem_places_foldl h with h | ⟨n, hn, h⟩
  · cases h
  · obtain ⟨visit, hvisit, hn⟩ := List.mem_flatMap.mp hn
    exact ⟨visit, hvisit, n, hn, h⟩

end Survey

end PureLint
