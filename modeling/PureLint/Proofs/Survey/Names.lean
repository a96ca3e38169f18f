import PureLint.Proofs.Tree.Inside
import PureLint.Survey.Names

/-!
# What a node adds to the names

Of the nodes that the walk enters, some bind identifiers that stand inside them, and identifiers are
noted as read. No node does both, and nothing bound or read is forgotten.
-/

namespace PureLint.Names

/-- The identifiers that a node binds as the walk enters it. -/
def boundAt (n : Node) : List Node :=
  match n.kind with
  | "FunctionDeclaration" | "FunctionExpression" | "ArrowFunctionExpression" =>
    (n.children "params").flatMap Node.boundIdentifiers
  | "CatchClause" => n.identifiersAt "param"
  | "VariableDeclarator" => n.identifiersAt "id"
  | "ExportNamedDeclaration" =>
    if (n.child "source").isSome then
      (n.children "specifiers").filterMap (·.child "local")
    else []
  | _ => []

/-- The identifiers bound by the pattern in a field are inside the node. -/
theorem holds_of_mem_identifiersAt {n identifier : Node} {key : String}
    (h : identifier ∈ n.identifiersAt key) : n.Holds identifier := by
  unfold Node.identifiersAt at h
  split at h
  · rename_i pattern hpattern
    have hbound := Node.eq_or_holds_of_mem_boundIdentifiers h
    exact (Node.holds_child hpattern).of_eq_or hbound
  · cases h

/-- The identifiers bound by the parameters are inside the function. -/
theorem holds_of_mem_parameters {fn identifier : Node}
    (h : identifier ∈ (fn.children "params").flatMap Node.boundIdentifiers) :
    fn.Holds identifier := by
  obtain ⟨param, hparam, hidentifier⟩ := List.mem_flatMap.mp h
  have hbound := Node.eq_or_holds_of_mem_boundIdentifiers hidentifier
  exact (Node.holds_children hparam).of_eq_or hbound

/-- A node binds only identifiers inside it. -/
theorem holds_of_mem_boundAt {n identifier : Node} (h : identifier ∈ boundAt n) :
    n.Holds identifier := by
  unfold boundAt at h
  split at h
  · exact holds_of_mem_parameters h
  · exact holds_of_mem_parameters h
  · exact holds_of_mem_parameters h
  · exact holds_of_mem_identifiersAt h
  · exact holds_of_mem_identifiersAt h
  · split at h
    · obtain ⟨specifier, hspecifier, hlocal⟩ := List.mem_filterMap.mp h
      exact (Node.holds_children hspecifier).trans (Node.holds_child hlocal)
    · cases h
  · cases h

/-- The names that are read and the identifiers that bind one are the same in both. -/
structure Keeps (names after : Names) : Prop where
  used : after.used = names.used
  bindings : after.bindings = names.bindings

namespace Keeps

variable {names middle after : Names}

/-- Nothing changes where nothing is done. -/
theorem refl (names : Names) : Keeps names names := ⟨rfl, rfl⟩

/-- What is kept twice is kept. -/
theorem trans (h : Keeps names middle) (h' : Keeps middle after) : Keeps names after :=
  ⟨h'.used.trans h.used, h'.bindings.trans h.bindings⟩

/-- What every step keeps, a fold of the steps keeps. -/
theorem foldl {α : Type} {step : Names → α → Names} (h : ∀ names a, Keeps names (step names a))
    (names : Names) (items : List α) : Keeps names (items.foldl step names) := by
  induction items generalizing names with
  | nil => exact refl names
  | cons a items ih => exact (h names a).trans (ih (step names a))

/-- Binding the same identifiers keeps what is the same. -/
theorem bind (h : Keeps names after) (identifiers : List Node) :
    Keeps (names.bind identifiers) (after.bind identifiers) := by
  refine ⟨h.used, ?_⟩
  unfold Names.bind
  rw [h.bindings]

end Keeps

/-- An import binds no identifier and reads none. -/
theorem keeps_addImport (declaration : Node) (names : Names) (specifier : Node) :
    Keeps names (names.addImport declaration specifier) := by
  unfold addImport
  split <;> exact ⟨rfl, rfl⟩

/-- A call binds no identifier and reads none itself. -/
theorem keeps_addCall (names : Names) (call : Node) : Keeps names (names.addCall call) := by
  unfold addCall
  split
  · split <;> exact ⟨rfl, rfl⟩
  · exact Keeps.refl names

/-- An assignment binds no identifier and reads none itself. -/
theorem keeps_addAssignment (names : Names) (assignment : Node) :
    Keeps names (names.addAssignment assignment) := by
  unfold addAssignment
  split <;> exact ⟨rfl, rfl⟩

/-- The written type of a variable binds no identifier and reads none itself. -/
theorem keeps_addAnnotated (names : Names) (name : String) (span : Span) (type : Option Node) :
    Keeps names (names.addAnnotated name span type) := by
  unfold addAnnotated
  split
  · exact Keeps.refl names
  · split
    · exact ⟨rfl, rfl⟩
    · split <;> exact ⟨rfl, rfl⟩

/-- The declaration of a variable binds the identifiers of its pattern and reads none itself. -/
theorem keeps_addDeclarator (names : Names) (declarator : Node) :
    Keeps (names.bind (declarator.identifiersAt "id")) (names.addDeclarator declarator) := by
  unfold addDeclarator
  generalize names.bind (declarator.identifiersAt "id") = names
  simp only
  split
  · exact Keeps.refl names
  · rename_i id _
    split
    · exact Keeps.refl names
    · rename_i name _
      have hdeclared : Keeps names (names.declare name declarator.span) := ⟨rfl, rfl⟩
      have hannotated := hdeclared.trans
        (keeps_addAnnotated _ name declarator.span id.annotatedType)
      split
      · split
        · exact ⟨hannotated.used, hannotated.bindings⟩
        · exact hannotated
      · exact hannotated

/-- A parameter binds the identifiers of its pattern and reads none itself. -/
theorem keeps_addParameter (declares : Bool) (names : Names) (param : Node) :
    Keeps (names.bind param.boundIdentifiers) (names.addParameter declares param) := by
  unfold addParameter
  simp only
  split
  · split <;> exact ⟨rfl, rfl⟩
  · exact Keeps.refl _

/-- Identifiers of two lists are bound one after the other. -/
theorem bind_append (names : Names) (first second : List Node) :
    names.bind (first ++ second) = (names.bind first).bind second := by
  unfold bind
  rw [List.foldl_append]

/-- Parameters bind the identifiers of their patterns and read none themselves. -/
theorem keeps_addParameters (names : Names) (fn : Node) :
    Keeps (names.bind ((fn.children "params").flatMap Node.boundIdentifiers))
      (names.addParameters fn) := by
  unfold addParameters
  generalize fn.children "params" = params, (fn.kind != "ArrowFunctionExpression") = declares
  induction params generalizing names with
  | nil => exact ⟨rfl, rfl⟩
  | cons param params ih =>
    rw [List.flatMap_cons, bind_append, List.foldl_cons]
    have hparam := (keeps_addParameter declares names param).bind
      (params.flatMap Node.boundIdentifiers)
    exact hparam.trans (ih (names.addParameter declares param))

/-- A node that is no identifier binds its identifiers and reads none itself. -/
theorem keeps_enter (names : Names) {visit : Visit} (h : visit.node.kind ≠ "Identifier") :
    Keeps (names.bind (boundAt visit.node)) (names.enter visit) := by
  unfold enter boundAt
  simp only
  generalize visit.node.kind = kind at h ⊢
  split
  · exact keeps_addParameters names visit.node
  · exact keeps_addParameters names visit.node
  · exact keeps_addParameters names visit.node
  · exact Keeps.refl _
  · exact keeps_addDeclarator names visit.node
  · unfold addReexport
    split <;> exact Keeps.refl _
  · split
    case h_6 => exact Keeps.foldl (keeps_addImport visit.node) names _
    case h_8 => exact keeps_addCall names visit.node
    case h_9 => exact keeps_addAssignment names visit.node
    case h_11 => exact Keeps.refl names
    all_goals contradiction

/-- An identifier that is bound is known to be, beside those known before. -/
theorem mem_bindings_bind (names : Names) (identifiers : List Node) (id : Nat) :
    id ∈ (names.bind identifiers).bindings ↔
      id ∈ names.bindings ∨ ∃ n ∈ identifiers, n.id = id := by
  unfold bind
  generalize names.bindings = bindings
  induction identifiers generalizing bindings with
  | nil => simp
  | cons n identifiers ih =>
    rw [List.foldl_cons, ih, List.mem_cons]
    simp only [List.mem_cons, exists_eq_or_imp, eq_comm (a := id), or_assoc, or_left_comm]

/-- A reference binds no identifier. -/
theorem bindings_addReference (names : Names) (visit : Visit) :
    (names.addReference visit).bindings = names.bindings := by
  unfold addReference
  split <;> rfl

/-- A reference reads the name of the identifier, unless the identifier only declares it. -/
theorem mem_used_addReference (names : Names) (visit : Visit) (name : String) :
    name ∈ (names.addReference visit).used ↔
      name ∈ names.used ∨
        visit.node.name? = some name ∧ (visit.reference? names.bindings).isSome := by
  unfold addReference
  split
  · rename_i hkind hname
    simp [hkind, hname, mem_addOnce]
  · rename_i hneither
    constructor
    · exact Or.inl
    · rintro (h | ⟨hname, hkind⟩)
      · exact h
      · obtain ⟨kind, hkind⟩ := Option.isSome_iff_exists.mp hkind
        exact absurd hname (hneither kind name hkind)

/-- An identifier is entered as a reference. -/
theorem enter_identifier (names : Names) {visit : Visit} (h : visit.node.kind = "Identifier") :
    names.enter visit = names.addReference visit := by
  simp only [enter, h]

/-- The identifiers known to be bound after a node are those known before and those that the node
binds. -/
theorem mem_bindings_enter (names : Names) (visit : Visit) (id : Nat) :
    id ∈ (names.enter visit).bindings ↔
      id ∈ names.bindings ∨ ∃ n ∈ boundAt visit.node, n.id = id := by
  by_cases hkind : visit.node.kind = "Identifier"
  · have hnone : boundAt visit.node = [] := by
      unfold boundAt
      rw [hkind]
      rfl
    simp [enter_identifier names hkind, bindings_addReference, hnone]
  · rw [(keeps_enter names hkind).bindings, mem_bindings_bind]

/-- The names known to be read after a node are those known before and, if the node is an identifier
that reads one, its name. -/
theorem mem_used_enter (names : Names) (visit : Visit) (name : String) :
    name ∈ (names.enter visit).used ↔
      name ∈ names.used ∨ visit.node.name? = some name ∧
        (visit.reference? (names.enter visit).bindings).isSome := by
  by_cases hkind : visit.node.kind = "Identifier"
  · rw [enter_identifier names hkind, mem_used_addReference, bindings_addReference]
  · have hname : visit.node.name? = none := if_neg hkind
    simp [(keeps_enter names hkind).used, bind, hname]

end PureLint.Names
