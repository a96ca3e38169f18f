import PureLint.Proofs.Survey.Reference
import PureLint.Proofs.Tree.Placement
import PureLint.Rule.Effect

/-!
# Names of parameters

A function with a body binds the names of its parameters, at any depth of their patterns. Of a
signature only the tables tell that it has parameters, and these look no further than the parent:
a name that a signature's parameter declares inside a pattern counts as a value that is read.
-/

namespace PureLint

open Event

/-- The kinds of node that declare parameters but have no body. -/
def Node.signatureKinds : List String :=
  ["TSDeclareFunction", "TSFunctionType", "TSConstructorType", "TSCallSignatureDeclaration",
    "TSConstructSignatureDeclaration", "TSMethodSignature"]

namespace Reference

/-- What stands in a field that a pattern holds a part in is read as a value, as far as the tables
tell: types stand only on the left of a qualified name. -/
theorem inField?_of_mem_patternFields {parent : Node} {key : String}
    (hkey : key ∈ Node.patternFields) (hleft : key = "left" → parent.kind = "AssignmentPattern") :
    inField? parent key = some .value := by
  have hname : key ∉ (nameFields.lookup parent.kind).getD [] := by
    cases hlookup : nameFields.lookup parent.kind with
    | none => exact List.not_mem_nil
    | some fields =>
      have hentries : ∀ entry ∈ nameFields, ∀ key ∈ Node.patternFields, key ∉ entry.2 := by decide
      exact hentries _ (mem_of_lookup hlookup) key hkey
  have hproperty : keyFields.lookup parent.kind ≠ some key := by
    intro hlookup
    have hentries : ∀ entry ∈ keyFields, entry.2 ∉ Node.patternFields := by decide
    exact hentries _ (mem_of_lookup hlookup) hkey
  have htype : typeFields.lookup parent.kind ≠ some key := by
    intro hlookup
    have hentries : ∀ entry ∈ typeFields, entry.2 ∈ Node.patternFields →
        entry.2 = "left" ∧ entry.1 ≠ "AssignmentPattern" := by decide
    obtain ⟨hkeyLeft, hkind⟩ := hentries _ (mem_of_lookup hlookup) hkey
    exact hkind (hleft hkeyLeft)
  simp [inField?, readAs, hname, hproperty, htype]

/-- A parameter of a signature is a name. -/
theorem inField?_params {fn : Node} (h : fn.hasKind Node.signatureKinds = true) :
    inField? fn "params" = none := by
  have hfields : ∀ kind ∈ Node.signatureKinds,
      ((nameFields.lookup kind).getD []).contains "params" = true := by decide
  exact if_pos (hfields _ (List.contains_iff_mem.mp h))

end Reference

namespace Names

section Bound

variable {root binder identifier : Node} (hbinder : root.Reaches binder)

include hbinder

/-- The way up from what parameters bind ends at a parameter. -/
theorem outermost_of_mem_parameters
    (h : identifier ∈ (binder.children "params").flatMap Node.boundIdentifiers) :
    ∃ top, root.Outermost identifier binder "params" top := by
  obtain ⟨param, hparam, hidentifier⟩ := List.mem_flatMap.mp h
  have hplace := hbinder.places_children hparam
  exact ⟨param, Node.outermost_of_mem_boundIdentifiers hplace (by decide) hidentifier⟩

/-- The way up from what the pattern in another field binds ends at the pattern. -/
theorem outermost_of_mem_identifiersAt {key : String} (hkey : key ∉ Node.patternFields)
    (h : identifier ∈ binder.identifiersAt key) :
    ∃ top, root.Outermost identifier binder key top := by
  unfold Node.identifiersAt at h
  split at h
  · rename_i pattern hpattern
    have hplace := hbinder.places_child hpattern
    exact ⟨pattern, Node.outermost_of_mem_boundIdentifiers hplace hkey h⟩
  · cases h

/-- The way up from what a node binds ends somewhere. Where that is the field of parameters, it
belongs to a function with a body. -/
theorem outermost_of_mem_boundAt (h : identifier ∈ boundAt binder) :
    ∃ holder key top, root.Outermost identifier holder key top ∧
      (key = "params" → holder.hasKind Node.functionKinds = true) := by
  unfold boundAt at h
  split at h
  case h_1 hkind | h_2 hkind | h_3 hkind =>
    obtain ⟨top, htop⟩ := outermost_of_mem_parameters hbinder h
    refine ⟨binder, "params", top, htop, fun _ => ?_⟩
    rw [Node.hasKind, hkind]
    decide
  case h_4 =>
    obtain ⟨top, htop⟩ := outermost_of_mem_identifiersAt hbinder (by decide) h
    exact ⟨binder, "param", top, htop, by simp⟩
  case h_5 =>
    obtain ⟨top, htop⟩ := outermost_of_mem_identifiersAt hbinder (by decide) h
    exact ⟨binder, "id", top, htop, by simp⟩
  case h_6 =>
    split at h
    · obtain ⟨specifier, hspecifier, hlocal⟩ := List.mem_filterMap.mp h
      have hplace := (hbinder.places_children hspecifier).reaches.places_child hlocal
      exact ⟨specifier, "local", identifier, ⟨.refl, hplace, by decide⟩, by simp⟩
    · cases h
  case h_7 => cases h

end Bound

/-- An identifier that is no reference leaves the names that are read as they are. -/
theorem used_enter_of_none {names : Names} {visit : Visit} (hkind : visit.node.kind = "Identifier")
    (h : visit.reference? (names.enter visit).bindings = none) :
    (names.enter visit).used = names.used := by
  rw [enter_identifier names hkind] at h ⊢
  rw [bindings_addReference] at h
  simp only [addReference, h]

/-- A function with a body binds what its parameters declare. -/
theorem boundAt_function {fn : Node} (h : fn.hasKind Node.functionKinds = true) :
    boundAt fn = (fn.children "params").flatMap Node.boundIdentifiers := by
  have hkind : fn.kind ∈ Node.functionKinds := List.contains_iff_mem.mp h
  simp only [Node.functionKinds, List.mem_cons, List.not_mem_nil, or_false] at hkind
  rcases hkind with hkind | hkind | hkind <;> simp only [boundAt, hkind]

end Names

namespace Survey

section Parameter

variable {root fn param identifier : Node} (hroot : root.Distinct) (hfn : root.Reaches fn)
  (hparam : param ∈ fn.children "params") (hidentifier : identifier ∈ param.boundIdentifiers)

include hroot hfn hparam hidentifier

/-- In a tree of distinct nodes, what a parameter declares is bound in the end exactly if the
parameter belongs to a function with a body. -/
theorem bound_parameter_iff (topLevel : TopLevel) :
    identifier.id ∈ (({ topLevel := topLevel } : Survey).run root.events).names.bindings ↔
      fn.hasKind Node.functionKinds = true := by
  have hplace := hfn.places_children hparam
  rw [mem_bindings_run, or_iff_right List.not_mem_nil]
  constructor
  · rintro ⟨visit, hvisit, bound, hbound, hid⟩
    have hbinder : root.Reaches visit.node := ⟨visit, hvisit, rfl⟩
    have hreached : root.Reaches identifier := hplace.reaches.of_mem_boundIdentifiers hidentifier
    have hsame : bound = identifier :=
      hroot.node_unique (hbinder.of_holds (Names.holds_of_mem_boundAt hbound)) hreached hid
    subst hsame
    -- the way up from the identifier ends at the parameter, so no other node binds it
    obtain ⟨holder, key, top, htop, hfunction⟩ := Names.outermost_of_mem_boundAt hbinder hbound
    have hparamTop : root.Outermost bound fn "params" param :=
      Node.outermost_of_mem_boundIdentifiers hplace (by decide) hidentifier
    obtain ⟨rfl, rfl, -⟩ := htop.unique hroot hparamTop
    exact hfunction rfl
  · intro hkind
    obtain ⟨visit, hvisit, rfl⟩ := hfn
    refine ⟨visit, hvisit, identifier, ?_, rfl⟩
    rw [Names.boundAt_function hkind]
    exact List.mem_flatMap.mpr ⟨param, hparam, hidentifier⟩

/-- In a tree of distinct nodes, what a parameter declares is no reference in a function with a
body, nor where it is the parameter itself; inside the pattern of a signature's parameter it counts
as a value that is read. -/
theorem reference?_parameter (hkind : fn.hasKind (Node.functionKinds ++ Node.signatureKinds) = true)
    (topLevel : TopLevel) {visit : Visit} (hvisit : visit ∈ root.visits)
    (hnode : visit.node = identifier) :
    let final := ({ topLevel := topLevel } : Survey).run root.events
    ((fn.hasKind Node.functionKinds = true ∨ identifier = param) → final.reference? visit = none) ∧
    (¬(fn.hasKind Node.functionKinds = true ∨ identifier = param) →
      final.reference? visit = some .value) := by
  intro final
  have hbound : identifier.id ∈ final.names.bindings ↔ fn.hasKind Node.functionKinds = true :=
    bound_parameter_iff hroot hfn hparam hidentifier topLevel
  have hplace := hfn.places_children hparam
  rw [reference?, Visit.reference?, hnode]
  by_cases hfunction : fn.hasKind Node.functionKinds = true
  · rw [if_pos (List.contains_iff_mem.mpr (hbound.mpr hfunction))]
    exact ⟨fun _ => rfl, fun h => absurd (Or.inl hfunction) h⟩
  · have hsignature : fn.hasKind Node.signatureKinds = true := by
      rw [Node.hasKind, List.contains_iff_mem] at hkind hfunction ⊢
      exact (List.mem_append.mp hkind).resolve_left hfunction
    rw [if_neg fun h => hfunction (hbound.mp (List.contains_iff_mem.mp h))]
    -- the visit is the one to the place where the identifier is found
    have hvisit_eq {parent : Node} {key : String} (h : root.Places parent key identifier) :
        visit = ⟨identifier, some parent, some key⟩ :=
      hroot.visit_unique hvisit h (congrArg Node.id hnode)
    rcases Node.placed_of_mem_boundIdentifiers hplace.reaches hidentifier with
      rfl | ⟨holder, key, hkey, hinner, hleft, -⟩
    · rw [hvisit_eq hplace]
      exact ⟨fun _ => Reference.inField?_params hsignature, fun h => absurd (Or.inr rfl) h⟩
    · have hne : identifier ≠ param := by
        rintro rfl
        obtain ⟨-, rfl⟩ := hroot.place_unique hplace hinner
        exact absurd hkey (by decide)
      rw [hvisit_eq hinner]
      exact ⟨fun h => absurd h (not_or.mpr ⟨hfunction, hne⟩),
        fun _ => Reference.inField?_of_mem_patternFields hkey hleft⟩

end Parameter

/-- **What a parameter declares is read only inside the patterns of signatures.** In a tree of
distinct nodes, let a node with parameters be visited, and let one of its parameters declare an
identifier, at any depth. The walk enters the identifier. If the node has a body, or the identifier
is the parameter itself, it is then no reference, no check for references is due at it, and no name
is noted as read. If the identifier stands inside the pattern of a signature's parameter, it counts
as a value, the checks for references are due, and its name is noted. -/
theorem parameter_read_iff (root : Node) (hroot : root.Distinct) {fn param identifier : Node}
    (hfn : root.Reaches fn)
    (hkind : fn.hasKind (Node.functionKinds ++ Node.signatureKinds) = true)
    (hparam : param ∈ fn.children "params") (hidentifier : identifier ∈ param.boundIdentifiers)
    (topLevel : TopLevel) :
    let start : Survey := { topLevel := topLevel }
    let onlyDeclared := fn.hasKind Node.functionKinds = true ∨ identifier = param
    (∃ before visit after,
      root.events = before ++ .enter visit :: after ∧ visit.node = identifier) ∧
    ∀ before visit after, root.events = before ++ .enter visit :: after →
      visit.node = identifier →
      let here := start.run before
      let inside := here.enter visit
      (onlyDeclared →
        inside.reference? visit = none ∧ inside.names.used = here.names.used ∧
        ∀ rules file,
          (Call.atVisit (.ofRules rules) file visit inside).filter Call.isReferenceCheck = []) ∧
      (¬onlyDeclared →
        inside.reference? visit = some .value ∧
        (∀ name, identifier.name? = some name → name ∈ inside.names.used) ∧
        ∀ rules file,
          (Call.atVisit (.ofRules rules) file visit inside).filter Call.isReferenceCheck =
            Call.atKind (.ofRules rules) file referenceCheckKind visit inside) := by
  intro start onlyDeclared
  have hreached : root.Reaches identifier :=
    (hfn.places_children hparam).reaches.of_mem_boundIdentifiers hidentifier
  refine ⟨hreached.exists_enter, ?_⟩
  intro before visit after hsplit hnode here inside
  have hstage : (visit, inside) ∈ start.stages root.events := mem_stages_of_split hsplit start
  have hvisit : visit ∈ root.visits := by
    apply mem_entered.mpr
    rw [hsplit]
    exact List.mem_append_right _ List.mem_cons_self
  have hfinal : inside.reference? visit = (start.run root.events).reference? visit :=
    reference?_stage hroot hstage
  obtain ⟨hsilent, hread⟩ :=
    reference?_parameter hroot hfn hparam hidentifier hkind topLevel hvisit hnode
  have hkind : visit.node.kind = "Identifier" := by
    rw [hnode]
    exact (Node.mem_boundIdentifiers_iff.mp hidentifier).1
  have hneverOwn : visit.node.kind ≠ referenceCheckKind := by
    rw [hkind]
    decide
  constructor
  · intro honly
    have hnone : inside.reference? visit = none := hfinal.trans (hsilent honly)
    refine ⟨hnone, ?_, ?_⟩
    · exact Names.used_enter_of_none hkind hnone
    · intro rules file
      have hunchecked : ¬inside.ChecksReference visit := by
        rintro (h | ⟨-, h⟩)
        · exact hneverOwn h
        · cases hnone.symm.trans h
      rw [Call.filter_atVisit, if_neg hunchecked]
  · intro hnot
    have hvalue : inside.reference? visit = some .value := hfinal.trans (hread hnot)
    refine ⟨hvalue, ?_, ?_⟩
    · intro name hname
      have hused : name ∈ (here.names.enter visit).used := by
        rw [Names.mem_used_enter, hnode]
        right
        refine ⟨hname, ?_⟩
        have hsome : (inside.reference? visit).isSome := by rw [hvalue]; rfl
        exact hsome
      exact hused
    · intro rules file
      have hchecked : inside.ChecksReference visit := Or.inr ⟨hkind, hvalue⟩
      rw [Call.filter_atVisit, if_pos hchecked]

/-- The tree of a declaration `declare function run(...process)`. -/
def restParameter : Node :=
  ⟨0, "TSDeclareFunction", .int 0, .int 0, [("params", .array [
    .atStart 1 "RestElement" [("argument", .atStart 2 "Identifier" [("name", .text "process")])]])]⟩

/-- What the rest parameter declares is entered once, and then counts as a value that is read. -/
theorem parameter_read_iff_restParameter :
    restParameter.Distinct ∧
      ∃ param ∈ restParameter.children "params", ∃ identifier ∈ param.boundIdentifiers,
        ∃ before visit after, restParameter.events = before ++ .enter visit :: after ∧
          visit.node = identifier ∧
          let inside := (({ topLevel := {} } : Survey).run before).enter visit
          inside.reference? visit = some .value ∧ "process" ∈ inside.names.used := by
  have hdistinct : restParameter.Distinct := by decide
  have hreached : restParameter.Reaches restParameter :=
    ⟨⟨restParameter, none, none⟩, List.mem_cons_self, rfl⟩
  obtain ⟨param, hparam, identifier, hidentifier, hname, hne⟩ :
      ∃ param ∈ restParameter.children "params", ∃ identifier ∈ param.boundIdentifiers,
        identifier.name? = some "process" ∧ identifier.id ≠ param.id := by
    refine ⟨_, List.mem_cons_self, _, Node.mem_boundIdentifiers_iff.mpr ⟨?_, .single
      (@Node.PatternStep.wrapped _ _ "argument" (by decide) rfl)⟩, ?_⟩
    · rfl
    · decide
  obtain ⟨⟨before, visit, after, hsplit, hnode⟩, hinside⟩ :=
    parameter_read_iff restParameter hdistinct hreached (by decide) hparam hidentifier {}
  have hnested : ¬(restParameter.hasKind Node.functionKinds = true ∨ identifier = param) := by
    rintro (hfunction | rfl)
    · exact absurd hfunction (by decide)
    · exact hne rfl
  obtain ⟨hvalue, hused, -⟩ := (hinside before visit after hsplit hnode).2 hnested
  exact ⟨hdistinct, param, hparam, identifier, hidentifier, before, visit, after, hsplit, hnode,
    hvalue, hused "process" hname⟩

/-- The use of the global `process` is reported where only a parameter is declared. -/
theorem globalProcess_restParameter :
    restParameter.Distinct ∧
      (∃ param ∈ restParameter.children "params", ∃ identifier ∈ param.boundIdentifiers,
        ∃ stage ∈ ({ topLevel := {} } : Survey).stages restParameter.events,
          stage.1.node = identifier ∧ stage.2.reference? stage.1 = some .value) ∧
      let options : AnalysisOptions :=
        { filePath := "src/a.ts"
          source := ""
          traits := Path.classify "src/a.ts"
          rules := [Rule.noGlobalProcess] }
      (options.check restParameter []).diagnostics.map (·.rule) = ["no-global-process"] := by
  refine ⟨by decide, ?_, by decide +kernel⟩
  refine ⟨_, List.mem_cons_self, _, Node.mem_boundIdentifiers_iff.mpr ⟨?_, .single
    (@Node.PatternStep.wrapped _ _ "argument" (by decide) rfl)⟩, _,
    List.getLast_mem (List.cons_ne_nil _ _), ?_, ?_⟩
  · rfl
  · rfl
  · decide +kernel

end Survey

end PureLint
