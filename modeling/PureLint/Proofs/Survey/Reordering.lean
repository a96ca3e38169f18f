import PureLint.Proofs.Survey.Notes
import PureLint.Proofs.Survey.Reference
import PureLint.Proofs.Survey.Scope
import PureLint.Proofs.Survey.Statements
import PureLint.Proofs.Tree.Reordering

/-!
# Surveys of statements in another order

Along the walk over a program with its statements in another order, each node is visited in the same
scope, and an identifier is read in the same way. What is known at the end are the same names and
the same exports, in some order.
-/

namespace PureLint

/-! ## What a node tells -/

section Visit

variable {visit other : Visit}

/-- Of alike visits both are to a parameter, or none is. -/
theorem Scope.isParameter_alike (h : visit.Alike other) :
    isParameter other = isParameter visit := by
  unfold isParameter
  rw [h.node.same, h.key]
  rcases h.parent_cases with ⟨hnone, hother⟩ | ⟨n, m, hn, hm, hparent⟩
  · rw [hnone, hother]
  · rw [hn, hm]
    simp only [hparent.kind, hparent.child, hparent.isFunction]

/-- Alike visits open the same scope. -/
theorem Scope.opened?_alike (scope : Scope) (h : visit.Alike other) :
    scope.opened? other = scope.opened? visit := by
  unfold opened?
  rw [isParameter_alike h, h.node.kind, h.node.nameAt]

/-- The scope at alike lineages is the same. -/
theorem ScopeStack.scope_ofLineage_alike {lineage others : List Visit}
    (h : List.Forall₂ Visit.Alike lineage others) :
    (ofLineage others).scope = (ofLineage lineage).scope := by
  induction h with
  | nil => rfl
  | cons hvisit _ ih =>
    rw [ofLineage, ofLineage, scope_enter, scope_enter, ih, Scope.opened?_alike _ hvisit]

/-- Alike identifiers read their name in the same way, where the same identifiers are bound. -/
theorem Survey.reference?_alike {s t : Survey} (h : visit.Alike other)
    (hbound : ∀ id, id ∈ s.names.bindings ↔ id ∈ t.names.bindings) :
    t.reference? other = s.reference? visit := by
  unfold reference? Visit.reference?
  rw [h.node.id, h.key, ← contains_congr (hbound visit.node.id)]
  rcases h.parent_cases with ⟨hnone, hother⟩ | ⟨n, m, hn, hm, hparent⟩
  · rw [hnone, hother]
  · rw [hn, hm]
    cases visit.key with
    | none => rfl
    | some key => simp [Reference.inField?, Reference.readAs, hparent.kind, hparent.flag]

end Visit

namespace Names

variable {n m : Node}

/-- Alike nodes bind the same identifiers. -/
theorem boundAt_alike (h : n.Alike m) : boundAt m = boundAt n := by
  simp [boundAt, Node.identifiersAt, h.kind, h.child, h.children]

/-- Alike nodes note the same. -/
theorem notesAt_alike (h : n.Alike m) : notesAt m = notesAt n := by
  have himports : importNotes m = importNotes n := by
    funext specifier
    simp [importNotes, h.span]
  simp [notesAt, declaratorNotes, initNotes, callNotes, assignmentNotes, assignedIndexOf, himports,
    h.kind, h.child, h.children, h.span, h.calleeMember]

end Names

/-! ## What statements tell -/

/-- What is known about two top levels with the same statements in some order. -/
structure TopLevel.Alike (t u : TopLevel) : Prop where
  functions : t.functions.Perm u.functions
  others : t.others.Perm u.others
  names : ∀ name, name ∈ t.names ↔ name ∈ u.names
  reexports : t.reexports.Perm u.reexports
  processNames : ∀ name, name ∈ t.processNames ↔ name ∈ u.processNames

/-- Programs with the same statements have alike top levels. -/
theorem Node.Reordered.topLevel {program other : Node} (h : program.Reordered other) :
    (TopLevel.ofProgram program).Alike (TopLevel.ofProgram other) := by
  have hentries : (TopLevel.entries program).Perm (TopLevel.entries other) :=
    h.alike.body.flatMap_right _
  constructor
  · simp only [TopLevel.functions_ofProgram]
    exact hentries.filterMap _
  · simp only [TopLevel.others_ofProgram]
    exact hentries.filterMap _
  · simp only [TopLevel.mem_names_ofProgram]
    exact fun name => hentries.mem_iff
  · simp only [TopLevel.reexports_ofProgram]
    exact hentries.filterMap _
  · simp only [TopLevel.mem_processNames_ofProgram]
    exact fun name => hentries.mem_iff

/-! ## What is known at each node -/

namespace Survey

/-- What is known at two nodes in the same scope, about top levels with the same statements. -/
structure Alike (s t : Survey) : Prop where
  topLevel : s.topLevel.Alike t.topLevel
  scope : t.scope = s.scope

/-- Stages of two walks at alike visits, with as much known. -/
structure AlikeStages (stage other : Visit × Survey) : Prop where
  visit : stage.1.Alike other.1
  survey : stage.2.Alike other.2
  reference? : other.2.reference? other.1 = stage.2.reference? stage.1

/-- What is known about the names and the top levels of two programs with the same statements. -/
structure AlikeAtEnd (s t : Survey) : Prop where
  topLevel : s.topLevel.Alike t.topLevel
  table : ∀ table, (s.names.inTable table).Perm (t.names.inTable table)
  used : ∀ name, name ∈ s.names.used ↔ name ∈ t.names.used

/-- The top level is known at every stage of a walk. -/
theorem topLevel_of_mem_stages {s : Survey} {events : List Event} {stage : Visit × Survey}
    (h : stage ∈ s.stages events) : stage.2.topLevel = s.topLevel := by
  obtain ⟨before, after, -, hstage⟩ := exists_split_of_mem_stages h
  rw [hstage, topLevel_run]

/-- The stages of a walk over distinct nodes have the scopes of the lineages. -/
theorem forall₂_stages {root : Node} (hroot : root.Distinct) (topLevel : TopLevel) :
    List.Forall₂ (fun stage lineage => lineage.head? = some stage.1 ∧
        stage.2.scope = (ScopeStack.ofLineage lineage).scope)
      (({ topLevel := topLevel } : Survey).stages root.events) root.lineages := by
  rw [← Node.openAtEnters_events]
  refine (stages_scopes (Node.nests_events hroot.acyclic) List.Pairwise.nil rfl).imp ?_
  rintro stage lineage ⟨hhead, hscopes⟩
  exact ⟨hhead, congrArg ScopeStack.scope hscopes⟩

end Survey

namespace Node.Reordered

open Event

variable {program other : Node}

/-- In programs with the same statements the same identifiers are bound. -/
theorem mem_bindings (h : program.Reordered other) (id : Nat) :
    id ∈ ((Survey.ofProgram program).run program.events).names.bindings ↔
      id ∈ ((Survey.ofProgram other).run other.events).names.bindings := by
  rw [Survey.mem_bindings_run, Survey.mem_bindings_run]
  refine or_congr Iff.rfl (h.matched_visits.exists_mem_iff ?_)
  intro visit others hvisit
  rw [Names.boundAt_alike hvisit.node]

/-- The walks over programs with the same statements have alike stages, in some order. -/
theorem matched_stages (h : program.Reordered other) (hdistinct : program.Distinct) :
    Matched Survey.AlikeStages ((Survey.ofProgram program).stages program.events)
      ((Survey.ofProgram other).stages other.events) := by
  have hother := h.distinct hdistinct
  have hstages := Matched.of_forall₂
    (Survey.forall₂_stages hdistinct (TopLevel.ofProgram program))
  have hothers := Matched.of_forall₂ (Survey.forall₂_stages hother (TopLevel.ofProgram other))
  refine ((hstages.trans h.matched_lineages).trans hothers.symm).mono ?_
  rintro stage hstage others hmem
    ⟨lineage, ⟨own, ⟨hhead, hscope⟩, hlineage⟩, hotherHead, hotherScope⟩
  have hvisit : stage.1.Alike others.1 := by
    cases hlineage with
    | nil => cases hhead
    | cons hvisit _ =>
      cases hhead
      cases hotherHead
      exact hvisit
  refine ⟨hvisit, ⟨?_, ?_⟩, ?_⟩
  · rw [Survey.topLevel_of_mem_stages hstage, Survey.topLevel_of_mem_stages hmem]
    exact h.topLevel
  · rw [hscope, hotherScope, ScopeStack.scope_ofLineage_alike hlineage]
  · rw [Survey.reference?_stage hdistinct hstage, Survey.reference?_stage hother hmem]
    exact Survey.reference?_alike hvisit h.mem_bindings

/-- At the end of the walks over programs with the same statements as much is known. -/
theorem alikeAtEnd (h : program.Reordered other) (hdistinct : program.Distinct) :
    ((Survey.ofProgram program).run program.events).AlikeAtEnd
      ((Survey.ofProgram other).run other.events) := by
  constructor
  · rw [Survey.topLevel_run, Survey.topLevel_run]
    exact h.topLevel
  · intro table
    obtain ⟨hnodup, hmem⟩ :=
      Survey.inTable_run (TopLevel.ofProgram program) program.events table
    obtain ⟨hotherNodup, hotherMem⟩ :=
      Survey.inTable_run (TopLevel.ofProgram other) other.events table
    apply (List.perm_ext_iff_of_nodup hnodup hotherNodup).mpr
    intro name
    rw [hmem, hotherMem]
    apply h.matched_visits.exists_mem_iff
    intro visit others hvisit
    rw [Names.notesAt_alike hvisit.node]
  · intro name
    rw [Survey.mem_used_final hdistinct, Survey.mem_used_final (h.distinct hdistinct)]
    refine or_congr Iff.rfl (h.matched_visits.exists_mem_iff ?_)
    intro visit others hvisit
    rw [hvisit.node.name?, Survey.reference?_alike hvisit h.mem_bindings]

end Node.Reordered

end PureLint
