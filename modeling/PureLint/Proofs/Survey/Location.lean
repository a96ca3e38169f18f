import PureLint.Proofs.Diagnostic.Place
import PureLint.Proofs.Survey.Notes
import PureLint.Proofs.Survey.Statements
import PureLint.Tree.NamedFunction

/-!
# Whole offsets

Where all nodes of a tree begin at whole offsets, so does whatever is found in a node, and every
place that the survey keeps.
-/

namespace PureLint

/-- A node that begins at a whole offset, as does every node inside it. -/
structure Node.Whole (n : Node) : Prop where
  span : n.span.Whole
  inside : ∀ inner, n.Holds inner → inner.span.Whole

namespace Node.Whole

variable {n inner : Node} {key : String}

/-- What is inside a whole node is whole. -/
theorem of_holds (h : n.Whole) (hinner : n.Holds inner) : inner.Whole :=
  ⟨h.inside inner hinner, fun deeper hdeeper => h.inside deeper (hinner.trans hdeeper)⟩

/-- The node in a field of a whole node is whole. -/
theorem child (h : n.Whole) (hchild : n.child key = some inner) : inner.Whole :=
  h.of_holds (holds_child hchild)

/-- The nodes among the items of an array in a field of a whole node are whole. -/
theorem children (h : n.Whole) (hchild : inner ∈ n.children key) : inner.Whole :=
  h.of_holds (holds_children hchild)

/-- What is inside the parentheses of a whole node is whole. -/
theorem unparenthesized (h : n.Whole) : n.unparenthesized.Whole := by
  induction n using Node.unparenthesized.induct with
  | case1 n hkind expression hexpression ih =>
    rw [Node.unparenthesized, if_pos hkind]
    split
    · rename_i other hother
      cases hexpression.symm.trans hother
      exact ih (h.child hexpression)
    · exact h
  | case2 n hkind hexpression =>
    rw [Node.unparenthesized, if_pos hkind]
    split
    · rename_i other hother
      cases hexpression.symm.trans hother
    · exact h
  | case3 n hkind =>
    rw [Node.unparenthesized, if_neg hkind]
    exact h

/-- The functions that a whole node names are whole. -/
theorem namedFunctions (h : n.Whole) {parent : Option Node} {named : NamedFunction}
    (hnamed : named ∈ n.namedFunctions parent) : named.fn.Whole := by
  unfold Node.namedFunctions at hnamed
  split at hnamed
  · obtain ⟨name, -, rfl⟩ := Option.map_eq_some_iff.mp (Option.mem_toList.mp hnamed)
    exact h
  · unfold NamedFunction.ofExpression at hnamed
    split at hnamed
    · cases hnamed
    · obtain ⟨name, -, rfl⟩ := Option.map_eq_some_iff.mp (Option.mem_toList.mp hnamed)
      exact h
  · obtain ⟨declarator, hdeclarator, hnamed⟩ := List.mem_filterMap.mp hnamed
    obtain ⟨name, -, hnamed⟩ := Option.bind_eq_some_iff.mp hnamed
    obtain ⟨init, hinit, hnamed⟩ := Option.bind_eq_some_iff.mp hnamed
    split at hnamed
    · cases hnamed
      exact ((h.children hdeclarator).child hinit).unparenthesized
    · cases hnamed
  · unfold NamedFunction.ofDefaultExport at hnamed
    split at hnamed
    · cases hnamed
    · rename_i declaration hdeclaration
      simp only at hnamed
      split at hnamed
      · cases List.mem_singleton.mp hnamed
        exact (h.child hdeclaration).unparenthesized
      · cases hnamed
  · cases hnamed

end Node.Whole

/-- Where every visited node begins at a whole offset, the tree is whole. -/
theorem Node.whole_of_visits {root : Node} (h : ∀ visit ∈ root.visits, visit.node.span.Whole) :
    root.Whole := by
  rw [visits_eq] at h
  constructor
  · exact h _ List.mem_cons_self
  · rintro inner ⟨visit, hvisit, rfl⟩
    exact h visit (List.mem_cons_of_mem _ hvisit)

/-- The visited nodes of a whole tree are whole. -/
theorem Node.Whole.of_mem_visits {root : Node} (h : root.Whole) {visit : Visit}
    (hvisit : visit ∈ root.visits) : visit.node.Whole := by
  rw [visits_eq] at hvisit
  rcases List.mem_cons.mp hvisit with rfl | hvisit
  · exact h
  · exact h.of_holds ⟨visit, hvisit, rfl⟩

/-! ## What the survey keeps -/

/-- What is known about a file, with all places at whole offsets. -/
structure Survey.Whole (s : Survey) : Prop where
  names : ∀ entry ∈ s.names.places, entry.2.Whole
  functions : ∀ e ∈ s.topLevel.functions, e.span.Whole
  others : ∀ e ∈ s.topLevel.others, e.span.Whole
  reexports : ∀ statement ∈ s.topLevel.reexports, statement.span.Whole

/-- What is known about a whole tree after its walk, or any part of it, has whole places. -/
theorem Survey.whole_run {root : Node} (h : root.Whole) {events : List Event}
    (hevents : Event.entered events ⊆ root.visits) : ((ofProgram root).run events).Whole := by
  have htopLevel := topLevel_run (ofProgram root) events
  have hentries {entry : TopLevel.Entry} (hentry : entry ∈ TopLevel.entries root) :
      ∃ span : Span, span.Whole ∧ entry.At span := by
    obtain ⟨statement, hstatement, hentry⟩ := List.mem_flatMap.mp hentry
    exact ⟨statement.span, (h.children hstatement).span, TopLevel.at_of_mem_entriesOf hentry⟩
  constructor
  · intro entry hentry
    obtain ⟨visit, hvisit, n, hn, rfl⟩ := mem_places_run hentry
    have hnode := h.of_mem_visits (hevents hvisit)
    rcases Names.span_of_mem_notesAt hn with hspan | ⟨param, hparam, hspan⟩
    · rw [hspan]
      exact hnode.span
    · rw [hspan]
      exact (hnode.children hparam).span
  · intro e he
    rw [htopLevel, ofProgram, TopLevel.functions_ofProgram] at he
    obtain ⟨entry, hentry, he⟩ := List.mem_filterMap.mp he
    obtain ⟨span, hspan, hat⟩ := hentries hentry
    cases entry <;> cases he
    exact hat ▸ hspan
  · intro e he
    rw [htopLevel, ofProgram, TopLevel.others_ofProgram] at he
    obtain ⟨entry, hentry, he⟩ := List.mem_filterMap.mp he
    obtain ⟨span, hspan, hat⟩ := hentries hentry
    cases entry <;> cases he
    exact hat ▸ hspan
  · intro statement hstatement
    rw [htopLevel, ofProgram, TopLevel.reexports_ofProgram] at hstatement
    obtain ⟨entry, hentry, hstatement⟩ := List.mem_filterMap.mp hstatement
    obtain ⟨span, hspan, hat⟩ := hentries hentry
    cases entry <;> cases hstatement
    exact hat ▸ hspan

end PureLint
