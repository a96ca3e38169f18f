import PureLint.Analysis
import PureLint.Proofs.Lists

/-!
# The checks that are due

The list of checks due on a program is known before any of them is run. Its parts can be read off:
the checks under one name are those due for the rules and policies of that name alone, and the
checks for references are those due at the visits that ask for them.
-/

namespace PureLint

namespace Survey

/-- Whether the checks for references are due at a visit. -/
def ChecksReference (s : Survey) (visit : Visit) : Prop :=
  visit.node.kind = referenceCheckKind ∨
    visit.node.kind = "Identifier" ∧ s.reference? visit = some .value

instance (s : Survey) (visit : Visit) : Decidable (s.ChecksReference visit) :=
  inferInstanceAs (Decidable (_ ∨ _))

/-- The kinds under which a node is checked at a visit. -/
def kindsAt (s : Survey) (visit : Visit) : List String :=
  visit.node.kind ::
    if visit.node.kind = "Identifier" ∧ s.reference? visit = some .value then
      [referenceCheckKind]
    else []

end Survey

namespace Call

variable (rules : List Rule) (policies : List Policy) (file : SourceFile)

/-- The check of a rule under a kind of node, due at a visit. -/
def ofCheck (rule : Rule) (entry : String × Check) (visit : Visit) (survey : Survey) : Call :=
  ⟨rule.id, .visit entry.1 visit, fun _ => entry.2 ⟨file, survey⟩ visit⟩

/-- The checks due under a kind of node are those that the rules have for it, rule by rule. -/
theorem atKind_ofRules (kind : String) (visit : Visit) (survey : Survey) :
    atKind (.ofRules rules) file kind visit survey = rules.flatMap fun rule =>
      (rule.checks.filter fun entry => entry.1 == kind).map fun entry =>
        ofCheck file rule entry visit survey := by
  rw [atKind, Dispatch.checksFor_ofRules, List.map_flatMap]
  refine List.flatMap_congr fun rule _ => ?_
  rw [List.map_map]
  refine List.map_congr_left fun entry hentry => ?_
  rw [Function.comp_apply, ofCheck, beq_iff_eq.mp (List.mem_filter.mp hentry).2]

/-- The checks due under a kind of node are those that the rules have for it. -/
theorem mem_atKind {kind : String} {visit : Visit} {survey : Survey} {due : Call} :
    due ∈ atKind (.ofRules rules) file kind visit survey ↔
      ∃ rule ∈ rules, ∃ entry ∈ rule.checks,
        entry.1 = kind ∧ due = ofCheck file rule entry visit survey := by
  simp only [atKind_ofRules, List.mem_flatMap, List.mem_map, List.mem_filter, beq_iff_eq]
  constructor
  · rintro ⟨rule, hrule, entry, ⟨hentry, rfl⟩, rfl⟩
    exact ⟨rule, hrule, entry, hentry, rfl, rfl⟩
  · rintro ⟨rule, hrule, entry, hentry, rfl, rfl⟩
    exact ⟨rule, hrule, entry, ⟨hentry, rfl⟩, rfl⟩

/-- The checks due at a visit are those due under the kinds of the visit. -/
theorem atVisit_eq (dispatch : Dispatch) (visit : Visit) (survey : Survey) :
    atVisit dispatch file visit survey =
      (survey.kindsAt visit).flatMap fun kind => atKind dispatch file kind visit survey := by
  rw [atVisit, Survey.kindsAt, List.flatMap_cons]
  split <;> simp

/-- The checks due during the walk are those that the rules have for the kinds of its visits. -/
theorem mem_ofWalk {stages : List (Visit × Survey)} {due : Call} :
    due ∈ ofWalk (.ofRules rules) file stages ↔
      ∃ stage ∈ stages, ∃ rule ∈ rules, ∃ entry ∈ rule.checks,
        entry.1 ∈ stage.2.kindsAt stage.1 ∧ due = ofCheck file rule entry stage.1 stage.2 := by
  simp only [ofWalk, List.mem_flatMap, atVisit_eq, mem_atKind]
  constructor
  · rintro ⟨stage, hstage, kind, hkind, rule, hrule, entry, hentry, rfl, rfl⟩
    exact ⟨stage, hstage, rule, hrule, entry, hentry, hkind, rfl⟩
  · rintro ⟨stage, hstage, rule, hrule, entry, hentry, hkind, rfl⟩
    exact ⟨stage, hstage, entry.1, hkind, rule, hrule, entry, hentry, rfl, rfl⟩

/-- A final check that is due is one of a rule. -/
theorem mem_ofFinishes {rules : List Rule} {context : Context} {due : Call} :
    due ∈ ofFinishes rules context ↔
      ∃ rule ∈ rules, ∃ finish ∈ rule.finish, due = ⟨rule.id, .finish, finish context⟩ := by
  simp only [ofFinishes, List.mem_filterMap, Option.map_eq_some_iff, Option.mem_def]
  constructor
  · rintro ⟨rule, hrule, finish, hfinish, rfl⟩
    exact ⟨rule, hrule, finish, hfinish, rfl⟩
  · rintro ⟨rule, hrule, finish, hfinish, rfl⟩
    exact ⟨rule, hrule, finish, hfinish, rfl⟩

/-! ## The checks under some names -/

section Names

variable (p : String → Bool)

/-- The checks under some names and a kind of node. -/
theorem filter_id_atKind (kind : String) (visit : Visit) (survey : Survey) :
    (atKind (.ofRules rules) file kind visit survey).filter (fun due => p due.id) =
      atKind (.ofRules (rules.filter fun rule => p rule.id)) file kind visit survey := by
  rw [atKind_ofRules, atKind_ofRules, List.filter_flatMap, flatMap_filter]
  congr 1
  funext rule
  rw [List.filter_map]
  split
  · rename_i hid
    simp [Function.comp_def, ofCheck, hid]
  · rename_i hid
    simp [Function.comp_def, ofCheck, hid]

/-- The checks under some names during the walk. -/
theorem filter_id_ofWalk (stages : List (Visit × Survey)) :
    (ofWalk (.ofRules rules) file stages).filter (fun due => p due.id) =
      ofWalk (.ofRules (rules.filter fun rule => p rule.id)) file stages := by
  unfold ofWalk
  simp only [atVisit_eq, List.filter_flatMap, filter_id_atKind]

/-- The policies under some names. -/
theorem filter_id_ofPolicies (context : Context) (program : Node) :
    (ofPolicies policies context program).filter (fun due => p due.id) =
      ofPolicies (policies.filter fun policy => p policy.id) context program := by
  unfold ofPolicies
  rw [List.filter_map]
  rfl

/-- The final checks under some names. -/
theorem filter_id_ofFinishes (context : Context) :
    (ofFinishes rules context).filter (fun due => p due.id) =
      ofFinishes (rules.filter fun rule => p rule.id) context := by
  unfold ofFinishes
  rw [List.filter_filterMap, List.filterMap_filter]
  congr 1
  funext rule
  cases rule.finish with
  | none => simp
  | some finish =>
    split
    · rename_i hid
      simpa using hid
    · rename_i hid
      simpa using hid

/-- The checks under some names are those due for the rules and policies of the names alone. -/
theorem filter_id_all (program : Node) :
    (all rules policies file program).filter (fun due => p due.id) =
      all (rules.filter fun rule => p rule.id) (policies.filter fun policy => p policy.id)
        file program := by
  simp only [all, List.filter_append, filter_id_ofWalk, filter_id_ofPolicies,
    filter_id_ofFinishes]

end Names

/-- Whether a check is due under a name. -/
def named (id : String) (due : Call) : Bool := due.id == id

/-- The checks under one name are those due for the rules and policies of the name alone. -/
theorem filter_named_all (id : String) (program : Node) :
    (all rules policies file program).filter (named id) =
      all (rules.filter fun rule => rule.id == id) (policies.filter fun policy => policy.id == id)
        file program :=
  filter_id_all rules policies file (fun name => name == id) program

/-! ## The checks for references -/

/-- Whether a check is one for references. -/
def isReferenceCheck (due : Call) : Bool :=
  match due.occasion with
  | .visit kind _ => kind == referenceCheckKind
  | _ => false

/-- The checks under a kind of node are all for references, or none is. -/
theorem filter_atKind (kind : String) (visit : Visit) (survey : Survey) :
    (atKind (.ofRules rules) file kind visit survey).filter isReferenceCheck =
      if kind = referenceCheckKind then atKind (.ofRules rules) file kind visit survey else [] := by
  have hall (due : Call) (hdue : due ∈ atKind (.ofRules rules) file kind visit survey) :
      due.isReferenceCheck = (kind == referenceCheckKind) := by
    obtain ⟨rule, -, entry, -, rfl, rfl⟩ := (mem_atKind rules file).mp hdue
    rfl
  rw [List.filter_congr hall]
  by_cases hkind : kind = referenceCheckKind
  · simp [hkind]
  · simp [hkind]

/-- The checks for references at a visit are due exactly where they should be. -/
theorem filter_atVisit (visit : Visit) (survey : Survey) :
    (atVisit (.ofRules rules) file visit survey).filter isReferenceCheck =
      if survey.ChecksReference visit then
        atKind (.ofRules rules) file referenceCheckKind visit survey
      else [] := by
  rw [atVisit, List.filter_append, filter_atKind]
  by_cases hkind : visit.node.kind = referenceCheckKind
  · have hidentifier : visit.node.kind ≠ "Identifier" := by
      rw [hkind]
      decide
    have hchecks : survey.ChecksReference visit := Or.inl hkind
    rw [if_pos hkind, if_neg fun h => hidentifier h.1, if_pos hchecks, hkind]
    exact List.append_nil _
  · rw [if_neg hkind, List.nil_append]
    by_cases hvalue : visit.node.kind = "Identifier" ∧ survey.reference? visit = some .value
    · have hchecks : survey.ChecksReference visit := Or.inr hvalue
      rw [if_pos hvalue, if_pos hchecks, filter_atKind, if_pos rfl]
    · have hchecks : ¬survey.ChecksReference visit := not_or.mpr ⟨hkind, hvalue⟩
      rw [if_neg hvalue, if_neg hchecks, List.filter_nil]

/-- The checks for references are due at the stages that ask for them. -/
theorem filter_all (root : Node) :
    (all rules policies file root).filter isReferenceCheck =
      ((Survey.ofProgram root).stages root.events).flatMap fun stage =>
        if stage.2.ChecksReference stage.1 then
          atKind (.ofRules rules) file referenceCheckKind stage.1 stage.2
        else [] := by
  have hpolicies (context : Context) :
      (ofPolicies policies context root).filter isReferenceCheck = [] := by
    rw [List.filter_eq_nil_iff]
    intro due hdue
    obtain ⟨policy, -, rfl⟩ := List.mem_map.mp hdue
    exact Bool.false_ne_true
  have hfinishes (context : Context) :
      (ofFinishes rules context).filter isReferenceCheck = [] := by
    rw [List.filter_eq_nil_iff]
    intro due hdue
    obtain ⟨rule, -, hrule⟩ := List.mem_filterMap.mp hdue
    obtain ⟨finish, -, rfl⟩ := Option.map_eq_some_iff.mp hrule
    exact Bool.false_ne_true
  simp only [all, ofWalk, List.filter_append, hpolicies, hfinishes, List.append_nil,
    List.filter_flatMap, filter_atVisit]

end Call

end PureLint
