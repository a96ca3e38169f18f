import PureLint.Proofs.Analysis.Isolation

/-!
# What a rule reports

Before any directive takes one away, the messages under the name of a rule are those that its checks
find, check by check in the order in which they are due. For a rule that only reports, these can be
read off the walk: a final check finds them in what is known at the end, and the checks of nodes
find them stage by stage.
-/

namespace PureLint

/-- A check that reports the same whatever features were noted, notes none itself and does not
fail. -/
def Call.OnlyReports (due : Call) : Prop :=
  ∃ reports : List Report, ∀ used, due.run used = { reports := reports }

/-- The messages of a run go by the name it was run under. -/
theorem Run.filter_messages (run : Run) (id : String) :
    (run.messages.filter fun m => m.rule == id) = if run.id = id then run.messages else [] := by
  have hrule : ∀ m ∈ run.messages, m.rule = run.id := by
    intro m hm
    obtain ⟨report, -, rfl⟩ := List.mem_map.mp hm
    rfl
  split
  · rename_i hid
    rw [List.filter_eq_self]
    intro m hm
    rw [hrule m hm, hid, beq_self_eq_true]
  · rename_i hid
    rw [List.filter_eq_nil_iff]
    intro m hm
    rw [hrule m hm, beq_iff_eq]
    exact hid

/-- Where no check under a name fails at what it is told, all of them are run, and their messages
are what they report then. -/
theorem Session.messages_told {id : String} {s : Session} {calls : List Call}
    {told : Call → List Report} (hfailed : id ∉ s.failed)
    (htold : ∀ before due, before ++ [due] <+: calls → due.id = id →
      (due.run (before.foldl call s).used).failure = none ∧
        (due.run (before.foldl call s).used).reports = told due) :
    id ∉ (calls.foldl call s).failed ∧
      (((s.runs calls).flatMap Run.messages).filter fun m => m.rule == id) =
        ((calls.filter (Call.named id)).flatMap told).map (Report.messageOf id) := by
  induction calls using List.reverseRecOn with
  | nil => exact ⟨hfailed, rfl⟩
  | append_singleton before due ih =>
    obtain ⟨hbefore, hmessages⟩ := ih fun earlier other hpart =>
      htold earlier other (hpart.trans (List.prefix_append _ _))
    rw [runs_concat, List.flatMap_append, List.filter_append, hmessages, List.filter_append,
      List.flatMap_append, List.map_append, List.foldl_append, List.foldl_cons, List.foldl_nil]
    by_cases hid : due.id = id
    · obtain ⟨hnever, hreports⟩ := htold before due (List.prefix_refl _) hid
      have hdue : due.id ∉ (before.foldl call s).failed := hid ▸ hbefore
      have hnamed : due.named id = true := beq_iff_eq.mpr hid
      constructor
      · rw [call_of_not_failed hdue, take_failed, hnever]
        simpa using hbefore
      · rw [if_neg hdue, List.flatMap_singleton, Run.filter_messages,
          List.filter_cons_of_pos hnamed, List.filter_nil, List.flatMap_singleton]
        simp only [Run.id, Run.messages, hid, hreports, if_true]
    · have hnamed : ¬due.named id = true := fun heq => hid (beq_iff_eq.mp heq)
      constructor
      · rw [call]
        split
        · exact hbefore
        · rw [take_failed, List.mem_append, not_or]
          refine ⟨hbefore, ?_⟩
          intro hmem
          split at hmem
          · exact hid (List.mem_singleton.mp hmem).symm
          · cases hmem
      · rw [List.filter_cons_of_neg hnamed, List.filter_nil]
        split
        · rfl
        · have hrun : ¬(⟨due, due.run (before.foldl call s).used⟩ : Run).id = id := hid
          rw [List.flatMap_singleton, Run.filter_messages, if_neg hrun]
          rfl

/-- Where the checks under a name only report, all of them are run, and their messages are what they
report. -/
theorem Session.messages_named {id : String} {calls : List Call}
    (honly : ∀ due ∈ calls, due.id = id → due.OnlyReports) {s : Session} (hfailed : id ∉ s.failed) :
    (((s.runs calls).flatMap Run.messages).filter fun m => m.rule == id) =
      ((calls.filter (Call.named id)).flatMap fun due => (due.run []).reports).map
        (Report.messageOf id) := by
  apply (messages_told hfailed _).2
  intro before due hpart hid
  obtain ⟨reports, hrun⟩ :=
    honly due (hpart.subset (List.mem_append_right _ List.mem_cons_self)) hid
  rw [hrun, hrun]
  exact ⟨rfl, rfl⟩

namespace Call

variable {id description : String} {kinds : List String}
  {find : Context → Visit → List Report} {file : SourceFile}

/-- A rule that only reports at nodes of some kinds finds its reports at those, once at each. -/
theorem reports_atKind (hkinds : kinds.Nodup) (kind : String) (visit : Visit) (survey : Survey) :
    (atKind (.ofRules [{ id, description, checks := reporting kinds find }]) file kind visit
        survey).flatMap (fun due => (due.run []).reports) =
      if kind ∈ kinds then find ⟨file, survey⟩ visit else [] := by
  have hentries : (reporting kinds find).filter (fun entry => entry.1 == kind) =
      if kind ∈ kinds then [(kind, fun context visit => { reports := find context visit })]
      else [] := by
    rw [reporting, List.filter_map]
    have hkind : kinds.filter (fun other => other == kind) =
        if kind ∈ kinds then [kind] else [] := by
      rw [List.filter_beq, hkinds.count]
      split <;> rfl
    have hsame : ((fun entry : String × Check => entry.1 == kind) ∘ fun kind =>
        (kind, fun context visit => ({ reports := find context visit } : Outcome))) =
        fun other => other == kind := rfl
    rw [hsame, hkind]
    split <;> rfl
  rw [atKind_ofRules, List.flatMap_singleton, hentries]
  split
  · simp [ofCheck]
  · rfl

/-- A rule that only reports at nodes of some kinds finds its reports stage by stage. -/
theorem reports_ofWalk (hkinds : kinds.Nodup) (hown : referenceCheckKind ∉ kinds)
    (stages : List (Visit × Survey)) :
    (ofWalk (.ofRules [{ id, description, checks := reporting kinds find }]) file stages).flatMap
        (fun due => (due.run []).reports) =
      stages.flatMap fun stage =>
        if stage.1.node.kind ∈ kinds then find ⟨file, stage.2⟩ stage.1 else [] := by
  rw [ofWalk, List.flatMap_assoc]
  apply List.flatMap_congr
  rintro ⟨visit, survey⟩ -
  -- no check is due under the kind for references, the only other one a node may have
  have hothers (condition : Prop) [Decidable condition] :
      (if condition then [referenceCheckKind] else []).flatMap (fun kind =>
        if kind ∈ kinds then find ⟨file, survey⟩ visit else []) = [] := by
    split
    · rw [List.flatMap_singleton, if_neg hown]
    · rfl
  simp only [atVisit_eq, List.flatMap_assoc, reports_atKind hkinds]
  rw [Survey.kindsAt, List.flatMap_cons, hothers, List.append_nil]

end Call

namespace AnalysisOptions

variable (o : AnalysisOptions) (program : Node) (comments : List Comment)

/-- The messages that an analysis hands to the sink under a name. -/
def messagesOf (id : String) : List Message :=
  (o.messages program comments).filter fun m => m.rule == id

/-- A rule is among those that look at the file, and nothing else there goes by its name. -/
def NamesOnly (rule : Rule) : Prop :=
  o.rules.filter (fun other => other.id == rule.id) = [rule] ∧
    o.policies.filter (fun other => other.id == rule.id) = []

variable {o program comments}

/-- Where all names are different, nothing else goes by the name of a rule. -/
theorem namesOnly_of_nodup (hnames : (o.rules.map (·.id) ++ o.policies.map (·.id)).Nodup)
    {rule : Rule} (hrule : rule ∈ o.rules) : o.NamesOnly rule := by
  obtain ⟨hruleNames, -, hapart⟩ := List.nodup_append.mp hnames
  have hnone : rule.id ∉ o.policies.map (·.id) := by
    intro hmem
    exact hapart rule.id (List.mem_map_of_mem hrule) rule.id hmem rfl
  exact ⟨filter_name_eq hruleNames hrule, filter_name_nil hnone⟩

/-- Where nothing else goes by the name of a rule, the checks under the name are those of the
rule. -/
theorem NamesOnly.filter_calls {rule : Rule} (h : o.NamesOnly rule) :
    (o.calls program comments).filter (Call.named rule.id) =
      Call.all [rule] [] (o.file comments) program := by
  rw [calls, Call.filter_named_all, h.1, h.2]

/-- Where all names are different and the checks of a rule only report, the messages under its name
are what these report. -/
theorem messagesOf_eq {rule : Rule} (hnames : (o.rules.map (·.id) ++ o.policies.map (·.id)).Nodup)
    (hrule : rule ∈ o.rules)
    (honly : ∀ due ∈ Call.all [rule] [] (o.file comments) program, due.OnlyReports) :
    o.messagesOf program comments rule.id =
      ((Call.all [rule] [] (o.file comments) program).flatMap fun due =>
        (due.run []).reports).map (Report.messageOf rule.id) := by
  rw [← (namesOnly_of_nodup hnames hrule).filter_calls] at honly ⊢
  apply Session.messages_named
  · intro due hdue hid
    exact honly due (List.mem_filter.mpr ⟨hdue, beq_iff_eq.mpr hid⟩)
  · exact List.not_mem_nil

/-! ## Rules of one shape -/

section

variable {id description : String} (hnames : (o.rules.map (·.id) ++ o.policies.map (·.id)).Nodup)

include hnames

/-- A rule that only reports at the end reports what it finds in what is known then. -/
theorem messagesOf_reportingAtEnd {find : Survey → List Report}
    (hrule : ({ id, description, finish := reportingAtEnd find } : Rule) ∈ o.rules) :
    o.messagesOf program comments id =
      (find ((Survey.ofProgram program).run program.events)).map (Report.messageOf id) := by
  have hall : Call.all [{ id, description, finish := reportingAtEnd find }] [] (o.file comments)
      program = [⟨id, .finish, fun _ =>
        { reports := find (Context.final (o.file comments) program).survey }⟩] := by
    have hwalk : Call.ofWalk (.ofRules [{ id, description, finish := reportingAtEnd find }])
        (o.file comments) ((Survey.ofProgram program).stages program.events) = [] := by
      simp [Call.ofWalk, Call.atVisit, Call.atKind_ofRules]
    rw [Call.all, hwalk]
    rfl
  rw [messagesOf_eq hnames hrule, hall]
  · simp [Context.final]
  · rw [hall]
    intro due hdue
    cases List.mem_singleton.mp hdue
    exact ⟨_, fun _ => rfl⟩

/-- A rule that only reports at nodes of some kinds reports what it finds stage by stage. -/
theorem messagesOf_reporting {kinds : List String} {find : Context → Visit → List Report}
    (hkinds : kinds.Nodup) (hown : referenceCheckKind ∉ kinds)
    (hrule : ({ id, description, checks := reporting kinds find } : Rule) ∈ o.rules) :
    o.messagesOf program comments id =
      (((Survey.ofProgram program).stages program.events).flatMap fun stage =>
        if stage.1.node.kind ∈ kinds then find ⟨o.file comments, stage.2⟩ stage.1 else []).map
          (Report.messageOf id) := by
  have hall : Call.all [{ id, description, checks := reporting kinds find }] [] (o.file comments)
      program = Call.ofWalk (.ofRules [{ id, description, checks := reporting kinds find }])
        (o.file comments) ((Survey.ofProgram program).stages program.events) := by
    simp [Call.all, Call.ofPolicies, Call.ofFinishes]
  rw [messagesOf_eq hnames hrule, hall, Call.reports_ofWalk hkinds hown]
  rw [hall]
  intro due hdue
  obtain ⟨stage, -, rule, hrule, entry, hentry, -, rfl⟩ := (Call.mem_ofWalk _ _).mp hdue
  cases List.mem_singleton.mp hrule
  obtain ⟨kind, -, rfl⟩ := List.mem_map.mp hentry
  exact ⟨_, fun _ => rfl⟩

end

end AnalysisOptions

end PureLint
