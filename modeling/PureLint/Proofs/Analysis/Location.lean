import PureLint.Proofs.Analysis.Runs
import PureLint.Proofs.Policy.Location
import PureLint.Proofs.Survey.Reference

/-!
# Where diagnostics are

Where all nodes of a tree begin at whole offsets, every diagnostic is in place, whichever rules and
policies look at the tree. The one exception are expectations that the last line announces: they are
for a line that the source lacks, and so are the diagnostics about them.
-/

namespace PureLint

open Event (entered)

/-- At each stage of a walk over a whole tree, the visited node and all that is known are whole. -/
theorem Survey.whole_of_mem_stages {program : Node} (h : program.Whole) {stage : Visit × Survey}
    (hstage : stage ∈ (ofProgram program).stages program.events) :
    stage.1.node.Whole ∧ stage.2.Whole := by
  obtain ⟨before, after, hsplit, hknown⟩ := exists_split_of_mem_stages hstage
  have hvisits : program.visits = entered (before ++ [.enter stage.1]) ++ entered after := by
    rw [← Event.entered_append, ← hsplit]
    rfl
  constructor
  · apply h.of_mem_visits
    rw [hvisits, Event.entered_append]
    exact List.mem_append_left _ (List.mem_append_right _ List.mem_cons_self)
  · rw [hknown]
    apply whole_run h
    rw [hvisits]
    exact List.subset_append_left _ _

/-- All checks due on a whole tree report at whole offsets. -/
theorem Call.whole_of_mem_all {rules : List Rule} {policies : List Policy} {file : SourceFile}
    {program : Node} (hrules : ∀ rule ∈ rules, rule.Known)
    (hpolicies : ∀ policy ∈ policies, policy.Known) (hprogram : program.Whole) {due : Call}
    (h : due ∈ all rules policies file program) (used : List Feature) :
    Report.AllWhole (due.run used).reports := by
  rcases List.mem_append.mp h with h | h
  · rcases List.mem_append.mp h with h | h
    · obtain ⟨stage, hstage, rule, hrule, entry, hentry, -, rfl⟩ := (mem_ofWalk rules file).mp h
      obtain ⟨hnode, hknown⟩ := Survey.whole_of_mem_stages hprogram hstage
      exact (hrules rule hrule).whole.checks entry hentry ⟨file, stage.2⟩ stage.1 hknown hnode
    · obtain ⟨policy, hpolicy, rfl⟩ := List.mem_map.mp h
      exact (hpolicies policy hpolicy).whole _ program hprogram
  · obtain ⟨rule, hrule, finish, hfinish, rfl⟩ := mem_ofFinishes.mp h
    exact (hrules rule hrule).whole.finish finish hfinish _ used
      (Survey.whole_run hprogram (List.Subset.refl _))

namespace AnalysisOptions

open Expectations (announced)

/-- **Diagnostics are in place.** Where all nodes of a tree begin at whole offsets, a diagnostic is
on a line of the source, at a column of the line or right behind it, and where its span begins;
unless it is about an expectation that the last line announces. So all are in place exactly if the
last line announces none. -/
theorem diagnostics_inPlace (o : AnalysisOptions) (program : Node) (comments : List Comment)
    (hrules : ∀ rule ∈ o.rules, rule.Known) (hpolicies : ∀ policy ∈ o.policies, policy.Known)
    (hwhole : ∀ visit ∈ program.visits, visit.node.span.Whole) :
    let diagnostics := (o.check program comments).diagnostics
    let lines := Text.lines o.source.toList
    (∀ d ∈ diagnostics, d.InPlace o.source ∨
      ∃ pair ∈ announced o.source, pair.1 = lines.length ∧
        d = Sink.unmetDiagnostic o.filePath o.source pair) ∧
    ((∀ d ∈ diagnostics, d.InPlace o.source) ↔
      ∀ pair ∈ announced o.source, pair.1 ≠ lines.length) := by
  intro diagnostics lines
  have hprogram : program.Whole := Node.whole_of_visits hwhole
  have hdiagnostics : diagnostics = _ := o.diagnostics_eq program comments
  have hmessages : ∀ m ∈ o.messages program comments, m.span.Whole := by
    intro m hm
    obtain ⟨run, hrun, hm⟩ := List.mem_flatMap.mp hm
    obtain ⟨report, hreport, rfl⟩ := List.mem_map.mp hm
    obtain ⟨hdue, used, houtcome⟩ := Session.due_of_mem_runs hrun
    rw [houtcome] at hreport
    exact Call.whole_of_mem_all hrules hpolicies hprogram hdue used report hreport
  have hplaces : ∀ d ∈ diagnostics, d.InPlace o.source ∨
      ∃ pair ∈ announced o.source, pair.1 = lines.length ∧
        d = Sink.unmetDiagnostic o.filePath o.source pair := by
    intro d hd
    rw [hdiagnostics] at hd
    rcases List.mem_append.mp hd with hd | hd
    · obtain ⟨m, hm, rfl⟩ := List.mem_map.mp hd
      exact Or.inl (Diagnostic.inPlace_of_whole (hmessages m (List.mem_filter.mp hm).1) rfl)
    · obtain ⟨pair, hpair, rfl⟩ := List.mem_map.mp hd
      have hannounced := (List.mem_filter.mp hpair).1
      rcases Nat.lt_or_eq_of_le (Expectations.line_le_of_mem_announced hannounced) with hlt | heq
      · exact Or.inl ((Sink.inPlace_unmetDiagnostic_iff o.filePath o.source pair).mpr hlt)
      · exact Or.inr ⟨pair, hannounced, heq, rfl⟩
  refine ⟨hplaces, ?_, ?_⟩
  · intro hall pair hpair hline
    -- no message can meet the expectation, so it is reported
    have hunmet := Sink.isMet_of_line_le o.filePath (Nat.le_of_eq hline.symm)
      (o.messages program comments)
    have hmem : Sink.unmetDiagnostic o.filePath o.source pair ∈ diagnostics := by
      rw [hdiagnostics]
      apply List.mem_append_right
      apply List.mem_map_of_mem
      rw [List.mem_filter, hunmet]
      exact ⟨hpair, rfl⟩
    have hplace := (Sink.inPlace_unmetDiagnostic_iff o.filePath o.source pair).mp (hall _ hmem)
    exact Nat.ne_of_lt hplace hline
  · intro hnone d hd
    rcases hplaces d hd with hplace | ⟨pair, hpair, hline, -⟩
    · exact hplace
    · exact absurd hline (hnone pair hpair)

/-- A file of two lines, each of which announces an expectation. On the second stands an enum. -/
def expecting : AnalysisOptions where
  filePath := "src/a.ts"
  source := "// purets-expect-error a\nenum A {} // purets-expect-error b"
  traits := Path.classify "src/a.ts"
  rules := [Rule.noEnums, Rule.custom "x" [] (some (.report "end"))]
  policies := [Policy.custom "p" (.report "policy")]

/-- The tree of that file. -/
def enumOnSecondLine : Node :=
  ⟨0, "Program", .int 25, .int 59, [("body", .array [.object 1
    [("type", .text "TSEnumDeclaration"), ("start", .number (.int 25)),
      ("end", .number (.int 34))]])]⟩

/-- Not all diagnostics of the file are in place, because the second line is the last. -/
theorem diagnostics_inPlace_lastLine :
    let diagnostics := (expecting.check enumOnSecondLine []).diagnostics
    (∀ visit ∈ enumOnSecondLine.visits, visit.node.span.Whole) ∧
      (∀ d ∈ diagnostics, d.InPlace expecting.source ∨
        ∃ pair ∈ announced expecting.source,
          pair.1 = (Text.lines expecting.source.toList).length ∧
            d = Sink.unmetDiagnostic expecting.filePath expecting.source pair) ∧
      ¬(∀ d ∈ diagnostics, d.InPlace expecting.source) ∧
      diagnostics.map (fun d => (d.rule, d.position.line)) =
        [("no-enums", 2), ("p", 2), ("x", 1), ("unused-expect-error", 2),
          ("unused-expect-error", 3)] := by
  have hrules : ∀ rule ∈ expecting.rules, rule.Known := by
    intro rule hrule
    simp only [expecting, List.mem_cons, List.not_mem_nil, or_false] at hrule
    rcases hrule with rfl | rfl
    · exact Or.inl (by simp [Rule.all])
    · exact Or.inr ⟨_, _, _, rfl⟩
  have hpolicies : ∀ policy ∈ expecting.policies, policy.Known := by
    intro policy hpolicy
    cases List.mem_singleton.mp hpolicy
    exact Or.inr ⟨_, _, rfl⟩
  have hwhole : ∀ visit ∈ enumOnSecondLine.visits, visit.node.span.Whole := by
    have hstarts : enumOnSecondLine.visits.map (fun visit => visit.node.start) =
        [.int 25, .int 25] := rfl
    intro visit hvisit
    have hstart : visit.node.start ∈ enumOnSecondLine.visits.map fun visit => visit.node.start :=
      List.mem_map_of_mem hvisit
    rw [hstarts, List.mem_cons, List.mem_singleton, or_self_iff] at hstart
    exact ⟨25, hstart⟩
  obtain ⟨hplaces, hall⟩ :=
    diagnostics_inPlace expecting enumOnSecondLine [] hrules hpolicies hwhole
  have hannounced : (2, "b") ∈ announced expecting.source := by decide +kernel
  refine ⟨hwhole, hplaces, ?_, by decide +kernel⟩
  intro hinPlace
  exact hall.mp hinPlace (2, "b") hannounced (by decide +kernel)

/-- A source of one line can have a diagnostic on a second line, though nothing is checked. -/
theorem exists_diagnostic_behind_source :
    let o : AnalysisOptions :=
      { filePath := "src/a.ts"
        source := "// purets-expect-error a"
        traits := Path.classify "src/a.ts" }
    let program : Node := ⟨0, "Program", .int 0, .int 0, [("body", .array [])]⟩
    (Text.lines o.source.toList).length = 1 ∧
      (o.check program []).diagnostics.map (fun d => (d.rule, d.position.line)) =
        [("unused-expect-error", 2)] := by
  decide +kernel

end AnalysisOptions

end PureLint
