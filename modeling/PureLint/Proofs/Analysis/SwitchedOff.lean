import PureLint.Proofs.Analysis.Runs
import PureLint.Proofs.Directive.Marker
import PureLint.Rule.Construct
import PureLint.Rule.Custom

/-!
# Files that are switched off

A marker anywhere on a line switches off the whole file. Then no check is heard, whichever rules and
policies look at the file. What is left are the expectations that the file announces: none of them
can be met any more, and each is reported.
-/

namespace PureLint

/-! ## What is left of the messages -/

namespace Sink

variable {filePath source : String}

/-- Where the file is switched off every message is suppressed. -/
theorem fateOf_of_wholeFile (h : (Suppressions.ofSource source).wholeFile = true) (m : Message) :
    (ofSource filePath source).fateOf m = .suppressed :=
  if_pos (Suppressions.covers_of_wholeFile h _ _)

/-- Where the file is switched off no message is kept. -/
theorem filter_kept_of_wholeFile (h : (Suppressions.ofSource source).wholeFile = true)
    (messages : List Message) :
    (messages.filter fun m => (ofSource filePath source).fateOf m = .kept) = [] := by
  rw [List.filter_eq_nil_iff]
  intro m _
  rw [fateOf_of_wholeFile h]
  simp

/-- Where the file is switched off no message meets an expectation. -/
theorem isMet_of_wholeFile (h : (Suppressions.ofSource source).wholeFile = true)
    (messages : List Message) (pair : Nat × String) :
    (ofSource filePath source).isMet messages pair = false := by
  simp only [isMet, meets, fateOf_of_wholeFile h, List.any_eq_false]
  intro m _
  simp

end Sink

/-! ## The analysis -/

namespace AnalysisOptions

open Expectations (announced)

/-- **A marker switches off all checks of a file, but not its expectations.** Whatever rules and
policies look at a file with a marker on one of its lines, its diagnostics are those about the
expectations it announces, one for each pair of a line and a rule, so there is none exactly if it
announces nothing. -/
theorem diagnostics_switchedOff (o : AnalysisOptions) (program : Node) (comments : List Comment)
    (h : ∃ line ∈ Text.lines o.source.toList, ∃ marker ∈ Suppressions.fileMarkers,
      marker <:+: line) :
    (o.check program comments).diagnostics =
        (announced o.source).map (Sink.unmetDiagnostic o.filePath o.source) ∧
      ((o.check program comments).diagnostics = [] ↔ announced o.source = []) := by
  have hwhole := (Suppressions.wholeFile_ofSource_iff o.source).mpr h
  have hdiagnostics : (o.check program comments).diagnostics =
      (announced o.source).map (Sink.unmetDiagnostic o.filePath o.source) := by
    rw [diagnostics_eq, Sink.filter_kept_of_wholeFile hwhole, List.map_nil, List.nil_append]
    simp only [Sink.isMet_of_wholeFile hwhole, Bool.not_false, List.filter_true]
  refine ⟨hdiagnostics, ?_⟩
  rw [hdiagnostics, List.map_eq_nil_iff]

/-- A file that is switched off and expects its enum to be reported, looked at by a rule on enums, a
rule that reports at the end and a policy that fails. -/
def switchedOff : AnalysisOptions where
  filePath := "src/a.ts"
  source := "/* purets-disable-file */\n// purets-expect-error no-enums\nenum A {}"
  traits := Path.classify "src/a.ts"
  rules := [Rule.noEnums, Rule.custom "x" [] (some (.report "end"))]
  policies := [Policy.custom "p" (.fail "f")]

/-- The tree of that file. -/
def expectedEnum : Node :=
  ⟨0, "Program", .int 57, .int 66, [("body", .array [.object 1
    [("type", .text "TSEnumDeclaration"), ("start", .number (.int 57)),
      ("end", .number (.int 66))]])]⟩

/-- The enum and the end are not reported, but the expectation of the enum is. -/
theorem diagnostics_switchedOff_expectedEnum :
    (∃ line ∈ Text.lines switchedOff.source.toList, ∃ marker ∈ Suppressions.fileMarkers,
        marker <:+: line) ∧
      (switchedOff.check expectedEnum []).diagnostics =
        (announced switchedOff.source).map
          (Sink.unmetDiagnostic switchedOff.filePath switchedOff.source) ∧
      announced switchedOff.source = [(2, "no-enums")] := by
  have hmarker : ∃ line ∈ Text.lines switchedOff.source.toList,
      ∃ marker ∈ Suppressions.fileMarkers, marker <:+: line := by
    refine ⟨"/* purets-disable-file */".toList, by decide +kernel,
      "/* purets-disable-file".toList, by decide +kernel, [], " */".toList, by decide +kernel⟩
  exact ⟨hmarker, (diagnostics_switchedOff switchedOff expectedEnum [] hmarker).1,
    by decide +kernel⟩

/-- A marker does not keep a file from having diagnostics: one about an expectation is left, even
where nothing is checked. -/
theorem exists_diagnostic_of_marker :
    let o : AnalysisOptions :=
      { filePath := "src/a.ts"
        source := "// purets-disable-file\n// purets-expect-error no-enums"
        traits := Path.classify "src/a.ts" }
    let program : Node := ⟨0, "Program", .int 0, .int 0, [("body", .array [])]⟩
    (∃ line ∈ Text.lines o.source.toList, ∃ marker ∈ Suppressions.fileMarkers, marker <:+: line) ∧
      (o.check program []).diagnostics.map (fun d => (d.rule, d.message)) =
        [("unused-expect-error", "Expected error 'no-enums' on line 3 was not triggered")] := by
  intro o program
  refine ⟨⟨"// purets-disable-file".toList, by decide +kernel, "// purets-disable-file".toList,
    by decide +kernel, List.infix_refl _⟩, by decide +kernel⟩

end AnalysisOptions

end PureLint
