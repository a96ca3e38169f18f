import PureLint.Proofs.Diagnostic.Messages
import PureLint.Proofs.Diagnostic.Stretch
import PureLint.Proofs.Directive.Announcement

/-!
# Accounting for messages

A source and the messages handed to its sink settle what is stored when the sink is closed: the
messages that no directive takes away, in their order, and then one diagnostic for each announced
pair of a line and a rule that no message met.
-/

namespace PureLint.Sink

open Expectations (announced pairs)

/-- The diagnostic about an announced pair that no message met: it stands at the beginning of the
announced line and covers the line, or nothing at the end of the source if it lacks the line. -/
def unmetDiagnostic (filePath source : String) (pair : Nat × String) : Diagnostic :=
  { rule := "unused-expect-error"
    filePath := filePath
    message := "Expected error '" ++ pair.2 ++ "' on line " ++ toString (pair.1 + 1) ++
      " was not triggered"
    span := LineTable.stretch source pair.1
    position := ⟨pair.1 + 1, .int 1⟩ }

/-- Whether one of the messages meets an announced pair. -/
def isMet (s : Sink) (messages : List Message) (pair : Nat × String) : Bool :=
  messages.any fun m => s.meets m pair.1 pair.2

/-- The directives of a source decide on a message. -/
theorem fateOf_ofSource (filePath source : String) (m : Message) :
    let start := ofSource filePath source
    start.fateOf m =
      if start.suppressions.covers (start.lineOf m.span) m.rule then .suppressed
      else if ∃ pair ∈ announced source, (pair.1 : Int) = start.lineOf m.span ∧ pair.2 = m.rule then
        .expected
      else .kept := by
  intro start
  have hexpects := Expectations.expects_ofSource_iff source (start.lineOf m.span) m.rule
  simp only [fateOf, fate, ← hexpects]
  rfl

/-- The diagnostics about unseen expectations, one for each pair that was not seen. -/
theorem unseenDiagnostics_eq (s : Sink) :
    s.unseenDiagnostics =
      ((pairs s.expectations.expected).filter fun pair =>
        !(s.expectations.seenOn pair.1).contains pair.2).map
        fun pair => s.unseenDiagnostic pair.1 pair.2 := by
  unfold unseenDiagnostics Expectations.unseen pairs
  rw [List.filterMap_eq_flatMap_toList, List.flatMap_assoc, List.filter_flatMap, List.map_flatMap]
  congr 1
  funext ⟨line, rules⟩
  simp only [List.filter_map, List.map_map]
  split
  · rename_i hempty
    simp only [Function.comp_def, List.isEmpty_iff.mp hempty]
    rfl
  · simp only [Option.toList_some, List.flatMap_singleton]
    rfl

/-- A closed sink reports the announced pairs that no message met. -/
theorem unseenDiagnostics_submitAll (filePath source : String) (messages : List Message) :
    let start := ofSource filePath source
    (start.submitAll messages).unseenDiagnostics =
      ((announced source).filter fun pair => !start.isMet messages pair).map
        (unmetDiagnostic filePath source) := by
  intro start
  have halike := alike_submitAll start messages
  have hseen (pair : Nat × String) :
      ((start.submitAll messages).expectations.seenOn pair.1).contains pair.2 =
        start.isMet messages pair := by
    rw [Bool.eq_iff_iff, List.contains_iff_mem, seenOn_submitAll, isMet, List.any_eq_true]
    exact or_iff_right List.not_mem_nil
  have hdiagnostic (pair : Nat × String) :
      (start.submitAll messages).unseenDiagnostic pair.1 pair.2 =
        unmetDiagnostic filePath source pair := by
    unfold unseenDiagnostic unmetDiagnostic
    rw [← halike.table, ← halike.filePath, ← LineTable.lineSpan_ofSource]
    rfl
  have hpairs : pairs (start.submitAll messages).expectations.expected = announced source := by
    rw [← halike.expected]
    exact Expectations.pairs_expected source
  simp only [unseenDiagnostics_eq, hpairs, hseen, hdiagnostic]

/-- **Suppressions and expectations are a filter.** For the sink of a source, whatever messages it
takes: a suppression, else an announced expectation, decides the fate of a message, at any time in
the same way; the messages of no such fate are stored in their order; and closing the sink adds a
diagnostic for each announced pair that no message met, the pairs ascending by line. -/
theorem stored_close_of_messages (filePath source : String) (messages : List Message) :
    let start := ofSource filePath source
    let closed := (start.submitAll messages).close
    (∀ m, start.fateOf m =
      if start.suppressions.covers (start.lineOf m.span) m.rule then .suppressed
      else if ∃ pair ∈ announced source, (pair.1 : Int) = start.lineOf m.span ∧ pair.2 = m.rule then
        .expected
      else .kept) ∧
    (∀ earlier m,
      let now := start.submitAll earlier
      now.submit m =
        match start.fateOf m with
        | .suppressed => now
        | .expected =>
          { now with expectations := now.expectations.markSeen (start.lineOf m.span) m.rule }
        | .kept => { now with stored := now.stored ++ [start.diagnosticOf m] }) ∧
    closed.stored =
      (messages.filter fun m => start.fateOf m = .kept).map start.diagnosticOf ++
      ((announced source).filter fun pair => !start.isMet messages pair).map
        (unmetDiagnostic filePath source) ∧
    (announced source).Pairwise (fun pair later => pair.1 ≤ later.1) ∧
    (closed.stored = (start.submitAll messages).stored ↔
      ∀ pair ∈ announced source, ∃ m ∈ messages, start.meets m pair.1 pair.2 = true) ∧
    (∀ index < (Text.lines source.toList).length,
      start.table.position (LineTable.stretch source index).start = ⟨index + 1, .int 1⟩) := by
  intro start closed
  have hunseen := unseenDiagnostics_submitAll filePath source messages
  have hclosed : closed.stored = (start.submitAll messages).stored ++
      (start.submitAll messages).unseenDiagnostics := rfl
  refine ⟨fateOf_ofSource filePath source, ?_, ?_, Expectations.lines_announced source, ?_, ?_⟩
  · intro earlier m now
    have halike := alike_submitAll start earlier
    have hsubmit := submit_eq now m
    rw [← halike.fateOf_eq, ← halike.lineOf_eq, ← halike.diagnosticOf_eq] at hsubmit
    exact hsubmit
  · rw [hclosed, hunseen, stored_submitAll]
    rfl
  · rw [hclosed, hunseen, List.append_right_eq_self, List.map_eq_nil_iff, List.filter_eq_nil_iff]
    simp only [isMet, Bool.not_eq_true', Bool.not_eq_false, List.any_eq_true]
    rfl
  · intro index hindex
    have hline := List.getElem?_eq_getElem hindex
    have hstart : (LineTable.stretch source index).start =
        .int (Text.startOfLine (Text.lines source.toList) index) := by
      simp only [LineTable.stretch, hline]
    rw [hstart]
    exact LineTable.position_startOfLine hindex

-- on the second line `a` is met and `b` is suppressed before it can be, and there is no fourth line
example :
    let start := ofSource "a.ts"
      "// purets-expect-error a, b, a\nx // purets-disable-line b\n// purets-expect-error c"
    let messages : List Message :=
      [⟨"a", "first", ⟨.int 31, .int 32⟩⟩, ⟨"b", "second", ⟨.int 40, .int 41⟩⟩,
       ⟨"c", "third", ⟨.int 35, .int 36⟩⟩, ⟨"a", "fourth", ⟨.int 3, .int 4⟩⟩]
    ((start.submitAll messages).close.stored.map fun d => (d.rule, d.message, d.position.line)) =
      [("c", "third", 2), ("a", "fourth", 1),
       ("unused-expect-error", "Expected error 'b' on line 2 was not triggered", 2),
       ("unused-expect-error", "Expected error 'c' on line 4 was not triggered", 4)] := by
  decide +kernel

end PureLint.Sink
