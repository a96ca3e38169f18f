import PureLint.Diagnostic.Sink

/-!
# Messages handed to a sink

What a sink makes of a message depends on its directives and on the message alone, never on the
messages before it. So a run of messages can be read off one by one: which are stored, and which
expectations they meet.
-/

namespace PureLint

/-- A message as a rule hands it to a sink. -/
structure Message where
  rule : String
  text : String
  span : Span

namespace Sink

/-- The line of a span, counted from zero. -/
def lineOf (s : Sink) (span : Span) : Int := ((s.table.position span.start).line : Int) - 1

/-- What becomes of a message. -/
def fateOf (s : Sink) (m : Message) : Fate := s.fate (s.lineOf m.span) m.rule

/-- The diagnostic that a message is stored as. -/
def diagnosticOf (s : Sink) (m : Message) : Diagnostic :=
  ⟨m.rule, s.filePath, m.text, m.span, s.table.position m.span.start⟩

/-- Whether a message meets the expectation of a rule on a line. -/
def meets (s : Sink) (m : Message) (line : Int) (rule : String) : Bool :=
  s.fateOf m == .expected && s.lineOf m.span == line && m.rule == rule

/-- The sink after one more message. -/
def submit (s : Sink) (m : Message) : Sink := s.add m.rule m.text m.span

/-- The sink after several messages. -/
def submitAll (s : Sink) (messages : List Message) : Sink := messages.foldl submit s

/-- No message changes nothing. -/
@[simp] theorem submitAll_nil (s : Sink) : s.submitAll [] = s := rfl

/-- Several messages are one message and the others. -/
@[simp] theorem submitAll_cons (s : Sink) (m : Message) (messages : List Message) :
    s.submitAll (m :: messages) = (s.submit m).submitAll messages := rfl

/-- A message is dropped, noted as seen, or stored. -/
theorem submit_eq (s : Sink) (m : Message) :
    s.submit m =
      match s.fateOf m with
      | .suppressed => s
      | .expected =>
        { s with expectations := s.expectations.markSeen (s.lineOf m.span) m.rule }
      | .kept => { s with stored := s.stored ++ [s.diagnosticOf m] } := rfl

/-- Two sinks of one file under the same directives, whatever they hold. -/
structure Alike (s t : Sink) : Prop where
  filePath : s.filePath = t.filePath
  table : s.table = t.table
  suppressions : s.suppressions = t.suppressions
  expected : s.expectations.expected = t.expectations.expected

namespace Alike

variable {s t u : Sink}

/-- A sink is like itself. -/
theorem refl (s : Sink) : Alike s s := ⟨rfl, rfl, rfl, rfl⟩

/-- Likeness can be read either way. -/
theorem symm (h : Alike s t) : Alike t s :=
  ⟨h.filePath.symm, h.table.symm, h.suppressions.symm, h.expected.symm⟩

/-- Likeness passes on. -/
theorem trans (h : Alike s t) (h' : Alike t u) : Alike s u :=
  ⟨h.filePath.trans h'.filePath, h.table.trans h'.table, h.suppressions.trans h'.suppressions,
    h.expected.trans h'.expected⟩

/-- Alike sinks place a span on the same line. -/
theorem lineOf_eq (h : Alike s t) (span : Span) : s.lineOf span = t.lineOf span := by
  unfold lineOf
  rw [h.table]

/-- Alike sinks decide alike. What was seen before has no say. -/
theorem fateOf_eq (h : Alike s t) (m : Message) : s.fateOf m = t.fateOf m := by
  unfold fateOf fate Expectations.expects Expectations.expectedOn
  rw [h.lineOf_eq, h.suppressions, h.expected]

/-- Alike sinks store a message as the same diagnostic. -/
theorem diagnosticOf_eq (h : Alike s t) (m : Message) : s.diagnosticOf m = t.diagnosticOf m := by
  unfold diagnosticOf
  rw [h.filePath, h.table]

/-- Alike sinks agree on which expectations a message meets. -/
theorem meets_eq (h : Alike s t) (m : Message) (line : Int) (rule : String) :
    s.meets m line rule = t.meets m line rule := by
  unfold meets
  rw [h.fateOf_eq, h.lineOf_eq]

end Alike

/-- A message leaves the file and its directives. -/
theorem alike_submit (s : Sink) (m : Message) : Alike s (s.submit m) := by
  rw [submit_eq]
  split
  · exact Alike.refl s
  · exact ⟨rfl, rfl, rfl, rfl⟩
  · exact ⟨rfl, rfl, rfl, rfl⟩

/-- Messages leave the file and its directives. -/
theorem alike_submitAll (s : Sink) (messages : List Message) : Alike s (s.submitAll messages) := by
  induction messages generalizing s with
  | nil => exact Alike.refl s
  | cons m messages ih => exact (alike_submit s m).trans (ih (s.submit m))

/-- A message that is kept comes after all that is stored. -/
theorem stored_submit (s : Sink) (m : Message) :
    (s.submit m).stored =
      s.stored ++ if s.fateOf m = .kept then [s.diagnosticOf m] else [] := by
  rw [submit_eq]
  cases h : s.fateOf m <;> simp

/-- What is stored after messages is what was stored, and then the kept ones in their order. -/
theorem stored_submitAll (s : Sink) (messages : List Message) :
    (s.submitAll messages).stored =
      s.stored ++ (messages.filter fun m => s.fateOf m = .kept).map s.diagnosticOf := by
  induction messages generalizing s with
  | nil => simp
  | cons m messages ih =>
    have hfate : (s.submit m).fateOf = s.fateOf :=
      funext fun other => ((alike_submit s m).fateOf_eq other).symm
    have hdiagnostic : (s.submit m).diagnosticOf = s.diagnosticOf :=
      funext fun other => ((alike_submit s m).diagnosticOf_eq other).symm
    rw [submitAll_cons, ih, stored_submit, hfate, hdiagnostic]
    by_cases h : s.fateOf m = .kept
    · simp [h]
    · simp [h]

/-- A rule is seen on a line by a message that meets its expectation there. -/
theorem seenOn_submit (s : Sink) (m : Message) (line : Int) (rule : String) :
    rule ∈ (s.submit m).expectations.seenOn line ↔
      rule ∈ s.expectations.seenOn line ∨ s.meets m line rule = true := by
  rw [submit_eq]
  unfold meets
  cases h : s.fateOf m with
  | suppressed => simp
  | kept => simp
  | expected =>
    rw [Expectations.seenOn_markSeen]
    by_cases hline : line = s.lineOf m.span
    · simp [hline, eq_comm (a := rule) (b := m.rule)]
    · simp [hline, Ne.symm hline]

/-- The rules seen on a line are those whose expectations were met there. -/
theorem seenOn_submitAll (s : Sink) (messages : List Message) (line : Int) (rule : String) :
    rule ∈ (s.submitAll messages).expectations.seenOn line ↔
      rule ∈ s.expectations.seenOn line ∨ ∃ m ∈ messages, s.meets m line rule = true := by
  induction messages generalizing s with
  | nil => simp
  | cons m messages ih =>
    have hmeets (other : Message) : (s.submit m).meets other line rule = s.meets other line rule :=
      ((alike_submit s m).meets_eq other line rule).symm
    simp only [submitAll_cons, ih, seenOn_submit, hmeets, List.mem_cons, exists_eq_or_imp, or_assoc]

end Sink

end PureLint
