import PureLint.Directive.Suppression
import PureLint.Proofs.Lists

/-!
# The tables of suppressions

The scan of a source takes one directive after the other into two tables: the lines that have a
directive, and the rules that are named for a line. The directives can also be listed as they stand
in the source. The tables are those of this list, whatever lines the directives come from and in
whatever order they are met, and the look-up in them depends on the list alone.
-/

namespace PureLint

/-- One directive that switches rules off on a line. -/
structure LineDirective where
  line : Nat
  /-- The rules it names, none for every rule. -/
  rules : List String
  deriving DecidableEq, Repr

namespace LineDirective

variable {ds : List LineDirective} {line : Int}

/-- The directives of a list for a line. -/
def on (ds : List LineDirective) (line : Int) : List LineDirective :=
  ds.filter fun d => (d.line : Int) == line

/-- The rules that the directives of a list name for a line. -/
def named (ds : List LineDirective) (line : Int) : List String := (on ds line).flatMap (·.rules)

/-- There are directives for a line exactly if one of them has its number. -/
theorem on_ne_nil_iff : on ds line ≠ [] ↔ ∃ d ∈ ds, (d.line : Int) = line := by
  simp [on]

/-- A directive more for a line adds the rules that it names. -/
theorem named_concat (d : LineDirective) :
    named (ds ++ [d]) line = named ds line ++ if (d.line : Int) = line then d.rules else [] := by
  by_cases h : (d.line : Int) = line <;> simp [named, on, h]

end LineDirective

namespace Suppressions

open LineDirective (on named)

/-- The directive for `target` that a line gives with this marker, if it has the marker. -/
def directive? (marker line : List Char) (target : Nat) : Option LineDirective :=
  (Text.after? marker line).map fun rest => ⟨target, Directive.ruleNames rest⟩

/-- The directives on the line of this index. -/
def directivesAt (line : List Char) (index : Nat) : List LineDirective :=
  if marksFile line then []
  else
    (directive? nextLineMarker line (index + 1)).toList ++
      (directive? sameLineMarker line index).toList

/-- The directives of a source, in the order the scan meets them. -/
def directives (source : String) : List LineDirective :=
  ((Text.lines source.toList).map Text.trim).zipIdx.flatMap
    fun (line, index) => directivesAt line index

/-- Takes over a directive. -/
def take (s : Suppressions) (d : LineDirective) : Suppressions := s.disable d.line d.rules

variable {s : Suppressions} {ds : List LineDirective}

/-- What a marker on a line gives is the directive with this marker. -/
theorem takeMarker_eq (marker line : List Char) (target : Nat) :
    s.takeMarker marker line target = (directive? marker line target).toList.foldl take s := by
  unfold takeMarker directive?
  cases Text.after? marker line <;> rfl

/-- A line gives its directives, and switches off the file if it has a marker for that. -/
theorem takeLine_eq (line : List Char) (index : Nat) :
    s.takeLine line index =
      (directivesAt line index).foldl take
        { s with wholeFile := s.wholeFile || marksFile line } := by
  unfold takeLine directivesAt
  cases marksFile line with
  | true => simp
  | false =>
    have hnext : s.takeMarker nextLineMarker line ((index : Int) + 1) = _ :=
      takeMarker_eq nextLineMarker line (index + 1)
    simp [hnext, takeMarker_eq, List.foldl_append]

/-! ## What the tables hold -/

/-- The tables of suppressions are those of a list of directives: a line is in the one table if a
directive is for it, and the other has the rules that the directives for a line name, if there are
any. -/
structure Represents (s : Suppressions) (ds : List LineDirective) : Prop where
  mem_disabledLines : ∀ line, line ∈ s.disabledLines ↔ on ds line ≠ []
  lookup_overrides : ∀ line, s.overrides.lookup line =
    if named ds line = [] then none
    else some ((named ds line).foldl (fun rules rule => addOnce rule rules) [])

/-- Taking over a directive adds it to those that the tables are of. -/
theorem Represents.take (h : s.Represents ds) (d : LineDirective) :
    (s.take d).Represents (ds ++ [d]) := by
  have hlines : (s.take d).disabledLines = addOnce (d.line : Int) s.disabledLines := by
    unfold Suppressions.take disable
    split <;> rfl
  constructor
  · intro line
    rw [hlines, mem_addOnce, h.mem_disabledLines, LineDirective.on_ne_nil_iff,
      LineDirective.on_ne_nil_iff]
    simp [or_and_right, exists_or]
  · intro line
    rw [LineDirective.named_concat]
    by_cases hrules : d.rules = []
    · -- a directive that names nothing leaves the table of rules as it is
      have hsame : (s.take d).overrides = s.overrides := by
        simp [Suppressions.take, disable, hrules]
      rw [hsame, h.lookup_overrides, hrules, ite_self, List.append_nil]
    · have hupdate : (s.take d).overrides = updateEntry (d.line : Int) (fun rules =>
          d.rules.foldl (fun rules rule => addOnce rule rules) (rules.getD [])) s.overrides := by
        simp [Suppressions.take, disable, hrules]
      rw [hupdate, lookup_updateEntry]
      by_cases hline : line = d.line
      · -- the rules it names join those named before, whether there were any or not
        subst hline
        rw [if_pos rfl, if_pos rfl, h.lookup_overrides,
          if_neg (List.append_ne_nil_of_right_ne_nil _ hrules), List.foldl_append]
        by_cases hnamed : named ds d.line = [] <;> simp [hnamed]
      · rw [if_neg hline, if_neg (Ne.symm hline), List.append_nil, h.lookup_overrides]

/-- Taking over several directives adds them all. -/
theorem Represents.foldl_take (h : s.Represents ds) (added : List LineDirective) :
    (added.foldl Suppressions.take s).Represents (ds ++ added) := by
  induction added generalizing s ds with
  | nil => rwa [List.append_nil]
  | cons d added ih =>
    have hrest := ih (h.take d)
    rwa [List.append_assoc, List.singleton_append] at hrest

/-- Whether the file is switched off does not matter to the tables. -/
theorem Represents.withFile (h : s.Represents ds) (wholeFile : Bool) :
    { s with wholeFile }.Represents ds :=
  ⟨h.mem_disabledLines, h.lookup_overrides⟩

/-- A line adds its directives to those that the tables are of. -/
theorem Represents.takeLine (h : s.Represents ds) (line : List Char) (index : Nat) :
    (s.takeLine line index).Represents (ds ++ directivesAt line index) := by
  rw [takeLine_eq]
  exact (h.withFile _).foldl_take _

/-- Several lines add all their directives. -/
theorem Represents.foldl_takeLine (h : s.Represents ds) (lines : List (List Char × Nat)) :
    (lines.foldl (fun s line => s.takeLine line.1 line.2) s).Represents
      (ds ++ lines.flatMap fun line => directivesAt line.1 line.2) := by
  induction lines generalizing s ds with
  | nil => rwa [List.flatMap_nil, List.append_nil]
  | cons line lines ih =>
    rw [List.foldl_cons, List.flatMap_cons, ← List.append_assoc]
    exact ih (h.takeLine line.1 line.2)

/-- The tables of a source are those of its directives. -/
theorem represents_ofSource (source : String) :
    (ofSource source).Represents (directives source) := by
  have hnone : ({} : Suppressions).Represents [] := ⟨by simp [on], by simp [named, on]⟩
  exact hnone.foldl_takeLine _

/-- Taking over directives does not switch off the file. -/
theorem wholeFile_foldl_take (added : List LineDirective) :
    (added.foldl take s).wholeFile = s.wholeFile := by
  induction added generalizing s with
  | nil => rfl
  | cons d added ih =>
    rw [List.foldl_cons, ih]
    unfold take disable
    split <;> rfl

/-- Several lines switch off the file if one of them has a marker for that. -/
theorem wholeFile_foldl_takeLine (lines : List (List Char × Nat)) :
    (lines.foldl (fun s line => s.takeLine line.1 line.2) s).wholeFile =
      (s.wholeFile || lines.any fun line => marksFile line.1) := by
  induction lines generalizing s with
  | nil => simp
  | cons line lines ih =>
    rw [List.foldl_cons, ih, takeLine_eq, wholeFile_foldl_take, List.any_cons, Bool.or_assoc]

/-! ## What holds of the tables -/

/-- Tables as a scan can leave them: each line has one entry at most, is also among the lines with
a directive, and has a rule. -/
structure WellFormed (s : Suppressions) : Prop where
  nodup_lines : s.disabledLines.Nodup
  nodup_overrides : (s.overrides.map Prod.fst).Nodup
  mem_lines : ∀ entry ∈ s.overrides, entry.1 ∈ s.disabledLines
  named : ∀ entry ∈ s.overrides, entry.2 ≠ []

/-- A directive leaves the tables well formed. -/
theorem WellFormed.disable (h : s.WellFormed) (line : Int) (rules : List String) :
    (s.disable line rules).WellFormed := by
  have hlines : (addOnce line s.disabledLines).Nodup := nodup_addOnce h.nodup_lines line
  have hmem : ∀ entry ∈ s.overrides, entry.1 ∈ addOnce line s.disabledLines := fun entry hentry =>
    (mem_addOnce line entry.1 _).mpr (Or.inl (h.mem_lines entry hentry))
  unfold Suppressions.disable
  split
  · exact ⟨hlines, h.nodup_overrides, hmem, h.named⟩
  · rename_i hrules
    refine ⟨hlines, ?_, ?_, ?_⟩
    · rw [map_fst_updateEntry]
      exact nodup_addOnce h.nodup_overrides line
    · intro entry hentry
      rcases eq_or_mem_of_mem_updateEntry hentry with ⟨old, rfl⟩ | hold
      · exact (mem_addOnce line line _).mpr (Or.inr rfl)
      · exact hmem entry hold
    · intro entry hentry
      rcases eq_or_mem_of_mem_updateEntry hentry with ⟨old, rfl⟩ | hold
      · obtain ⟨rule, hrule⟩ := List.exists_mem_of_ne_nil rules (by simpa using hrules)
        exact List.ne_nil_of_mem ((mem_foldl_addOnce _ _).mpr (Or.inr hrule))
      · exact h.named entry hold

/-- A marker on a line leaves the tables well formed. -/
theorem WellFormed.takeMarker (h : s.WellFormed) (marker line : List Char) (target : Int) :
    (s.takeMarker marker line target).WellFormed := by
  unfold Suppressions.takeMarker
  split
  · exact h.disable _ _
  · exact h

/-- A line leaves the tables well formed. -/
theorem WellFormed.takeLine (h : s.WellFormed) (line : List Char) (index : Nat) :
    (s.takeLine line index).WellFormed := by
  unfold Suppressions.takeLine
  split
  · exact ⟨h.nodup_lines, h.nodup_overrides, h.mem_lines, h.named⟩
  · exact (h.takeMarker _ _ _).takeMarker _ _ _

/-- The tables of a source are well formed. -/
theorem wellFormed_ofSource (source : String) : (ofSource source).WellFormed := by
  unfold ofSource
  generalize ((Text.lines source.toList).map Text.trim).zipIdx = lines
  have hnone : ({} : Suppressions).WellFormed := by constructor <;> simp
  generalize ({} : Suppressions) = s at hnone
  induction lines generalizing s with
  | nil => exact hnone
  | cons line lines ih => exact ih _ (hnone.takeLine line.1 line.2)

/-! ## Looking up -/

/-- A line is switched off by the file, or if it is in the table. -/
theorem coversLine_iff {line : Int} :
    s.coversLine line = true ↔ s.wholeFile = true ∨ line ∈ s.disabledLines := by
  simp [coversLine]

/-- A rule is switched off on a line by the file, or if the line is in the one table and the rule
among those that the other has for the line, if it has any. In well-formed tables a line without
directives has no rules. -/
theorem WellFormed.covers_iff (h : s.WellFormed) {line : Int} {rule : String} :
    s.covers line rule = true ↔ s.wholeFile = true ∨
      line ∈ s.disabledLines ∧ ∀ rules, s.overrides.lookup line = some rules → rule ∈ rules := by
  unfold covers
  by_cases hfile : s.wholeFile = true
  · simp [hfile]
  · rw [if_neg hfile, or_iff_right hfile]
    cases hlookup : s.overrides.lookup line with
    | none => by_cases hline : line ∈ s.disabledLines <;> simp [hline]
    | some rules =>
      have hline : line ∈ s.disabledLines := h.mem_lines _ (mem_of_lookup hlookup)
      have hrules : rules ≠ [] := h.named _ (mem_of_lookup hlookup)
      simp [hline, hrules]

/-- In the tables of a list of directives a rule is switched off on a line by the file, or by the
directives for the line if these name no rule or this one. -/
theorem Represents.covers_iff (h : s.Represents ds) (hs : s.WellFormed) {line : Int}
    {rule : String} : s.covers line rule = true ↔ s.wholeFile = true ∨
      on ds line ≠ [] ∧ (named ds line = [] ∨ rule ∈ named ds line) := by
  rw [hs.covers_iff, h.mem_disabledLines]
  refine or_congr_right (and_congr_right fun _ => ?_)
  rw [h.lookup_overrides]
  by_cases hnamed : named ds line = []
  · simp [hnamed]
  · simp [hnamed, mem_foldl_addOnce]

end Suppressions

end PureLint
