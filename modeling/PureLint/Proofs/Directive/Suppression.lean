import PureLint.Proofs.Directive.Marker
import PureLint.Proofs.Text.Occurrence

/-!
# What directives suppress

Whether a rule is switched off on a line can be told from the source alone: from the lines that have
a marker, and the names that follow the marker where it first stands on its line. The directives for
a line count together, from whichever line each of them comes. The tables of lines and of rules by
line hold all that a look-up needs.
-/

namespace PureLint

namespace Directive

/-- A separator parts the names before it from those after it. -/
theorem ruleNames_append_cons {c : Char} (hc : isSeparator c = true) (text rest : List Char) :
    ruleNames (text ++ c :: rest) = ruleNames text ++ ruleNames rest := by
  simp only [ruleNames, List.splitOnP_append_cons _ _ hc, List.filter_append, List.map_append]

/-- Blanks at the end of a text add no names. -/
theorem ruleNames_append_blanks {blanks : List Char} (h : ∀ c ∈ blanks, Text.isBlank c = true)
    (text : List Char) : ruleNames (text ++ blanks) = ruleNames text := by
  induction blanks generalizing text with
  | nil => rw [List.append_nil]
  | cons c blanks ih =>
    have hc : isSeparator c = true := by simp [isSeparator, h c List.mem_cons_self]
    have hnone : ruleNames blanks = [] := ih (fun d hd => h d (List.mem_cons_of_mem _ hd)) []
    rw [ruleNames_append_cons hc, hnone, List.append_nil]

/-- The names after a marker are the same on the trimmed line as on the line itself. -/
theorem ruleNames_after?_trim {marker : List Char} (h : marker ∈ markers) (line : List Char) :
    (Text.after? marker (Text.trim line)).map ruleNames =
      (Text.after? marker line).map ruleNames := by
  have hblank : ∀ marker ∈ markers, marker.head?.any Text.isBlank = false ∧
      marker.getLast?.any Text.isBlank = false ∧ marker ≠ [] := by decide
  obtain ⟨hhead, hlast, hmarker⟩ := hblank marker h
  obtain ⟨blanks, hafter, hblanks⟩ := Text.exists_after?_trim hhead hlast hmarker line
  rw [hafter, Option.map_map]
  congr 1
  funext rest
  exact (ruleNames_append_blanks hblanks rest).symm

end Directive

namespace Suppressions

open Directive (ruleNames)
open Text (FollowsFirst)

/-! ## Directives of a source -/

/-- The lines that a source has a directive for: each line after one with the marker for the next
line, and each with the marker for its own. -/
def Targets (source : String) (line : Nat) : Prop :=
  (∃ index text, (Text.lines source.toList)[index]? = some text ∧ nextLineMarker <:+: text ∧
    line = index + 1) ∨
  ∃ text, (Text.lines source.toList)[line]? = some text ∧ sameLineMarker <:+: text

/-- A source has a directive for a line that names these rules: those in the text after its marker,
from where this first stands on its line. -/
inductive Directs (source : String) (line : Nat) (rules : List String) : Prop
  | next {index : Nat} {text rest : List Char} :
    (Text.lines source.toList)[index]? = some text → FollowsFirst nextLineMarker text rest →
      line = index + 1 → rules = ruleNames rest → Directs source line rules
  | same {text rest : List Char} :
    (Text.lines source.toList)[line]? = some text → FollowsFirst sameLineMarker text rest →
      rules = ruleNames rest → Directs source line rules

/-- No directive of a source for a line names a rule. -/
def NamesNone (source : String) (line : Nat) : Prop :=
  ∀ rules, Directs source line rules → rules = []

variable {source : String} {line : Nat}

/-- There is a directive for the lines that a source has one for. -/
theorem exists_directs_iff : (∃ rules, Directs source line rules) ↔ Targets source line := by
  constructor
  · rintro ⟨rules, h⟩
    cases h with
    | next htext hfollows hline =>
      exact Or.inl ⟨_, _, htext, Text.exists_followsFirst_iff.mp ⟨_, hfollows⟩, hline⟩
    | same htext hfollows =>
      exact Or.inr ⟨_, htext, Text.exists_followsFirst_iff.mp ⟨_, hfollows⟩⟩
  · rintro (⟨index, text, htext, hmarker, hline⟩ | ⟨text, htext, hmarker⟩)
    · obtain ⟨rest, hfollows⟩ := Text.exists_followsFirst_iff.mpr hmarker
      exact ⟨_, .next htext hfollows hline rfl⟩
    · obtain ⟨rest, hfollows⟩ := Text.exists_followsFirst_iff.mpr hmarker
      exact ⟨_, .same htext hfollows rfl⟩

/-- A trimmed line has the directive that the marker and the names on the line make. -/
theorem directive?_trim_eq_some_iff {marker text : List Char} (h : marker ∈ Directive.markers)
    {target : Nat} {d : LineDirective} :
    directive? marker (Text.trim text) target = some d ↔
      ∃ rest, FollowsFirst marker text rest ∧ d = ⟨target, ruleNames rest⟩ := by
  have hdirective : directive? marker (Text.trim text) target =
      ((Text.after? marker text).map ruleNames).map (LineDirective.mk target) := by
    rw [← Directive.ruleNames_after?_trim h, Option.map_map]
    rfl
  rw [hdirective, Option.map_map, Option.map_eq_some_iff]
  simp only [Text.after?_eq_some_iff, Function.comp_apply, @eq_comm _ d]

/-- A line without a marker for the whole file has one directive for each other marker on it. -/
theorem mem_directivesAt_trim_iff {index : Nat} {text : List Char}
    (hfile : marksFile (Text.trim text) = false) {d : LineDirective} :
    d ∈ directivesAt (Text.trim text) index ↔
      (∃ rest, FollowsFirst nextLineMarker text rest ∧ d = ⟨index + 1, ruleNames rest⟩) ∨
        ∃ rest, FollowsFirst sameLineMarker text rest ∧ d = ⟨index, ruleNames rest⟩ := by
  rw [directivesAt, hfile, if_neg Bool.false_ne_true, List.mem_append, Option.mem_toList,
    Option.mem_toList, directive?_trim_eq_some_iff (by decide),
    directive?_trim_eq_some_iff (by decide)]

/-- The directives of a source are those of its lines. -/
theorem mem_directives {d : LineDirective} : d ∈ directives source ↔ ∃ index text,
    (Text.lines source.toList)[index]? = some text ∧ d ∈ directivesAt (Text.trim text) index := by
  simp only [directives, List.mem_flatMap, Prod.exists, List.mem_zipIdx_iff_getElem?,
    List.getElem?_map, Option.map_eq_some_iff]
  constructor
  · rintro ⟨_, index, ⟨text, htext, rfl⟩, hd⟩
    exact ⟨index, text, htext, hd⟩
  · rintro ⟨index, text, htext, hd⟩
    exact ⟨_, index, ⟨text, htext, rfl⟩, hd⟩

/-- In a file that is not switched off as a whole, the directives are those that its lines give. -/
theorem mem_directives_iff (hfile : (ofSource source).wholeFile = false) {d : LineDirective} :
    d ∈ directives source ↔ Directs source d.line d.rules := by
  have hmarks {index : Nat} {text : List Char}
      (htext : (Text.lines source.toList)[index]? = some text) :
      marksFile (Text.trim text) = false := by
    rw [← Bool.not_eq_true, marksFile, List.any_eq_true]
    rintro ⟨marker, hmarker, hoccurs⟩
    have hinfix : marker <:+: text :=
      (Directive.infix_trim_iff (List.mem_append_left _ hmarker)).mp
        (Text.occurs_iff.mp hoccurs)
    rw [(wholeFile_ofSource_iff source).mpr
      ⟨text, List.mem_of_getElem? htext, marker, hmarker, hinfix⟩] at hfile
    exact Bool.noConfusion hfile
  rw [mem_directives]
  constructor
  · rintro ⟨index, text, htext, hd⟩
    rcases (mem_directivesAt_trim_iff (hmarks htext)).mp hd with
      ⟨rest, hfollows, rfl⟩ | ⟨rest, hfollows, rfl⟩
    · exact .next htext hfollows rfl rfl
    · exact .same htext hfollows rfl
  · obtain ⟨line, rules⟩ := d
    intro h
    cases h with
    | next htext hfollows hline hrules =>
      cases hline
      cases hrules
      exact ⟨_, _, htext,
        (mem_directivesAt_trim_iff (hmarks htext)).mpr (Or.inl ⟨_, hfollows, rfl⟩)⟩
    | same htext hfollows hrules =>
      cases hrules
      exact ⟨_, _, htext,
        (mem_directivesAt_trim_iff (hmarks htext)).mpr (Or.inr ⟨_, hfollows, rfl⟩)⟩

/-- The directives for a line are those of its number. -/
theorem mem_on_iff {ds : List LineDirective} {d : LineDirective} :
    d ∈ LineDirective.on ds line ↔ d ∈ ds ∧ d.line = line := by
  rw [LineDirective.on, List.mem_filter, beq_iff_eq, Int.natCast_inj]

/-- There are directives for the lines that the source has one for. -/
theorem on_directives_ne_nil_iff (hfile : (ofSource source).wholeFile = false) :
    LineDirective.on (directives source) line ≠ [] ↔ Targets source line := by
  rw [LineDirective.on_ne_nil_iff, ← exists_directs_iff]
  simp only [mem_directives_iff hfile, Int.natCast_inj]
  constructor
  · rintro ⟨d, hd, rfl⟩
    exact ⟨d.rules, hd⟩
  · rintro ⟨rules, h⟩
    exact ⟨⟨line, rules⟩, h, rfl⟩

/-- The rules named for a line are those that some directive for it names. -/
theorem mem_named_iff (hfile : (ofSource source).wholeFile = false) {rule : String} :
    rule ∈ LineDirective.named (directives source) line ↔
      ∃ rules, Directs source line rules ∧ rule ∈ rules := by
  simp only [LineDirective.named, List.mem_flatMap, mem_on_iff, mem_directives_iff hfile]
  constructor
  · rintro ⟨d, ⟨hd, rfl⟩, hrule⟩
    exact ⟨d.rules, hd, hrule⟩
  · rintro ⟨rules, h, hrule⟩
    exact ⟨⟨line, rules⟩, ⟨h, rfl⟩, hrule⟩

/-- No rule is named for a line exactly if no directive for it names one. -/
theorem named_eq_nil_iff (hfile : (ofSource source).wholeFile = false) :
    LineDirective.named (directives source) line = [] ↔ NamesNone source line := by
  simp only [NamesNone, List.eq_nil_iff_forall_not_mem, mem_named_iff hfile, not_exists, not_and]
  constructor
  · intro h rules hrules rule hrule
    exact h rule rules hrules hrule
  · intro h rule rules hrules hrule
    exact h rules hrules rule hrule

/-- A rule is switched off on a line of a source by the file, or by the directives for the line if
these name no rule or this one. -/
theorem covers_iff_directs (source : String) (line : Nat) (rule : String) :
    (ofSource source).covers line rule = true ↔ (ofSource source).wholeFile = true ∨
      Targets source line ∧
        (NamesNone source line ∨ ∃ rules, Directs source line rules ∧ rule ∈ rules) := by
  rw [(represents_ofSource source).covers_iff (wellFormed_ofSource source)]
  by_cases hfile : (ofSource source).wholeFile = true
  · exact iff_of_true (Or.inl hfile) (Or.inl hfile)
  · rw [Bool.not_eq_true] at hfile
    rw [on_directives_ne_nil_iff hfile, named_eq_nil_iff hfile, mem_named_iff hfile]

/-- A line of a source is switched off by the file, or if there is a directive for it. -/
theorem coversLine_iff_targets (source : String) (line : Nat) :
    (ofSource source).coversLine line = true ↔
      (ofSource source).wholeFile = true ∨ Targets source line := by
  rw [coversLine_iff, (represents_ofSource source).mem_disabledLines]
  by_cases hfile : (ofSource source).wholeFile = true
  · exact iff_of_true (Or.inl hfile) (Or.inl hfile)
  · rw [Bool.not_eq_true] at hfile
    rw [on_directives_ne_nil_iff hfile]

/-- **Which rules are switched off can be told from the lines of the source.** A rule is switched
off on a line exactly if a line of the source has a marker for the whole file, or some directive is
for the line, and no directive for it names a rule or one of them names this rule; and a line, if
the file is or some directive is for it. The tables that the scan fills tell the same, the one of
lines whether a rule may be off on a line at all, the one of rules which. Each line that has rules
has them once, is among the lines, and has one rule at least, so no rule is switched off on a line
that is not. -/
theorem covers_ofSource_iff (source : String) (line : Nat) (rule : String) :
    ((ofSource source).covers line rule = true ↔
      (∃ text ∈ Text.lines source.toList, ∃ marker ∈ fileMarkers, marker <:+: text) ∨
        Targets source line ∧ ((∀ rules, Directs source line rules → rules = []) ∨
          ∃ rules, Directs source line rules ∧ rule ∈ rules)) ∧
      ((ofSource source).coversLine line = true ↔
        (∃ text ∈ Text.lines source.toList, ∃ marker ∈ fileMarkers, marker <:+: text) ∨
          Targets source line) ∧
      ((ofSource source).covers line rule = true ↔ (ofSource source).wholeFile = true ∨
        (line : Int) ∈ (ofSource source).disabledLines ∧
          ∀ rules, ((line : Int), rules) ∈ (ofSource source).overrides → rule ∈ rules) ∧
      ((ofSource source).coversLine line = true ↔ (ofSource source).wholeFile = true ∨
        (line : Int) ∈ (ofSource source).disabledLines) ∧
      ((ofSource source).overrides.map Prod.fst).Nodup ∧
      (∀ entry ∈ (ofSource source).overrides,
        entry.1 ∈ (ofSource source).disabledLines ∧ entry.2 ≠ []) ∧
      ((ofSource source).covers line rule = true → (ofSource source).coversLine line = true) := by
  have hs := wellFormed_ofSource source
  refine ⟨?_, ?_, ?_, coversLine_iff, hs.nodup_overrides, ?_, ?_⟩
  · rw [covers_iff_directs, wholeFile_ofSource_iff, NamesNone]
  · rw [coversLine_iff_targets, wholeFile_ofSource_iff]
  · simp only [hs.covers_iff, lookup_eq_some_iff_mem hs.nodup_overrides]
  · exact fun entry hentry => ⟨hs.mem_lines entry hentry, hs.named entry hentry⟩
  · exact fun h => coversLine_iff.mpr ((hs.covers_iff.mp h).imp_right And.left)

-- a directive that names nothing does not widen one for the same line that does
example :
    let s := ofSource "// purets-disable-next-line no-enums\nenum A {} // purets-disable-line"
    s.covers 1 "no-enums" = true ∧ s.covers 1 "no-delete" = false := by
  decide +kernel

end Suppressions

end PureLint
