import Mathlib.Data.List.Basic
import PureLint.Directive.Expectation

/-!
# Announced expectations

A source announces expectations line by line, each announcement for the line after its own. Listed
flat, as pairs of a line and a rule, they are what the expectations of the source hold by line.
-/

namespace PureLint.Expectations

/-- The pairs that a line announces: the line after it with each rule it names. -/
def announcedAt (index : Nat) (line : List Char) : List (Nat × String) :=
  match Text.after? marker (Text.trim line) with
  | some rest => (Directive.ruleNames rest).map fun rule => (index + 1, rule)
  | none => []

/-- The pairs that a source announces, by line and in the order of the names on a line. -/
def announced (source : String) : List (Nat × String) :=
  (Text.lines source.toList).zipIdx.flatMap fun (line, index) => announcedAt index line

/-- The pairs that expectations by line hold. -/
def pairs (entries : List (Nat × List String)) : List (Nat × String) :=
  entries.flatMap fun (line, rules) => rules.map fun rule => (line, rule)

/-- A line expects of the next one what it announces. -/
theorem pairs_ofLine (index : Nat) (line : List Char) :
    pairs (ofLine index (Text.trim line)).toList = announcedAt index line := by
  unfold ofLine announcedAt
  cases Text.after? marker (Text.trim line) with
  | none => rfl
  | some rest =>
    cases h : Directive.ruleNames rest with
    | nil => simp [h, pairs]
    | cons rule rules => simp [h, pairs]

/-- The expectations of a source, by line. -/
theorem expected_ofSource (source : String) :
    (ofSource source).expected =
      (Text.lines source.toList).zipIdx.filterMap fun (line, index) =>
        ofLine index (Text.trim line) := by
  simp only [ofSource, List.mapIdx_eq_zipIdx_map, List.zipIdx_map, List.map_map,
    List.filterMap_map]
  rfl

/-- A source expects exactly the pairs that it announces, in the same order. -/
theorem pairs_expected (source : String) :
    pairs (ofSource source).expected = announced source := by
  rw [expected_ofSource, announced, pairs, List.filterMap_eq_flatMap_toList, List.flatMap_assoc]
  congr 1
  funext ⟨line, index⟩
  exact pairs_ofLine index line

/-- What a line expects is for the line after it. -/
theorem line_of_ofLine {index : Nat} {line : List Char} {entry : Nat × List String}
    (h : ofLine index line = some entry) : entry.1 = index + 1 := by
  unfold ofLine at h
  cases hafter : Text.after? marker line with
  | none => simp [hafter] at h
  | some rest =>
    simp only [hafter, Option.bind_eq_bind, Option.bind_some] at h
    split at h
    · cases h
    · cases h
      rfl

/-- The lines of the expectations ascend, and no line has two entries. -/
theorem lines_expected (source : String) :
    (ofSource source).expected.Pairwise fun entry later => entry.1 < later.1 := by
  have hindices : ((Text.lines source.toList).zipIdx.map Prod.snd).Pairwise (· < ·) := by
    rw [List.zipIdx_map_snd]
    exact List.pairwise_lt_range'
  rw [expected_ofSource]
  refine (List.pairwise_map.mp hindices).filterMap _ ?_
  intro first second hlt entry hentry later hlater
  rw [line_of_ofLine hentry, line_of_ofLine hlater]
  omega

/-- The entry of a line is found by the line. -/
theorem find?_of_mem {entries : List (Nat × List String)}
    (hlines : entries.Pairwise fun entry later => entry.1 < later.1) {entry : Nat × List String}
    (hmem : entry ∈ entries) :
    (entries.find? fun other => (other.1 : Int) == entry.1) = some entry := by
  induction entries with
  | nil => cases hmem
  | cons first rest ih =>
    obtain ⟨hfirst, hrest⟩ := List.pairwise_cons.mp hlines
    rcases List.mem_cons.mp hmem with rfl | hmem
    · simp
    · have hne : first.1 ≠ entry.1 := Nat.ne_of_lt (hfirst entry hmem)
      rw [List.find?_cons_of_neg (by simp only [beq_iff_eq]; omega)]
      exact ih hrest hmem

/-- A rule is expected on a line exactly if the source announces the pair. -/
theorem expects_ofSource_iff (source : String) (line : Int) (rule : String) :
    (ofSource source).expects line rule = true ↔
      ∃ pair ∈ announced source, (pair.1 : Int) = line ∧ pair.2 = rule := by
  unfold expects expectedOn
  rw [← pairs_expected, List.contains_iff_mem]
  constructor
  · intro h
    cases hfind : (ofSource source).expected.find? fun entry => (entry.1 : Int) == line with
    | none => simp [hfind] at h
    | some entry =>
      have hline : (entry.1 : Int) = line := by simpa using List.find?_some hfind
      have hrule : rule ∈ entry.2 := by simpa [hfind] using h
      refine ⟨(entry.1, rule), List.mem_flatMap.mpr ⟨entry, List.mem_of_find?_eq_some hfind, ?_⟩,
        hline, rfl⟩
      exact List.mem_map_of_mem hrule
  · rintro ⟨pair, hpair, rfl, rfl⟩
    obtain ⟨entry, hentry, hmem⟩ := List.mem_flatMap.mp hpair
    obtain ⟨rule, hrule, rfl⟩ := List.mem_map.mp hmem
    simpa only [find?_of_mem (lines_expected source) hentry, Option.map_some, Option.getD_some]
      using hrule

/-- The announced pairs ascend by line. -/
theorem lines_announced (source : String) :
    (announced source).Pairwise fun pair later => pair.1 ≤ later.1 := by
  rw [← pairs_expected, pairs, List.pairwise_flatMap]
  refine ⟨fun entry _ => ?_, (lines_expected source).imp ?_⟩
  · exact List.pairwise_map.mpr (List.pairwise_of_forall fun _ _ => Nat.le_refl _)
  · intro entry later hlt pair hpair other hother
    obtain ⟨_, _, rfl⟩ := List.mem_map.mp hpair
    obtain ⟨_, _, rfl⟩ := List.mem_map.mp hother
    exact Nat.le_of_lt hlt

/-- What is announced is for a line of the source after the first, or for the line that would come
after the last. -/
theorem line_le_of_mem_announced {source : String} {pair : Nat × String}
    (h : pair ∈ announced source) : pair.1 ≤ (Text.lines source.toList).length := by
  obtain ⟨⟨line, index⟩, hline, hpair⟩ := List.mem_flatMap.mp h
  obtain ⟨hlt, -⟩ := List.getElem?_eq_some_iff.mp (List.mem_zipIdx_iff_getElem?.mp hline)
  simp only [announcedAt] at hpair
  split at hpair
  · obtain ⟨rule, -, rfl⟩ := List.mem_map.mp hpair
    exact hlt
  · cases hpair

end PureLint.Expectations
