import PureLint.Project.Scan
import PureLint.Proofs.Glob.Literal
import PureLint.Proofs.Lists

/-!
# Segments and directories of a path

The directories around a path are what stands before one of its slashes, so that a name is a segment
of a path exactly if the path or a directory around it ends in that name. What stands before a slash
in the path of a source file has no line breaks.
-/

namespace PureLint

namespace Scan

variable {path : String}

/-- The directories around a path are what stands before one of its slashes. -/
theorem mem_ancestors_iff {directory : String} :
    directory ∈ ancestors path ↔ ∃ more, path.toList = directory.toList ++ '/' :: more := by
  have hrange (n count : Nat) : n ∈ (List.range count).tail ↔ 0 < n ∧ n < count := by
    rw [List.range_eq_range', List.tail_range', List.mem_range'_1]
    omega
  simp only [ancestors, segments, List.mem_map, hrange]
  constructor
  · rintro ⟨n, ⟨hpos, hlt⟩, rfl⟩
    have htake : (path.toList.splitOn '/').take n ≠ [] := by
      rw [← List.length_pos_iff, List.length_take]
      omega
    have hdrop : (path.toList.splitOn '/').drop n ≠ [] := by
      rw [← List.length_pos_iff, List.length_drop]
      omega
    refine ⟨['/'].intercalate ((path.toList.splitOn '/').drop n), ?_⟩
    rw [String.toList_ofList, ← intercalate_append '/' htake hdrop, List.take_append_drop,
      List.intercalate_splitOn]
  · rintro ⟨more, hpath⟩
    have hsplit : path.toList.splitOn '/' =
        directory.toList.splitOn '/' ++ more.splitOn '/' := by
      rw [hpath, List.splitOn_append_cons_self]
    have hdirectory := List.length_pos_iff.mpr (List.splitOn_ne_nil '/' directory.toList)
    have hmore := List.length_pos_iff.mpr (List.splitOn_ne_nil '/' more)
    refine ⟨(directory.toList.splitOn '/').length, ⟨hdirectory, ?_⟩, ?_⟩
    · rw [hsplit, List.length_append]
      omega
    · rw [hsplit, List.take_left, List.intercalate_splitOn, String.ofList_toList]

/-- The source patterns are common globs: any segments and then a name with an extension. -/
theorem exists_extension_of_mem {pattern : Glob.Pattern}
    (h : pattern ∈ sourcePatterns.flatMap Glob.read) :
    ∃ ending, Glob.slash ∉ ending ∧ pattern.negated = false ∧
      pattern.regex = some (.both (.both Glob.anySegmentsPart Glob.firstStarPart)
        (.ofUnits ending)) := by
  have hpatterns : sourcePatterns.flatMap Glob.read =
      [".ts", ".tsx", ".mts", ".cts"].map fun extension =>
        ⟨("**/*" ++ extension).toList, false, some (.both (.both Glob.anySegmentsPart
          Glob.firstStarPart) (.ofChars extension.toList))⟩ := rfl
  have hslashes : ∀ extension ∈ [".ts", ".tsx", ".mts", ".cts"],
      Glob.slash ∉ Text.units extension.toList := by decide
  rw [hpatterns, List.mem_map] at h
  obtain ⟨extension, hextension, rfl⟩ := h
  exact ⟨Text.units extension.toList, hslashes extension hextension, rfl, rfl⟩

/-- A common glob takes segments within one line, with a slash after each, and then the beginning of
a name. -/
theorem exists_of_mem_leaves_common {us rest : List UInt16}
    (h : rest ∈ (Regex.both Glob.anySegmentsPart Glob.firstStarPart).leaves us) :
    ∃ taken name, us = taken ++ (name ++ rest) ∧
      (∀ u ∈ taken, UnitSet.inLine.contains u = true) ∧ Glob.slash ∉ name := by
  obtain ⟨middle, hmiddle, hrest⟩ := Regex.mem_leaves_both.mp h
  obtain ⟨name, rfl, hname⟩ : ∃ name, middle = name ++ rest ∧ Glob.slash ∉ name := by
    obtain ⟨middle', hmiddle', hrest⟩ := Regex.mem_leaves_both.mp hrest
    rw [Regex.eq_of_mem_leaves_next hmiddle'] at hrest
    obtain ⟨name, rfl, hname⟩ := Regex.mem_leaves_many_one.mp hrest
    exact ⟨name, rfl, fun hmem => absurd (hname _ hmem) (by decide)⟩
  rcases Regex.mem_leaves_either.mp hmiddle with hsegments | hnone
  · obtain ⟨taken, rfl, htaken⟩ := Glob.mem_leaves_segmentsPart.mp hsegments
    refine ⟨taken ++ [Glob.slash], name, by simp, ?_, hname⟩
    intro u hu
    rcases List.mem_append.mp hu with hu | hu
    · exact htaken u hu
    · rw [List.mem_singleton.mp hu]
      decide
  · rw [Regex.leaves_empty, List.mem_singleton] at hnone
    exact ⟨[], name, hnone.symm, List.forall_mem_nil _, hname⟩

/-- What stands before a slash in the path of a source file has no line breaks. -/
theorem inLine_of_isSource (h : isSource path = true) {before more : List Char}
    (hpath : path.toList = before ++ '/' :: more) :
    ∀ u ∈ Text.units before, UnitSet.inLine.contains u = true := by
  rw [isSource, Bool.and_eq_true, List.any_eq_true] at h
  obtain ⟨-, pattern, hpattern, htest⟩ := h
  obtain ⟨ending, hending, hnegated, hregex⟩ := exists_extension_of_mem hpattern
  simp only [Glob.Pattern.test, hregex, hnegated, Bool.false_eq_true, if_false, Regex.accepts_iff]
    at htest
  obtain ⟨middle, hmiddle, hrest⟩ := Regex.mem_leaves_both.mp htest
  rw [Regex.mem_leaves_ofUnits, List.append_nil] at hrest
  subst hrest
  obtain ⟨taken, name, hunits, htaken, hname⟩ := exists_of_mem_leaves_common hmiddle
  have hslash : Glob.slash ∉ name ++ middle := by simp [hname, hending]
  have hsplit : Text.units before ++ Glob.slash :: Text.units more = taken ++ (name ++ middle) := by
    rw [← hunits, hpath, Text.units_append]
    rfl
  -- The last part has no slash, so all that is before a slash lies in the first one.
  rcases List.append_eq_append_iff.mp hsplit with ⟨others, htakenEq, -⟩ | ⟨others, -, hlast⟩
  · intro u hu
    exact htaken u (htakenEq ▸ List.mem_append_left _ hu)
  · exact absurd (hlast ▸ List.mem_append_right _ List.mem_cons_self) hslash

end Scan

end PureLint
