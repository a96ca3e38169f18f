import PureLint.Proofs.Project.Paths
import PureLint.Proofs.Text.Trim

/-!
# A rooted entry of the ignore file

An entry that starts with a slash is meant for the root of a project. The search leaves the slash
out and looks for the name at any depth. So one more such entry takes from the files that are found
all that have the name as a segment of their path, wherever it stands, and nothing else.
-/

namespace PureLint.Scan

open Glob (IsLiteral Pattern)

/-! ## Entries of the ignore file -/

/-- The entries of the ignore file of a project: its lines without the blanks around them, empty
ones aside. A project without the file has none. -/
def ignoreEntries (d : Directory) : List (List Char) :=
  (((d.read? ignoreFileName).map fun text => (Text.lines text.toList).map Text.trim).getD []).filter
    (· ≠ [])

/-- An entry of the ignore file has no blanks around it. -/
theorem trim_of_mem_ignoreEntries {d : Directory} {entry : List Char}
    (h : entry ∈ ignoreEntries d) : Text.trim entry = entry := by
  have hmem := (List.mem_filter.mp h).1
  cases hread : d.read? ignoreFileName with
  | none =>
    rw [hread] at hmem
    exact absurd hmem List.not_mem_nil
  | some text =>
    rw [hread] at hmem
    obtain ⟨line, -, rfl⟩ := List.mem_map.mp hmem
    exact Text.trim_trim line

/-- The pattern that a line asks for is that of its entry, and an empty line asks for none. -/
theorem ignoreLine?_trim (line : List Char) : ignoreLine? (Text.trim line) = ignoreLine? line := by
  rw [ignoreLine?, ignoreLine?, Text.trim_trim]

/-- Trimming the lines and dropping the empty ones keeps the patterns that they ask for. -/
theorem filterMap_entries (lines : List (List Char)) :
    ((lines.map Text.trim).filter (· ≠ [])).filterMap ignoreLine? =
      lines.filterMap ignoreLine? := by
  induction lines with
  | nil => rfl
  | cons line lines ih =>
    have htrim := ignoreLine?_trim line
    by_cases hnil : Text.trim line = []
    · have hnone : ignoreLine? line = none := by
        rw [← htrim, hnil]
        rfl
      rw [List.filterMap_cons_none hnone, ← ih, List.map_cons,
        List.filter_cons_of_neg (by simp [hnil])]
    · rw [List.filterMap_cons, ← ih, List.map_cons, List.filter_cons_of_pos (by simp [hnil]),
        List.filterMap_cons, htrim]

/-- The patterns that the ignore file asks for are those of its entries. -/
theorem listed_eq (d : Directory) :
    ((d.read? ignoreFileName).map ignoreLines).getD [] =
      (ignoreEntries d).filterMap ignoreLine? := by
  cases hread : d.read? ignoreFileName with
  | none => simp [ignoreEntries, hread]
  | some text =>
    rw [ignoreEntries, hread, Option.map_some, Option.map_some, Option.getD_some, Option.getD_some,
      filterMap_entries]
    rfl

/-- A rooted entry with a literal name asks for the name at any depth. -/
theorem ignoreLine?_rooted {name : List Char} (hname : IsLiteral name)
    (htrim : Text.trim ('/' :: name) = '/' :: name) :
    ignoreLine? ('/' :: name) = some ("**/" ++ String.ofList name) := by
  have hasks : (String.ofList ('/' :: name) = "" ||
      Text.startsWith (String.ofList ('/' :: name)) "#" ||
      Text.startsWith (String.ofList ('/' :: name)) "!") = false := by
    simp [Text.startsWith, List.isPrefixOf]
  have hstrip : Text.stripStart (String.ofList ('/' :: name)) "/" = String.ofList name := by
    simp only [Text.stripStart, String.toList_ofList]
    rfl
  have hstart : Text.startsWith (String.ofList name) "**/" = false := by
    obtain ⟨c, rest, rfl⟩ := List.exists_cons_of_ne_nil hname.ne_nil
    have hc : '*' ≠ c := fun heq => hname.notMem '*' (by decide) (heq ▸ List.mem_cons_self)
    have hhead : Text.startsWith (String.ofList (c :: rest)) "**/" =
        ('*' == c && ['*', '/'].isPrefixOf rest) := by
      simp only [Text.startsWith, String.toList_ofList]
      rfl
    rw [hhead, beq_false_of_ne hc, Bool.false_and]
  simp only [ignoreLine?, htrim, hasks, hstrip, hstart, Bool.false_eq_true, if_false]

/-! ## One more entry -/

/-- Of two projects the second has one more entry in its ignore file. All other files are the
same. -/
structure AddsEntry (entry : List Char) (d e : Directory) : Prop where
  root : e.root = d.root
  files : e.files.filter (·.1 ≠ ignoreFileName) = d.files.filter (·.1 ≠ ignoreFileName)
  entries : ∃ before after, ignoreEntries d = before ++ after ∧
    ignoreEntries e = before ++ entry :: after

/-- The name at any depth leaves out the source files that have it as a segment of their path. -/
theorem leavesOut_ofName_iff {name : List Char} (hname : IsLiteral name) {path : String}
    (hsource : isSource path = true) (root : String) :
    leavesOut root path (Pattern.ofName name) = true ↔ name ∈ segments path := by
  have habsolute : (Pattern.ofName name).isAbsolute = false := rfl
  rw [leavesOut, habsolute, if_neg Bool.false_ne_true, Pattern.prunes_ofName hname, Bool.true_and,
    Bool.or_eq_true, List.any_eq_true, segments, mem_splitOn_iff (hname.notMem '/' (by decide))]
  constructor
  · rintro (htest | ⟨directory, hdirectory, htest⟩)
    · exact ⟨path.toList, Or.inl rfl, Pattern.ends_of_test_ofName htest⟩
    · exact ⟨directory.toList, Or.inr (mem_ancestors_iff.mp hdirectory),
        Pattern.ends_of_test_ofName htest⟩
  · rintro ⟨upTo, hpath, hends⟩
    -- What stands before the name is before a slash of the path, so it has no line breaks.
    have htest : (Pattern.ofName name).test (String.ofList upTo) = true := by
      rw [Pattern.test_ofName_iff, String.toList_ofList]
      rcases hends with hends | ⟨before, hbefore⟩
      · exact Or.inl hends
      · refine Or.inr ⟨before, hbefore, ?_⟩
        rcases hpath with hpath | ⟨more, hpath⟩
        · exact inLine_of_isSource hsource (hpath.trans hbefore)
        · have hwhole : path.toList = before ++ '/' :: (name ++ '/' :: more) := by
            rw [hpath, hbefore, List.append_assoc, List.cons_append]
          exact inLine_of_isSource hsource hwhole
    rcases hpath with hpath | hpath
    · exact Or.inl (by rwa [← hpath, String.ofList_toList] at htest)
    · refine Or.inr ⟨String.ofList upTo, mem_ancestors_iff.mpr ?_, htest⟩
      rwa [String.toList_ofList]

variable {name : List Char} {d e : Directory}

/-- One more rooted entry asks for one more pattern. -/
theorem any_ignorePatterns (hname : IsLiteral name) (h : AddsEntry ('/' :: name) d e)
    (config : Config) (leftOut : Pattern → Bool) :
    (ignorePatterns e config).any leftOut =
      ((ignorePatterns d config).any leftOut || leftOut (Pattern.ofName name)) := by
  obtain ⟨before, after, hd, he⟩ := h.entries
  have hentry : '/' :: name ∈ ignoreEntries e :=
    he ▸ List.mem_append_right before List.mem_cons_self
  have hline := ignoreLine?_rooted hname (trim_of_mem_ignoreEntries hentry)
  simp only [ignorePatterns, listed_eq, hd, he, List.filterMap_append,
    List.filterMap_cons_some hline, List.flatMap_append, List.flatMap_cons,
    Glob.read_anyDepth hname, List.any_append, List.any_cons, List.any_nil, Bool.or_false]
  ac_rfl

/-- One more rooted entry leaves out the source files that have its name as a segment. -/
theorem finds_of_addsEntry (hname : IsLiteral name) (h : AddsEntry ('/' :: name) d e)
    (config : Config) (path : String) :
    finds e.root (ignorePatterns e config) path =
      (finds d.root (ignorePatterns d config) path && !(segments path).contains name) := by
  rw [finds, finds, h.root, any_ignorePatterns hname h]
  cases hsource : isSource path with
  | false => rfl
  | true =>
    have hleavesOut : leavesOut d.root path (Pattern.ofName name) =
        (segments path).contains name := by
      rw [Bool.eq_iff_iff, leavesOut_ofName_iff hname hsource, List.contains_iff_mem]
    rw [hleavesOut, Bool.true_and, Bool.true_and, Bool.not_or]

/-- The ignore file is no source file itself. -/
theorem filter_finds_eq (files : List (String × String)) (root : String)
    (ignores : List Pattern) :
    (files.map (·.1)).filter (finds root ignores) =
      ((files.filter (·.1 ≠ ignoreFileName)).map (·.1)).filter (finds root ignores) := by
  have hignore : isSource ignoreFileName = false := by decide +kernel
  rw [List.filter_map, List.filter_map, List.filter_filter]
  congr 1
  refine List.filter_congr fun file _ => ?_
  by_cases hfile : file.1 = ignoreFileName
  · simp [finds, hfile, hignore]
  · simp [hfile]

/-- **A rooted entry hides its name everywhere.** If the ignore file of a project gets one more
entry that is a slash and a literal name, then the files that are found are those that were found
before, in the same order, without any that have the name as a segment of their path. -/
theorem run_of_addsEntry (hname : IsLiteral name) (h : AddsEntry ('/' :: name) d e)
    (config : Config) :
    run e config = (run d config).filter fun path => !(segments path).contains name := by
  have hfinds : finds e.root (ignorePatterns e config) = fun path =>
      (!(segments path).contains name) && finds d.root (ignorePatterns d config) path := by
    funext path
    rw [finds_of_addsEntry hname h, Bool.and_comm]
  rw [run, run, ← Text.sortByUnits_filter, filter_finds_eq e.files, filter_finds_eq d.files,
    h.files, List.filter_filter, hfinds]

/-- The name of a file. -/
def generatedName : List Char := ['g', 'e', 'n', '.', 't', 's']

/-- A project with a file of that name at its root and below it. -/
def generated : Directory := { files := [("gen.ts", ""), ("src/gen.ts", "")] }

/-- The same project with a rooted entry for that name. -/
def generatedIgnored : Directory :=
  { files := [(".gitignore", "/gen.ts"), ("gen.ts", ""), ("src/gen.ts", "")] }

/-- The second project has the one entry more. -/
theorem addsEntry_generated : AddsEntry ('/' :: generatedName) generated generatedIgnored :=
  ⟨rfl, by decide +kernel, [], [], by decide +kernel, by decide +kernel⟩

/-- The entry for the root leaves none of the two files. -/
theorem run_generatedIgnored :
    IsLiteral generatedName ∧ AddsEntry ('/' :: generatedName) generated generatedIgnored ∧
      run generatedIgnored {} = [] := by
  have hname : IsLiteral generatedName := ⟨by decide, by simp [generatedName, Glob.globMarks]⟩
  refine ⟨hname, addsEntry_generated, ?_⟩
  rw [run_of_addsEntry hname addsEntry_generated, List.filter_eq_nil_iff]
  intro path hpath
  obtain ⟨hfile, -⟩ := mem_run_iff.mp hpath
  clear hpath
  revert path
  decide +kernel

/-- The file below the root was found before and is hidden by the entry for the root. -/
theorem run_hides_src :
    AddsEntry ('/' :: generatedName) generated generatedIgnored ∧
      (segments "src/gen.ts").head? ≠ some generatedName ∧
      "src/gen.ts" ∈ run generated {} ∧ "src/gen.ts" ∉ run generatedIgnored {} := by
  refine ⟨addsEntry_generated, by decide +kernel, mem_run_iff.mpr ?_, fun h => ?_⟩
  · decide +kernel
  · have hfinds := (mem_run_iff.mp h).2
    revert hfinds
    decide +kernel

end PureLint.Scan
