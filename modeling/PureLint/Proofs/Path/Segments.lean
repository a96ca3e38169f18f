import Mathlib.Data.List.Find
import PureLint.Path.Traits
import PureLint.Proofs.Project.Paths

/-!
# Paths as segments

What a path tells about a file can be read off its segments, the parts between its slashes. A
convention holds if its name is one of the segments before the last, an entry counts if its segments
are the last ones of the path, and the last segment gives the name of the file, its stem and what it
tests. So nothing is ever found in the middle of a name.
-/

namespace PureLint

/-! ## Endings of strings -/

namespace Text

variable {s ending rest : String}

/-- What is left of a string without an ending stands before the ending. -/
theorem stripEnd?_eq_some_iff : stripEnd? s ending = some rest ↔ s = rest ++ ending := by
  simp only [stripEnd?, Option.map_eq_some_iff, dropStart?_eq_some_iff]
  constructor
  · rintro ⟨front, hfront, rfl⟩
    rw [← String.toList_inj, String.toList_append, String.toList_ofList, ← List.reverse_inj, hfront,
      List.reverse_append, List.reverse_reverse]
  · rintro rfl
    exact ⟨rest.toList.reverse, by simp, by simp⟩

/-- A string ends with an ending if something stands before the ending. -/
theorem endsWith_iff : endsWith s ending = true ↔ ∃ rest, s = rest ++ ending := by
  rw [endsWith, List.isSuffixOf_iff_suffix]
  constructor
  · rintro ⟨front, hfront⟩
    refine ⟨String.ofList front, ?_⟩
    rw [← String.toList_inj, String.toList_append, String.toList_ofList, hfront]
  · rintro ⟨rest, rfl⟩
    exact ⟨rest.toList, String.toList_append.symm⟩

end Text

namespace Path

open Scan (segments)

/-- No ending is the end of another. -/
def Apart (endings : List String) : Prop :=
  ∀ ending ∈ endings, ∀ other ∈ endings, other.toList <:+ ending.toList → other = ending

instance (endings : List String) : Decidable (Apart endings) :=
  inferInstanceAs (Decidable (∀ ending ∈ endings, _))

/-- Without its ending, a string is what stands before it. -/
theorem stripEnding_append {endings : List String} (hapart : Apart endings) {ending : String}
    (h : ending ∈ endings) (rest : String) : stripEnding endings (rest ++ ending) = rest := by
  rw [stripEnding]
  cases hfind : endings.findSome? (Text.stripEnd? (rest ++ ending)) with
  | none =>
    have hnone := List.findSome?_eq_none_iff.mp hfind ending h
    rw [Text.stripEnd?_eq_some_iff.mpr rfl] at hnone
    cases hnone
  | some front =>
    obtain ⟨other, hother, hstrip⟩ := List.exists_of_findSome?_eq_some hfind
    have heq : rest ++ ending = front ++ other := Text.stripEnd?_eq_some_iff.mp hstrip
    have hlists : rest.toList ++ ending.toList = front.toList ++ other.toList := by
      rw [← String.toList_append, heq, String.toList_append]
    have hsame : other = ending := by
      have hending : ending.toList <:+ rest.toList ++ ending.toList := List.suffix_append _ _
      have hotherEnd : other.toList <:+ rest.toList ++ ending.toList := ⟨_, hlists.symm⟩
      rcases List.suffix_or_suffix_of_suffix hotherEnd hending with hsuffix | hsuffix
      · exact hapart ending h other hother hsuffix
      · exact (hapart other hother ending h hsuffix).symm
    rw [hsame] at hlists
    rw [Option.getD_some, ← String.toList_inj]
    exact (List.append_cancel_right hlists).symm

/-- A string without any of the endings stays as it is. -/
theorem stripEnding_eq_self {endings : List String} {s : String}
    (h : ∀ ending ∈ endings, ∀ rest, s ≠ rest ++ ending) : stripEnding endings s = s := by
  have hnone : endings.findSome? (Text.stripEnd? s) = none := by
    rw [List.findSome?_eq_none_iff]
    intro ending hending
    rw [Option.eq_none_iff_forall_ne_some]
    intro rest hrest
    exact h ending hending rest (Text.stripEnd?_eq_some_iff.mp hrest)
  rw [stripEnding, hnone, Option.getD_none]

/-! ## The form of paths -/

/-- A path in the form that paths are brought into: it begins with a slash and has no backslash. -/
structure Normal (path : String) : Prop where
  rooted : path.toList.head? = some '/'
  forward : '\\' ∉ path.toList

/-- Every path is brought into this form. -/
theorem normal_normalize (path : String) : Normal (normalize path) := by
  have hforward : '\\' ∉ path.toList.map fun c => if c = '\\' then '/' else c := by
    rw [List.mem_map]
    rintro ⟨c, -, hc⟩
    split at hc
    · cases hc
    · contradiction
  simp only [normalize]
  generalize path.toList.map (fun c => if c = '\\' then '/' else c) = forward at hforward
  have hbare : '\\' ∉ (Text.dropStart? ['.', '/'] forward).getD forward := by
    cases hdrop : Text.dropStart? ['.', '/'] forward with
    | none => exact hforward
    | some bare =>
      rw [Text.dropStart?_eq_some_iff.mp hdrop] at hforward
      exact fun hmem => hforward (List.mem_append_right _ hmem)
  split
  · rename_i hhead
    exact ⟨by rwa [String.toList_ofList], by rwa [String.toList_ofList]⟩
  · exact ⟨by rw [String.toList_ofList]; rfl, by simpa [String.toList_ofList] using hbare⟩

/-- A path in this form begins with its slash. -/
theorem Normal.exists_eq {path : String} (h : Normal path) : ∃ inner, path = "/" ++ inner := by
  obtain ⟨rest, hrest⟩ := List.head?_eq_some_iff.mp h.rooted
  refine ⟨String.ofList rest, ?_⟩
  rw [← String.toList_inj, hrest]
  simp

/-- A path in this form stays as it is. -/
theorem Normal.normalize_eq {path : String} (h : Normal path) : normalize path = path := by
  have hsame : ∀ c ∈ path.toList, (if c = '\\' then '/' else c) = c := by
    intro c hc
    apply if_neg
    rintro rfl
    exact h.forward hc
  have hdrop : Text.dropStart? ['.', '/'] path.toList = none := by
    obtain ⟨rest, hrest⟩ := List.head?_eq_some_iff.mp h.rooted
    rw [hrest]
    rfl
  rw [normalize, List.map_congr_left hsame, List.map_id', hdrop, Option.getD_none,
    if_pos h.rooted, String.ofList_toList]

/-! ## Segments -/

/-- The names of the directories on a path: its segments but the last. -/
def directoryNames (path : String) : List String := (segments path).dropLast.map String.ofList

/-- A path ends with the segments of a candidate: behind the slash that the candidate begins with in
its own form, these are the last segments of the path, and not all of them. -/
def EndsIn (path candidate : String) : Prop :=
  ∃ inner before, normalize candidate = "/" ++ inner ∧ before ≠ [] ∧
    segments path = before ++ segments inner

variable {path : String}

/-- The segments of a path are those before a slash and those after it. -/
theorem segments_of_toList {left right : List Char} (h : path.toList = left ++ '/' :: right) :
    segments path = left.splitOn '/' ++ right.splitOn '/' := by
  rw [segments, h, List.splitOn_append_cons_self]

/-- Between two rows of segments of a path stands a slash. -/
theorem toList_of_segments {before after : List (List Char)}
    (h : segments path = before ++ after) (hbefore : before ≠ []) (hafter : after ≠ []) :
    path.toList = ['/'].intercalate before ++ '/' :: ['/'].intercalate after := by
  rw [← intercalate_append '/' hbefore hafter, ← h, segments, List.intercalate_splitOn]

/-- A path ends with a candidate exactly if it ends with the segments of the candidate. -/
theorem endsWith_normalize_iff {candidate : String} :
    Text.endsWith path (normalize candidate) = true ↔ EndsIn path candidate := by
  rw [Text.endsWith_iff, EndsIn]
  constructor
  · rintro ⟨left, rfl⟩
    obtain ⟨inner, hinner⟩ := (normal_normalize candidate).exists_eq
    refine ⟨inner, segments left, hinner, List.splitOn_ne_nil '/' _, ?_⟩
    apply segments_of_toList
    rw [hinner]
    simp
  · rintro ⟨inner, before, hinner, hbefore, hsegments⟩
    have hpath := toList_of_segments hsegments hbefore (List.splitOn_ne_nil '/' _)
    rw [segments, List.intercalate_splitOn] at hpath
    refine ⟨String.ofList (['/'].intercalate before), ?_⟩
    rw [hinner, ← String.toList_inj, hpath]
    simp

/-- A path is one of the candidates or ends with one exactly if it ends with the segments of
one. -/
theorem endsWithAny_iff {candidates : List String} :
    endsWithAny path candidates = true ↔ ∃ candidate ∈ candidates, EndsIn path candidate := by
  simp only [endsWithAny, List.any_eq_true, endsWith_normalize_iff]

/-- The last segment of a path is its basename. -/
theorem getLast?_segments (path : String) :
    (segments path).getLast? = some (basename path).toList := by
  have hlast := List.getLast?_eq_some_getLast (List.splitOn_ne_nil '/' path.toList)
  rw [segments, basename, hlast, Option.getD_some, String.toList_ofList]

/-- The names of the directories are the segments but the last. -/
theorem mem_directoryNames_iff {name : String} :
    name ∈ directoryNames path ↔ name.toList ∈ (segments path).dropLast := by
  rw [directoryNames, List.mem_map]
  constructor
  · rintro ⟨letters, hletters, rfl⟩
    rwa [String.toList_ofList]
  · intro hletters
    exact ⟨_, hletters, String.ofList_toList⟩

/-- What stands between two slashes of a path, and has none itself, is a segment but the last. -/
theorem mem_dropLast_segments {letters before after : List Char} (hletters : '/' ∉ letters)
    (h : path.toList = before ++ '/' :: (letters ++ '/' :: after)) :
    letters ∈ (segments path).dropLast := by
  rw [segments_of_toList h, List.splitOn_append_cons_self, List.splitOn_eq_singleton hletters,
    List.dropLast_append_of_ne_nil (by simp), List.singleton_append,
    List.dropLast_cons_of_ne_nil (List.splitOn_ne_nil '/' _)]
  simp

/-- A segment but the last, if it is not empty, stands between two slashes of its path: the first
segment is empty, as the path begins with a slash. -/
theorem Normal.exists_slashes (h : Normal path) {letters : List Char} (hne : letters ≠ [])
    (hletters : letters ∈ (segments path).dropLast) :
    ∃ before after, path.toList = before ++ '/' :: (letters ++ '/' :: after) := by
  obtain ⟨before, between, hsplit⟩ := List.append_of_mem hletters
  obtain ⟨last, hlast⟩ : ∃ last, segments path = (segments path).dropLast ++ [last] :=
    ⟨_, (List.dropLast_concat_getLast (List.splitOn_ne_nil '/' _)).symm⟩
  rw [hsplit, List.append_assoc, List.cons_append, ← List.singleton_append] at hlast
  have hbefore : before ≠ [] := by
    rintro rfl
    obtain ⟨inner, hinner⟩ := h.exists_eq
    have hroot : path.toList = [] ++ '/' :: inner.toList := by
      rw [hinner]
      simp
    rw [segments_of_toList hroot, List.splitOn_nil, List.nil_append] at hlast
    exact hne (List.cons.inj hlast).1.symm
  rw [toList_of_segments hlast hbefore (by simp),
    intercalate_append '/' (List.cons_ne_nil _ _) (by simp), List.intercalate_singleton]
  exact ⟨['/'].intercalate before, ['/'].intercalate (between ++ [last]), rfl⟩

/-- A name is that of a directory on a path if it stands between two slashes. -/
theorem Normal.hasDirectory_iff (h : Normal path) {name : String} (hne : name ≠ "")
    (hname : '/' ∉ name.toList) :
    hasDirectory path name = true ↔ name ∈ directoryNames path := by
  have hmarked : ("/" ++ name ++ "/").toList = '/' :: (name.toList ++ ['/']) := by simp
  rw [hasDirectory, Text.contains, Text.occurs_iff, hmarked, mem_directoryNames_iff]
  constructor
  · rintro ⟨before, after, hpath⟩
    have hslashes : path.toList = before ++ '/' :: (name.toList ++ '/' :: after) := by
      rw [← hpath]
      simp
    exact mem_dropLast_segments hname hslashes
  · intro hdirectory
    have hletters : name.toList ≠ [] := mt String.toList_eq_nil_iff.mp hne
    obtain ⟨before, after, hpath⟩ := h.exists_slashes hletters hdirectory
    exact ⟨before, after, by simp [hpath]⟩

/-! ## Conventions -/

/-- The conventions that a directory can bring a file under, in the order in which they count. -/
def directoryConventions : List Convention := [.types, .errors, .pure, .io]

/-- The first convention whose name is that of a directory on the path, if there is one. -/
def conventionOf (directories : List String) : Convention :=
  (directoryConventions.find? fun convention => convention.name ∈ directories).getD .regular

/-- The convention of a path is the first one of which a directory is on it. -/
theorem directory_eq_find? (path : String) :
    directory path = (directoryConventions.find? fun convention =>
      hasDirectory path convention.name).getD .regular := by
  simp only [directory, directoryConventions, List.find?_cons, List.find?_nil, Convention.name]
  cases hasDirectory path "types" <;> cases hasDirectory path "errors" <;>
    cases hasDirectory path "pure" <;> cases hasDirectory path "io" <;> rfl

/-- The convention of a path is the first one that a directory on it has the name of. -/
theorem Normal.directory_eq (h : Normal path) :
    directory path = conventionOf (directoryNames path) := by
  have hnames : ∀ convention ∈ directoryConventions,
      convention.name ≠ "" ∧ '/' ∉ convention.name.toList := by decide
  rw [directory_eq_find?, conventionOf]
  congr 1
  apply List.find?_congr
  intro convention hconvention
  obtain ⟨hne, hname⟩ := hnames convention hconvention
  rw [Bool.eq_iff_iff, h.hasDirectory_iff hne hname, decide_eq_true_iff]

/-! ## Names of files -/

/-- An extension of source files: a dot, a `c` or an `m` if any, `ts`, and an `x` if any. -/
def IsExtension (extension : String) : Prop :=
  ∃ lead ∈ ["", "c", "m"], ∃ tail ∈ ["", "x"], extension = "." ++ lead ++ "ts" ++ tail

/-- A stem is what stands before the extension of a name, or all of a name that has none. -/
inductive StemOf (name : String) : String → Prop
  | before {stem extension : String} : IsExtension extension → name = stem ++ extension →
      StemOf name stem
  | whole : (∀ stem extension, IsExtension extension → name ≠ stem ++ extension) →
      StemOf name name

/-- A name is that of a test: a test ending and an extension come after what it tests. -/
def NamesTest (name tested : String) : Prop :=
  ∃ ending ∈ testEndings, ∃ extension, IsExtension extension ∧ name = tested ++ ending ++ extension

/-- The extensions that are looked for are those of source files. -/
theorem mem_extensions_iff {extension : String} :
    extension ∈ extensions ↔ IsExtension extension := by
  simp [extensions, IsExtension, or_assoc]

/-- The stem of a name is what is left when the extensions that are looked for are stripped. -/
theorem stemOf_iff {name stem : String} :
    StemOf name stem ↔ stripEnding extensions name = stem := by
  have happart : Apart extensions := by decide
  constructor
  · intro h
    cases h with
    | before hextension hname =>
      rw [hname]
      exact stripEnding_append happart (mem_extensions_iff.mpr hextension) stem
    | whole hnone =>
      apply stripEnding_eq_self
      intro extension hextension rest
      exact hnone rest extension (mem_extensions_iff.mp hextension)
  · rintro rfl
    by_cases h : ∃ stem extension, IsExtension extension ∧ name = stem ++ extension
    · obtain ⟨stem, extension, hextension, rfl⟩ := h
      rw [stripEnding_append happart (mem_extensions_iff.mpr hextension)]
      exact .before hextension rfl
    · simp only [not_exists, not_and] at h
      rw [stripEnding_eq_self fun extension hextension rest =>
        h rest extension (mem_extensions_iff.mp hextension)]
      exact .whole h

/-- A name is taken for that of a test exactly if it is one. -/
theorem isTestName_iff {name : String} :
    isTestName name = true ↔ ∃ tested, NamesTest name tested := by
  simp only [isTestName, List.any_eq_true, Text.endsWith_iff, NamesTest, mem_extensions_iff]
  constructor
  · rintro ⟨ending, hending, extension, hextension, tested, rfl⟩
    exact ⟨tested, ending, hending, extension, hextension, String.append_assoc.symm⟩
  · rintro ⟨tested, ending, hending, extension, hextension, rfl⟩
    exact ⟨ending, hending, extension, hextension, tested, String.append_assoc⟩

/-- Without its extension and its test ending, the name of a test is what it tests. -/
theorem NamesTest.stripEnding_eq {name tested : String} (h : NamesTest name tested) :
    stripEnding testEndings (stripEnding extensions name) = tested := by
  obtain ⟨ending, hending, extension, hextension, rfl⟩ := h
  have hstem : Apart extensions := by decide
  have htested : Apart testEndings := by decide
  rw [stripEnding_append hstem (mem_extensions_iff.mpr hextension),
    stripEnding_append htested hending]

/-- **The traits of a path are read off its segments.** The convention is the first of `types`,
`errors`, `pure` and `io` that is a segment other than the last, and a file is an error file if
`errors` is one. The last segment is the basename, and the stem what stands before its extension. A
file is an entry point if its stem is `index` or its path ends with the segments of an entry and has
more of them, and a main entry if its stem is `main` or its path ends so with a main entry. It is a
test exactly if a test ending and an extension come after some name in the basename, and this is the
name that it tests. The path in its own form has the same traits. -/
theorem classify_by_segments (filePath : String) (entries : EntryPaths) :
    let traits := classify filePath entries
    let directories := directoryNames traits.path
    traits.directory = conventionOf directories ∧
      (traits.isErrorFile = true ↔ "errors" ∈ directories) ∧
      (segments traits.path).getLast? = some traits.basename.toList ∧
      (∀ stem, StemOf traits.basename stem ↔ traits.stem = stem) ∧
      (traits.isEntryPoint = true ↔
        traits.stem = "index" ∨ ∃ entry ∈ entries.entry, EndsIn traits.path entry) ∧
      (traits.isMainEntry = true ↔
        traits.stem = "main" ∨ ∃ entry ∈ entries.main, EndsIn traits.path entry) ∧
      (traits.isTest = true ↔ ∃ tested, NamesTest traits.basename tested) ∧
      (∀ tested, NamesTest traits.basename tested → traits.testedName = tested) ∧
      classify traits.path entries = traits := by
  have hnormal : Normal (normalize filePath) := normal_normalize filePath
  simp only [classify, PathTraits.testedName, hnormal.normalize_eq, and_true]
  refine ⟨hnormal.directory_eq, ?_, getLast?_segments _, fun stem => stemOf_iff, ?_, ?_,
    isTestName_iff, ?_⟩
  · exact hnormal.hasDirectory_iff (by decide) (by decide)
  · rw [Bool.or_eq_true, beq_iff_eq, endsWithAny_iff]
  · rw [Bool.or_eq_true, beq_iff_eq, endsWithAny_iff]
  · intro tested h
    exact h.stripEnding_eq

/-- An error file is no types file because `types` ends the name of a directory on its path, and no
entry point because its own name ends with an entry. What it tests is found before both endings. -/
theorem classify_by_segments_errorTest :
    let traits := classify ".\\src\\errors\\mytypes\\cli.test.ts" { entry := ["li.test.ts"] }
    NamesTest traits.basename "cli" ∧ traits.testedName = "cli" ∧
      traits.directory = .errors ∧ traits.isEntryPoint = false := by
  intro traits
  have hnames : NamesTest traits.basename "cli" :=
    ⟨".test", by decide, ".ts", ⟨"", by decide, "", by decide, by decide⟩, by decide +kernel⟩
  obtain ⟨-, -, -, -, -, -, -, htested, -⟩ :=
    classify_by_segments ".\\src\\errors\\mytypes\\cli.test.ts" { entry := ["li.test.ts"] }
  exact ⟨hnames, htested "cli" hnames, by decide +kernel, by decide +kernel⟩

end Path

end PureLint
