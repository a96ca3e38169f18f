import PureLint.Proofs.Directive.Suppression
import PureLint.Proofs.Text.Trim

/-!
# Names in a text

The rule names in a text are its longest runs without separators, in the order in which they stand,
but for the runs that close a comment. So names are read back from every text that writes them out,
whatever separators it puts before them and between them, and also if it closes a comment behind
them. The blanks around a line are separators like any others, and trimming it changes no name.
-/

namespace PureLint.Directive

/-! ## Runs without separators -/

/-- A run of characters in a text, with what stands before it and after it. -/
structure Run where
  before : List Char
  letters : List Char
  after : List Char

namespace Run

/-- A run is one of a text and cannot be made longer: it is not empty, it has no separator, and the
characters next to it, if there are any, are separators. -/
structure MaximalIn (run : Run) (text : List Char) : Prop where
  text_eq : text = run.before ++ run.letters ++ run.after
  ne_nil : run.letters ≠ []
  free : ∀ c ∈ run.letters, isSeparator c = false
  opens : ∀ c ∈ run.before.getLast?, isSeparator c = true
  closes : ∀ c ∈ run.after.head?, isSeparator c = true

/-- The same run where more text stands before it. -/
def behind (front : List Char) (run : Run) : Run := { run with before := front ++ run.before }

variable {run : Run} {text first rest : List Char} {c : Char}

/-- Where no separator stands before a longest run, nothing does. -/
theorem MaximalIn.before_eq_nil (h : run.MaximalIn text)
    (hfree : ∀ c ∈ run.before, isSeparator c = false) : run.before = [] := by
  rw [← List.getLast?_eq_none_iff, Option.eq_none_iff_forall_not_mem]
  intro c hc
  have hlast := hfree c (List.mem_of_getLast? hc)
  rw [h.opens c hc] at hlast
  cases hlast

/-- Where a part without separators comes after a longest run, the part is empty. -/
theorem MaximalIn.eq_nil_of_after (h : run.MaximalIn text) {part more : List Char}
    (hafter : run.after = part ++ more) (hfree : ∀ c ∈ part, isSeparator c = false) :
    part = [] := by
  cases part with
  | nil => rfl
  | cons c part =>
    have hhead := hfree c List.mem_cons_self
    rw [h.closes c (by rw [hafter]; rfl)] at hhead
    cases hhead

/-- The only longest run of a text without separators is the text itself. -/
theorem maximalIn_iff_of_free (hfree : ∀ c ∈ text, isSeparator c = false) :
    run.MaximalIn text ↔ text ≠ [] ∧ run = ⟨[], text, []⟩ := by
  constructor
  · intro h
    have htext := h.text_eq
    have hbefore : run.before = [] := h.before_eq_nil fun c hc => hfree c (by simp [htext, hc])
    have hafter : run.after = [] := h.eq_nil_of_after (List.append_nil _).symm fun c hc =>
      hfree c (by simp [htext, hc])
    obtain ⟨before, letters, after⟩ := run
    subst hbefore hafter
    rw [List.nil_append, List.append_nil] at htext
    subst htext
    exact ⟨h.ne_nil, rfl⟩
  · rintro ⟨hne, rfl⟩
    exact ⟨by simp, hne, hfree, by simp, by simp⟩

/-- A longest run has no separator in it. -/
theorem MaximalIn.notMem (h : run.MaximalIn text) (hc : isSeparator c = true) :
    c ∉ run.letters := by
  intro hmem
  have hfree := h.free c hmem
  rw [hc] at hfree
  cases hfree

/-- A longest run of what comes after a separator is one of the whole text. -/
theorem MaximalIn.behind (h : run.MaximalIn rest) (hc : isSeparator c = true) :
    (run.behind (first ++ [c])).MaximalIn (first ++ c :: rest) := by
  refine ⟨by simp [Run.behind, h.text_eq], h.ne_nil, h.free, ?_, h.closes⟩
  intro d hd
  rw [Run.behind, List.getLast?_append, List.getLast?_concat, Option.mem_def,
    Option.or_eq_some_iff] at hd
  rcases hd with hd | ⟨-, hd⟩
  · exact h.opens d hd
  · rwa [← Option.some.inj hd]

/-- A longest run that begins after a separator is one of what comes after the separator. -/
theorem MaximalIn.of_behind (h : (run.behind (first ++ [c])).MaximalIn (first ++ c :: rest)) :
    run.MaximalIn rest := by
  refine ⟨?_, h.ne_nil, h.free, ?_, h.closes⟩
  · have htext : first ++ c :: rest =
        (first ++ [c]) ++ run.before ++ run.letters ++ run.after := h.text_eq
    rw [List.append_cons, List.append_assoc (first ++ [c]), List.append_assoc (first ++ [c])]
      at htext
    exact List.append_cancel_left htext
  · intro d hd
    apply h.opens d
    rw [Run.behind, List.getLast?_append, Option.mem_def.mp hd]
    rfl

/-- A longest run with nothing before it is what stands before the first separator. -/
theorem MaximalIn.eq_first (h : run.MaximalIn (first ++ c :: rest)) (hnone : run.before = [])
    (hfirst : ∀ d ∈ first, isSeparator d = false) (hc : isSeparator c = true) :
    run = ⟨[], first, c :: rest⟩ := by
  obtain ⟨before, letters, after⟩ := run
  subst hnone
  have htext : first ++ c :: rest = letters ++ after := h.text_eq
  rcases List.append_eq_append_iff.mp htext with ⟨more, rfl, hafter⟩ | ⟨more, rfl, hafter⟩
  · cases more with
    | nil => rw [List.append_nil, ← List.nil_append after, ← hafter]
    | cons d more =>
      rw [List.cons_append] at hafter
      have hmem : c ∈ first ++ d :: more := by
        rw [(List.cons.inj hafter).1]
        simp
      exact absurd hmem (h.notMem hc)
  · have hnil : more = [] := h.eq_nil_of_after hafter fun d hd => hfirst d (by simp [hd])
    subst hnil
    rw [List.append_nil, hafter, List.nil_append]

/-- A longest run of a text that a separator parts is what stands before the separator, or a longest
run of what comes after it. -/
theorem maximalIn_append_cons_iff (hfirst : ∀ d ∈ first, isSeparator d = false)
    (hc : isSeparator c = true) :
    run.MaximalIn (first ++ c :: rest) ↔
      (first ≠ [] ∧ run = ⟨[], first, c :: rest⟩) ∨
        ∃ later : Run, later.MaximalIn rest ∧ run = later.behind (first ++ [c]) := by
  constructor
  · intro h
    have htext := h.text_eq
    rw [List.append_assoc] at htext
    rcases List.append_eq_append_iff.mp htext with ⟨gap, hbefore, hgap⟩ | ⟨gap, hsplit, -⟩
    · -- The run begins behind the first part, and so behind the separator.
      cases gap with
      | nil =>
        obtain ⟨d, letters, hcons⟩ := List.exists_cons_of_ne_nil h.ne_nil
        rw [List.nil_append, hcons, List.cons_append] at hgap
        have hmem : c ∈ run.letters := by
          rw [hcons, (List.cons.inj hgap).1]
          exact List.mem_cons_self
        exact absurd hmem (h.notMem hc)
      | cons d gap =>
        obtain ⟨rfl, -⟩ := List.cons.inj hgap
        have hrun : run = Run.behind (first ++ [c]) ⟨gap, run.letters, run.after⟩ := by
          rw [Run.behind, ← List.append_cons, ← hbefore]
        rw [hrun] at h
        exact Or.inr ⟨_, h.of_behind, hrun⟩
    · -- The run begins in the first part, where it has nothing before it.
      have hnone : run.before = [] := h.before_eq_nil fun d hd => hfirst d (by simp [hsplit, hd])
      have heq := h.eq_first hnone hfirst hc
      have hne := h.ne_nil
      rw [heq] at hne
      exact Or.inl ⟨hne, heq⟩
  · rintro (⟨hne, rfl⟩ | ⟨later, hlater, rfl⟩)
    · exact ⟨by simp, hne, hfirst, by simp, by simpa using hc⟩
    · exact hlater.behind hc

end Run

/-- What holds of texts without separators, and of a text that a separator parts if it holds of what
comes after the separator, holds of all texts. -/
theorem inductionOnParts {motive : List Char → Prop}
    (free : ∀ text, (∀ c ∈ text, isSeparator c = false) → motive text)
    (parted : ∀ first c rest, (∀ d ∈ first, isSeparator d = false) → isSeparator c = true →
      motive rest → motive (first ++ c :: rest)) (text : List Char) : motive text := by
  cases hfind : text.find? isSeparator with
  | none =>
    apply free
    intro c hc
    simpa using List.find?_eq_none.mp hfind c hc
  | some c =>
    obtain ⟨hc, first, rest, rfl, hfirst⟩ := List.find?_eq_some_iff_append.mp hfind
    apply parted first c rest _ hc (inductionOnParts free parted rest)
    intro d hd
    simpa using hfirst d hd
termination_by text.length
decreasing_by
  simp only [*, List.length_append, List.length_cons]
  omega

/-- The run of a part without separators that begins a text, if the part is not empty. -/
def Run.leading (part after : List Char) : List Run :=
  if part.isEmpty then [] else [⟨[], part, after⟩]

section

variable {part after : List Char}

/-- A part that is not empty is a run, with nothing before it. -/
theorem Run.mem_leading_iff {run : Run} :
    run ∈ leading part after ↔ part ≠ [] ∧ run = ⟨[], part, after⟩ := by
  cases part <;> simp [leading]

/-- There is one run at most at the beginning of a text. -/
theorem Run.pairwise_leading (r : Run → Run → Prop) : (leading part after).Pairwise r := by
  cases part <;> simp [leading]

/-- The letters of the run are the part. -/
theorem Run.map_letters_leading :
    (leading part after).map letters = [part].filter fun part => !part.isEmpty := by
  cases part <;> rfl

end

/-- The longest runs of a text, in order, are the parts between its separators that are not
empty. -/
theorem exists_runs (text : List Char) :
    ∃ runs : List Run, (∀ run, run ∈ runs ↔ run.MaximalIn text) ∧
      (runs.Pairwise fun run later => run.before.length < later.before.length) ∧
      runs.map Run.letters = (text.splitOnP isSeparator).filter fun part => !part.isEmpty := by
  induction text using inductionOnParts with
  | free text hfree =>
    refine ⟨Run.leading text [], ?_, Run.pairwise_leading _, ?_⟩
    · intro run
      rw [Run.mem_leading_iff, Run.maximalIn_iff_of_free hfree]
    · rw [Run.map_letters_leading, List.splitOnP_eq_singleton hfree]
  | parted first c rest hfirst hc ih =>
    obtain ⟨runs, hruns, hordered, hletters⟩ := ih
    refine ⟨Run.leading first (c :: rest) ++ runs.map (Run.behind (first ++ [c])), ?_, ?_, ?_⟩
    · intro run
      rw [Run.maximalIn_append_cons_iff hfirst hc, List.mem_append, Run.mem_leading_iff,
        List.mem_map]
      simp only [hruns, eq_comm]
    · rw [List.pairwise_append, List.pairwise_map]
      refine ⟨Run.pairwise_leading _, hordered.imp ?_, ?_⟩
      · intro run later hlt
        simpa [Run.behind] using hlt
      · intro run hrun later hlater
        obtain ⟨-, rfl⟩ := Run.mem_leading_iff.mp hrun
        obtain ⟨other, -, rfl⟩ := List.mem_map.mp hlater
        simp only [Run.behind, List.length_nil, List.length_append, List.length_singleton]
        omega
    · have hsame : Run.letters ∘ Run.behind (first ++ [c]) = Run.letters := rfl
      rw [List.map_append, Run.map_letters_leading, List.map_map, hsame, hletters,
        List.splitOnP_append_cons_of_forall_mem hfirst c hc, ← List.filter_append,
        List.singleton_append]

/-- The end of a comment. -/
def commentEnd : List Char := ['*', '/']

/-- The rule names in a text are its longest runs, but for those that close a comment. -/
theorem ruleNames_eq_map {runs : List Run} {text : List Char}
    (h : runs.map Run.letters = (text.splitOnP isSeparator).filter fun part => !part.isEmpty) :
    ruleNames text =
      (runs.filter fun run => ¬commentEnd <+: run.letters).map
        fun run => String.ofList run.letters := by
  have hname : isRuleName = fun run => decide (¬commentEnd <+: run) && !run.isEmpty := by
    funext run
    rw [Bool.eq_iff_iff]
    simp [isRuleName, commentEnd, ← List.isPrefixOf_iff_prefix, and_comm]
  rw [ruleNames, hname, ← List.filter_filter, ← h, List.filter_map, List.map_map]
  rfl

/-! ## Names written out -/

/-- A name that can be read back: it is not empty, has no separators and does not close a
comment. -/
structure Writable (name : String) : Prop where
  ne_empty : name ≠ ""
  free : ∀ c ∈ name.toList, isSeparator c = false
  opens : ¬commentEnd <+: name.toList

instance (name : String) : Decidable (Writable name) :=
  decidable_of_iff (name ≠ "" ∧ (name.toList.any isSeparator = false) ∧
    ¬commentEnd <+: name.toList)
    ⟨fun ⟨hne, hfree, hopens⟩ => ⟨hne, by simpa using hfree, hopens⟩,
      fun h => ⟨h.ne_empty, by simpa using h.free, h.opens⟩⟩

/-- A gap between names: separators, and at least one. -/
structure Gap (gap : List Char) : Prop where
  ne_nil : gap ≠ []
  separates : ∀ c ∈ gap, isSeparator c = true

instance (gap : List Char) : Decidable (Gap gap) :=
  decidable_of_iff (gap ≠ [] ∧ gap.all isSeparator = true)
    ⟨fun ⟨hne, hgap⟩ => ⟨hne, List.all_eq_true.mp hgap⟩,
      fun h => ⟨h.ne_nil, List.all_eq_true.mpr h.separates⟩⟩

/-- A text joins names by gaps. -/
inductive Joins : List String → List Char → Prop
  | none : Joins [] []
  | single (name : String) : Joins [name] name.toList
  | more {name next : String} {names : List String} {gap text : List Char} : Gap gap →
      Joins (next :: names) text → Joins (name :: next :: names) (name.toList ++ gap ++ text)

/-- What can come after names: separators, if any, or a gap and the end of a comment. -/
inductive Ending : List Char → Prop
  | separators {rest : List Char} : (∀ c ∈ rest, isSeparator c = true) → Ending rest
  | comment {gap rest : List Char} : Gap gap → (∀ c ∈ rest, isSeparator c = true) →
      Ending (gap ++ commentEnd ++ rest)

/-- A text writes out names: separators, if any, the names joined by gaps, and an ending. -/
inductive Writes (names : List String) : List Char → Prop
  | intro {before joined ending : List Char} : (∀ name ∈ names, Writable name) →
      (∀ c ∈ before, isSeparator c = true) → Joins names joined → Ending ending →
      Writes names (before ++ joined ++ ending)

variable {text rest gap before ending : List Char} {names : List String}

/-- Separators before a text add no names. -/
theorem ruleNames_separators_append (h : ∀ c ∈ before, isSeparator c = true) (text : List Char) :
    ruleNames (before ++ text) = ruleNames text := by
  induction before with
  | nil => rfl
  | cons c before ih =>
    have hc : isSeparator c = true := h c List.mem_cons_self
    have hrest := ih fun d hd => h d (List.mem_cons_of_mem _ hd)
    have hsplit := ruleNames_append_cons hc [] (before ++ text)
    rw [List.nil_append] at hsplit
    rw [List.cons_append, hsplit, hrest]
    rfl

/-- A gap parts the names before it from those after it. -/
theorem ruleNames_append_gap (h : Gap gap) (text rest : List Char) :
    ruleNames (text ++ gap ++ rest) = ruleNames text ++ ruleNames rest := by
  obtain ⟨hne, hgap⟩ := h
  obtain ⟨c, gap, rfl⟩ := List.exists_cons_of_ne_nil hne
  have hc : isSeparator c = true := hgap c List.mem_cons_self
  rw [List.append_assoc, List.cons_append, ruleNames_append_cons hc,
    ruleNames_separators_append fun d hd => hgap d (List.mem_cons_of_mem _ hd)]

/-- A name that can be read back is the only one in its own text. -/
theorem Writable.ruleNames_eq {name : String} (h : Writable name) :
    ruleNames name.toList = [name] := by
  have hname : isRuleName name.toList = true := by
    simpa [isRuleName, h.ne_empty, commentEnd, Bool.eq_false_iff] using h.opens
  rw [ruleNames, List.splitOnP_eq_singleton h.free, List.filter_cons_of_pos hname, List.filter_nil,
    List.map_singleton, String.ofList_toList]

/-- Separators after a text add no names. -/
theorem ruleNames_append_separators (h : ∀ c ∈ rest, isSeparator c = true) (text : List Char) :
    ruleNames (text ++ rest) = ruleNames text := by
  cases rest with
  | nil => rw [List.append_nil]
  | cons c rest =>
    have hc : isSeparator c = true := h c List.mem_cons_self
    have hnone := ruleNames_separators_append (fun d hd => h d (List.mem_cons_of_mem _ hd)) []
    rw [List.append_nil] at hnone
    rw [ruleNames_append_cons hc, hnone]
    exact List.append_nil _

/-- What comes after names adds none. -/
theorem Ending.ruleNames_append (h : Ending ending) (text : List Char) :
    ruleNames (text ++ ending) = ruleNames text := by
  cases h with
  | separators hrest => exact ruleNames_append_separators hrest text
  | comment hgap hrest =>
    have hclose : ruleNames commentEnd = [] := by decide
    rw [← List.append_assoc, ← List.append_assoc, ruleNames_append_separators hrest,
      ruleNames_append_gap hgap, hclose, List.append_nil]

/-- Joined names are read back in their order. -/
theorem Joins.ruleNames_eq (h : Joins names text) (hnames : ∀ name ∈ names, Writable name) :
    ruleNames text = names := by
  induction h with
  | none => rfl
  | single name => exact (hnames name List.mem_cons_self).ruleNames_eq
  | more hgap hrest ih =>
    rw [ruleNames_append_gap hgap, (hnames _ List.mem_cons_self).ruleNames_eq,
      ih fun name hname => hnames name (List.mem_cons_of_mem _ hname)]
    rfl

/-- Names that are written out are read back in their order. -/
theorem Writes.ruleNames_eq (h : Writes names text) : ruleNames text = names := by
  obtain ⟨hnames, hbefore, hjoins, hending⟩ := h
  rw [hending.ruleNames_append, ruleNames_separators_append hbefore, hjoins.ruleNames_eq hnames]

/-- Trimming a text changes none of its names. -/
theorem ruleNames_trim (text : List Char) : ruleNames (Text.trim text) = ruleNames text := by
  have hblank (c : Char) (hc : Text.isBlank c = true) : isSeparator c = true := by
    rw [isSeparator, hc, Bool.or_true]
  obtain ⟨blanks, hend, hblanks⟩ := Text.exists_eq_trimEnd_append (Text.trimStart text)
  have hstart : text = text.takeWhile Text.isBlank ++ Text.trimStart text :=
    List.takeWhile_append_dropWhile.symm
  calc ruleNames (Text.trim text)
      = ruleNames (Text.trim text ++ blanks) := (ruleNames_append_blanks hblanks _).symm
    _ = ruleNames (Text.trimStart text) := by rw [Text.trim, ← hend]
    _ = ruleNames (text.takeWhile Text.isBlank ++ Text.trimStart text) :=
      (ruleNames_separators_append (fun c hc => hblank c (List.mem_takeWhile_imp hc)) _).symm
    _ = ruleNames text := by rw [← hstart]

/-- **The rule names in a text are its longest runs without separators, and undo every way of
writing names out.** The runs of the text that cannot be made longer, put in the order in which they
stand, are the names but for the runs that begin with the end of a comment. So if a text writes out
names, which are not empty, have no separators and do not begin so, with any separators before them,
at least one between each two, and behind them separators or a gap and the end of a comment, just
these names are read from it. Trimming the text changes none of its names, nor does trimming a line
before the text after a marker is taken from it. -/
theorem ruleNames_runs (text : List Char) :
    (∃ runs : List Run, (∀ run, run ∈ runs ↔ run.MaximalIn text) ∧
      (runs.Pairwise fun run later => run.before.length < later.before.length) ∧
      ruleNames text = (runs.filter fun run => ¬commentEnd <+: run.letters).map
        fun run => String.ofList run.letters) ∧
    (∀ names, Writes names text → ruleNames text = names) ∧
    ruleNames (Text.trim text) = ruleNames text ∧
    ∀ marker ∈ markers, (Text.after? marker (Text.trim text)).map ruleNames =
      (Text.after? marker text).map ruleNames := by
  obtain ⟨runs, hruns, hordered, hletters⟩ := exists_runs text
  refine ⟨⟨runs, hruns, hordered, ruleNames_eq_map hletters⟩, ?_, ruleNames_trim text, ?_⟩
  · intro names hwrites
    exact hwrites.ruleNames_eq
  · intro marker hmarker
    exact ruleNames_after?_trim hmarker text

/-- Names are read back from between a no-break space and the end of a comment, with a comma and a
line separator between them, and a run that closes a comment is none of them. -/
theorem ruleNames_runs_closedComment :
    let text := "\u00a0no-enums,\u2028no-delete */ ".toList
    Writes ["no-enums", "no-delete"] text ∧ ruleNames text = ["no-enums", "no-delete"] ∧
      ruleNames "*/no-enums no-delete*/".toList = ["no-delete*/"] := by
  intro text
  have hcomma : Gap [',', '\u2028'] := by decide
  have hspace : Gap [' '] := by decide
  have hjoins : Joins ["no-enums", "no-delete"] "no-enums,\u2028no-delete".toList :=
    .more hcomma (.single "no-delete")
  have hending : Ending ([' '] ++ commentEnd ++ [' ']) := .comment hspace hspace.separates
  have hbefore : Gap ['\u00a0'] := by decide
  have hwrites : Writes ["no-enums", "no-delete"] text :=
    .intro (by decide) hbefore.separates hjoins hending
  exact ⟨hwrites, (ruleNames_runs text).2.1 _ hwrites, by decide⟩

end PureLint.Directive
