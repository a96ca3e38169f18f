import Mathlib.Data.Fintype.EquivFin
import PureLint.Proofs.Directive.Suppression

/-!
# Directives without names

A directive that names no rule is meant for all rules. The names that a line is given are kept
together, and a directive without names leaves no trace among them: it reaches all rules only as
long as no directive for its line names one. The first directive with names for a line therefore
brings back the rules that it does not name.
-/

namespace PureLint.Suppressions

/-- One source has for a line the directives of another and one more, which names `added`. -/
structure Adds (source extended : String) (line : Nat) (added : List String) : Prop where
  wholeFile : (ofSource extended).wholeFile = (ofSource source).wholeFile
  directs : ∀ rules, Directs extended line rules ↔ Directs source line rules ∨ rules = added

variable {source extended : String} {line : Nat} {added : List String}

/-- Any list of rules leaves some name out. -/
theorem exists_notMem (rules : List String) : ∃ rule, rule ∉ rules := by
  obtain ⟨rule, hrule⟩ := Infinite.exists_notMem_finset rules.toFinset
  exact ⟨rule, fun hmem => hrule (List.mem_toFinset.mpr hmem)⟩

/-- A line with a directive has every rule switched off exactly if the file has, or if none of the
directives for the line names a rule. -/
theorem covers_all_iff (htarget : Targets source line) :
    (∀ rule, (ofSource source).covers line rule = true) ↔
      (ofSource source).wholeFile = true ∨ NamesNone source line := by
  constructor
  · intro h
    by_cases hfile : (ofSource source).wholeFile = true
    · exact Or.inl hfile
    · have hnames := (Bool.not_eq_true _).mp hfile
      -- a rule that no directive for the line names is switched off by those that name none
      obtain ⟨rule, hrule⟩ := exists_notMem (LineDirective.named (directives source) line)
      have hcovers := ((covers_iff_directs source line rule).mp (h rule)).resolve_left hfile
      exact Or.inr (hcovers.2.resolve_right (mt (mem_named_iff hnames).mpr hrule))
  · intro h rule
    exact (covers_iff_directs source line rule).mpr
      (h.imp_right fun hnone => ⟨htarget, Or.inl hnone⟩)

/-- A line that has one directive more has a directive. -/
theorem Adds.targets (h : Adds source extended line added) : Targets extended line :=
  exists_directs_iff.mp ⟨added, (h.directs added).mpr (Or.inr rfl)⟩

/-- With one directive more, none names a rule exactly if none did and the added one does not. -/
theorem Adds.namesNone_iff (h : Adds source extended line added) :
    NamesNone extended line ↔ NamesNone source line ∧ added = [] := by
  constructor
  · intro hnone
    have hsource : NamesNone source line := by
      intro rules hrules
      exact hnone rules ((h.directs rules).mpr (Or.inl hrules))
    exact ⟨hsource, hnone added ((h.directs added).mpr (Or.inr rfl))⟩
  · rintro ⟨hnone, hadded⟩ rules hrules
    rcases (h.directs rules).mp hrules with hrules | rfl
    · exact hnone rules hrules
    · exact hadded

/-- With one directive more, the rules named are those named before and those it names. -/
theorem Adds.exists_names_iff (h : Adds source extended line added) {rule : String} :
    (∃ rules, Directs extended line rules ∧ rule ∈ rules) ↔
      (∃ rules, Directs source line rules ∧ rule ∈ rules) ∨ rule ∈ added := by
  constructor
  · rintro ⟨rules, hrules, hrule⟩
    rcases (h.directs rules).mp hrules with hrules | rfl
    · exact Or.inl ⟨rules, hrules, hrule⟩
    · exact Or.inr hrule
  · rintro (⟨rules, hrules, hrule⟩ | hrule)
    · exact ⟨rules, (h.directs rules).mpr (Or.inl hrules), hrule⟩
    · exact ⟨added, (h.directs added).mpr (Or.inr rfl), hrule⟩

/-- A directive that is added for a line brings a rule back exactly if it is the first to name
rules where those before it switched off all, and does not name this one. -/
theorem Adds.bringsBack_iff (h : Adds source extended line added) (rule : String) :
    ((ofSource source).covers line rule = true ∧ (ofSource extended).covers line rule = false) ↔
      (ofSource source).wholeFile = false ∧ Targets source line ∧ NamesNone source line ∧
        added ≠ [] ∧ rule ∉ added := by
  have hnever (hnone : NamesNone source line) :
      ¬∃ rules, Directs source line rules ∧ rule ∈ rules := by
    rintro ⟨rules, hrules, hrule⟩
    rw [hnone rules hrules] at hrule
    exact List.not_mem_nil hrule
  have hafter : (ofSource extended).covers line rule = false ↔
      (ofSource source).wholeFile = false ∧ ¬(NamesNone source line ∧ added = []) ∧
        (¬∃ rules, Directs source line rules ∧ rule ∈ rules) ∧ rule ∉ added := by
    rw [← Bool.not_eq_true, covers_iff_directs, h.wholeFile, h.namesNone_iff, h.exists_names_iff,
      and_iff_right h.targets, not_or, not_or, not_or, Bool.not_eq_true]
  rw [covers_iff_directs, hafter]
  constructor
  · rintro ⟨hbefore, hfile, hnone, hnames, hadded⟩
    obtain ⟨htarget, hsome⟩ := hbefore.resolve_left (by rw [hfile]; exact Bool.false_ne_true)
    have hsource : NamesNone source line := hsome.resolve_right hnames
    exact ⟨hfile, htarget, hsource, fun hnil => hnone ⟨hsource, hnil⟩, hadded⟩
  · rintro ⟨hfile, htarget, hnone, hsome, hadded⟩
    refine ⟨Or.inr ⟨htarget, Or.inl hnone⟩, hfile, ?_, hnever hnone, hadded⟩
    exact fun hnil => hsome hnil.2

/-- **A directive without names switches off every rule on its line only as long as no directive for
the line names one.** With such a directive, the rules that are off are all rules if no directive
for the line names a rule, and otherwise the rules that are named. A directive that is added for a
line, from whichever line it comes, brings back a rule that was off exactly if no directive named a
rule before, the added one does, and it does not name this one. -/
theorem covers_all_of_unnamed_iff (source : String) (line : Nat) :
    (Directs source line [] →
      ((∀ rule, (ofSource source).covers line rule = true) ↔
        (ofSource source).wholeFile = true ∨ NamesNone source line) ∧
      ∀ rule, (ofSource source).covers line rule = true ↔
        (ofSource source).wholeFile = true ∨ NamesNone source line ∨
          ∃ rules, Directs source line rules ∧ rule ∈ rules) ∧
    ∀ extended added, Adds source extended line added → ∀ rule,
      ((ofSource source).covers line rule = true ∧ (ofSource extended).covers line rule = false) ↔
        (ofSource source).wholeFile = false ∧ Targets source line ∧ NamesNone source line ∧
          added ≠ [] ∧ rule ∉ added := by
  refine ⟨?_, fun extended added h rule => h.bringsBack_iff rule⟩
  intro hunnamed
  have htarget : Targets source line := exists_directs_iff.mp ⟨[], hunnamed⟩
  refine ⟨covers_all_iff htarget, ?_⟩
  intro rule
  rw [covers_iff_directs, and_iff_right htarget]

/-- A directive for the next line without names switches off every rule on it, until a directive on
that line names one. -/
theorem covers_all_of_unnamed_iff_namedOnLine :
    let source := "// purets-disable-next-line\nenum A {}"
    let extended := "// purets-disable-next-line\nenum A {} // purets-disable-line no-enums"
    Directs source 1 [] ∧ (∀ rule, (ofSource source).covers 1 rule = true) ∧
      Adds source extended 1 ["no-enums"] ∧
      ((ofSource source).covers 1 "no-delete" = true ∧
        (ofSource extended).covers 1 "no-delete" = false) := by
  intro source extended
  have hfile : (ofSource source).wholeFile = false := by decide +kernel
  have hextended : (ofSource extended).wholeFile = false := by decide +kernel
  have hdirects (rules : List String) : Directs source 1 rules ↔ rules = [] := by
    have hlist : directives source = [⟨1, []⟩] := by decide +kernel
    rw [← mem_directives_iff (d := ⟨1, rules⟩) hfile, hlist]
    simp
  have hmore (rules : List String) :
      Directs extended 1 rules ↔ rules = [] ∨ rules = ["no-enums"] := by
    have hlist : directives extended = [⟨1, []⟩, ⟨1, ["no-enums"]⟩] := by
      decide +kernel
    rw [← mem_directives_iff (d := ⟨1, rules⟩) hextended, hlist]
    simp
  have hunnamed : Directs source 1 [] := (hdirects []).mpr rfl
  have hnone : NamesNone source 1 := fun rules hrules => (hdirects rules).mp hrules
  have hadds : Adds source extended 1 ["no-enums"] := by
    refine ⟨hextended.trans hfile.symm, ?_⟩
    intro rules
    rw [hmore, hdirects]
  have htarget : Targets source 1 := exists_directs_iff.mp ⟨[], hunnamed⟩
  obtain ⟨hblanket, hbringsBack⟩ := covers_all_of_unnamed_iff source 1
  refine ⟨hunnamed, (hblanket hunnamed).1.mpr (Or.inr hnone), hadds, ?_⟩
  exact (hbringsBack extended _ hadds "no-delete").mpr
    ⟨hfile, htarget, hnone, by decide, by decide⟩

/-- A rule can be on in a line that a directive without names is for. -/
theorem exists_uncovered_of_unnamed :
    let source := "// purets-disable-next-line no-enums\nenum A {} // purets-disable-line"
    Directs source 1 [] ∧ (ofSource source).covers 1 "no-delete" = false := by
  intro source
  have hfile : (ofSource source).wholeFile = false := by decide +kernel
  have hlist : directives source = [⟨1, ["no-enums"]⟩, ⟨1, []⟩] := by decide +kernel
  refine ⟨(mem_directives_iff (d := ⟨1, []⟩) hfile).mp ?_, by decide +kernel⟩
  rw [hlist]
  exact List.mem_cons_of_mem _ List.mem_cons_self

end PureLint.Suppressions
