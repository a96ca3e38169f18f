import Mathlib.Data.List.Perm.Subperm
import PureLint.Proofs.Tree.Contents
import PureLint.Rule.Function

/-!
# Parameter tags and parameters

The tags of a doc block are never compared with the parameters as a whole. There are three checks:
every parameter has a tag, every tag has a parameter, and there are as many tags as parameters. As
long as the parameters have names of their own, the three together leave no room for a tag that is
given twice: the tags that pass are the names of the parameters in some order.
-/

namespace PureLint

namespace Rule

variable {file : SourceFile} {named : NamedFunction} {params : List Node}
  {tags names : List String}

/-- The checks on tags report nothing exactly if each name of a parameter is among the tags, each
tag is among the names, and there are as many tags as parameters. -/
theorem tagReports_eq_nil_iff :
    tagReports named params tags = [] ↔
      params.filterMap Node.parameterName ⊆ tags ∧ tags ⊆ params.filterMap Node.parameterName ∧
        tags.length = params.length := by
  have hcounts (report : Report) :
      (if tags.length = params.length then [] else [report]) = [] ↔
        tags.length = params.length := by
    by_cases hcount : tags.length = params.length
    · rw [if_pos hcount]
      exact iff_of_true rfl hcount
    · rw [if_neg hcount]
      exact iff_of_false (List.cons_ne_nil _ _) hcount
  unfold tagReports
  simp only [List.append_eq_nil_iff, List.filterMap_eq_nil_iff, List.map_eq_nil_iff,
    List.filter_eq_nil_iff, and_assoc, hcounts]
  refine and_congr ?_ (and_congr_left' ?_)
  · constructor
    · intro hsilent name hname
      obtain ⟨param, hparam, hread⟩ := List.mem_filterMap.mp hname
      have hnamed := hsilent param hparam
      rw [hread] at hnamed
      simpa using hnamed
    · intro hnamed param hparam
      cases hread : param.parameterName with
      | none => rfl
      | some name =>
        have htag := hnamed (List.mem_filterMap.mpr ⟨param, hparam, hread⟩)
        simp only [if_pos (List.contains_iff_mem.mpr htag)]
  · simp [List.subset_def]

/-- Tags are names without repetition in some order exactly if each name is among the tags, each tag
among the names, and there are as many of both. -/
theorem perm_iff_of_nodup (hnames : names.Nodup) :
    tags.Perm names ↔ names ⊆ tags ∧ tags ⊆ names ∧ tags.length = names.length := by
  constructor
  · intro hperm
    exact ⟨hperm.symm.subset, hperm.subset, hperm.length_eq⟩
  · rintro ⟨hnamed, -, hlength⟩
    -- names without repetition fill up the tags, so no tag is left to be one of them again
    have hsub : names.Subperm tags := List.subperm_of_subset hnames hnamed
    exact (hsub.perm_of_length_le (Nat.le_of_eq hlength)).symm

/-- Tags are not names without repetition in any order exactly if a tag is given twice, a name has
no tag, or a tag is no name. -/
theorem not_perm_iff_of_nodup (hnames : names.Nodup) :
    ¬tags.Perm names ↔
      ¬tags.Nodup ∨ (∃ name ∈ names, name ∉ tags) ∨ ∃ tag ∈ tags, tag ∉ names := by
  have hperm : tags.Perm names ↔ tags.Nodup ∧ names ⊆ tags ∧ tags ⊆ names := by
    constructor
    · intro hperm
      exact ⟨hperm.nodup_iff.mpr hnames, hperm.symm.subset, hperm.subset⟩
    · rintro ⟨hnodup, hnamed, hknown⟩
      exact (List.perm_ext_iff_of_nodup hnodup hnames).mpr fun _ =>
        ⟨fun htag => hknown htag, fun hname => hnamed hname⟩
  have hmissing : ¬names ⊆ tags ↔ ∃ name ∈ names, name ∉ tags := by simp [List.subset_def]
  have hextra : ¬tags ⊆ names ↔ ∃ tag ∈ tags, tag ∉ names := by simp [List.subset_def]
  rw [hperm, not_and_or, not_and_or, hmissing, hextra]

/-- **The tags of a doc block pass exactly if they are the names of the parameters in some order.**
For a function whose parameters all have names, each its own, and a doc block above it with a tag
at least: nothing is reported if and only if the tags are a permutation of the names. So there is a
report if and only if a tag is given twice, a name has no tag, or a tag is no name. -/
theorem docReports_eq_nil_iff {doc : String}
    (hnames : (named.fn.children "params").map Node.parameterName = names.map some)
    (hsome : names ≠ []) (hdistinct : names.Nodup)
    (hdoc : file.docBefore named.anchor.start = some doc) (htags : ParamTag.names doc ≠ []) :
    (docReports file named = [] ↔ (ParamTag.names doc).Perm names) ∧
      (docReports file named ≠ [] ↔ ¬(ParamTag.names doc).Nodup ∨
        (∃ name ∈ names, name ∉ ParamTag.names doc) ∨ ∃ tag ∈ ParamTag.names doc, tag ∉ names) := by
  have hlength : (named.fn.children "params").length = names.length := by
    have hmapped := congrArg List.length hnames
    rwa [List.length_map, List.length_map] at hmapped
  have hfound : (named.fn.children "params").filterMap Node.parameterName = names := by
    have hread : (named.fn.children "params").filterMap Node.parameterName =
        ((named.fn.children "params").map Node.parameterName).filterMap (fun name => name) := by
      rw [List.filterMap_map]
      rfl
    rw [hread, hnames, List.filterMap_map]
    exact List.filterMap_some
  have hparams : named.fn.children "params" ≠ [] := by
    rw [← List.length_pos_iff, hlength]
    exact List.length_pos_iff.mpr hsome
  have hsilent : docReports file named = [] ↔ (ParamTag.names doc).Perm names := by
    simp only [docReports, List.isEmpty_iff, if_neg hparams, hdoc, if_neg htags]
    rw [tagReports_eq_nil_iff, hfound, hlength, perm_iff_of_nodup hdistinct]
  refine ⟨hsilent, ?_⟩
  rw [ne_eq, hsilent, not_perm_iff_of_nodup hdistinct]

/-- The function `f` of `function f(a = 1, ...b) {}`, below a doc block of 44 characters. -/
def defaultThenRest : NamedFunction :=
  let fn : Node := ⟨0, "FunctionDeclaration", .int 45, .int 71, [
    ("id", .atStart 1 "Identifier" [("name", .text "f")]),
    ("params", .array [
      .atStart 2 "AssignmentPattern" [("left", .atStart 3 "Identifier" [("name", .text "a")])],
      .atStart 4 "RestElement" [("argument", .atStart 5 "Identifier" [("name", .text "b")])]])]⟩
  ⟨"f", fn, fn⟩

/-- The doc block has the tags of the two parameters the other way round, and passes. -/
theorem docReports_eq_nil_iff_reordered :
    let doc := "*\n * @param {string} b\n * @param [a=1]\n "
    let file : SourceFile :=
      { filePath := "src/f.ts", traits := Path.classify "src/f.ts", runner := none, granted := []
        units := Text.units ("/*" ++ doc ++ "*/\nfunction f(a = 1, ...b) {}").toList
        comments := [⟨.block, doc, .int 0, .int 44⟩] }
    (defaultThenRest.fn.children "params").map Node.parameterName = ["a", "b"].map some ∧
      file.docBefore defaultThenRest.anchor.start = some doc ∧
      ParamTag.names doc = ["b", "a"] ∧ docReports file defaultThenRest = [] := by
  intro doc file
  have hnames :
      (defaultThenRest.fn.children "params").map Node.parameterName = ["a", "b"].map some := by
    decide +kernel
  have hdoc : file.docBefore defaultThenRest.anchor.start = some doc := by decide +kernel
  have htags : ParamTag.names doc = ["b", "a"] := by decide +kernel
  have hsome : ParamTag.names doc ≠ [] := by
    rw [htags]
    exact List.cons_ne_nil _ _
  have hperm : (ParamTag.names doc).Perm ["a", "b"] := by
    rw [htags]
    exact List.Perm.swap "a" "b" []
  obtain ⟨hsilent, -⟩ :=
    docReports_eq_nil_iff hnames (List.cons_ne_nil _ _) (by decide) hdoc hsome
  exact ⟨hnames, hdoc, htags, hsilent.mpr hperm⟩

end Rule

end PureLint
