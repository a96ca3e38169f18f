import PureLint.Glob.Pattern
import PureLint.Proofs.Regex.Leaves
import PureLint.Proofs.Text.Units

/-!
# A name at any depth

The glob that puts a segment of two stars before a literal name. It is read as one pattern that
matches the name itself and the name behind any directories, and a directory of that name is left
out with everything below it.
-/

namespace PureLint.Glob

/-- The characters that can be marks in a glob. -/
def globMarks : List Char :=
  ['/', '*', '?', '[', ']', '(', ')', '{', '}', '|', '!', '\\', '"']

/-- The name of a file or directory without marks of a glob. -/
structure IsLiteral (name : List Char) : Prop where
  ne_nil : name ≠ []
  literal : ∀ c ∈ name, c ∉ globMarks

namespace IsLiteral

variable {name : List Char}

/-- A mark does not stand in a literal name. -/
theorem notMem (h : IsLiteral name) (mark : Char) (hmark : mark ∈ globMarks) : mark ∉ name :=
  fun hmem => h.literal mark hmem hmark

end IsLiteral

/-- The glob of a name at any depth. -/
def anyDepth (name : List Char) : List Char := '*' :: '*' :: '/' :: name

variable {name : List Char}

/-! ## Reading the glob -/

/-- The token of a character that is no mark. -/
def literalToken (c : Char) : Token := (marks.lookup c).getD (.plain c)

/-- A character that is no mark gives one token, and what follows it is read on its own. -/
theorem exists_tokens_cons {c : Char} (hc : c ∉ globMarks) (rest : List Char) (r : Reading)
    (hr : r = .tokens ∨ r = .afterPlain) :
    ∃ r', (r' = .tokens ∨ r' = .afterPlain) ∧
      tokens r (c :: rest) = literalToken c :: tokens r' rest := by
  have hmarks : c ≠ '*' ∧ c ≠ '\\' ∧ c ≠ '[' ∧ c ≠ '"' := by
    refine ⟨?_, ?_, ?_, ?_⟩ <;> rintro rfl <;> exact hc (by decide)
  cases hlookup : marks.lookup c with
  | some token =>
    refine ⟨.tokens, Or.inl rfl, ?_⟩
    rcases hr with rfl | rfl <;> simp [tokens, literalToken, hlookup, hmarks]
  | none =>
    refine ⟨.afterPlain, Or.inr rfl, ?_⟩
    rcases hr with rfl | rfl <;> simp [tokens, literalToken, hlookup, hmarks]

/-- A literal name gives one token for each of its characters. -/
theorem tokens_literal (h : ∀ c ∈ name, c ∉ globMarks) (r : Reading)
    (hr : r = .tokens ∨ r = .afterPlain) : tokens r name = name.map literalToken := by
  induction name generalizing r with
  | nil => rcases hr with rfl | rfl <;> rfl
  | cons c name ih =>
    obtain ⟨hc, hname⟩ := List.forall_mem_cons.mp h
    obtain ⟨r', hr', htokens⟩ := exists_tokens_cons hc name r hr
    rw [htokens, ih hname r' hr', List.map_cons]

/-- The token of a character that is no mark: only a plus sign and a comma have one of their own. -/
theorem literalToken_eq {c : Char} (hc : c ∉ globMarks) :
    literalToken c = if c = '+' then .plus else if c = ',' then .comma else .plain c := by
  by_cases hown : c ∈ ['+', ',', '.', '@']
  · simp only [List.mem_cons, List.not_mem_nil, or_false] at hown
    rcases hown with rfl | rfl | rfl | rfl <;> rfl
  · have hnone : marks.lookup c = none := by
      refine List.lookup_eq_none_iff.mpr fun entry hentry => ?_
      have hkeys : ∀ entry ∈ marks, entry.1 ∈ globMarks ∨ entry.1 ∈ ['+', ',', '.', '@'] := by
        decide
      rw [bne_iff_ne]
      rintro rfl
      exact (hkeys entry hentry).elim hc hown
    have hne : c ≠ '+' ∧ c ≠ ',' := by simp_all
    rw [literalToken, hnone, if_neg hne.1, if_neg hne.2, Option.getD_none]

/-- The lexeme of a character that is no mark. -/
def literalLexeme (c : Char) : Regex.Lexeme := if c = ',' then .comma else .ofChar c

/-- Outside groups each character of a literal name stands for itself, as long as no plus sign comes
right after something that it would repeat. -/
theorem lexemes_literal (h : ∀ c ∈ name, c ∉ globMarks) {before : Option Token}
    (hbefore : isRepeatable before = false) :
    lexemes 0 0 before (name.map literalToken) = name.map literalLexeme := by
  induction name generalizing before with
  | nil => rfl
  | cons c name ih =>
    obtain ⟨hc, hname⟩ := List.forall_mem_cons.mp h
    rw [List.map_cons, List.map_cons, literalToken_eq hc]
    by_cases hplus : c = '+'
    · have hlexeme : plusLexeme 0 before = .ofChar '+' := by simp [plusLexeme, hbefore]
      rw [if_pos hplus, lexemes, ih hname rfl, hlexeme, hplus]
      rfl
    · by_cases hcomma : c = ','
      · rw [if_neg hplus, if_pos hcomma, lexemes, ih hname rfl, hcomma]
        rfl
      · rw [if_neg hplus, if_neg hcomma, lexemes, ih hname rfl, literalLexeme, if_neg hcomma]

/-- Outside groups the lexemes of a literal name add its characters one after another. -/
theorem exists_foldlM_literal (name : List Char) {g : Regex.Group} (hg : g.isBrace = false) :
    ∃ g', (name.map literalLexeme).foldlM Regex.Group.step (g, []) = some (g', []) ∧
      g'.done = g.done ∧
      g'.terms.reverse = g.terms.reverse ++ name.map fun c => Regex.ofChars [c] := by
  induction name generalizing g with
  | nil => exact ⟨g, rfl, rfl, (List.append_nil _).symm⟩
  | cons c name ih =>
    have hstep : Regex.Group.step (g, []) (literalLexeme c) =
        some (g.add (Regex.ofChars [c]), []) := by
      rw [literalLexeme]
      split
      · rename_i hcomma
        simp [Regex.Group.step, hg, hcomma]
      · rfl
    obtain ⟨g', hfold, hdone, hterms⟩ := ih (g := g.add (Regex.ofChars [c])) hg
    refine ⟨g', ?_, hdone, ?_⟩
    · rw [List.map_cons, List.foldlM_cons, hstep]
      exact hfold
    · rw [hterms]
      simp [Regex.Group.add]

/-- What may stand before a name at any depth: nothing, or directories and a slash. -/
def anyDepthPart : Regex := .either .empty (.either slashPart segmentsPart)

/-- The expression of a name at any depth. -/
def anyDepthRegex (name : List Char) : Regex :=
  .both anyDepthPart (.sequence (name.map fun c => .ofChars [c]))

/-- The segments of the glob of a literal name at any depth. -/
theorem splitOn_anyDepth (h : IsLiteral name) : (anyDepth name).splitOn '/' = [deep, name] := by
  have hparts : anyDepth name = deep ++ '/' :: name := rfl
  rw [hparts, List.splitOn_append_cons_self,
    List.splitOn_eq_singleton (h.notMem '/' (by decide))]
  rfl

/-- The two stars before a name stay a segment of their own. -/
theorem collapseDeep_anyDepth (h : IsLiteral name) :
    ['/'].intercalate (collapseDeep ((dropHere (anyDepth name)).splitOn '/')) = anyDepth name := by
  have hsplit : (dropHere (anyDepth name)).splitOn '/' = [deep, name] := splitOn_anyDepth h
  have hne : name ≠ deep := by
    rintro rfl
    exact h.notMem '*' (by decide) List.mem_cons_self
  have hcollapse : collapseDeep [deep, name] = [deep, name] := by simp [collapseDeep, hne]
  rw [hsplit, hcollapse]
  simp [anyDepth, deep]

/-- Lexemes that can all be taken write the expression of the groups that they leave. -/
theorem ofLexemes?_of_foldlM {lexemes : List Regex.Lexeme} {g : Regex.Group}
    {around : List Regex.Group}
    (h : lexemes.foldlM Regex.Group.step ({}, []) = some (g, around)) :
    Regex.ofLexemes? lexemes = g.finish around := by
  rw [Regex.ofLexemes?, h]
  rfl

/-- The glob of a literal name at any depth is put together to its expression. -/
theorem general?_anyDepth (h : IsLiteral name) :
    general? (anyDepth name) = some (anyDepthRegex name) := by
  have htokens : tokens .tokens (anyDepth name) = .stars 2 :: .slash :: name.map literalToken := by
    rw [← tokens_literal h.literal .tokens (Or.inl rfl)]
    rfl
  obtain ⟨g, hfold, hdone, hterms⟩ :=
    exists_foldlM_literal name (g := Regex.Group.add {} anyDepthPart) rfl
  have hwhole : (.part anyDepthPart :: name.map literalLexeme).foldlM Regex.Group.step ({}, []) =
      some (g, []) := by
    rw [List.foldlM_cons]
    exact hfold
  rw [general?, collapseDeep_anyDepth h, htokens, globLexemes, lexemes_literal h.literal rfl]
  refine (ofLexemes?_of_foldlM hwhole).trans (congrArg some ?_)
  rw [Regex.Group.whole, hdone, Regex.Group.current, hterms]
  rfl

/-- A row of extensions starts with a dot. -/
theorem isExtensions_cons_of_ne {c : Char} (hc : c ≠ '.') (rest : List Char) :
    isExtensions (c :: rest) = false := by
  obtain ⟨first, words, hsplit⟩ := List.exists_cons_of_ne_nil (List.splitOn_ne_nil '.' rest)
  rw [isExtensions, List.splitOn_cons_eq_if_modifyHead, if_neg (by simpa using hc), hsplit]
  rfl

/-- The glob of a literal name at any depth is not one of the common ones. -/
theorem common?_anyDepth (h : IsLiteral name) : common? (anyDepth name) = none := by
  have hstar := h.notMem '*' (by decide)
  obtain ⟨c, rest, rfl⟩ := List.exists_cons_of_ne_nil h.ne_nil
  have hc : '*' ≠ c := fun heq => hstar (heq ▸ List.mem_cons_self)
  have hrest : Text.dropStart? ['*'] rest = none := by
    cases rest with
    | nil => rfl
    | cons d rest =>
      have hd : '*' ≠ d := fun heq => hstar (heq ▸ List.mem_cons_of_mem _ List.mem_cons_self)
      exact if_neg hd
  simp [common?, commonGlobs, anyDepth, Text.dropStart?, hc, hrest, isExtensions_cons_of_ne]

/-- The glob of a literal name at any depth is short for no other. -/
theorem lookup_shorter_anyDepth (h : IsLiteral name) :
    shorter.lookup (String.ofList (anyDepth name)) = none := by
  refine List.lookup_eq_none_iff.mpr fun entry hentry => ?_
  rw [bne_iff_ne]
  intro heq
  have hends : ∀ entry ∈ shorter, (entry.1.toList.drop 2).contains '*' = true := by decide
  have hmem := hends entry hentry
  rw [← heq, String.toList_ofList] at hmem
  have hmem : '*' ∈ '/' :: name := by simpa [anyDepth] using hmem
  exact h.notMem '*' (by decide) ((List.mem_cons.mp hmem).resolve_left (by decide))

namespace Pattern

/-- The pattern of a name at any depth. -/
def ofName (name : List Char) : Pattern := ⟨anyDepth name, false, some (anyDepthRegex name)⟩

/-- The glob of a literal name at any depth is read as its pattern. -/
theorem ofChars_anyDepth (h : IsLiteral name) : ofChars (anyDepth name) = ofName name := by
  have hflat : isFlat (anyDepth name) = false := rfl
  have hmarks : (anyDepth name).takeWhile (· == '!') = [] := rfl
  have hdrop : Text.dropStart? ['.', '/'] (anyDepth name) = none := rfl
  simp [ofChars, lookup_shorter_anyDepth h, hdrop, hmarks, translate, common?_anyDepth h, hflat,
    general?_anyDepth h, ofName]

end Pattern

/-- Text without slashes has no runs of them. -/
theorem singleSlashes_go_eq_self {text : List Char} (h : '/' ∉ text) :
    singleSlashes.go text = text := by
  induction text with
  | nil => rfl
  | cons c text ih =>
    have hc : c ≠ '/' := fun heq => h (heq ▸ List.mem_cons_self)
    rw [singleSlashes.go, ih fun hmem => h (List.mem_cons_of_mem _ hmem)]
    rintro more rfl
    exact absurd rfl hc

/-- The glob of a literal name at any depth stands for its one pattern. -/
theorem read_anyDepth (h : IsLiteral name) :
    read ("**/" ++ String.ofList name) = [Pattern.ofName name] := by
  have htext : ("**/" ++ String.ofList name).toList = anyDepth name := by simp [anyDepth]
  have hbrace : '{' ∉ anyDepth name := by
    have hname := h.notMem '{' (by decide)
    simp [anyDepth, hname]
  have hexpand : expandBraces (anyDepth name) = [anyDepth name] := by
    have hnone : Text.after? ['{'] (anyDepth name) = none :=
      Option.not_isSome_iff_eq_none.mp fun hsome =>
        hbrace ((Text.after?_isSome_iff.mp hsome).subset List.mem_cons_self)
    rw [expandBraces, hasBraces, hnone]
    rfl
  have hslashes : singleSlashes (anyDepth name) = anyDepth name := by
    obtain ⟨c, rest, rfl⟩ := List.exists_cons_of_ne_nil h.ne_nil
    have hc : c ≠ '/' := fun heq =>
      h.notMem '/' (by decide) (heq ▸ List.mem_cons_self)
    have hrest := singleSlashes_go_eq_self (h.notMem '/' (by decide))
    simp [singleSlashes, anyDepth, singleSlashes.go, hc, hrest]
  have hfilter : [anyDepth name].filter (fun text => !text.isEmpty) = [anyDepth name] := rfl
  have hdrop : Text.dropStart? ['!'] (anyDepth name) = none := rfl
  simp only [read, htext, hexpand, hfilter, List.map_singleton, hslashes, hdrop, Option.getD_none,
    Pattern.ofChars_anyDepth h]

/-! ## What it matches -/

/-- The segments that two stars stand for and the slash after them take all that is before a slash,
within one line. -/
theorem mem_leaves_segmentsPart {us rest : List UInt16} :
    rest ∈ segmentsPart.leaves us ↔
      ∃ taken, us = taken ++ slash :: rest ∧ ∀ u ∈ taken, UnitSet.inLine.contains u = true := by
  rw [segmentsPart, Regex.mem_leaves_both, deepPart, slashPart]
  simp only [Regex.mem_leaves_many_one, Regex.mem_leaves_only]
  constructor
  · rintro ⟨middle, ⟨taken, rfl, htaken⟩, rfl⟩
    exact ⟨taken, rfl, htaken⟩
  · rintro ⟨taken, rfl, htaken⟩
    exact ⟨slash :: rest, ⟨taken, rfl, htaken⟩, rfl⟩

/-- The expression of a name at any depth matches the name itself, and the name behind a slash. -/
theorem accepts_anyDepthRegex {us : List UInt16} :
    (anyDepthRegex name).accepts us = true ↔
      us = Text.units name ∨ ∃ taken, us = taken ++ slash :: Text.units name ∧
        ∀ u ∈ taken, UnitSet.inLine.contains u = true := by
  rw [Regex.accepts_iff, anyDepthRegex, Regex.mem_leaves_both]
  simp only [anyDepthPart, slashPart, Regex.mem_leaves_either, Regex.leaves_empty,
    List.mem_singleton, Regex.mem_leaves_only, mem_leaves_segmentsPart,
    Regex.mem_leaves_sequence_ofChars, List.append_nil, exists_eq_right]
  constructor
  · rintro (h | h | h)
    · exact Or.inl h.symm
    · exact Or.inr ⟨[], h, List.forall_mem_nil _⟩
    · exact Or.inr h
  · exact fun h => h.imp Eq.symm Or.inr

namespace Pattern

/-- The pattern of a name at any depth matches the name itself, and the name behind any directories
that are named within one line. -/
theorem test_ofName_iff {path : String} :
    (ofName name).test path = true ↔
      path.toList = name ∨ ∃ before, path.toList = before ++ '/' :: name ∧
        ∀ u ∈ Text.units before, UnitSet.inLine.contains u = true := by
  have htest : (ofName name).test path = (anyDepthRegex name).accepts (Text.units path.toList) :=
    rfl
  rw [htest, accepts_anyDepthRegex, Text.units_injective.eq_iff]
  refine or_congr_right ⟨?_, ?_⟩
  · rintro ⟨taken, hunits, htaken⟩
    obtain ⟨before, rest, hpath, rfl, hrest⟩ :=
      Text.exists_of_units_eq_append '/' (by decide) hunits
    exact ⟨before, Text.units_injective hrest ▸ hpath, htaken⟩
  · rintro ⟨before, hpath, hbefore⟩
    exact ⟨Text.units before, by rw [hpath, Text.units_append]; rfl, hbefore⟩

/-- What the pattern of a name at any depth matches ends in the name. -/
theorem ends_of_test_ofName {path : String} (h : (ofName name).test path = true) :
    path.toList = name ∨ ∃ before, path.toList = before ++ '/' :: name := by
  rcases test_ofName_iff.mp h with h | ⟨before, h, -⟩
  · exact Or.inl h
  · exact Or.inr ⟨before, h⟩

/-- A text without an opening bracket has no class. -/
theorem hasClass_eq_false {text : List Char} (h : '[' ∉ text) :
    isLiteral.hasClass text = false := by
  induction text with
  | nil => rfl
  | cons c text ih =>
    have hc : c ≠ '[' := fun heq => h (heq ▸ List.mem_cons_self)
    rw [isLiteral.hasClass, beq_false_of_ne hc, ih fun hmem => h (List.mem_cons_of_mem _ hmem)]
    rfl

/-- A directory that matches the pattern of a literal name is left out with all below it. -/
theorem prunes_ofName (h : IsLiteral name) : (ofName name).prunes = true := by
  have hbare : ((anyDepth name).reverse.dropWhile (· == '/')).reverse = anyDepth name := by
    have hne : name.reverse ≠ [] := mt List.reverse_eq_nil_iff.mp h.ne_nil
    obtain ⟨c, rest, hname⟩ := List.exists_cons_of_ne_nil hne
    have hc : c ≠ '/' := by
      rintro rfl
      exact h.notMem '/' (by decide) (List.mem_reverse.mp (hname ▸ List.mem_cons_self))
    have hreverse : (anyDepth name).reverse = c :: (rest ++ ['/', '*', '*']) := by
      simp [anyDepth, hname]
    have hdrop : (anyDepth name).reverse.dropWhile (· == '/') = (anyDepth name).reverse := by
      rw [hreverse]
      simp [hc]
    rw [hdrop, List.reverse_reverse]
  have hbasename : (ofName name).basename = name := by
    simp only [basename, ofName, hbare, splitOn_anyDepth h]
    rfl
  have hhead : name.head? ≠ some '!' := fun hhead =>
    h.notMem '!' (by decide) (List.mem_of_head? hhead)
  have hliteral : isLiteral name = true := by
    simp [isLiteral, h.notMem '*' (by decide), h.notMem '?' (by decide),
      h.notMem '\\' (by decide), hhead, hasClass_eq_false (h.notMem '[' (by decide))]
  rw [prunes, hbasename, hliteral, Bool.or_true]

end Pattern

end PureLint.Glob
