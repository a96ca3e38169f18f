import Mathlib.Data.List.Basic
import PureLint.Comment.ParamTag
import PureLint.Proofs.Text.Trim

/-!
# Written tags

Doc blocks as they are written: one line after the other, each of them a tag for a parameter or any
other text. A tag is read back as the name it was written for, with two exceptions. The type of a
tag is taken to end at the first closing brace, so of a type with braces of its own the rest is read
as a name. And a line is taken for a tag if its first word merely begins like one.
-/

namespace PureLint

namespace Text

/-- What follows the first of one character in a text goes on behind the text. If the text does not
have the character, it is what follows one that stands behind it. -/
theorem after?_singleton_append (c : Char) (front rest : List Char) :
    after? [c] (front ++ c :: rest) =
      some (match after? [c] front with
        | some more => more ++ c :: rest
        | none => rest) := by
  induction front with
  | nil => simp [after?, dropStart?]
  | cons d front ih =>
    by_cases h : c = d
    · simp [after?, dropStart?, h]
    · simp [after?, dropStart?, h, ih]

/-- Nothing follows a character that a text does not have. -/
theorem after?_singleton_eq_none {c : Char} {cs : List Char} (h : c ∉ cs) :
    after? [c] cs = none := by
  rw [← Option.not_isSome_iff_eq_none, after?_isSome_iff]
  exact fun hpart => h (hpart.subset List.mem_cons_self)

end Text

namespace ParamTag

/-! ## Doc blocks as they are written -/

/-- How the name of a parameter is written in its tag: by itself, or in brackets where the parameter
may be left out, and there with a default or without. -/
inductive Form where
  | plain
  | optional
  | defaulted (value : List Char)

/-- A tag for a parameter, as it is written. -/
structure Tag where
  /-- The type, without the braces around it. -/
  type : Option (List Char)
  name : List Char
  form : Form
  description : Option (List Char)

namespace Tag

/-- The type in its braces, and a blank. -/
def typed (t : Tag) : List Char :=
  match t.type with
  | some type => '{' :: (type ++ ['}', ' '])
  | none => []

/-- The name in the form it is written in. -/
def shown (t : Tag) : List Char :=
  match t.form with
  | .plain => t.name
  | .optional => '[' :: (t.name ++ [']'])
  | .defaulted value => '[' :: (t.name ++ '=' :: (value ++ [']']))

/-- The description, behind a blank. -/
def remark (t : Tag) : List Char :=
  match t.description with
  | some text => ' ' :: text
  | none => []

/-- The text of a tag: an asterisk, the keyword, the type, the name and the description. -/
def text (t : Tag) : List Char :=
  '*' :: ' ' :: ("@param".toList ++ ' ' :: (t.typed ++ (t.shown ++ t.remark)))

/-- The characters that no name of a parameter has. -/
def reserved : List Char := ['.', '=', '[', ']', '{', '}']

/-- A tag has a name, which is one word of ordinary characters, and stands on one line. -/
structure WellFormed (t : Tag) : Prop where
  name_ne_nil : t.name ≠ []
  word : ∀ c ∈ t.name, Text.isBlank c = false
  ordinary : ∀ c ∈ t.name, c ∉ reserved
  oneLine : '\n' ∉ t.text

-- The characters are looked at one by one, not all characters there are.
instance (t : Tag) : Decidable t.WellFormed :=
  have (p : Char → Prop) [DecidablePred p] : Decidable (∀ c ∈ t.name, p c) :=
    List.decidableBAll p t.name
  decidable_of_iff (t.name ≠ [] ∧ (∀ c ∈ t.name, Text.isBlank c = false) ∧
      (∀ c ∈ t.name, c ∉ reserved) ∧ '\n' ∉ t.text)
    ⟨fun ⟨hname, hword, hordinary, hline⟩ => ⟨hname, hword, hordinary, hline⟩,
      fun h => ⟨h.name_ne_nil, h.word, h.ordinary, h.oneLine⟩⟩

end Tag

/-- A line of a doc block: a tag behind a margin, or any other text. -/
inductive DocLine where
  | tag (margin : List Char) (t : Tag)
  | other (text : List Char)

/-- The name that stands at the beginning of a text, if there is one and it is no field's. -/
def nameAt (text : List Char) : Option String :=
  let name := nameIn (Text.firstWord text)
  if name.isEmpty || name.contains '.' then none else some (String.ofList name)

namespace DocLine

/-- The text of a line. -/
def text : DocLine → List Char
  | tag margin t => margin ++ t.text
  | other text => text

/-- The margin of a tag is blank. The first word of another line is not the keyword. -/
def WellFormed : DocLine → Prop
  | tag margin t => (∀ c ∈ margin, Text.isBlank c = true ∧ c ≠ '\n') ∧ t.WellFormed
  | other text => '\n' ∉ text ∧ Text.firstWord (Feature.docLine text) ≠ "@param".toList

instance : DecidablePred WellFormed
  | tag margin t =>
    have : Decidable (∀ c ∈ margin, Text.isBlank c = true ∧ c ≠ '\n') :=
      List.decidableBAll _ margin
    inferInstanceAs (Decidable (_ ∧ t.WellFormed))
  | other _ => inferInstanceAs (Decidable (_ ∧ _))

/-- The name that a line was written for. -/
def written? : DocLine → Option String
  | tag _ t => some (String.ofList t.name)
  | other _ => none

/-- The name that is read from a line. Where the type of a tag has a closing brace of its own, the
name is looked for behind that one, and what is left of the type stands there. Where the first word
of another line begins with the keyword, the name is looked for behind this beginning. -/
def read? : DocLine → Option String
  | tag _ t =>
    match t.type.bind (Text.after? ['}']) with
    | some more => nameAt (Text.trimStart (more ++ ['}']))
    | none => some (String.ofList t.name)
  | other text =>
    (Text.dropStart? "@param".toList (Feature.docLine text)).bind fun rest =>
      nameAt (afterType rest)

/-- Neither has the type of a tag a closing brace of its own, nor does the first word of another
line begin with the keyword. -/
def Plain : DocLine → Prop
  | tag _ t => ∀ type ∈ t.type, '}' ∉ type
  | other text => ¬"@param".toList <+: Feature.docLine text

instance : DecidablePred Plain
  | tag _ t => inferInstanceAs (Decidable (∀ type ∈ t.type, '}' ∉ type))
  | other text => inferInstanceAs (Decidable (¬"@param".toList <+: Feature.docLine text))

end DocLine

/-- The doc block of these lines. -/
def docOf (lines : List DocLine) : String :=
  String.ofList (['\n'].intercalate (lines.map DocLine.text))

/-! ## Reading names -/

/-- The name of a line is looked for behind the keyword, and there behind the type. -/
theorem ofLine?_eq (line : List Char) :
    ofLine? line = (Text.dropStart? "@param".toList (Feature.docLine line)).bind fun rest =>
      nameAt (afterType (Text.trim rest)) := rfl

/-- A character at the beginning is dropped. -/
theorem dropFirst_cons (c : Char) (cs : List Char) : dropFirst c (c :: cs) = cs := by
  simp [dropFirst, Text.dropStart?]

/-- A text that does not begin with the character keeps its beginning. -/
theorem dropFirst_eq_self {c : Char} {cs : List Char} (h : cs.head? ≠ some c) :
    dropFirst c cs = cs := by
  cases cs with
  | nil => rfl
  | cons d cs =>
    have hne : c ≠ d := fun heq => h (congrArg some heq.symm)
    simp [dropFirst, Text.dropStart?, hne]

/-- A character at the end is dropped. -/
theorem dropLast_concat (c : Char) (cs : List Char) : dropLast c (cs ++ [c]) = cs := by
  rw [dropLast, List.reverse_append, List.reverse_singleton, List.singleton_append, dropFirst_cons,
    List.reverse_reverse]

/-- A text that does not end with the character keeps its end. -/
theorem dropLast_eq_self {c : Char} {cs : List Char} (h : cs.getLast? ≠ some c) :
    dropLast c cs = cs := by
  rw [dropLast, dropFirst_eq_self, List.reverse_reverse]
  rwa [List.head?_reverse]

/-- At the end of a text at most its last character is dropped. -/
theorem exists_dropLast_append_cons (c d : Char) (cs ds : List Char) (hne : d ≠ c) :
    ∃ rest, dropLast c (cs ++ d :: ds) = cs ++ d :: rest := by
  rcases List.eq_nil_or_concat ds with rfl | ⟨front, last, rfl⟩
  · refine ⟨[], dropLast_eq_self ?_⟩
    rw [List.getLast?_concat]
    exact fun heq => hne (Option.some.inj heq)
  · rw [List.concat_eq_append, ← List.cons_append, ← List.append_assoc]
    by_cases hlast : last = c
    · exact ⟨front, by rw [hlast, dropLast_concat]⟩
    · refine ⟨front ++ [last], ?_⟩
      rw [dropLast_eq_self, List.append_assoc, List.cons_append]
      rw [List.getLast?_concat]
      exact fun heq => hlast (Option.some.inj heq)

/-- What is left of the description is set off by a blank. -/
theorem Tag.head?_remark (t : Tag) : (Text.trimEnd t.remark).head?.all Text.isBlank = true := by
  obtain ⟨blanks, hremark, -⟩ := Text.exists_eq_trimEnd_append t.remark
  cases hleft : Text.trimEnd t.remark with
  | nil => rfl
  | cons c rest =>
    rw [hleft, List.cons_append, remark] at hremark
    cases hdescription : t.description with
    | none =>
      rw [hdescription] at hremark
      cases hremark
    | some text =>
      rw [hdescription] at hremark
      cases hremark
      rfl

namespace Tag.WellFormed

variable {t : Tag} (h : t.WellFormed)

include h

/-- No reserved character is in the name. -/
theorem notMem {c : Char} (hc : c ∈ reserved) : c ∉ t.name := fun hmem => h.ordinary c hmem hc

/-- The name ends before an equals sign behind it. -/
theorem takeWhile_name (rest : List Char) :
    (t.name ++ '=' :: rest).takeWhile (· != '=') = t.name := by
  have hname : ∀ c ∈ t.name, (c != '=') = true := by
    intro c hc
    rw [bne_iff_ne]
    rintro rfl
    exact h.notMem (by decide) hc
  rw [List.takeWhile_append_of_pos hname, List.takeWhile_cons_of_neg (by decide), List.append_nil]

/-- A name without an equals sign behind it is taken as a whole. -/
theorem takeWhile_name_self : t.name.takeWhile (· != '=') = t.name := by
  rw [List.takeWhile_eq_self_iff]
  intro c hc
  rw [bne_iff_ne]
  rintro rfl
  exact h.notMem (by decide) hc

/-- A name by itself is read as it is. -/
theorem nameIn_name : nameIn t.name = t.name := by
  have hfirst : t.name.head? ≠ some '[' := fun heq =>
    h.notMem (by decide) (List.mem_of_head? heq)
  have hlast : t.name.getLast? ≠ some ']' := fun heq =>
    h.notMem (by decide) (List.mem_of_getLast? heq)
  rw [nameIn, dropFirst_eq_self hfirst, dropLast_eq_self hlast, h.takeWhile_name_self]

/-- A name in brackets is read without them. -/
theorem nameIn_bracketed : nameIn ('[' :: (t.name ++ [']'])) = t.name := by
  rw [nameIn, dropFirst_cons, dropLast_concat, h.takeWhile_name_self]

/-- A name with a default is read without it, wherever the first word cuts the default off. -/
theorem nameIn_defaulted (rest : List Char) : nameIn ('[' :: (t.name ++ '=' :: rest)) = t.name := by
  obtain ⟨left, hleft⟩ := exists_dropLast_append_cons ']' '=' t.name rest (by decide)
  rw [nameIn, dropFirst_cons, hleft, h.takeWhile_name]

/-- The name is read from a text that begins with the form it is written in. -/
theorem nameAt_shown {rest : List Char} (hrest : rest.head?.all Text.isBlank = true) :
    nameAt (t.shown ++ rest) = some (String.ofList t.name) := by
  have hname : nameIn (Text.firstWord (t.shown ++ rest)) = t.name := by
    have hword (cs : List Char) : Text.firstWord (t.name ++ cs) = t.name ++ Text.firstWord cs :=
      Text.firstWord_append_of_forall h.word cs
    have hbracket (cs : List Char) : Text.firstWord ('[' :: cs) = '[' :: Text.firstWord cs := rfl
    have hclosed : Text.firstWord (']' :: rest) = [']'] := Text.firstWord_append hrest [']']
    unfold shown
    cases t.form with
    | plain =>
      have hself : Text.firstWord t.name = t.name := List.append_nil t.name ▸ hword []
      rw [Text.firstWord_append hrest, hself, h.nameIn_name]
    | optional =>
      rw [List.cons_append, List.append_assoc, hbracket, hword, List.singleton_append, hclosed,
        h.nameIn_bracketed]
    | defaulted value =>
      have hequals (cs : List Char) : Text.firstWord ('=' :: cs) = '=' :: Text.firstWord cs := rfl
      rw [List.cons_append, List.append_assoc, hbracket, hword, List.cons_append, hequals,
        h.nameIn_defaulted]
  have hempty : t.name.isEmpty = false := by simpa using h.name_ne_nil
  have hfield : t.name.contains '.' = false := by
    simpa using h.notMem (c := '.') (by decide)
  simp only [nameAt, hname, hempty, hfield, Bool.or_self, Bool.false_eq_true, if_false]

/-- The form that the name is written in begins neither with a blank nor with a brace. -/
theorem exists_shown_eq_cons : ∃ c cs, t.shown = c :: cs ∧ Text.isBlank c = false ∧ c ≠ '{' := by
  unfold shown
  cases t.form with
  | plain =>
    obtain ⟨c, cs, hname⟩ := List.exists_cons_of_ne_nil h.name_ne_nil
    have hmem : c ∈ t.name := hname ▸ List.mem_cons_self
    refine ⟨c, cs, hname, h.word c hmem, ?_⟩
    rintro rfl
    exact h.notMem (by decide) hmem
  | _ => exact ⟨'[', _, rfl, by decide, by decide⟩

/-- The form that the name is written in does not end with a blank. -/
theorem getLast?_shown : t.shown.getLast?.any Text.isBlank = false := by
  unfold shown
  cases t.form with
  | plain =>
    cases hlast : t.name.getLast? with
    | none => rfl
    | some c => exact h.word c (List.mem_of_getLast? hlast)
  | optional =>
    simp only [← List.cons_append, List.getLast?_concat]
    decide
  | defaulted value =>
    simp only [← List.cons_append, ← List.append_assoc, List.getLast?_concat]
    decide

/-- What a tag says does not end with a blank, up to the blanks that its description ends with. -/
theorem getLast?_said (front : List Char) :
    (front ++ (t.shown ++ Text.trimEnd t.remark)).getLast?.any Text.isBlank = false := by
  obtain ⟨c, cs, hshown, -, -⟩ := h.exists_shown_eq_cons
  have hshownLast := h.getLast?_shown
  have hremarkLast := Text.getLast?_trimEnd t.remark
  rw [List.getLast?_append, List.getLast?_append]
  cases hremark : (Text.trimEnd t.remark).getLast? with
  | some last =>
    rw [hremark] at hremarkLast
    exact hremarkLast
  | none =>
    cases hlast : t.shown.getLast? with
    | some last =>
      rw [hlast] at hshownLast
      exact hshownLast
    | none =>
      rw [List.getLast?_eq_none_iff, hshown] at hlast
      cases hlast

/-- What is left of the line of a tag when blanks and asterisk are gone. -/
theorem docLine_text {margin : List Char} (hmargin : ∀ c ∈ margin, Text.isBlank c = true) :
    Feature.docLine (margin ++ t.text) =
      "@param".toList ++ ' ' :: (t.typed ++ (t.shown ++ Text.trimEnd t.remark)) := by
  obtain ⟨blanks, hremark, hblanks⟩ := Text.exists_eq_trimEnd_append t.remark
  let line : List Char := "@param".toList ++ ' ' :: (t.typed ++ (t.shown ++ Text.trimEnd t.remark))
  have hlast (front : List Char) : (front ++ line).getLast?.any Text.isBlank = false := by
    have hsplit : front ++ line = (front ++ ("@param".toList ++ ' ' :: t.typed)) ++
        (t.shown ++ Text.trimEnd t.remark) := by
      simp only [line, List.append_assoc, List.cons_append]
    rw [hsplit]
    exact h.getLast?_said _
  have htext : margin ++ t.text = margin ++ ('*' :: ' ' :: line) ++ blanks := by
    have hself : t.remark = Text.trimEnd t.remark ++ blanks := hremark
    simp only [text, line, List.append_assoc, List.cons_append, ← hself]
  have hstar : ('*' :: ' ' :: line).head?.any Text.isBlank = false := rfl
  have hkeyword : line.head?.any Text.isBlank = false := rfl
  have hdropped : ('*' :: ' ' :: line).dropWhile (· == '*') = ' ' :: line := rfl
  rw [Feature.docLine, htext, Text.trim_append hmargin hblanks hstar (hlast ['*', ' ']), hdropped,
    Text.trim_cons rfl hkeyword (hlast [])]

/-- The name of a tag is read from where its type leaves off. -/
theorem ofLine?_text {margin : List Char} (hmargin : ∀ c ∈ margin, Text.isBlank c = true) :
    ofLine? (margin ++ t.text) =
      nameAt (afterType (t.typed ++ (t.shown ++ Text.trimEnd t.remark))) := by
  let said : List Char := t.typed ++ (t.shown ++ Text.trimEnd t.remark)
  have hhead : said.head?.any Text.isBlank = false := by
    obtain ⟨c, cs, hshown, hc, -⟩ := h.exists_shown_eq_cons
    simp only [said, typed, hshown]
    cases t.type with
    | some type => rfl
    | none => exact hc
  rw [ofLine?_eq, h.docLine_text hmargin, Text.dropStart?_eq_some_iff.mpr rfl, Option.bind_some,
    Text.trim_cons rfl hhead (h.getLast?_said t.typed)]

/-- A tag is read as the name it was written for, unless its type ends too early. -/
theorem ofLine?_tag {margin : List Char} (hmargin : ∀ c ∈ margin, Text.isBlank c = true) :
    ofLine? (DocLine.tag margin t).text = (DocLine.tag margin t).read? := by
  rw [DocLine.text, h.ofLine?_text hmargin, DocLine.read?, typed]
  cases htype : t.type with
  | none =>
    obtain ⟨c, cs, hshown, -, hc⟩ := h.exists_shown_eq_cons
    have hno : afterType (t.shown ++ Text.trimEnd t.remark) = t.shown ++ Text.trimEnd t.remark := by
      rw [hshown, List.cons_append, afterType]
      simpa using hc
    simp only [List.nil_append, hno, h.nameAt_shown t.head?_remark, Option.bind_none]
  | some type =>
    let said : List Char := t.shown ++ Text.trimEnd t.remark
    have htyped : afterType ('{' :: (type ++ ['}', ' ']) ++ said) =
        Text.trim (match Text.after? ['}'] type with
          | some more => more ++ '}' :: ' ' :: said
          | none => ' ' :: said) := by
      have hopen : Text.after? ['}'] ('{' :: type) = Text.after? ['}'] type := by
        simp [Text.after?, Text.dropStart?]
      have hsplit : '{' :: (type ++ ['}', ' ']) ++ said = ('{' :: type) ++ '}' :: ' ' :: said := by
        simp
      rw [hsplit, ← hopen]
      have hafter := Text.after?_singleton_append '}' ('{' :: type) (' ' :: said)
      rw [List.cons_append] at hafter ⊢
      rw [afterType, hafter, Option.elim_some]
    rw [htyped, Option.bind_some]
    cases Text.after? ['}'] type with
    | none =>
      have hhead : said.head?.any Text.isBlank = false := by
        obtain ⟨c, cs, hshown, hc, -⟩ := h.exists_shown_eq_cons
        simp only [said, hshown]
        exact hc
      have htrim : Text.trim (' ' :: said) = said :=
        Text.trim_cons rfl hhead (h.getLast?_said [])
      simp only [htrim, said, h.nameAt_shown t.head?_remark]
    | some more =>
      have hword : Text.firstWord (Text.trim (more ++ '}' :: ' ' :: said)) =
          Text.firstWord (Text.trimStart (more ++ ['}'])) := by
        rw [Text.firstWord_trim, Text.trimStart_concat_append rfl, Text.firstWord_append rfl]
      simp only [nameAt, hword]

end Tag.WellFormed

/-- The keyword and what goes on behind it are read like a tag. -/
theorem ofLine?_other {text : List Char} (h : (DocLine.other text).WellFormed) :
    ofLine? text = (DocLine.other text).read? := by
  rw [ofLine?_eq, DocLine.read?]
  cases hrest : Text.dropStart? "@param".toList (Feature.docLine text) with
  | none => rfl
  | some rest =>
    have hline := Text.dropStart?_eq_some_iff.mp hrest
    have hhead : rest.head?.any Text.isBlank = false := by
      -- a blank behind the keyword would end the first word there
      by_contra hblank
      rw [Bool.not_eq_false] at hblank
      apply h.2
      have hall : rest.head?.all Text.isBlank = true := by
        cases hrest : rest.head? with
        | none => rfl
        | some c =>
          rw [hrest] at hblank
          exact hblank
      rw [hline, Text.firstWord_append hall]
      rfl
    have hlast : rest.getLast?.any Text.isBlank = false := by
      have hend : (Feature.docLine text).getLast?.any Text.isBlank = false :=
        Text.getLast?_trimEnd _
      rw [hline, List.getLast?_append] at hend
      cases hrest : rest.getLast? with
      | none => rfl
      | some c =>
        rw [hrest] at hend
        exact hend
    have htrim := Text.trim_append (List.forall_mem_nil _) (List.forall_mem_nil _) hhead hlast
    rw [List.nil_append, List.append_nil] at htrim
    rw [Option.bind_some, Option.bind_some, htrim]

/-- A line is read as what it says. -/
theorem ofLine?_docLine {line : DocLine} (h : line.WellFormed) :
    ofLine? line.text = line.read? := by
  cases line with
  | tag margin t => exact h.2.ofLine?_tag fun c hc => (h.1 c hc).1
  | other text => exact ofLine?_other h

/-- A plain line is read as what it was written for. -/
theorem DocLine.Plain.read?_eq {line : DocLine} (h : line.Plain) : line.read? = line.written? := by
  cases line with
  | tag margin t =>
    have hnone : t.type.bind (Text.after? ['}']) = none := by
      cases htype : t.type with
      | none => rfl
      | some type => exact Text.after?_singleton_eq_none (h type htype)
    rw [read?, hnone, written?]
  | other text =>
    have hnone : Text.dropStart? "@param".toList (Feature.docLine text) = none := by
      rw [← Option.not_isSome_iff_eq_none]
      intro hsome
      obtain ⟨rest, hrest⟩ := Option.isSome_iff_exists.mp hsome
      exact h ⟨rest, (Text.dropStart?_eq_some_iff.mp hrest).symm⟩
    rw [read?, hnone, Option.bind_none, written?]

/-- Each line of a doc block stands on a line of its own. -/
theorem DocLine.WellFormed.newline_notMem {line : DocLine} (h : line.WellFormed) :
    '\n' ∉ line.text := by
  cases line with
  | tag margin t =>
    rw [DocLine.text, List.mem_append, not_or]
    exact ⟨fun hmem => (h.1 _ hmem).2 rfl, h.2.oneLine⟩
  | other text => exact h.1

/-- Doc blocks are read line by line. -/
theorem names_docOf {lines : List DocLine} (hlines : ∀ line ∈ lines, line.WellFormed) :
    names (docOf lines) = lines.filterMap DocLine.read? := by
  have hread : (lines.map DocLine.text).filterMap ofLine? = lines.filterMap DocLine.read? := by
    rw [List.filterMap_map]
    exact List.filterMap_congr fun line hline => ofLine?_docLine (hlines line hline)
  rw [names, docOf, String.toList_ofList, ← hread]
  by_cases hnil : lines = []
  · subst hnil
    decide
  · rw [Text.lines, List.splitOn_intercalate]
    · simpa using fun line hline => (hlines line hline).newline_notMem
    · simpa using hnil

/-- **Tags are read back as they were written, as long as braces do not nest.** From a doc block of
well-formed tags among other lines, the name is read that each line says, in the order of the lines.
Where no type has a closing brace of its own, and no other line begins with the keyword of a tag,
these are the names of the tags, whatever their types, defaults and descriptions are. -/
theorem names_written (lines : List DocLine) (hlines : ∀ line ∈ lines, line.WellFormed) :
    names (docOf lines) = lines.filterMap DocLine.read? ∧
      ((∀ line ∈ lines, line.Plain) → names (docOf lines) = lines.filterMap DocLine.written?) := by
  refine ⟨names_docOf hlines, ?_⟩
  intro hplain
  rw [names_docOf hlines]
  exact List.filterMap_congr fun line hline => (hplain line hline).read?_eq

/-- A doc block with a typed tag, a tag with a default of more than one word, and other lines. -/
def greeting : List DocLine :=
  [.other "*".toList,
    .tag [' '] ⟨some "string".toList, "name".toList, .plain, some "who [to] greet".toList⟩,
    .tag [' '] ⟨none, "times".toList, .defaulted "[1, 2]".toList, none⟩,
    .other " * @returns nothing".toList]

/-- The two tags are read back. -/
theorem names_written_greeting :
    (∀ line ∈ greeting, line.WellFormed) ∧ (∀ line ∈ greeting, line.Plain) ∧
      names (docOf greeting) = ["name", "times"] := by
  have hlines : ∀ line ∈ greeting, line.WellFormed := by decide +kernel
  have hplain : ∀ line ∈ greeting, line.Plain := by decide +kernel
  refine ⟨hlines, hplain, ?_⟩
  rw [(names_written greeting hlines).2 hplain]
  decide

/-- Every opening brace of a text is closed behind it, and nothing else is closed. -/
def Balanced (cs : List Char) : Prop :=
  cs.count '{' = cs.count '}' ∧ ∀ front ∈ cs.inits, front.count '}' ≤ front.count '{'

instance (cs : List Char) : Decidable (Balanced cs) := inferInstanceAs (Decidable (_ ∧ _))

/-- Of a tag whose type is that of an object, the end of the type is read. A line whose first word
is longer than the keyword is read as a tag for the rest of the word. -/
theorem misread_nestedType :
    let type := ['{', 'a', ':', ' ', 'T', '}']
    let nested : Tag := ⟨some type, "options".toList, .plain, none⟩
    let longer : DocLine := .other "* @params options".toList
    (DocLine.tag [] nested).WellFormed ∧ Balanced type ∧ names (docOf [.tag [] nested]) = ["\x7d"] ∧
      longer.WellFormed ∧ names (docOf [longer]) = ["s"] := by
  decide +kernel

end ParamTag

end PureLint
