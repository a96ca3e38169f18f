import Mathlib.Data.Set.List
import PureLint.Config.Basic
import PureLint.Proofs.Config.Validator
import PureLint.Proofs.Lists

/-!
# What a configuration is

Which values are configurations is said here field by field, without the functions that read them:
`Describes` relates the fields of a value to the configuration that they give, and `Flawed` names
the places where a value can be wrong. A value is read exactly if it has no flaw, and then it gives
what it describes. Whatever was read can be written as a value again, which describes the same.
-/

namespace PureLint

namespace Config

/-! ## Values and what they stand for -/

/-- The value is this truth value. -/
def GivesTruth (value : Json) (on : Bool) : Prop := value = .bool on

/-- The value is a list of these texts. -/
def GivesTexts (value : Json) (texts : List String) : Prop := value = textsJson texts

/-- The value is the name of a preset. -/
def GivesPreset (value : Json) (name : String) : Prop := value = .text name ∧ name ∈ Preset.names

/-- The value is the name of this test runner. -/
def GivesRunner (value : Json) (runner : TestRunner) : Prop := value = .text runner.name

/-- The value gives these choices for rules: its entries are truth values under names of rules. -/
def GivesChoices (value : Json) (rules : List (String × Bool)) : Prop :=
  value = .object (rules.map fun (id, on) => (id, .bool on)) ∧
    ∀ choice ∈ rules, isRuleId choice.1 = true

/-- The value tells what to leave out. -/
def GivesIgnore (value : Json) (ignore : IgnoreConfig) : Prop :=
  ∃ fields, value = .object fields ∧ Option.Rel GivesTexts (fields.lookup "files") ignore.files

/-- The fields give this configuration. What is not among them is not in the configuration either,
and every field that is there is as it must be. -/
structure Describes (fields : List (String × Json)) (c : Config) : Prop where
  preset : Option.Rel GivesPreset (fields.lookup "preset") c.preset
  rules : Option.Rel GivesChoices (fields.lookup "rules") c.rules
  ignore : Option.Rel GivesIgnore (fields.lookup "ignore") c.ignore
  entry : Option.Rel GivesTexts (fields.lookup "entry") c.entry
  main : Option.Rel GivesTexts (fields.lookup "main") c.main
  testRunner : Option.Rel GivesRunner (fields.lookup "testRunner") c.testRunner
  verbose : Option.Rel GivesTruth (fields.lookup "verbose") c.verbose

/-- Where a value fails to be a list of texts. -/
inductive FlawedTexts : Json → Prop where
  | sort {value : Json} (h : ∀ items, value ≠ .array items) : FlawedTexts value
  | item {items : List Json} {item : Json} (hitem : item ∈ items) (h : ∀ s, item ≠ .text s) :
    FlawedTexts (.array items)

/-- Where a value fails to give choices for rules. -/
inductive FlawedChoices : Json → Prop where
  | sort {value : Json} (h : ∀ choices, value ≠ .object choices) : FlawedChoices value
  | choice {choices : List (String × Json)} {id : String} {value : Json}
    (hchoice : (id, value) ∈ choices) (h : ∀ on, value ≠ .bool on) :
    FlawedChoices (.object choices)
  | rule {choices : List (String × Json)} {id : String} {value : Json}
    (hchoice : (id, value) ∈ choices) (h : isRuleId id = false) : FlawedChoices (.object choices)

/-- Where a value fails to tell what to leave out. -/
inductive FlawedIgnore : Json → Prop where
  | sort {value : Json} (h : ∀ fields, value ≠ .object fields) : FlawedIgnore value
  | files {fields : List (String × Json)} {value : Json}
    (hfield : fields.lookup "files" = some value) (h : FlawedTexts value) :
    FlawedIgnore (.object fields)

/-- Where a value fails to be a configuration: it is no object, or one of its fields is wrong. -/
inductive Flawed : Json → Prop where
  | sort {value : Json} (h : ∀ fields, value ≠ .object fields) : Flawed value
  | preset {fields : List (String × Json)} {value : Json}
    (hfield : fields.lookup "preset" = some value) (h : ∀ name ∈ Preset.names, value ≠ .text name) :
    Flawed (.object fields)
  | rules {fields : List (String × Json)} {value : Json}
    (hfield : fields.lookup "rules" = some value) (h : FlawedChoices value) :
    Flawed (.object fields)
  | ignore {fields : List (String × Json)} {value : Json}
    (hfield : fields.lookup "ignore" = some value) (h : FlawedIgnore value) :
    Flawed (.object fields)
  | entry {fields : List (String × Json)} {value : Json}
    (hfield : fields.lookup "entry" = some value) (h : FlawedTexts value) : Flawed (.object fields)
  | main {fields : List (String × Json)} {value : Json}
    (hfield : fields.lookup "main" = some value) (h : FlawedTexts value) : Flawed (.object fields)
  | testRunner {fields : List (String × Json)} {value : Json}
    (hfield : fields.lookup "testRunner" = some value)
    (h : ∀ runner : TestRunner, value ≠ .text runner.name) : Flawed (.object fields)
  | verbose {fields : List (String × Json)} {value : Json}
    (hfield : fields.lookup "verbose" = some value) (h : ∀ on, value ≠ .bool on) :
    Flawed (.object fields)

/-! ## The readings of a configuration -/

section Readings

variable {v : Validator} (hv : v.Documented)

include hv

/-- A preset is read by its name. -/
theorem decides_readPreset : Decides (v.option Preset.names) GivesPreset :=
  hv.option Preset.names

/-- A list of texts is read text by text. -/
theorem decides_readTexts : Decides (v.array v.text) GivesTexts := by
  intro path value texts
  rw [hv.array hv.text path value texts, GivesTexts, textsJson, StandsItemwise]
  simp only [← List.forall₂_map_right_iff, List.forall₂_eq_eq_eq, exists_eq_right]

/-- Choices are read if they are truth values under names of rules. -/
theorem decides_readRules : Decides (readRules v) GivesChoices := by
  intro path value rules
  have hunknown (rules : List (String × Bool)) :
      (rules.filter fun (id, _) => !isRuleId id).isEmpty = true ↔
        ∀ choice ∈ rules, isRuleId choice.1 = true := by
    simp [List.filter_eq_nil_iff]
  have hentries (choices : List (String × Bool)) : v.record v.truth path value = .ok choices ↔
      value = .object (choices.map fun (id, on) => (id, .bool on)) := by
    have hpairs (fields : List (String × Json)) :
        List.Forall₂ (fun field choice => field.1 = choice.1 ∧ field.2 = .bool choice.2) fields
          choices ↔ fields = choices.map fun (id, on) => (id, .bool on) := by
      rw [← List.forall₂_eq_eq_eq, List.forall₂_map_right_iff]
      simp only [Prod.ext_iff]
    rw [hv.record hv.truth path value choices, StandsEntrywise]
    simp only [hpairs, exists_eq_right]
  rw [readRules, bind_eq_ok_iff]
  constructor
  · rintro ⟨choices, hchoices, hrules⟩
    dsimp only at hrules
    split at hrules
    · rename_i hknown
      cases hrules
      exact ⟨(hentries _).mp hchoices, (hunknown _).mp hknown⟩
    · cases hrules
  · rintro ⟨hvalue, hknown⟩
    exact ⟨rules, (hentries _).mpr hvalue, if_pos ((hunknown _).mpr hknown)⟩

/-- What to leave out is read if it is a list of texts, or not there. -/
theorem decides_readIgnore : Decides (readIgnore v) GivesIgnore := by
  intro path value ignore
  rw [readIgnore, hv.object]
  simp only [readField, GivesIgnore, Checked.map_eq_ok_iff, (decides_readTexts hv).optional]
  refine exists_congr fun fields => and_congr_right fun _ => ?_
  constructor
  · rintro ⟨files, hfiles, rfl⟩
    exact hfiles
  · intro h
    exact ⟨ignore.files, h, rfl⟩

/-- A test runner is read by its name. -/
theorem decides_readRunner :
    Decides (readRunner v) fun value runner? =>
      ∃ runner, runner? = some runner ∧ GivesRunner value runner := by
  intro path value runner?
  simp only [readRunner, Checked.map_eq_ok_iff, hv.option _ path value _]
  constructor
  · rintro ⟨name, ⟨rfl, hname⟩, rfl⟩
    obtain ⟨runner, -, rfl⟩ := List.mem_map.mp hname
    exact ⟨runner, TestRunner.ofName?_name runner, rfl⟩
  · rintro ⟨runner, rfl, rfl⟩
    refine ⟨runner.name, ⟨rfl, List.mem_map_of_mem ?_⟩, TestRunner.ofName?_name runner⟩
    cases runner <;> decide

end Readings

/-! ## Reading and writing configurations -/

/-- A field that need not be there is read by its name. -/
theorem Decides.field {α : Type} {read : Reader α} {stands : Json → α → Prop}
    (h : Decides read stands) (path : List Step) (fields : List (String × Json)) (name : String)
    (result : Option α) :
    readField path fields name read = .ok result ↔
      Option.Rel stands (fields.lookup name) result := by
  rw [readField, h.optional]

section Fields

variable {v : Validator} (hv : v.Documented) {path : List Step} {fields : List (String × Json)}

include hv

/-- The test runner is read if it is the name of one, or not there. -/
theorem readRunner_field (result : Option (Option TestRunner)) :
    readField path fields "testRunner" (readRunner v) = .ok result ↔
      ∃ runner, result = runner.map some ∧
        Option.Rel GivesRunner (fields.lookup "testRunner") runner := by
  rw [(decides_readRunner hv).field]
  generalize fields.lookup "testRunner" = value
  constructor
  · intro h
    cases h with
    | none => exact ⟨none, rfl, .none⟩
    | some h =>
      obtain ⟨runner, rfl, hvalue⟩ := h
      exact ⟨some runner, rfl, .some hvalue⟩
  · rintro ⟨runner, rfl, h⟩
    cases h with
    | none => exact .none
    | some h => exact .some ⟨_, rfl, h⟩

/-- The fields of a value are read as the configuration that they give. -/
theorem readFields_eq_ok_iff {c : Config} :
    readFields v path fields = .ok c ↔ Describes fields c := by
  have htruth : Decides v.truth GivesTruth := hv.truth
  simp only [readFields, Checked.map_eq_ok_iff, Prod.exists, Checked.both_eq_ok_iff,
    (decides_readPreset hv).field, (decides_readRules hv).field, (decides_readIgnore hv).field,
    (decides_readTexts hv).field, htruth.field, readRunner_field hv]
  constructor
  · rintro ⟨preset, rules, ignore, entry, main, _, verbose,
      ⟨⟨hpreset, hrules⟩, ⟨hignore, hentry, hmain⟩, ⟨runner, rfl, hrunner⟩, hverbose⟩, rfl⟩
    refine ⟨hpreset, hrules, hignore, hentry, hmain, ?_, hverbose⟩
    cases runner <;> exact hrunner
  · intro h
    refine ⟨c.preset, c.rules, c.ignore, c.entry, c.main, c.testRunner.map some, c.verbose,
      ⟨⟨h.preset, h.rules⟩, ⟨h.ignore, h.entry, h.main⟩, ⟨_, rfl, h.testRunner⟩, h.verbose⟩, ?_⟩
    cases c with
    | mk preset rules ignore entry main runner verbose => cases runner <;> rfl

/-- A value is read as a configuration if it is an object whose fields give the configuration. -/
theorem read_eq_ok_iff {value : Json} {c : Config} :
    read v (some value) = .ok c ↔ ∃ fields, value = .object fields ∧ Describes fields c := by
  rw [read, hv.object]
  simp only [readFields_eq_ok_iff hv]

end Fields

/-- The entry of an optional field among fields. -/
theorem lookup_toList_map {α : Type} (key name : String) (part : Option α) (write : α → Json) :
    ((part.map fun a => (name, write a)).toList).lookup key =
      if key = name then part.map write else none := by
  cases part with
  | none => simp
  | some a =>
    rw [Option.map_some, Option.toList_some, lookup_cons_ite]
    rfl

/-- What is optional stands for the value that is written for it, if it does where it is there. -/
theorem rel_map_self {α : Type} {stands : Json → α → Prop} {write : α → Json} {value : Option Json}
    {part : Option α} (h : Option.Rel stands value part)
    (hwrite : ∀ value a, stands value a → stands (write a) a) :
    Option.Rel stands (part.map write) part := by
  cases h with
  | none => exact .none
  | some h => exact .some (hwrite _ _ h)

/-- Choices that a value gives are given by the value that is written for them. -/
theorem GivesChoices.written {value : Json} {rules : List (String × Bool)}
    (h : GivesChoices value rules) :
    GivesChoices (.object (rules.map fun (id, on) => (id, .bool on))) rules :=
  ⟨rfl, h.2⟩

/-- What a value tells to leave out is told by the value that is written for it. -/
theorem GivesIgnore.written {value : Json} {ignore : IgnoreConfig} (h : GivesIgnore value ignore) :
    GivesIgnore (ignoreJson ignore) ignore := by
  obtain ⟨fields, -, hfiles⟩ := h
  refine ⟨_, rfl, ?_⟩
  rw [lookup_toList_map, if_pos rfl]
  exact rel_map_self hfiles fun _ _ _ => rfl

/-- A configuration that fields give is given by the value that is written for it. -/
theorem Describes.written {fields : List (String × Json)} {c : Config} (h : Describes fields c) :
    ∃ fields, c.toJson = .object fields ∧ Describes fields c := by
  refine ⟨_, rfl, ?_, ?_, ?_, ?_, ?_, ?_, ?_⟩ <;>
    simp only [List.lookup_append, lookup_toList_map, String.reduceEq, if_true, if_false,
      Option.none_or, Option.or_none]
  · exact rel_map_self h.preset fun _ name hname => ⟨rfl, hname.2⟩
  · exact rel_map_self h.rules fun _ _ hrules => hrules.written
  · exact rel_map_self h.ignore fun _ _ hignore => hignore.written
  · exact rel_map_self h.entry fun _ _ _ => rfl
  · exact rel_map_self h.main fun _ _ _ => rfl
  · exact rel_map_self h.testRunner fun _ _ _ => rfl
  · exact rel_map_self h.verbose fun _ _ _ => rfl

/-! ## Flaws -/

section Optional

variable {α : Type}

/-- What is there stands for something, where it is related to a result. -/
theorem exists_of_rel {stands : Json → α → Prop} {part : Option Json} {result : Option α}
    (h : Option.Rel stands part result) {value : Json}
    (hpart : part = some value) : ∃ a, stands value a := by
  cases h with
  | none => cases hpart
  | some h =>
    cases hpart
    exact ⟨_, h⟩

/-- What need not be there is related to a result, unless it is there and stands for nothing. -/
theorem exists_rel (stands : Json → α → Prop) (part : Option Json)
    (h : ∀ value, part = some value → ¬¬∃ a, stands value a) :
    ∃ result, Option.Rel stands part result := by
  cases part with
  | none => exact ⟨none, .none⟩
  | some value =>
    obtain ⟨a, ha⟩ := not_not.mp (h value rfl)
    exact ⟨some a, .some ha⟩

end Optional

/-- A value has a flaw as a list of texts exactly if it is none. -/
theorem flawedTexts_iff {value : Json} : FlawedTexts value ↔ ¬∃ texts, GivesTexts value texts := by
  constructor
  · rintro (hsort | ⟨hitem, hwrong⟩) ⟨texts, h⟩
    · exact hsort _ h
    · cases h
      obtain ⟨s, -, rfl⟩ := List.mem_map.mp hitem
      exact hwrong s rfl
  · intro h
    by_contra hsound
    cases value with
    | array items =>
      have hitems : ∀ item ∈ items, item ∈ Set.range Json.text := by
        intro item hitem
        by_contra hwrong
        exact hsound (.item hitem fun s hs => hwrong ⟨s, hs.symm⟩)
      obtain ⟨texts, rfl⟩ : items ∈ Set.range (List.map Json.text) := by
        rw [Set.range_list_map]
        exact hitems
      exact h ⟨texts, rfl⟩
    | _ => exact hsound (.sort (by simp))

/-- A value has a flaw in its choices exactly if it gives none. -/
theorem flawedChoices_iff {value : Json} :
    FlawedChoices value ↔ ¬∃ rules, GivesChoices value rules := by
  constructor
  · rintro hflaw ⟨choices, rfl, hknown⟩
    cases hflaw with
    | sort hsort => exact hsort _ rfl
    | choice hchoice hwrong =>
      obtain ⟨⟨_, on⟩, -, hpair⟩ := List.mem_map.mp hchoice
      cases hpair
      exact hwrong on rfl
    | rule hchoice hunknown =>
      obtain ⟨choice, hmem, hpair⟩ := List.mem_map.mp hchoice
      cases hpair
      rw [hknown choice hmem] at hunknown
      cases hunknown
  · intro h
    by_contra hsound
    cases value with
    | object fields =>
      have hfields : ∀ entry ∈ fields,
          entry ∈ Set.range fun choice : String × Bool => (choice.1, Json.bool choice.2) := by
        rintro ⟨id, value⟩ hentry
        by_contra hwrong
        refine hsound (.choice hentry ?_)
        rintro on rfl
        exact hwrong ⟨(id, on), rfl⟩
      obtain ⟨choices, rfl⟩ : fields ∈ Set.range
          (List.map fun choice : String × Bool => (choice.1, Json.bool choice.2)) := by
        rw [Set.range_list_map]
        exact hfields
      refine h ⟨choices, rfl, ?_⟩
      rintro ⟨id, on⟩ hchoice
      by_contra hunknown
      have hid : isRuleId id = false := by simpa using hunknown
      exact hsound (.rule (List.mem_map_of_mem hchoice) hid)
    | _ => exact hsound (.sort (by simp))

/-- A value has a flaw in what it tells to leave out exactly if it tells nothing. -/
theorem flawedIgnore_iff {value : Json} :
    FlawedIgnore value ↔ ¬∃ ignore, GivesIgnore value ignore := by
  constructor
  · rintro hflaw ⟨ignore, fields, rfl, hfiles⟩
    cases hflaw with
    | sort hsort => exact hsort _ rfl
    | files hfield hwrong => exact flawedTexts_iff.mp hwrong (exists_of_rel hfiles hfield)
  · intro h
    by_contra hsound
    cases value with
    | object fields =>
      obtain ⟨files, hfiles⟩ := exists_rel GivesTexts (fields.lookup "files") fun _ hfield hnone =>
          hsound (.files hfield (flawedTexts_iff.mpr hnone))
      exact h ⟨⟨files⟩, fields, rfl, hfiles⟩
    | _ => exact hsound (.sort (by simp))

/-- The fields of a configuration have no flaw. -/
theorem Describes.not_flawed {fields : List (String × Json)} {c : Config} (h : Describes fields c) :
    ¬Flawed (.object fields) := by
  intro hflaw
  cases hflaw with
  | sort hwrong => exact hwrong _ rfl
  | preset hfield hwrong =>
    obtain ⟨name, hvalue, hname⟩ := exists_of_rel h.preset hfield
    exact hwrong name hname hvalue
  | rules hfield hwrong => exact flawedChoices_iff.mp hwrong (exists_of_rel h.rules hfield)
  | ignore hfield hwrong => exact flawedIgnore_iff.mp hwrong (exists_of_rel h.ignore hfield)
  | entry hfield hwrong => exact flawedTexts_iff.mp hwrong (exists_of_rel h.entry hfield)
  | main hfield hwrong => exact flawedTexts_iff.mp hwrong (exists_of_rel h.main hfield)
  | testRunner hfield hwrong =>
    obtain ⟨runner, hvalue⟩ := exists_of_rel h.testRunner hfield
    exact hwrong runner hvalue
  | verbose hfield hwrong =>
    obtain ⟨on, hvalue⟩ := exists_of_rel h.verbose hfield
    exact hwrong on hvalue

/-- Fields without a flaw give a configuration. -/
theorem exists_describes {fields : List (String × Json)} (h : ¬Flawed (.object fields)) :
    ∃ c, Describes fields c := by
  obtain ⟨preset, hpreset⟩ := exists_rel GivesPreset (fields.lookup "preset") fun _ hfield hnone =>
    h (.preset hfield fun name hname hvalue => hnone ⟨name, hvalue, hname⟩)
  obtain ⟨rules, hrules⟩ := exists_rel GivesChoices (fields.lookup "rules") fun _ hfield hnone =>
    h (.rules hfield (flawedChoices_iff.mpr hnone))
  obtain ⟨ignore, hignore⟩ := exists_rel GivesIgnore (fields.lookup "ignore") fun _ hfield hnone =>
    h (.ignore hfield (flawedIgnore_iff.mpr hnone))
  obtain ⟨entry, hentry⟩ := exists_rel GivesTexts (fields.lookup "entry") fun _ hfield hnone =>
    h (.entry hfield (flawedTexts_iff.mpr hnone))
  obtain ⟨main, hmain⟩ := exists_rel GivesTexts (fields.lookup "main") fun _ hfield hnone =>
    h (.main hfield (flawedTexts_iff.mpr hnone))
  obtain ⟨runner, hrunner⟩ := exists_rel GivesRunner (fields.lookup "testRunner")
    fun _ hfield hnone => h (.testRunner hfield fun runner hvalue => hnone ⟨runner, hvalue⟩)
  obtain ⟨verbose, hverbose⟩ := exists_rel GivesTruth (fields.lookup "verbose")
    fun _ hfield hnone => h (.verbose hfield fun on hvalue => hnone ⟨on, hvalue⟩)
  exact ⟨⟨preset, rules, ignore, entry, main, runner, verbose⟩,
    hpreset, hrules, hignore, hentry, hmain, hrunner, hverbose⟩

/-- A value has a flaw exactly if it is not read. -/
theorem flawed_iff {v : Validator} (hv : v.Documented) {value : Json} :
    Flawed value ↔ ∀ c, read v (some value) ≠ .ok c := by
  constructor
  · intro hflaw c hread
    obtain ⟨fields, rfl, h⟩ := (read_eq_ok_iff hv).mp hread
    exact h.not_flawed hflaw
  · intro h
    by_contra hsound
    cases value with
    | object fields =>
      obtain ⟨c, hc⟩ := exists_describes hsound
      exact h c ((read_eq_ok_iff hv).mpr ⟨fields, rfl, hc⟩)
    | _ => exact hsound (.sort (by simp))

end Config

end PureLint
