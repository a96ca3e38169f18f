import PureLint.Config.Load
import PureLint.Proofs.Config.Shape

/-!
# Loading all or nothing

The configuration of a project is taken from one file, as a whole or not at all. A text that spells
no value, and a value with a flaw anywhere, are told in one warning and leave the configuration
empty. What is loaded could be written down and would be read as the same configuration again. Only
a file that is there and cannot be read makes loading fail.
-/

namespace PureLint

namespace Config

/-- The value that a project gives as its configuration, with the file where it stands: all of the
configuration file or, where there is none, the section for it in the package file. -/
inductive Supplies (d : Directory) : String → Json → Prop where
  | file {text : String} {value : Json} (htext : d.read fileName = .ok (some text))
    (hvalue : Json.parse? text.toList = some value) : Supplies d fileName value
  | package {text : String} {fields : List (String × Json)} {value : Json}
    (hfile : d.read fileName = .ok none) (htext : d.read packageName = .ok (some text))
    (hwhole : Json.parse? text.toList = some (.object fields))
    (hvalue : fields.lookup sectionName = some value) : Supplies d packageName value

/-- The text in which a project gives its configuration spells no value. -/
inductive Garbled (d : Directory) : String → Prop where
  | file {text : String} (htext : d.read fileName = .ok (some text))
    (hvalue : Json.parse? text.toList = none) : Garbled d fileName
  | package {text : String} (hfile : d.read fileName = .ok none)
    (htext : d.read packageName = .ok (some text)) (hvalue : Json.parse? text.toList = none) :
    Garbled d packageName

/-- What a project gives as its configuration cannot be read: the configuration file or, where there
is none, the package file. -/
inductive Unreadable (d : Directory) : ReadError → Prop where
  | file {e : ReadError} (hfile : d.read fileName = .error e) : Unreadable d e
  | package {e : ReadError} (hfile : d.read fileName = .ok none)
    (hpackage : d.read packageName = .error e) : Unreadable d e

/-- A loaded configuration is one that some fields give, and it is empty where it was warned of
anything, which is at most once. -/
structure WellFormed (loaded : LoadedConfig) : Prop where
  describes : ∃ fields, Describes fields loaded.config
  warnings : loaded.warnings.length ≤ 1
  empty : loaded.warnings ≠ [] → loaded.config = {}

/-- The empty configuration is what no fields give. -/
theorem describes_empty : Describes [] {} := ⟨.none, .none, .none, .none, .none, .none, .none⟩

/-- What is empty is well-formed with one warning at most. -/
theorem wellFormed_empty {warnings : List String} (h : warnings.length ≤ 1) :
    WellFormed { warnings := warnings } :=
  ⟨⟨[], describes_empty⟩, h, fun _ => rfl⟩

variable {v : Validator} (hv : v.Documented)

include hv

section Accept

variable (source : String) {value : Json}

/-- A value with a flaw is told, and nothing of it is taken over. -/
theorem accept_of_flawed (h : Flawed value) :
    ∃ issues, read v (some value) = .error issues ∧
      accept v source value = { warnings := [issueWarning source issues] } := by
  unfold accept
  cases hread : read v (some value) with
  | error issues => exact ⟨issues, rfl, rfl⟩
  | ok c => exact absurd hread ((flawed_iff hv).mp h c)

/-- A value without a flaw is taken over as it is. -/
theorem accept_of_not_flawed (h : ¬Flawed value) :
    ∃ fields c, value = .object fields ∧ Describes fields c ∧
      accept v source value = { config := c } := by
  simp only [flawed_iff hv, ne_eq, not_forall, not_not] at h
  obtain ⟨c, hread⟩ := h
  obtain ⟨fields, rfl, hdescribes⟩ := (read_eq_ok_iff hv).mp hread
  exact ⟨fields, c, rfl, hdescribes, by rw [accept, hread]⟩

/-- What is made of a value is well-formed. -/
theorem wellFormed_accept : WellFormed (accept v source value) := by
  by_cases hflaw : Flawed value
  · obtain ⟨issues, -, haccept⟩ := accept_of_flawed hv source hflaw
    rw [haccept]
    exact wellFormed_empty le_rfl
  · obtain ⟨fields, c, -, hdescribes, haccept⟩ := accept_of_not_flawed hv source hflaw
    rw [haccept]
    exact ⟨⟨fields, hdescribes⟩, Nat.zero_le 1, fun h => absurd rfl h⟩

end Accept

/-- The section for the configuration is the field of its name, in an object. -/
theorem packageSection?_eq_some_iff {whole value : Json} :
    packageSection? v whole = some value ↔
      ∃ fields, whole = .object fields ∧ fields.lookup sectionName = some value := by
  have hany : Decides (fun _ value => .ok value) fun value (a : Json) => value = a := by
    intro path value a
    simp
  have hread (part : Option Json) :
      v.object (fun path fields => readField path fields sectionName fun _ value => .ok value) []
        whole = .ok part ↔
          ∃ fields, whole = .object fields ∧ fields.lookup sectionName = part := by
    rw [hv.object]
    refine exists_congr fun fields => and_congr_right fun _ => ?_
    rw [hany.field]
    cases fields.lookup sectionName <;> cases part <;> simp
  rw [packageSection?]
  rw [← hread (some value)]
  split <;> simp_all

section Load

variable {d : Directory}

omit hv in
/-- Loading fails where what the project gives cannot be read, and only there. -/
theorem load_eq_error_iff {e : ReadError} : load v d = .error e ↔ Unreadable d e := by
  constructor
  · intro h
    cases hfile : d.read fileName with
    | error other =>
      rw [load, hfile] at h
      cases h
      exact .file hfile
    | ok text? =>
      cases text? with
      | some text =>
        rw [load, hfile] at h
        cases h
      | none =>
        cases hpackage : d.read packageName with
        | error other =>
          simp only [load, hfile, hpackage, bind, Except.bind] at h
          cases h
          exact .package hfile hpackage
        | ok text? =>
          simp only [load, hfile, hpackage, bind, Except.bind] at h
          cases text? <;> cases h
  · rintro (hfile | ⟨hfile, hpackage⟩)
    · simp only [load, hfile, bind, Except.bind]
    · simp only [load, hfile, hpackage, bind, Except.bind]

omit hv in
/-- A text that spells no value is told, and nothing is taken over. -/
theorem load_of_garbled {source : String} (h : Garbled d source) :
    load v d = .ok { warnings := [parseWarning source] } := by
  cases h with
  | file htext hvalue => simp [load, htext, ofFile, hvalue, bind, Except.bind, pure, Except.pure]
  | package hfile htext hvalue =>
    simp [load, hfile, htext, ofPackage, hvalue, bind, Except.bind, pure, Except.pure]

/-- The value that a project supplies is taken over. -/
theorem load_of_supplies {source : String} {value : Json} (h : Supplies d source value) :
    load v d = .ok (accept v source value) := by
  cases h with
  | file htext hvalue => simp [load, htext, ofFile, hvalue, bind, Except.bind, pure, Except.pure]
  | package hfile htext hwhole hvalue =>
    have hsection := (packageSection?_eq_some_iff hv).mpr ⟨_, rfl, hvalue⟩
    simp [load, hfile, htext, ofPackage, hwhole, hsection, bind, Except.bind, pure, Except.pure]

/-- Where the project gives nothing, the configuration is empty. -/
theorem load_of_nothing (hreadable : ∀ e, ¬Unreadable d e) (hclear : ∀ source, ¬Garbled d source)
    (hnone : ∀ source value, ¬Supplies d source value) : load v d = .ok {} := by
  cases hfile : d.read fileName with
  | error e => exact absurd (.file hfile) (hreadable e)
  | ok text? =>
    cases text? with
    | some text =>
      cases hvalue : Json.parse? text.toList with
      | none => exact absurd (.file hfile hvalue) (hclear fileName)
      | some value => exact absurd (.file hfile hvalue) (hnone fileName value)
    | none =>
      cases hpackage : d.read packageName with
      | error e => exact absurd (.package hfile hpackage) (hreadable e)
      | ok text? =>
        cases text? with
        | none => simp [load, hfile, hpackage, bind, Except.bind, pure, Except.pure]
        | some text =>
          cases hwhole : Json.parse? text.toList with
          | none => exact absurd (.package hfile hpackage hwhole) (hclear packageName)
          | some whole =>
            have hsection : packageSection? v whole = none := by
              rw [Option.eq_none_iff_forall_ne_some]
              intro value hvalue
              obtain ⟨fields, rfl, hlookup⟩ := (packageSection?_eq_some_iff hv).mp hvalue
              exact hnone packageName value (.package hfile hpackage hwhole hlookup)
            simp [load, hfile, hpackage, ofPackage, hwhole, hsection, bind, Except.bind, pure,
              Except.pure]

/-- What is loaded is well-formed. -/
theorem wellFormed_of_load {loaded : LoadedConfig} (h : load v d = .ok loaded) :
    WellFormed loaded := by
  by_cases hsupplies : ∃ source value, Supplies d source value
  · obtain ⟨source, value, hsupplies⟩ := hsupplies
    rw [load_of_supplies hv hsupplies] at h
    cases h
    exact wellFormed_accept hv _
  · by_cases hgarbled : ∃ source, Garbled d source
    · obtain ⟨source, hgarbled⟩ := hgarbled
      rw [load_of_garbled hgarbled] at h
      cases h
      exact wellFormed_empty le_rfl
    · have hreadable : ∀ e, ¬Unreadable d e := by
        intro e he
        rw [load_eq_error_iff.mpr he] at h
        cases h
      simp only [not_exists] at hsupplies hgarbled
      rw [load_of_nothing hv hreadable hgarbled hsupplies] at h
      cases h
      exact wellFormed_empty (Nat.zero_le 1)

end Load

omit hv in
/-- The choices of a configuration are about rules that exist. -/
theorem Describes.isRuleId {fields : List (String × Json)} {c : Config} (h : Describes fields c) :
    ∀ choice ∈ c.rules.getD [], isRuleId choice.1 = true := by
  have hrules := h.rules
  generalize fields.lookup "rules" = value, c.rules = rules at hrules ⊢
  cases hrules with
  | none => exact List.forall_mem_nil _
  | some h => exact h.2

/-- **A configuration is loaded all or nothing**, unless it cannot be read. Loading fails exactly if
the configuration file is there and cannot be read, or there is none and the package file is there
and cannot be read. Else there is one warning at most, and with a warning the configuration is
empty. A text that spells no value is told. A value that is supplied is told if it has a flaw,
however deep, and else the configuration is just what the value gives, without a warning; and where
nothing is given it is empty. Whatever is loaded is read as the same again from the value that is
written for it, and it has choices about existing rules only. Where there is a configuration file,
nothing else counts. -/
theorem load_allOrNothing (d : Directory) :
    (∀ e, load v d = .error e ↔ Unreadable d e) ∧
    (∀ loaded, load v d = .ok loaded →
      loaded.warnings.length ≤ 1 ∧ (loaded.warnings ≠ [] → loaded.config = {}) ∧
      read v (some loaded.config.toJson) = .ok loaded.config ∧
      ∀ choice ∈ loaded.config.rules.getD [], isRuleId choice.1 = true) ∧
    (∀ source, Garbled d source → load v d = .ok { warnings := [parseWarning source] }) ∧
    (∀ source value, Supplies d source value →
      (Flawed value → ∃ issues, read v (some value) = .error issues ∧
        load v d = .ok { config := {}, warnings := [issueWarning source issues] }) ∧
      (¬Flawed value → ∃ fields c, value = .object fields ∧ Describes fields c ∧
        load v d = .ok { config := c, warnings := [] })) ∧
    ((∀ e, ¬Unreadable d e) → (∀ source, ¬Garbled d source) →
      (∀ source value, ¬Supplies d source value) → load v d = .ok {}) ∧
    ∀ e : Directory, d.read fileName ≠ .ok none → e.read fileName = d.read fileName →
      load v e = load v d := by
  refine ⟨fun _ => load_eq_error_iff, ?_, fun _ => load_of_garbled, ?_, load_of_nothing hv, ?_⟩
  · intro loaded hloaded
    obtain ⟨⟨fields, hdescribes⟩, hwarnings, hempty⟩ := wellFormed_of_load hv hloaded
    exact ⟨hwarnings, hempty, (read_eq_ok_iff hv).mpr hdescribes.written, hdescribes.isRuleId⟩
  · intro source value hsupplies
    rw [load_of_supplies hv hsupplies]
    constructor
    · intro hflaw
      obtain ⟨issues, hread, haccept⟩ := accept_of_flawed hv source hflaw
      exact ⟨issues, hread, congrArg Except.ok haccept⟩
    · intro hsound
      obtain ⟨fields, c, hvalue, hdescribes, haccept⟩ :=
        accept_of_not_flawed hv source hsound
      exact ⟨fields, c, hvalue, hdescribes, congrArg Except.ok haccept⟩
  · intro e hthere hsame
    cases hfile : d.read fileName with
    | error other => simp only [load, hsame, hfile, bind, Except.bind]
    | ok text? =>
      cases text? with
      | none => exact absurd hfile hthere
      | some text => simp only [load, hsame, hfile, bind, Except.bind]

omit hv

/-- A project whose configuration file holds `{"preset":"relaxed","entry":["a.ts",1]}`, beside a
package file with a configuration. -/
def flawedEntry : Directory :=
  { files := [
    (fileName, "\x7b\"preset\":\"relaxed\",\"entry\":[\"a.ts\",1]\x7d"),
    (packageName, "\x7b\"purets\":\x7b\"verbose\":true\x7d\x7d")] }

/-- The second entry is no text. This is told, and neither the preset nor anything of the package
file is taken over. -/
theorem load_allOrNothing_flawedEntry :
    let v := Validator.keeping fun _ => true
    let value : Json := .object [("preset", .text "relaxed"),
      ("entry", .array [.text "a.ts", .number (.int 1)])]
    v.Documented ∧ Supplies flawedEntry fileName value ∧ Flawed value ∧
      ∃ issues, load v flawedEntry =
        .ok { config := {}, warnings := [issueWarning fileName issues] } := by
  intro v value
  have hv : v.Documented := Validator.documented_keeping fun _ => rfl
  have hsupplies : Supplies flawedEntry fileName value := .file rfl rfl
  have hnumber : Json.number (.int 1) ∈ [.text "a.ts", .number (.int 1)] :=
    List.mem_cons_of_mem _ List.mem_cons_self
  have hflaw : Flawed value := .entry rfl (.item hnumber (by simp))
  obtain ⟨-, -, -, htold, -, -⟩ := load_allOrNothing hv flawedEntry
  obtain ⟨issues, -, hload⟩ := (htold fileName value hsupplies).1 hflaw
  exact ⟨hv, hsupplies, hflaw, issues, hload⟩

/-- A project with a file in a directory that goes by the name of the configuration file. -/
def fileNameTaken : Directory := { files := [(fileName ++ "/notes.txt", "")] }

/-- The directory is read as if it were the configuration file, which fails. -/
theorem load_fileNameTaken : load .standard fileNameTaken = .error .isDirectory := rfl

end Config

end PureLint
