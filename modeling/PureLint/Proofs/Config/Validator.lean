import Mathlib.Data.List.Forall2
import Mathlib.Data.Option.Basic
import PureLint.Config.Validator

/-!
# What is documented of validators

A validator is used by what is documented of its readings: which values each accepts, and what they
are read as. Whether a record keeps an entry under every name is part of that. The validators that
there are differ in just this, and the one that keeps all entries is as documented.
-/

namespace PureLint

namespace Config

namespace Checked

variable {α β : Type}

/-- What a reading becomes is a result exactly if the reading comes to one. -/
theorem map_eq_ok_iff {f : α → β} {reading : Checked α} {b : β} :
    reading.map f = .ok b ↔ ∃ a, reading = .ok a ∧ f a = b := by
  cases reading <;> simp [Except.map]

/-- All readings come to results exactly if each does. -/
theorem all_eq_ok_iff {readings : List (Checked α)} {results : List α} :
    all readings = .ok results ↔ readings = results.map .ok := by
  induction readings generalizing results with
  | nil => cases results <;> simp [all]
  | cons reading readings ih =>
    rw [all, map_eq_ok_iff]
    constructor
    · rintro ⟨⟨a, others⟩, hboth, rfl⟩
      obtain ⟨rfl, hothers⟩ := both_eq_ok_iff.mp hboth
      rw [ih.mp hothers, List.map_cons]
    · intro h
      cases results with
      | nil => cases h
      | cons a others =>
        obtain ⟨rfl, rfl⟩ := List.cons.inj h
        exact ⟨(a, others), both_eq_ok_iff.mpr ⟨rfl, ih.mpr rfl⟩, rfl⟩

end Checked

/-- A way of reading comes to just those results for which the value stands. -/
def Decides {α : Type} (read : Reader α) (stands : Json → α → Prop) : Prop :=
  ∀ path value a, read path value = .ok a ↔ stands value a

/-- A list stands for an array item by item. -/
def StandsItemwise {α : Type} (stands : Json → α → Prop) (value : Json) (results : List α) : Prop :=
  ∃ items, value = .array items ∧ List.Forall₂ stands items results

/-- A list of entries stands for an object entry by entry. -/
def StandsEntrywise {α : Type} (stands : Json → α → Prop) (value : Json)
    (results : List (String × α)) : Prop :=
  ∃ fields, value = .object fields ∧
    List.Forall₂ (fun field result => field.1 = result.1 ∧ stands field.2 result.2) fields results

/-- What is documented of a validator: which values each of its readings accepts, and what they are
read as. In particular a record keeps all its entries. -/
structure Validator.Documented (v : Validator) : Prop where
  text : Decides v.text fun value s => value = .text s
  truth : Decides v.truth fun value on => value = .bool on
  option (options : List String) :
    Decides (v.option options) fun value name => value = .text name ∧ name ∈ options
  array {α : Type} {item : Reader α} {stands : Json → α → Prop} :
    Decides item stands → Decides (v.array item) (StandsItemwise stands)
  record {α : Type} {entry : Reader α} {stands : Json → α → Prop} :
    Decides entry stands → Decides (v.record entry) (StandsEntrywise stands)
  object {α : Type} (known : List Step → List (String × Json) → Checked α) (path : List Step)
    (value : Json) (a : α) :
    v.object known path value = .ok a ↔ ∃ fields, value = .object fields ∧ known path fields = .ok a

section Readings

variable {α : Type} {read : Reader α} {stands : Json → α → Prop}

/-- What need not be there is read as nothing where it is not there. -/
theorem Decides.optional (h : Decides read stands) (path : List Step) (value : Option Json)
    (result : Option α) :
    Checked.optional (read path) value = .ok result ↔ Option.Rel stands value result := by
  cases value with
  | none => cases result <;> simp [Checked.optional]
  | some value =>
    rw [Checked.optional, Checked.map_eq_ok_iff]
    cases result with
    | none => simp
    | some a => simp [h path value a]

/-- Items are read one by one. -/
theorem Decides.items (h : Decides read stands) (place : Nat → List Step) (items : List Json)
    (results : List α) :
    (items.mapIdx fun index item => read (place index) item) = results.map .ok ↔
      List.Forall₂ stands items results := by
  induction items generalizing place results with
  | nil => cases results <;> simp
  | cons item items ih =>
    cases results with
    | nil => simp
    | cons a results =>
      rw [List.mapIdx_cons, List.map_cons, List.cons.injEq, List.forall₂_cons, h,
        ih fun index => place (index + 1)]

/-- Texts are read as they are. -/
theorem decides_readText : Decides readText fun value s => value = .text s := by
  intro path value s
  cases value <;> simp [readText, Checked.fail]

/-- Truth values are read as they are. -/
theorem decides_readBool : Decides readBool fun value on => value = .bool on := by
  intro path value on
  cases value <;> simp [readBool, Checked.fail]

/-- An option is read if it is among the options. -/
theorem decides_readOption (options : List String) :
    Decides (readOption options) fun value name => value = .text name ∧ name ∈ options := by
  intro path value name
  cases value with
  | text s =>
    simp only [readOption, List.contains_iff_mem, Json.text.injEq]
    split
    · rename_i hs
      rw [Except.ok.injEq]
      exact ⟨fun h => ⟨h, h ▸ hs⟩, fun h => h.1⟩
    · rename_i hs
      exact ⟨fun h => by simp [Checked.fail] at h, fun h => absurd (h.1 ▸ h.2) hs⟩
  | _ => simp [readOption, Checked.fail]

/-- A list is read item by item. -/
theorem decides_readArray (h : Decides read stands) :
    Decides (readArray read) (StandsItemwise stands) := by
  intro path value results
  cases value with
  | array items =>
    rw [readArray, Checked.all_eq_ok_iff, h.items fun index => path ++ [Step.item index]]
    simp [StandsItemwise]
  | _ => simp [readArray, StandsItemwise, Checked.fail]

/-- An object is read entry by entry, where all entries are kept. -/
theorem decides_readRecord {keeps : String → Bool} (hkeeps : ∀ name, keeps name = true)
    (h : Decides read stands) :
    Decides (readRecord keeps read) (StandsEntrywise stands) := by
  intro path value results
  have hall (results : List (String × α)) :
      (results.filter fun result => keeps result.1) = results := by
    simp [hkeeps]
  cases value with
  | object fields =>
    simp only [readRecord, Checked.map_eq_ok_iff, Checked.all_eq_ok_iff, hall, exists_eq_right,
      StandsEntrywise, Json.object.injEq, exists_eq_left']
    rw [← List.forall₂_eq_eq_eq, List.forall₂_map_left_iff, List.forall₂_map_right_iff]
    have hentry (field : String × Json) (result : String × α) :
        (read (path ++ [.key field.1]) field.2).map (fun a => (field.1, a)) = .ok result ↔
          field.1 = result.1 ∧ stands field.2 result.2 := by
      rw [Checked.map_eq_ok_iff]
      constructor
      · rintro ⟨a, hread, rfl⟩
        exact ⟨rfl, (h _ _ _).mp hread⟩
      · rintro ⟨hname, hstands⟩
        exact ⟨result.2, (h _ _ _).mpr hstands, Prod.ext hname rfl⟩
    simp only [hentry]
  | _ => simp [readRecord, StandsEntrywise, Checked.fail]

/-- A validator is as documented if its records keep all entries. -/
theorem Validator.documented_keeping {keeps : String → Bool} (h : ∀ name, keeps name = true) :
    (Validator.keeping keeps).Documented where
  text := decides_readText
  truth := decides_readBool
  option := decides_readOption
  array := decides_readArray
  record := decides_readRecord h
  object known path value a := by
    cases value <;> simp [keeping, readObject, Checked.fail]

end Readings

end Config

end PureLint
