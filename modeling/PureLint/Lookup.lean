/-!
# Lists of entries

Tables of a file are lists of keys with entries, in which the first entry of a key counts. Where
only the keys matter they are kept in plain lists, and these are asked whether a key is among them.
Both keep the order in which keys first came up.
-/

namespace PureLint

/-- The first entry of a list answers for its own key, and the others for all other keys. -/
theorem lookup_cons_ite {α β : Type} [DecidableEq α] (key other : α) (value : β)
    (entries : List (α × β)) :
    ((other, value) :: entries).lookup key =
      if key = other then some value else entries.lookup key := by
  rw [List.lookup_cons]
  by_cases h : key = other
  · simp [h]
  · simp [beq_false_of_ne h, h]

/-- A list of entries with a new entry for a key, made from the old one. A key keeps its place, and
a new one comes last. -/
def updateEntry {α β : Type} [BEq α] (key : α) (change : Option β → β) :
    List (α × β) → List (α × β)
  | [] => [(key, change none)]
  | (other, old) :: rest =>
    if key == other then (other, change (some old)) :: rest
    else (other, old) :: updateEntry key change rest

/-- The changed key has its new entry, and all other keys are as before. -/
theorem lookup_updateEntry {α β : Type} [DecidableEq α] (key other : α) (change : Option β → β)
    (entries : List (α × β)) :
    (updateEntry key change entries).lookup other =
      if other = key then some (change (entries.lookup key)) else entries.lookup other := by
  induction entries with
  | nil => simp [updateEntry, lookup_cons_ite]
  | cons entry rest ih =>
    obtain ⟨first, old⟩ := entry
    rw [updateEntry]
    by_cases hfirst : key = first
    · subst hfirst
      rw [if_pos (beq_self_eq_true key)]
      by_cases hother : other = key <;> simp [lookup_cons_ite, hother]
    · rw [if_neg (by simpa using hfirst), lookup_cons_ite, ih, lookup_cons_ite,
        lookup_cons_ite, if_neg hfirst]
      by_cases hother : other = first
      · simp [hother, Ne.symm hfirst]
      · simp [hother]

/-- An entry after a change is the changed one, or was there before. -/
theorem eq_or_mem_of_mem_updateEntry {α β : Type} [DecidableEq α] {key : α}
    {change : Option β → β} {entries : List (α × β)} {entry : α × β}
    (h : entry ∈ updateEntry key change entries) :
    (∃ old, entry = (key, change old)) ∨ entry ∈ entries := by
  induction entries with
  | nil => exact Or.inl ⟨none, List.mem_singleton.mp h⟩
  | cons first rest ih =>
    rw [updateEntry] at h
    split at h
    · rename_i hkey
      rcases List.mem_cons.mp h with rfl | hrest
      · exact Or.inl ⟨some first.2, by rw [← eq_of_beq hkey]⟩
      · exact Or.inr (List.mem_cons_of_mem _ hrest)
    · rcases List.mem_cons.mp h with rfl | hrest
      · exact Or.inr List.mem_cons_self
      · exact (ih hrest).imp_right (List.mem_cons_of_mem _)

/-- A list with an item added to its end, unless it is there already. -/
def addOnce {α : Type} [BEq α] (a : α) (items : List α) : List α :=
  if items.contains a then items else items ++ [a]

/-- An item is in the list after another was added if it was before or is the other. -/
theorem mem_addOnce {α : Type} [BEq α] [LawfulBEq α] (a b : α) (items : List α) :
    b ∈ addOnce a items ↔ b ∈ items ∨ a = b := by
  unfold addOnce
  split
  · rename_i h
    constructor
    · exact Or.inl
    · rintro (hb | rfl)
      · exact hb
      · exact List.contains_iff_mem.mp h
  · simp [eq_comm]

/-- The keys after a change are those from before and the changed one. -/
theorem map_fst_updateEntry {α β : Type} [DecidableEq α] (key : α) (change : Option β → β)
    (entries : List (α × β)) :
    (updateEntry key change entries).map Prod.fst = addOnce key (entries.map Prod.fst) := by
  unfold addOnce
  induction entries with
  | nil => rfl
  | cons entry rest ih =>
    rw [updateEntry]
    by_cases h : key = entry.1
    · simp [h]
    · rw [if_neg (by simpa using h), List.map_cons, ih, List.map_cons, List.contains_cons,
        beq_false_of_ne h, Bool.false_or]
      split <;> rfl

/-- Two lists answer alike for what is among the items of both or of neither. -/
theorem contains_congr {α : Type} [BEq α] [LawfulBEq α] {items others : List α} {a : α}
    (h : a ∈ items ↔ a ∈ others) : items.contains a = others.contains a := by
  rw [Bool.eq_iff_iff, List.contains_iff_mem, List.contains_iff_mem, h]

end PureLint
