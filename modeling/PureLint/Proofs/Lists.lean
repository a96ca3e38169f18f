import Mathlib.Data.List.Nodup
import PureLint.Lookup

/-!
# Lists and attempts

What is needed about lists as such: what filters, splits and joins keep, and lists in which each
item stands once; and about attempts, that they succeed step by step.
-/

namespace PureLint

/-- An attempt in two steps comes to a result where both steps do. -/
theorem bind_eq_ok_iff {ε α β : Type} {x : Except ε α} {f : α → Except ε β} {b : β} :
    x >>= f = .ok b ↔ ∃ a, x = .ok a ∧ f a = .ok b := by
  cases x <;> simp [bind, Except.bind]

/-! ## Entries and names -/

/-- An entry that is found by its key is among the entries. -/
theorem mem_of_lookup {α β : Type} [BEq α] [LawfulBEq α] {key : α} {value : β}
    {entries : List (α × β)} (h : entries.lookup key = some value) : (key, value) ∈ entries := by
  obtain ⟨before, after, rfl, -⟩ := List.lookup_eq_some_iff.mp h
  exact List.mem_append_right _ List.mem_cons_self

/-- Where each key has one entry, the entries found by their keys are all. -/
theorem lookup_eq_some_iff_mem {α β : Type} [BEq α] [LawfulBEq α] {entries : List (α × β)}
    (h : (entries.map Prod.fst).Nodup) {key : α} {value : β} :
    entries.lookup key = some value ↔ (key, value) ∈ entries := by
  refine ⟨mem_of_lookup, fun hmem => ?_⟩
  obtain ⟨before, after, rfl⟩ := List.append_of_mem hmem
  refine List.lookup_eq_some_iff.mpr ⟨before, after, rfl, ?_⟩
  intro entry hentry
  rw [List.map_append, List.nodup_append] at h
  have hne := h.2.2 entry.1 (List.mem_map_of_mem hentry) key List.mem_cons_self
  exact bne_iff_ne.mpr hne.symm

/-- No item goes by a name that is not among the names. -/
theorem filter_name_nil {α : Type} {name : α → String} {items : List α} {id : String}
    (h : id ∉ items.map name) : items.filter (fun other => name other == id) = [] := by
  rw [List.filter_eq_nil_iff]
  intro other hother heq
  apply h
  rw [← beq_iff_eq.mp heq]
  exact List.mem_map_of_mem hother

/-- An item whose name no other has is all there is under its name. -/
theorem filter_name_eq {α : Type} {name : α → String} {items : List α}
    (h : (items.map name).Nodup) {item : α} (hitem : item ∈ items) :
    items.filter (fun other => name other == name item) = [item] := by
  induction items with
  | nil => cases hitem
  | cons first items ih =>
    obtain ⟨hfirst, hitems⟩ := List.nodup_cons.mp h
    rw [List.filter_cons]
    rcases List.mem_cons.mp hitem with rfl | hitem
    · rw [if_pos (beq_self_eq_true _), filter_name_nil hfirst]
    · have hne : ¬(name first == name item) = true := by
        intro heq
        rw [beq_iff_eq.mp heq] at hfirst
        exact hfirst (List.mem_map_of_mem hitem)
      rw [if_neg hne, ih hitems hitem]

/-! ## Items that are kept -/

/-- What is made of items that are not left out is made of the others. -/
theorem filterMap_unless {α β : Type} (out : α → Bool) (f : α → β) (items : List α) :
    (items.filterMap fun a => if out a then none else some (f a)) =
      (items.filter fun a => !out a).map f := by
  induction items with
  | nil => rfl
  | cons a items ih =>
    rw [List.filterMap_cons, ih, List.filter_cons]
    cases out a <;> rfl

/-- What some items make of themselves is what all make, where the others make nothing. -/
theorem flatMap_filter {α β : Type} (p : α → Bool) (f : α → List β) (items : List α) :
    (items.filter p).flatMap f = items.flatMap fun item => if p item then f item else [] := by
  induction items with
  | nil => rfl
  | cons item items ih =>
    rw [List.filter_cons, List.flatMap_cons, ← ih]
    split <;> rfl

/-- Where one item at most makes something of itself, and each makes one thing at most, all items
together do. -/
theorem length_flatMap_le_one {α β : Type} {items : List α} (hitems : items.Nodup)
    {f : α → List β} (hone : ∀ a ∈ items, (f a).length ≤ 1)
    (hunique : ∀ a ∈ items, ∀ b ∈ items, f a ≠ [] → f b ≠ [] → a = b) :
    (items.flatMap f).length ≤ 1 := by
  induction items with
  | nil => exact Nat.zero_le 1
  | cons head items ih =>
    obtain ⟨hhead, hitems⟩ := List.nodup_cons.mp hitems
    rw [List.flatMap_cons]
    by_cases hnone : f head = []
    · rw [hnone, List.nil_append]
      exact ih hitems (fun a ha => hone a (List.mem_cons_of_mem _ ha)) fun a ha b hb =>
        hunique a (List.mem_cons_of_mem _ ha) b (List.mem_cons_of_mem _ hb)
    · have hothers : items.flatMap f = [] := by
        rw [List.flatMap_eq_nil_iff]
        intro a ha
        by_contra hsome
        have heq := hunique head List.mem_cons_self a (List.mem_cons_of_mem _ ha) hnone hsome
        exact hhead (heq ▸ ha)
      rw [hothers, List.append_nil]
      exact hone head List.mem_cons_self

/-- A list of one item at most is an optional item. -/
theorem exists_toList_eq {α : Type} {items : List α} (h : items.length ≤ 1) :
    ∃ item : Option α, items = item.toList := by
  rcases items with _ | ⟨a, _ | ⟨b, rest⟩⟩
  · exact ⟨none, rfl⟩
  · exact ⟨some a, rfl⟩
  · simp at h

/-! ## Lists in parts -/

/-- Some entry of a list and those after it are as asked exactly if the first and the others are, or
some later entry and those after it are. -/
theorem exists_split_cons {α : Type} {p : α → List α → Prop} (a : α) (rest : List α) :
    (∃ before b after, a :: rest = before ++ b :: after ∧ p b after) ↔
      p a rest ∨ ∃ before b after, rest = before ++ b :: after ∧ p b after := by
  constructor
  · rintro ⟨before, b, after, heq, h⟩
    rcases List.cons_eq_append_iff.mp heq with ⟨rfl, hb⟩ | ⟨before, rfl, hrest⟩
    · cases hb
      exact Or.inl h
    · exact Or.inr ⟨before, b, after, hrest, h⟩
  · rintro (h | ⟨before, b, after, rfl, h⟩)
    · exact ⟨[], a, rest, rfl, h⟩
    · exact ⟨a :: before, b, after, rfl, h⟩

/-- Joining two rows of texts puts a mark between the two joined texts. -/
theorem intercalate_append {α : Type} (mark : α) {left right : List (List α)} (hleft : left ≠ [])
    (hright : right ≠ []) :
    [mark].intercalate (left ++ right) =
      [mark].intercalate left ++ mark :: [mark].intercalate right := by
  induction left with
  | nil => exact absurd rfl hleft
  | cons first left ih =>
    cases left with
    | nil => simp [List.intercalate_cons_of_ne_nil hright]
    | cons second left =>
      have htail := ih (List.cons_ne_nil second left)
      rw [List.cons_append, List.cons_append, List.intercalate_cons_cons, ← List.cons_append, htail,
        List.intercalate_cons_cons]
      simp

/-- A name without marks is between two marks of a text, or at an end of it, exactly if the text or
a beginning of it before a mark is the name or ends in a mark and the name. -/
theorem mem_splitOn_iff {α : Type} [BEq α] [LawfulBEq α] {mark : α} {name cs : List α}
    (hname : mark ∉ name) :
    name ∈ cs.splitOn mark ↔
      ∃ upTo, (cs = upTo ∨ ∃ more, cs = upTo ++ mark :: more) ∧
        (upTo = name ∨ ∃ before, upTo = before ++ mark :: name) := by
  have hsplit : name.splitOn mark = [name] := List.splitOn_eq_singleton hname
  have hlast {upTo : List α} (h : upTo = name ∨ ∃ before, upTo = before ++ mark :: name) :
      name ∈ upTo.splitOn mark := by
    rcases h with rfl | ⟨before, rfl⟩
    · rw [hsplit]
      exact List.mem_singleton_self _
    · rw [List.splitOn_append_cons_self, hsplit]
      exact List.mem_append_right _ (List.mem_singleton_self _)
  constructor
  · intro hmem
    obtain ⟨left, right, hparts⟩ := List.append_of_mem hmem
    have hcs : [mark].intercalate (left ++ [name] ++ right) = cs := by
      rw [List.append_assoc, List.singleton_append, ← hparts, List.intercalate_splitOn]
    refine ⟨[mark].intercalate (left ++ [name]), ?_, ?_⟩
    · rcases eq_or_ne right [] with rfl | hright
      · exact Or.inl (by rw [← hcs, List.append_nil])
      · exact Or.inr ⟨_, by rw [← hcs, intercalate_append mark (by simp) hright]⟩
    · rcases eq_or_ne left [] with rfl | hleft
      · exact Or.inl (by simp)
      · refine Or.inr ⟨[mark].intercalate left, ?_⟩
        rw [intercalate_append mark hleft (by simp), List.intercalate_singleton]
  · rintro ⟨upTo, rfl | ⟨more, rfl⟩, h⟩
    · exact hlast h
    · rw [List.splitOn_append_cons_self]
      exact List.mem_append_left _ (hlast h)

/-! ## Items added once -/

section Once

variable {α : Type} [BEq α] [LawfulBEq α]

/-- Adding an item to different items leaves them different. -/
theorem nodup_addOnce {items : List α} (h : items.Nodup) (a : α) : (addOnce a items).Nodup := by
  unfold addOnce
  split
  · exact h
  · rename_i hmem
    rw [← List.concat_eq_append]
    exact h.concat (mt List.contains_iff_mem.mpr hmem)

/-- Items added to a list are there afterwards, as are the items from before. -/
theorem mem_foldl_addOnce {a : α} (added items : List α) :
    a ∈ added.foldl (fun items b => addOnce b items) items ↔ a ∈ items ∨ a ∈ added := by
  induction added generalizing items with
  | nil => simp
  | cons b added ih =>
    rw [List.foldl_cons, ih, mem_addOnce, List.mem_cons, or_assoc, eq_comm]

/-- Adding items to different items leaves them different. -/
theorem nodup_foldl_addOnce {items : List α} (h : items.Nodup) (added : List α) :
    (added.foldl (fun items b => addOnce b items) items).Nodup := by
  induction added generalizing items with
  | nil => exact h
  | cons b added ih => exact ih (nodup_addOnce h b)

end Once

end PureLint
