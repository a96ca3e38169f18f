import Mathlib.Data.List.Induction
import PureLint.Proofs.Survey.Notes

/-!
# Places in tables

A table keeps one place for each of its names. Where a new place replaces an old one, this is the
place of the last item that brings up the name, and where it does not, that of the first. Either way
the names stand in the order in which they first came up.
-/

namespace PureLint

section

variable {α : Type} {items : List α} {p : α → Prop} {a b : α}

/-- An item for which something holds and holds for no item before it. -/
def IsFirst (items : List α) (p : α → Prop) (a : α) : Prop :=
  ∃ before after, items = before ++ a :: after ∧ p a ∧ ∀ earlier ∈ before, ¬p earlier

/-- An item for which something holds and holds for no item after it. -/
def IsLast (items : List α) (p : α → Prop) (a : α) : Prop :=
  ∃ before after, items = before ++ a :: after ∧ p a ∧ ∀ later ∈ after, ¬p later

/-- With one more item at the end, the first is the same, unless there was none. -/
theorem isFirst_concat :
    IsFirst (items ++ [b]) p a ↔ IsFirst items p a ∨ (∀ c ∈ items, ¬p c) ∧ p b ∧ a = b := by
  constructor
  · rintro ⟨before, after, hitems, ha, hbefore⟩
    rcases List.eq_nil_or_concat after with rfl | ⟨middle, last, rfl⟩
    · obtain ⟨rfl, rfl⟩ := List.append_inj' hitems rfl |>.imp id List.singleton_inj.mp
      exact Or.inr ⟨hbefore, ha, rfl⟩
    · have hsplit : items ++ [b] = (before ++ a :: middle) ++ [last] := by
        rw [hitems, List.concat_eq_append, List.append_assoc, List.cons_append]
      exact Or.inl ⟨before, middle, (List.append_inj' hsplit rfl).1, ha, hbefore⟩
  · rintro (⟨before, after, rfl, ha, hbefore⟩ | ⟨hnone, hb, rfl⟩)
    · exact ⟨before, after ++ [b], by simp, ha, hbefore⟩
    · exact ⟨items, [], rfl, hb, hnone⟩

/-- With one more item at the end, that item is the last, or the last is the same. -/
theorem isLast_concat :
    IsLast (items ++ [b]) p a ↔ p b ∧ a = b ∨ ¬p b ∧ IsLast items p a := by
  constructor
  · rintro ⟨before, after, hitems, ha, hafter⟩
    rcases List.eq_nil_or_concat after with rfl | ⟨middle, last, rfl⟩
    · obtain ⟨rfl, rfl⟩ := List.append_inj' hitems rfl |>.imp id List.singleton_inj.mp
      exact Or.inl ⟨ha, rfl⟩
    · have hsplit : items ++ [b] = (before ++ a :: middle) ++ [last] := by
        rw [hitems, List.concat_eq_append, List.append_assoc, List.cons_append]
      obtain ⟨rfl, hlast⟩ := List.append_inj' hsplit rfl
      cases List.singleton_inj.mp hlast
      simp only [List.concat_eq_append, List.mem_append, List.mem_singleton] at hafter
      exact Or.inr ⟨hafter b (Or.inr rfl), before, middle, rfl, ha,
        fun later hlater => hafter later (Or.inl hlater)⟩
  · rintro (⟨hb, rfl⟩ | ⟨hb, before, after, rfl, ha, hafter⟩)
    · exact ⟨items, [], rfl, hb, fun _ h => by cases h⟩
    · refine ⟨before, after ++ [b], by simp, ha, ?_⟩
      intro later hlater
      rcases List.mem_append.mp hlater with hlater | hlater
      · exact hafter later hlater
      · cases List.mem_singleton.mp hlater
        exact hb

end

namespace Names

end Names

namespace NameTable

/-- A table that holds each name for which something holds once, and no other, at its place. -/
structure Lists (table : NameTable) (listed : String → Prop) (placed : String → Span → Prop) :
    Prop where
  nodup : (table.map Prod.fst).Nodup
  mem_iff : ∀ name, name ∈ table.map Prod.fst ↔ listed name
  placed : ∀ name span, (name, span) ∈ table → placed name span

/-- A name has a place in a table without repeated names exactly if it is found there. -/
theorem mem_iff_lookup {table : NameTable} (h : (table.map Prod.fst).Nodup) {name : String}
    {span : Span} : (name, span) ∈ table ↔ table.lookup name = some span := by
  induction table with
  | nil => simp
  | cons entry rest ih =>
    obtain ⟨key, place⟩ := entry
    rw [List.map_cons, List.nodup_cons] at h
    rw [List.mem_cons, lookup_cons_ite, ih h.2, Prod.mk.injEq]
    split
    · rename_i heq
      subst heq
      have hnone : rest.lookup name ≠ some span := by
        intro hsome
        exact h.1 (Names.isSome_lookup_iff.mp (Option.isSome_of_eq_some hsome))
      simp [hnone, eq_comm]
    · rename_i hne
      simp [hne]

/-- A name that is put where it has no place yet is found, and all other names are as before. -/
theorem lookup_putNew (name other : String) (span : Span) (table : NameTable) :
    (putNew name span table).lookup other =
      (table.lookup other).or (if other = name then some span else none) := by
  unfold putNew
  split
  · rename_i hsome
    split
    · rename_i heq
      subst heq
      rw [Option.or_of_isSome hsome]
    · rw [Option.or_none]
  · rw [List.lookup_append, lookup_cons_ite, List.lookup_nil]

/-- The table of several entries, added one after the other. -/
def collect (add : String → Span → NameTable → NameTable) (entries : NameTable) : NameTable :=
  entries.foldl (fun table entry => add entry.1 entry.2 table) []

section

variable {α : Type} (names : α → List String) (place : α → Span) (items : List α)

/-- What items bring up: names, each with the place of its item. -/
def entriesOf : NameTable := items.flatMap fun a => (names a).map fun name => (name, place a)

/-- One more item adds its names after those of the others. -/
theorem collect_entriesOf_concat (add : String → Span → NameTable → NameTable) (a : α) :
    collect add (entriesOf names place (items ++ [a])) =
      (names a).foldl (fun table name => add name (place a) table)
        (collect add (entriesOf names place items)) := by
  rw [entriesOf, List.flatMap_append, collect, List.foldl_append, List.flatMap_singleton,
    List.foldl_map]
  rfl

/-- Among items, one that brings up the first name has none before it that brings up the other. -/
def Precedes (name later : String) : Prop :=
  ∃ before a after, items = before ++ a :: after ∧ name ∈ names a ∧
    ∀ earlier ∈ before, later ∉ names earlier

end

section

variable {α : Type} {names : α → List String} {place : α → Span} {items : List α}

/-- A name precedes another among more items if it does among fewer. -/
theorem Precedes.concat {name later : String} (h : Precedes names items name later) (a : α) :
    Precedes names (items ++ [a]) name later := by
  obtain ⟨before, first, after, rfl, hname, hlater⟩ := h
  exact ⟨before, first, after ++ [a], by simp, hname, hlater⟩

variable {add : String → Span → NameTable → NameTable}
  (hadd : ∀ name span table,
    (add name span table).map Prod.fst = addOnce name (table.map Prod.fst))

include hadd

/-- The names of a table, after several were added to it at one place. -/
theorem keys_foldl (added : List String) (span : Span) (table : NameTable) :
    (added.foldl (fun table name => add name span table) table).map Prod.fst =
      added.foldl (fun keys name => addOnce name keys) (table.map Prod.fst) := by
  induction added generalizing table with
  | nil => rfl
  | cons name added ih => rw [List.foldl_cons, ih, hadd, List.foldl_cons]

/-- Without items a table is empty, and each further item adds its names to those of the table. -/
theorem keys_collect_concat (a : α) :
    (collect add (entriesOf names place (items ++ [a]))).map Prod.fst =
      (names a).foldl (fun keys name => addOnce name keys)
        ((collect add (entriesOf names place items)).map Prod.fst) := by
  rw [collect_entriesOf_concat, keys_foldl hadd]

/-- A table holds the names that its items bring up. -/
theorem mem_keys_collect {name : String} :
    name ∈ (collect add (entriesOf names place items)).map Prod.fst ↔
      ∃ a ∈ items, name ∈ names a := by
  induction items using List.reverseRecOn with
  | nil => simp [collect, entriesOf]
  | append_singleton items a ih =>
    rw [keys_collect_concat hadd, mem_foldl_addOnce, ih]
    simp only [List.mem_append, List.mem_singleton, or_and_right, exists_or, exists_eq_left]

/-- A table holds each name once. -/
theorem nodup_keys_collect : ((collect add (entriesOf names place items)).map Prod.fst).Nodup := by
  induction items using List.reverseRecOn with
  | nil => exact List.nodup_nil
  | append_singleton items a ih =>
    rw [keys_collect_concat hadd]
    exact nodup_foldl_addOnce ih _

end

/-! ## The two ways to keep a place -/

section

variable {α : Type} {names : α → List String} {place : α → Span} {items : List α} {name : String}
  {span : Span}

/-- Where names are put at one place, they have it afterwards. -/
theorem lookup_foldl_put (added : List String) (span : Span) (table : NameTable) (name : String) :
    (added.foldl (fun table name => table.put name span) table).lookup name =
      if name ∈ added then some span else table.lookup name := by
  induction added generalizing table with
  | nil => rfl
  | cons other added ih =>
    rw [List.foldl_cons, ih, lookup_put]
    by_cases hname : name = other <;> by_cases hmem : name ∈ added <;> simp [hname, hmem]

/-- Where names are put at one place if they have none yet, those without one have it afterwards. -/
theorem lookup_foldl_putNew (added : List String) (span : Span) (table : NameTable)
    (name : String) :
    (added.foldl (fun table name => table.putNew name span) table).lookup name =
      (table.lookup name).or (if name ∈ added then some span else none) := by
  induction added generalizing table with
  | nil => simp
  | cons other added ih =>
    rw [List.foldl_cons, ih, lookup_putNew, Option.or_assoc]
    by_cases hname : name = other <;> by_cases hmem : name ∈ added <;> simp [hname, hmem]

/-- **Where a new place replaces an old one, a name has the place of the last item that brings it
up.** -/
theorem mem_collect_put :
    (name, span) ∈ collect put (entriesOf names place items) ↔
      ∃ a, IsLast items (name ∈ names ·) a ∧ span = place a := by
  rw [mem_iff_lookup (nodup_keys_collect Names.keys_put)]
  induction items using List.reverseRecOn with
  | nil => simp [collect, entriesOf, IsLast]
  | append_singleton items a ih =>
    rw [collect_entriesOf_concat, lookup_foldl_put]
    simp only [isLast_concat]
    by_cases hmem : name ∈ names a
    · simp [hmem, eq_comm]
    · simp [hmem, ih]

/-- **Where an old place stays, a name has the place of the first item that brings it up.** -/
theorem mem_collect_putNew :
    (name, span) ∈ collect putNew (entriesOf names place items) ↔
      ∃ a, IsFirst items (name ∈ names ·) a ∧ span = place a := by
  rw [mem_iff_lookup (nodup_keys_collect Names.keys_putNew)]
  induction items using List.reverseRecOn with
  | nil => simp [collect, entriesOf, IsFirst]
  | append_singleton items a ih =>
    have hnone : (collect putNew (entriesOf names place items)).lookup name = none ↔
        ∀ c ∈ items, name ∉ names c := by
      rw [← Option.not_isSome_iff_eq_none, Names.isSome_lookup_iff,
        mem_keys_collect Names.keys_putNew]
      simp
    rw [collect_entriesOf_concat, lookup_foldl_putNew, Option.or_eq_some_iff, ih, hnone]
    simp only [isFirst_concat, or_and_right, exists_or, Option.ite_none_right_eq_some,
      Option.some.injEq]
    refine or_congr_right ⟨?_, ?_⟩
    · rintro ⟨hitems, hmem, rfl⟩
      exact ⟨a, ⟨hitems, hmem, rfl⟩, rfl⟩
    · rintro ⟨_, ⟨hitems, hmem, rfl⟩, rfl⟩
      exact ⟨hitems, hmem, rfl⟩

end

end NameTable

/-! ## The tables at the end of a walk -/

namespace Names

/-- The entries that notes make in a table. -/
def entriesIn (table : Table) (notes : List Note) : NameTable :=
  notes.filterMap fun n => if n.table = table then some (n.name, n.span) else none

/-- The names that a node notes in a table. -/
def namesIn (table : Table) (n : Node) : List String := (entriesIn table (notesAt n)).map Prod.fst

section

variable {table : Table} {add : String → Span → NameTable → NameTable} {kept : Names → NameTable}
  (hkept : ∀ names n, kept (note names n) =
    if n.table = table then add n.name n.span (kept names) else kept names)

include hkept

/-- A table holds the entries that notes make in it, if each note makes its own. -/
theorem foldl_note_eq (notes : List Note) (names : Names) :
    kept (notes.foldl note names) =
      (entriesIn table notes).foldl (fun table entry => add entry.1 entry.2 table)
        (kept names) := by
  induction notes generalizing names with
  | nil => rfl
  | cons n notes ih =>
    rw [List.foldl_cons, ih, hkept]
    by_cases h : n.table = table <;> simp [entriesIn, h]

/-- From fresh names on, a table holds the entries that all nodes make in it. -/
theorem foldl_notesAt_eq (hfresh : kept {} = []) (visits : List Visit) :
    kept ((visits.flatMap fun visit => notesAt visit.node).foldl note {}) =
      NameTable.collect add (visits.flatMap fun visit => entriesIn table (notesAt visit.node)) := by
  rw [foldl_note_eq hkept, hfresh, entriesIn, List.filterMap_flatMap]
  rfl

end

end Names

namespace Survey

variable (program : Node)

/-- What the walk over a program has noted at its end is what its nodes note. -/
theorem tabled_ofProgram :
    Names.Tabled
      ((program.visits.flatMap fun visit => Names.notesAt visit.node).foldl Names.note {})
      ((Survey.ofProgram program).run program.events).names :=
  tabled_run (Survey.ofProgram program) program.events

/-- The declared names at the end: each has the first of its places. -/
theorem declared_ofProgram :
    ((Survey.ofProgram program).run program.events).names.declared =
      NameTable.collect NameTable.putNew
        (program.visits.flatMap fun visit =>
          Names.entriesIn .declared (Names.notesAt visit.node)) := by
  rw [(tabled_ofProgram program).declared]
  apply Names.foldl_notesAt_eq _ rfl
  rintro names ⟨_ | _ | _ | _ | _, name, span⟩ <;> rfl

/-- The imported names at the end: each has the last of its places. -/
theorem imported_ofProgram :
    ((Survey.ofProgram program).run program.events).names.imported =
      NameTable.collect NameTable.put
        (program.visits.flatMap fun visit =>
          Names.entriesIn .imported (Names.notesAt visit.node)) := by
  rw [(tabled_ofProgram program).imported]
  apply Names.foldl_notesAt_eq _ rfl
  rintro names ⟨_ | _ | _ | _ | _, name, span⟩ <;> rfl

end Survey

end PureLint
