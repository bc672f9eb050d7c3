import Mathlib.Data.List.AList
import Mathlib.Algebra.BigOperators.Group.List.Basic
import Mathlib.Algebra.Ring.Nat
/-!
# Finite maps and their sums

A table is a finite map. Its total adds up a weight of every row, so that replacing, adding or
removing one row changes the total by the weight of that row. A map of which only lookups matter
is a function to `Option`, changed at one key.
-/

namespace Symforge.Library

open List AList Function

variable {Key Value : Type}

section Maps

variable [DecidableEq Key] {map : Key → Option Value} {key other : Key} {value found : Value}

/-- What is found after a value is put. -/
theorem update_some_eq_some :
    update map key (some value) other = some found ↔
      (other = key ∧ found = value) ∨ (other ≠ key ∧ map other = some found) := by
  by_cases same : other = key
  · subst same
    simp [eq_comm]
  · simp [same]

/-- What is found after a value is taken. -/
theorem update_none_eq_some :
    update map key none other = some found ↔ other ≠ key ∧ map other = some found := by
  by_cases same : other = key
  · subst same
    simp
  · simp [same]

/-- What holds of the new entry and of those before holds of every entry after. -/
theorem forall_update_some {holds : Key → Value → Prop} (new : holds key value)
    (others : ∀ key value, map key = some value → holds key value) (other : Key) (found : Value)
    (looked : update map key (some value) other = some found) : holds other found := by
  obtain ⟨rfl, rfl⟩ | ⟨-, before⟩ := update_some_eq_some.mp looked
  · exact new
  · exact others _ _ before

/-- Entries with one mark stay at one key, if no other entry has the mark of the new one. -/
theorem update_some_injective {Mark : Type} {mark : Value → Mark}
    (injective : ∀ first second one other, map first = some one → map second = some other →
      mark one = mark other → first = second)
    (fresh : ∀ other found, other ≠ key → map other = some found → mark found ≠ mark value)
    (first second : Key) (one other : Value)
    (firstLooked : update map key (some value) first = some one)
    (secondLooked : update map key (some value) second = some other)
    (same : mark one = mark other) : first = second := by
  obtain ⟨rfl, rfl⟩ | ⟨firstApart, firstStored⟩ := update_some_eq_some.mp firstLooked
  · obtain ⟨rfl, -⟩ | ⟨secondApart, secondStored⟩ := update_some_eq_some.mp secondLooked
    · rfl
    · exact absurd same.symm (fresh _ _ secondApart secondStored)
  · obtain ⟨rfl, rfl⟩ | ⟨-, secondStored⟩ := update_some_eq_some.mp secondLooked
    · exact absurd same (fresh _ _ firstApart firstStored)
    · exact injective _ _ _ _ firstStored secondStored same

end Maps

/-- A finite map from keys to values. -/
abbrev Table (Key Value : Type) : Type := AList fun _ : Key => Value

namespace Table

/-- Sum of a weight over all rows. -/
def total (weight : Key → Value → Nat) (table : Table Key Value) : Nat :=
  (table.entries.map fun row => weight row.1 row.2).sum

variable [DecidableEq Key] {weight : Key → Value → Nat} {table : Table Key Value} {key : Key}
  {value : Value}

/-- Insertion puts one value. -/
theorem lookup_insert (other : Key) :
    (table.insert key value).lookup other =
      update (fun key => table.lookup key) key (some value) other := by
  by_cases same : other = key
  · subst same
    rw [lookup_insert, update_self]
  · rw [lookup_insert_ne same, update_of_ne same]

/-- Erasure takes one value. -/
theorem lookup_erase (other : Key) :
    (table.erase key).lookup other =
      update (fun key => table.lookup key) key none other := by
  by_cases same : other = key
  · subst same
    rw [lookup_erase, update_self]
  · rw [lookup_erase_ne same, update_of_ne same]

/-- What is found after an insertion. -/
theorem lookup_insert_iff {other : Key} {found : Value} :
    (table.insert key value).lookup other = some found ↔
      (other = key ∧ found = value) ∨ (other ≠ key ∧ table.lookup other = some found) := by
  rw [lookup_insert, update_some_eq_some]

/-- What is found after an erasure. -/
theorem lookup_erase_iff {other : Key} {found : Value} :
    (table.erase key).lookup other = some found ↔
      other ≠ key ∧ table.lookup other = some found := by
  rw [lookup_erase, update_none_eq_some]

/-- What holds for the new row and the others. -/
theorem forall_insert {holds : Key → Value → Prop} (new : holds key value)
    (others : ∀ key value, table.lookup key = some value → holds key value) (other : Key)
    (found : Value) (looked : (table.insert key value).lookup other = some found) :
    holds other found := by
  rw [lookup_insert] at looked
  exact forall_update_some new others _ _ looked

/-- A row found under a key stands next to the rows of the other keys. -/
theorem total_eq_add_erase (found : table.lookup key = some value) :
    total weight table = weight key value + total weight (table.erase key) := by
  have member : key ∈ table.entries.keys := by
    rw [← AList.keys, ← AList.mem_keys, ← AList.lookup_isSome, found]
    rfl
  obtain ⟨held, before, after, -, split, erased⟩ := exists_of_kerase member
  have looked : table.lookup key = some held := by
    apply mem_lookup_iff.mpr
    rw [split]
    exact mem_append_right _ mem_cons_self
  have same : held = value := Option.some.inj (looked.symm.trans found)
  subst same
  unfold total
  rw [show (table.erase key).entries = before ++ after from erased, split]
  simp only [map_append, map_cons, sum_append, sum_cons]
  omega

/-- The total counts the new row for the old. -/
theorem total_insert :
    total weight (table.insert key value) =
      weight key value + total weight (table.erase key) := by
  unfold total
  rw [entries_insert, map_cons, sum_cons]
  rfl

/-- A row under a new key adds its weight. -/
theorem total_insert_of_absent (absent : table.lookup key = none) :
    total weight (table.insert key value) = weight key value + total weight table := by
  have unchanged : (table.erase key).entries = table.entries :=
    kerase_of_notMem_keys (lookup_eq_none.mp absent)
  rw [total_insert]
  unfold total
  rw [unchanged]

/-- Replacing a row by one of the same weight keeps the total. -/
theorem total_insert_of_same {old : Value} (found : table.lookup key = some old)
    (same : weight key value = weight key old) :
    total weight (table.insert key value) = total weight table := by
  rw [total_insert, total_eq_add_erase found, same]

/-- The total of rows without weight is zero. -/
theorem total_eq_zero (weightless : ∀ key value, table.lookup key = some value →
    weight key value = 0) : total weight table = 0 := by
  apply sum_eq_zero
  intro amount listed
  obtain ⟨row, member, rfl⟩ := mem_map.mp listed
  exact weightless row.1 row.2 (mem_lookup_iff.mpr member)

end Table

end Symforge.Library
