import Mathlib.Data.List.Sort
import Mathlib.Data.List.TakeWhile
import Symforge.Library.Grouping

/-!
# Sorted lists without repetitions

`binarySearch` is the search of a sorted slice: the position of an item, or the position where it
would be inserted. Insertion and removal by it keep a strictly increasing list strictly increasing
and change the membership of the one item.
-/

namespace Symforge.Library

open List

/-- Insertion between two parts. -/
theorem insertIdx_length_append {Item : Type} (before after : List Item) (item : Item) :
    (before ++ after).insertIdx before.length item = before ++ item :: after := by
  induction before with
  | nil => rfl
  | cons first rest ih => rw [cons_append, length_cons, insertIdx_succ_cons, ih, cons_append]

variable {Item : Type} [LinearOrder Item] (list : List Item) (item : Item)

/-- `slice::binary_search`: the position of the item, or where it can be inserted. -/
def binarySearch : Except Nat Nat :=
  let position := (list.takeWhile (· < item)).length
  if list[position]? = some item then .ok position else .error position

/-- Inserts an item that the search does not find. -/
def insertSorted : List Item :=
  match binarySearch list item with
  | .ok _ => list
  | .error position => list.insertIdx position item

/-- Removes an item that the search finds. -/
def removeSorted : List Item :=
  match binarySearch list item with
  | .ok position => list.eraseIdx position
  | .error _ => list

variable {list : List Item} {item : Item}

/-- The first item that is not smaller. -/
theorem getElem?_takeWhile_length :
    list[(list.takeWhile (· < item)).length]? = (list.dropWhile (· < item)).head? := by
  calc list[(list.takeWhile (· < item)).length]?
      = (list.takeWhile (· < item) ++ list.dropWhile (· < item))[
          (list.takeWhile (· < item)).length]? := by rw [takeWhile_append_dropWhile]
    _ = (list.dropWhile (· < item)).head? := by
      rw [getElem?_append_right le_rfl, Nat.sub_self, head?_eq_getElem?]

/-- The search splits the list at the item. -/
theorem binarySearch_ok {position : Nat} (found : binarySearch list item = .ok position) :
    ∃ before after, list = before ++ item :: after ∧ position = before.length := by
  unfold binarySearch at found
  dsimp only at found
  rw [getElem?_takeWhile_length] at found
  split at found
  · rename_i here
    cases found
    obtain ⟨after, rest⟩ := head?_eq_some_iff.mp here
    refine ⟨list.takeWhile (· < item), after, ?_, rfl⟩
    rw [← rest, takeWhile_append_dropWhile]
  · cases found

section Sorted

variable (sorted : list.Pairwise (· < ·))

include sorted

/-- Where the item is not found, everything in front is less and everything behind greater. -/
theorem binarySearch_error {position : Nat} (missed : binarySearch list item = .error position) :
    ∃ before after, list = before ++ after ∧ position = before.length ∧
      (∀ other ∈ before, other < item) ∧ ∀ other ∈ after, item < other := by
  unfold binarySearch at missed
  dsimp only at missed
  rw [getElem?_takeWhile_length] at missed
  split at missed
  · cases missed
  rename_i absent
  cases missed
  refine ⟨list.takeWhile (· < item), list.dropWhile (· < item),
    takeWhile_append_dropWhile.symm, rfl, ?_, ?_⟩
  · intro other early
    have smaller := mem_takeWhile_imp early
    exact of_decide_eq_true smaller
  · have suffixSorted : (list.dropWhile (· < item)).Pairwise (· < ·) :=
      sorted.sublist (dropWhile_sublist _)
    cases rest : list.dropWhile (· < item) with
    | nil => nofun
    | cons first after =>
      have least : ¬ first < item := by
        have stops := head?_dropWhile_not (· < item) list
        rw [rest] at stops
        simpa using stops
      rw [rest] at absent suffixSorted
      have behind : item < first := by
        refine lt_of_le_of_ne (not_lt.mp least) ?_
        rintro rfl
        exact absent rfl
      exact forall_mem_cons.mpr ⟨behind, fun other later =>
        behind.trans (rel_of_pairwise_cons suffixSorted later)⟩

/-- The search finds the items of the list. -/
theorem binarySearch_isOk_iff : (binarySearch list item).isOk = true ↔ item ∈ list := by
  cases search : binarySearch list item with
  | ok position =>
    obtain ⟨before, after, rfl, -⟩ := binarySearch_ok search
    simp [Except.isOk, Except.toBool]
  | error position =>
    obtain ⟨before, after, rfl, -, less, greater⟩ := binarySearch_error sorted search
    constructor
    · nofun
    intro member
    rcases mem_append.mp member with early | late
    · exact absurd (less _ early) (lt_irrefl _)
    · exact absurd (greater _ late) (lt_irrefl _)

/-- Insertion adds the item. -/
theorem mem_insertSorted {other : Item} :
    other ∈ insertSorted list item ↔ other = item ∨ other ∈ list := by
  unfold insertSorted
  split
  · rename_i position found
    obtain ⟨before, after, rfl, -⟩ := binarySearch_ok found
    constructor
    · exact Or.inr
    rintro (rfl | member)
    · exact mem_append_right _ mem_cons_self
    · exact member
  · rename_i position missed
    obtain ⟨before, after, rfl, rfl, -⟩ := binarySearch_error sorted missed
    rw [insertIdx_length_append]
    simp only [mem_append, mem_cons]
    tauto

/-- Insertion keeps the list sorted. -/
theorem insertSorted_sorted : (insertSorted list item).Pairwise (· < ·) := by
  unfold insertSorted
  split
  · exact sorted
  rename_i position missed
  obtain ⟨before, after, rfl, rfl, less, greater⟩ := binarySearch_error sorted missed
  obtain ⟨beforeSorted, afterSorted, across⟩ := pairwise_append.mp sorted
  rw [insertIdx_length_append]
  refine pairwise_append.mpr ⟨beforeSorted,
    pairwise_cons.mpr ⟨greater, afterSorted⟩, fun first early => ?_⟩
  exact forall_mem_cons.mpr ⟨less _ early, across _ early⟩

/-- Removal drops the item. -/
theorem mem_removeSorted {other : Item} :
    other ∈ removeSorted list item ↔ other ∈ list ∧ other ≠ item := by
  unfold removeSorted
  split
  · rename_i position found
    obtain ⟨before, after, rfl, rfl⟩ := binarySearch_ok found
    obtain ⟨-, afterSorted, across⟩ := pairwise_append.mp sorted
    have apart : ∀ one ∈ before ++ after, one ≠ item := forall_mem_append.mpr
      ⟨fun one early => (across _ early _ mem_cons_self).ne,
        fun one late => (rel_of_pairwise_cons afterSorted late).ne'⟩
    rw [eraseIdx_append_of_length_le le_rfl, Nat.sub_self, eraseIdx_cons_zero]
    have here := apart other
    simp only [mem_append, mem_cons] at here ⊢
    tauto
  · rename_i position missed
    constructor
    · intro member
      refine ⟨member, ?_⟩
      rintro rfl
      have found := (binarySearch_isOk_iff sorted).mpr member
      rw [missed] at found
      cases found
    · exact And.left

/-- Removal keeps the list sorted. -/
theorem removeSorted_sorted : (removeSorted list item).Pairwise (· < ·) := by
  unfold removeSorted
  split
  · exact sorted.sublist (eraseIdx_sublist _ _)
  · exact sorted

end Sorted

/-- Dropping the repetitions of a sorted list leaves it strictly increasing. -/
theorem dedupAdjacent_sorted (sorted : list.Pairwise (· ≤ ·)) :
    (dedupAdjacent list).Pairwise (· < ·) := by
  have apart := pairwise_dedupAdjacent (fun _ _ => le_antisymm) sorted
  exact apart.imp fun different => lt_of_le_of_ne different.1 different.2

end Symforge.Library
