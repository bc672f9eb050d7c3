import Symforge.Edit.BatchExecutors
import Symforge.Edit.WholeIdentifiers
/-!
# Renaming by splices

The ranges that `validate_rename_ranges` leaves lie apart and come from the back of the file to its
front, so that the splice loop of `execute_batch_rename` replaces all of them at once.
-/

namespace Symforge.Edit

open Library List

/-- What a successful validation leaves of the candidate `ranges`. -/
structure RenamesAll (content name : Bytes) (ranges kept : List (Nat × Nat)) : Prop where
  /-- Every candidate in bounds whose bytes are the name is left, and nothing else. -/
  exact : ∀ range, range ∈ kept ↔ range ∈ ranges ∧ range.1 < range.2 ∧
    range.2 ≤ content.length ∧ (content.take range.2).drop range.1 = name
  /-- The ranges are distinct, descending and pairwise disjoint. -/
  descending : kept.Pairwise fun left right => right.1 < left.1 ∧ right.2 ≤ left.1
  /-- The splice loop puts the new name in their place and keeps every other byte. -/
  substituted : ∀ work : RenameWork, spliceRanges { work with ranges := kept } content =
    simultaneous content (kept.map fun range => ⟨range.1, range.2, work.newName⟩) fun _ => false

/-- Two different candidates that both spell the name share a byte. -/
def MatchesOverlap (content name : Bytes) (ranges : List (Nat × Nat)) : Prop :=
  ∃ left ∈ ranges, ∃ right ∈ ranges, left ≠ right ∧ spells content name left = true ∧
    spells content name right = true ∧ left.1 < right.2 ∧ right.1 < left.2

variable {content name : Bytes} {kept : List (Nat × Nat)}

/-- Ranges behind each other are equal. -/
theorem rangeAfter_antisymm (left right : Nat × Nat) (first : rangeAfter left right)
    (second : rangeAfter right left) : left = right := by
  unfold rangeAfter at first second
  exact Prod.ext (by omega) (by omega)

instance : IsTrans (Nat × Nat) rangeAfter where
  trans first second third := by
    unfold rangeAfter
    omega

instance : Std.Total rangeAfter where
  total left right := by
    unfold rangeAfter
    omega

/-- Where no neighbours overlap, a range ends in front of every earlier one. -/
theorem descending_of_neighbours (nonempty : ∀ range ∈ kept, range.1 < range.2)
    (apart : overlappingNeighbours kept = none) :
    kept.Pairwise fun left right => right.1 < left.1 ∧ right.2 ≤ left.1 := by
  induction kept with
  | nil => exact .nil
  | cons previous rest ih =>
    cases rest with
    | nil => exact pairwise_singleton _ _
    | cons current rest =>
      unfold overlappingNeighbours at apart
      split at apart
      · cases apart
      have tail := ih (fun range member => nonempty _ (mem_cons_of_mem _ member)) apart
      have filled := nonempty _ (mem_cons_of_mem _ mem_cons_self)
      refine pairwise_cons.mpr ⟨fun range member => ?_, tail⟩
      rcases mem_cons.mp member with rfl | later
      · omega
      have below := (pairwise_cons.mp tail).1 _ later
      omega

/-- Neighbours that overlap are related as all pairs of the list are. -/
theorem overlappingNeighbours_some {Related : Nat × Nat → Nat × Nat → Prop}
    {current previous : Nat × Nat} (related : kept.Pairwise Related)
    (found : overlappingNeighbours kept = some (current, previous)) :
    previous ∈ kept ∧ current ∈ kept ∧ Related previous current ∧ previous.1 < current.2 := by
  fun_induction overlappingNeighbours kept with
  | case1 _ _ _ shared =>
    cases found
    have next := (pairwise_cons.mp related).1 _ mem_cons_self
    exact ⟨mem_cons_self, mem_cons_of_mem _ mem_cons_self, next, shared⟩
  | case2 _ _ _ _ ih =>
    obtain ⟨high, low, after, shared⟩ := ih (pairwise_cons.mp related).2 found
    exact ⟨mem_cons_of_mem _ high, mem_cons_of_mem _ low, after, shared⟩
  | case3 => cases found

/-- Splices from the back to the front, after those of `done`, are all of them at once. -/
theorem foldl_applySplice (text : Bytes)
    (descending : kept.Pairwise fun left right => right.1 < left.1 ∧ right.2 ≤ left.1)
    (within : ∀ range ∈ kept, range.1 < range.2 ∧ range.2 ≤ content.length)
    (done : List (Splice UInt8))
    (ahead : ∀ range ∈ kept, ∀ edit ∈ done, range.2 ≤ edit.start ∧ range.1 < edit.start) :
    kept.foldl (fun spliced range => applySplice spliced range text)
        (simultaneous content done fun _ => false) =
      simultaneous content ((kept.map fun range => ⟨range.1, range.2, text⟩).reverse ++ done)
        fun _ => false := by
  induction kept generalizing done with
  | nil => rfl
  | cons range rest ih =>
    obtain ⟨later, descendingRest⟩ := pairwise_cons.mp descending
    have bounds := within _ mem_cons_self
    have carried : applySplice (simultaneous content done fun _ => false) range text =
        simultaneous content (⟨range.1, range.2, text⟩ :: done) fun _ => false :=
      splice_simultaneous bounds.1.le bounds.2 (ahead _ mem_cons_self)
        fun _ _ => rfl
    rw [foldl_cons, carried, ih descendingRest, map_cons, reverse_cons,
      append_assoc, singleton_append]
    · exact fun other member => within _ (mem_cons_of_mem _ member)
    exact fun other member => forall_mem_cons.mpr
      ⟨(later _ member).symm, ahead _ (mem_cons_of_mem _ member)⟩

/-- A rename replaces simultaneously: where the validation succeeds, the occurrences among the
candidates give way to the new name all at once; where it fails, two of them overlap. -/
theorem validateRenameRanges_simultaneous (ranges : List (Nat × Nat)) (original oldName : Bytes)
    (filePath : String) :
    match validateRenameRanges ranges original oldName filePath with
    | .ok kept => RenamesAll original oldName ranges kept
    | .error _ => MatchesOverlap original oldName ranges := by
  cases validated : validateRenameRanges ranges original oldName filePath with
  | ok kept =>
    have member : ∀ range, range ∈ kept ↔ range ∈ ranges ∧ range.1 < range.2 ∧
        range.2 ≤ original.length ∧ (original.take range.2).drop range.1 = oldName := by
      intro range
      rw [mem_validated validated, spells, Bool.and_eq_true, decide_eq_true_eq, beq_iff_eq,
        and_assoc]
    have within : ∀ range ∈ kept, range.1 < range.2 ∧ range.2 ≤ original.length := by
      intro range inKept
      obtain ⟨-, ordered, bounded, -⟩ := (member range).mp inKept
      exact ⟨ordered, bounded⟩
    have descending : kept.Pairwise fun left right => right.1 < left.1 ∧ right.2 ≤ left.1 := by
      refine descending_of_neighbours (fun range inKept => (within _ inKept).1) ?_
      unfold validateRenameRanges at validated
      dsimp only at validated
      split at validated
      · cases validated
      cases validated
      assumption
    refine ⟨member, descending, fun work => ?_⟩
    have folded := foldl_applySplice work.newName descending within [] nofun
    rw [simultaneous, removeFrom_eq_self 0 fun _ _ => rfl, append_nil] at folded
    refine folded.trans (simultaneous_perm (reverse_perm _) ?_)
    rw [pairwise_reverse, pairwise_map]
    exact descending.imp fun apart => by dsimp only; omega
  | error fault =>
    unfold validateRenameRanges at validated
    dsimp only at validated
    split at validated
    swap
    · cases validated
    rename_i start stop otherStart otherStop found
    have sorted := pairwise_insertionSort rangeAfter ranges
    have strict := pairwise_dedupAdjacent rangeAfter_antisymm sorted
    obtain ⟨high, low, ⟨after, different⟩, shared⟩ :=
      overlappingNeighbours_some (strict.filter _) found
    rw [mem_filter, mem_dedupAdjacent, mem_insertionSort] at high low
    refine ⟨_, high.1, _, low.1, different, high.2, low.2, shared, ?_⟩
    have filled := high.2
    unfold spells at filled
    rw [Bool.and_eq_true, decide_eq_true_eq] at filled
    unfold rangeAfter at after
    omega

end Symforge.Edit
