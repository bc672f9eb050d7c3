import Mathlib.Data.List.Basic
/-!
# Lists of keys and values

`groupByKey` collects the items of each key, in the order in which they come, as a loop over a map
from keys to lists does; `dedupAdjacent` drops repetitions that stand next to each other.
-/

namespace Symforge.Library

open List

variable {Key Item : Type}

/-- The item is in the group of the key. -/
def InGroup (groups : List (Key × List Item)) (key : Key) (item : Item) : Prop :=
  ∃ items, (key, items) ∈ groups ∧ item ∈ items

/-- An item is in the first group or in another. -/
theorem inGroup_cons (group : Key × List Item) (groups : List (Key × List Item)) (key : Key)
    (item : Item) :
    InGroup (group :: groups) key item ↔
      (key = group.1 ∧ item ∈ group.2) ∨ InGroup groups key item := by
  constructor
  · rintro ⟨items, member, inItems⟩
    rcases mem_cons.mp member with rfl | later
    · exact .inl ⟨rfl, inItems⟩
    · exact .inr ⟨items, later, inItems⟩
  · rintro (⟨rfl, inItems⟩ | ⟨items, later, inItems⟩)
    · exact ⟨group.2, mem_cons_self, inItems⟩
    · exact ⟨items, mem_cons_of_mem _ later, inItems⟩

section Groups

variable [DecidableEq Key]

/-- Appends an item to the group of its key. -/
def pushGroup (key : Key) (item : Item) : List (Key × List Item) → List (Key × List Item)
  | [] => [(key, [item])]
  | group :: rest =>
    if group.1 = key then (group.1, group.2 ++ [item]) :: rest
    else group :: pushGroup key item rest

/-- The items by their key, in order. -/
def groupByKey (pairs : List (Key × Item)) : List (Key × List Item) :=
  pairs.foldl (fun groups pair => pushGroup pair.1 pair.2 groups) []

variable (pairs : List (Key × Item)) (key : Key) (item : Item) (groups : List (Key × List Item))
  (other : Key)

/-- One item is added to one group. -/
theorem inGroup_pushGroup (found : Item) :
    InGroup (pushGroup key item groups) other found ↔
      InGroup groups other found ∨ (other = key ∧ found = item) := by
  induction groups with
  | nil => simp [pushGroup, InGroup]
  | cons group rest ih =>
    unfold pushGroup
    split
    · rename_i same
      rw [inGroup_cons, inGroup_cons, mem_append, mem_singleton, ← same]
      tauto
    · rw [inGroup_cons, inGroup_cons, ih]
      tauto

/-- The groups hold exactly the pairs of the list. -/
theorem inGroup_groupByKey : InGroup (groupByKey pairs) key item ↔ (key, item) ∈ pairs := by
  have collected : ∀ groups : List (Key × List Item),
      InGroup (pairs.foldl (fun groups pair => pushGroup pair.1 pair.2 groups) groups) key item ↔
        InGroup groups key item ∨ (key, item) ∈ pairs := by
    induction pairs with
    | nil => intro groups; simp
    | cons pair rest ih =>
      intro groups
      rw [foldl_cons, ih, inGroup_pushGroup, mem_cons, Prod.ext_iff]
      tauto
  have none_yet : ¬ InGroup ([] : List (Key × List Item)) key item := by
    rintro ⟨items, member, -⟩
    cases member
  exact (collected []).trans (or_iff_right none_yet)

/-- Its key is the only new one. -/
theorem mem_keys_pushGroup :
    other ∈ (pushGroup key item groups).map Prod.fst ↔
      other ∈ groups.map Prod.fst ∨ other = key := by
  induction groups with
  | nil => simp [pushGroup]
  | cons group rest ih =>
    unfold pushGroup
    split
    · rename_i same
      simp only [map_cons, mem_cons, same]
      tauto
    · simp only [map_cons, mem_cons, ih]
      tauto

/-- The keys stay distinct. -/
theorem nodup_keys_pushGroup {key : Key} {item : Item} {groups : List (Key × List Item)}
    (distinct : (groups.map Prod.fst).Nodup) :
    ((pushGroup key item groups).map Prod.fst).Nodup := by
  induction groups with
  | nil => simp [pushGroup]
  | cons group rest ih =>
    obtain ⟨fresh, distinctRest⟩ := nodup_cons.mp distinct
    unfold pushGroup
    split
    · exact distinct
    rename_i other
    refine nodup_cons.mpr ⟨?_, ih distinctRest⟩
    rw [mem_keys_pushGroup]
    rintro (inRest | same)
    · exact fresh inRest
    · exact other same

/-- Every key has one group. -/
theorem nodup_keys_groupByKey : ((groupByKey pairs).map Prod.fst).Nodup := by
  have collected : ∀ groups : List (Key × List Item), (groups.map Prod.fst).Nodup →
      ((pairs.foldl (fun groups pair => pushGroup pair.1 pair.2 groups) groups).map
        Prod.fst).Nodup := by
    induction pairs with
    | nil => exact fun _ distinct => distinct
    | cons pair rest ih => exact fun groups distinct => ih _ (nodup_keys_pushGroup distinct)
  exact collected [] nodup_nil

/-- Where the keys are distinct, a key has the value it is listed with. -/
theorem lookup_of_mem {entries : List (Key × Item)} {key : Key} {item : Item}
    (distinct : (entries.map Prod.fst).Nodup) (member : (key, item) ∈ entries) :
    entries.lookup key = some item := by
  obtain ⟨before, after, rfl⟩ := append_of_mem member
  rw [map_append, nodup_append] at distinct
  refine lookup_eq_some_iff.mpr ⟨_, _, rfl, ?_⟩
  intro entry inBefore
  have apart := distinct.2.2 entry.1 (mem_map_of_mem inBefore) _ mem_cons_self
  exact bne_iff_ne.mpr apart.symm

end Groups

section Dedup

variable [DecidableEq Item]

/-- `Vec::dedup`. -/
def dedupAdjacent : List Item → List Item
  | [] => []
  | [item] => [item]
  | first :: second :: rest =>
    if first = second then dedupAdjacent (second :: rest)
    else first :: dedupAdjacent (second :: rest)

/-- Only repetitions are dropped. -/
theorem mem_dedupAdjacent (items : List Item) (item : Item) :
    item ∈ dedupAdjacent items ↔ item ∈ items := by
  fun_induction dedupAdjacent items with
  | case1 => rfl
  | case2 => rfl
  | case3 first rest ih =>
    simp only [ih, mem_cons]
    tauto
  | case4 first second rest _ ih => rw [mem_cons, ih, ← mem_cons]

/-- In an ordered list equal items are neighbours, so that none is left twice. -/
theorem pairwise_dedupAdjacent {before : Item → Item → Prop} {items : List Item}
    (antisymmetric : ∀ left right, before left right → before right left → left = right)
    (ordered : items.Pairwise before) :
    (dedupAdjacent items).Pairwise fun left right => before left right ∧ left ≠ right := by
  fun_induction dedupAdjacent items with
  | case1 => exact .nil
  | case2 => exact pairwise_singleton _ _
  | case3 first rest ih => exact ih (pairwise_cons.mp ordered).2
  | case4 first second rest different ih =>
    obtain ⟨ahead, orderedRest⟩ := pairwise_cons.mp ordered
    refine pairwise_cons.mpr ⟨fun item member => ?_, ih orderedRest⟩
    rw [mem_dedupAdjacent] at member
    refine ⟨ahead _ member, ?_⟩
    rintro rfl
    rcases mem_cons.mp member with same | later
    · exact different same
    exact different (antisymmetric _ _ (ahead _ mem_cons_self)
      ((pairwise_cons.mp orderedRest).1 _ later))

end Dedup

end Symforge.Library
