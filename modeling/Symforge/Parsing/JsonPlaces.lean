import Mathlib.Algebra.BigOperators.Group.List.Basic
import Symforge.Parsing.JsonSearch

/-!
# The entries of JSON containers

Where the members and items of a strict JSON document stand, what a parser reads from them, and how
many symbols they have.
-/

namespace Symforge.Parsing.Json

open List Layout Placed

variable {decode : Bytes → String} {content : Bytes} {shape : Shape} {depth offset : Nat}

/-! ### Placed entries -/

/-- The entries lie inside their container. -/
theorem mem_place_bounds {entries : Layout (.entries shape)} {entry : Placed shape}
    (member : entry ∈ entries.place offset) :
    offset ≤ entry.start ∧ entry.stop ≤ offset + entries.text.length := by
  induction entries using entries_induction generalizing offset with
  | done => cases member
  | entry before label value after rest ih =>
    rw [place_entry, mem_cons] at member
    rcases member with rfl | later
    · simp only [stop, valueStart, text, length_append]
      omega
    have inside := ih later
    simp only [stop, valueStart, text, length_append] at inside ⊢
    omega

variable (entries : Layout (.entries shape))

/-- Entries stand one behind the other. -/
theorem place_pairwise (offset : Nat) : (entries.place offset).Pairwise (·.stop < ·.start) := by
  induction entries using entries_induction generalizing offset with
  | done => exact List.Pairwise.nil
  | entry before label value after rest ih =>
    rw [place_entry, pairwise_cons]
    refine ⟨fun later isLater => ?_, ih _⟩
    have behind := (mem_place_bounds isLater).1
    cases rest with
    | done => cases isLater
    | entry =>
      simp only [comma, length_singleton] at behind
      omega

/-- The entries of a container stand where they are placed. -/
theorem place_stands {entries : Layout (.entries shape)} {behind : Bytes}
    (standsAt : content.drop offset = entries.text ++ behind) (ends : EndsScalar behind) :
    ∀ entry ∈ entries.place offset, entry.Stands content := by
  induction entries using entries_induction generalizing offset with
  | done =>
    intro entry member
    cases member
  | entry before label value after rest ih =>
    simp only [text, append_assoc] at standsAt
    have placedAt := drop_behind standsAt
    rw [place_entry, forall_mem_cons]
    refine ⟨⟨_, placedAt, ends.entry _ _⟩, ih ?_⟩
    exact drop_behind (drop_behind (drop_behind (drop_behind placedAt)))

/-- Kept members are members. -/
theorem keptMembers_sublist (decode : Bytes → String) (members : List (Placed .object)) :
    (keptMembers decode members).Sublist members :=
  pwFilter_sublist _

/-- What a parser reads from an entry. -/
def Placed.read (decode : Bytes → String) {shape : Shape} (entry : Placed shape) : String × Value :=
  (entry.key decode, entry.value.denote decode)

/-- The placed entries are what the parser gets. -/
theorem denote_entries :
    (entries.denote decode : List (String × Value)) =
      (entries.place offset).map (Placed.read decode) := by
  induction entries using entries_induction generalizing offset with
  | done => rfl
  | entry before label value after rest ih =>
    rw [place_entry, map_cons, ← ih]
    rfl

/-- So are the first items of an array. -/
theorem denote_items (entries : Layout (.entries .array)) (offset : Nat) :
    ((entries.denote decode : List (String × Value)).map (·.2)).take maxArrayItems =
      ((entries.place offset).take maxArrayItems).map fun item => item.value.denote decode := by
  rw [denote_entries _, map_map, ← map_take]
  rfl

/-- The map of an object holds the members that are kept. -/
theorem buildMap_perm (entries : Layout (.entries .object)) (offset : Nat) :
    (buildMap (entries.denote decode)).Perm
      ((keptMembers decode (entries.place offset)).map (Placed.read decode)) := by
  have kept : (entries.denote decode : List (String × Value)).pwFilter (·.1 ≠ ·.1) =
      (keptMembers decode (entries.place offset)).map (read decode) := by
    rw [denote_entries _]
    exact pwFilter_map _ _
  unfold buildMap
  rw [kept]
  exact perm_insertionSort _ _

/-! ### The order of spans -/

/-- Spans from a depth on, between two offsets, at each depth disjoint and in order. -/
structure SpansWithin (depth lower upper : Nat) (spans : List KeySpan) : Prop where
  within : ∀ span ∈ spans, depth ≤ span.depth ∧ lower ≤ span.range.1 ∧ span.range.2 ≤ upper
  ordered : spans.Pairwise fun first second =>
    first.depth = second.depth → first.range.2 ≤ second.range.1

/-- No spans are within any bounds. -/
theorem spansWithin_nil (lower upper : Nat) : SpansWithin depth lower upper [] :=
  ⟨fun _ inside => (not_mem_nil inside).elim, List.Pairwise.nil⟩

/-- The spans of an entry are within the entry. -/
theorem Placed.spansWithin {entry : Placed shape} {name : String}
    {inner : Layout .value → String → Nat → List KeySpan}
    (within : SpansWithin (depth + 1) entry.valueStart entry.stop
      (inner entry.value name entry.valueStart)) :
    SpansWithin depth entry.start entry.stop (entry.spans name depth inner) where
  within := by
    have starts : entry.start ≤ entry.valueStart := Nat.le_add_right _ _
    refine forall_mem_cons.mpr ⟨⟨le_rfl, le_rfl, le_rfl⟩, ?_⟩
    intro span inside
    obtain ⟨deeper, lower, upper⟩ := within.within _ inside
    exact ⟨by omega, by omega, upper⟩
  ordered := by
    refine pairwise_cons.mpr ⟨fun span inside sameDepth => ?_, within.ordered⟩
    have deeper := (within.within _ inside).1
    simp only at sameDepth
    omega

/-- The spans of entries that stand one behind the other. -/
theorem SpansWithin.flatMap {Item : Type} {lower upper : Nat} {items : List Item}
    {placed : Item → Placed shape} {spans : Item → List KeySpan} (within : ∀ item ∈ items,
      SpansWithin depth (placed item).start (placed item).stop (spans item))
    (apart : items.Pairwise fun one other => (placed one).stop < (placed other).start)
    (inside : ∀ item ∈ items, lower ≤ (placed item).start ∧ (placed item).stop ≤ upper) :
    SpansWithin depth lower upper (items.flatMap spans) where
  within := by
    intro span isSpan
    obtain ⟨item, isItem, ofItem⟩ := mem_flatMap.mp isSpan
    obtain ⟨deeper, after, before⟩ := (within _ isItem).within _ ofItem
    obtain ⟨afterLower, beforeUpper⟩ := inside _ isItem
    exact ⟨deeper, by omega, by omega⟩
  ordered := by
    refine pairwise_flatMap.mpr ⟨fun item isItem => (within _ isItem).ordered, ?_⟩
    refine apart.imp_of_mem fun isOne isOther before first isFirst second isSecond _ => ?_
    have ends := ((within _ isOne).within _ isFirst).2.2
    have starts := ((within _ isOther).within _ isSecond).2.1
    omega

/-- Members and items of one depth are disjoint and in document order. -/
theorem ownSpans_within (levels depth : Nat) (value : Layout .value) (path : String)
    (offset : Nat) :
    SpansWithin depth offset (offset + value.text.length)
      (ownSpans decode levels depth value path offset) := by
  induction levels generalizing depth value path offset with
  | zero => cases value <;> exact spansWithin_nil _ _
  | succ levels ih =>
    cases value with
    | scalar text | string body => exact spansWithin_nil _ _
    | container shape blank entries =>
      have inside : ∀ entry ∈ entries.place (offset + 1 + blank.val.length),
          offset ≤ entry.start ∧ entry.stop ≤
            offset + (container shape blank entries).text.length := by
        intro entry isEntry
        have bounds := mem_place_bounds isEntry
        simp only [text, length_append, length_cons]
        omega
      cases shape with
      | array =>
        refine SpansWithin.flatMap (fun item _ => spansWithin (ih _ _ _ _)) ?_
          (fun item isItem => inside item.1 (mem_of_mem_take (fst_mem_of_mem_zipIdx isItem)))
        have apart := ((place_pairwise entries (offset + 1 + blank.val.length)).sublist
          (take_sublist maxArrayItems _))
        rw [← zipIdx_map_fst 0 (List.take _ _), pairwise_map] at apart
        exact apart
      | object =>
        have kept := keptMembers_sublist decode (entries.place (offset + 1 + blank.val.length))
        exact SpansWithin.flatMap (fun member _ => spansWithin (ih _ _ _ _))
          ((place_pairwise _ _).sublist kept)
          (fun member isMember => inside _ (kept.mem isMember))

/-! ### The number of symbols -/

/-- How many symbols a value has, for so many levels. -/
def spanCount : Nat → Value → Nat
  | levels + 1, .array items =>
    ((items.take maxArrayItems).map fun item => spanCount levels item + 1).sum
  | levels + 1, .object entries => (entries.map fun entry => spanCount levels entry.2 + 1).sum
  | _, _ => 0

section Lengths

variable {descend : Descent} {count : Value → Nat}
  (counts : ∀ value path range, (descend value path range).length = count value) {path : String}

include counts

/-- As many spans as the items count. -/
theorem length_itemSpans {ranges : List (Nat × Nat)} {range : Nat × Nat} {index : Nat}
    (items : List Value) :
    (itemSpans ranges path range depth descend index items).length =
      (items.map fun item => count item + 1).sum := by
  induction items generalizing index with
  | nil => rfl
  | cons item rest ih =>
    simp only [itemSpans, length_cons, length_append, counts, ih, map_cons, sum_cons]
    omega

/-- As many spans as the members count. -/
theorem length_memberSpans {stop cursor : Nat} (entries : List Ordered) :
    (memberSpans content path stop depth descend cursor entries).length =
      (entries.map fun entry => count entry.value + 1).sum := by
  induction entries generalizing cursor with
  | nil => rfl
  | cons entry rest ih =>
    simp only [memberSpans, length_cons, length_append, counts, ih, map_cons, sum_cons]
    omega

end Lengths

/-- As many spans as the value counts. -/
theorem length_walk (levels depth : Nat) (value : Value) (path : String) (range : Nat × Nat) :
    (walk content levels depth value path range).length = spanCount levels value := by
  induction levels generalizing depth value path range with
  | zero => rfl
  | succ levels ih =>
    cases value with
    | scalar => rfl
    | array items => exact length_itemSpans (ih (depth + 1)) _
    | object entries =>
      simp only [walk, length_memberSpans (ih (depth + 1)), spanCount, orderEntries]
      refine ((perm_insertionSort _ _).map _).sum_eq.trans ?_
      rw [map_map]
      rfl

/-- The document has as many spans as the value counts. -/
theorem length_ownSpans (levels : Nat) (value : Layout .value) (path : String) :
    (ownSpans decode levels depth value path offset).length =
      spanCount levels (value.denote decode) := by
  induction levels generalizing depth value path offset with
  | zero => cases value <;> rfl
  | succ levels ih =>
    cases value with
    | scalar text => rfl
    | string body => rfl
    | container shape blank entries =>
      have spans : ∀ {shape : Shape} (entry : Placed shape) (name : String),
          (entry.spans name depth (ownSpans decode levels (depth + 1))).length =
            spanCount levels (entry.value.denote decode) + 1 := by
        intro shape entry name
        rw [spans, length_cons, ih]
      cases shape with
      | array =>
        simp only [ownSpans, length_flatMap, spans, denote, spanCount,
          denote_items _ (offset + 1 + blank.val.length)]
        rw [map_map]
        generalize (entries.place (offset + 1 + blank.val.length)).take maxArrayItems = placed
        conv_rhs => rw [← zipIdx_map_fst 0 placed]
        rw [map_map]
        rfl
      | object =>
        have same : (buildMap (entries.denote decode)).Perm _ :=
          buildMap_perm _ (offset + 1 + blank.val.length)
        have counted := (same.map fun entry => spanCount levels entry.2 + 1).sum_eq
        simp only [ownSpans, length_flatMap, spans, denote, spanCount, counted]
        rw [map_map]
        rfl

end Symforge.Parsing.Json
