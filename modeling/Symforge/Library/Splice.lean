import Mathlib.Data.List.Infix

/-!
# Splices of a sequence, one after another and all at once

A `Splice` replaces a range of a sequence by a text. `splice` carries one out; `simultaneous` is
what a set of them means when every range refers to the original sequence. A splice in front of all
the others can be carried out after them (`splice_simultaneous`), so splices taken from the back to
the front have the meaning of all of them at once.
-/

namespace Symforge.Library

open List

variable {Item : Type}

/-- The items from `start` up to `stop` give way to `text`. -/
structure Splice (Item : Type) where
  start : Nat
  stop : Nat
  text : List Item
  deriving DecidableEq, Repr

/-- One splice carried out on `content`; a range that ends before it starts is empty. -/
def splice (content : List Item) (edit : Splice Item) : List Item :=
  content.take edit.start ++ edit.text ++ content.drop (max edit.start edit.stop)

/-- What is put in front of a position. -/
def textsAt (edits : List (Splice Item)) (position : Nat) : List Item :=
  edits.flatMap fun edit => if edit.start = position then edit.text else []

/-- A position that some splice replaces. -/
def covered (edits : List (Splice Item)) (position : Nat) : Bool :=
  edits.any fun edit => decide (edit.start ≤ position ∧ position < edit.stop)

/-- The splices and removals in `content`, whose first item stands at `position`. -/
def simultaneousFrom (edits : List (Splice Item)) (removed : Nat → Bool) :
    Nat → List Item → List Item
  | position, [] => textsAt edits position
  | position, item :: rest =>
    textsAt edits position ++
      (if covered edits position || removed position then [] else [item]) ++
      simultaneousFrom edits removed (position + 1) rest

/-- Every splice at its place in `content` and every `removed` position left out, at once. -/
def simultaneous (content : List Item) (edits : List (Splice Item)) (removed : Nat → Bool) :
    List Item :=
  simultaneousFrom edits removed 0 content

variable {edits : List (Splice Item)} {edit : Splice Item} {removed : Nat → Bool}

/-- The first splice's text comes first. -/
theorem textsAt_cons (position : Nat) :
    textsAt (edit :: edits) position =
      (if edit.start = position then edit.text else []) ++ textsAt edits position := rfl

variable {position : Nat}

/-- No text where no splice starts. -/
theorem textsAt_eq_nil (elsewhere : ∀ edit ∈ edits, edit.start ≠ position) :
    textsAt edits position = [] := by
  unfold textsAt
  rw [flatMap_eq_nil_iff]
  intro edit member
  rw [if_neg (elsewhere _ member)]

/-- The first splice covers, or another does. -/
theorem covered_cons :
    covered (edit :: edits) position =
      (decide (edit.start ≤ position ∧ position < edit.stop) || covered edits position) := rfl

/-- Nothing is covered in front of all. -/
theorem covered_eq_false (before : ∀ edit ∈ edits, position < edit.start) :
    covered edits position = false := by
  unfold covered
  rw [any_eq_false]
  intro edit member
  have ahead := before _ member
  simp only [decide_eq_true_eq, not_and, not_lt]
  omega

variable (position : Nat)

/-- Items in front of every splice and every removal stay. -/
theorem simultaneousFrom_append (before after : List Item)
    (ahead : ∀ edit ∈ edits, position + before.length ≤ edit.start)
    (kept : ∀ index, index < position + before.length → removed index = false) :
    simultaneousFrom edits removed position (before ++ after) =
      before ++ simultaneousFrom edits removed (position + before.length) after := by
  induction before generalizing position with
  | nil => simp
  | cons item rest ih =>
    rw [length_cons] at ahead kept
    have unstarted : textsAt edits position = [] := by
      apply textsAt_eq_nil
      intro edit member
      have := ahead _ member
      omega
    have uncovered : covered edits position = false := by
      apply covered_eq_false
      intro edit member
      have := ahead _ member
      omega
    have tail := ih (position + 1) (by intro edit member; have := ahead _ member; omega)
      (by intro index below; exact kept _ (by omega))
    rw [cons_append, simultaneousFrom, unstarted, uncovered, kept _ (by omega), tail, length_cons]
    rw [show position + 1 + rest.length = position + (rest.length + 1) by omega]
    rfl

/-- Behind the range of a splice only its text, at its start, is left to place. -/
theorem simultaneousFrom_behind (after : List Item)
    (started : edit.start ≤ position) (stopped : edit.stop ≤ position) :
    simultaneousFrom (edit :: edits) removed position after =
      (if edit.start = position then edit.text else []) ++
        simultaneousFrom edits removed position after := by
  induction after generalizing position with
  | nil => exact textsAt_cons _
  | cons item rest ih =>
    have tail := ih (position + 1) (by omega) (by omega)
    rw [if_neg (by omega), nil_append] at tail
    have uncovered : covered (edit :: edits) position = covered edits position := by
      rw [covered_cons, decide_eq_false (by omega), Bool.false_or]
    rw [simultaneousFrom, tail, uncovered, textsAt_cons, simultaneousFrom]
    simp [append_assoc]

/-- The items a splice replaces leave nothing behind. -/
theorem simultaneousFrom_inside (inside after : List Item)
    (started : edit.start < position) (stops : position + inside.length = edit.stop)
    (ahead : ∀ other ∈ edits, edit.stop ≤ other.start) :
    simultaneousFrom (edit :: edits) removed position (inside ++ after) =
      simultaneousFrom edits removed edit.stop after := by
  induction inside generalizing position with
  | nil =>
    rw [length_nil, Nat.add_zero] at stops
    rw [nil_append, simultaneousFrom_behind _ _ (by omega) (by omega),
      if_neg (by omega), nil_append, stops]
  | cons item rest ih =>
    rw [length_cons] at stops
    have unstarted : textsAt (edit :: edits) position = [] := by
      apply textsAt_eq_nil
      intro other member
      rcases mem_cons.mp member with rfl | behind
      · omega
      have := ahead _ behind
      omega
    have replaced : covered (edit :: edits) position = true := by
      rw [covered_cons, decide_eq_true (by omega), Bool.true_or]
    rw [cons_append, simultaneousFrom, unstarted, replaced, ih (position + 1) (by omega) (by omega)]
    rfl

variable {content : List Item}

/-- A range cuts the content into what is before, inside and after it. -/
theorem exists_split {start stop : Nat} (ordered : start ≤ stop) (bounded : stop ≤ content.length) :
    ∃ before inside after, content = before ++ (inside ++ after) ∧
      start = before.length ∧ stop = before.length + inside.length := by
  refine ⟨content.take start, (content.drop start).take (stop - start),
    (content.drop start).drop (stop - start), by simp, ?_, ?_⟩
  · rw [length_take]
    omega
  · simp only [length_take, length_drop]
    omega

/-- The first splice puts its text between what is in front and what the others make of the rest. -/
theorem simultaneousFrom_first (before inside after : List Item)
    (startEq : edit.start = position + before.length)
    (stopEq : edit.stop = position + before.length + inside.length)
    (ahead : ∀ other ∈ edits, edit.stop ≤ other.start ∧ edit.start < other.start)
    (kept : ∀ index, index < edit.start → removed index = false) :
    simultaneousFrom (edit :: edits) removed position (before ++ (inside ++ after)) =
      before ++ edit.text ++ simultaneousFrom edits removed edit.stop after := by
  have placed : simultaneousFrom (edit :: edits) removed edit.start (inside ++ after) =
      edit.text ++ simultaneousFrom edits removed edit.stop after := by
    cases inside with
    | nil =>
      have same : edit.stop = edit.start := by
        rw [stopEq, startEq, length_nil, Nat.add_zero]
      rw [nil_append, simultaneousFrom_behind _ _ le_rfl (by omega), if_pos rfl, same]
    | cons item rest =>
      rw [length_cons] at stopEq
      have unstarted : textsAt edits edit.start = [] := by
        apply textsAt_eq_nil
        intro other member
        have := (ahead _ member).2
        omega
      have replaced : covered (edit :: edits) edit.start = true := by
        rw [covered_cons, decide_eq_true (by omega), Bool.true_or]
      rw [cons_append, simultaneousFrom, textsAt_cons, if_pos rfl, unstarted, replaced,
        simultaneousFrom_inside (edit.start + 1) _ _ (by omega) (by omega)
          (fun other member => (ahead _ member).1)]
      simp
  rw [simultaneousFrom_append _ _ (inside ++ after), ← startEq, placed, append_assoc]
  · intro other member
    rcases mem_cons.mp member with rfl | behind
    · omega
    have := (ahead _ behind).2
    omega
  · intro index below
    exact kept _ (by omega)

/-- A splice in front of all the others can be carried out after them. -/
theorem splice_simultaneous (ordered : edit.start ≤ edit.stop)
    (bounded : edit.stop ≤ content.length)
    (ahead : ∀ other ∈ edits, edit.stop ≤ other.start ∧ edit.start < other.start)
    (kept : ∀ index, index < edit.stop → removed index = false) :
    splice (simultaneous content edits removed) edit =
      simultaneous content (edit :: edits) removed := by
  obtain ⟨before, inside, after, rfl, startEq, stopEq⟩ := exists_split ordered bounded
  have untouched : simultaneous (before ++ (inside ++ after)) edits removed =
      before ++ inside ++ simultaneousFrom edits removed edit.stop after := by
    rw [simultaneous, ← append_assoc,
      simultaneousFrom_append 0 (before ++ inside) _, length_append, Nat.zero_add, stopEq]
    · intro other member
      have := (ahead _ member).1
      rw [length_append]
      omega
    · intro index below
      rw [length_append] at below
      exact kept _ (by omega)
  have carried : splice (simultaneous (before ++ (inside ++ after)) edits removed) edit =
      before ++ edit.text ++ simultaneousFrom edits removed edit.stop after := by
    rw [untouched, splice, Nat.max_eq_right ordered, startEq, stopEq]
    rw [append_assoc before inside, take_left, ← append_assoc before inside,
      ← length_append, drop_left]
  rw [carried, simultaneous, simultaneousFrom_first 0 _ _ _ (by omega) (by omega)
    ahead fun index below => kept _ (by omega)]

/-- Where no two splices start together, their texts do not depend on their order. -/
theorem textsAt_perm {others : List (Splice Item)} (perm : edits.Perm others)
    (distinct : edits.Pairwise fun left right => left.start ≠ right.start) (position : Nat) :
    textsAt edits position = textsAt others position := by
  induction perm with
  | nil => rfl
  | cons edit _ ih => rw [textsAt_cons, textsAt_cons, ih (pairwise_cons.mp distinct).2]
  | swap first second rest =>
    have apart : second.start ≠ first.start := (pairwise_cons.mp distinct).1 _ mem_cons_self
    simp only [textsAt_cons]
    by_cases here : first.start = position
    · rw [if_neg (show ¬ second.start = position by omega), nil_append, nil_append]
    · rw [if_neg here, nil_append, nil_append]
  | trans perm _ first second =>
    exact (first distinct).trans (second (perm.pairwise distinct fun apart => apart.symm))

/-- Splices that start apart mean the same in any order. -/
theorem simultaneous_perm {others : List (Splice Item)} (perm : edits.Perm others)
    (distinct : edits.Pairwise fun left right => left.start ≠ right.start) :
    simultaneous content edits removed = simultaneous content others removed := by
  have sameCovered : ∀ position, covered edits position = covered others position := by
    intro position
    exact perm.any_eq
  unfold simultaneous
  generalize 0 = position
  induction content generalizing position with
  | nil => exact textsAt_perm perm distinct _
  | cons item rest ih =>
    rw [simultaneousFrom, simultaneousFrom, textsAt_perm perm distinct, sameCovered, ih]

/-! ### Removals alone -/

/-- The positions inside some range of a list. -/
def inRanges (ranges : List (Nat × Nat)) (position : Nat) : Bool :=
  ranges.any fun range => decide (range.1 ≤ position ∧ position < range.2)

/-- In the ranges of either list. -/
theorem inRanges_append (left right : List (Nat × Nat)) (position : Nat) :
    inRanges (left ++ right) position = (inRanges left position || inRanges right position) :=
  any_append

/-- In the only range. -/
theorem inRanges_singleton (range : Nat × Nat) (position : Nat) :
    inRanges [range] position = decide (range.1 ≤ position ∧ position < range.2) :=
  Bool.or_false _

/-- Removal in two parts. -/
theorem removeFrom_append (position : Nat) (before after : List Item) :
    simultaneousFrom [] removed position (before ++ after) =
      simultaneousFrom [] removed position before ++
        simultaneousFrom [] removed (position + before.length) after := by
  induction before generalizing position with
  | nil => rfl
  | cons item rest ih =>
    rw [cons_append, simultaneousFrom, ih, simultaneousFrom, length_cons,
      show position + 1 + rest.length = position + (rest.length + 1) by omega]
    simp [append_assoc]

/-- Removals are known by the positions of the items they concern. -/
theorem removeFrom_congr {other : Nat → Bool} (position shifted : Nat)
    (same : ∀ index, index < content.length →
      removed (position + index) = other (shifted + index)) :
    simultaneousFrom [] removed position content = simultaneousFrom [] other shifted content := by
  induction content generalizing position shifted with
  | nil => rfl
  | cons item rest ih =>
    have first := same 0 (Nat.zero_lt_succ _)
    have others : ∀ index, index < rest.length →
        removed (position + 1 + index) = other (shifted + 1 + index) := by
      intro index below
      have next := same (index + 1) (Nat.succ_lt_succ below)
      rw [show position + 1 + index = position + (index + 1) by omega, next]
      rw [show shifted + 1 + index = shifted + (index + 1) by omega]
    rw [simultaneousFrom, ih (position + 1) (shifted + 1) others]
    rw [Nat.add_zero, Nat.add_zero] at first
    rw [first]
    rfl

/-- All is removed, or nothing. -/
theorem removeFrom_const (all : Bool) (position : Nat) :
    simultaneousFrom [] (fun _ => all) position content = if all then [] else content := by
  induction content generalizing position with
  | nil => cases all <;> rfl
  | cons item rest ih =>
    rw [simultaneousFrom, ih]
    cases all <;> rfl

/-- Where nothing is marked all stays. -/
theorem removeFrom_eq_self
    (kept : ∀ index, index < content.length → removed (position + index) = false) :
    simultaneousFrom [] removed position content = content :=
  (removeFrom_congr _ position kept).trans (removeFrom_const false _)

/-- Where all is marked nothing stays. -/
theorem removeFrom_eq_nil
    (all : ∀ index, index < content.length → removed (position + index) = true) :
    simultaneousFrom [] removed position content = [] :=
  (removeFrom_congr _ position all).trans (removeFrom_const true _)

/-- A splice without a text only removes. -/
theorem simultaneousFrom_deletion (start stop : Nat) (position : Nat) :
    simultaneousFrom [⟨start, stop, []⟩] removed position content =
      simultaneousFrom [] (fun index => decide (start ≤ index ∧ index < stop) || removed index)
        position content := by
  have silent : ∀ index, textsAt [(⟨start, stop, []⟩ : Splice Item)] index = [] := by
    intro index
    rw [textsAt_cons, ite_self]
    rfl
  induction content generalizing position with
  | nil => exact silent _
  | cons item rest ih =>
    rw [simultaneousFrom, silent, ih, covered_cons]
    simp only [covered, any_nil, Bool.or_false]
    rfl

/-- Where a position of the content without the range `start..stop` was before. -/
def sourcePosition (start stop position : Nat) : Nat :=
  if start ≤ position then position + (stop - start) else position

/-- A deletion at once with removals is the deletion, then the removals where they moved. -/
theorem simultaneous_deletion {start stop : Nat}
    (ordered : start ≤ stop) (bounded : stop ≤ content.length) :
    simultaneous content [⟨start, stop, []⟩] removed =
      simultaneousFrom [] (fun position => removed (sourcePosition start stop position)) 0
        (splice content ⟨start, stop, []⟩) := by
  obtain ⟨before, inside, after, rfl, startEq, stopEq⟩ := exists_split ordered bounded
  have shortened : splice (before ++ (inside ++ after)) ⟨start, stop, []⟩ = before ++ after := by
    rw [splice]
    simp only [Nat.max_eq_right ordered, append_nil]
    rw [startEq, stopEq, take_left, ← append_assoc, ← length_append, drop_left]
  rw [simultaneous, simultaneousFrom_deletion, shortened, removeFrom_append, removeFrom_append,
    removeFrom_append, removeFrom_eq_nil (0 + before.length), nil_append]
  · congr 1
    · apply removeFrom_congr
      intro index below
      rw [decide_eq_false (by omega), Bool.false_or, sourcePosition, if_neg (by omega)]
    · apply removeFrom_congr
      intro index below
      rw [decide_eq_false (by omega), Bool.false_or, sourcePosition, if_pos (by omega)]
      congr 1
      omega
  · intro index below
    rw [decide_eq_true (by omega), Bool.true_or]

end Symforge.Library
