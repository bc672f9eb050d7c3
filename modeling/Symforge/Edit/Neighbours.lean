import Mathlib.Data.List.TakeWhile
import Symforge.Edit.ReplaceAgreement

/-!
# Neighbours of a deleted or replaced symbol

The ranges that a deletion removes and a replacement overwrites are wider than the symbol: they
reach back to the start of a line, over lines that are taken for its attributes and its orphaned
docs, and a deletion goes on to the end of a line and over an empty one. Another symbol is spared
exactly when its bytes keep clear of the lines that are claimed this way.
-/

namespace Symforge.Edit

open List LineEnding Nat

/-! ### Lines above a position -/

/-- Lines, last one first, as the text they are with their line feeds. -/
def terminated : List Bytes → Bytes
  | [] => []
  | line :: above => terminated above ++ line ++ [0x0A]

/-- Every text is some terminated lines and the start of a line. -/
theorem exists_terminated (before : Bytes) :
    ∃ above last, before = terminated above ++ last ∧ ∀ line ∈ last :: above, 0x0A ∉ line := by
  induction before using reverseRecOn with
  | nil => exact ⟨[], [], rfl, by simp⟩
  | append_singleton before byte ih =>
    obtain ⟨above, last, rfl, clean⟩ := ih
    by_cases lineFeed : byte = 0x0A
    · refine ⟨last :: above, [], ?_, ?_⟩
      · rw [terminated, lineFeed, append_nil]
      · exact forall_mem_cons.mpr ⟨not_mem_nil, clean⟩
    · obtain ⟨cleanLast, cleanAbove⟩ := forall_mem_cons.mp clean
      refine ⟨_, last ++ [byte], append_assoc _ _ _, ?_⟩
      refine forall_mem_cons.mpr ⟨?_, cleanAbove⟩
      rw [mem_append, mem_singleton]
      exact not_or.mpr ⟨cleanLast, Ne.symm lineFeed⟩

/-- Splitting gives the lines back. -/
theorem splitLineFeeds_terminated {above : List Bytes} (clean : ∀ line ∈ above, 0x0A ∉ line)
    (rest : Bytes) :
    splitLineFeeds (terminated above ++ rest) = above.reverse ++ splitLineFeeds rest := by
  induction above generalizing rest with
  | nil => rfl
  | cons line above ih =>
    obtain ⟨here, later⟩ := forall_mem_cons.mp clean
    have regroup : terminated (line :: above) ++ rest =
        terminated above ++ (line ++ 0x0A :: rest) := by simp [terminated]
    rw [regroup, ih later, splitLineFeeds_cons here, reverse_cons, append_assoc]
    rfl

variable (content : Bytes) (sym : SymbolRecord) (above : List Bytes) (stop : Nat)
  (lineEnding : LineEnding)

/-- Every line has its line feed. -/
theorem length_terminated :
    (terminated above).length = (above.map fun line => line.length + 1).sum := by
  induction above with
  | nil => rfl
  | cons line above ih =>
    rw [terminated, length_append, length_append, ih, map_cons, sum_cons, length_singleton]
    omega

/-- As many line feeds as lines. -/
theorem count_terminated {above : List Bytes} (clean : ∀ line ∈ above, 0x0A ∉ line) :
    (terminated above).count 0x0A = above.length := by
  induction above with
  | nil => rfl
  | cons line above ih =>
    obtain ⟨here, later⟩ := forall_mem_cons.mp clean
    rw [terminated, count_append, count_append, ih later, count_eq_zero_of_not_mem here]
    rfl

/-- The nearer lines come last. -/
theorem terminated_append (near far : List Bytes) :
    terminated (near ++ far) = terminated far ++ terminated near := by
  induction near with
  | nil => rw [nil_append, terminated, append_nil]
  | cons line near ih => simp [cons_append, terminated, ih, append_assoc]

variable {line : Bytes}

/-- No byte of the line is a line feed. -/
theorem bne_of_clean (clean : 0x0A ∉ line) : ∀ byte ∈ line, (byte != 0x0A) = true :=
  fun _ member => bne_iff_ne.mpr fun same => clean (same ▸ member)

/-- The last line starts behind the others. -/
theorem lastLineStart_terminated {last : Bytes} (clean : 0x0A ∉ last) :
    lastLineStart (terminated above ++ last) = (terminated above).length := by
  have passed := bne_of_clean (mem_reverse.not.mpr clean)
  have stopped : (terminated above).reverse.takeWhile (· != 0x0A) = [] := by
    cases above with
    | nil => rfl
    | cons line above => simp [terminated]
  rw [lastLineStart, reverse_append, takeWhile_append_of_pos passed, stopped,
    append_nil, length_reverse, length_append, Nat.add_sub_cancel]

/-- A position lies in front of the lines left after the nearest `claimed` ones exactly when more
line feeds than that follow it. -/
theorem lt_length_terminated_iff {above : List Bytes} {last : Bytes}
    (clean : ∀ line ∈ last :: above, 0x0A ∉ line) (claimed position : Nat) :
    position < (terminated (above.drop claimed)).length ↔
      claimed < ((terminated above ++ last).drop position).count 0x0A := by
  obtain ⟨cleanLast, cleanAbove⟩ := forall_mem_cons.mp clean
  have cleanNear : ∀ line ∈ above.take claimed, 0x0A ∉ line :=
    fun line member => cleanAbove _ (mem_of_mem_take member)
  have nearCount : (terminated (above.take claimed) ++ last).count 0x0A =
      min claimed above.length := by
    rw [count_append, count_terminated cleanNear, count_eq_zero_of_not_mem cleanLast,
      length_take, add_zero]
  have parts : terminated above ++ last =
      terminated (above.drop claimed) ++ (terminated (above.take claimed) ++ last) := by
    rw [← append_assoc, ← terminated_append, take_append_drop]
  rw [parts]
  constructor
  · intro inside
    rw [drop_append_of_le_length inside.le, count_append, nearCount]
    cases far : above.drop claimed with
    | nil =>
      rw [far] at inside
      cases inside
    | cons line rest =>
      have some_left : claimed < above.length := by
        by_contra none_left
        rw [drop_eq_nil_of_le (Nat.le_of_not_lt none_left)] at far
        cases far
      rw [far, terminated, length_append] at inside
      have reaches : 0 < ((terminated (line :: rest)).drop position).count 0x0A := by
        rw [terminated, drop_append_of_le_length (le_of_lt_succ inside), count_append]
        exact Nat.lt_add_left _ Nat.one_pos
      omega
  · intro more
    by_contra outside
    rw [drop_append, drop_eq_nil_of_le (Nat.le_of_not_lt outside), nil_append] at more
    have bound := ((terminated (above.take claimed) ++ last).drop_sublist
      (position - (terminated (above.drop claimed)).length)).count_le 0x0A
    omega

/-! ### Lines claimed above a symbol -/

/-- The full lines above the line of a position, nearest first. -/
def linesAbove (content : Bytes) (offset : Nat) : List Bytes :=
  (splitLineFeeds (content.take offset)).reverse.tail

/-- A line that `extend_past_leading_attributes` takes for an attribute. -/
def isAttributeLine (line : Bytes) : Bool :=
  startsWith (trimStart (if validUtf8 line then line else [])) "#["

/-- The attribute lines that stand directly above. -/
def attributeLines (above : List Bytes) : Nat := (above.takeWhile isAttributeLine).length

/-- The lines of an orphaned comment block with the blank line under it, of a symbol without docs.
-/
def orphanLines (sym : SymbolRecord) (above : List Bytes) : Nat :=
  match above with
  | [] => 0
  | blank :: rest =>
    let block := (rest.takeWhile isOrphanDocLine).length
    if sym.docByteRange = none ∧ blank.all isAsciiWhitespace ∧ block ≠ 0 then block + 1 else 0

/-- The lines that a deletion claims above the line of the symbol. -/
def deletedLines (sym : SymbolRecord) (above : List Bytes) : Nat :=
  attributeLines above + orphanLines sym (above.drop (attributeLines above))

/-- Dropping what is taken. -/
theorem drop_takeWhile_length {Item : Type} (passes : Item → Bool) (items : List Item) :
    items.drop (items.takeWhile passes).length = items.dropWhile passes := by
  nth_rewrite 2 [← takeWhile_append_dropWhile (p := passes) (l := items)]
  exact drop_left

/-- Attributes are whole lines. -/
theorem attributesStart_terminated (more : Bytes) (rounds : Nat)
    (clean : ∀ line ∈ above, 0x0A ∉ line) (enough : above.length ≤ rounds) :
    attributesStart (terminated above ++ more) rounds (terminated above).length =
      (terminated (above.drop (attributeLines above))).length := by
  rw [attributeLines, drop_takeWhile_length]
  induction above generalizing more rounds with
  | nil => cases rounds <;> rfl
  | cons line above ih =>
    obtain ⟨here, later⟩ := forall_mem_cons.mp clean
    cases rounds with
    | zero => cases enough
    | succ rounds =>
      have length : (terminated (line :: above)).length =
          (terminated above ++ line).length + 1 := by
        rw [terminated, length_append, length_singleton]
      have regroup : terminated (line :: above) ++ more =
          terminated above ++ line ++ 0x0A :: more := by simp [terminated]
      have front : (terminated (line :: above) ++ more).take
          ((terminated (line :: above)).length - 1) = terminated above ++ line := by
        rw [length, regroup, Nat.add_sub_cancel, take_left]
      rw [attributesStart, if_neg (by omega)]
      simp only [front, lastLineStart_terminated _ here, drop_left]
      rw [dropWhile_cons]
      change (if isAttributeLine line = true then _ else _) = _
      by_cases marked : isAttributeLine line = true
      · rw [if_pos marked, if_pos marked, regroup, append_assoc]
        exact ih (line ++ 0x0A :: more) _ later (le_of_succ_le_succ enough)
      · rw [if_neg marked, if_neg marked]

/-- So are orphaned docs. -/
theorem extendPastOrphanedDocs_terminated {above : List Bytes}
    (clean : ∀ line ∈ above, 0x0A ∉ line) (more : Bytes) :
    extendPastOrphanedDocs (terminated above ++ more) (terminated above).length sym =
      .ok (terminated (above.drop (orphanLines sym above))).length := by
  have pieces : (splitLineFeeds (terminated above)).reverse = [] :: above := by
    have split := splitLineFeeds_terminated clean []
    rw [append_nil] at split
    rw [split, reverse_append, reverse_reverse]
    rfl
  unfold extendPastOrphanedDocs
  rw [sliceTo_ok (by rw [length_append]; omega), take_left]
  simp only [bind, Except.bind, pieces]
  cases above with
  | nil => cases sym.docByteRange <;> rfl
  | cons blank rest =>
    cases docs : sym.docByteRange with
    | some range => simp [orphanLines, docs]
    | none =>
      simp only [orphanLines, orphanedDocsStart, dropEmptyRest, docs, true_and,
        Option.isSome_none, Bool.false_eq_true, if_false]
      split
      · rw [drop_succ_cons, drop_takeWhile_length, Option.getD_some, length_terminated]
      · rfl

/-- The line feeds from one position up to another. -/
def lineBreaks (content : Bytes) (first second : Nat) : Nat :=
  ((content.take second).drop first).count 0x0A

/-- The lines above a position as the text in front of it. -/
theorem exists_linesAbove (offset : Nat) :
    ∃ last more, content = terminated (linesAbove content offset) ++ (last ++ more) ∧
      content.take offset = terminated (linesAbove content offset) ++ last ∧
      ∀ line ∈ last :: linesAbove content offset, 0x0A ∉ line := by
  obtain ⟨above, last, front, clean⟩ := exists_terminated (content.take offset)
  obtain ⟨cleanLast, cleanAbove⟩ := forall_mem_cons.mp clean
  have known : linesAbove content offset = above := by
    rw [linesAbove, front, splitLineFeeds_terminated cleanAbove, splitLineFeeds_line cleanLast,
      reverse_append, reverse_reverse]
    rfl
  rw [known]
  refine ⟨_, content.drop offset, ?_, front, clean⟩
  rw [← append_assoc, ← front, take_append_drop]

/-- A line starts behind a position when a line feed comes in between. -/
theorem lt_lastLineStart_iff (position offset : Nat) :
    position < lastLineStart (content.take offset) ↔ 0 < lineBreaks content position offset := by
  obtain ⟨last, more, -, front, clean⟩ := exists_linesAbove _ _
  rw [lineBreaks, front, lastLineStart_terminated _ (forall_mem_cons.mp clean).1,
    ← lt_length_terminated_iff clean 0, drop_zero]

/-- The orphaned docs start behind a position when more line feeds come in between than the symbol
has orphan lines. -/
theorem extendPastOrphanedDocs_start :
    ∃ start, extendPastOrphanedDocs content (lastLineStart (content.take sym.effectiveStart)) sym =
        .ok start ∧ ∀ position, position < start ↔
          orphanLines sym (linesAbove content sym.effectiveStart) <
            lineBreaks content position sym.effectiveStart := by
  obtain ⟨last, more, whole, front, clean⟩ := exists_linesAbove _ sym.effectiveStart
  obtain ⟨cleanLast, cleanAbove⟩ := forall_mem_cons.mp clean
  have found := extendPastOrphanedDocs_terminated sym cleanAbove (last ++ more)
  rw [← whole] at found
  rw [front, lastLineStart_terminated _ cleanLast]
  refine ⟨_, found, fun position => ?_⟩
  rw [lineBreaks, front, lt_length_terminated_iff clean]

/-- A deletion starts behind a position when more line feeds come in between than claimed lines. -/
theorem deleteSourceRange_start {content : Bytes} (inside : sym.effectiveStart ≤ content.length) :
    ∃ start, deleteSourceRange content sym lineEnding =
        .ok (start, deleteEnd content sym.byteRange.2 lineEnding) ∧
      ∀ position, position < start ↔
        deletedLines sym (linesAbove content sym.effectiveStart) <
          lineBreaks content position sym.effectiveStart := by
  obtain ⟨last, more, whole, front, clean⟩ := exists_linesAbove _ sym.effectiveStart
  obtain ⟨cleanLast, cleanAbove⟩ := forall_mem_cons.mp clean
  set above := linesAbove _ sym.effectiveStart
  have attributes : extendPastLeadingAttributes content (terminated above).length =
      (terminated (above.drop (attributeLines above))).length := by
    have enough : above.length ≤ (terminated above).length := by
      rw [← count_terminated cleanAbove]
      exact count_le_length
    have walked := attributesStart_terminated _ (last ++ more) _ cleanAbove enough
    rwa [← whole] at walked
  have regroup : content = terminated (above.drop (attributeLines above)) ++
      (terminated (above.take (attributeLines above)) ++ (last ++ more)) := by
    rw [← append_assoc, ← terminated_append, take_append_drop]
    exact whole
  have cleanFar : ∀ line ∈ above.drop (attributeLines above), 0x0A ∉ line :=
    fun line member => cleanAbove _ (mem_of_mem_drop member)
  have docs := extendPastOrphanedDocs_terminated sym cleanFar
    (terminated (above.take (attributeLines above)) ++ (last ++ more))
  rw [← regroup, drop_drop] at docs
  refine ⟨(terminated (above.drop (deletedLines sym above))).length, ?_, fun position => ?_⟩
  · unfold deleteSourceRange
    rw [lineStart_ok inside, front, lastLineStart_terminated _ cleanLast]
    simp only [bind, Except.bind, attributes, docs]
    rfl
  · rw [lineBreaks, front, lt_length_terminated_iff clean]

/-! ### The line behind a symbol -/

/-- The line below the one of a position is empty, and terminated in the style of the file. -/
def emptyLineBelow (content : Bytes) (stop : Nat) (lineEnding : LineEnding) : Bool :=
  lineEnding.asBytes.isPrefixOf (((content.drop stop).dropWhile (· != 0x0A)).drop 1)

variable {more : Bytes}

/-- The line ahead of its line feed. -/
theorem takeWhile_line (clean : 0x0A ∉ line) :
    (line ++ 0x0A :: more).takeWhile (· != 0x0A) = line := by
  rw [takeWhile_append_of_pos (bne_of_clean clean), takeWhile_cons_of_neg (by decide), append_nil]

/-- What follows the line. -/
theorem dropWhile_line (clean : 0x0A ∉ line) :
    (line ++ 0x0A :: more).dropWhile (· != 0x0A) = 0x0A :: more := by
  rw [← drop_takeWhile_length, takeWhile_line clean, drop_left]

/-- The end of a deletion where the line is terminated: the empty line below goes too. -/
theorem deleteEnd_terminated (front : Bytes) (clean : 0x0A ∉ line)
    (lineEnding : LineEnding) :
    deleteEnd (front ++ (line ++ 0x0A :: more)) front.length lineEnding =
      front.length + line.length + 1 +
        if lineEnding.asBytes.isPrefixOf more then lineEnding.asBytes.length else 0 := by
  have behind : ∀ position, (front ++ (line ++ 0x0A :: more))[front.length + line.length + 1 +
      position]? = more[position]? := by
    intro position
    rw [← append_assoc, getElem?_append_right (by rw [length_append]; omega)]
    rw [length_append, show front.length + line.length + 1 + position -
      (front.length + line.length) = position + 1 from by omega, getElem?_cons_succ]
  have next : afterLine (front ++ (line ++ 0x0A :: more)) front.length =
      front.length + line.length + 1 := by
    have lineFeed : (front ++ (line ++ 0x0A :: more))[front.length + line.length]? = some 0x0A := by
      rw [← append_assoc, ← length_append, getElem?_append_right le_rfl,
        Nat.sub_self, getElem?_cons_zero]
    rw [afterLine, drop_left, takeWhile_line clean]
    exact if_pos lineFeed
  unfold deleteEnd
  have first := behind 0
  have second := behind 1
  rw [add_zero] at first
  rw [next]
  cases lineEnding with
  | lf =>
    dsimp only
    rw [first]
    cases more with
    | nil => rfl
    | cons byte rest =>
      by_cases lineFeed : byte = 0x0A
      · simp [asBytes, lineFeed]
      · simp [asBytes, lineFeed, Ne.symm lineFeed]
  | crLf =>
    dsimp only
    rw [first, second]
    match more with
    | [] => rfl
    | [byte] => simp [asBytes]
    | byte :: other :: rest =>
      by_cases pair : byte = 0x0D ∧ other = 0x0A
      · simp [asBytes, pair]
      have unlike : ¬ (0x0D = byte ∧ 0x0A = other) := fun same => pair ⟨same.1.symm, same.2.symm⟩
      simp [asBytes, pair, unlike]

/-- The end of a line is not behind. -/
theorem le_afterLine : stop ≤ afterLine content stop := by
  dsimp only [afterLine]
  split <;> omega

/-- A deletion takes the line's end. -/
theorem afterLine_le_deleteEnd : afterLine content stop ≤ deleteEnd content stop lineEnding := by
  cases lineEnding <;> dsimp only [deleteEnd] <;> split <;> omega

/-- A line ending is cut off in front of its line feed or not at all. -/
theorem lineEnding_length_le_iff (tail : Bytes) (position : Nat) :
    lineEnding.asBytes.length ≤ position ↔
      ((lineEnding.asBytes ++ tail).take position).count 0x0A ≠ 0 := by
  cases lineEnding with
  | lf => cases position <;> simp [asBytes]
  | crLf =>
    match position with
    | 0 => simp [asBytes]
    | 1 => simp [asBytes]
    | position + 2 => simp [asBytes]

/-- A deletion ends by a position behind the symbol when a line feed comes in between, and two of
them if an empty line follows. -/
theorem deleteEnd_le_iff {content : Bytes} {stop position : Nat} (behind : stop ≤ position)
    (inside : position < content.length) (lineEnding : LineEnding) :
    deleteEnd content stop lineEnding ≤ position ↔
      lineBreaks content stop position ≠ 0 ∧ (lineBreaks content stop position = 1 →
        emptyLineBelow content stop lineEnding = false) := by
  obtain ⟨front, rest, rfl, rfl⟩ : ∃ front rest, content = front ++ rest ∧ front.length = stop :=
    ⟨content.take stop, content.drop stop, (take_append_drop _ _).symm,
      length_take_of_le (by omega)⟩
  have breaks : lineBreaks (front ++ rest) front.length position =
      (rest.take (position - front.length)).count 0x0A := by
    rw [lineBreaks, drop_take, drop_left]
  obtain ⟨offset, rfl⟩ := Nat.exists_eq_add_of_le behind
  rw [length_append, Nat.add_lt_add_iff_left] at inside
  rw [breaks, Nat.add_sub_cancel_left]
  by_cases terminates : 0x0A ∈ rest
  · obtain ⟨line, more, rfl, clean⟩ := eq_append_cons_of_mem terminates
    rw [deleteEnd_terminated front clean, emptyLineBelow, drop_left, dropWhile_line clean,
      drop_one, tail_cons]
    by_cases within : offset ≤ line.length
    · rw [take_append_of_le_length within,
        count_eq_zero_of_not_mem fun member => clean (mem_of_mem_take member)]
      exact iff_of_false (by omega) (fun spared => spared.1 rfl)
    obtain ⟨further, rfl⟩ : ∃ further, offset = line.length + (further + 1) :=
      ⟨offset - line.length - 1, by omega⟩
    rw [take_length_add_append, take_succ_cons, count_append,
      count_eq_zero_of_not_mem clean, count_cons_self, zero_add]
    by_cases empty : lineEnding.asBytes.isPrefixOf more = true
    · obtain ⟨tail, rfl⟩ := isPrefixOf_iff_prefix.mp empty
      have reached := lineEnding_length_le_iff lineEnding tail further
      simp only [empty, if_true, Bool.true_eq_false, imp_false]
      omega
    · simp only [empty, if_false, Bool.false_eq_true]
      exact iff_of_true (by omega) ⟨by omega, fun _ => trivial⟩
  · rw [count_eq_zero_of_not_mem fun member => terminates (mem_of_mem_take member)]
    have passed : rest.takeWhile (· != 0x0A) = rest :=
      takeWhile_eq_self_iff.mpr (bne_of_clean terminates)
    have reaches := afterLine_le_deleteEnd (front ++ rest) front.length lineEnding
    have end_of_content : front.length + rest.length ≤ afterLine (front ++ rest) front.length := by
      rw [afterLine, drop_left, passed]
      split <;> omega
    exact iff_of_false (by omega) (fun spared => spared.1 rfl)

/-! ### Neighbours -/

/-- The range of a symbol with its documentation. -/
def effectiveRange (sym : SymbolRecord) : Nat × Nat := (sym.effectiveStart, sym.byteRange.2)

/-- Two half-open ranges have no position in common. -/
def Apart (one other : Nat × Nat) : Prop :=
  ∀ position, one.1 ≤ position → position < one.2 → other.1 ≤ position → other.2 ≤ position

/-- Two ranges share no position. -/
theorem apart_iff (one other : Nat × Nat) :
    Apart one other ↔ min one.2 other.2 ≤ max one.1 other.1 := by
  constructor
  · intro apart
    have here := apart (max one.1 other.1) (le_max_left _ _)
    omega
  · intro ends position
    omega

instance (one other : Nat × Nat) : Decidable (Apart one other) :=
  decidable_of_iff _ (apart_iff one other).symm

/-- Two symbols of one file that have no byte in common. -/
structure Neighbours (content : Bytes) where
  target : SymbolRecord
  neighbour : SymbolRecord
  targetValid : ValidSpan content target
  neighbourValid : ValidSpan content neighbour
  disjoint : Apart (effectiveRange target) (effectiveRange neighbour)

namespace Neighbours

variable {content : Bytes} (pair : Neighbours content)

/-- Where the bytes of the neighbour in front of the target end. -/
def frontEnd : Nat := min pair.neighbour.byteRange.2 pair.target.effectiveStart

/-- Where the bytes of the neighbour behind the target start. -/
def backStart : Nat := max pair.neighbour.effectiveStart pair.target.byteRange.2

/-- A neighbour in front ends above the claimed lines. -/
def FrontSpared (claimed : Nat) : Prop :=
  pair.neighbour.effectiveStart < pair.frontEnd →
    claimed < lineBreaks content (pair.frontEnd - 1) pair.target.effectiveStart

/-- A neighbour behind starts on a later line, and below the empty line if one follows. -/
def BackSpared (lineEnding : LineEnding) : Prop :=
  pair.backStart < pair.neighbour.byteRange.2 →
    lineBreaks content pair.target.byteRange.2 pair.backStart ≠ 0 ∧
      (lineBreaks content pair.target.byteRange.2 pair.backStart = 1 →
        emptyLineBelow content pair.target.byteRange.2 lineEnding = false)

/-- A deletion of the target leaves the neighbour alone. -/
def DeleteSpares (lineEnding : LineEnding) : Prop :=
  pair.FrontSpared (deletedLines pair.target (linesAbove content pair.target.effectiveStart)) ∧
    pair.BackSpared lineEnding

/-- A neighbour in front of the signature ends on an earlier line, or in the doc marker that a
docless replacement keeps. -/
def SignatureSpared : Prop :=
  pair.neighbour.effectiveStart < pair.frontEnd →
    0 < lineBreaks content (pair.frontEnd - 1) pair.target.byteRange.1 ∨
      ∃ stop ∈ sameLineDocPrefixEnd ((content.take pair.target.byteRange.1).drop
          (signatureLine content pair.target)),
        pair.frontEnd ≤ signatureLine content pair.target + stop

/-- A replacement of the target leaves the neighbour alone. -/
def ReplaceSpares (newBody : String) : Prop :=
  if bodyStartsWithDocComment newBody then
    pair.FrontSpared (orphanLines pair.target (linesAbove content pair.target.effectiveStart))
  else pair.SignatureSpared

/-- A range over the end of the target is clear of the neighbour when it is clear of the part in
front and of the part behind. -/
theorem disjoint_iff {start stop : Nat} (starts : start ≤ pair.target.byteRange.2)
    (stops : pair.target.byteRange.2 ≤ stop) :
    Apart (start, stop) (effectiveRange pair.neighbour) ↔
      (pair.neighbour.effectiveStart < pair.frontEnd → pair.frontEnd ≤ start) ∧
        (pair.backStart < pair.neighbour.byteRange.2 → stop ≤ pair.backStart) := by
  have apart := pair.disjoint
  have target := pair.targetValid.effective.trans pair.targetValid.ordered
  have neighbour := pair.neighbourValid.effective.trans pair.neighbourValid.ordered
  rw [apart_iff] at apart ⊢
  unfold effectiveRange at apart ⊢
  unfold frontEnd backStart
  omega

/-- The front of the neighbour is spared. -/
theorem frontSpared_iff {claimed start : Nat}
    (starts : ∀ position, position < start ↔
      claimed < lineBreaks content position pair.target.effectiveStart) :
    (pair.neighbour.effectiveStart < pair.frontEnd → pair.frontEnd ≤ start) ↔
      pair.FrontSpared claimed := by
  refine imp_congr_right fun front => ?_
  rw [← starts]
  omega

/-- A deletion spares the back. -/
theorem deleteEnd_spares_iff (lineEnding : LineEnding) :
    (pair.backStart < pair.neighbour.byteRange.2 →
      deleteEnd content pair.target.byteRange.2 lineEnding ≤ pair.backStart) ↔
        pair.BackSpared lineEnding := by
  refine imp_congr_right fun back => ?_
  exact deleteEnd_le_iff (le_max_right _ _)
    (back.trans_le pair.neighbourValid.bounded) _

/-- A replacement spares the front. -/
theorem signatureSpared_iff :
    (pair.neighbour.effectiveStart < pair.frontEnd → pair.frontEnd ≤
      doclessReplacementSpliceStart content (signatureLine content pair.target)
        pair.target.byteRange.1) ↔ pair.SignatureSpared := by
  refine imp_congr_right fun front => ?_
  obtain ⟨above, -, unmarked⟩ := doclessStart_bounds pair.targetValid
  have line := lt_lastLineStart_iff content (pair.frontEnd - 1) pair.target.byteRange.1
  change pair.frontEnd - 1 < signatureLine content pair.target ↔ _ at line
  rw [← line]
  cases marked : sameLineDocPrefixEnd ((content.take pair.target.byteRange.1).drop
      (signatureLine _ pair.target)) with
  | none =>
    rw [unmarked.mpr marked]
    constructor
    · intro ends
      exact .inl (by omega)
    · rintro (earlier | ⟨stop, kept, -⟩)
      · omega
      · cases kept
  | some stop =>
    have starts : doclessReplacementSpliceStart content (signatureLine content pair.target)
        pair.target.byteRange.1 = signatureLine content pair.target + stop := by
      have kept := mt unmarked.mp (by rw [marked]; nofun)
      unfold doclessReplacementSpliceStart at kept ⊢
      split at kept
      · exact absurd rfl kept
      rename_i inside
      rw [if_neg inside, marked]
    rw [starts]
    constructor
    · intro ends
      exact .inr ⟨_, rfl, ends⟩
    · rintro (earlier | ⟨other, kept, ends⟩)
      · omega
      cases kept
      exact ends

/-- A deletion removes no byte of the neighbour exactly when its last byte in front lies above all
claimed lines and its first byte behind lies below the target's line and the empty line that goes
with it. A replacement spares it exactly when it keeps clear of the lines in front. -/
theorem spared_iff (pair : Neighbours content) :
    (∀ lineEnding, ∃ range, deleteSourceRange content pair.target lineEnding = .ok range ∧
      (Apart range (effectiveRange pair.neighbour) ↔
        pair.DeleteSpares lineEnding)) ∧
    ∀ newBody, ∃ range, replacementSpliceRange content pair.target newBody = .ok range ∧
      (Apart range (effectiveRange pair.neighbour) ↔
        pair.ReplaceSpares newBody) := by
  have valid := pair.targetValid
  have ordered := valid.ordered
  have effective := valid.effective
  have inside : pair.target.effectiveStart ≤ content.length :=
    effective.trans (ordered.trans valid.bounded)
  refine ⟨fun lineEnding => ?_, fun newBody => ?_⟩
  · obtain ⟨start, deletes, starts⟩ := deleteSourceRange_start pair.target _ inside
    refine ⟨_, deletes, ?_⟩
    have early : start ≤ pair.target.effectiveStart := by
      by_contra late
      have breaks := (starts pair.target.effectiveStart).mp (by omega)
      rw [lineBreaks, drop_eq_nil_of_le (length_take_le _ _)] at breaks
      cases breaks
    have late : pair.target.byteRange.2 ≤
        deleteEnd content pair.target.byteRange.2 lineEnding :=
      (le_afterLine _ _).trans (afterLine_le_deleteEnd _ _ _)
    rw [pair.disjoint_iff (by omega) late, pair.frontSpared_iff starts, pair.deleteEnd_spares_iff]
    rfl
  · obtain ⟨start, below, replaces⟩ := replacementSpliceRange_ok valid _
    refine ⟨_, replaces, ?_⟩
    have behind : pair.backStart < pair.neighbour.byteRange.2 →
        pair.target.byteRange.2 ≤ pair.backStart := fun _ => le_max_right _ _
    rw [pair.disjoint_iff (below.trans ordered) le_rfl, and_iff_left behind]
    unfold ReplaceSpares
    split
    · rename_i docs
      obtain ⟨found, extended, starts⟩ := extendPastOrphanedDocs_start _ pair.target
      have batch : batchReplaceStart content pair.target = .ok found := by
        unfold batchReplaceStart
        rw [lineStart_ok inside]
        exact extended
      rw [replacementSpliceRange_docs valid docs batch] at replaces
      cases replaces
      exact pair.frontSpared_iff starts
    · rename_i docless
      rw [replacementSpliceRange_docless valid (Bool.not_eq_true _ ▸ docless)] at replaces
      cases replaces
      exact pair.signatureSpared_iff

/-- A function without docs at the given bytes. -/
def plainFunction (name : String) (start stop : Nat) : SymbolRecord where
  name := name
  kind := .function
  byteRange := (start, stop)
  lineRange := (0, 0)
  docByteRange := none

/-- Two functions on one line. -/
def oneLine : Bytes := utf8 "fn a() \x7b\x7d fn b() \x7b\x7d\n"

/-- Two functions on a line each. -/
def twoLines : Bytes := utf8 "fn a() \x7b\x7d\nfn b() \x7b\x7d\n"

/-- An attribute on the function's line. -/
def attributedLine : Bytes := utf8 "#[inline] fn a() \x7b\x7d\nfn b() \x7b\x7d\n"

/-- Two functions on one line. -/
def onOneLine : Neighbours oneLine where
  target := plainFunction "a" 0 9
  neighbour := plainFunction "b" 10 19
  targetValid := ⟨by decide, by decide, by decide⟩
  neighbourValid := ⟨by decide, by decide, by decide⟩
  disjoint := by decide

/-- The same two, where the second is the one that is edited. -/
def onOneLineSecond : Neighbours oneLine where
  target := onOneLine.neighbour
  neighbour := onOneLine.target
  targetValid := onOneLine.neighbourValid
  neighbourValid := onOneLine.targetValid
  disjoint := by decide

/-- A function that shares its line with its own attribute, above the one that is edited. -/
def underAttribute : Neighbours attributedLine where
  target := plainFunction "b" 20 29
  neighbour := plainFunction "a" 10 19
  targetValid := ⟨by decide, by decide, by decide⟩
  neighbourValid := ⟨by decide, by decide, by decide⟩
  disjoint := by decide

/-- Deleting the first of two functions on a line removes the second, replacing the second
overwrites the first, and deleting below `#[inline] fn a()` removes `a`. -/
theorem neighbours_destroyed :
    (∃ range, deleteSourceRange oneLine onOneLine.target .lf = .ok range ∧
      ¬ Apart range (effectiveRange onOneLine.neighbour)) ∧
    (∃ range, replacementSpliceRange oneLine onOneLineSecond.target "fn c();" = .ok range ∧
      ¬ Apart range (effectiveRange onOneLineSecond.neighbour)) ∧
    ∃ range, deleteSourceRange attributedLine underAttribute.target .lf = .ok range ∧
      ¬ Apart range (effectiveRange underAttribute.neighbour) := by
  exact ⟨⟨(0, 20), rfl, by decide⟩, ⟨(0, 19), rfl, by decide⟩, ⟨(0, 30), rfl, by decide⟩⟩

/-- Two functions on lines of their own. -/
def onOwnLines : Neighbours twoLines where
  target := plainFunction "b" 10 19
  neighbour := plainFunction "a" 0 9
  targetValid := ⟨by decide, by decide, by decide⟩
  neighbourValid := ⟨by decide, by decide, by decide⟩
  disjoint := by decide

/-- The second of them is deleted and replaced without a byte of the first. -/
theorem own_lines_spared :
    (∃ range, deleteSourceRange twoLines onOwnLines.target .lf = .ok range ∧
      Apart range (effectiveRange onOwnLines.neighbour)) ∧
    ∃ range, replacementSpliceRange twoLines onOwnLines.target "fn c();" = .ok range ∧
      Apart range (effectiveRange onOwnLines.neighbour) := by
  obtain ⟨deletes, replaces⟩ := spared_iff onOwnLines
  obtain ⟨deleted, isDeleted, spares⟩ := deletes .lf
  obtain ⟨replaced, isReplaced, keeps⟩ := replaces "fn c();"
  refine ⟨⟨_, isDeleted, spares.mpr ⟨fun _ => by decide, nofun⟩⟩, _, isReplaced, keeps.mpr ?_⟩
  exact fun _ => .inl (by decide)

end Neighbours

end Symforge.Edit
