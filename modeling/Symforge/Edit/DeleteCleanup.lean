import Symforge.Edit.ReplaceAgreement
/-!
# What a deletion removes

`build_delete` removes the range of a symbol and then shortens every long run of blank lines in the
whole file. `delete_cleanup_ranges` predicts the second part in the coordinates of the original
content; here both are shown to be the same (`buildDelete_eq`), for either line ending.
-/

namespace Symforge.Edit

open Library List

/-- The removed ranges found so far hold at least one position each. -/
def Inhabited (removed : List (Nat × Nat)) : Prop := ∀ range ∈ removed, range.1 < range.2

section Joined

variable {removed : List (Nat × Nat)} {range : Nat × Nat}

/-- A range is added behind the others, or goes on where the last one ends. -/
theorem joinRange_cases (removed : List (Nat × Nat)) (range : Nat × Nat) :
    ∃ before first, joinRange removed range = before ++ [(first, range.2)] ∧
      (removed = before ∧ first = range.1 ∨ removed = before ++ [(first, range.1)]) := by
  unfold joinRange
  split
  · rename_i last isLast
    split
    · rename_i touches
      rw [← touches]
      exact ⟨_, _, rfl, .inr (dropLast_append_getLast? _ isLast).symm⟩
    · exact ⟨_, _, rfl, .inl ⟨rfl, rfl⟩⟩
  · rename_i empty
    exact ⟨[], _, rfl, .inl ⟨getLast?_eq_none_iff.mp empty, rfl⟩⟩

variable (inhabited : Inhabited removed)

include inhabited

/-- Joining a proper range leaves proper ranges. -/
theorem inhabited_joinRange (proper : range.1 < range.2) : Inhabited (joinRange removed range) := by
  obtain ⟨before, first, joined, split⟩ := joinRange_cases _ _
  rw [joined, Inhabited, forall_mem_append, forall_mem_singleton]
  rcases split with ⟨rfl, rfl⟩ | rfl
  · exact ⟨inhabited, proper⟩
  rw [Inhabited, forall_mem_append, forall_mem_singleton] at inhabited
  exact ⟨inhabited.1, inhabited.2.trans proper⟩

/-- Joining two ranges that touch adds the positions of the new one. -/
theorem inRanges_joinRange (proper : range.1 < range.2) (position : Nat) :
    inRanges (joinRange removed range) position =
      (inRanges removed position || decide (range.1 ≤ position ∧ position < range.2)) := by
  obtain ⟨before, first, joined, split⟩ := joinRange_cases _ _
  rw [joined, inRanges_append, inRanges_singleton]
  rcases split with ⟨rfl, rfl⟩ | rfl
  · rfl
  have last : first < range.1 := inhabited _ (mem_append_right _ mem_cons_self)
  rw [inRanges_append, inRanges_singleton, Bool.or_assoc, ← Bool.decide_or]
  congr 1
  rw [decide_eq_decide]
  omega

/-- One of the two pieces a range is split into. -/
theorem pushPiece_spec (start stop shift : Nat) :
    let pushed := if start ≥ stop then removed else joinRange removed (start + shift, stop + shift)
    Inhabited pushed ∧ ∀ position, inRanges pushed position =
      (inRanges removed position ||
        decide (start + shift ≤ position ∧ position < stop + shift)) := by
  split
  · rename_i empty
    refine ⟨inhabited, ?_⟩
    intro position
    rw [decide_eq_false (by omega), Bool.or_false]
  · rename_i proper
    have added : start + shift < stop + shift := by omega
    exact ⟨inhabited_joinRange inhabited added, inRanges_joinRange inhabited added⟩

/-- A pushed range adds the original positions of its bytes. -/
theorem pushCleanupRange_spec {start stop : Nat} {main : Nat × Nat} :
    ∀ position, inRanges (pushCleanupRange removed start stop main)
        (sourcePosition main.1 main.2 position) =
      (inRanges removed (sourcePosition main.1 main.2 position) ||
        decide (start ≤ position ∧ position < stop)) := by
  unfold pushCleanupRange
  obtain ⟨inhabitedFirst, first⟩ := pushPiece_spec inhabited _ (min _ main.1)
    (if start ≥ main.1 then main.2 - main.1 else 0)
  have second := (pushPiece_spec inhabitedFirst (max start main.1) stop
    (if max start main.1 ≥ main.1 then main.2 - main.1 else 0)).2
  intro position
  rw [second, first, Bool.or_assoc, ← Bool.decide_or]
  congr 1
  rw [decide_eq_decide]
  -- The first piece ends where the deletion starts and is not shifted, the second one is.
  rw [if_pos (Nat.le_max_right start main.1)]
  unfold sourcePosition
  split <;> split <;> omega

end Joined

/-- A scan that has come to `scanned` with the ranges `removed` and ends with `ranges` does not go
back, and `collapsed` is left of the text ahead. -/
structure Tracks (main : Nat × Nat) (scanned : Nat) (removed ranges : List (Nat × Nat))
    (text collapsed : Bytes) : Prop where
  earlier : ∀ position, position < scanned →
    inRanges ranges (sourcePosition main.1 main.2 position) =
      inRanges removed (sourcePosition main.1 main.2 position)
  left : collapsed = simultaneousFrom []
    (fun position => inRanges ranges (sourcePosition main.1 main.2 position)) scanned text

/-- No range found so far reaches a position from `scanned` on. -/
def Behind (main : Nat × Nat) (scanned : Nat) (removed : List (Nat × Nat)) : Prop :=
  ∀ position, scanned ≤ position →
    inRanges removed (sourcePosition main.1 main.2 position) = false

/-- The ranges found so far are in order, end at `limit` or before, and spare the deletion. -/
structure Ascending (main : Nat × Nat) (limit : Nat) (removed : List (Nat × Nat)) : Prop where
  inhabited : Inhabited removed
  ordered : removed.Pairwise fun one other => one.2 ≤ other.1
  reached : ∀ range ∈ removed, range.2 ≤ limit
  spared : ∀ position, main.1 ≤ position → position < main.2 → inRanges removed position = false

variable {content : Bytes}

section Scan

variable {main : Nat × Nat} {scanned : Nat} {removed ranges : List (Nat × Nat)}
  {rest collapsed : Bytes}

/-- A range from the limit on is joined. -/
theorem Ascending.join {limit : Nat} {range : Nat × Nat} (ascending : Ascending main limit removed)
    (above : limit ≤ range.1) (proper : range.1 < range.2)
    (apart : range.2 ≤ main.1 ∨ main.2 ≤ range.1) :
    Ascending main range.2 (joinRange removed range) := by
  have reached : ∀ other ∈ removed, other.2 ≤ range.2 := fun other member =>
    (ascending.reached _ member).trans (by omega)
  obtain ⟨before, first, joined, split⟩ := joinRange_cases removed range
  have earlier : before.Pairwise (fun one other => one.2 ≤ other.1) ∧
      (∀ one ∈ before, one.2 ≤ first) ∧ ∀ one ∈ before, one.2 ≤ range.2 := by
    rcases split with ⟨rfl, rfl⟩ | rfl
    · exact ⟨ascending.ordered, fun one member => (ascending.reached _ member).trans above, reached⟩
    obtain ⟨ordered, -, last⟩ := pairwise_append.mp ascending.ordered
    exact ⟨ordered, fun one member => last _ member _ mem_cons_self,
      (forall_mem_append.mp reached).1⟩
  refine ⟨inhabited_joinRange ascending.inhabited proper, ?_, ?_, fun position behind before => ?_⟩
  · rw [joined, pairwise_append]
    exact ⟨earlier.1, pairwise_singleton _ _, fun one member =>
      forall_mem_singleton.mpr (earlier.2.1 _ member)⟩
  · rw [joined, forall_mem_append, forall_mem_singleton]
    exact ⟨earlier.2.2, le_rfl⟩
  · rw [inRanges_joinRange ascending.inhabited proper, ascending.spared _ behind before,
      decide_eq_false (by omega)]
    rfl

/-- The limit may be further on. -/
theorem Ascending.mono {limit further : Nat} (ascending : Ascending main limit removed)
    (later : limit ≤ further) : Ascending main further removed :=
  { ascending with
    reached := fun _ member => (ascending.reached _ member).trans later }

/-- One more piece behind the limit. -/
theorem Ascending.piece {limit start stop shift : Nat} (ascending : Ascending main limit removed)
    (further : Nat) (later : limit ≤ further) (fits : start < stop → limit ≤ start + shift ∧
      stop + shift ≤ further ∧ (stop + shift ≤ main.1 ∨ main.2 ≤ start + shift)) :
    Ascending main further
      (if start ≥ stop then removed else joinRange removed (start + shift, stop + shift)) := by
  split
  · exact ascending.mono later
  rename_i proper
  obtain ⟨above, below, apart⟩ := fits (by omega)
  exact (ascending.join above (by dsimp only; omega) apart).mono below

section
variable (ascending : Ascending main (sourcePosition main.1 main.2 scanned) removed)
include ascending

/-- Text that stays moves the limit. -/
theorem Ascending.pass
    (size : Nat) : Ascending main (sourcePosition main.1 main.2 (scanned + size)) removed := by
  refine ascending.mono ?_
  unfold sourcePosition
  split_ifs <;> omega

/-- A range is pushed where the scan has come to. -/
theorem Ascending.push
    (proper : main.1 ≤ main.2) (size : Nat) :
    Ascending main (sourcePosition main.1 main.2 (scanned + size))
      (pushCleanupRange removed scanned (scanned + size) main) := by
  refine (ascending.piece (max (sourcePosition main.1 main.2 scanned)
    (min (scanned + size) main.1)) (Nat.le_max_left _ _) ?_).piece _ ?_ ?_
  all_goals
    unfold sourcePosition
    split_ifs <;> omega

/-- Ascending ranges are behind the scan. -/
theorem Ascending.behind : Behind main scanned removed := by
  intro position further
  refine any_eq_false.mpr fun range member => ?_
  have ends := ascending.reached _ member
  rw [decide_eq_true_eq]
  unfold sourcePosition at ends ⊢
  split_ifs at ends ⊢ <;> omega

end

/-- The scan passes bytes that stay. -/
theorem Tracks.keep (token : Bytes) (behind : Behind main scanned removed)
    (tail : Tracks main (scanned + token.length) removed ranges rest collapsed) :
    Tracks main scanned removed ranges (token ++ rest) (token ++ collapsed) where
  earlier := fun position before => tail.earlier _ (by omega)
  left := by
    rw [removeFrom_append, ← tail.left, removeFrom_eq_self]
    intro index below
    rw [tail.earlier _ (by omega)]
    exact behind _ (by omega)

/-- The scan passes bytes that go. -/
theorem Tracks.remove (token : Bytes) (inhabited : Inhabited removed)
    (tail : Tracks main (scanned + token.length)
      (pushCleanupRange removed scanned (scanned + token.length) main) ranges rest collapsed) :
    Tracks main scanned removed ranges (token ++ rest) collapsed where
  earlier := by
    intro position before
    rw [tail.earlier _ (by omega), pushCleanupRange_spec inhabited,
      decide_eq_false (by omega), Bool.or_false]
  left := by
    rw [removeFrom_append, ← tail.left, removeFrom_eq_nil, nil_append]
    intro index below
    rw [tail.earlier _ (by omega), pushCleanupRange_spec inhabited,
      decide_eq_true (by omega), Bool.or_true]

/-- The scan for long runs of line feeds finds what the collapse leaves out. -/
theorem cleanupLineFeeds_tracks (proper : main.1 ≤ main.2) (consecutive : Nat) (text : Bytes)
    (ascending : Ascending main (sourcePosition main.1 main.2 scanned) removed) :
    Tracks main scanned removed (cleanupLineFeeds main consecutive scanned removed text) text
        (collapseLineFeeds consecutive text) ∧
      Ascending main (sourcePosition main.1 main.2 (scanned + text.length))
        (cleanupLineFeeds main consecutive scanned removed text) := by
  induction text generalizing consecutive scanned removed with
  | nil => exact ⟨⟨fun _ _ => rfl, rfl⟩, ascending⟩
  | cons byte rest ih =>
    rw [length_cons, Nat.add_comm rest.length, ← Nat.add_assoc]
    unfold cleanupLineFeeds collapseLineFeeds
    split
    · by_cases long : consecutive + 1 > 2
      · rw [if_pos long, if_neg (by omega)]
        exact And.imp_left (.remove [byte] ascending.inhabited) (ih _ (ascending.push proper 1))
      · rw [if_neg long, if_pos (by omega)]
        exact And.imp_left (.keep [byte] ascending.behind) (ih _ (ascending.pass 1))
    · exact And.imp_left (.keep [byte] ascending.behind) (ih _ (ascending.pass 1))

/-- The scan for long runs of `\r\n` pairs finds what the collapse leaves out. -/
theorem cleanupPairs_tracks (proper : main.1 ≤ main.2) (consecutive : Nat) (text : Bytes)
    (ascending : Ascending main (sourcePosition main.1 main.2 scanned) removed) :
    Tracks main scanned removed (cleanupPairs main consecutive scanned removed text) text
        (collapsePairs consecutive text) ∧
      Ascending main (sourcePosition main.1 main.2 (scanned + text.length))
        (cleanupPairs main consecutive scanned removed text) := by
  fun_induction collapsePairs consecutive text generalizing scanned removed with
  | case1 => exact ⟨⟨fun _ _ => rfl, rfl⟩, ascending⟩
  | case2 consecutive byte =>
    exact ⟨.keep [byte] ascending.behind ⟨fun _ _ => rfl, rfl⟩, ascending.pass 1⟩
  | case3 consecutive first second rest pair short ih =>
    rw [cleanupPairs, if_pos pair, if_neg (by omega),
      show scanned + (first :: second :: rest).length = scanned + 2 + rest.length by simp; omega]
    exact And.imp_left (.keep [first, second] ascending.behind) (ih (ascending.pass 2))
  | case4 consecutive first second rest pair long ih =>
    rw [cleanupPairs, if_pos pair, if_pos (by omega),
      show scanned + (first :: second :: rest).length = scanned + 2 + rest.length by simp; omega]
    exact And.imp_left (.remove [first, second] ascending.inhabited)
      (ih (ascending.push proper 2))
  | case5 consecutive first second rest single ih =>
    rw [cleanupPairs, if_neg single, length_cons, Nat.add_comm (second :: rest).length,
      ← Nat.add_assoc]
    exact And.imp_left (.keep [first] ascending.behind) (ih (ascending.pass 1))

end Scan

/-! ### The range of a deletion -/

/-- Attributes stand in front. -/
theorem attributesStart_le (content : Bytes) (rounds start : Nat) :
    attributesStart content rounds start ≤ start := by
  induction rounds generalizing start with
  | zero => exact le_rfl
  | succ rounds ih =>
    have above := lastLineStart_le (content.take (start - 1))
    rw [length_take] at above
    have extended := ih (lastLineStart (content.take (start - 1)))
    unfold attributesStart
    dsimp only
    split_ifs <;> omega

/-- A byte is read inside the content. -/
theorem position_lt {position : Nat} {byte : UInt8} (found : content[position]? = some byte) :
    position < content.length :=
  (List.getElem?_eq_some_iff.mp found).1

/-- The end of a line is inside the content. -/
theorem afterLine_bounds {stop : Nat} (bounded : stop ≤ content.length) :
    stop ≤ afterLine content stop ∧ afterLine content stop ≤ content.length := by
  have line := (takeWhile_sublist (· != 0x0A) (l := content.drop stop)).length_le
  rw [length_drop] at line
  unfold afterLine
  dsimp only
  split
  · rename_i found
    have := position_lt found
    omega
  · omega

/-- The deletion goes on to the end of a line, and not past the end of the content. -/
theorem deleteEnd_bounds {stop : Nat} (lineEnding : LineEnding) (bounded : stop ≤ content.length) :
    stop ≤ deleteEnd content stop lineEnding ∧
      deleteEnd content stop lineEnding ≤ content.length := by
  have line := afterLine_bounds bounded
  unfold deleteEnd
  cases lineEnding with
  | lf =>
    dsimp only
    split
    · rename_i found
      have := position_lt found
      omega
    · omega
  | crLf =>
    dsimp only
    split
    · rename_i found
      have := position_lt found.2
      omega
    · omega

/-- The range of a deletion holds the symbol and lies in the content. -/
theorem deleteSourceRange_ok {sym : SymbolRecord} (valid : ValidSpan content sym)
    (lineEnding : LineEnding) :
    ∃ start stop, deleteSourceRange content sym lineEnding = .ok (start, stop) ∧
      start ≤ sym.effectiveStart ∧ sym.byteRange.2 ≤ stop ∧ stop ≤ content.length := by
  have ordered := valid.ordered
  have bounded := valid.bounded
  have effective := valid.effective
  have line := lastLineStart_le (content.take sym.effectiveStart)
  rw [length_take] at line
  have attributes := attributesStart_le content
    (lastLineStart (content.take sym.effectiveStart))
    (lastLineStart (content.take sym.effectiveStart))
  obtain ⟨start, below, extended⟩ := extendPastOrphanedDocs_ok sym
    (show extendPastLeadingAttributes content
      (lastLineStart (content.take sym.effectiveStart)) ≤ content.length by
        unfold extendPastLeadingAttributes
        omega)
  have stops := deleteEnd_bounds lineEnding bounded
  refine ⟨start, deleteEnd _ sym.byteRange.2 _, ?_, ?_, stops.1, stops.2⟩
  · rw [deleteSourceRange, lineStart_ok (by omega)]
    change (extendPastOrphanedDocs _ _ _ >>= _) = _
    rw [extended]
    rfl
  · unfold extendPastLeadingAttributes at below
    omega

/-- Deleting a symbol removes its range and the predicted cleanup ranges at once. -/
theorem buildDelete_eq {sym : SymbolRecord} (valid : ValidSpan content sym)
    (lineEnding : LineEnding) :
    ∃ start stop cleanup, deleteSourceRange content sym lineEnding = .ok (start, stop) ∧
      deleteCleanupRanges content sym lineEnding = .ok cleanup ∧
      buildDelete content sym lineEnding =
        .ok (simultaneous content [⟨start, stop, []⟩] (inRanges cleanup)) ∧
      start ≤ stop ∧ stop ≤ content.length ∧ Ascending (start, stop) content.length cleanup := by
  obtain ⟨start, stop, range, starts, stops, bounded⟩ := deleteSourceRange_ok valid _
  have effective := valid.effective
  have symbol := valid.ordered
  have ordered : start ≤ stop := by omega
  have initial : Ascending (start, stop) (sourcePosition start stop 0) [] :=
    ⟨nofun, List.Pairwise.nil, nofun, fun _ _ _ => rfl⟩
  have whole : sourcePosition start stop (0 + (applySplice content (start, stop) []).length) =
      content.length := by
    simp only [sourcePosition, applySplice, splice, length_append, length_take,
      length_drop, length_nil]
    split_ifs <;> omega
  rw [deleteCleanupRanges, buildDelete, range]
  cases lineEnding with
  | lf =>
    refine ⟨_, _, _, rfl, rfl, ?_, ordered, bounded, ?_⟩
    all_goals
      have tracked := cleanupLineFeeds_tracks ordered 0 (applySplice content (start, stop) [])
        initial
    · rw [simultaneous_deletion ordered bounded]
      exact congrArg Except.ok tracked.1.left
    · exact whole ▸ tracked.2
  | crLf =>
    refine ⟨_, _, _, rfl, rfl, ?_, ordered, bounded, ?_⟩
    all_goals
      have tracked := cleanupPairs_tracks ordered 0 (applySplice content (start, stop) []) initial
    · rw [simultaneous_deletion ordered bounded]
      exact congrArg Except.ok tracked.1.left
    · exact whole ▸ tracked.2

/-- The planned footprint of a deletion is what it removes: its range and the cleanup ranges, in
order, apart from each other and in the content. -/
theorem deleteFootprint_exact {sym : SymbolRecord} (valid : ValidSpan content sym)
    (lineEnding : LineEnding) :
    ∃ start stop cleanup, deleteSourceRange content sym lineEnding = .ok (start, stop) ∧
      deleteCleanupRanges content sym lineEnding = .ok cleanup ∧
      buildDelete content sym lineEnding =
        .ok (simultaneous content [⟨start, stop, []⟩] (inRanges cleanup)) ∧
      start ≤ stop ∧ stop ≤ content.length ∧
      cleanup.Pairwise (fun one other => one.2 ≤ other.1) ∧
      (∀ range ∈ cleanup, range.1 < range.2 ∧ range.2 ≤ content.length) ∧
      ∀ position, start ≤ position → position < stop → inRanges cleanup position = false := by
  obtain ⟨start, stop, cleanup, range, planned, built, ordered, bounded, ascending⟩ :=
    buildDelete_eq valid _
  exact ⟨_, _, cleanup, range, planned, built, ordered, bounded, ascending.ordered,
    fun range member => ⟨ascending.inhabited _ member, ascending.reached _ member⟩,
    ascending.spared⟩

/-- A function between blank lines. -/
def spacedFile : Bytes := utf8 "a\n\nfn b() {}\n\n\nc\n"

/-- That function. -/
def spacedSymbol : SymbolRecord := ⟨"b", .function, (3, 12), (3, 3), none⟩

/-- The line feed behind the deletion goes too, since three would stand in a row. -/
theorem spaced_footprint : buildDelete spacedFile spacedSymbol .lf = .ok (utf8 "a\n\nc\n") ∧
    ∃ cleanup, deleteCleanupRanges spacedFile spacedSymbol .lf = .ok cleanup ∧
      cleanup ≠ [] ∧ ∀ range ∈ cleanup, range.1 < range.2 ∧ range.2 ≤ spacedFile.length := by
  have valid : ValidSpan spacedFile spacedSymbol := ⟨by decide, by decide, by decide⟩
  obtain ⟨start, stop, cleanup, -, planned, -, -, -, -, within, -⟩ :=
    deleteFootprint_exact valid .lf
  refine ⟨rfl, cleanup, planned, ?_, within⟩
  cases planned
  decide

end Symforge.Edit
