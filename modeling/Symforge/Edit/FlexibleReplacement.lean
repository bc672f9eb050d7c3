import Symforge.Edit.FlexibleWindows

/-!
# Where the whitespace-flexible replacement writes

The windows of the fallback start and end at line starts of the body. The windows are replaced from
the last to the first; as long as they do not overlap, each replacement finds the body as it was, up
to the end of its window.
-/

namespace Symforge.Edit

open List Library Nat

variable {line result : Bytes} {starts : List Nat} {first : Nat}

/-! ### Line offsets -/

variable (text : Bytes)

/-- Where a line of the text starts, or the end of the text behind its last line. -/
def lineOffset (line : Nat) : Nat := (0 :: lineStartsFrom 0 text).getD line text.length

/-- No line starts within a line. -/
theorem lineStartsFrom_line (clean : 0x0A ∉ line) (position : Nat) :
    lineStartsFrom position line = [] := by
  induction line generalizing position with
  | nil => rfl
  | cons byte rest ih =>
    obtain ⟨here, later⟩ := not_or.mp (mem_cons.not.mp clean)
    rw [lineStartsFrom, if_neg (Ne.symm here), ih later]

/-- The next line starts behind the line feed. -/
theorem lineStartsFrom_cons (clean : 0x0A ∉ line) (rest : Bytes) (position : Nat) :
    lineStartsFrom position (line ++ 0x0A :: rest) =
      (position + line.length + 1) :: lineStartsFrom (position + line.length + 1) rest := by
  induction line generalizing position with
  | nil => rw [nil_append, lineStartsFrom, if_pos rfl]; rfl
  | cons byte line ih =>
    obtain ⟨here, later⟩ := not_or.mp (mem_cons.not.mp clean)
    rw [cons_append, lineStartsFrom, if_neg (Ne.symm here), ih later, length_cons]
    congr 1 <;> grind

/-- Line starts count from the position. -/
theorem lineStartsFrom_shift (position : Nat) (text : Bytes) :
    lineStartsFrom position text = (lineStartsFrom 0 text).map (position + ·) := by
  induction text using lineInduction generalizing position with
  | last line clean => rw [lineStartsFrom_line clean, lineStartsFrom_line clean, map_nil]
  | cons line rest clean ih =>
    rw [lineStartsFrom_cons clean, lineStartsFrom_cons clean, ih, ih (0 + line.length + 1),
      map_cons, map_map]
    congr 1
    · omega
    · refine map_congr_left fun start _ => ?_
      simp only [Function.comp_apply]
      omega

variable {number : Nat}

/-- Behind the only line is its end. -/
theorem lineOffset_line (clean : 0x0A ∉ line) : lineOffset line (number + 1) = line.length := by
  rw [lineOffset, lineStartsFrom_line clean]
  rfl

/-- The lines behind the first. -/
theorem lineOffset_cons (clean : 0x0A ∉ line) (rest : Bytes) :
    lineOffset (line ++ 0x0A :: rest) (number + 1) =
      line.length + 1 + lineOffset rest number := by
  unfold lineOffset
  rw [lineStartsFrom_cons clean, getD_cons_succ, zero_add]
  cases number with
  | zero => rfl
  | succ number =>
    rw [getD_cons_succ, getD_cons_succ, lineStartsFrom_shift, length_append,
      length_cons, getD_eq_getElem?_getD, getD_eq_getElem?_getD, getElem?_map,
      add_comm rest.length, ← add_assoc, Option.getD_map]

/-- Later lines start later. -/
theorem lineOffset_mono {one other : Nat} (ordered : one ≤ other) :
    lineOffset text one ≤ lineOffset text other := by
  induction text using lineInduction generalizing one other with
  | last line clean =>
    cases one with
    | zero => exact zero_le _
    | succ one =>
      obtain ⟨other, rfl⟩ := exists_eq_add_one_of_ne_zero (show other ≠ 0 by omega)
      rw [lineOffset_line clean, lineOffset_line clean]
  | cons line rest clean ih =>
    cases one with
    | zero => exact zero_le _
    | succ one =>
      obtain ⟨other, rfl⟩ := exists_eq_add_one_of_ne_zero (show other ≠ 0 by omega)
      rw [lineOffset_cons clean, lineOffset_cons clean]
      exact Nat.add_le_add_left (ih (Nat.le_of_succ_le_succ ordered)) _

/-- A line feed more than the rest. -/
theorem count_lineFeed_cons (clean : 0x0A ∉ line) (rest : Bytes) :
    (line ++ 0x0A :: rest).count 0x0A = rest.count 0x0A + 1 := by
  rw [count_append, count_eq_zero_of_not_mem clean, count_cons_self, zero_add]

/-- A line feed stands in front of every line but the first. -/
theorem lineOffset_terminated (starts : 0 < number)
    (counted : number ≤ text.count 0x0A) :
    (text.take (lineOffset text number)).getLast? = some 0x0A := by
  obtain ⟨number, rfl⟩ := exists_eq_add_one_of_ne_zero (ne_of_gt starts)
  clear starts
  induction text using lineInduction generalizing number with
  | last line clean =>
    rw [count_eq_zero_of_not_mem clean] at counted
    cases counted
  | cons line rest clean ih =>
    rw [count_lineFeed_cons clean] at counted
    rw [lineOffset_cons clean, add_assoc, take_length_add_append, add_comm 1,
      take_succ_cons, getLast?_append, getLast?_cons]
    cases number with
    | zero => rfl
    | succ number =>
      rw [ih _ (by omega)]
      rfl

/-- Lines that end with a line feed are not empty. -/
theorem lineOffset_lt {one other : Nat} (ordered : one < other)
    (counted : other ≤ text.count 0x0A) : lineOffset text one < lineOffset text other := by
  induction text using lineInduction generalizing one other with
  | last line clean =>
    rw [count_eq_zero_of_not_mem clean] at counted
    omega
  | cons line rest clean ih =>
    rw [count_lineFeed_cons clean] at counted
    obtain ⟨other, rfl⟩ := exists_eq_add_one_of_ne_zero (show other ≠ 0 by omega)
    rw [lineOffset_cons clean]
    cases one with
    | zero => exact (succ_pos line.length).trans_le (le_add_right _ _)
    | succ one =>
      rw [lineOffset_cons clean]
      exact Nat.add_lt_add_left (ih (Nat.lt_of_succ_lt_succ ordered) (by omega)) _

/-- Behind all lines is the end. -/
theorem lineOffset_behind (behind : text.count 0x0A < number) :
    lineOffset text number = text.length := by
  obtain ⟨number, rfl⟩ := exists_eq_add_one_of_ne_zero (show number ≠ 0 by omega)
  induction text using lineInduction generalizing number with
  | last line clean => exact lineOffset_line clean
  | cons line rest clean ih =>
    rw [count_lineFeed_cons clean] at behind
    obtain ⟨number, rfl⟩ := exists_eq_add_one_of_ne_zero (show number ≠ 0 by omega)
    rw [lineOffset_cons clean, ih _ (by omega), length_append, length_cons]
    omega

/-- Lines start inside the text. -/
theorem lineOffset_le : lineOffset text number ≤ text.length := by
  have atEnd := lineOffset_behind text (Nat.lt_add_left number (Nat.lt_add_one _))
  rw [← atEnd]
  exact lineOffset_mono _ (le_add_right _ _)

/-! ### Windows -/

variable {bodyLines trimmed : List Bytes}

/-- A window has all lines of the pattern. -/
theorem windowHit_length
    (hit : windowHit bodyLines trimmed = .ok true) : trimmed.length ≤ bodyLines.length := by
  fun_induction windowHit bodyLines trimmed with
  | case1 => exact zero_le _
  | case2 => cases hit
  | case3 _ rest others ih => exact succ_le_succ (ih hit)
  | case4 => cases hit

/-- The windows are found in ascending order, and have all their lines in the body. -/
theorem matchingWindows_spec {replaceAll : Bool} {start rounds : Nat} (wanted : trimmed ≠ [])
    (found : matchingWindows bodyLines trimmed replaceAll start rounds = .ok starts) :
    (∀ first ∈ starts, start ≤ first ∧ first + trimmed.length ≤ bodyLines.length) ∧
      starts.Pairwise (· < ·) := by
  induction rounds generalizing start starts with
  | zero =>
    cases found
    exact ⟨nofun, List.Pairwise.nil⟩
  | succ rounds ih =>
    rw [matchingWindows] at found
    obtain ⟨hit, tested, after⟩ := bind_eq_ok found
    cases hit with
    | false =>
      obtain ⟨windows, ascending⟩ := ih after
      exact ⟨fun first member => (windows _ member).imp_left le_of_succ_le, ascending⟩
    | true =>
      have length := windowHit_length tested
      have some_lines := length_pos_of_ne_nil wanted
      rw [length_drop] at length
      have here : start ≤ start ∧ start + trimmed.length ≤ bodyLines.length := ⟨le_rfl, by omega⟩
      rw [if_pos rfl] at after
      split at after
      · obtain ⟨later, rest, same⟩ := bind_eq_ok after
        cases same
        obtain ⟨windows, ascending⟩ := ih rest
        refine ⟨forall_mem_cons.mpr ⟨here, fun first member => ?_⟩,
          pairwise_cons.mpr ⟨fun first member => (windows _ member).1, ascending⟩⟩
        exact (windows _ member).imp_left le_of_succ_le
      · cases after
        exact ⟨forall_mem_singleton.mpr here, pairwise_singleton _ _⟩

/-- Unless all windows are replaced, the first one is. -/
theorem matchingWindows_single {start rounds : Nat}
    (found : matchingWindows bodyLines trimmed false start rounds = .ok starts) :
    starts.length ≤ 1 := by
  induction rounds generalizing start with
  | zero =>
    cases found
    exact zero_le _
  | succ rounds ih =>
    rw [matchingWindows] at found
    obtain ⟨hit, -, after⟩ := bind_eq_ok found
    cases hit with
    | false => exact ih after
    | true =>
      cases after
      exact le_rfl

/-- The lines that are written for a window of the body. -/
def writtenLines (body : Bytes) (oldLines : List Bytes) (newText : Bytes) (first : Nat) :
    Except EditFault (List Bytes) :=
  (lines newText).mapM fun line => reindentLine line (indentOfFirstNonempty oldLines)
    (indentOfFirstNonempty (((lines body).drop first).take oldLines.length))

/-- One round of the replacement, from the first line of the window to the line behind it. -/
theorem replaceWindow_ok {body newText next : Bytes} {oldLines : List Bytes}
    (made : replaceWindow body oldLines newText result first = .ok next) :
    ∃ written, writtenLines body oldLines newText first = .ok written ∧
      next = result.take (lineOffset body first) ++
        windowText written (decide (lineOffset body first <
            lineOffset body (first + oldLines.length) ∧
          result[lineOffset body (first + oldLines.length) - 1]? = some 0x0A)) ++
        result.drop (lineOffset body (first + oldLines.length)) := by
  unfold replaceWindow at made
  dsimp only at made
  split at made
  · cases made
  rename_i byteStart found
  have starts : lineOffset body first = byteStart := by
    rw [lineOffset, getD_eq_getElem?_getD, found, Option.getD_some]
  obtain ⟨written, indented, replaced⟩ := bind_eq_ok made
  refine ⟨written, indented, ?_⟩
  unfold replaceRange at replaced
  split at replaced
  · cases replaced
    rw [starts]
    unfold windowText
    simp only [decide_eq_true_eq, and_assoc]
    rfl
  · cases replaced

section Replacement

variable {body newText : Bytes} {oldLines : List Bytes}
  {bodyLines trimmed : List Bytes} {starts : List Nat} {first : Nat} {result : Bytes}

/-- The rounds of a replacement, from the last window to the first. -/
theorem replaceWindows_cons
    (replaced : (first :: starts).reverse.foldlM (replaceWindow body oldLines newText) body =
      .ok result) :
    ∃ before, starts.reverse.foldlM (replaceWindow body oldLines newText) body = .ok before ∧
      replaceWindow body oldLines newText before first = .ok result := by
  rw [reverse_cons, foldlM_append] at replaced
  obtain ⟨before, earlier, last⟩ := bind_eq_ok replaced
  rw [foldlM_cons] at last
  obtain ⟨after, moved, same⟩ := bind_eq_ok last
  cases same
  exact ⟨_, earlier, moved⟩

/-- The body is as it was in front of the line where the first replaced window starts. -/
theorem take_replaceWindows
    (replaced : starts.reverse.foldlM (replaceWindow body oldLines newText) body = .ok result)
    {number : Nat} (before : ∀ first ∈ starts, number ≤ first) :
    result.take (lineOffset body number) = body.take (lineOffset body number) := by
  induction starts generalizing result with
  | nil =>
    cases replaced
    rfl
  | cons first starts ih =>
    obtain ⟨here, later⟩ := forall_mem_cons.mp before
    obtain ⟨earlier, behind, last⟩ := replaceWindows_cons replaced
    obtain ⟨written, -, rfl⟩ := replaceWindow_ok last
    rw [append_assoc]
    exact take_splice _ (lineOffset_le _) (ih behind later) (lineOffset_mono _ here)

/-- The bytes of the written lines are those of the new text and of the body. -/
theorem mem_writtenLines {written : List Bytes}
    (made : writtenLines body oldLines newText first = .ok written) {line : Bytes}
    (member : line ∈ written) {byte : UInt8} (inside : byte ∈ line) :
    (∃ new ∈ lines newText, byte ∈ new) ∨ ∃ old ∈ lines body, byte ∈ old.dropLast := by
  obtain ⟨new, among, indented⟩ := exists_of_mem_mapM made member
  rcases mem_append.mp (reindentLine_subset indented inside) with inNew | inBase
  · exact .inl ⟨new, among, inNew⟩
  obtain ⟨old, inWindow, inOld⟩ := indentOfFirstNonempty_subset inBase
  exact .inr ⟨old, mem_of_mem_drop (mem_of_mem_take inWindow), inOld⟩

/-- A replacement of windows writes bytes of the body and of the new text, and line feeds. -/
theorem mem_replaceWindows
    (replaced : starts.reverse.foldlM (replaceWindow body oldLines newText) body = .ok result)
    {byte : UInt8} (member : byte ∈ result) :
    byte = 0x0A ∨ byte ∈ body ∨ byte ∈ newText := by
  induction starts generalizing result with
  | nil =>
    cases replaced
    exact .inr (.inl member)
  | cons first starts ih =>
    obtain ⟨earlier, behind, last⟩ := replaceWindows_cons replaced
    obtain ⟨written, made, rfl⟩ := replaceWindow_ok last
    rcases mem_append.mp member with inFront | inBack
    · rcases mem_append.mp inFront with kept | new
      · exact ih behind (mem_of_mem_take kept)
      rcases mem_windowText new with lineFeed | ⟨line, among, inside⟩
      · exact .inl lineFeed
      rcases mem_writtenLines made among inside with ⟨new, listed, inNew⟩ | ⟨old, listed, inOld⟩
      · exact .inr (.inr ((mem_lines listed).1 inNew))
      · exact .inr (.inl ((mem_lines listed).1 (dropLast_subset _ inOld)))
    · exact ih behind (mem_of_mem_drop inBack)

/-- The written lines have no terminators, and are empty where the new ones are blank. -/
theorem writtenLines_spec {start stop : Bool} (reads : pairRun start body = some stop)
    (cleanNew : pairRun false newText = some false) {written : List Bytes}
    (made : writtenLines body oldLines newText first = .ok written) :
    SameBlanks (lines newText) written ∧ (∀ line ∈ written, 0x0A ∉ line) ∧
      ∀ line ∈ written, 0x0D ∉ line := by
  refine ⟨?_, fun line member inside => ?_, fun line member inside => ?_⟩
  · refine List.Forall₂.imp (fun line out indented => ?_) ((mapM_eq_ok_iff _).mp made)
    exact reindentLine_eq_nil_iff (indentOfFirstNonempty_blank _) indented
  · rcases mem_writtenLines made member inside with ⟨new, among, inNew⟩ | ⟨old, among, inOld⟩
    · exact (mem_lines among).2 inNew
    · exact (mem_lines among).2 (dropLast_subset _ inOld)
  · rcases mem_writtenLines made member inside with ⟨new, among, inNew⟩ | ⟨old, among, inOld⟩
    · exact (pairRun_lines cleanNew among).2 rfl inNew
    · exact (pairRun_lines reads among).1 inOld

/-- The window is terminated: a line follows it, or a line feed ends it. -/
def windowTerminated (body : Bytes) (window first : Nat) : Bool :=
  decide (first + window ≤ body.count 0x0A)

/-- The state behind a line feed, and behind the whole body. -/
theorem pairRun_lineOffset {start stop : Bool} (reads : pairRun start body = some stop)
    (number : Nat) :
    pairRun start (body.take (lineOffset body number)) =
      some (if number = 0 then start else decide (body.count 0x0A < number) && stop) := by
  by_cases zero : number = 0
  · rw [if_pos zero, zero]
    rfl
  rw [if_neg zero]
  by_cases behind : body.count 0x0A < number
  · rw [lineOffset_behind _ behind, take_length, reads, decide_eq_true behind, Bool.true_and]
  have lineFeed := lineOffset_terminated _ (Nat.pos_of_ne_zero zero)
    (Nat.le_of_not_lt behind)
  obtain ⟨state, before, -⟩ := pairRun_take reads (lineOffset _ number)
  have some_text : body.take (lineOffset body number) ≠ [] := by
    intro empty
    rw [empty] at lineFeed
    cases lineFeed
  have known := pairRun_getLast before some_text
  rw [lineFeed] at known
  rw [before, known, decide_eq_false behind]
  rfl

/-- A replacement writes a line feed behind the new lines when the window was terminated. -/
theorem windowTerminated_eq {window : Nat} {earlier : Bytes} (wanted : 0 < window)
    (inside : first + window ≤ (lines body).length)
    (kept : earlier.take (lineOffset body (first + window)) =
      body.take (lineOffset body (first + window))) :
    decide (lineOffset body first < lineOffset body (first + window) ∧
      earlier[lineOffset body (first + window) - 1]? = some 0x0A) =
        windowTerminated body window first := by
  have lastByte : ∀ stop, 0 < stop → stop ≤ body.length →
      earlier.take stop = body.take stop → earlier[stop - 1]? = (body.take stop).getLast? := by
    intro stop positive bounded same
    rw [getLast?_eq_getElem?, length_take, min_eq_left bounded, ← same,
      getElem?_take_of_lt (by omega)]
  unfold windowTerminated
  rw [decide_eq_decide]
  by_cases terminated : first + window ≤ body.count 0x0A
  · have grows := lineOffset_lt _ (show first < first + window by omega) terminated
    rw [lastByte _ (by omega) (lineOffset_le _) kept, lineOffset_terminated _ (by omega) terminated]
    exact iff_of_true ⟨grows, rfl⟩ terminated
  · obtain ⟨most, unterminated⟩ := length_lines body
    obtain ⟨some_body, noFeed⟩ := unterminated (by omega)
    have atEnd := lineOffset_behind _ (show body.count 0x0A < first + window by omega)
    rw [atEnd] at kept ⊢
    refine iff_of_false (fun ends => noFeed ?_) terminated
    rw [← ends.2, lastByte _ (length_pos_of_ne_nil some_body) le_rfl kept, take_length]

/-- Windows that do not overlap are replaced within the `\r\n` style exactly when the new lines fit
into each of them. -/
theorem pairRun_replaceWindows_iff {start stop : Bool} (reads : pairRun start body = some stop)
    (cleanNew : pairRun false newText = some false) (wanted : 0 < oldLines.length)
    (windows : ∀ first ∈ starts, first + oldLines.length ≤ (lines body).length)
    (apart : starts.Pairwise fun one other => one + oldLines.length ≤ other)
    (replaced : starts.reverse.foldlM (replaceWindow body oldLines newText) body = .ok result) :
    pairRun start result = some stop ↔ ∀ first ∈ starts, WindowFits (decide (first = 0) && start)
        (!windowTerminated body oldLines.length first && stop) (lines newText)
        (windowTerminated body oldLines.length first) := by
  induction starts generalizing result with
  | nil =>
    cases replaced
    exact iff_of_true reads nofun
  | cons first starts ih =>
    obtain ⟨inside, insideLater⟩ := forall_mem_cons.mp windows
    obtain ⟨far, apartLater⟩ := pairwise_cons.mp apart
    obtain ⟨earlier, behind, last⟩ := replaceWindows_cons replaced
    obtain ⟨written, made, rfl⟩ := replaceWindow_ok last
    obtain ⟨same, noFeeds, noReturns⟩ := writtenLines_spec reads cleanNew made
    have keptFar := take_replaceWindows behind far
    have keptNear := take_replaceWindows behind
      fun other member => le_of_add_right_le (far _ member)
    have most := (length_lines body).1
    -- the states in front of the window and behind it
    have front := pairRun_lineOffset reads first
    have back := pairRun_lineOffset reads (first + oldLines.length)
    rw [decide_eq_false (by omega), Bool.false_and] at front
    rw [if_neg (by omega)] at back
    have startState : (if first = 0 then start else false) = (decide (first = 0) && start) := by
      split <;> simp [*]
    have stopState : (decide (body.count 0x0A < first + oldLines.length) && stop) =
        (!windowTerminated body oldLines.length first && stop) := by
      rw [windowTerminated, ← decide_not]
      exact congrArg (· && stop) (decide_eq_decide.mpr not_le.symm)
    rw [startState, ← keptNear] at front
    rw [stopState, ← keptFar] at back
    rw [windowTerminated_eq wanted inside keptFar, forall_mem_cons,
      ← ih insideLater apartLater behind, ← pairRun_windowText_iff same noFeeds noReturns]
    constructor
    · intro accepted
      rw [append_assoc, pairRun_append, front, Option.bind_some, pairRun_append] at accepted
      obtain ⟨state, leads, ends⟩ := Option.bind_eq_some_iff.mp accepted
      -- only the last window can be unterminated, and nothing was replaced behind that one
      have known : state = (!windowTerminated body oldLines.length first && stop) := by
        cases terminated : windowTerminated body oldLines.length first with
        | true =>
          rw [terminated] at leads
          have noReturn := windowText_no_return noReturns true
          have lastByte := pairRun_getLast leads (windowText_ne_nil)
          rw [lastByte, Bool.not_true, Bool.false_and, beq_eq_false_iff_ne]
          exact fun return_ => noReturn (mem_of_getLast? return_)
        | false =>
          have alone : starts = [] := by
            by_contra more
            obtain ⟨other, rest, rfl⟩ := exists_cons_of_ne_nil more
            have apartFirst := far _ mem_cons_self
            have insideOther := insideLater _ mem_cons_self
            rw [windowTerminated, decide_eq_false_iff_not] at terminated
            omega
          subst alone
          cases behind
          obtain ⟨other, before, after⟩ := pairRun_take reads
            (lineOffset _ (first + oldLines.length))
          rw [back, terminated] at before
          cases before
          exact pairRun_end ends after
      rw [known] at leads ends
      refine ⟨leads, ?_⟩
      rw [← take_append_drop (lineOffset body (first + oldLines.length)) earlier,
        pairRun_append, back, Option.bind_some]
      exact ends
    · rintro ⟨leads, accepted⟩
      rw [← take_append_drop (lineOffset body (first + oldLines.length)) earlier,
        pairRun_append, back, Option.bind_some] at accepted
      exact (pairRun_splice_iff front accepted).mpr leads

end Replacement

end Symforge.Edit
