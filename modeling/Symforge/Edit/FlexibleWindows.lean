import Mathlib.Data.List.TakeWhile
import Symforge.Edit.LineEndingStyle
import Symforge.Library.Sequence

/-!
# What the whitespace-flexible replacement writes

The fallback of an edit takes whole lines out of the body and writes the lines of the new text, each
with the indentation of the place, with a lone `\n` between them and behind the last one when the
lines it took were terminated. So the `\n` that it writes are known from the new text alone.
-/

namespace Symforge.Edit

open List Option

/-! ### Lines -/

variable {line : Bytes}

/-- A line has bytes of the text only, and no line feed. -/
theorem mem_lines {text : Bytes} (member : line ∈ lines text) : line ⊆ text ∧ 0x0A ∉ line := by
  refine ⟨(isInfix_of_mem_lines member).subset, ?_⟩
  induction text using lineInduction with
  | last text clean =>
    rw [lines_line clean] at member
    split at member
    · cases member
    rw [mem_singleton.mp member]
    exact clean
  | cons piece rest clean ih =>
    rw [lines_cons clean] at member
    rcases mem_cons.mp member with rfl | later
    · exact fun lineFeed => clean ((stripCarriageReturn_isPrefix).subset lineFeed)
    · exact ih later

variable (text : Bytes)

/-- There is a line for every line feed, and one for what stands behind the last. -/
theorem length_lines :
    (lines text).length ≤ text.count 0x0A + 1 ∧
      ((lines text).length = text.count 0x0A + 1 → text ≠ [] ∧ text.getLast? ≠ some 0x0A) := by
  induction text using lineInduction with
  | last text clean =>
    rw [lines_line clean, count_eq_zero_of_not_mem clean]
    cases text with
    | nil => simp
    | cons byte rest =>
      refine ⟨le_rfl, fun _ => ⟨cons_ne_nil _ _, fun lineFeed => ?_⟩⟩
      exact clean (mem_of_getLast? lineFeed)
  | cons piece rest clean ih =>
    rw [lines_cons clean, count_append, count_eq_zero_of_not_mem clean,
      count_cons_self, length_cons, Nat.zero_add]
    refine ⟨by omega, fun full => ⟨by simp, ?_⟩⟩
    obtain ⟨some_rest, unterminated⟩ := ih.2 (by omega)
    obtain ⟨byte, bytes, rfl⟩ := exists_cons_of_ne_nil some_rest
    rw [getLast?_append, getLast?_cons_cons]
    rw [getLast?_cons] at unterminated ⊢
    exact unterminated

/-- In a text of the `\r\n` style, a `\r` is the last byte of a piece between line feeds. -/
theorem pairRun_line (clean : 0x0A ∉ line) {first last : Bool}
    (reads : pairRun first line = some last) : 0x0D ∉ line.dropLast := by
  induction line generalizing first with
  | nil => exact not_mem_nil
  | cons byte rest ih =>
    obtain ⟨here, later⟩ := not_or.mp (mem_cons.not.mp clean)
    rw [pairRun] at reads
    obtain ⟨next, moves, behind⟩ := bind_eq_some_iff.mp reads
    cases rest with
    | nil => exact not_mem_nil
    | cons other rest =>
      have second : other ≠ 0x0A := fun same => later (same ▸ mem_cons_self)
      rw [dropLast_cons_cons]
      refine not_mem_cons_of_ne_of_not_mem ?_ (ih later behind)
      rintro rfl
      cases first <;> simp [pairStep] at moves
      simp [← moves, pairRun, pairStep, second] at behind

/-- The lines of a text of the `\r\n` style: only an unterminated one can end in `\r`. -/
theorem pairRun_lines {text : Bytes} {first last : Bool} (reads : pairRun first text = some last)
    (member : line ∈ lines text) :
    0x0D ∉ line.dropLast ∧ (last = false → 0x0D ∉ line) := by
  induction text using lineInduction generalizing first with
  | last text clean =>
    rw [lines_line clean] at member
    split at member
    · cases member
    rename_i some_text
    rw [mem_singleton.mp member]
    rw [List.isEmpty_iff] at some_text
    have inner := pairRun_line clean reads
    refine ⟨inner, fun ended inside => ?_⟩
    have lastByte := pairRun_getLast reads some_text
    rw [ended, eq_comm, beq_eq_false_iff_ne, getLast?_eq_some_getLast some_text] at lastByte
    rw [← dropLast_concat_getLast some_text, mem_append, mem_singleton] at inside
    rcases inside with inFront | atEnd
    · exact inner inFront
    · exact lastByte (congrArg some atEnd.symm)
  | cons piece rest clean ih =>
    rw [pairRun_append] at reads
    obtain ⟨waits, front, behind⟩ := bind_eq_some_iff.mp reads
    obtain ⟨next, moves, ends⟩ := bind_eq_some_iff.mp behind
    rw [lines_cons clean] at member
    rcases mem_cons.mp member with rfl | later
    · have bare : 0x0D ∉ stripCarriageReturn piece := by
        cases waits with
        | false => simp [pairStep] at moves
        | true =>
          unfold stripCarriageReturn
          by_cases some_piece : piece = []
          · rw [some_piece]
            exact not_mem_nil
          have ended := pairRun_getLast front some_piece
          rw [eq_comm, beq_iff_eq] at ended
          rw [if_pos ended]
          exact pairRun_line clean front
      exact ⟨fun inside => bare (dropLast_subset _ inside), fun _ => bare⟩
    · exact ih ends later

/-! ### Indentation -/

/-- A blank text is whitespace to its end. -/
theorem isBlank_iff : isBlank text = true ↔ leadingWhitespace text = text.length := by
  have bound := leadingWhitespace_le text
  rw [isBlank, trimStart, beq_iff_eq, drop_eq_nil_iff]
  omega

/-- The whitespace at the front of a text is blank. -/
theorem leadingWhitespace_take :
    leadingWhitespace (text.take (leadingWhitespace text)) = leadingWhitespace text := by
  fun_induction leadingWhitespace text with
  | case1 | case3 | case5 | case7 => rfl
  | case2 first rest white ih =>
    rw [take_succ_cons, leadingWhitespace.eq_def]
    dsimp only
    rw [if_pos white, ih]
  | case4 first plain second rest white ih =>
    rw [take_succ_cons, take_succ_cons, leadingWhitespace.eq_def]
    dsimp only
    rw [if_neg plain, if_pos white, ih]
  | case6 first plain second other third rest white ih =>
    rw [take_succ_cons, take_succ_cons, take_succ_cons, leadingWhitespace.eq_def]
    dsimp only
    rw [if_neg plain, if_neg other, if_pos white, ih]

/-- An indentation is blank. -/
theorem indentOfFirstNonempty_blank (pieces : List Bytes) :
    isBlank (indentOfFirstNonempty pieces) = true := by
  unfold indentOfFirstNonempty
  split
  · rename_i line _
    rw [isBlank_iff, leadingWhitespace_take, length_take, Nat.min_eq_left (leadingWhitespace_le _)]
  · rfl

/-- An indentation is in front of the last byte of one of the lines. -/
theorem indentOfFirstNonempty_subset {pieces : List Bytes} {byte : UInt8}
    (member : byte ∈ indentOfFirstNonempty pieces) : ∃ line ∈ pieces, byte ∈ line.dropLast := by
  unfold indentOfFirstNonempty at member
  split at member
  · rename_i line found
    have shown := find?_some found
    rw [Bool.not_eq_true', ← Bool.not_eq_true, isBlank_iff] at shown
    have bound := leadingWhitespace_le line
    refine ⟨_, mem_of_find?_eq_some found, ?_⟩
    rw [dropLast_eq_take]
    exact take_subset_take_left _ (by omega) member
  · cases member

/-- A slice has bytes of its text only. -/
theorem textSlice_subset {text part : Bytes} {start stop : Nat}
    (sliced : textSlice text start stop = .ok part) : part ⊆ text := by
  unfold textSlice slice at sliced
  split at sliced
  · split at sliced
    · cases sliced
      exact fun byte inside => mem_of_mem_take (mem_of_mem_drop inside)
    · cases sliced
  · cases sliced

/-- So has a trimmed text. -/
theorem trimStart_subset : trimStart text ⊆ text := drop_subset _ _

/-- A line that is indented anew has bytes of the line and of the new indentation. -/
theorem reindentLine_subset {oldBase fileBase out : Bytes}
    (made : reindentLine line oldBase fileBase = .ok out) : out ⊆ line ++ fileBase := by
  have trimmed := trimStart_subset line
  intro byte inside
  rw [mem_append]
  unfold reindentLine at made
  split at made
  · cases made
    cases inside
  split at made
  · cases made
    rcases mem_append.mp inside with base | rest
    · exact .inr base
    · exact .inl (mem_of_mem_drop rest)
  dsimp only at made
  split at made
  · split at made
    · obtain ⟨kept, sliced, same⟩ := Library.bind_eq_ok made
      cases same
      rcases mem_append.mp inside with base | rest
      · exact .inr (textSlice_subset sliced base)
      · exact .inl (trimmed rest)
    · cases made
      exact .inl (trimmed inside)
  · obtain ⟨extra, sliced, same⟩ := Library.bind_eq_ok made
    cases same
    rcases mem_append.mp inside with front | rest
    · rcases mem_append.mp front with base | more
      · exact .inr base
      · exact .inl (textSlice_subset sliced more)
    · exact .inl (trimmed rest)

/-- A line that is indented anew is empty when the line was blank. -/
theorem reindentLine_eq_nil_iff {oldBase fileBase out : Bytes}
    (base : isBlank oldBase = true) (made : reindentLine line oldBase fileBase = .ok out) :
    out = [] ↔ isBlank line = true := by
  unfold reindentLine at made
  split at made
  · rename_i blank
    cases made
    exact iff_of_true rfl blank
  rename_i shown
  have trimmed : trimStart line ≠ [] := fun empty => shown (beq_iff_eq.mpr empty)
  refine iff_of_false ?_ shown
  split at made
  · rename_i starts
    cases made
    intro empty
    obtain ⟨rest, rfl⟩ := isPrefixOf_iff_prefix.mp starts
    rw [drop_left] at empty
    rw [(append_eq_nil_iff.mp empty).2, append_nil] at shown
    exact shown base
  · dsimp only at made
    split at made
    · split at made
      · obtain ⟨kept, -, same⟩ := Library.bind_eq_ok made
        cases same
        exact fun empty => trimmed (append_eq_nil_iff.mp empty).2
      · cases made
        exact trimmed
    · obtain ⟨extra, -, same⟩ := Library.bind_eq_ok made
      cases same
      exact fun empty => trimmed (append_eq_nil_iff.mp empty).2

/-! ### The text of a window -/

/-- The lines written for a window, with a `\n` behind them when the window had one. -/
def windowText (written : List Bytes) (terminated : Bool) : Bytes :=
  let joined := [(0x0A : UInt8)].intercalate written
  if terminated = true ∧ joined.getLast? ≠ some 0x0A then joined ++ [0x0A] else joined

/-- The first line and its line feed. -/
theorem intercalate_lines (next : Bytes) (rest : List Bytes) :
    [(0x0A : UInt8)].intercalate (line :: next :: rest) =
      line ++ 0x0A :: [(0x0A : UInt8)].intercalate (next :: rest) := by
  rw [intercalate_cons_cons, append_assoc]
  rfl

section Written

variable {written : List Bytes}

/-- The bytes of joined lines. -/
theorem mem_intercalate {byte : UInt8} (member : byte ∈ [(0x0A : UInt8)].intercalate written) :
    byte = 0x0A ∨ ∃ line ∈ written, byte ∈ line := by
  induction written with
  | nil => cases member
  | cons line rest ih =>
    cases rest with
    | nil =>
      rw [intercalate_singleton] at member
      exact .inr ⟨_, mem_cons_self, member⟩
    | cons next rest =>
      rw [intercalate_lines, mem_append, mem_cons] at member
      rcases member with inLine | rfl | later
      · exact .inr ⟨line, mem_cons_self, inLine⟩
      · exact .inl rfl
      rcases ih later with lineFeed | ⟨other, among, inside⟩
      · exact .inl lineFeed
      · exact .inr ⟨other, mem_cons_of_mem _ among, inside⟩

/-- The bytes of a window. -/
theorem mem_windowText {byte : UInt8} {terminated : Bool}
    (member : byte ∈ windowText written terminated) :
    byte = 0x0A ∨ ∃ line ∈ written, byte ∈ line := by
  unfold windowText at member
  dsimp only at member
  split at member
  · rcases mem_append.mp member with inside | added
    · exact mem_intercalate inside
    · exact .inl (mem_singleton.mp added)
  · exact mem_intercalate member

/-- No carriage return comes in. -/
theorem windowText_no_return (noReturns : ∀ line ∈ written, 0x0D ∉ line) (terminated : Bool) :
    0x0D ∉ windowText written terminated := by
  intro inside
  rcases mem_windowText inside with lineFeed | ⟨line, among, inLine⟩
  · cases lineFeed
  · exact noReturns _ among inLine

/-- A terminated window is not empty. -/
theorem windowText_ne_nil : windowText written true ≠ [] := by
  unfold windowText
  dsimp only
  split
  · exact append_ne_nil_of_right_ne_nil _ (cons_ne_nil _ _)
  rename_i ended
  intro empty
  rw [empty] at ended
  exact ended ⟨rfl, nofun⟩

/-- A line feed between any two lines. -/
theorem count_intercalate (clean : ∀ line ∈ written, 0x0A ∉ line) :
    ([(0x0A : UInt8)].intercalate written).count 0x0A = written.length - 1 := by
  induction written with
  | nil => rfl
  | cons line rest ih =>
    obtain ⟨here, later⟩ := forall_mem_cons.mp clean
    cases rest with
    | nil => rw [intercalate_singleton, count_eq_zero_of_not_mem here]; rfl
    | cons next rest =>
      rw [intercalate_lines, count_append, count_eq_zero_of_not_mem here, count_cons_self, ih later]
      simp only [length_cons]
      omega

/-- Joined lines are empty if there is no more than an empty one. -/
theorem intercalate_eq_nil_iff :
    [(0x0A : UInt8)].intercalate written = [] ↔ written = [] ∨ written = [[]] := by
  match written with
  | [] => exact iff_of_true rfl (.inl rfl)
  | [line] => simp
  | line :: next :: rest => simp

section
variable (clean : ∀ line ∈ written, 0x0A ∉ line)
include clean

/-- Two or more joined lines end with a line feed when the last one is empty. -/
theorem getLast_intercalate :
    ([(0x0A : UInt8)].intercalate written).getLast? = some 0x0A ↔
      2 ≤ written.length ∧ written.getLast? = some [] := by
  induction written with
  | nil => simp [intercalate]
  | cons line rest ih =>
    obtain ⟨here, later⟩ := forall_mem_cons.mp clean
    cases rest with
    | nil =>
      rw [intercalate_singleton]
      exact iff_of_false (fun ends => here (mem_of_getLast? ends)) (by simp)
    | cons next rest =>
      rw [intercalate_lines, getLast?_append, getLast?_cons, some_or,
        getLast?_cons_cons, some.injEq]
      have joined := ih later
      have two : 2 ≤ (line :: next :: rest).length := by simp
      rw [and_iff_right two]
      cases ending : ([(0x0A : UInt8)].intercalate (next :: rest)).getLast? with
      | none =>
        have only := intercalate_eq_nil_iff.mp (getLast?_eq_none_iff.mp ending)
        rw [only.resolve_left (cons_ne_nil _ _)]
        exact iff_of_true rfl rfl
      | some byte =>
        rw [ending, some.injEq] at joined
        rw [getD_some, joined, and_iff_right_iff_imp]
        intro lastEmpty
        cases rest with
        | nil =>
          cases lastEmpty
          cases ending
        | cons => simp

/-- The line feeds of a window, when the written lines have none. -/
theorem count_windowText (terminated : Bool) :
    (windowText written terminated).count 0x0A = written.length - 1 +
      if terminated = true ∧ ¬ (2 ≤ written.length ∧ written.getLast? = some []) then 1 else 0 := by
  simp only [← getLast_intercalate clean, ← count_intercalate clean]
  unfold windowText
  dsimp only
  split
  · rw [count_append]
    rfl
  · rfl

/-- A window starts with a line feed, or is empty, when the first written line is. -/
theorem head_windowText (terminated : Bool) :
    (∀ byte ∈ (windowText written terminated).head?, byte = 0x0A) ↔
      ∀ line ∈ written.head?, line = [] := by
  unfold windowText
  match written with
  | [] => cases terminated <;> simp
  | [] :: rest =>
    refine iff_of_true ?_ (by simp)
    cases rest with
    | nil => cases terminated <;> simp
    | cons next rest =>
      rw [intercalate_lines]
      dsimp only
      split <;> simp
  | (byte :: bytes) :: rest =>
    have other : byte ≠ 0x0A := fun same =>
      clean (byte :: bytes) mem_cons_self (same ▸ mem_cons_self)
    refine iff_of_false (fun starts => other (starts _ ?_)) (by simp)
    cases rest with
    | nil =>
      rw [intercalate_singleton]
      dsimp only
      split <;> rfl
    | cons next rest =>
      rw [intercalate_lines]
      dsimp only
      split <;> rfl

end

end Written

/-- The line feeds that are written for new lines in place of a window. -/
def writtenBreaks (newLines : List Bytes) (terminated : Bool) : Nat :=
  newLines.length - 1 +
    if terminated = true ∧ ¬ (2 ≤ newLines.length ∧ newLines.getLast?.any isBlank = true) then 1
    else 0

/-- In a file of the `\r\n` style, new lines may stand in place of a window: no line feed is written
but the one that a `\r` in front waits for, and then the first line is blank; and a `\r` at the end
of the window is the one in front of it. -/
structure WindowFits (start stop : Bool) (newLines : List Bytes) (terminated : Bool) : Prop where
  breaks : writtenBreaks newLines terminated = if start && !stop then 1 else 0
  blankFirst : start = true → ∀ line ∈ newLines.head?, isBlank line = true
  ends : stop = true → start = true

/-- The written lines are empty where the new ones are blank. -/
abbrev SameBlanks (newLines written : List Bytes) : Prop :=
  List.Forall₂ (fun line out => out = [] ↔ isBlank line = true) newLines written

variable {newLines written : List Bytes}

section
variable (same : SameBlanks newLines written)
include same

/-- The last lines are blank together. -/
theorem SameBlanks.getLast : written.getLast? = some [] ↔ newLines.getLast?.any isBlank = true := by
  induction same with
  | nil => simp
  | cons first rest ih =>
    cases rest with
    | nil => simpa using first
    | cons => simpa only [getLast?_cons_cons] using ih

/-- The first lines are blank together. -/
theorem SameBlanks.head :
    (∀ line ∈ written.head?, line = []) ↔ ∀ line ∈ newLines.head?, isBlank line = true := by
  cases same with
  | nil => simp
  | cons first rest => simpa using first

/-- What is written for a window leads to the state behind it exactly when the new lines fit. -/
theorem pairRun_windowText_iff
    (noFeeds : ∀ line ∈ written, 0x0A ∉ line) (noReturns : ∀ line ∈ written, 0x0D ∉ line)
    (start stop terminated : Bool) :
    pairRun start (windowText written terminated) = some stop ↔
      WindowFits start stop newLines terminated := by
  have clean := windowText_no_return noReturns terminated
  have breaks : (windowText written terminated).count 0x0A = writtenBreaks newLines terminated := by
    simp [count_windowText noFeeds, writtenBreaks, same.length_eq, same.getLast]
  rw [pairRun_no_return clean, breaks, head_windowText noFeeds, same.head]
  constructor
  · rintro ⟨counted, blank, ended⟩
    exact ⟨counted, blank, fun waits => (ended waits).1⟩
  · rintro ⟨counted, blank, ended⟩
    refine ⟨counted, blank, fun waits => ⟨ended waits, ?_⟩⟩
    rw [waits, ended waits] at counted
    have starts := (head_windowText noFeeds terminated).mpr (same.head.mpr (blank (ended waits)))
    rw [← breaks] at counted
    cases text : windowText written terminated with
    | nil => rfl
    | cons byte bytes =>
      rw [text] at starts counted
      rw [starts byte rfl] at counted
      simp at counted

end

end Symforge.Edit
