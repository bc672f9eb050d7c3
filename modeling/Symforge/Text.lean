import Mathlib.Algebra.Ring.Nat
import Mathlib.Data.List.Basic
/-!
# Bytes and UTF-8 text

File contents are byte sequences and the texts of a request are UTF-8. The source slices bytes at
symbol offsets, and it trims and splits text with the string methods of its standard library, whose
meaning over the encoded bytes is given here. A slice outside its sequence, or inside a character of
a text, is a panic.
-/

namespace Symforge

open List

/-- The bytes of a text or a file. -/
abbrev Bytes := List UInt8

/-- The UTF-8 encoding of a text. -/
def utf8 (text : String) : Bytes := text.toUTF8.data.toList

/-- A text is known by its bytes. -/
theorem utf8_injective {left right : String} (same : utf8 left = utf8 right) : left = right :=
  String.toByteArray_inj.mp (ByteArray.ext (Array.toList_inj.mp same))

/-- How an edit helper fails: with a message for its caller, or by a panic. -/
inductive EditFault where
  | refused (message : String)
  | panicked
  deriving DecidableEq, Repr

variable (content : Bytes)

/-- `content[..stop]`. -/
def sliceTo (stop : Nat) : Except EditFault Bytes :=
  if stop ≤ content.length then .ok (content.take stop) else .error .panicked

/-- `content[start..stop]`. -/
def slice (start stop : Nat) : Except EditFault Bytes :=
  if start ≤ stop ∧ stop ≤ content.length then .ok ((content.take stop).drop start)
  else .error .panicked

/-- A slice inside the content succeeds. -/
theorem sliceTo_ok {content : Bytes} {stop : Nat} (bounded : stop ≤ content.length) :
    sliceTo content stop = .ok (content.take stop) :=
  if_pos bounded

/-! ### UTF-8 -/

/-- What a UTF-8 decoder expects: `remaining` continuation bytes, the first in `lower..upper`. -/
structure Utf8State where
  remaining : Nat
  lower : UInt8
  upper : UInt8

/-- One byte of UTF-8 validation; the range of the first continuation byte refuses overlong forms,
surrogates and code points too high. -/
def Utf8State.step (state : Utf8State) (byte : UInt8) : Option Utf8State :=
  match state.remaining with
  | remaining + 1 =>
    if state.lower ≤ byte ∧ byte ≤ state.upper then some ⟨remaining, 0x80, 0xBF⟩ else none
  | 0 =>
    if byte < 0x80 then some ⟨0, 0x80, 0xBF⟩
    else if byte < 0xC2 then none
    else if byte < 0xE0 then some ⟨1, 0x80, 0xBF⟩
    else if byte = 0xE0 then some ⟨2, 0xA0, 0xBF⟩
    else if byte = 0xED then some ⟨2, 0x80, 0x9F⟩
    else if byte < 0xF0 then some ⟨2, 0x80, 0xBF⟩
    else if byte = 0xF0 then some ⟨3, 0x90, 0xBF⟩
    else if byte < 0xF4 then some ⟨3, 0x80, 0xBF⟩
    else if byte = 0xF4 then some ⟨3, 0x80, 0x8F⟩
    else none

/-- Whether the bytes go on as UTF-8. -/
def validUtf8From : Utf8State → Bytes → Bool
  | state, [] => state.remaining == 0
  | state, byte :: rest =>
    match state.step byte with
    | some next => validUtf8From next rest
    | none => false

/-- `str::from_utf8(bytes).is_ok()`. -/
def validUtf8 (bytes : Bytes) : Bool := validUtf8From ⟨0, 0x80, 0xBF⟩ bytes

variable (text : Bytes)

/-- `str::is_char_boundary`. -/
def isCharBoundary (index : Nat) : Bool :=
  match text[index]? with
  | some byte => byte &&& 0xC0 != 0x80
  | none => index == text.length

/-! ### Whitespace -/

/-- `u8::is_ascii_whitespace`. -/
def isAsciiWhitespace (byte : UInt8) : Bool :=
  byte == 0x20 || byte == 0x09 || byte == 0x0A || byte == 0x0C || byte == 0x0D

/-- The number of bytes of Unicode whitespace at the front of a text. -/
def leadingWhitespace : Bytes → Nat
  | [] => 0
  | first :: rest =>
    if (0x09 ≤ first ∧ first ≤ 0x0D) ∨ first = 0x20 then leadingWhitespace rest + 1
    else
      match rest with
      | [] => 0
      | second :: rest =>
        if first = 0xC2 ∧ (second = 0x85 ∨ second = 0xA0) then leadingWhitespace rest + 2
        else
          match rest with
          | [] => 0
          | third :: rest =>
            if (first = 0xE1 ∧ second = 0x9A ∧ third = 0x80) ∨
                (first = 0xE2 ∧ second = 0x80 ∧
                  ((0x80 ≤ third ∧ third ≤ 0x8A) ∨ third = 0xA8 ∨ third = 0xA9 ∨ third = 0xAF)) ∨
                (first = 0xE2 ∧ second = 0x81 ∧ third = 0x9F) ∨
                (first = 0xE3 ∧ second = 0x80 ∧ third = 0x80) then
              leadingWhitespace rest + 3
            else 0

/-- Leading whitespace is inside the text. -/
theorem leadingWhitespace_le : leadingWhitespace text ≤ text.length := by
  fun_induction leadingWhitespace text <;> simp only [length_cons, length_nil] <;> omega

/-- `str::trim_start`. -/
def trimStart : Bytes := text.drop (leadingWhitespace text)

/-- `text.trim().is_empty()`. -/
def isBlank : Bool := trimStart text == []

/-- `str::trim_end`. The first blank suffix starts at a character. -/
def trimEnd : Bytes → Bytes
  | [] => []
  | byte :: rest => if isBlank (byte :: rest) then [] else byte :: trimEnd rest

/-- `str::trim`. -/
def trim : Bytes := trimStart (trimEnd text)

/-- `str::starts_with`. -/
def startsWith (start : String) : Bool := (utf8 start).isPrefixOf text

/-! ### Lines -/

/-- `split` at every line feed; the last piece is what follows the last one. -/
def splitLineFeeds : Bytes → List Bytes
  | [] => [[]]
  | byte :: rest =>
    if byte = 0x0A then [] :: splitLineFeeds rest
    else
      match splitLineFeeds rest with
      | [] => [[byte]]
      | piece :: pieces => (byte :: piece) :: pieces

/-- Every byte is in a piece or is one of the line feeds between them. -/
theorem splitLineFeeds_sum :
    ((splitLineFeeds text).map fun line => line.length + 1).sum = text.length + 1 := by
  induction text with
  | nil => rfl
  | cons byte rest ih =>
    unfold splitLineFeeds
    split
    · simp only [map_cons, sum_cons, length_nil, length_cons, ih]
      omega
    split
    · rename_i empty
      simp [empty] at ih
    rename_i piece pieces split
    rw [split] at ih
    simp only [map_cons, sum_cons, length_cons] at ih ⊢
    omega

variable {line : Bytes}

/-- A text without line feeds is one piece. -/
theorem splitLineFeeds_line (clean : 0x0A ∉ line) : splitLineFeeds line = [line] := by
  induction line with
  | nil => rfl
  | cons byte rest ih =>
    obtain ⟨here, later⟩ := not_or.mp (mem_cons.not.mp clean)
    rw [splitLineFeeds, if_neg (Ne.symm here), ih later]

/-- A piece ends at its line feed. -/
theorem splitLineFeeds_cons (clean : 0x0A ∉ line) (rest : Bytes) :
    splitLineFeeds (line ++ 0x0A :: rest) = line :: splitLineFeeds rest := by
  induction line with
  | nil => rw [nil_append, splitLineFeeds, if_pos rfl]
  | cons byte line ih =>
    obtain ⟨here, later⟩ := not_or.mp (mem_cons.not.mp clean)
    rw [cons_append, splitLineFeeds, if_neg (Ne.symm here), ih later]

/-- A text is a line without its line feed, or such a line in front of a shorter text. -/
@[elab_as_elim]
theorem lineInduction {motive : Bytes → Prop} (text : Bytes)
    (last : ∀ line, 0x0A ∉ line → motive line)
    (cons : ∀ line rest, 0x0A ∉ line → motive rest → motive (line ++ 0x0A :: rest)) :
    motive text := by
  induction length : text.length using Nat.strong_induction_on generalizing text with
  | _ count ih =>
    by_cases terminated : 0x0A ∈ text
    · obtain ⟨line, rest, rfl, clean⟩ := eq_append_cons_of_mem terminated
      rw [length_append, length_cons] at length
      exact cons _ _ clean (ih rest.length (by omega) _ rfl)
    · exact last _ terminated

/-- `line.strip_suffix('\r').unwrap_or(line)`. -/
def stripCarriageReturn (line : Bytes) : Bytes :=
  if line.getLast? = some 0x0D then line.dropLast else line

/-- `str::lines`: a line loses its `\n` or `\r\n`, the rest is a line unless it is empty. -/
def linesOfPieces : List Bytes → List Bytes
  | [] => []
  | [last] => if last.isEmpty then [] else [last]
  | piece :: pieces => stripCarriageReturn piece :: linesOfPieces pieces

/-- `str::lines`. -/
def lines : List Bytes := linesOfPieces (splitLineFeeds text)

/-- A text without line feeds is one line, or none. -/
theorem lines_line (clean : 0x0A ∉ line) : lines line = if line.isEmpty then [] else [line] := by
  rw [lines, splitLineFeeds_line clean, linesOfPieces]

/-- A line ends at its line feed. -/
theorem lines_cons (clean : 0x0A ∉ line) (rest : Bytes) :
    lines (line ++ 0x0A :: rest) = stripCarriageReturn line :: lines rest := by
  rw [lines, lines, splitLineFeeds_cons clean]
  have some_pieces : splitLineFeeds rest ≠ [] := by
    intro none_left
    have total := splitLineFeeds_sum rest
    rw [none_left] at total
    cases total
  obtain ⟨piece, pieces, same⟩ := exists_cons_of_ne_nil some_pieces
  rw [same, linesOfPieces]
  nofun

/-- Only the end is stripped. -/
theorem stripCarriageReturn_isPrefix : stripCarriageReturn line <+: line := by
  unfold stripCarriageReturn
  split
  · exact dropLast_prefix _
  · exact prefix_rfl

/-- A line is a part of the text. -/
theorem isInfix_of_mem_lines {text : Bytes} (member : line ∈ lines text) : line <:+: text := by
  induction text using lineInduction with
  | last text clean =>
    rw [lines_line clean] at member
    split at member
    · cases member
    obtain rfl := mem_singleton.mp member
    exact infix_rfl
  | cons piece rest clean ih =>
    rw [lines_cons clean] at member
    rcases mem_cons.mp member with rfl | later
    · exact ((stripCarriageReturn_isPrefix).trans (prefix_append _ _)).isInfix
    · exact (ih later).trans (suffix_append_of_suffix (suffix_cons _ _)).isInfix

/-- Where the last line of `before` starts: `rposition` of a line feed, plus one, or zero. -/
def lastLineStart (before : Bytes) : Nat :=
  before.length - (before.reverse.takeWhile (· != 0x0A)).length

/-- The start of the line that holds `offset`. -/
def lineStart (offset : Nat) : Except EditFault Nat := (sliceTo content offset).map lastLineStart

/-- Inside the content the line start is found. -/
theorem lineStart_ok {content : Bytes} {offset : Nat} (bounded : offset ≤ content.length) :
    lineStart content offset = .ok (lastLineStart (content.take offset)) := by
  rw [lineStart, sliceTo_ok bounded]
  rfl

/-- The last line starts inside the text. -/
theorem lastLineStart_le (before : Bytes) : lastLineStart before ≤ before.length := Nat.sub_le _ _

/-- With more text it starts no earlier. -/
theorem lastLineStart_append_le (before more : Bytes) :
    lastLineStart before ≤ lastLineStart (before ++ more) := by
  unfold lastLineStart
  rw [reverse_append, takeWhile_append, length_append]
  have bound := (takeWhile_sublist (· != 0x0A) (l := more.reverse)).length_le
  rw [length_reverse] at bound
  split
  · rw [length_append, length_reverse]
    omega
  rename_i partly
  rw [length_reverse] at partly
  omega

/-- A later offset is on the same line or on a later one. -/
theorem lastLineStart_take_le {first second : Nat} (ordered : first ≤ second) :
    lastLineStart (content.take first) ≤ lastLineStart (content.take second) := by
  have split := take_append_drop first (content.take second)
  rw [take_take, Nat.min_eq_left ordered] at split
  rw [← split]
  exact lastLineStart_append_le _ _

/-! ### Searching -/

/-- The last separator of a text has one place. -/
theorem append_cons_inj {Item : Type} {mark last : Item} {front other rest tail : List Item}
    (free : last ∉ rest) (freeOther : mark ∉ tail)
    (same : front ++ mark :: rest = other ++ last :: tail) :
    front = other ∧ mark = last ∧ rest = tail := by
  rcases append_eq_append_iff.mp same with ⟨between, rfl, behind⟩ | ⟨between, rfl, behind⟩
  · cases between with
    | nil => simpa using behind
    | cons item more => exact absurd (by simp [(cons.inj behind).2]) free
  · cases between with
    | nil => simpa [eq_comm] using behind
    | cons item more => exact absurd (by simp [(cons.inj behind).2]) freeOther

/-- The non-overlapping occurrences of `needle` in a text that starts at `position`, `skip` bytes of
which belong to the last one found. An empty needle occurs at every character boundary. -/
def matchIndicesFrom (needle : Bytes) : Nat → Nat → Bytes → List Nat
  | position, skip, [] => if needle.isEmpty && skip == 0 then [position] else []
  | position, skip + 1, _ :: rest => matchIndicesFrom needle (position + 1) skip rest
  | position, 0, byte :: rest =>
    if needle.isPrefixOf (byte :: rest) && byte &&& 0xC0 != 0x80 then
      position :: matchIndicesFrom needle (position + 1) (needle.length - 1) rest
    else matchIndicesFrom needle (position + 1) 0 rest

variable {needle : Bytes}

/-- An occurrence lies inside the text. -/
theorem mem_matchIndicesFrom (position skip : Nat) (text : Bytes) {found : Nat}
    (member : found ∈ matchIndicesFrom needle position skip text) :
    position ≤ found ∧ found + needle.length ≤ position + text.length := by
  fun_induction matchIndicesFrom needle position skip text with
  | case1 position skip empty =>
    rw [Bool.and_eq_true, List.isEmpty_iff] at empty
    rw [mem_singleton.mp member, empty.1]
    exact ⟨le_rfl, le_rfl⟩
  | case2 => cases member
  | case3 position skip byte rest ih | case5 position byte rest _ ih =>
    have := ih member
    rw [length_cons]
    omega
  | case4 position byte rest here ih =>
    rw [Bool.and_eq_true, isPrefixOf_iff_prefix] at here
    have fits := here.1.length_le
    rw [length_cons] at fits ⊢
    rcases mem_cons.mp member with rfl | later
    · omega
    have := ih later
    omega

/-- `str::match_indices`, positions only. -/
def matchIndices (text needle : Bytes) : List Nat := matchIndicesFrom needle 0 0 text

/-- `str::find`. -/
def find (text needle : Bytes) : Option Nat := (matchIndices text needle).head?

/-- What is found lies inside the text. -/
theorem find_le {text : Bytes} {position : Nat} (found : find text needle = some position) :
    position + needle.length ≤ text.length := by
  have bounds := mem_matchIndicesFrom 0 0 _ (mem_of_mem_head? found)
  omega

/-- `windows(n).position` of a needle of `n` bytes: where its bytes stand first. -/
def windowPosition (needle : Bytes) : Bytes → Option Nat
  | [] => none
  | byte :: rest =>
    if needle.isPrefixOf (byte :: rest) then some 0 else (windowPosition needle rest).map (· + 1)

/-- The position is that of the first occurrence. -/
theorem windowPosition_eq_some_iff {text : Bytes} (nonempty : needle ≠ []) {position : Nat} :
    windowPosition needle text = some position ↔
      needle <+: text.drop position ∧ ∀ earlier < position, ¬ needle <+: text.drop earlier := by
  induction text generalizing position with
  | nil => simp [windowPosition, nonempty]
  | cons byte rest ih =>
    unfold windowPosition
    by_cases here : needle <+: byte :: rest
    · have starts := isPrefixOf_iff_prefix.mpr here
      rw [if_pos starts, Option.some.injEq]
      constructor
      · rintro rfl
        exact ⟨here, fun earlier before => absurd before (Nat.not_lt_zero _)⟩
      · rintro ⟨_, first⟩
        by_contra later
        exact first 0 (Nat.pos_of_ne_zero (Ne.symm later)) here
    · rw [if_neg fun starts => here <| isPrefixOf_iff_prefix.mp starts, Option.map_eq_some_iff]
      constructor
      · rintro ⟨later, inRest, rfl⟩
        obtain ⟨stands, first⟩ := ih.mp inRest
        refine ⟨stands, fun earlier before => ?_⟩
        cases earlier with
        | zero => exact here
        | succ earlier => exact first _ (Nat.lt_of_succ_lt_succ before)
      · rintro ⟨stands, first⟩
        cases position with
        | zero => exact absurd stands here
        | succ later =>
          exact ⟨later, ih.mpr ⟨stands, fun earlier before =>
            first (earlier + 1) (Nat.succ_lt_succ before)⟩, rfl⟩

/-- Nothing is found where the needle does not occur. -/
theorem windowPosition_eq_none_iff {text : Bytes} (nonempty : needle ≠ []) :
    windowPosition needle text = none ↔ ¬ needle <:+: text := by
  induction text with
  | nil => simp [windowPosition, nonempty]
  | cons byte rest ih =>
    by_cases here : needle <+: byte :: rest <;> simp [windowPosition, infix_cons_iff, here, ih]

/-- `str::rfind` for a needle that starts with an ASCII character, in a text from `position` on. -/
def rfindFrom (needle : Bytes) : Nat → Bytes → Option Nat
  | position, [] => if needle.isEmpty then some position else none
  | position, byte :: rest =>
    match rfindFrom needle (position + 1) rest with
    | some later => some later
    | none => if needle.isPrefixOf (byte :: rest) then some position else none

/-- `str::rfind`. -/
def rfind (text needle : Bytes) : Option Nat := rfindFrom needle 0 text

/-- `str::split` at every byte of an ASCII class. -/
def splitAtBytes (separates : UInt8 → Bool) : Bytes → List Bytes
  | [] => [[]]
  | byte :: rest =>
    if separates byte then [] :: splitAtBytes separates rest
    else
      match splitAtBytes separates rest with
      | [] => [[byte]]
      | piece :: pieces => (byte :: piece) :: pieces

/-- The text with `replacement` for `needle` at the ascending `positions`. -/
def replaceAt (text needle replacement : Bytes) : List Nat → Bytes
  | [] => text
  | position :: positions =>
    let replaced := replaceAt text needle replacement positions
    replaced.take position ++ replacement ++ replaced.drop (position + needle.length)

end Symforge
