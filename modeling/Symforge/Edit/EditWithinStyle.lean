import Symforge.Edit.FlexibleReplacement

/-!
# Edits inside a symbol and the line endings of the file

`select_edit_within_body` normalizes the text it looks for and the text it writes to the line
endings of the file. Exact replacements of something keep a uniform file uniform. Two paths do not
in the `\r\n` style: an empty text is found between the bytes of a pair, and the whitespace-flexible
fallback joins its lines with a lone `\n`.
-/

namespace Symforge.Edit

open List

/-- The arguments of `select_edit_within_body`. -/
structure WithinRequest where
  content : Bytes
  sym : SymbolRecord
  oldText : String
  newText : String
  replaceAll : Bool
  occurrence : Option Nat
  nearLine : Option Nat

namespace WithinRequest

variable (request : WithinRequest)

/-- What the request selects. -/
def select : Except WithinSelectionError WithinSelection :=
  selectEditWithinBody request.content request.sym request.oldText request.newText
    request.replaceAll request.occurrence request.nearLine

/-- The line ending of the file. -/
def lineEnding : LineEnding := detectLineEnding request.content

/-- Where the range of the symbol starts. -/
def start : Nat := request.sym.effectiveStart

/-- Where the range of the symbol ends. -/
def stop : Nat := request.sym.byteRange.2

/-- The text of the symbol. -/
def body : Bytes := (request.content.take request.stop).drop request.start

/-- The text that is looked for. -/
def needle : Bytes := normalizeLineEndings (utf8 request.oldText) request.lineEnding

/-- The text that is written. -/
def replacement : Bytes := normalizeLineEndings (utf8 request.newText) request.lineEnding

/-- Where the text that is looked for stands exactly. -/
def positions : List Nat := matchIndices request.body request.needle

/-- The exact occurrences that are replaced. -/
def chosen : List Nat :=
  if request.replaceAll then request.positions
  else
    match request.occurrence, request.nearLine with
    | some requested, _ => (request.positions[requested - 1]?).toList
    | none, some target =>
      (nearestLine (fun position =>
        1 + (request.content.take (request.start + position)).count 0x0A) target
          request.positions).toList
    | none, none => request.positions.take 1

/-- The windows of lines that the whitespace-flexible fallback replaces. -/
def windows : Except EditFault (List Nat) :=
  matchingWindows (lines request.body) ((lines request.needle).map trimStart) request.replaceAll 0
    ((lines request.body).length - (lines request.needle).length + 1)

/-- The file with the new body in the range of the symbol. -/
def edited (selection : WithinSelection) : Bytes :=
  applySplice request.content (request.start, request.stop) selection.newBody

end WithinRequest

/-- The nearest position is one of them. -/
theorem nearestLine_mem {lineOf : Nat → Nat} {target : Nat} {positions : List Nat} {position : Nat}
    (found : nearestLine lineOf target positions = some position) : position ∈ positions := by
  induction positions generalizing position with
  | nil => cases found
  | cons first rest ih =>
    rw [nearestLine] at found
    split at found
    · cases found
      exact mem_cons_self
    rename_i other nearest
    split at found
    · cases found
      exact mem_cons_of_mem _ (ih nearest)
    · cases found
      exact mem_cons_self

/-- What a successful fallback did. -/
theorem tryWhitespaceFlexibleReplace_ok {body oldText newText result : Bytes} {replaceAll : Bool}
    {count : Nat}
    (made : tryWhitespaceFlexibleReplace body oldText newText replaceAll =
      .ok (some (result, count))) :
    lines oldText ≠ [] ∧ ∃ starts, matchingWindows (lines body) ((lines oldText).map trimStart)
        replaceAll 0 ((lines body).length - (lines oldText).length + 1) = .ok starts ∧
      starts.reverse.foldlM (replaceWindow body (lines oldText) newText) body = .ok result := by
  unfold tryWhitespaceFlexibleReplace at made
  dsimp only at made
  split at made
  · cases made
  rename_i asked
  refine ⟨fun empty => asked (.inl (by rw [empty]; rfl)), ?_⟩
  obtain ⟨starts, found, after⟩ := Library.bind_eq_ok made
  split at after
  · cases after
  obtain ⟨replaced, folded, same⟩ := Library.bind_eq_ok after
  cases same
  exact ⟨_, found, folded⟩

/-- A flexible selection is a flexible replacement. -/
theorem flexibleSelection_ok {body oldText newText : Bytes} {replaceAll : Bool}
    {selection : WithinSelection}
    (selected : flexibleSelection body oldText newText replaceAll = .ok selection) :
    ∃ count, tryWhitespaceFlexibleReplace body oldText newText replaceAll =
      .ok (some (selection.newBody, count)) := by
  unfold flexibleSelection at selected
  split at selected
  · rename_i newBody count made
    cases selected
    exact ⟨count, made⟩
  · cases selected
  · cases selected

namespace WithinRequest

variable {request : WithinRequest} {selection : WithinSelection}

/-- A selection replaces the chosen exact occurrences, or there is none and the fallback replaced
its windows. -/
theorem select_ok (selected : request.select = .ok selection) :
    request.start ≤ request.stop ∧ request.stop ≤ request.content.length ∧
    ((request.positions ≠ [] ∧ selection.newBody =
        replaceAt request.body request.needle request.replacement request.chosen) ∨
      (request.positions = [] ∧ ∃ count, tryWhitespaceFlexibleReplace request.body request.needle
        request.replacement request.replaceAll = .ok (some (selection.newBody, count)))) := by
  unfold select selectEditWithinBody at selected
  dsimp only at selected
  split at selected
  · cases selected
  rename_i body sliced
  unfold slice at sliced
  split at sliced
  swap
  · cases sliced
  rename_i bounds
  cases sliced
  refine ⟨bounds.1, bounds.2, ?_⟩
  simp only [normalizeLineEndings_valid, if_true] at selected
  change (if (!validUtf8 request.body) = true then _ else _) = _ at selected
  split at selected
  · cases selected
  split at selected
  · cases selected
  rw [show (request.content.take request.sym.byteRange.2).drop request.sym.effectiveStart =
      request.body from rfl,
    show normalizeLineEndings (utf8 request.oldText) (detectLineEnding request.content) =
      request.needle from rfl,
    show normalizeLineEndings (utf8 request.newText) (detectLineEnding request.content) =
      request.replacement from rfl,
    show matchIndices request.body request.needle = request.positions from rfl] at selected
  split at selected
  -- all occurrences, or the fallback for all windows
  · rename_i all
    split at selected
    · rename_i found
      cases selected
      exact .inl ⟨ne_nil_of_length_pos found, by rw [chosen, if_pos all]⟩
    · rename_i missing
      refine .inr ⟨length_eq_zero_iff.mp (by omega), ?_⟩
      rw [all]
      exact flexibleSelection_ok selected
  · rename_i single
    rw [Bool.not_eq_true] at single
    rw [chosen, if_neg (by rw [single]; exact Bool.false_ne_true), single]
    split at selected
    · cases selected
    · cases selected
    -- the occurrence asked for
    · rename_i requested asked found
      split at selected
      · cases selected
      split at selected
      · rename_i position here
        cases selected
        refine .inl ⟨found, ?_⟩
        rw [asked]
        dsimp only
        rw [here]
        rfl
      · cases selected
    -- the occurrence nearest to a line
    · rename_i target notAsked near found
      split at selected
      · rename_i position here
        cases selected
        refine .inl ⟨found, ?_⟩
        rw [notAsked, near]
        dsimp only
        rw [show request.start = request.sym.effectiveStart from rfl, here]
        rfl
      · cases selected
    -- the first occurrence, or the fallback for the first window
    · rename_i first others notAsked notNear found
      cases selected
      refine .inl ⟨by rw [found]; exact cons_ne_nil _ _, ?_⟩
      rw [notAsked, notNear, found]
      rfl
    · rename_i missing
      exact .inr ⟨missing, flexibleSelection_ok selected⟩

/-- The chosen positions are found ones. -/
theorem chosen_sublist (request : WithinRequest) : request.chosen.Sublist request.positions := by
  unfold chosen
  split
  · exact List.Sublist.refl _
  split
  · rename_i requested _
    cases found : request.positions[requested - 1]? with
    | none => exact nil_sublist _
    | some position => exact singleton_sublist.mpr (mem_of_getElem? found)
  · rename_i target _ _
    cases found : nearestLine (fun position =>
        1 + (request.content.take (request.start + position)).count 0x0A) _
        request.positions with
    | none => exact nil_sublist _
    | some position => exact singleton_sublist.mpr (nearestLine_mem found)
  · exact take_sublist 1 _

/-! ### When the style is kept -/

/-- Nothing is looked for or written, or no place is between the bytes of a `\r\n`. -/
def SplitsNoPair (request : WithinRequest) : Prop :=
  request.needle = [] → request.replacement = [] ∨
    ∀ position ∈ request.chosen, afterReturn request.content (request.start + position) = false

/-- The windows of the fallback do not overlap. -/
def WindowsApart (request : WithinRequest) : Prop :=
  ∀ starts, request.windows = .ok starts →
    starts.Pairwise fun one other => one + (lines request.needle).length ≤ other

/-- The new lines may stand in place of every window of the fallback. -/
def LinesFit (request : WithinRequest) : Prop :=
  ∀ starts, request.windows = .ok starts → ∀ first ∈ starts,
    WindowFits (decide (first = 0) && afterReturn request.content request.start)
      (!windowTerminated request.body (lines request.needle).length first &&
        afterReturn request.content request.stop) (lines request.replacement)
      (windowTerminated request.body (lines request.needle).length first)

/-- In a file of the `\r\n` style, an exact edit splits no pair, and the fallback replaces windows
apart that the new lines fit into. -/
def KeepsStyle (request : WithinRequest) : Prop :=
  request.lineEnding = .crLf →
    (request.positions ≠ [] → request.SplitsNoPair) ∧
      (request.positions = [] → request.WindowsApart ∧ request.LinesFit)

/-- The part of the file up to a position of the body. -/
theorem take_body {position : Nat} (inside : position ≤ request.body.length) :
    request.content.take (request.start + position) =
      request.content.take request.start ++ request.body.take position := by
  rw [body, length_drop, length_take] at inside
  rw [take_add, body, drop_take, take_take]
  congr 2
  omega

/-- The body is exchanged, the rest stays. -/
theorem edited_eq (ordered : request.start ≤ request.stop) :
    request.edited selection = request.content.take request.start ++ selection.newBody ++
      request.content.drop request.stop := by
  rw [edited, applySplice, Library.splice, Nat.max_eq_right ordered]

section
variable (uniform : pairRun false request.content = some false)
include uniform

/-- In a file of the `\r\n` style, the states in the body are read off the bytes in front. -/
theorem pairRun_take_body {position : Nat}
    (inside : position ≤ request.body.length) :
    pairRun (afterReturn request.content request.start) (request.body.take position) =
      some (afterReturn request.content (request.start + position)) := by
  have whole := (pairRun_take_afterReturn uniform (request.start + position)).1
  rw [take_body inside, pairRun_append, (pairRun_take_afterReturn uniform request.start).1,
    Option.bind_some] at whole
  exact whole

/-- Reading the body from its start to its stop. -/
theorem pairRun_body
    (ordered : request.start ≤ request.stop) (bounded : request.stop ≤ request.content.length) :
    pairRun (afterReturn request.content request.start) request.body =
      some (afterReturn request.content request.stop) := by
  have length : request.body.length = request.stop - request.start := by
    rw [body, length_drop, length_take, Nat.min_eq_left bounded]
  have whole := pairRun_take_body uniform (Nat.le_refl request.body.length)
  rwa [take_length, length, Nat.add_sub_cancel' ordered] at whole

/-- The edited file is of the `\r\n` style exactly when the new body leads where the old one led. -/
theorem uniform_edited_iff
    (ordered : request.start ≤ request.stop) :
    Uniform .crLf (request.edited selection) ↔
      pairRun (afterReturn request.content request.start) selection.newBody =
        some (afterReturn request.content request.stop) := by
  rw [uniform_crLf_iff, edited_eq ordered]
  exact pairRun_splice_iff (pairRun_take_afterReturn uniform request.start).1
    (pairRun_take_afterReturn uniform request.stop).2

end

/-- Nothing for nothing changes nothing. -/
theorem replaceAt_nil (text : Bytes) (positions : List Nat) :
    replaceAt text [] [] positions = text := by
  induction positions with
  | nil => rfl
  | cons position positions ih =>
    rw [replaceAt, ih, append_nil, length_nil, Nat.add_zero, take_append_drop]

/-- Normalized text has whole pairs. -/
theorem normalized_clean (crLf : request.lineEnding = .crLf) (text : String) :
    pairRun false (normalizeLineEndings (utf8 text) request.lineEnding) = some false := by
  rw [crLf]
  exact (uniform_crLf_iff).mp (normalizeLineEndings_uniform .crLf)

section Styles

variable (uniform : pairRun false request.content = some false)
  (crLf : request.lineEnding = .crLf) (ordered : request.start ≤ request.stop)
  (bounded : request.stop ≤ request.content.length)

include uniform crLf ordered bounded

/-- An exact edit keeps the `\r\n` style exactly when it splits no pair. -/
theorem exact_iff :
    pairRun (afterReturn request.content request.start)
        (replaceAt request.body request.needle request.replacement request.chosen) =
      some (afterReturn request.content request.stop) ↔ request.SplitsNoPair := by
  have reads := pairRun_body uniform ordered bounded
  have occurrences := (matchIndices_occurrences request.needle).sublist
    request.chosen_sublist
  have cleanNeedle := normalized_clean crLf request.oldText
  have cleanReplacement := normalized_clean crLf request.newText
  by_cases asked : request.needle = []
  · rw [SplitsNoPair, imp_iff_right asked, asked]
    rw [asked] at occurrences
    by_cases written : request.replacement = []
    · rw [written, replaceAt_nil]
      exact iff_of_true reads (.inl rfl)
    rw [or_iff_right written, pairRun_insertions_iff occurrences written cleanReplacement reads]
    refine forall₂_congr fun position member => ?_
    rw [pairRun_take_body uniform (occurrences.occurs _ member).1, Option.some.injEq]
  · refine iff_of_true ?_ (fun empty => absurd empty asked)
    exact pairRun_replaceAt occurrences cleanNeedle cleanReplacement reads
      fun position member => occurrences.aligned asked cleanNeedle reads member

/-- The fallback keeps the `\r\n` style exactly when the new lines fit, as long as its windows lie
apart. -/
theorem flexible_iff (apart : request.WindowsApart) {newBody : Bytes} {count : Nat}
    (made : tryWhitespaceFlexibleReplace request.body request.needle request.replacement
      request.replaceAll = .ok (some (newBody, count))) :
    pairRun (afterReturn request.content request.start) newBody =
      some (afterReturn request.content request.stop) ↔ request.LinesFit := by
  obtain ⟨wanted, starts, found, replaced⟩ := tryWhitespaceFlexibleReplace_ok made
  have trimmed : (lines request.needle).map trimStart ≠ [] :=
    fun empty => wanted (map_eq_nil_iff.mp empty)
  have inside := (matchingWindows_spec trimmed found).1
  rw [length_map] at inside
  have known : ∀ others, request.windows = .ok others → others = starts := by
    intro others same
    exact Except.ok.inj (same.symm.trans found)
  rw [pairRun_replaceWindows_iff (pairRun_body uniform ordered bounded)
    (normalized_clean crLf request.newText) (length_pos_of_ne_nil wanted)
    (fun first member => (inside _ member).2) (apart _ found) replaced]
  constructor
  · intro fits others same
    rw [known _ same]
    exact fits
  · intro fits
    exact fits _ found

end Styles

/-- One window alone overlaps with none. -/
theorem windowsApart_of_single (single : request.replaceAll = false) : request.WindowsApart := by
  intro starts found
  rw [windows, single] at found
  have few := matchingWindows_single found
  match starts, few with
  | [], _ => exact List.Pairwise.nil
  | [first], _ => exact pairwise_singleton _ _

/-! ### Files of the other style -/

/-- Only line feeds are written besides what stands in the body or the new text. -/
theorem mem_newBody (selected : request.select = .ok selection) {byte : UInt8}
    (member : byte ∈ selection.newBody) :
    byte = 0x0A ∨ byte ∈ request.body ∨ byte ∈ request.replacement := by
  obtain ⟨-, -, ⟨-, replaced⟩ | ⟨-, count, made⟩⟩ := select_ok selected
  · rw [replaced] at member
    exact .inr (mem_replaceAt member)
  · obtain ⟨-, starts, -, replaced⟩ := tryWhitespaceFlexibleReplace_ok made
    exact mem_replaceWindows replaced member

/-- An edit of a file without `\r` brings none in. -/
theorem edited_lf (uniform : 0x0D ∉ request.content) (lf : request.lineEnding = .lf)
    (selected : request.select = .ok selection) :
    0x0D ∉ request.edited selection := by
  have cleanReplacement : 0x0D ∉ request.replacement := by
    rw [replacement, lf]
    exact (uniform_lf_iff).mp (normalizeLineEndings_uniform .lf)
  rw [edited_eq (select_ok selected).1]
  intro inside
  rcases mem_append.mp inside with inFront | inBack
  · rcases mem_append.mp inFront with kept | new
    · exact uniform (mem_of_mem_take kept)
    rcases mem_newBody selected new with lineFeed | inBody | written
    · cases lineFeed
    · exact uniform (mem_of_mem_take (mem_of_mem_drop inBody))
    · exact cleanReplacement written
  · exact uniform (mem_of_mem_drop inBack)

/-- An edit keeps the `\r\n` style when it meets the condition, and only then unless the fallback
replaces overlapping windows. -/
theorem uniform_crLf_edited (uniform : pairRun false request.content = some false)
    (crLf : request.lineEnding = .crLf) (selected : request.select = .ok selection) :
    (request.KeepsStyle → Uniform .crLf (request.edited selection)) ∧
      ((request.positions = [] → request.WindowsApart) →
        Uniform .crLf (request.edited selection) → request.KeepsStyle) := by
  obtain ⟨ordered, bounded, ⟨found, replaced⟩ | ⟨missing, count, made⟩⟩ := select_ok selected
  · rw [uniform_edited_iff uniform ordered, replaced, exact_iff uniform crLf ordered bounded]
    refine ⟨fun keeps => (keeps crLf).1 found, fun _ split _ => ⟨fun _ => split, ?_⟩⟩
    exact fun missing => absurd missing found
  rw [uniform_edited_iff uniform ordered]
  constructor
  · intro keeps
    obtain ⟨apart, fits⟩ := (keeps crLf).2 missing
    exact (flexible_iff uniform crLf ordered bounded apart made).mpr fits
  · intro lie accepted _
    have apart := lie missing
    have fits := (flexible_iff uniform crLf ordered bounded apart made).mp accepted
    exact ⟨fun found => absurd missing found, fun _ => ⟨apart, fits⟩⟩

/-- Every successful edit of a uniform file leaves the bytes outside the symbol alone. It keeps the
style if it meets the condition, and only then, unless several overlapping windows are all replaced
by the fallback. -/
theorem style_kept_iff (request : WithinRequest) {selection : WithinSelection}
    (uniform : Uniform request.lineEnding request.content)
    (selected : request.select = .ok selection) :
    (request.edited selection).take request.start = request.content.take request.start ∧
    (request.edited selection).drop (request.start + selection.newBody.length) =
      request.content.drop request.stop ∧
    (request.KeepsStyle → Uniform request.lineEnding (request.edited selection)) ∧
    ((request.replaceAll = true → request.lineEnding = .crLf → request.positions = [] →
        request.WindowsApart) →
      Uniform request.lineEnding (request.edited selection) → request.KeepsStyle) := by
  obtain ⟨ordered, bounded, -⟩ := select_ok selected
  have front : (request.content.take request.start).length = request.start := by
    rw [length_take, Nat.min_eq_left (ordered.trans bounded)]
  refine ⟨?_, ?_, ?_⟩
  · rw [edited_eq ordered, append_assoc, take_left' front]
  · rw [edited_eq ordered, drop_left' (by rw [length_append, front])]
  cases style : request.lineEnding with
  | lf =>
    rw [style, uniform_lf_iff] at uniform
    rw [uniform_lf_iff]
    refine ⟨fun _ => edited_lf uniform style selected, fun _ _ crLf => ?_⟩
    rw [style] at crLf
    cases crLf
  | crLf =>
    rw [style, uniform_crLf_iff] at uniform
    obtain ⟨sufficient, necessary⟩ := uniform_crLf_edited uniform style selected
    refine ⟨sufficient, fun lie => necessary fun missing => ?_⟩
    cases all : request.replaceAll with
    | false => exact windowsApart_of_single all
    | true => exact lie all rfl missing

/-- A function of four lines in a file of the `\r\n` style, and an edit of its inner lines. -/
def sampleEdit (oldText newText : String) (replaceAll : Bool) : WithinRequest where
  content := utf8 "f(\r\n    a;\r\n    b;\r\n)\r\n"
  sym := ⟨"f", .function, (0, 21), (0, 3), none⟩
  oldText := oldText
  newText := newText
  replaceAll := replaceAll
  occurrence := none
  nearLine := none

/-- An exact edit keeps the style. -/
theorem exact_edit_kept : ∃ selection, (sampleEdit "a;" "c;\nd;" false).select = .ok selection ∧
    Uniform .crLf ((sampleEdit "a;" "c;\nd;" false).edited selection) := by
  refine ⟨_, rfl, ?_⟩
  refine (style_kept_iff (sampleEdit "a;" "c;\nd;" false) (by decide) rfl).2.2.1 fun _ => ?_
  exact ⟨fun _ empty => absurd empty (by decide), fun missing => absurd missing (by decide)⟩

/-- The lines are given with another indentation, so that they are found by the fallback. -/
def fallbackEdit : WithinRequest := sampleEdit "  a;\n  b;" "  c;\n  d;" false

/-- Nothing is looked for. -/
def emptyEdit : WithinRequest := sampleEdit "" "x" true

/-- The fallback leaves lone `\n` in a file of the `\r\n` style, and an edit that looks for nothing
writes into every pair. -/
theorem edits_mix_line_endings :
    (∃ selection, fallbackEdit.select = .ok selection ∧
      Uniform fallbackEdit.lineEnding fallbackEdit.content ∧
      ¬ Uniform fallbackEdit.lineEnding (fallbackEdit.edited selection)) ∧
    ∃ selection, emptyEdit.select = .ok selection ∧
      Uniform emptyEdit.lineEnding emptyEdit.content ∧
      ¬ Uniform emptyEdit.lineEnding (emptyEdit.edited selection) :=
  ⟨⟨_, rfl, by decide, by decide⟩, ⟨_, rfl, by decide, by decide⟩⟩

example : fallbackEdit.select = .ok ⟨utf8 "f(\r\n    c;\n    d;\n)", 1, 0⟩ := rfl

end WithinRequest

end Symforge.Edit
