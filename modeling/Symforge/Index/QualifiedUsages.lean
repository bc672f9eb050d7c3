import Symforge.Library.Sequence
import Symforge.Index.Files
/-!
# Qualified usages

`live_index/qualified_usages.rs`: the scan of whole files for a name beside `::`. It keeps track
of comments and strings line by line; a match in code is confident, one in a comment or a string is
not. What stands on the other side of the name is not looked at.
-/

namespace Symforge

open List Library Bool

/-- `qualified_usages::QualifiedMatch`. -/
structure QualifiedMatch where
  offset : Nat
  line : Nat
  context : Bytes
  confident : Bool
  deriving DecidableEq, Repr

/-- Carried from line to line: an open block comment, and the `#` of an open raw string. -/
structure LexState where
  inBlockComment : Bool
  inRawString : Option Nat
  deriving DecidableEq, Repr

section Line

variable (name line : Bytes)

/-- The name stands at `col`, up to a character boundary. -/
def nameAt (col : Nat) : Bool :=
  name.isPrefixOf (line.drop col) && isCharBoundary line (col + name.length)

/-- Whether `::` stands in front. -/
def precededByColons (col : Nat) : Bool :=
  decide (2 ≤ col) && isCharBoundary line (col - 2) && (utf8 "::").isPrefixOf (line.drop (col - 2))

/-- Whether `::` stands behind. -/
def followedByColons (stop : Nat) : Bool :=
  isCharBoundary line (stop + 2) && (utf8 "::").isPrefixOf (line.drop stop)

/-- `str::floor_char_boundary`. -/
def floorCharBoundary : Nat → Nat
  | 0 => 0
  | index + 1 => if isCharBoundary line (index + 1) then index + 1 else floorCharBoundary index

/-- `str::ceil_char_boundary`, for an index in the text. -/
def ceilCharBoundary (index : Nat) : Nat :=
  index + ((line.drop index).takeWhile fun byte => byte &&& 0xC0 == 0x80).length

/-- Twenty bytes on both sides of a match, as far as the line goes. -/
def matchContext (col : Nat) : Bytes :=
  let start := floorCharBoundary line (col - 20)
  let stop := ceilCharBoundary line (min (col + name.length + 20) line.length)
  (line.take stop).drop start

/-- The match at `col`, if colons stand beside it. -/
def reportMatch (lineOffset lineNumber : Nat) (confident : Bool) (col : Nat) :
    List QualifiedMatch :=
  if precededByColons line col || followedByColons line (col + name.length) then
    [⟨lineOffset + col, lineNumber, matchContext name line col, confident⟩]
  else []

end Line

/-- One round of the scan: the matches, the state, and the next column unless the line is done. -/
structure ScanStep where
  found : List QualifiedMatch
  state : LexState
  next : Option Nat

section Scan

variable (name line : Bytes) (lineOffset lineNumber : Nat)

/-- The uncertain match at `col`, if the name stands there at all. -/
def uncertainAt (col : Nat) : List QualifiedMatch :=
  if nameAt name line col then reportMatch name line lineOffset lineNumber false col else []

/-- The search through a line comment. Each round cuts behind the start of the last match, which
panics inside a character. -/
def scanLineComment (col : Nat) : Nat → Nat → Except EditFault (List QualifiedMatch)
  | 0, _ => .ok []
  | rounds + 1, searchStart =>
    let rest := line.drop col
    if searchStart ≤ rest.length ∧ isCharBoundary rest searchStart then
      match find (rest.drop searchStart) name with
      | none => .ok []
      | some position => do
        let later ← scanLineComment col rounds (searchStart + position + 1)
        .ok (reportMatch name line lineOffset lineNumber false (col + searchStart + position) ++
          later)
    else .error .panicked

/-- The scan of a string from `col` on, up to the column of the closing quote or the end. -/
def scanString : Nat → Nat → List QualifiedMatch × Nat
  | 0, col => ([], col)
  | rounds + 1, col =>
    -- `line` and a bracket without the parentheses is a token of Mathlib's affine geometry
    match (line)[col]? with
    | none => ([], col)
    | some byte =>
      if byte = 0x22 then ([], col)
      else if byte = 0x5C then scanString rounds (col + 2)
      else if !isCharBoundary line col then scanString rounds (col + 1)
      else
        let (later, stop) := scanString rounds (col + 1)
        (uncertainAt name line lineOffset lineNumber col ++ later, stop)

/-- The column behind the opening of a raw string at `col`, and its number of `#`. -/
def rawStringStart (col : Nat) : Option (Nat × Nat) :=
  let hashes := ((line.drop (col + 1)).takeWhile (· == 0x23)).length
  if (line)[col]? = some 0x72 ∧ (line)[col + 1 + hashes]? = some 0x22 then
    some (hashes, col + 1 + hashes + 1)
  else none

/-- Whether a raw string with `hashes` times `#` ends at `col`. -/
def rawStringEnds (hashes col : Nat) : Bool :=
  (line)[col]? == some 0x22 &&
    decide (hashes ≤ ((line.drop (col + 1)).takeWhile (· == 0x23)).length)

/-- A round in code, outside of comments and raw strings. -/
def scanCode (state : LexState) (col : Nat) : Except EditFault ScanStep :=
  if (utf8 "//").isPrefixOf (line.drop col) then do
    let found ← scanLineComment name line lineOffset lineNumber col (line.length + 1) 0
    .ok ⟨found, state, none⟩
  else if (utf8 "/*").isPrefixOf (line.drop col) then
    .ok ⟨[], { state with inBlockComment := true }, some (col + 2)⟩
  else if (line)[col]? = some 0x22 then
    let (found, stop) := scanString name line lineOffset lineNumber line.length (col + 1)
    .ok ⟨found, state, some (stop + 1)⟩
  else if nameAt name line col then
    .ok ⟨reportMatch name line lineOffset lineNumber true col, state, some (col + name.length)⟩
  else .ok ⟨[], state, some (col + 1)⟩

/-- One round of the scan of a line. -/
def scanStep (state : LexState) (col : Nat) : Except EditFault ScanStep :=
  if !isCharBoundary line col then .ok ⟨[], state, some (col + 1)⟩
  else
    match state.inRawString, state.inBlockComment with
    | some hashes, _ =>
      if rawStringEnds line hashes col then
        .ok ⟨[], { state with inRawString := none }, some (col + 1 + hashes)⟩
      else .ok ⟨uncertainAt name line lineOffset lineNumber col, state, some (col + 1)⟩
    | none, true =>
      if (utf8 "*/").isPrefixOf (line.drop col) then
        .ok ⟨[], { state with inBlockComment := false }, some (col + 2)⟩
      else .ok ⟨uncertainAt name line lineOffset lineNumber col, state, some (col + 1)⟩
    | none, false =>
      match rawStringStart line col with
      | some (hashes, next) => .ok ⟨[], { state with inRawString := some hashes }, some next⟩
      | none => scanCode name line lineOffset lineNumber state col

/-- The scan of one line from `col` on. Every round moves on, so as many rounds as the line has
bytes suffice. -/
def scanLine : Nat → LexState → Nat → Except EditFault (List QualifiedMatch × LexState)
  | 0, state, _ => .ok ([], state)
  | rounds + 1, state, col =>
    if col < line.length then do
      let step ← scanStep name line lineOffset lineNumber state col
      match step.next with
      | none => .ok (step.found, step.state)
      | some next =>
        let (later, final) ← scanLine rounds step.state next
        .ok (step.found ++ later, final)
    else .ok ([], state)

end Scan

/-- The lines of a file one after another. -/
def scanLines (name : Bytes) :
    Nat → Nat → LexState → List Bytes → Except EditFault (List QualifiedMatch)
  | _, _, _, [] => .ok []
  | lineOffset, lineNumber, state, line :: rest => do
    let (found, after) ← scanLine name line lineOffset lineNumber line.length state 0
    let later ← scanLines name (lineOffset + line.length + 1) (lineNumber + 1) after rest
    .ok (found ++ later)

/-- `qualified_usages::find_qualified_usages`. -/
def findQualifiedUsages (name source : Bytes) : Except EditFault (List QualifiedMatch) :=
  scanLines name 0 1 ⟨false, none⟩ (splitLineFeeds source)

/-- The loop of `has_qualified_identifier_bytes`, which goes on behind every occurrence. -/
def hasQualifiedFrom (name content : Bytes) : Nat → Nat → Bool
  | 0, _ => false
  | rounds + 1, index =>
    if index + name.length ≤ content.length then
      if name.isPrefixOf (content.drop index) then
        let stop := index + name.length
        (decide (2 ≤ index) && (utf8 "::").isPrefixOf (content.drop (index - 2))) ||
          (utf8 "::").isPrefixOf (content.drop stop) || hasQualifiedFrom name content rounds stop
      else hasQualifiedFrom name content rounds (index + 1)
    else false

/-- `qualified_usages::has_qualified_identifier_bytes`. -/
def hasQualifiedIdentifierBytes (content name : Bytes) : Bool :=
  !name.isEmpty && hasQualifiedFrom name content (content.length + 1) 0

/-- `qualified_usages::QualifiedUsage`. -/
structure QualifiedUsage where
  filePath : String
  byteRange : Nat × Nat
  line : Nat
  context : Bytes
  confident : Bool
  deriving DecidableEq, Repr

/-- The usages of one file. -/
def fileUsages (name : Bytes) (path : String) (content : Bytes) :
    Except EditFault (List QualifiedUsage) :=
  if hasQualifiedIdentifierBytes content name ∧ validUtf8 content then do
    let found ← findQualifiedUsages name content
    .ok (found.map fun one =>
      ⟨path, (one.offset, one.offset + name.length), one.line, one.context, one.confident⟩)
  else .ok []

/-- `qualified_usages::collect_qualified_usages`. -/
def collectQualifiedUsages (name : Bytes) (contents : List (String × Bytes)) :
    Except EditFault (List QualifiedUsage) := do
  let usages ← contents.mapM fun entry => fileUsages name entry.1 entry.2
  .ok usages.flatten

/-! ### What a confident match says -/

/-- `::` stands in front of `start`. -/
def colonsBefore (content : Bytes) (start : Nat) : Bool :=
  decide (2 ≤ start) && (utf8 "::").isPrefixOf (content.drop (start - 2))

/-- `::` stands behind `stop`. -/
def colonsAfter (content : Bytes) (stop : Nat) : Bool := (utf8 "::").isPrefixOf (content.drop stop)

/-- The name stands at `start`, with colons on one side at least. -/
structure QualifiedAt (content name : Bytes) (start : Nat) : Prop where
  spelled : name <+: content.drop start
  colons : colonsBefore content start = true ∨ colonsAfter content (start + name.length) = true

/-- What stands in a line stands in the content at the same distance from its start. -/
theorem prefix_drop_line {before line after needle : Bytes} {col : Nat} (nonempty : needle ≠ [])
    (inLine : needle <+: line.drop col) :
    needle <+: (before ++ (line ++ after)).drop (before.length + col) := by
  have reaches : col ≤ line.length := by
    by_contra beyond
    rw [drop_eq_nil_of_le (by omega)] at inLine
    exact nonempty (prefix_nil.mp inLine)
  rw [drop_append, drop_eq_nil_of_le (Nat.le_add_right _ _), nil_append,
    Nat.add_sub_cancel_left, drop_append_of_le_length reaches]
  exact inLine.trans (prefix_append _ _)

/-- The colons are not empty. -/
theorem colons_ne_nil : utf8 "::" ≠ [] := by decide

section Sound

variable {name line : Bytes} {lineOffset lineNumber : Nat} {found : List QualifiedMatch} {col : Nat}

/-- A usage on a line is one in the file. -/
theorem QualifiedAt.of_line {before after : Bytes} (nonempty : name ≠ [])
    (here : nameAt name line col = true)
    (colons : precededByColons line col = true ∨ followedByColons line (col + name.length) = true) :
    QualifiedAt (before ++ (line ++ after)) name (before.length + col) where
  spelled := by
    unfold nameAt at here
    rw [and_eq_true, isPrefixOf_iff_prefix] at here
    exact prefix_drop_line nonempty here.1
  colons := by
    rcases colons with front | behind
    · left
      unfold precededByColons at front
      unfold colonsBefore
      rw [and_eq_true, and_eq_true, decide_eq_true_eq, isPrefixOf_iff_prefix] at front
      rw [and_eq_true, decide_eq_true_eq, isPrefixOf_iff_prefix,
        show before.length + col - 2 = before.length + (col - 2) by omega]
      exact ⟨by omega, prefix_drop_line colons_ne_nil front.2⟩
    · right
      unfold followedByColons at behind
      unfold colonsAfter
      rw [and_eq_true, isPrefixOf_iff_prefix] at behind
      rw [Nat.add_assoc, isPrefixOf_iff_prefix]
      exact prefix_drop_line colons_ne_nil behind.2

variable {one : QualifiedMatch}

/-- What one match reports. -/
theorem mem_reportMatch {confident : Bool}
    (member : one ∈ reportMatch name line lineOffset lineNumber confident col) :
    one.offset = lineOffset + col ∧ one.confident = confident ∧
      (precededByColons line col = true ∨ followedByColons line (col + name.length) = true) := by
  unfold reportMatch at member
  split at member
  · rename_i colons
    rw [mem_singleton.mp member]
    exact ⟨rfl, rfl, or_eq_true_iff.mp colons⟩
  · cases member

/-- Such a match is never confident. -/
theorem uncertainAt_uncertain
    (member : one ∈ uncertainAt name line lineOffset lineNumber col) : one.confident = false := by
  unfold uncertainAt at member
  split at member
  · exact (mem_reportMatch member).2.1
  · cases member

/-- Neither is one in a comment. -/
theorem scanLineComment_uncertain {rounds searchStart : Nat}
    (scanned : scanLineComment name line lineOffset lineNumber col rounds searchStart = .ok found) :
    ∀ one ∈ found, one.confident = false := by
  induction rounds generalizing searchStart found with
  | zero =>
    cases scanned
    exact forall_mem_nil _
  | succ rounds ih =>
    unfold scanLineComment at scanned
    dsimp only at scanned
    split at scanned
    swap
    · cases scanned
    split at scanned
    · cases scanned
      intro one member
      cases member
    · obtain ⟨later, rest, scanned⟩ := bind_eq_ok scanned
      cases scanned
      exact forall_mem_append.mpr ⟨fun one here => (mem_reportMatch here).2.1, ih rest⟩

/-- Neither is one in a string. -/
theorem scanString_uncertain (rounds col : Nat) :
    ∀ one ∈ (scanString name line lineOffset lineNumber rounds col).1, one.confident = false := by
  induction rounds generalizing col with
  | zero => exact forall_mem_nil _
  | succ rounds ih =>
    intro one member
    unfold scanString at member
    split at member
    · cases member
    split_ifs at member
    · cases member
    · exact ih _ _ member
    · exact ih _ _ member
    rcases mem_append.mp member with here | behind
    · exact uncertainAt_uncertain here
    · exact ih _ _ behind

variable {state : LexState}

/-- A confident match of one round is the name beside colons, in code. -/
theorem scanStep_confident {step : ScanStep}
    (scanned : scanStep name line lineOffset lineNumber state col = .ok step)
    (member : one ∈ step.found) (confident : one.confident = true) :
    one.offset = lineOffset + col ∧ nameAt name line col = true ∧
      (precededByColons line col = true ∨ followedByColons line (col + name.length) = true) := by
  have uncertain : one.confident = false → False := by
    intro other
    rw [confident] at other
    cases other
  unfold scanStep at scanned
  split at scanned
  · cases scanned
    cases member
  split at scanned
  · split at scanned
    · cases scanned
      cases member
    · cases scanned
      exact (uncertain (uncertainAt_uncertain member)).elim
  · split at scanned
    · cases scanned
      cases member
    · cases scanned
      exact (uncertain (uncertainAt_uncertain member)).elim
  · split at scanned
    · cases scanned
      cases member
    unfold scanCode at scanned
    split_ifs at scanned with comment block quote here
    · obtain ⟨found, searched, scanned⟩ := bind_eq_ok scanned
      cases scanned
      exact (uncertain (scanLineComment_uncertain searched _ member)).elim
    · cases scanned
      cases member
    · cases scanned
      exact (uncertain (scanString_uncertain _ _ _ member)).elim
    · cases scanned
      obtain ⟨offset, -, colons⟩ := mem_reportMatch member
      exact ⟨offset, here, colons⟩
    · cases scanned
      cases member

/-- A confident match in a line stands in the content where its offset says. -/
theorem scanLine_confident (before after : Bytes) (nonempty : name ≠ []) {rounds : Nat}
    {final : LexState}
    (scanned : scanLine name line before.length lineNumber rounds state col = .ok (found, final)) :
    ∀ one ∈ found, one.confident = true →
      QualifiedAt (before ++ (line ++ after)) name one.offset := by
  induction rounds generalizing state col found final with
  | zero =>
    cases scanned
    exact forall_mem_nil _
  | succ rounds ih =>
    unfold scanLine at scanned
    split at scanned
    · obtain ⟨step, stepped, scanned⟩ := bind_eq_ok scanned
      have here : ∀ one ∈ step.found, one.confident = true →
          QualifiedAt (before ++ (line ++ after)) name one.offset := by
        intro one member confident
        obtain ⟨offset, named, colons⟩ := scanStep_confident stepped member confident
        rw [offset]
        exact .of_line nonempty named colons
      split at scanned
      · cases scanned
        exact here
      obtain ⟨⟨later, end_state⟩, rest, scanned⟩ := bind_eq_ok scanned
      cases scanned
      exact forall_mem_append.mpr ⟨here, ih rest⟩
    · cases scanned
      intro one member
      cases member

/-- The same for the lines from `before` on. -/
theorem scanLines_confident (before : Bytes) (nonempty : name ≠ []) {pieces : List Bytes}
    (scanned : scanLines name before.length lineNumber state pieces = .ok found) :
    ∀ one ∈ found, one.confident = true →
      QualifiedAt (before ++ [0x0A].intercalate pieces) name one.offset := by
  induction pieces generalizing before lineNumber state found with
  | nil =>
    cases scanned
    exact forall_mem_nil _
  | cons line rest ih =>
    obtain ⟨⟨first, after⟩, scannedLine, scanned⟩ := bind_eq_ok scanned
    obtain ⟨later, scannedRest, scanned⟩ := bind_eq_ok scanned
    cases scanned
    intro one member confident
    cases rest with
    | nil =>
      cases scannedRest
      rw [append_nil] at member
      have qualified := scanLine_confident _ [] nonempty scannedLine _ member confident
      simpa using qualified
    | cons next others =>
      have joined : [0x0A].intercalate (line :: next :: others) =
          line ++ ([0x0A] ++ [0x0A].intercalate (next :: others)) := by
        simp [intercalate]
      rw [joined]
      rcases mem_append.mp member with inLine | inRest
      · exact scanLine_confident _ _ nonempty scannedLine _ inLine confident
      have offset : before.length + line.length + 1 = (before ++ (line ++ [0x0A])).length := by
        simp only [length_append, length_singleton]
        omega
      rw [offset] at scannedRest
      have qualified := ih _ scannedRest _ inRest confident
      simpa only [append_assoc] using qualified

end Sound

/-- The lines joined are the text. -/
theorem intercalate_splitLineFeeds (text : Bytes) :
    [0x0A].intercalate (splitLineFeeds text) = text := by
  induction text with
  | nil => rfl
  | cons byte rest ih =>
    unfold splitLineFeeds
    cases pieces : splitLineFeeds rest with
    | nil =>
      have total := splitLineFeeds_sum rest
      simp [pieces] at total
    | cons piece others =>
      rw [pieces] at ih
      split
      · rename_i lineFeed
        rw [← ih, lineFeed]
        simp [intercalate]
      · rw [← ih]
        cases others <;> simp [intercalate]

/-- Every confident match of a file is the name beside colons. -/
theorem findQualifiedUsages_confident {name content : Bytes} {found : List QualifiedMatch}
    (nonempty : name ≠ []) (scanned : findQualifiedUsages name content = .ok found) :
    ∀ one ∈ found, one.confident = true → QualifiedAt content name one.offset := by
  intro one member confident
  have qualified := scanLines_confident [] nonempty scanned _ member confident
  rwa [nil_append, intercalate_splitLineFeeds] at qualified

end Symforge
