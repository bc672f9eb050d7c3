import Symforge.Library.Splice
import Symforge.Domain
/-!
# Structural edits of one file

`edit_safety/structural.rs`: the byte plans of the symbol-addressed edits. Every helper works on
the bytes of a file and on the spans of a symbol record; offsets are `Nat`, since the index only
admits files whose offsets fit their 32-bit fields.
-/

namespace Symforge.Edit

open List

open Library (Splice splice)

variable (content : Bytes)

/-- `structural::apply_splice`: a range is cut off at the end of the content. -/
def applySplice (range : Nat × Nat) (replacement : Bytes) : Bytes :=
  splice content ⟨range.1, range.2, replacement⟩

/-! ### Line endings -/

/-- `structural::LineEnding`. -/
inductive LineEnding where
  | lf
  | crLf
  deriving DecidableEq, Repr

/-- The bytes of a line ending. -/
def LineEnding.asBytes : LineEnding → Bytes
  | .lf => [0x0A]
  | .crLf => [0x0D, 0x0A]

/-- The numbers of `\r\n` pairs and of lone `\n` bytes. -/
def countLineEndings : Bytes → Nat × Nat
  | [] => (0, 0)
  | [byte] => (0, if byte = 0x0A then 1 else 0)
  | first :: second :: rest =>
    if first = 0x0D ∧ second = 0x0A then
      let (crLf, lf) := countLineEndings rest
      (crLf + 1, lf)
    else
      let (crLf, lf) := countLineEndings (second :: rest)
      (crLf, if first = 0x0A then lf + 1 else lf)

/-- `structural::detect_line_ending`. -/
def detectLineEnding : LineEnding :=
  let (crLf, lf) := countLineEndings content
  if crLf > lf then .crLf else .lf

/-- `\r\n` and lone `\r` become `\n`. -/
def canonicalLineEndings : Bytes → Bytes
  | [] => []
  | [byte] => [if byte = 0x0D then 0x0A else byte]
  | first :: second :: rest =>
    if first = 0x0D ∧ second = 0x0A then 0x0A :: canonicalLineEndings rest
    else (if first = 0x0D then 0x0A else first) :: canonicalLineEndings (second :: rest)

/-- `structural::normalize_line_endings`. -/
def normalizeLineEndings (text : Bytes) (target : LineEnding) : Bytes :=
  match target with
  | .lf => canonicalLineEndings text
  | .crLf =>
    (canonicalLineEndings text).flatMap fun byte => if byte = 0x0A then [0x0D, 0x0A] else [byte]

/-! ### Indentation -/

/-- `structural::detect_indentation`: nothing when the rest of the file is blank. -/
def detectIndentation (byteOffset : Nat) : Except EditFault Bytes := do
  let start ← lineStart content byteOffset
  let line := content.drop start
  match line.findIdx? fun byte => !isAsciiWhitespace byte || byte == 0x0A with
  | some indentEnd => .ok (line.take indentEnd)
  | none => .ok []

/-- How many bytes two texts share in front. -/
def commonPrefixLength : Bytes → Bytes → Nat
  | left :: lefts, right :: rights =>
    if left = right then commonPrefixLength lefts rights + 1 else 0
  | _, _ => 0

/-- `structural::common_leading_whitespace`, from the prefix so far: compared byte by byte and cut
as a text, which panics inside a character. -/
def commonLeadingWhitespaceFrom : Option Bytes → List Bytes → Except EditFault Bytes
  | common, [] => .ok (common.getD [])
  | common, raw :: rest =>
    let line := stripCarriageReturn raw
    if isBlank line then commonLeadingWhitespaceFrom common rest
    else
      let whitespace := line.take (leadingWhitespace line)
      match common with
      | none =>
        if whitespace = [] then .ok [] else commonLeadingWhitespaceFrom (some whitespace) rest
      | some previous =>
        let shared := commonPrefixLength previous whitespace
        if isCharBoundary previous shared then
          if shared = 0 then .ok []
          else commonLeadingWhitespaceFrom (some (previous.take shared)) rest
        else .error .panicked

/-- `structural::common_leading_whitespace`. -/
def commonLeadingWhitespace (pieces : List Bytes) : Except EditFault Bytes :=
  commonLeadingWhitespaceFrom none pieces

/-- One line of `apply_indentation`: the common base goes, the symbol's column comes. -/
def indentLine (base indent raw : Bytes) : Bytes :=
  let line := stripCarriageReturn raw
  if line.isEmpty then []
  else indent ++ (if base.isPrefixOf line then line.drop base.length else line)

/-- `structural::apply_indentation`. -/
def applyIndentation (text indent : Bytes) (lineEnding : LineEnding) : Except EditFault Bytes := do
  let pieces := splitLineFeeds text
  let base ← commonLeadingWhitespace pieces
  .ok (lineEnding.asBytes.intercalate (pieces.map (indentLine base indent)))

/-- The normalization and re-columning every inserted or replaced code goes through. -/
def indentedCode (code : String) (indent : Bytes) (lineEnding : LineEnding) :
    Except EditFault Bytes :=
  let normalized := normalizeLineEndings (utf8 code) lineEnding
  applyIndentation (if validUtf8 normalized then normalized else utf8 code) indent lineEnding

/-! ### Documentation above and beside a symbol -/

/-- A line that `extend_past_orphaned_docs` takes for part of a comment block. -/
def isOrphanDocLine (line : Bytes) : Bool :=
  let trimmed := trimStart (if validUtf8 line then line else [])
  startsWith trimmed "///" || startsWith trimmed "//!" || startsWith trimmed "/**" ||
    startsWith trimmed "* " || trimmed == utf8 "*/" || startsWith trimmed "# " ||
    trimmed == utf8 "#"

/-- The lines above a symbol, last one first, without the empty rest of the split. -/
def dropEmptyRest : List Bytes → List Bytes
  | [] :: rest => rest
  | above => above

/-- The length of the lines in front of an orphaned comment block, given the lines above a symbol,
last one first: one blank line, then the block. -/
def orphanedDocsStart (above : List Bytes) : Option Nat :=
  match dropEmptyRest above with
  | blank :: rest =>
    if blank.all isAsciiWhitespace ∧ (rest.takeWhile isOrphanDocLine).length ≠ 0 then
      some (((rest.dropWhile isOrphanDocLine).map fun line => line.length + 1).sum)
    else none
  | [] => none

/-- `structural::extend_past_orphaned_docs`. -/
def extendPastOrphanedDocs (start : Nat) (sym : SymbolRecord) : Except EditFault Nat :=
  if sym.docByteRange.isSome then .ok start
  else do
    let above ← sliceTo content start
    .ok ((orphanedDocsStart (splitLineFeeds above).reverse).getD start)

/-- Dropping lines leaves fewer bytes. -/
theorem dropWhile_sum_le (skipped : Bytes → Bool) (pieces : List Bytes) :
    ((pieces.dropWhile skipped).map fun line => line.length + 1).sum ≤
      (pieces.map fun line => line.length + 1).sum := by
  have parts := congrArg (fun l => (l.map fun line : Bytes => line.length + 1).sum)
    (takeWhile_append_dropWhile (p := skipped) (l := pieces))
  simp only [map_append, sum_append] at parts
  omega

/-- Orphaned docs start inside the text above the symbol. -/
theorem orphanedDocsStart_le {above : List Bytes} {start total : Nat}
    (found : orphanedDocsStart above = some start)
    (lengths : (above.map fun line => line.length + 1).sum = total + 1) : start ≤ total := by
  have dropped : ((dropEmptyRest above).map fun line => line.length + 1).sum ≤ total + 1 := by
    unfold dropEmptyRest
    split
    · simp only [map_cons, sum_cons] at lengths
      omega
    · omega
  unfold orphanedDocsStart at found
  split at found
  · rename_i blank rest lines
    rw [lines, map_cons, sum_cons] at dropped
    split at found
    · cases found
      have skipped := dropWhile_sum_le isOrphanDocLine rest
      omega
    · cases found
  · cases found

/-- The docs that are taken along end at `start`. -/
theorem extendPastOrphanedDocs_ok {content : Bytes} {start : Nat} (sym : SymbolRecord)
    (bounded : start ≤ content.length) :
    ∃ extended ≤ start, extendPastOrphanedDocs content start sym = .ok extended := by
  unfold extendPastOrphanedDocs
  split
  · exact ⟨_, le_rfl, rfl⟩
  rw [sliceTo_ok bounded]
  cases found : orphanedDocsStart (splitLineFeeds (content.take start)).reverse with
  | none => exact ⟨_, le_rfl, by simp [bind, Except.bind, found]⟩
  | some extended =>
    refine ⟨extended, orphanedDocsStart_le found ?_, by simp [bind, Except.bind, found]⟩
    rw [map_reverse, sum_reverse, splitLineFeeds_sum, length_take, Nat.min_eq_left bounded]

/-- The loop of `extend_past_leading_attributes`; each round moves up, so that as many rounds as
there are bytes suffice. -/
def attributesStart (content : Bytes) : Nat → Nat → Nat
  | 0, start => start
  | rounds + 1, start =>
    if start = 0 then start
    else
      let previousStart := lastLineStart (content.take (start - 1))
      let line := (content.take (start - 1)).drop previousStart
      if startsWith (trimStart (if validUtf8 line then line else [])) "#[" then
        attributesStart content rounds previousStart
      else start

/-- `structural::extend_past_leading_attributes`. -/
def extendPastLeadingAttributes (start : Nat) : Nat := attributesStart content start start

/-- `structural::body_starts_with_doc_comment`. -/
def bodyStartsWithDocComment (body : String) : Bool :=
  match (lines (utf8 body)).find? fun line => !isBlank line with
  | none => false
  | some first =>
    let trimmed := trimStart first
    startsWith trimmed "///" || startsWith trimmed "//!" || startsWith trimmed "/**" ||
      startsWith trimmed "/*!" || startsWith trimmed "#[doc"

/-- Where the text goes on after the first `marker` and the whitespace behind it. -/
def afterMarker (trimmed : Bytes) (marker : String) : Option Nat :=
  (find trimmed (utf8 marker)).map fun position =>
    let markerEnd := position + (utf8 marker).length
    markerEnd + leadingWhitespace (trimmed.drop markerEnd)

/-- `structural::same_line_doc_prefix_end`. -/
def sameLineDocPrefixEnd (text : Bytes) : Option Nat :=
  if validUtf8 text then
    let leading := leadingWhitespace text
    let trimmed := text.drop leading
    if startsWith trimmed "/**" || startsWith trimmed "/*!" then
      (afterMarker trimmed "*/").map (leading + ·)
    else if startsWith trimmed "#[doc" then (afterMarker trimmed "]").map (leading + ·)
    else none
  else none

/-- A marker stands inside the line. -/
theorem afterMarker_le {trimmed : Bytes} {marker : String} {stop : Nat}
    (found : afterMarker trimmed marker = some stop) :
    (utf8 marker).length ≤ stop ∧ stop ≤ trimmed.length := by
  obtain ⟨position, at_position, rfl⟩ := Option.map_eq_some_iff.mp found
  have marked := find_le at_position
  have blanks := leadingWhitespace_le (trimmed.drop (position + (utf8 marker).length))
  rw [length_drop] at blanks
  dsimp only
  omega

/-- A doc marker beside the symbol is not empty and ends before the symbol. -/
theorem sameLineDocPrefixEnd_le {text : Bytes} {stop : Nat}
    (found : sameLineDocPrefixEnd text = some stop) : 0 < stop ∧ stop ≤ text.length := by
  have leading := leadingWhitespace_le text
  unfold sameLineDocPrefixEnd at found
  split at found
  swap
  · cases found
  dsimp only at found
  split_ifs at found
  · obtain ⟨marked, closed, rfl⟩ := Option.map_eq_some_iff.mp found
    have bounds := afterMarker_le closed
    rw [length_drop, show (utf8 "*/").length = 2 from rfl] at bounds
    omega
  · obtain ⟨marked, closed, rfl⟩ := Option.map_eq_some_iff.mp found
    have bounds := afterMarker_le closed
    rw [length_drop, show (utf8 "]").length = 1 from rfl] at bounds
    omega

/-- `structural::docless_replacement_splice_start`. -/
def doclessReplacementSpliceStart (rawLineStart symbolStart : Nat) : Nat :=
  if rawLineStart ≥ symbolStart ∨ symbolStart > content.length then rawLineStart
  else
    match sameLineDocPrefixEnd ((content.take symbolStart).drop rawLineStart) with
    | some stop => rawLineStart + stop
    | none => rawLineStart

/-! ### Replacing a symbol -/

variable (sym : SymbolRecord)

/-- `structural::replacement_splice_range`. -/
def replacementSpliceRange (newBody : String) : Except EditFault (Nat × Nat) :=
  let start := sym.byteRange.1
  let stop := sym.byteRange.2
  if start > stop ∨ stop > content.length ∨ sym.effectiveStart > start then
    .error (.refused "symbol span is outside the captured file")
  else if bodyStartsWithDocComment newBody then do
    let rawLineStart ← lineStart content sym.effectiveStart
    let spliceStart ← extendPastOrphanedDocs content rawLineStart sym
    .ok (spliceStart, stop)
  else do
    let rawLineStart ← lineStart content start
    .ok (doclessReplacementSpliceStart content rawLineStart start, stop)

/-- `structural::PreparedReplace`. -/
structure PreparedReplace where
  newContent : Bytes
  oldBytes : Nat
  insertedBytes : Nat
  deriving DecidableEq, Repr

/-- `structural::prepare_replace`. -/
def prepareReplace (newBody : String) : Except EditFault PreparedReplace := do
  let start := sym.byteRange.1
  let stop := sym.byteRange.2
  let (spliceStart, _) ← replacementSpliceRange content sym newBody
  let indent ← detectIndentation content start
  let indented ← indentedCode newBody indent (detectLineEnding content)
  .ok
    { newContent := applySplice content (spliceStart, stop) indented
      oldBytes := stop - start
      insertedBytes := indented.length }

/-! ### Inserting beside a symbol -/

/-- Whether the last two line endings are adjacent, so that a blank line ends the text. -/
def endsWithBlankLine (before : Bytes) (lineEnding : LineEnding) : Bool :=
  (lineEnding.asBytes ++ lineEnding.asBytes).isSuffixOf before

variable (newCode : String) (lineEnding : LineEnding) (position : Nat)

/-- What `build_insert_before_at_position` inserts: the code, and a separator for one blank line. -/
def insertBeforeText (indent : Bytes) : Except EditFault Bytes := do
  let indented ← indentedCode newCode indent lineEnding
  if sym.docByteRange.isSome then .ok (indented ++ lineEnding.asBytes)
  else
    let before ← sliceTo content position
    if endsWithBlankLine before lineEnding then .ok (indented ++ lineEnding.asBytes)
    else .ok (indented ++ (lineEnding.asBytes ++ lineEnding.asBytes))

/-- `structural::build_insert_before_at_position`. -/
def buildInsertBeforeAtPosition (indent : Bytes) : Except EditFault Bytes := do
  let insertion ← insertBeforeText content sym newCode lineEnding position indent
  .ok (applySplice content (position, position) insertion)

section RustBoundary

-- `parsing/languages/rust.rs` `insertion_prefix_start`: the start of the attributes and outer docs
-- of a Rust item, which it takes from a fresh parse of the file.
variable (rustInsertionPrefixStart : Bytes → SymbolRecord → Except String Nat)

/-- What `insert_before_position` inserts in front of: a Rust item with its prefix, or the symbol
with its docs. -/
def insertionStart (content : Bytes) (sym : SymbolRecord) (language : LanguageId) :
    Except String Nat :=
  if language = .rust then
    if validUtf8 content then rustInsertionPrefixStart content sym
    else .error "Cannot determine Rust insertion boundary: source is not UTF-8"
  else .ok sym.effectiveStart

/-- `structural::insert_before_position`. -/
def insertBeforePosition (content : Bytes) (sym : SymbolRecord) (language : LanguageId) :
    Except String Nat := do
  let symStart ← insertionStart rustInsertionPrefixStart content sym language
  if symStart > content.length then
    .error "Cannot determine insertion boundary: span is out of bounds"
  else
    let before := content.take symStart
    let position := lastLineStart before
    if language = .rust ∧ (before.drop position).all isAsciiWhitespace = false then
      .error "Cannot insert before a Rust item sharing its line with preceding code"
    else .ok position

end RustBoundary

/-- `structural::skip_trailing_semicolon`. -/
def skipTrailingSemicolon : Nat :=
  let blanks := ((content.drop position).takeWhile fun byte => byte == 0x20 || byte == 0x09).length
  if content[position + blanks]? = some 0x3B then position + blanks + 1 else position

/-- `structural::insert_after_position`. -/
def insertAfterPosition : Nat := skipTrailingSemicolon content sym.byteRange.2

/-- What `build_insert_after` puts behind the symbol. -/
def insertAfterText : Except EditFault Bytes := do
  let indent ← detectIndentation content sym.byteRange.1
  let indented ← indentedCode newCode indent lineEnding
  .ok (lineEnding.asBytes ++ lineEnding.asBytes ++ indented)

/-- `structural::build_insert_after`. -/
def buildInsertAfter : Except EditFault Bytes := do
  let insertion ← insertAfterText content sym newCode lineEnding
  let position := insertAfterPosition content sym
  .ok (applySplice content (position, position) insertion)

/-! ### Deleting a symbol -/

/-- The position behind the line feed that ends the line, or the end of the content. -/
def afterLine (stop : Nat) : Nat :=
  let lineEnd := stop + ((content.drop stop).takeWhile (· != 0x0A)).length
  if content[lineEnd]? = some 0x0A then lineEnd + 1 else lineEnd

/-- The end of `delete_source_range`: the rest of the line, its line feed, and one blank line. -/
def deleteEnd (stop : Nat) (lineEnding : LineEnding) : Nat :=
  let next := afterLine content stop
  match lineEnding with
  | .crLf =>
    if content[next]? = some 0x0D ∧ content[next + 1]? = some 0x0A then next + 2 else next
  | .lf => if content[next]? = some 0x0A then next + 1 else next

variable (lineEnding : LineEnding)

/-- `structural::delete_source_range`. -/
def deleteSourceRange : Except EditFault (Nat × Nat) := do
  let rawLineStart ← lineStart content sym.effectiveStart
  let start ←
    extendPastOrphanedDocs content (extendPastLeadingAttributes content rawLineStart) sym
  .ok (start, deleteEnd content sym.byteRange.2 lineEnding)

/-- The line feeds that `collapse_blank_lines` keeps: the first two of every run of them. -/
def collapseLineFeeds : Nat → Bytes → Bytes
  | _, [] => []
  | consecutive, byte :: rest =>
    if byte = 0x0A then
      if consecutive + 1 ≤ 2 then byte :: collapseLineFeeds (consecutive + 1) rest
      else collapseLineFeeds (consecutive + 1) rest
    else byte :: collapseLineFeeds 0 rest

/-- The same for runs of `\r\n` pairs. -/
def collapsePairs : Nat → Bytes → Bytes
  | _, [] => []
  | _, [byte] => [byte]
  | consecutive, first :: second :: rest =>
    if first = 0x0D ∧ second = 0x0A then
      if consecutive + 1 ≤ 2 then first :: second :: collapsePairs (consecutive + 1) rest
      else collapsePairs (consecutive + 1) rest
    else first :: collapsePairs 0 (second :: rest)

/-- `structural::collapse_blank_lines`. -/
def collapseBlankLines : Bytes :=
  match lineEnding with
  | .lf => collapseLineFeeds 0 content
  | .crLf => collapsePairs 0 content

/-- `structural::build_delete`. -/
def buildDelete : Except EditFault Bytes := do
  let range ← deleteSourceRange content sym lineEnding
  .ok (collapseBlankLines (applySplice content range []) lineEnding)

/-- Appends a range to the removed ones, joining it with the last when they touch. -/
def joinRange (removed : List (Nat × Nat)) (range : Nat × Nat) : List (Nat × Nat) :=
  match removed.getLast? with
  | some last =>
    if last.2 = range.1 then removed.dropLast ++ [(last.1, range.2)] else removed ++ [range]
  | none => [range]

/-- `structural::push_cleanup_range`: a range of the shortened content in the original's
coordinates, split at the deletion. -/
def pushCleanupRange (removed : List (Nat × Nat)) (start stop : Nat) (main : Nat × Nat) :
    List (Nat × Nat) :=
  let push (removed : List (Nat × Nat)) (start stop : Nat) :=
    if start ≥ stop then removed
    else
      let shift := if start ≥ main.1 then main.2 - main.1 else 0
      joinRange removed (start + shift, stop + shift)
  push (push removed start (min stop main.1)) (max start main.1) stop

/-- The scan of `delete_cleanup_ranges` over a file with `\n` endings. -/
def cleanupLineFeeds (main : Nat × Nat) : Nat → Nat → List (Nat × Nat) → Bytes → List (Nat × Nat)
  | _, _, removed, [] => removed
  | consecutive, position, removed, byte :: rest =>
    if byte = 0x0A then
      cleanupLineFeeds main (consecutive + 1) (position + 1)
        (if consecutive + 1 > 2 then pushCleanupRange removed position (position + 1) main
          else removed) rest
    else cleanupLineFeeds main 0 (position + 1) removed rest

/-- The scan of `delete_cleanup_ranges` over a file with `\r\n` endings. -/
def cleanupPairs (main : Nat × Nat) : Nat → Nat → List (Nat × Nat) → Bytes → List (Nat × Nat)
  | _, _, removed, [] => removed
  | _, _, removed, [_] => removed
  | consecutive, position, removed, first :: second :: rest =>
    if first = 0x0D ∧ second = 0x0A then
      cleanupPairs main (consecutive + 1) (position + 2)
        (if consecutive + 1 > 2 then pushCleanupRange removed position (position + 2) main
          else removed) rest
    else cleanupPairs main 0 (position + 1) removed (second :: rest)

/-- `structural::delete_cleanup_ranges`. -/
def deleteCleanupRanges : Except EditFault (List (Nat × Nat)) := do
  let main ← deleteSourceRange content sym lineEnding
  let spliced := applySplice content main []
  match lineEnding with
  | .lf => .ok (cleanupLineFeeds main 0 0 [] spliced)
  | .crLf => .ok (cleanupPairs main 0 0 [] spliced)

/-! ### Footprints -/

/-- `structural::SpliceFootprint`. -/
inductive SpliceFootprint where
  | bytes (start stop : Nat)
  | insert (position : Nat)
  deriving DecidableEq, Repr

/-- `structural::splice_footprints_overlap`. -/
def spliceFootprintsOverlap : SpliceFootprint → SpliceFootprint → Bool
  | .bytes a b, .bytes c d => decide (a < d ∧ c < b)
  | .insert position, .bytes start stop | .bytes start stop, .insert position =>
    decide (start ≤ position ∧ position < stop)
  | .insert left, .insert right => left == right

/-- The position behind the last target byte of a footprint. -/
def SpliceFootprint.lastTargetByte : SpliceFootprint → Nat
  | .bytes _ stop => stop
  | .insert position => position + 1

/-- `structural::cleanup_invalidates_splice`. -/
def cleanupInvalidatesSplice (cleanup : List (Nat × Nat)) (other : SpliceFootprint) : Bool :=
  cleanup.any fun range => decide (range.1 < other.lastTargetByte)

end Symforge.Edit
