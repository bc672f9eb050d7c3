import Symforge.Edit.Structural
/-!
# Editing inside a symbol

The find-and-replace half of `edit_safety/structural.rs`: the exact replacement used by the
batch executor, the whitespace-flexible one, and the selection shared by the single-symbol tool and
the embedded batch.
-/

namespace Symforge.Edit

/-- `&text[start..stop]` of a text: a panic outside it or inside a character. -/
def textSlice (text : Bytes) (start stop : Nat) : Except EditFault Bytes :=
  if isCharBoundary text start && isCharBoundary text stop then slice text start stop
  else .error .panicked

variable (content : Bytes) (sym : SymbolRecord) (oldText newText : String) (replaceAll : Bool)

/-- What `build_edit_within` puts in place of the symbol, and how often it replaced. -/
def editWithinBody : Except EditFault (Bytes × Nat) := do
  let body ← slice content sym.effectiveStart sym.byteRange.2
  if !validUtf8 body then .error (.refused "Symbol body is not valid UTF-8.")
  else
    let lineEnding := detectLineEnding content
    let needle := normalizeLineEndings (utf8 oldText) lineEnding
    let replacement := normalizeLineEndings (utf8 newText) lineEnding
    if !validUtf8 needle then .error (.refused "Normalized search text is not valid UTF-8.")
    else if !validUtf8 replacement then
      .error (.refused "Normalized replacement text is not valid UTF-8.")
    else
      let name := sym.name
      match matchIndices body needle with
      | [] => .error (.refused s!"`{oldText}` not found within symbol `{name}`")
      | first :: others =>
        if replaceAll then
          .ok (replaceAt body needle replacement (first :: others), (first :: others).length)
        else .ok (replaceAt body needle replacement [first], 1)

/-- `structural::build_edit_within`. -/
def buildEditWithin : Except EditFault (Bytes × Nat) := do
  let (newBody, count) ← editWithinBody content sym oldText newText replaceAll
  .ok (applySplice content (sym.effectiveStart, sym.byteRange.2) newBody, count)

/-! ### Whitespace-flexible replacement -/

/-- `structural::indent_of_first_nonempty`. -/
def indentOfFirstNonempty (pieces : List Bytes) : Bytes :=
  match pieces.find? fun line => !isBlank line with
  | some line => line.take (leadingWhitespace line)
  | none => []

/-- `structural::reindent_line`. -/
def reindentLine (line oldBase fileBase : Bytes) : Except EditFault Bytes :=
  if isBlank line then .ok []
  else if oldBase.isPrefixOf line then .ok (fileBase ++ line.drop oldBase.length)
  else
    let lineIndent := leadingWhitespace line
    if lineIndent < oldBase.length then
      let deficit := oldBase.length - lineIndent
      if fileBase.length > deficit then do
        let kept ← textSlice fileBase 0 (fileBase.length - deficit)
        .ok (kept ++ trimStart line)
      else .ok (trimStart line)
    else do
      let extra ← textSlice line oldBase.length lineIndent
      .ok (fileBase ++ extra ++ trimStart line)

/-- The lines of a window agree with the trimmed lines looked for; a window that ends before a
difference is an index out of bounds. -/
def windowHit : List Bytes → List Bytes → Except EditFault Bool
  | _, [] => .ok true
  | [], _ :: _ => .error .panicked
  | line :: rest, trimmed :: others =>
    if trimStart line = trimmed then windowHit rest others else .ok false

/-- The matching windows among the next `rounds` lines, only the first unless all are replaced. -/
def matchingWindows (bodyLines oldTrimmed : List Bytes) (replaceAll : Bool) :
    Nat → Nat → Except EditFault (List Nat)
  | _, 0 => .ok []
  | start, rounds + 1 => do
    let hit ← windowHit (bodyLines.drop start) oldTrimmed
    if hit then
      if replaceAll then
        let later ← matchingWindows bodyLines oldTrimmed replaceAll (start + 1) rounds
        .ok (start :: later)
      else .ok [start]
    else matchingWindows bodyLines oldTrimmed replaceAll (start + 1) rounds

/-- The offset of every line start of a text whose first byte stands at `position`. -/
def lineStartsFrom : Nat → Bytes → List Nat
  | _, [] => []
  | position, byte :: rest =>
    if byte = 0x0A then (position + 1) :: lineStartsFrom (position + 1) rest
    else lineStartsFrom (position + 1) rest

/-- `String::replace_range`. -/
def replaceRange (text : Bytes) (start stop : Nat) (replacement : Bytes) : Except EditFault Bytes :=
  if isCharBoundary text start && isCharBoundary text stop && start ≤ stop then
    .ok (text.take start ++ replacement ++ text.drop stop)
  else .error .panicked

/-- One round of the replacement loop of `try_whitespace_flexible_replace`. -/
def replaceWindow (body : Bytes) (oldLines : List Bytes) (newText : Bytes) (result : Bytes)
    (first : Nat) : Except EditFault Bytes := do
  let bodyLines := lines body
  let lineStarts := 0 :: lineStartsFrom 0 body
  let window := oldLines.length
  match lineStarts[first]? with
  | none => .error .panicked
  | some byteStart =>
    let byteEnd := lineStarts.getD (first + window) body.length
    let matchedLines := (bodyLines.drop first).take window
    let reindented ← (lines newText).mapM fun line =>
      reindentLine line (indentOfFirstNonempty oldLines) (indentOfFirstNonempty matchedLines)
    let joined := [(0x0A : UInt8)].intercalate reindented
    let keepsNewline := byteEnd > byteStart ∧ result[byteEnd - 1]? = some 0x0A ∧
      joined.getLast? ≠ some 0x0A
    replaceRange result byteStart byteEnd (if keepsNewline then joined ++ [0x0A] else joined)

/-- `structural::try_whitespace_flexible_replace`. -/
def tryWhitespaceFlexibleReplace (body oldText newText : Bytes) (replaceAll : Bool) :
    Except EditFault (Option (Bytes × Nat)) :=
  let bodyLines := lines body
  let oldLines := lines oldText
  if oldLines.isEmpty ∨ oldLines.all isBlank then .ok none
  else do
    let starts ← matchingWindows bodyLines (oldLines.map trimStart) replaceAll 0
      (bodyLines.length - oldLines.length + 1)
    if starts.isEmpty then .ok none
    else
      let result ← starts.reverse.foldlM (replaceWindow body oldLines newText) body
      .ok (some (result, starts.length))

/-! ### Selecting what to replace -/

/-- `structural::WithinSelection`. -/
structure WithinSelection where
  newBody : Bytes
  count : Nat
  untargetedExtra : Nat
  deriving DecidableEq, Repr

/-- `structural::WithinSelectionError`, with the panics of the helpers. -/
inductive WithinSelectionError where
  | invalidSpan
  | invalidUtf8
  | conflictingTargeting
  | occurrenceOutOfRange (requested total : Nat)
  | notFound
  | panicked
  deriving DecidableEq, Repr

/-- The first of the candidates whose line is nearest to `target`. -/
def nearestLine (lineOf : Nat → Nat) (target : Nat) : List Nat → Option Nat
  | [] => none
  | position :: rest =>
    match nearestLine lineOf target rest with
    | none => some position
    | some other =>
      if ((lineOf other : Int) - target).natAbs < ((lineOf position : Int) - target).natAbs then
        some other
      else some position

/-- The outcome of the whitespace-flexible fallback as a selection. -/
def flexibleSelection (body oldText newText : Bytes) (replaceAll : Bool) :
    Except WithinSelectionError WithinSelection :=
  match tryWhitespaceFlexibleReplace body oldText newText replaceAll with
  | .ok (some (newBody, count)) => .ok ⟨newBody, count, 0⟩
  | .ok none => .error .notFound
  | .error _ => .error .panicked

/-- `structural::select_edit_within_body`. -/
def selectEditWithinBody (occurrence nearLine : Option Nat) :
    Except WithinSelectionError WithinSelection :=
  let symStart := sym.effectiveStart
  match slice content symStart sym.byteRange.2 with
  | .error _ => .error .invalidSpan
  | .ok body =>
    if !validUtf8 body then .error .invalidUtf8
    else
      let lineEnding := detectLineEnding content
      let normalize (text : String) : Bytes :=
        let normalized := normalizeLineEndings (utf8 text) lineEnding
        if validUtf8 normalized then normalized else utf8 text
      let needle := normalize oldText
      let replacement := normalize newText
      let positions := matchIndices body needle
      if replaceAll.toNat + occurrence.isSome.toNat + nearLine.isSome.toNat > 1 then
        .error .conflictingTargeting
      else if replaceAll then
        if positions.length > 0 then
          .ok ⟨replaceAt body needle replacement positions, positions.length, 0⟩
        else flexibleSelection body needle replacement true
      else
        let replaceOne (position : Nat) : Except WithinSelectionError WithinSelection :=
          .ok ⟨replaceAt body needle replacement [position], 1, 0⟩
        match occurrence, nearLine, positions with
        | some _, _, [] | none, some _, [] => .error .notFound
        | some requested, _, positions =>
          if requested = 0 then .error (.occurrenceOutOfRange requested positions.length)
          else
            match positions[requested - 1]? with
            | some position => replaceOne position
            | none => .error (.occurrenceOutOfRange requested positions.length)
        | none, some target, positions =>
          let lineOf (position : Nat) : Nat := 1 + (content.take (symStart + position)).count 0x0A
          match nearestLine lineOf target positions with
          | some position => replaceOne position
          | none => .error .notFound
        | none, none, first :: others =>
          .ok ⟨replaceAt body needle replacement [first], 1, others.length⟩
        | none, none, [] => flexibleSelection body needle replacement false

end Symforge.Edit
