import Mathlib.Data.List.Sort
import Symforge.Edit.EditWithin
/-!
# Batch edits of one file

The part of `execute_batch_edit` (`protocol/edit.rs`) that concerns one file: the refusal checks
on the original content, and the operations carried out one after another, the one whose symbol
starts last first. They read the content as the operations before them have left it; only the
positions of the `insert_before` operations are fixed during the checks.
-/

namespace Symforge.Edit

/-- `edit::EditOperation`. -/
inductive EditOperation where
  | replace (newBody : String)
  | insertBefore (content : String)
  | insertAfter (content : String)
  | delete
  | editWithin (oldText newText : String)
  deriving DecidableEq, Repr

/-- `edit::ResolvedEdit`: the symbol an operation addresses. -/
structure ResolvedEdit where
  sym : SymbolRecord
  operation : EditOperation
  deriving DecidableEq, Repr

/-- A resolved edit with its footprint and its entry of `insert_before_positions`. -/
structure PlacedEdit where
  edit : ResolvedEdit
  footprint : SpliceFootprint
  insertion : Option (Nat × Bytes)
  deriving DecidableEq, Repr

/-- The two nested loops over the pairs of a list, up to the first related pair. -/
def firstPair {Item : Type} (related : Item → Item → Bool) : List Item → Option (Item × Item)
  | [] => none
  | head :: rest =>
    match rest.find? (related head) with
    | some other => some (head, other)
    | none => firstPair related rest

/-- The effective spans of two symbols share a byte. -/
def spansOverlap (left right : SymbolRecord) : Bool :=
  decide (left.effectiveStart < right.byteRange.2 ∧ right.effectiveStart < left.byteRange.2)

/-- `edit::rollback_footer`. -/
def rollbackFooter (paths : List String) : String :=
  let count := paths.length
  let listed := "\n".intercalate (paths.map fun path => s!"  - {path}")
  s!"\n\nROLLED BACK — {count} edit(s) attempted on:\n{listed}\nNo files were modified."

/-- What the cleanup check looks at. -/
structure Placement where
  sym : SymbolRecord
  deletes : Bool
  footprint : SpliceFootprint
  deriving DecidableEq, Repr

/-- Whether the cleanup of a deletion reaches the footprint of another operation; `before` holds the
footprints already passed. -/
def cleanupConflict (content : Bytes) :
    List SpliceFootprint → List Placement → Except EditFault Bool
  | _, [] => .ok false
  | before, placement :: rest =>
    if placement.deletes then do
      let cleanup ← deleteCleanupRanges content placement.sym (detectLineEnding content)
      if (before ++ rest.map Placement.footprint).any (cleanupInvalidatesSplice cleanup) then
        .ok true
      else cleanupConflict content (before ++ [placement.footprint]) rest
    else cleanupConflict content (before ++ [placement.footprint]) rest

/-- The placement alone. -/
def PlacedEdit.placement (placed : PlacedEdit) : Placement :=
  ⟨placed.edit.sym, placed.edit.operation == .delete, placed.footprint⟩

/-- A message for the caller in place of a value. -/
def orRefuse {Value : Type} (result : Except String Value) : Except EditFault Value :=
  match result with
  | .ok value => .ok value
  | .error message => .error (.refused message)

section Checks

variable (rustInsertionPrefixStart : Bytes → SymbolRecord → Except String Nat)

/-- The footprint of one operation on the original content, with the place of an `insert_before`. -/
def placeEdit (content : Bytes) (language : LanguageId) (edit : ResolvedEdit) :
    Except EditFault PlacedEdit :=
  let sym := edit.sym
  match edit.operation with
  | .insertBefore _ => do
    let position ←
      orRefuse (insertBeforePosition rustInsertionPrefixStart content sym language)
    let indent ← detectIndentation content sym.byteRange.1
    .ok ⟨edit, .insert position, some (position, indent)⟩
  | .insertAfter _ => .ok ⟨edit, .insert (insertAfterPosition content sym), none⟩
  | .delete => do
    let (start, stop) ← deleteSourceRange content sym (detectLineEnding content)
    .ok ⟨edit, .bytes start stop, none⟩
  | .replace newBody =>
    match replacementSpliceRange content sym newBody with
    | .ok (start, stop) => .ok ⟨edit, .bytes start stop, none⟩
    | .error (.refused _) => .ok ⟨edit, .bytes sym.effectiveStart sym.byteRange.2, none⟩
    | .error .panicked => .error .panicked
  | .editWithin _ _ => .ok ⟨edit, .bytes sym.effectiveStart sym.byteRange.2, none⟩

/-- The part of phase 1b that compares footprints and cleanup ranges. -/
def checkPlaced (path footer : String) (content : Bytes) (placed : List PlacedEdit) :
    Except EditFault (List PlacedEdit) :=
  match firstPair (fun left right =>
      spliceFootprintsOverlap left.footprint right.footprint) placed with
  | some _ => .error (.refused
      s!"Overlapping splice footprints in {path}. Split into separate calls.{footer}")
  | none => do
    if ← cleanupConflict content [] (placed.map PlacedEdit.placement) then
      .error (.refused s!"Overlapping delete cleanup in {path}. Split into separate calls.{footer}")
    else .ok placed

/-- Phase 1b of `execute_batch_edit` for one file. A symbol whose span is not in the content ends
the checks; the bounds check reports it. -/
def checkFile (path footer : String) (content : Bytes) (language : LanguageId)
    (edits : List ResolvedEdit) : Except EditFault (List PlacedEdit) :=
  match firstPair (fun left right => spansOverlap left.sym right.sym) edits with
  | some (left, right) =>
    let leftName := left.sym.name
    let leftStart := left.sym.effectiveStart
    let leftStop := left.sym.byteRange.2
    let rightName := right.sym.name
    let rightStart := right.sym.effectiveStart
    let rightStop := right.sym.byteRange.2
    .error (.refused (s!"Overlapping edits in {path}: `{leftName}` ({leftStart}-{leftStop}) and " ++
      s!"`{rightName}` ({rightStart}-{rightStop}). Split into separate calls.{footer}"))
  | none =>
    if edits.any fun edit => decide (edit.sym.effectiveStart > content.length ∨
        edit.sym.byteRange.2 > content.length) then
      .ok (edits.map fun edit => ⟨edit, .bytes edit.sym.effectiveStart edit.sym.byteRange.2, none⟩)
    else do
      let placed ← edits.mapM (placeEdit rustInsertionPrefixStart content language)
      checkPlaced path footer content placed

end Checks

/-- Phase 2: the edits of one file by descending symbol start; the sort is stable. -/
def reverseOrder (placed : List PlacedEdit) : List PlacedEdit :=
  placed.insertionSort fun left right =>
    right.edit.sym.effectiveStart ≤ left.edit.sym.effectiveStart

/-- The start of the `Replace` arm's splice: the line of the effective start and any orphaned docs
above it. -/
def batchReplaceStart (content : Bytes) (sym : SymbolRecord) : Except EditFault Nat := do
  let rawLineStart ← lineStart content sym.effectiveStart
  extendPastOrphanedDocs content rawLineStart sym

/-- The `Replace` arm of phase 3. -/
def batchReplace (content : Bytes) (sym : SymbolRecord) (newBody : String)
    (lineEnding : LineEnding) : Except EditFault Bytes := do
  let start ← batchReplaceStart content sym
  let indent ← detectIndentation content sym.byteRange.1
  let indented ← indentedCode newBody indent lineEnding
  .ok (applySplice content (start, sym.byteRange.2) indented)

/-- One round of the staging loop: the arm of the operation on the content as it is now. -/
def applyOperation (path : String) (lineEnding : LineEnding) (content : Bytes)
    (placed : PlacedEdit) : Except EditFault Bytes :=
  let sym := placed.edit.sym
  match placed.edit.operation with
  | .replace newBody => batchReplace content sym newBody lineEnding
  | .insertBefore code =>
    match placed.insertion with
    | some (position, indent) =>
      buildInsertBeforeAtPosition content sym code lineEnding position indent
    | none => .error (.refused
        "Cannot determine batch insertion boundary; retry with fresh source")
  | .insertAfter code => buildInsertAfter content sym code lineEnding
  | .delete => buildDelete content sym lineEnding
  | .editWithin oldText newText =>
    let name := sym.name
    match buildEditWithin content sym oldText newText false with
    | .ok (newContent, _) => .ok newContent
    | .error (.refused message) => .error (.refused s!"Edit in {path}:{name}: {message}")
    | .error .panicked => .error .panicked

/-- Phase 3 for one file whose content is still the one the symbols were resolved against. -/
def stageChecked (path : String) (content : Bytes) (placed : List PlacedEdit) :
    Except EditFault Bytes :=
  match (reverseOrder placed).find? fun entry =>
      decide (entry.edit.sym.byteRange.2 > content.length) with
  | some stale =>
    let name := stale.edit.sym.name
    let start := stale.edit.sym.byteRange.1
    let stop := stale.edit.sym.byteRange.2
    let length := content.length
    .error (.refused (s!"Symbol `{name}` byte range ({start},{stop}) is out of bounds for file " ++
      s!"`{path}` (content length {length}). The file may have been modified concurrently — " ++
      "please retry."))
  | none => (reverseOrder placed).foldlM (applyOperation path (detectLineEnding content)) content

/-- What `execute_batch_edit` stages for one file. -/
def stageFile (rustInsertionPrefixStart : Bytes → SymbolRecord → Except String Nat)
    (path footer : String) (content : Bytes) (language : LanguageId) (edits : List ResolvedEdit) :
    Except EditFault Bytes := do
  let placed ← checkFile rustInsertionPrefixStart path footer content language edits
  stageChecked path content placed

end Symforge.Edit
