import Symforge.Edit.BatchEdit
/-!
# Batch edits through the embedded interface

The part of `stage_batch` (`index_lifecycle/embed_batch.rs`) that concerns one file, after its
guards have been validated. It makes the refusal checks of the batch executor and then calls the
helpers of the single-symbol tools on the content as the actions before have left it.
-/

namespace Symforge.Edit

/-- `embed::parity::edit::InsertPosition`. -/
inductive InsertPosition where
  | before
  | after
  deriving DecidableEq, Repr

/-- `embed::parity::edit::BatchEditAction`, without the guards. -/
inductive BatchEditAction where
  | replace (newBody : String)
  | insert (position : InsertPosition) (content : String)
  | delete
  | editWithin (oldText newText : String) (replaceAll : Bool) (occurrence nearLine : Option Nat)
  deriving DecidableEq, Repr

/-- `embed_batch::ResolvedAction`. -/
structure ResolvedAction where
  symbol : SymbolRecord
  action : BatchEditAction
  deriving DecidableEq, Repr

/-- The kinds of `embed::parity::edit::EditErrorKind` that staging one file can give. -/
inductive EditErrorKind where
  | unsafeContent
  | staleContent
  | writeConflict
  | invalidReplacement
  | conflictingTargeting
  | occurrenceOutOfRange (requested total : Nat)
  | textNotFound
  | panicked
  deriving DecidableEq, Repr

/-- A refusal of a helper becomes `kind`; a panic stays one. -/
def orKind {Value : Type} (kind : EditErrorKind) (result : Except EditFault Value) :
    Except EditErrorKind Value :=
  match result with
  | .ok value => .ok value
  | .error (.refused _) => .error kind
  | .error .panicked => .error .panicked

section Stage

variable (rustInsertionPrefixStart : Bytes → SymbolRecord → Except String Nat)

/-- The footprint of one action on the content of the snapshot. -/
def actionFootprint (content : Bytes) (language : LanguageId) (resolved : ResolvedAction) :
    Except EditErrorKind SpliceFootprint :=
  let symbol := resolved.symbol
  match resolved.action with
  | .insert .before _ => do
    let position ← orKind .invalidReplacement
      (orRefuse (insertBeforePosition rustInsertionPrefixStart content symbol language))
    .ok (.insert position)
  | .insert .after _ => .ok (.insert (insertAfterPosition content symbol))
  | .delete => do
    let (start, stop) ←
      orKind .staleContent (deleteSourceRange content symbol (detectLineEnding content))
    .ok (.bytes start stop)
  | .replace newBody => do
    let (start, stop) ← orKind .staleContent (replacementSpliceRange content symbol newBody)
    .ok (.bytes start stop)
  | .editWithin _ _ _ _ _ => .ok (.bytes symbol.effectiveStart symbol.byteRange.2)

/-- `select_edit_within_body`'s errors as error kinds of the embedded interface. -/
def withinErrorKind : WithinSelectionError → EditErrorKind
  | .invalidSpan | .invalidUtf8 => .staleContent
  | .conflictingTargeting => .conflictingTargeting
  | .occurrenceOutOfRange requested total => .occurrenceOutOfRange requested total
  | .notFound => .textNotFound
  | .panicked => .panicked

/-- One round of the staging loop: the action on the content as it is now. -/
def applyAction (original content : Bytes) (entry : ResolvedAction × SpliceFootprint) :
    Except EditErrorKind Bytes :=
  let symbol := entry.1.symbol
  let lineEnding := detectLineEnding content
  match entry.1.action with
  | .replace newBody => do
    let prepared ← orKind .staleContent (prepareReplace content symbol newBody)
    .ok prepared.newContent
  | .insert .before code =>
    match entry.2 with
    | .insert position => orKind .staleContent do
      let indent ← detectIndentation original symbol.byteRange.1
      buildInsertBeforeAtPosition content symbol code lineEnding position indent
    | .bytes _ _ => .error .staleContent
  | .insert .after code =>
    orKind .staleContent (buildInsertAfter content symbol code lineEnding)
  | .delete => orKind .staleContent (buildDelete content symbol lineEnding)
  | .editWithin oldText newText replaceAll occurrence nearLine =>
    match selectEditWithinBody content symbol oldText newText replaceAll occurrence nearLine with
    | .error error => .error (withinErrorKind error)
    | .ok selection =>
      .ok (applySplice content (symbol.effectiveStart, symbol.byteRange.2) selection.newBody)

/-- The edited content of one file of an embedded batch. -/
def editActions (content : Bytes) (language : LanguageId) (actions : List ResolvedAction) :
    Except EditErrorKind Bytes :=
  match firstPair (fun left right => spansOverlap left.symbol right.symbol) actions with
  | some _ => .error .writeConflict
  | none => do
    let ordered := actions.insertionSort fun left right =>
      right.symbol.effectiveStart ≤ left.symbol.effectiveStart
    let footprints ← ordered.mapM (actionFootprint rustInsertionPrefixStart content language)
    let entries := ordered.zip footprints
    match firstPair spliceFootprintsOverlap footprints with
    | some _ => .error .writeConflict
    | none =>
      let placements := entries.map fun entry =>
        ⟨entry.1.symbol, entry.1.action == .delete, entry.2⟩
      if ← orKind .staleContent (cleanupConflict content [] placements) then
        .error .writeConflict
      else entries.foldlM (applyAction content) content

/-- What `stage_batch` stages for one file, if the content policy of the root admits it. -/
def stageActions (admitted : Bytes → Bool) (content : Bytes) (language : LanguageId)
    (actions : List ResolvedAction) : Except EditErrorKind Bytes := do
  let edited ← editActions rustInsertionPrefixStart content language actions
  if admitted edited then .ok edited else .error .unsafeContent

end Stage

end Symforge.Edit
