import Symforge.Edit.EmbedBatch
import Symforge.Edit.RenamePlan
/-!
# The batch executors up to staging

`execute_batch_edit`, `execute_batch_insert` and `execute_batch_rename` (`protocol/edit.rs`)
resolve everything they need under one read of the shared index. They then stage one file after
another, in path order, and look at the index again for each of them.
-/

namespace Symforge.Edit

open Library

/-- `worktree::ResolvedTarget`: where a file is written, and whether in another worktree. -/
structure ResolvedTarget where
  targetPath : String
  indexedPath : String
  rerouted : Bool
  deriving DecidableEq, Repr

/-- How a request names a symbol. -/
structure SymbolSelector where
  name : String
  kind : Option String
  line : Option Nat
  deriving DecidableEq, Repr

/-- What the executors call outside of the edits. -/
structure EditEnvironment where
  resolveOrError : IndexedFile → SymbolSelector → Except String SymbolRecord
  rustInsertionPrefixStart : Bytes → SymbolRecord → Except String Nat
  fromUtf8Lossy : Bytes → Bytes
  resolveTarget : String → Option String → Except String ResolvedTarget
  readTarget : String → Except String Bytes

/-- `edit::SingleEdit`. -/
structure SingleEdit where
  path : String
  selector : SymbolSelector
  operation : EditOperation
  workingDirectory : Option String
  deriving DecidableEq, Repr

/-- `edit::InsertTarget`. -/
structure InsertTarget where
  path : String
  selector : SymbolSelector
  workingDirectory : Option String
  deriving DecidableEq, Repr

/-- `edit::BatchInsertInput`. -/
structure BatchInsertInput where
  content : String
  position : InsertPosition
  targets : List InsertTarget
  workingDirectory : Option String
  deriving DecidableEq, Repr

/-- `edit::BatchRenameInput`. -/
structure BatchRenameInput where
  path : String
  selector : SymbolSelector
  newName : String
  codeOnly : Bool
  workingDirectory : Option String
  deriving DecidableEq, Repr

/-- A call of one of the three executors. -/
inductive BatchRequest where
  | edit (edits : List SingleEdit) (workingDirectory : Option String)
  | insert (input : BatchInsertInput)
  | rename (input : BatchRenameInput)

/-! ### What is resolved for one file -/

/-- The captured file of a batch edit with its checked operations. -/
structure EditWork where
  file : IndexedFile
  placed : List PlacedEdit
  footer : String
  workingDirectory : Option String
  deriving DecidableEq, Repr

/-- The anchors of a batch insert, from the back of the file to its front. -/
structure InsertWork where
  code : String
  position : InsertPosition
  anchors : List SymbolRecord
  language : LanguageId
  workingDirectory : Option String
  deriving DecidableEq, Repr

/-- The ranges of a batch rename, descending. -/
structure RenameWork where
  ranges : List (Nat × Nat)
  newName : Bytes
  /-- The language of the definition, for its own file. -/
  language : Option LanguageId
  workingDirectory : Option String
  deriving DecidableEq, Repr

/-- What a batch does to one file. -/
inductive BatchWork where
  | edit (work : EditWork)
  | insert (work : InsertWork)
  | rename (work : RenameWork)

/-- Files in path order. -/
def inPathOrder {Work : Type} (groups : List (String × Work)) : List (String × Work) :=
  groups.insertionSort fun left right => left.1 ≤ right.1

section Resolve

variable (env : EditEnvironment) (index : LiveIndex)

/-- One symbol of a batch edit, with the file it is found in. -/
def resolveEdit (footer : String) (entry : SingleEdit × Nat) :
    Except EditFault (String × IndexedFile × SingleEdit × SymbolRecord) :=
  let edit := entry.1
  let path := edit.path
  match index.captureSharedFile path with
  | none => .error (.refused s!"File not indexed: {path}{footer}")
  | some file =>
    match env.resolveOrError file edit.selector with
    | .ok sym => .ok (path, file, edit, sym)
    | .error message =>
      let number := entry.2 + 1
      .error (.refused s!"Edit {number}: {message}{footer}")

/-- The checks of one file of a batch edit. The files of a group are one captured file. -/
def checkEdits (footer : String) (workingDirectory : Option String)
    (group : String × List (IndexedFile × SingleEdit × SymbolRecord)) :
    Except EditFault (String × BatchWork) :=
  match group.2 with
  | [] => .error .panicked
  | (file, first) :: rest => do
    let resolved := ((file, first) :: rest).map Prod.snd
    let placed ← checkFile env.rustInsertionPrefixStart group.1 footer file.content file.language
      (resolved.map fun entry => ⟨entry.2, entry.1.operation⟩)
    let backwards := resolved.insertionSort fun left right =>
      right.2.effectiveStart ≤ left.2.effectiveStart
    .ok (group.1, .edit ⟨file, placed, footer,
      (backwards.findSome? fun entry => entry.1.workingDirectory).orElse fun _ => workingDirectory⟩)

/-- Phases 1 and 2 of `execute_batch_edit`. -/
def resolveBatchEdit (edits : List SingleEdit) (workingDirectory : Option String) :
    Except EditFault (List (String × BatchWork)) := do
  let footer := rollbackFooter (edits.map SingleEdit.path)
  let resolved ← edits.zipIdx.mapM (resolveEdit env index footer)
  let works ← (groupByKey resolved).mapM (checkEdits env footer workingDirectory)
  .ok (inPathOrder works)

/-- One anchor of a batch insert. -/
def resolveAnchor (entry : InsertTarget × Nat) :
    Except EditFault (String × LanguageId × (InsertTarget × Nat) × SymbolRecord) :=
  let path := entry.1.path
  match index.getFile path with
  | none => .error (.refused s!"File not indexed: {path}")
  | some file =>
    match env.resolveOrError file entry.1.selector with
    | .ok sym => .ok (path, file.language, entry, sym)
    | .error message =>
      let number := entry.2 + 1
      .error (.refused s!"Target {number} ({path}): {message}")

/-- `insertion_anchor`. -/
def insertionAnchor (position : InsertPosition) (sym : SymbolRecord) : Nat :=
  match position with
  | .before => sym.effectiveStart
  | .after => sym.byteRange.2

/-- The anchors of one file, the last one first, of equal ones the later target first. -/
def orderAnchors (input : BatchInsertInput)
    (group : String × List (LanguageId × (InsertTarget × Nat) × SymbolRecord)) :
    Except EditFault (String × BatchWork) :=
  match group.2 with
  | [] => .error .panicked
  | (language, first) :: rest =>
    let anchor := insertionAnchor input.position
    let backwards := (((language, first) :: rest).map Prod.snd).insertionSort fun left right =>
      anchor right.2 < anchor left.2 ∨ (anchor right.2 = anchor left.2 ∧ right.1.2 ≤ left.1.2)
    .ok (group.1, .insert ⟨input.content, input.position, backwards.map Prod.snd, language,
      (backwards.findSome? fun entry => entry.1.1.workingDirectory).orElse
        fun _ => input.workingDirectory⟩)

/-- Phase 1 of `execute_batch_insert`. -/
def resolveBatchInsert (input : BatchInsertInput) :
    Except EditFault (List (String × BatchWork)) := do
  let resolved ← input.targets.zipIdx.mapM (resolveAnchor env index)
  let works ← (groupByKey resolved).mapM (orderAnchors input)
  .ok (inPathOrder works)

/-- The planning part of `execute_batch_rename`. -/
def resolveBatchRename (input : BatchRenameInput) : Except EditFault (List (String × BatchWork)) :=
  let path := input.path
  match index.getFile path with
  | none => .error (.refused s!"File not indexed: {path}")
  | some file => do
    let sym ← orRefuse (env.resolveOrError file input.selector)
    let plan ← buildRenamePlan env.fromUtf8Lossy index file sym
      ⟨path, input.selector.name, input.codeOnly⟩
    .ok (inPathOrder (plan.byFile.map fun group =>
      (group.1, .rename ⟨group.2, utf8 input.newName,
        if group.1 = path then some plan.language else none, input.workingDirectory⟩)))

/-- The work of a batch, by path. -/
def resolveBatch (request : BatchRequest) : Except EditFault (List (String × BatchWork)) :=
  match request with
  | .edit edits workingDirectory => resolveBatchEdit env index edits workingDirectory
  | .insert input => resolveBatchInsert env index input
  | .rename input => resolveBatchRename env index input

end Resolve

/-! ### Staging one file -/

/-- `edit::StagedFile`, common to the three executors. -/
structure StagedFile where
  path : String
  target : ResolvedTarget
  original : Bytes
  newContent : Bytes
  language : LanguageId
  deriving DecidableEq, Repr

/-- The carriage returns of `\r\n` pairs left out. -/
def dropPairReturns : Bytes → Bytes
  | [] => []
  | [byte] => [byte]
  | first :: second :: rest =>
    if first = 0x0D ∧ second = 0x0A then dropPairReturns (second :: rest)
    else first :: dropPairReturns (second :: rest)

/-- `edit::line_ending_insensitive_eq`. -/
def lineEndingInsensitiveEq (left right : Bytes) : Bool :=
  dropPairReturns left == dropPairReturns right

section Stage

variable (env : EditEnvironment)

/-- `edit::guard_batch_reroute_divergence`. -/
def guardBatchRerouteDivergence (resolved : ResolvedTarget) (indexedContent : Bytes)
    (relativePath : String) : Except EditFault Bytes :=
  if !resolved.rerouted then .ok indexedContent
  else
    let target := resolved.targetPath
    match env.readTarget target with
    | .error reason =>
      .error (.refused s!"Error: cannot read rerouted batch target {target}: {reason}")
    | .ok targetBytes =>
      if targetBytes = indexedContent ∨ lineEndingInsensitiveEq targetBytes indexedContent then
        .ok targetBytes
      else .error (.refused (s!"Error: rerouted batch edit refused for '{relativePath}': the " ++
        s!"worktree target {target} has diverged from the indexed copy (likely an earlier " ++
        "routed edit). Batch tools splice index-resolved byte ranges and would overwrite those " ++
        "changes. " ++
        "Use the single-symbol edit tools (replace_symbol_body / edit_within_symbol / " ++
        "insert_symbol / delete_symbol) with the same working_directory — they rebase onto the " ++
        "worktree target — or commit the worktree changes and reindex."))

variable (path : String)

/-- The target and the pre-image of a file whose new content is known. -/
def routeStaged (workingDirectory : Option String) (indexedContent : Bytes)
    (newContent : Bytes) (language : LanguageId) : Except EditFault StagedFile := do
  let target ← orRefuse (env.resolveTarget path workingDirectory)
  let original ← guardBatchRerouteDivergence env target indexedContent path
  .ok ⟨path, target, original, newContent, language⟩

/-- Where a batch insert puts its code, and the indentation in front of a symbol. -/
def insertPlace (file : IndexedFile) (position : InsertPosition) (sym : SymbolRecord) :
    Except EditFault (Nat × Bytes) :=
  match position with
  | .before => do
    let start ← orRefuse
      (insertBeforePosition env.rustInsertionPrefixStart file.content sym file.language)
    let indent ← detectIndentation file.content sym.byteRange.1
    .ok (start, indent)
  | .after => .ok (sym.byteRange.2, [])

/-- One round of the insertion loop. -/
def applyInsert (code : String) (position : InsertPosition) (lineEnding : LineEnding)
    (content : Bytes) (entry : SymbolRecord × (Nat × Bytes)) : Except EditFault Bytes :=
  match position with
  | .before =>
    buildInsertBeforeAtPosition content entry.1 code lineEnding entry.2.1 entry.2.2
  | .after => buildInsertAfter content entry.1 code lineEnding

/-- The new content of a file of a batch insert. -/
def spliceInserts (work : InsertWork) (file : IndexedFile) :
    Except EditFault Bytes :=
  let length := file.content.length
  match work.anchors.find? fun sym => decide (sym.byteRange.2 > length) with
  | some stale =>
    let name := stale.name
    let start := stale.byteRange.1
    let stop := stale.byteRange.2
    .error (.refused (s!"Symbol `{name}` byte range ({start},{stop}) is out of bounds for file " ++
      s!"`{path}` (content length {length}). The file may have been modified concurrently — " ++
      "please retry."))
  | none => do
    let places ← work.anchors.mapM (insertPlace env file work.position)
    (work.anchors.zip places).foldlM
      (applyInsert work.code work.position (detectLineEnding file.content)) file.content

/-- The new content of a file of a batch rename. -/
def spliceRanges (work : RenameWork) (content : Bytes) : Bytes :=
  work.ranges.foldl (fun spliced range => applySplice spliced range work.newName) content

/-- What was resolved for a file, carried out on the content of `file`. -/
def spliceWork (work : BatchWork) (file : IndexedFile) : Except EditFault Bytes :=
  match work with
  | .edit work => stageChecked path file.content work.placed
  | .insert work => spliceInserts env path work file
  | .rename work => .ok (spliceRanges work file.content)

/-- Staging one file. A batch edit compares the content it has captured with the indexed one; the
others take what they find. -/
def stageWork (index : LiveIndex) (path : String) (work : BatchWork) :
    Except EditFault StagedFile :=
  match work with
  | .edit edit =>
    match index.getFile path with
    | none => .error (.refused s!"File disappeared: {path}")
    | some current =>
      if current.content ≠ edit.file.content then
        let footer := edit.footer
        .error (.refused (s!"Error: file `{path}` changed after symbol resolution; retry with " ++
          s!"fresh source.{footer}"))
      else do
        let newContent ← spliceWork env path work edit.file
        routeStaged env path edit.workingDirectory edit.file.content newContent edit.file.language
  | .insert insert =>
    match index.captureSharedFile path with
    | none => .error (.refused s!"File disappeared: {path}")
    | some file => do
      let newContent ← spliceWork env path work file
      routeStaged env path insert.workingDirectory file.content newContent insert.language
  | .rename rename =>
    match index.captureSharedFile path with
    | none => .error (.refused s!"File disappeared: {path}")
    | some file => do
      let newContent ← spliceWork env path work file
      routeStaged env path rename.workingDirectory file.content newContent
        (rename.language.getD file.language)

end Stage

/-! ### A call between other uses of the index -/

/-- A call that has resolved its symbols and stages its files, with the shared index. -/
structure BatchCall where
  index : LiveIndex
  /-- The index as the call read it when it resolved its symbols. -/
  atResolution : LiveIndex
  resolved : List (String × BatchWork)
  pending : List (String × BatchWork)
  staged : List StagedFile
  failure : Option EditFault

/-- Someone else publishes another state of the index, or the call stages its next file. -/
inductive CallEvent where
  | publish (next : LiveIndex)
  | stageNext

namespace BatchCall

variable (env : EditEnvironment)

/-- A call right after it has resolved its symbols. -/
def start (index : LiveIndex) (request : BatchRequest) : Except EditFault BatchCall := do
  let resolved ← resolveBatch env index request
  .ok ⟨index, index, resolved, resolved, [], none⟩

/-- A call that has failed, or has staged all its files, takes no further step. -/
def step (call : BatchCall) (event : CallEvent) : Option BatchCall :=
  match event with
  | .publish next => some { call with index := next }
  | .stageNext =>
    match call.failure, call.pending with
    | none, (path, work) :: rest =>
      match stageWork env call.index path work with
      | .ok file => some { call with pending := rest, staged := call.staged ++ [file] }
      | .error fault => some { call with failure := some fault, staged := [] }
    | _, _ => none

end BatchCall

end Symforge.Edit
