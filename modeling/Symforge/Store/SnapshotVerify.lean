import Symforge.Store.FilePublications

/-!
# Transitions of the snapshot verify

The marks and the batch publication of the snapshot verify in `live_index/store.rs`. Whether a path
is absent, a stamp still matches, an admission panics and a restored row is still the row in place
are observations of the step.
-/

namespace Symforge.Store

/-- `SnapshotVerifyReport::from_mismatched_paths`. -/
def SnapshotVerifyReport.fromMismatchedPaths (paths : List String) : SnapshotVerifyReport :=
  let distinct := paths.dedup.insertionSort (· ≤ ·)
  { mismatchCount := distinct.length
    mismatchedPaths := distinct.take 10
    reason := none
    unverified := []
    discoveryError := none }

/-- `store::SnapshotVerifyCompletion`; for every path, whether the row that the stat pass saw is
still in place (`Arc::ptr_eq`). -/
structure SnapshotVerifyCompletion where
  report : SnapshotVerifyReport
  restoredRows : List (String × Bool)

namespace LiveIndex

variable (index : LiveIndex)

/-- `LiveIndex::mark_snapshot_verify_running`. -/
def markSnapshotVerifyRunning : LiveIndex :=
  if index.loadSource = .snapshotRestore then { index with snapshotVerifyState := .running }
  else index

/-- `LiveIndex::mark_snapshot_verify_completed`. -/
def markSnapshotVerifyCompleted (mismatchedPaths : List String) : LiveIndex :=
  if index.loadSource = .snapshotRestore then
    { index with snapshotVerifyState := .completed (.fromMismatchedPaths mismatchedPaths) }
  else index

/-- What the loop of `resolve_snapshot_verify` carries; the rows dropped are only recorded. -/
structure Resolution where
  live : LiveIndex
  report : SnapshotVerifyReport
  withheld : Bool
  dropped : List RowChange

/-- One path of `resolve_snapshot_verify`: an untouched restored row is withheld, a row that another
writer republished is settled. -/
def resolveRow (state : Resolution) (restored : String × Bool) : Resolution :=
  if (state.live.files.lookup restored.1).isNone then state
  else if restored.2 then
    let (removed, live) := state.live.removeRow restored.1
    { state with
      live := live
      withheld := state.withheld || removed
      dropped := state.dropped ++ [.drop restored.1] }
  else { state with report := (state.report.dropUnverified restored.1).2 }

variable (completion : SnapshotVerifyCompletion)

/-- The loop of `resolve_snapshot_verify`. -/
def resolveRows : Resolution :=
  completion.restoredRows.foldl resolveRow ⟨index, completion.report, false, []⟩

/-- `LiveIndex::resolve_snapshot_verify`. -/
def resolveSnapshotVerify : Bool × LiveIndex :=
  let resolved := index.resolveRows completion
  (resolved.withheld, { resolved.live with snapshotVerifyState := .completed resolved.report })

end LiveIndex

/-- `store::SnapshotVerifiedAdmission`, with whether the admission of a file panics. -/
inductive SnapshotVerifiedAdmission where
  | indexed (file : IndexedFile) (targets : IndexTargets) (panics : Bool)
  | terminal (disposition : FileDisposition)

/-- `store::SnapshotVerifiedFile`, with whether it still has the stamp it was read at. -/
structure SnapshotVerifiedFile where
  path : String
  scouted : ScoutedEntry
  admission : SnapshotVerifiedAdmission
  baseHash : Option String
  stampMatches : Bool

/-- `store::SnapshotVerifyBatchReceipt`. -/
structure SnapshotVerifyBatchReceipt where
  removed : List String
  indexed : List String
  terminal : List String
  unchanged : List String
  superseded : List String
  refused : List String
  completed : Bool
  deriving DecidableEq, Repr

/-- `SnapshotVerifyBatchReceipt::default`. -/
def SnapshotVerifyBatchReceipt.default : SnapshotVerifyBatchReceipt :=
  ⟨[], [], [], [], [], [], false⟩

/-- What the batch carries from path to path; the changes of rows are only recorded. -/
structure VerifyBatch where
  live : LiveIndex
  changes : List RowChange
  receipt : SnapshotVerifyBatchReceipt
  removedPaths : List String
  scoutedEntries : List ScoutedEntry
  catalogDrop : List String
  catalogSet : List CatalogEntry
  panicked : Bool

namespace VerifyBatch

/-- The entry that the catalog of the index held for a path. -/
def catalogEntry (catalog : List CatalogEntry) (path : String) : Option CatalogEntry :=
  catalog.reverse.find? fun entry => scoutedCatalogPath entry.path == path

/-- One removal of the batch: the path, and whether it is absent. -/
def remove (catalog : List CatalogEntry) (batch : VerifyBatch) (removal : String × Bool) :
    VerifyBatch :=
  let path := removal.1
  if removal.2 then
    let (rowRemoved, live) := batch.live.removeRow path
    let entryHeld := (catalogEntry catalog path).isSome
    { batch with
      live := live
      changes := batch.changes ++ [.drop path]
      removedPaths := batch.removedPaths ++ [path]
      catalogDrop := if entryHeld then batch.catalogDrop ++ [path] else batch.catalogDrop
      receipt := if rowRemoved || entryHeld then
          { batch.receipt with removed := batch.receipt.removed ++ [path] }
        else batch.receipt }
  else { batch with receipt := { batch.receipt with refused := batch.receipt.refused ++ [path] } }

/-- A path left half applied: its row and its indices are dropped. -/
def dropHalfApplied (live : LiveIndex) (path : String) : LiveIndex :=
  ({ live with trigramIndex := live.trigramIndex.removeFile path none }.removeRow path).2

variable (env : Environment)

/-- One re-read file of the batch. -/
def admitFile (catalog : List CatalogEntry) (batch : VerifyBatch)
    (verified : SnapshotVerifiedFile) : VerifyBatch :=
  let path := verified.path
  let receipt := batch.receipt
  if (batch.live.files.lookup path).map (·.contentHash) ≠ verified.baseHash then
    { batch with receipt := { receipt with superseded := receipt.superseded ++ [path] } }
  else if !verified.stampMatches then
    { batch with receipt := { receipt with refused := receipt.refused ++ [path] } }
  else match verified.admission with
    | .indexed file targets panics =>
      if panics then
        -- the row is in place, its indices are not
        let halfApplied := (batch.live.releaseUnverified path).2.insertRow env path file false
        { batch with
          live := dropHalfApplied halfApplied path
          changes := batch.changes ++ [.drop path]
          panicked := true
          receipt := { receipt with refused := receipt.refused ++ [path] } }
      else
        { batch with
          live := batch.live.updateFileWithManifest env path file false
          changes := batch.changes ++ [.put path file]
          catalogSet := batch.catalogSet ++ [indexedEntry verified.scouted file targets]
          scoutedEntries := batch.scoutedEntries ++ [verified.scouted]
          receipt := { receipt with indexed := receipt.indexed ++ [path] } }
    | .terminal disposition =>
      let entry := catalogEntryFromScout verified.scouted disposition none
      let (rowRemoved, live) := batch.live.removeRow path
      let entryChanged := catalogEntry catalog path != some entry
      { batch with
        live := live
        changes := batch.changes ++ [.drop path]
        catalogSet := if entryChanged then batch.catalogSet ++ [entry] else batch.catalogSet
        scoutedEntries := batch.scoutedEntries ++ [verified.scouted]
        receipt := if rowRemoved || entryChanged then
            { receipt with terminal := receipt.terminal ++ [path] }
          else { receipt with unchanged := receipt.unchanged ++ [path] } }

/-- The catalog writes of the batch in one pass. -/
def writeCatalog (live : LiveIndex) (drop : List String) (set : List CatalogEntry) : LiveIndex :=
  if drop.isEmpty && set.isEmpty then live
  else
    let replaced := drop ++ set.map (scoutedCatalogPath ·.path)
    { live with
      manifestEntries := live.manifestEntries.filter (fun entry =>
        scoutedCatalogPath entry.path ∉ replaced) ++ set }

/-- The loops of the batch over the removals and the files. -/
def collect (live : LiveIndex) (removals : List (String × Bool))
    (files : List SnapshotVerifiedFile) : VerifyBatch :=
  let start : VerifyBatch := ⟨live, [], .default, [], [], [], [], false⟩
  files.foldl (admitFile env live.manifestEntries)
    (removals.foldl (remove live.manifestEntries) start)

/-- Some row or catalog entry changed. -/
def changedContent (batch : VerifyBatch) : Bool :=
  batch.panicked || !batch.receipt.removed.isEmpty || !batch.receipt.indexed.isEmpty ||
    !batch.receipt.terminal.isEmpty

/-- The index of the batch before the verify is resolved. -/
def settled (batch : VerifyBatch) : LiveIndex :=
  let live := if batch.panicked then
      { batch.live with reverseIndex := buildReverseIndexFromFiles batch.live.files }
    else batch.live
  let written := writeCatalog live batch.catalogDrop batch.catalogSet
  if batch.changedContent then written.sortManifestEntries env else written

/-- Every path of the batch handed back. -/
def refuseAll (receipt : SnapshotVerifyBatchReceipt) : SnapshotVerifyBatchReceipt :=
  { SnapshotVerifyBatchReceipt.default with
    refused := receipt.refused ++ receipt.removed ++ receipt.indexed ++ receipt.terminal ++
      receipt.unchanged
    superseded := receipt.superseded }

end VerifyBatch

namespace SharedIndexHandle

variable (handle : SharedIndexHandle) (expectedGen : Nat)

/-- `mark_snapshot_verify_started_at_generation`. -/
def markSnapshotVerifyStartedAtGeneration
    (captured : Option CapturedManifest) : Bool × SharedIndexHandle :=
  if handle.projectGeneration ≠ expectedGen then (false, handle.noteRejectedStaleMutation)
  else if handle.live.loadSource ≠ .snapshotRestore ∨
      !verifyInFlight handle.live.snapshotVerifyState then (true, handle)
  else
    (true, handle.recomputeAndPublish handle.live.markSnapshotVerifyRunning false captured)

/-- `mark_snapshot_verify_running_at_fence`. -/
def markSnapshotVerifyRunningAtFence (expected : PublicationFence)
    (captured : Option CapturedManifest) : Bool × SharedIndexHandle :=
  if handle.publicationFence ≠ expected then (false, handle.noteRejectedStaleMutation)
  else (true, handle.recomputeAndPublish handle.live.markSnapshotVerifyRunning false captured)

/-- `mark_snapshot_verify_completed_at_fence`. -/
def markSnapshotVerifyCompletedAtFence (expected : PublicationFence)
    (mismatchedPaths : List String) (captured : Option CapturedManifest) :
    Bool × SharedIndexHandle :=
  if handle.publicationFence ≠ expected then (false, handle.noteRejectedStaleMutation)
  else (true, handle.recomputeAndPublish (handle.live.markSnapshotVerifyCompleted mismatchedPaths)
    false captured)

/-- `mark_snapshot_verify_completed_at_generation`. -/
def markSnapshotVerifyCompletedAtGeneration
    (completion : SnapshotVerifyCompletion) (captured : Option CapturedManifest) :
    Bool × SharedIndexHandle :=
  if handle.projectGeneration ≠ expectedGen then (false, handle.noteRejectedStaleMutation)
  else if handle.live.loadSource ≠ .snapshotRestore then (true, handle)
  else if !verifyInFlight handle.live.snapshotVerifyState then (true, handle)
  else
    let (withheld, live) := handle.live.resolveSnapshotVerify completion
    (true, handle.recomputeAndPublish live withheld captured)

/-- `mark_snapshot_verify_failed_at_generation`. -/
def markSnapshotVerifyFailedAtGeneration
    (report : SnapshotVerifyReport) (captured : Option CapturedManifest) :
    Bool × SharedIndexHandle :=
  if handle.projectGeneration ≠ expectedGen then (false, handle.noteRejectedStaleMutation)
  else if handle.live.loadSource ≠ .snapshotRestore ∨
      !verifyInFlight handle.live.snapshotVerifyState then (true, handle)
  else (true, handle.recomputeAndPublish { handle.live with snapshotVerifyState := .failed report }
    false captured)

variable (env : Environment)

/-- The batch with the verify resolved, where a completion is given, nothing was refused and the
verify is in flight. -/
def completeBatch (batch : VerifyBatch)
    (completion : Option SnapshotVerifyCompletion) :
    LiveIndex × Bool × SnapshotVerifyBatchReceipt :=
  let live := batch.settled env
  match completion with
  | some completion =>
    if batch.receipt.refused.isEmpty && verifyInFlight live.snapshotVerifyState &&
        live.loadSource == .snapshotRestore then
      let (withheld, resolved) := live.resolveSnapshotVerify completion
      (resolved, batch.changedContent || withheld, { batch.receipt with completed := true })
    else (live, batch.changedContent, batch.receipt)
  | none => (live, batch.changedContent, batch.receipt)

/-- The rows dropped when a batch resolves the verify. -/
def withheldChanges (batch : VerifyBatch)
    (completion : Option SnapshotVerifyCompletion) : List RowChange :=
  match completion with
  | some completion =>
    if (completeBatch env batch (some completion)).2.2.completed then
      ((batch.settled env).resolveRows completion).dropped
    else []
  | none => []

/-- `publish_snapshot_verify_with_observation`. -/
def publishSnapshotVerifyWithObservation (handle : SharedIndexHandle)
    (expectedGen : Nat) (removals : List (String × Bool)) (files : List SnapshotVerifiedFile)
    (completion : Option SnapshotVerifyCompletion) (finalAdmission : Bool)
    (captured : Option CapturedManifest) :
    Option SnapshotVerifyBatchReceipt × SharedIndexHandle :=
  if handle.projectGeneration ≠ expectedGen then (none, handle.noteRejectedStaleMutation)
  else
    let batch := VerifyBatch.collect env handle.live removals files
    let (live, contentChanged, receipt) := completeBatch env batch completion
    if !contentChanged && !receipt.completed then (some receipt, handle)
    else if !finalAdmission then (none, handle.noteRejectedStaleMutation)
    else match handle.scoutPlanWithBatchLocked env batch.scoutedEntries batch.removedPaths live with
      | .error () => (some (VerifyBatch.refuseAll receipt), handle)
      | .ok plan => (some receipt,
          (handle.storeScoutPlan plan).recomputeAndPublish live contentChanged captured)

end SharedIndexHandle

end Symforge.Store
