import Symforge.Store.SharedIndex

/-!
# Publications of single files and of the snapshot verify

The operations of `SharedIndexHandle` in `live_index/store.rs` that change rows: each works on a
copy of the live index and publishes it, or refuses and leaves the handle as it is. A panic of the
mutation discards the copy; the batch of the snapshot verify works its panics off path by path.
-/

namespace Symforge.Store

/-- The disposition of an entry keeps the last valid content of its file. -/
def FileDisposition.retainsLastValidContent : FileDisposition → Bool
  | .unreadable _ _ | .unstableDuringRead => true
  | _ => false

/-- The catalog entry of an admitted file. -/
def indexedEntry (scouted : ScoutedEntry) (file : IndexedFile) (targets : IndexTargets) :
    CatalogEntry :=
  catalogEntryFromScout scouted (.indexed targets file.parseStatus.aggregate)
    (some file.contentHash)

namespace SharedIndexHandle

variable (env : Environment) (handle : SharedIndexHandle) (path : String) (file : IndexedFile)
  (panics : Bool) (captured : Option CapturedManifest)

/-- `update_file`. -/
def updateFile : SharedIndexHandle :=
  if panics then handle else handle.swapAndPublish (handle.live.updateFile env path file) captured

/-- `update_file_at_generation`. -/
def updateFileAtGeneration (expectedGen : Nat) (panics : Bool)
    (captured : Option CapturedManifest) : Bool × SharedIndexHandle :=
  if handle.projectGeneration ≠ expectedGen then (false, handle.noteRejectedStaleMutation)
  else (true, handle.updateFile env path file panics captured)

/-- `add_file`. -/
def addFile : SharedIndexHandle :=
  if panics then handle else handle.swapAndPublish (handle.live.addFile env path file) captured

/-- `publish_indexed_file_at_generation` — whether a receipt is returned. -/
def publishIndexedFileAtGeneration (scouted : ScoutedEntry) (targets : IndexTargets)
    (expectedGen expectedIndexStateGeneration : Nat) (panics : Bool)
    (captured : Option CapturedManifest) : Bool × SharedIndexHandle :=
  if handle.projectGeneration ≠ expectedGen then (false, handle.noteRejectedStaleMutation)
  else if handle.publishedStateGeneration ≠ expectedIndexStateGeneration then (false, handle)
  else if panics then (false, handle)
  else
    let live := (handle.live.updateFile env path file).upsertManifestEntry env
      (indexedEntry scouted file targets)
    match handle.scoutPlanWithEntryLocked env scouted live with
    | .error () => (false, handle)
    | .ok plan => (true, (handle.storeScoutPlan plan).recomputeAndPublish live true captured)

/-- The live index with another mtime of one row, if the row has another one. -/
def touchedLive (live : LiveIndex) (path : String) (newMtime : Nat) : Option LiveIndex := do
  let file ← live.files.lookup path
  if file.mtimeSecs = newMtime then none
  else some { live with files := live.files.insert path { file with mtimeSecs := newMtime } }

/-- `touch_mtime`. -/
def touchMtime (newMtime : Nat) (captured : Option CapturedManifest) : SharedIndexHandle :=
  match touchedLive handle.live path newMtime with
  | some live => handle.swapAndPublishRetainingContent live captured
  | none => handle

/-- `touch_mtime_at_generation`. -/
def touchMtimeAtGeneration (newMtime expectedGen : Nat)
    (captured : Option CapturedManifest) : Bool × SharedIndexHandle :=
  if handle.projectGeneration ≠ expectedGen then (false, handle.noteRejectedStaleMutation)
  else (true, handle.touchMtime path newMtime captured)

/-- `publish_hash_skip_at_generation` — whether a publication is returned. -/
def publishHashSkipAtGeneration (newMtime : Nat) (scouted : ScoutedEntry) (targets : IndexTargets)
    (expectedGen expectedIndexStateGeneration : Nat) (captured : Option CapturedManifest) :
    Bool × SharedIndexHandle :=
  if handle.projectGeneration ≠ expectedGen then (false, handle.noteRejectedStaleMutation)
  else if handle.publishedStateGeneration ≠ expectedIndexStateGeneration then (false, handle)
  else match handle.live.files.lookup path with
    | none => (false, handle)
    | some file =>
      let touched := if newMtime = 0 then none else touchedLive handle.live path newMtime
      let entry := indexedEntry scouted file targets
      let manifestChanged := entry ∉ handle.live.manifestEntries
      let touchedIndex := touched.getD handle.live
      let live := if manifestChanged then touchedIndex.upsertManifestEntry env entry
        else touchedIndex
      match handle.scoutPlanWithEntryLocked env scouted live with
      | .error () => (false, handle)
      | .ok plan =>
        if touched.isNone && plan.isNone && !manifestChanged then (true, handle)
        else (true, (handle.storeScoutPlan plan).recomputeAndPublish live true captured)

/-- `remove_file`. -/
def removeFile : SharedIndexHandle :=
  let (removed, live) := handle.live.removeFile path
  if panics then handle
  else if !removed then handle
  else handle.swapAndPublish live captured

/-- `store::FencedRemoval`. -/
inductive FencedRemoval where
  | rejected | nothingHeld | removed
  deriving DecidableEq, Repr

/-- The scouted entry that a removal expects is still the entry of its path. -/
def scoutedBaseHolds (expected : ScoutedEntry) : Bool :=
  (handle.scoutPlan.bind fun plan => plan.entries.find? (·.path == expected.path)) == some expected

/-- `remove_file_with_fences`; `absentConfirmed` is what the re-check of the absence found. -/
def removeFileWithFences (expectedGen : Nat) (expectedScoutEntry : Option ScoutedEntry)
    (expectedPublication : Option PublicationFence) (absentConfirmed : Option Bool)
    (panics : Bool) (captured : Option CapturedManifest) : FencedRemoval × SharedIndexHandle :=
  if handle.projectGeneration ≠ expectedGen then (.rejected, handle.noteRejectedStaleMutation)
  else if expectedPublication.any (· ≠ handle.publicationFence) then (.rejected, handle)
  else if expectedScoutEntry.any (!handle.scoutedBaseHolds ·) then (.rejected, handle)
  else if absentConfirmed = some false then (.rejected, handle)
  else if panics then (.rejected, handle)
  else
    let (released, releasedLive) := handle.live.releaseUnverified path
    let (removedContent, live) := releasedLive.removeFile path
    match handle.scoutPlanWithoutPathLocked env path with
    | .error () => (.rejected, handle)
    | .ok plan =>
      let contentChanged := removedContent || plan.isSome
      if !released && !contentChanged then (.nothingHeld, handle)
      else (.removed, (handle.storeScoutPlan plan).recomputeAndPublish live contentChanged captured)

/-- `publish_terminal_disposition_at_generation` — whether a publication is returned. -/
def publishTerminalDispositionAtGeneration (scouted : ScoutedEntry) (disposition : FileDisposition)
    (expectedGen expectedIndexStateGeneration : Nat) (panics : Bool)
    (captured : Option CapturedManifest) : Bool × SharedIndexHandle :=
  if handle.projectGeneration ≠ expectedGen then (false, handle.noteRejectedStaleMutation)
  else if handle.publishedStateGeneration ≠ expectedIndexStateGeneration then (false, handle)
  else if panics then (false, handle)
  else
    let retains := disposition.retainsLastValidContent
    let kept := if retains then handle.live else (handle.live.removeFile path).2
    let live := kept.upsertManifestEntry env (catalogEntryFromScout scouted disposition none)
    match handle.scoutPlanWithEntryLocked env scouted live with
    | .error () => (false, handle)
    | .ok plan => (true, (handle.storeScoutPlan plan).recomputeAndPublish live (!retains) captured)

end SharedIndexHandle

end Symforge.Store
