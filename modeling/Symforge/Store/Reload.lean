import Symforge.Store.SnapshotVerify

/-!
# Reload

Model of `reload_for_binding_with_exclusions_cancellation` in `live_index/store.rs`. A reload takes
the live index as its watermark, builds a candidate from disk and looks at the root directory
without the writer lock, and commits under it; other operations and other reloads run in between.
Roots are normalized paths.
-/

namespace Symforge.Store

open Lifecycle (PhysicalRootAnchor PhysicalRootIdentity RootPath)

/-- `store::ReloadData`, with the rows that the build of the candidate read from disk. -/
structure ReloadData where
  files : Rows
  scoutPlan : ScoutPlan
  manifestEntries : List CatalogEntry

/-- `LiveIndex::from_reload_data` of data built from a root. -/
def LiveIndex.fromReloadData (root : RootPath) (data : ReloadData) : LiveIndex :=
  { SharedIndexHandle.emptyLiveIndex with
    files := data.files
    isEmpty := false
    localEmptyReason := none
    loadSource := .freshLoad
    snapshotVerifyState := .notNeeded
    manifestEntries := data.manifestEntries
    indexedRoot := some root }.rebuildDerived

/-- `store::live_path_changed_since_reload_watermark`. -/
def livePathChangedSinceReloadWatermark (watermark : LiveIndex) (file : IndexedFile)
    (path : String) : Bool :=
  (watermark.files.lookup path).all (·.contentHash ≠ file.contentHash)

/-- Why a reload returns an error. -/
inductive ReloadError where
  | cancelled
  | conflictingLiveMutation (path : String)
  | failedToCarry (path : String)
  deriving DecidableEq, Repr

/-- One row of `merge_post_watermark_live_admissions`. -/
def mergeRow (env : Environment) (watermark : LiveIndex) (carryPanics : String → Bool)
    (candidate : LiveIndex) (row : Sigma fun _ : String => IndexedFile) :
    Except ReloadError LiveIndex :=
  if !livePathChangedSinceReloadWatermark watermark row.2 row.1 then .ok candidate
  else match candidate.files.lookup row.1 with
    | some existing =>
      if existing.contentHash ≠ row.2.contentHash then .error (.conflictingLiveMutation row.1)
      else .ok candidate
    | none =>
      if carryPanics row.1 then .error (.failedToCarry row.1)
      else .ok (candidate.updateFile env row.1 row.2)

/-- `store::merge_post_watermark_live_admissions`. -/
def mergePostWatermarkLiveAdmissions (env : Environment) (watermark current candidate : LiveIndex)
    (carryPanics : String → Bool) : Except ReloadError LiveIndex :=
  current.files.entries.foldlM (mergeRow env watermark carryPanics) candidate

/-- `store::indexed_tree_absent_from_disk`. -/
def indexedTreeAbsentFromDisk (watermark : LiveIndex) (absent : String → Bool) : Bool :=
  !watermark.files.entries.isEmpty && watermark.files.entries.all fun row => absent row.1

/-- What a reload sees of the root directory. -/
structure RootObservation where
  /-- `project_source_authority_path_vanish_pending`. -/
  pathVanishPending : Bool
  /-- The indexed paths that do not exist under the root. -/
  absent : String → Bool
  /-- `PhysicalRootAnchor::observe`. -/
  anchor : Option PhysicalRootAnchor
  /-- `project_source_authority(root).admission_root()`. -/
  admissionRoot : PhysicalRootIdentity

/-- A reload that has taken its watermark. -/
structure StartedReload where
  root : RootPath
  watermark : LiveIndex

/-- A reload that has built its candidate and looked at the root. -/
structure PreparedReload extends StartedReload where
  data : ReloadData
  physicalReplacement : Bool

namespace SharedIndexHandle

variable (handle : SharedIndexHandle)

/-- The watermark of a reload. -/
def startReload (root : RootPath) : StartedReload := ⟨root, handle.live⟩

/-- Whether the root directory is another one than was admitted, or its tree is gone. -/
def observedReplacement (watermark : LiveIndex) (seen : RootObservation) : Bool :=
  let pathVanishReplacement :=
    seen.pathVanishPending || indexedTreeAbsentFromDisk watermark seen.absent
  let anchorReplacement :=
    handle.admittedPhysicalAnchor.isSome && handle.admittedPhysicalAnchor != seen.anchor
  let admissionIdentityMismatch := handle.admittedRoot.any (· ≠ seen.admissionRoot)
  anchorReplacement || pathVanishReplacement || admissionIdentityMismatch

/-- The reload with its candidate built and the root observed: an observed replacement is latched, a
latched one counts as observed. -/
def prepareReload (reload : StartedReload) (data : ReloadData)
    (seen : RootObservation) : PreparedReload × SharedIndexHandle :=
  let observed := handle.observedReplacement reload.watermark seen
  let latched := handle.physicalReplacementLatched || observed
  (⟨reload, data, latched⟩, { handle with physicalReplacementLatched := latched })

/-- The reasons a reload publishes with. -/
def reloadReasons (reload : PreparedReload) : List FreshnessReason :=
  let pending := reload.data.scoutPlan.coverage == .degraded || reload.physicalReplacement
  let latchedGap := FreshnessReason.watcherUnavailable ∈ handle.freshnessStatus.reasonCodes
  (if pending then [.reconciliationPending] else []) ++
    if latchedGap then [.watcherUnavailable] else []

/-- The freshness a reload publishes with. -/
def reloadFreshness (reload : PreparedReload) : FreshnessStatus :=
  let reasons := handle.reloadReasons reload
  if reasons.isEmpty then .current
  else .degraded handle.published.contentGeneration reasons

/-- The commit of a reload under the writer lock. -/
def commitReload (env : Environment) (handle : SharedIndexHandle) (reload : PreparedReload)
    (cancelled : Bool) (carryPanics : String → Bool) (captured : Option CapturedManifest) :
    Except ReloadError SharedIndexHandle :=
  if cancelled then .error .cancelled
  else
    let candidate := LiveIndex.fromReloadData reload.root reload.data
    match mergePostWatermarkLiveAdmissions env reload.watermark handle.live candidate
        carryPanics with
    | .error error => .error error
    | .ok live => .ok ({ handle with
        scoutPlan := some reload.data.scoutPlan
        freshnessStatus := handle.reloadFreshness reload
        projectGeneration := handle.projectGeneration + 1 }.swapAndPublish live captured)

end SharedIndexHandle

end Symforge.Store
