import Symforge.Lifecycle.PhysicalRoot
import Symforge.Store.LiveIndex

/-!
# The shared handle of the live index

Model of `SharedIndexHandle` in `live_index/store.rs`. Readers see the last publication; writers
take one mutex, change a copy of the live index and publish it, so an operation is one step. What it
observes outside is an argument: the manifest captured from the repository, whether a path is absent
on disk, whether the mutation panicked. All publications are also kept in a list, oldest first.
-/

namespace Symforge.Store

open Library
open Lifecycle (CatalogPath PhysicalRootAnchor PhysicalRootIdentity)

/-- `domain::index::FreshnessReason`. -/
inductive FreshnessReason where
  | observationFailed
  | watcherUnavailable
  | reconciliationPending
  | snapshotVerificationFailed
  | derivedPublicationPending
  | catalogEntryCapacityExceeded
  | catalogMetadataCapacityExceeded
  deriving DecidableEq, Repr

/-- `domain::index::FreshnessStatus`. -/
inductive FreshnessStatus where
  | current
  | verifying
  | degraded (lastValidContentGeneration : Nat) (reasonCodes : List FreshnessReason)
  deriving DecidableEq, Repr

/-- `domain::index::SourceLocation`. -/
inductive SourceLocation where
  | workingTree (worktreeId : String)
  | gitRef (name : String)
  deriving DecidableEq, Repr

/-- `domain::index::SourceIdentity`. -/
structure SourceIdentity where
  repositoryId : String
  sourceId : String
  location : SourceLocation
  deriving DecidableEq, Repr

/-- `domain::index::WorkingTreeState`. -/
inductive WorkingTreeState where
  | clean | dirty | notApplicable | unknown
  deriving DecidableEq, Repr

/-- `domain::index::SourceVersion`. -/
structure SourceVersion where
  branch : Option String
  commit : Option String
  workingTree : WorkingTreeState
  deriving DecidableEq, Repr

/-- What `capture_published_manifest` finds in the repository. -/
structure CapturedManifest where
  source : SourceIdentity
  sourceVersion : SourceVersion
  deriving DecidableEq, Repr

/-- `store::PublishedGeneration`; `bridgeLoading` is the coverage of its knowledge bridge. -/
structure PublishedGeneration where
  publicationGeneration : Nat
  contentGeneration : Nat
  projectGeneration : Nat
  source : Option SourceIdentity
  sourceVersion : Option SourceVersion
  freshness : FreshnessStatus
  live : LiveIndex
  bridgeLoading : Bool

/-- `store::PublicationFence`. -/
structure PublicationFence where
  publicationGeneration : Nat
  contentGeneration : Nat
  projectGeneration : Nat
  deriving DecidableEq, Repr

/-- `store::SharedIndexHandle`. -/
structure SharedIndexHandle where
  live : LiveIndex
  published : PublishedGeneration
  /-- `published_state.generation`: the last publication that swapped the live index. -/
  publishedStateGeneration : Nat
  scoutPlan : Option ScoutPlan
  freshnessStatus : FreshnessStatus
  nextGeneration : Nat
  projectGeneration : Nat
  admittedRoot : Option PhysicalRootIdentity
  admittedPhysicalAnchor : Option PhysicalRootAnchor
  physicalReplacementLatched : Bool
  rejectedStaleMutations : Nat
  deferColdKnowledge : Bool
  /-- `self_weak` is set. -/
  inArc : Bool
  publications : List PublishedGeneration

/-- `store::manifest_requires_degraded_coverage`. -/
def manifestRequiresDegradedCoverage (live : LiveIndex) : Bool :=
  live.manifestEntries.any fun entry => match entry.disposition with
    | .unreadable _ _ | .unstableDuringRead | .abortedCircuitBreaker => true
    | _ => false

/-- `store::verify_in_flight`. -/
def verifyInFlight : SnapshotVerifyState → Bool
  | .pending | .running => true
  | _ => false

/-- `store::catalog_entry_from_scout`. -/
def catalogEntryFromScout (scouted : ScoutedEntry) (disposition : FileDisposition)
    (contentHash : Option String) : CatalogEntry where
  path := scouted.path
  size := scouted.stamp.size
  language := scouted.language
  classification := scouted.classification
  disposition := disposition
  contentHash := contentHash

/-- An observation of some entry failed. -/
def observationFailed (live : LiveIndex) : Bool :=
  live.manifestEntries.any fun entry => match entry.disposition with
    | .unreadable _ _ | .unstableDuringRead => true
    | _ => false

/-- The plan does not cover the repository. -/
def reconciliationPending (plan : Option ScoutPlan) : Bool := plan.any (·.coverage == .degraded)

/-- The snapshot verify found what it could not vouch for, or died. -/
def snapshotVerificationFailed : SnapshotVerifyState → Bool
  | .completed report => report.hasMismatches
  | .failed _ => true
  | _ => false

/-- The reasons that `recompute_freshness_locked` derives anew and so does not retain. -/
def FreshnessReason.isDerived : FreshnessReason → Bool
  | .observationFailed | .reconciliationPending | .snapshotVerificationFailed => true
  | _ => false

/-- `push` unless the reason is there. -/
def pushReason (reasons : List FreshnessReason) (reason : FreshnessReason) : List FreshnessReason :=
  if reason ∈ reasons then reasons else reasons ++ [reason]

/-- The reasons of a status. -/
def FreshnessStatus.reasonCodes : FreshnessStatus → List FreshnessReason
  | .degraded _ reasons => reasons
  | _ => []

/-- The generation a degraded status keeps, or the published one. -/
def FreshnessStatus.lastValid (publishedContent : Nat) : FreshnessStatus → Nat
  | .degraded generation _ => generation
  | _ => publishedContent

/-- The reasons after a recomputation: the retained ones and those of the present state. -/
def nextReasons (status : FreshnessStatus) (live : LiveIndex) (plan : Option ScoutPlan) :
    List FreshnessReason :=
  let retained := (status.reasonCodes.filter (!·.isDerived)).foldl pushReason []
  let observed := if observationFailed live then pushReason retained .observationFailed
    else retained
  let reconciled := if reconciliationPending plan then pushReason observed .reconciliationPending
    else observed
  if snapshotVerificationFailed live.snapshotVerifyState then
    pushReason reconciled .snapshotVerificationFailed
  else reconciled

/-- The status that `recompute_freshness_locked` stores. -/
def recomputeFreshness (status : FreshnessStatus) (publishedContent : Nat) (live : LiveIndex)
    (plan : Option ScoutPlan) : FreshnessStatus :=
  let reasons := nextReasons status live plan
  if reasons.isEmpty then
    if verifyInFlight live.snapshotVerifyState then .verifying else .current
  else .degraded (status.lastValid publishedContent) reasons

namespace SharedIndexHandle

variable (handle : SharedIndexHandle)

/-- `publication_fence`. -/
def publicationFence : PublicationFence where
  publicationGeneration := handle.published.publicationGeneration
  contentGeneration := handle.published.contentGeneration
  projectGeneration := handle.published.projectGeneration

/-- `note_rejected_stale_mutation`. -/
def noteRejectedStaleMutation : SharedIndexHandle :=
  { handle with rejectedStaleMutations := handle.rejectedStaleMutations + 1 }

variable (live : LiveIndex)

/-- `recompute_freshness_locked` — whether the status changed, and the handle. -/
def recomputeFreshnessLocked
    (plan : Option ScoutPlan) : Bool × SharedIndexHandle :=
  let next := recomputeFreshness handle.freshnessStatus handle.published.contentGeneration live plan
  (next != handle.freshnessStatus, { handle with freshnessStatus := next })

/-- `published_source_set.store` of a new current generation. -/
def install (generation : PublishedGeneration) : SharedIndexHandle :=
  { handle with
    nextGeneration := handle.nextGeneration + 1
    published := generation
    publications := handle.publications ++ [generation] }

/-- `swap_and_publish_with_content_change_and_hook`. -/
def swapAndPublishWithContentChange
    (contentChanged : Bool) (captured : Option CapturedManifest) : SharedIndexHandle :=
  let generation := handle.nextGeneration
  let previous := handle.published
  let source := captured.map CapturedManifest.source
  let coldPublish := contentChanged && previous.live.loadSource == .emptyBootstrap && !live.isEmpty
  let deferred := coldPublish && handle.deferColdKnowledge && source.isSome && handle.inArc
  let bridgeKept := !contentChanged && source.isSome && previous.source == source
  { handle with
    live := live
    publishedStateGeneration := generation
    deferColdKnowledge := handle.deferColdKnowledge && !coldPublish }.install {
      publicationGeneration := generation
      contentGeneration := if contentChanged then previous.contentGeneration + 1
        else previous.contentGeneration
      projectGeneration := handle.projectGeneration
      source := source
      sourceVersion := captured.map CapturedManifest.sourceVersion
      freshness := handle.freshnessStatus
      live := live
      bridgeLoading := deferred || (bridgeKept && previous.bridgeLoading) }

/-- `swap_and_publish`. -/
def swapAndPublish (captured : Option CapturedManifest) : SharedIndexHandle :=
  handle.swapAndPublishWithContentChange live true captured

/-- `swap_and_publish_retaining_content`. -/
def swapAndPublishRetainingContent
    (captured : Option CapturedManifest) : SharedIndexHandle :=
  handle.swapAndPublishWithContentChange live false captured

/-- The publication of another bridge or authority over what is published already. -/
def republish (bridgeLoading : Bool) : SharedIndexHandle :=
  handle.install { handle.published with
    publicationGeneration := handle.nextGeneration
    bridgeLoading := bridgeLoading }

/-- The recomputation of the freshness and a publication of the live index under it. -/
def recomputeAndPublish (contentChanged : Bool)
    (captured : Option CapturedManifest) : SharedIndexHandle :=
  let recomputed := (handle.recomputeFreshnessLocked live handle.scoutPlan).2
  recomputed.swapAndPublishWithContentChange live contentChanged captured

/-- The coverage of a plan lowered where the manifest requires it. -/
def coveredBy (plan : ScoutPlan) : ScoutPlan :=
  if manifestRequiresDegradedCoverage live then { plan with coverage := .degraded } else plan

/-- An entry put in its place among the entries, and whether that changed them. -/
def putScoutedEntry (entries : List ScoutedEntry) (entry : ScoutedEntry) :
    Bool × List ScoutedEntry :=
  match entries.findIdx? (·.path == entry.path) with
  | some position =>
    if entries[position]? = some entry then (false, entries) else (true, entries.set position entry)
  | none => (true, entries ++ [entry])

variable (env : Environment)

/-- `scout_plan_with_entry_locked` — the plan to store, if it is another one, or an error when it
does not fit its budget. -/
def scoutPlanWithEntryLocked (handle : SharedIndexHandle)
    (entry : ScoutedEntry) (live : LiveIndex) : Except Unit (Option ScoutPlan) :=
  match handle.scoutPlan with
  | none => .ok none
  | some current =>
    let (entryChanged, entries) := putScoutedEntry current.entries entry
    match refreshScoutPlan env { current with entries := entries } with
    | none => .error ()
    | some refreshed =>
      let plan := coveredBy live refreshed
      if !entryChanged && plan.coverage == current.coverage then .ok none else .ok (some plan)

/-- `scout_plan_without_path_locked`. -/
def scoutPlanWithoutPathLocked (handle : SharedIndexHandle) (path : String) :
    Except Unit (Option ScoutPlan) :=
  match handle.scoutPlan with
  | none => .ok none
  | some current =>
    let entries := current.entries.filter fun entry => entry.path.normalizedUtf8 ≠ some path
    if entries.length = current.entries.length then .ok none
    else match refreshScoutPlan env { current with entries := entries } with
      | none => .error ()
      | some plan => .ok (some plan)

/-- `scout_plan_with_batch_locked`. -/
def scoutPlanWithBatchLocked (handle : SharedIndexHandle)
    (entries : List ScoutedEntry) (removedPaths : List String) (live : LiveIndex) :
    Except Unit (Option ScoutPlan) :=
  match handle.scoutPlan with
  | none => .ok none
  | some current =>
    let kept := current.entries.filter fun entry =>
      entry.path.normalizedUtf8.all (· ∉ removedPaths)
    let (changed, placed) := entries.foldl (fun (changed, placed) entry =>
      let (moved, placed) := putScoutedEntry placed entry
      (changed || moved, placed)) (kept.length != current.entries.length, kept)
    match refreshScoutPlan env { current with entries := placed } with
    | none => .error ()
    | some refreshed =>
      let plan := coveredBy live refreshed
      if !changed && plan.coverage == current.coverage then .ok none else .ok (some plan)

/-- The plan stored, where there is another one. -/
def storeScoutPlan (plan : Option ScoutPlan) : SharedIndexHandle :=
  match plan with
  | some plan => { handle with scoutPlan := some plan }
  | none => handle

/-- The entries of a plan by path; of two entries of one path the later one. -/
def entriesByPath (entries : List ScoutedEntry) : Table CatalogPath ScoutedEntry :=
  entries.foldl (fun table entry => table.insert entry.path entry) ∅

/-- The entries of a fresh plan, except that a path whose entry moved since the baseline keeps its
current entry, or its absence. -/
def reconciledEntries (baseline : Option ScoutPlan) (current fresh : ScoutPlan) :
    List ScoutedEntry :=
  let before := entriesByPath ((baseline.map (·.entries)).getD [])
  let now := entriesByPath current.entries
  let merged := (before.keys ++ now.keys).foldl (fun table path =>
    if now.lookup path = before.lookup path then table
    else match now.lookup path with
      | some entry => table.insert path entry
      | none => table.erase path) (entriesByPath fresh.entries)
  merged.entries.map Sigma.snd

/-- `publish_reconciled_scout_plan_at_generation`. -/
def publishReconciledScoutPlanAtGeneration (handle : SharedIndexHandle)
    (baseline : Option ScoutPlan) (fresh : ScoutPlan) (expectedGen : Nat)
    (captured : Option CapturedManifest) : Bool × SharedIndexHandle :=
  if handle.projectGeneration ≠ expectedGen then (false, handle.noteRejectedStaleMutation)
  else
    let entries := match handle.scoutPlan with
      | some current => reconciledEntries baseline current fresh
      | none => fresh.entries
    match refreshScoutPlan env { fresh with entries := entries } with
    | none => (false, handle)
    | some refreshed =>
      let plan := coveredBy handle.live refreshed
      let planChanged := handle.scoutPlan != some plan
      let planned := { handle with scoutPlan := some plan }
      let (freshnessChanged, recomputed) := planned.recomputeFreshnessLocked handle.live (some plan)
      if planChanged || freshnessChanged then
        (true, recomputed.swapAndPublishRetainingContent handle.live captured)
      else (true, recomputed)

variable (captured : Option CapturedManifest)

/-- `latch_observer_gap_locked`. -/
def latchObserverGapLocked : SharedIndexHandle :=
  let reasons := handle.freshnessStatus.reasonCodes
  if .watcherUnavailable ∈ reasons then handle
  else
    let lastValid := handle.freshnessStatus.lastValid handle.published.contentGeneration
    let latched := FreshnessStatus.degraded lastValid (reasons ++ [.watcherUnavailable])
    { handle with freshnessStatus := latched }.swapAndPublishRetainingContent handle.live captured

/-- `latch_observer_gap`. -/
def latchObserverGap : SharedIndexHandle := handle.latchObserverGapLocked captured

/-- `latch_observer_gap_at_generation`. -/
def latchObserverGapAtGeneration (expectedProjectGeneration : Nat)
    (captured : Option CapturedManifest) : Bool × SharedIndexHandle :=
  if handle.published.projectGeneration ≠ expectedProjectGeneration then (false, handle)
  else (true, handle.latchObserverGapLocked captured)

/-- `set_freshness_status`. -/
def setFreshnessStatus (status : FreshnessStatus)
    (captured : Option CapturedManifest) : SharedIndexHandle :=
  { handle with freshnessStatus := status }.swapAndPublishRetainingContent handle.live captured

variable (fence : PublicationFence)

/-- `publish_prepared_bridge`. -/
def publishPreparedBridge : Bool × SharedIndexHandle :=
  if handle.publicationFence ≠ fence then (false, handle.noteRejectedStaleMutation)
  else (true, handle.republish false)

/-- `publish_prepared_authority`. -/
def publishPreparedAuthority
    (source : Option SourceIdentity) (sourceVersion : Option SourceVersion) :
    Bool × SharedIndexHandle :=
  if handle.publicationFence ≠ fence ∨ handle.published.source ≠ source ∨
      handle.published.sourceVersion ≠ sourceVersion then
    (false, handle.noteRejectedStaleMutation)
  else (true, handle.republish handle.published.bridgeLoading)

/-- `publish_deferred_knowledge`. -/
def publishDeferredKnowledge : Bool × SharedIndexHandle :=
  if !handle.published.bridgeLoading then (false, handle)
  else if handle.published.contentGeneration ≠ fence.contentGeneration ∨
      handle.published.projectGeneration ≠ fence.projectGeneration then
    (false, handle.noteRejectedStaleMutation)
  else (true, handle.republish false)

/-- `abandon_loading_knowledge_as_partial`. -/
def abandonLoadingKnowledgeAsPartial : SharedIndexHandle :=
  if !handle.published.bridgeLoading then handle else handle.republish false

/-- `refresh_source_metadata` — the manifest is captured to compare and again to publish. -/
def refreshSourceMetadata
    (candidate captured : Option CapturedManifest) : Bool × SharedIndexHandle :=
  if candidate.map CapturedManifest.source = handle.published.source ∧
      candidate.map CapturedManifest.sourceVersion = handle.published.sourceVersion then
    (false, handle)
  else (true, handle.swapAndPublishRetainingContent handle.live captured)

/-- `update_git_temporal`; the temporal index itself is not modelled. -/
def updateGitTemporal : SharedIndexHandle :=
  handle.swapAndPublishRetainingContent handle.live captured

/-- `store::GitTemporalPublicationFence`. -/
structure GitTemporalPublicationFence where
  projectGeneration : Nat
  contentGeneration : Nat
  source : Option SourceIdentity
  sourceVersion : Option SourceVersion
  deriving DecidableEq, Repr

/-- The fence of a temporal result against the handle and the manifest captured now. -/
def temporalFenceHolds (fence : GitTemporalPublicationFence)
    (candidate : Option CapturedManifest) : Bool :=
  handle.projectGeneration == fence.projectGeneration &&
    handle.published.contentGeneration == fence.contentGeneration &&
    candidate.map CapturedManifest.source == fence.source &&
    candidate.map CapturedManifest.sourceVersion == fence.sourceVersion

/-- The captured manifest is of another source or version than the published one. -/
def sourceMoved (candidate : Option CapturedManifest) : Bool :=
  candidate.isSome && (candidate.map CapturedManifest.source != handle.published.source ||
    candidate.map CapturedManifest.sourceVersion != handle.published.sourceVersion)

/-- `update_git_temporal_at_fence` — a stale result is rejected, and the source it is stale against
is published if it moved. -/
def updateGitTemporalAtFence (fence : GitTemporalPublicationFence)
    (candidate captured : Option CapturedManifest) : Bool × SharedIndexHandle :=
  if !handle.temporalFenceHolds fence candidate then
    let rejected := handle.noteRejectedStaleMutation
    if handle.sourceMoved candidate then
      (false, rejected.swapAndPublishRetainingContent handle.live captured)
    else (false, rejected)
  else (true, handle.swapAndPublishRetainingContent handle.live captured)

/-- `set_local_empty_reason`. -/
def setLocalEmptyReason (reason : Option String)
    (captured : Option CapturedManifest) : SharedIndexHandle :=
  handle.swapAndPublishRetainingContent { handle.live with localEmptyReason := reason } captured

/-- `mark_bootstrap_loading`. -/
def markBootstrapLoading : SharedIndexHandle :=
  handle.swapAndPublishRetainingContent { handle.live with isEmpty := false } captured

/-- `LiveIndex::empty_live_index`. -/
def emptyLiveIndex : LiveIndex where
  files := ∅
  isEmpty := true
  loadSource := .emptyBootstrap
  snapshotVerifyState := .notNeeded
  reverseIndex := fun _ => none
  filesByBasename := fun _ => none
  filesByDirComponent := fun _ => none
  trigramIndex := .new
  manifestEntries := []
  localEmptyReason := none
  indexedRoot := none

/-- `reset_to_empty`. -/
def resetToEmpty : SharedIndexHandle :=
  { handle with
    scoutPlan := none
    freshnessStatus := .verifying
    projectGeneration := handle.projectGeneration + 1 }.swapAndPublish emptyLiveIndex captured

end SharedIndexHandle

end Symforge.Store
