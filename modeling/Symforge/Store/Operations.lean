import Symforge.Library.Run
import Symforge.Store.Reload

/-!
# The operations of a handle and their interleavings

An operation that holds the writer lock from its first read to its publication is one step. A reload
is three: its watermark, its candidate and its commit, with anything in between. What is left of a
reload that is abandoned or refused is nothing but the latched replacement.
-/

namespace Symforge.Store

open Library
open Lifecycle (RootPath)

/-- One locked operation of `SharedIndexHandle`, with what it observes. -/
inductive Operation where
  | updateFile (path : String) (file : IndexedFile) (panics : Bool)
  | updateFileAtGeneration (path : String) (file : IndexedFile) (expectedGen : Nat) (panics : Bool)
  | addFile (path : String) (file : IndexedFile) (panics : Bool)
  | publishIndexedFileAtGeneration (path : String) (file : IndexedFile) (scouted : ScoutedEntry)
      (targets : IndexTargets) (expectedGen expectedIndexStateGeneration : Nat) (panics : Bool)
  | touchMtime (path : String) (newMtime : Nat)
  | touchMtimeAtGeneration (path : String) (newMtime expectedGen : Nat)
  | publishHashSkipAtGeneration (path : String) (newMtime : Nat) (scouted : ScoutedEntry)
      (targets : IndexTargets) (expectedGen expectedIndexStateGeneration : Nat)
  | removeFile (path : String) (panics : Bool)
  | removeFileWithFences (path : String) (expectedGen : Nat)
      (expectedScoutEntry : Option ScoutedEntry) (expectedPublication : Option PublicationFence)
      (absentConfirmed : Option Bool) (panics : Bool)
  | publishTerminalDispositionAtGeneration (path : String) (scouted : ScoutedEntry)
      (disposition : FileDisposition) (expectedGen expectedIndexStateGeneration : Nat)
      (panics : Bool)
  | markSnapshotVerifyStartedAtGeneration (expectedGen : Nat)
  | markSnapshotVerifyRunningAtFence (expected : PublicationFence)
  | markSnapshotVerifyCompletedAtFence (expected : PublicationFence)
      (mismatchedPaths : List String)
  | markSnapshotVerifyCompletedAtGeneration (expectedGen : Nat)
      (completion : SnapshotVerifyCompletion)
  | markSnapshotVerifyFailedAtGeneration (expectedGen : Nat) (report : SnapshotVerifyReport)
  | publishSnapshotVerify (expectedGen : Nat) (removals : List (String × Bool))
      (files : List SnapshotVerifiedFile) (completion : Option SnapshotVerifyCompletion)
      (finalAdmission : Bool)
  | publishReconciledScoutPlanAtGeneration (baseline : Option ScoutPlan) (fresh : ScoutPlan)
      (expectedGen : Nat)
  | latchObserverGap
  | latchObserverGapAtGeneration (expectedProjectGeneration : Nat)
  | setFreshnessStatus (status : FreshnessStatus)
  | publishPreparedBridge (fence : PublicationFence)
  | publishPreparedAuthority (fence : PublicationFence) (source : Option SourceIdentity)
      (sourceVersion : Option SourceVersion)
  | publishDeferredKnowledge (fence : PublicationFence)
  | abandonLoadingKnowledgeAsPartial
  | refreshSourceMetadata (candidate : Option CapturedManifest)
  | updateGitTemporal
  | updateGitTemporalAtFence (fence : SharedIndexHandle.GitTemporalPublicationFence)
      (candidate : Option CapturedManifest)
  | setLocalEmptyReason (reason : Option String)
  | markBootstrapLoading
  | resetToEmpty

namespace SharedIndexHandle

variable (env : Environment) (handle : SharedIndexHandle) (captured : Option CapturedManifest)

/-- The handle after an operation that captures this manifest if it publishes. -/
def apply : Operation → SharedIndexHandle
  | .updateFile path file panics => handle.updateFile env path file panics captured
  | .updateFileAtGeneration path file gen panics =>
    (handle.updateFileAtGeneration env path file gen panics captured).2
  | .addFile path file panics => handle.addFile env path file panics captured
  | .publishIndexedFileAtGeneration path file scouted targets gen state panics =>
    (handle.publishIndexedFileAtGeneration env path file scouted targets gen state panics
      captured).2
  | .touchMtime path mtime => handle.touchMtime path mtime captured
  | .touchMtimeAtGeneration path mtime gen =>
    (handle.touchMtimeAtGeneration path mtime gen captured).2
  | .publishHashSkipAtGeneration path mtime scouted targets gen state =>
    (handle.publishHashSkipAtGeneration env path mtime scouted targets gen state captured).2
  | .removeFile path panics => handle.removeFile path panics captured
  | .removeFileWithFences path gen scouted publication absent panics =>
    (handle.removeFileWithFences env path gen scouted publication absent panics captured).2
  | .publishTerminalDispositionAtGeneration path scouted disposition gen state panics =>
    (handle.publishTerminalDispositionAtGeneration env path scouted disposition gen state panics
      captured).2
  | .markSnapshotVerifyStartedAtGeneration gen =>
    (handle.markSnapshotVerifyStartedAtGeneration gen captured).2
  | .markSnapshotVerifyRunningAtFence fence =>
    (handle.markSnapshotVerifyRunningAtFence fence captured).2
  | .markSnapshotVerifyCompletedAtFence fence paths =>
    (handle.markSnapshotVerifyCompletedAtFence fence paths captured).2
  | .markSnapshotVerifyCompletedAtGeneration gen completion =>
    (handle.markSnapshotVerifyCompletedAtGeneration gen completion captured).2
  | .markSnapshotVerifyFailedAtGeneration gen report =>
    (handle.markSnapshotVerifyFailedAtGeneration gen report captured).2
  | .publishSnapshotVerify gen removals files completion finalAdmission =>
    (handle.publishSnapshotVerifyWithObservation env gen removals files completion finalAdmission
      captured).2
  | .publishReconciledScoutPlanAtGeneration baseline fresh gen =>
    (handle.publishReconciledScoutPlanAtGeneration env baseline fresh gen captured).2
  | .latchObserverGap => handle.latchObserverGap captured
  | .latchObserverGapAtGeneration gen => (handle.latchObserverGapAtGeneration gen captured).2
  | .setFreshnessStatus status => handle.setFreshnessStatus status captured
  | .publishPreparedBridge fence => (handle.publishPreparedBridge fence).2
  | .publishPreparedAuthority fence source version =>
    (handle.publishPreparedAuthority fence source version).2
  | .publishDeferredKnowledge fence => (handle.publishDeferredKnowledge fence).2
  | .abandonLoadingKnowledgeAsPartial => handle.abandonLoadingKnowledgeAsPartial
  | .refreshSourceMetadata candidate => (handle.refreshSourceMetadata candidate captured).2
  | .updateGitTemporal => handle.updateGitTemporal captured
  | .updateGitTemporalAtFence fence candidate =>
    (handle.updateGitTemporalAtFence fence candidate captured).2
  | .setLocalEmptyReason reason => handle.setLocalEmptyReason reason captured
  | .markBootstrapLoading => handle.markBootstrapLoading captured
  | .resetToEmpty => handle.resetToEmpty captured

/-- A fence of the operation is not met: the project generation, the publication or the state it was
prepared for has passed, or its last admission is withdrawn. -/
def refuses : Operation → Bool
  | .updateFileAtGeneration _ _ gen _ | .touchMtimeAtGeneration _ _ gen
  | .markSnapshotVerifyStartedAtGeneration gen | .markSnapshotVerifyCompletedAtGeneration gen _
  | .markSnapshotVerifyFailedAtGeneration gen _
  | .publishReconciledScoutPlanAtGeneration _ _ gen => handle.projectGeneration != gen
  | .publishIndexedFileAtGeneration _ _ _ _ gen state _
  | .publishHashSkipAtGeneration _ _ _ _ gen state
  | .publishTerminalDispositionAtGeneration _ _ _ gen state _ =>
    handle.projectGeneration != gen || handle.publishedStateGeneration != state
  | .removeFileWithFences _ gen scouted publication absent _ =>
    handle.projectGeneration != gen || publication.any (· ≠ handle.publicationFence) ||
      scouted.any (!handle.scoutedBaseHolds ·) || absent == some false
  | .markSnapshotVerifyRunningAtFence fence | .markSnapshotVerifyCompletedAtFence fence _
  | .publishPreparedBridge fence => handle.publicationFence != fence
  | .publishPreparedAuthority fence source version =>
    handle.publicationFence != fence || handle.published.source != source ||
      handle.published.sourceVersion != version
  | .publishDeferredKnowledge fence =>
    handle.published.contentGeneration != fence.contentGeneration ||
      handle.published.projectGeneration != fence.projectGeneration
  | .publishSnapshotVerify gen removals files completion finalAdmission =>
    let batch := VerifyBatch.collect env handle.live removals files
    let (_, contentChanged, receipt) := completeBatch env batch completion
    handle.projectGeneration != gen || ((contentChanged || receipt.completed) && !finalAdmission)
  | .latchObserverGapAtGeneration gen => handle.published.projectGeneration != gen
  | .updateGitTemporalAtFence fence candidate => !handle.temporalFenceHolds fence candidate
  | _ => false

/-- The changes of rows that an operation makes if it publishes. -/
def intendedChanges : Operation → List RowChange
  | .updateFile path file _ | .updateFileAtGeneration path file _ _ | .addFile path file _
  | .publishIndexedFileAtGeneration path file _ _ _ _ _ => [.put path file]
  | .removeFile path _ | .removeFileWithFences path _ _ _ _ _ => [.drop path]
  | .publishTerminalDispositionAtGeneration path _ disposition _ _ _ =>
    if disposition.retainsLastValidContent then [] else [.drop path]
  | .markSnapshotVerifyCompletedAtGeneration _ completion =>
    (handle.live.resolveRows completion).dropped
  | .publishSnapshotVerify _ removals files completion _ =>
    let batch := VerifyBatch.collect env handle.live removals files
    batch.changes ++ withheldChanges env batch completion
  | _ => []

/-- The changes of rows that an operation publishes. -/
def rowChanges (operation : Operation) : List RowChange :=
  if (handle.apply env captured operation).publications.length = handle.publications.length then []
  else handle.intendedChanges env operation

end SharedIndexHandle

/-- How far a reload has come. -/
inductive ReloadStage where
  | started (reload : StartedReload)
  | prepared (reload : PreparedReload)

/-- A handle and the reloads under way on it. -/
structure System where
  handle : SharedIndexHandle
  reloads : Nat → Option ReloadStage

/-- A step of the system. -/
inductive Action where
  | operate (operation : Operation) (captured : Option CapturedManifest)
  | startReload (id : Nat) (root : RootPath)
  | prepareReload (id : Nat) (data : ReloadData) (seen : RootObservation)
  | commitReload (id : Nat) (cancelled : Bool) (carryPanics : String → Bool)
      (captured : Option CapturedManifest)

namespace System

/-- The state after a step. -/
def step (env : Environment) (state : System) : Action → Option System
  | .operate operation captured =>
    some { state with handle := state.handle.apply env captured operation }
  | .startReload id root => match state.reloads id with
    | none =>
      let started := ReloadStage.started (state.handle.startReload root)
      some { state with reloads := Function.update state.reloads id (some started) }
    | some _ => none
  | .prepareReload id data seen => match state.reloads id with
    | some (.started reload) =>
      let (prepared, handle) := state.handle.prepareReload reload data seen
      some ⟨handle, Function.update state.reloads id (some (.prepared prepared))⟩
    | _ => none
  | .commitReload id cancelled carryPanics captured => match state.reloads id with
    | some (.prepared reload) =>
      let finished := Function.update state.reloads id none
      match state.handle.commitReload env reload cancelled carryPanics captured with
      | .ok handle => some ⟨handle, finished⟩
      | .error _ => some ⟨state.handle, finished⟩
    | _ => none

end System

end Symforge.Store
