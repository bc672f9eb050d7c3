import Symforge.Store.CatalogChanges
import Symforge.Store.Operations

/-!
# What an operation does to the handle

Every operation of the handle but the two that set the freshness at will does one of three things:
it publishes nothing, it publishes what is published again under another bridge or authority, or it
publishes a live index that follows its changes of rows, with the freshness kept, recomputed or
latched. Every property of runs is proved from these three cases.
-/

namespace Symforge.Store

open Library Symforge.Store.LiveIndex List Follows Bool

namespace SharedIndexHandle

/-- What the freshness is recomputed from: the paths the operation may replace, and the plan. -/
structure Basis where
  paths : List String
  plan : Option ScoutPlan

/-- The index and the plan still hold what the basis holds. -/
structure Basis.KeptBy (basis : Basis) (before live : LiveIndex) (plan : Option ScoutPlan) :
    Prop where
  entries : before.KeepsEntries basis.paths live
  issues : planHasIssues basis.plan = true → reconciliationPending plan = true

/-- The freshness of a publication: the one there is, one recomputed on a basis, or the one there is
with the observer gap added. -/
inductive FreshnessMove (before : SharedIndexHandle) (live : LiveIndex)
    (plan : Option ScoutPlan) : Option Basis → FreshnessStatus → Prop where
  | kept (basis : Option Basis) : FreshnessMove before live plan basis before.freshnessStatus
  | recomputed {basis : Basis} (held : basis.KeptBy before.live live plan) :
      FreshnessMove before live plan (some basis)
        (recomputeFreshness before.freshnessStatus before.published.contentGeneration live plan)
  | latched (basis : Option Basis) (lastValid : Nat) : FreshnessMove before live plan basis
      (.degraded lastValid (before.freshnessStatus.reasonCodes ++ [.watcherUnavailable]))

/-- The handle with another plan, freshness and count of rejections. -/
def prepared (before : SharedIndexHandle) (plan : Option ScoutPlan) (status : FreshnessStatus)
    (rejected : Nat) : SharedIndexHandle :=
  { before with
    scoutPlan := plan
    freshnessStatus := status
    rejectedStaleMutations := rejected }

/-- What an operation that intends these changes of rows does. -/
inductive Effect (before : SharedIndexHandle) (intended : List RowChange) (basis : Option Basis) :
    SharedIndexHandle → Prop where
  | quiet (rejected : Nat) : Effect before intended basis
      { before with rejectedStaleMutations := rejected }
  | republish (nothing : intended = []) (bridgeLoading : Bool) :
      Effect before intended basis (before.republish bridgeLoading)
  | publish (plan : Option ScoutPlan) (status : FreshnessStatus) (rejected : Nat)
      (live : LiveIndex) (contentChanged : Bool) (captured : Option CapturedManifest)
      (moved : FreshnessMove before live plan basis status)
      (follows : before.live.Follows intended live)
      (retains : contentChanged = false → before.live.Follows [] live) :
      Effect before intended basis
        ((before.prepared plan status rejected).swapAndPublishWithContentChange live contentChanged
          captured)

variable {before : SharedIndexHandle} {intended : List RowChange} {basis : Option Basis}
  {env : Environment} {captured : Option CapturedManifest}

/-- Nothing done is an effect too. -/
theorem Effect.unchanged : Effect before intended basis before :=
  .quiet before.rejectedStaleMutations

/-- An operation behind a fence, at which it may count a rejection. -/
theorem Effect.fenced {stale : Prop} [Decidable stale] {Answer : Type} {refusal : Answer}
    {rejected : Nat} {passed : Answer × SharedIndexHandle}
    (passes : Effect before intended basis passed.2) : Effect before intended basis
      (if stale then (refusal, { before with rejectedStaleMutations := rejected })
        else passed).2 := by
  split
  · exact .quiet _
  · exact passes

variable (path : String) (fence : PublicationFence) (file : IndexedFile) (gen : Nat)
  (plan : Option ScoutPlan) (live : LiveIndex) (paths : List String) (newMtime : Nat)
  (scouted : ScoutedEntry) (contentChanged : Bool) (targets : IndexTargets) (panics : Bool)

/-- A publication of another index under the freshness that is there. -/
theorem Effect.swap (follows : before.live.Follows intended live)
    (retains : contentChanged = false → before.live.Follows [] live) :
    Effect before intended basis
      (before.swapAndPublishWithContentChange live contentChanged captured) :=
  .publish before.scoutPlan before.freshnessStatus before.rejectedStaleMutations _ _
    _ (.kept _) follows retains

/-- Storing a plan changes the plan only. -/
theorem storeScoutPlan_eq :
    before.storeScoutPlan plan =
      { before with scoutPlan := (before.storeScoutPlan plan).scoutPlan } := by
  cases plan <;> rfl

/-- A publication under the recomputed freshness, of a plan that may be another one. -/
theorem Effect.recompute {basis : Basis}
    (held : basis.KeptBy before.live live (before.storeScoutPlan plan).scoutPlan)
    (follows : before.live.Follows intended live)
    (retains : contentChanged = false → before.live.Follows [] live) :
    Effect before intended (some basis)
      ((before.storeScoutPlan plan).recomputeAndPublish live contentChanged captured) := by
  rw [storeScoutPlan_eq]
  exact .publish (before.storeScoutPlan plan).scoutPlan _ before.rejectedStaleMutations _
    _ _ (.recomputed held) follows retains

/-- The same live index published again. -/
theorem Effect.again : Effect before [] basis
    (before.swapAndPublishRetainingContent before.live captured) :=
  Effect.swap before.live false (refl _) fun _ => refl _

/-- The effect of an update. -/
theorem updateFile_effect :
    Effect before [.put path file] none (before.updateFile env path file panics captured) := by
  unfold SharedIndexHandle.updateFile
  split
  · exact .unchanged
  · exact .swap _ true (before.live.updateFileWithManifest_follows _ _ _ true) nofun

/-- The effect of publishing an indexed file. -/
theorem publishIndexedFile_effect (gen state : Nat) (panics : Bool) :
    Effect before [.put path file]
      (some ⟨[path, scoutedCatalogPath scouted.path], before.scoutPlan⟩)
      (before.publishIndexedFileAtGeneration env path file scouted targets gen state panics
        captured).2 := by
  refine .fenced (.fenced (.fenced ?_))
  dsimp only
  split
  · exact .unchanged
  rename_i plan planned
  refine .recompute _ _ true ⟨?_, fun issues => ?_⟩ ?_ nofun
  · exact (before.live.updateFile_keeps _ _ (mem_cons_self ..)).trans
      (upsertManifestEntry_keeps _ _ _ (mem_cons_of_mem _ (mem_singleton_self _)))
  · exact scoutPlanWithEntryLocked_pending issues planned
  · exact (before.live.updateFileWithManifest_follows _ _ _ true).congr rfl rfl

/-- Another time of a row changes nothing else of it, and no entry. -/
theorem touchedLive_follows {live touched : LiveIndex} {path : String} {newMtime : Nat}
    (moved : touchedLive live path newMtime = some touched) :
    live.Follows [] touched ∧ touched.manifestEntries = live.manifestEntries := by
  obtain ⟨file, found, rest⟩ := Option.bind_eq_some_iff.mp moved
  split at rest
  · cases rest
  cases rest
  refine ⟨⟨fun other => ?_, rfl⟩, rfl⟩
  rw [row, followChanges, foldl_nil, row]
  by_cases here : other = path
  · subst here
    rw [AList.lookup_insert, found]
    rfl
  · rw [AList.lookup_insert_ne here]

/-- A new mtime changes no row. -/
theorem touchMtime_effect : Effect before [] none (before.touchMtime path newMtime captured) := by
  unfold touchMtime
  split
  · rename_i touched moved
    have follows := (touchedLive_follows moved).1
    exact .swap _ false follows fun _ => follows
  · exact .unchanged

/-- A skipped file changes no row. -/
theorem publishHashSkip_effect (gen state : Nat) :
    Effect before [] (some ⟨[scoutedCatalogPath scouted.path], before.scoutPlan⟩)
      (before.publishHashSkipAtGeneration env path newMtime scouted targets gen state
        captured).2 := by
  refine .fenced (.fenced ?_)
  split
  · exact .unchanged
  rename_i file found
  dsimp only
  generalize maybe :
    (if newMtime = 0 then none else touchedLive before.live path newMtime) = touched
  obtain ⟨moved, same⟩ : before.live.Follows [] (touched.getD before.live) ∧
      (touched.getD before.live).manifestEntries = before.live.manifestEntries := by
    cases touched with
    | none => exact ⟨refl _, rfl⟩
    | some live =>
      split at maybe
      · cases maybe
      · exact touchedLive_follows maybe
  split
  · exact .unchanged
  rename_i plan planned
  split
  · exact .unchanged
  refine .recompute _ _ true ⟨?_, fun issues => ?_⟩ ?_ nofun
  · split
    · exact (KeepsEntries.of_eq same).trans
        (upsertManifestEntry_keeps _ _ _ (mem_singleton_self _))
    · exact .of_eq same
  · exact scoutPlanWithEntryLocked_pending issues planned
  · split
    · exact moved.congr rfl rfl
    · exact moved

/-- The effect of a removal. -/
theorem removeFile_effect :
    Effect before [.drop path] none (before.removeFile path panics captured) := by
  unfold SharedIndexHandle.removeFile
  dsimp only
  split
  · exact .unchanged
  split
  · exact .unchanged
  · exact .swap _ true (before.live.removeFile_follows _) nofun

/-- A removal that finds nothing leaves the rows. -/
theorem removeFile_retains {live : LiveIndex} {path : String}
    (kept : (live.removeFile path).1 = false) : live.Follows [] (live.removeFile path).2 := by
  have nothing : ((live.releaseUnverified path).2.removeRow path).1 = false :=
    (or_eq_false_iff.mp (or_eq_false_iff.mp kept).1).2
  have absent := removeRow_eq_false nothing
  have untouched := (live.releaseUnverified path).2.removeRow_absent _ absent
  refine (live.releaseUnverified_follows path).congr ?_ ?_
  · rw [LiveIndex.removeFile]
    dsimp only
    rw [untouched]
    rfl
  · rw [LiveIndex.removeFile]
    dsimp only
    rw [untouched]
    rfl

/-- The effect of a fenced removal. -/
theorem removeFileWithFences_effect (scouted : Option ScoutedEntry)
    (publication : Option PublicationFence) (absent : Option Bool) (panics : Bool) :
    Effect before [.drop path] (some ⟨[path], before.scoutPlan⟩)
      (before.removeFileWithFences env path gen scouted publication absent panics
        captured).2 := by
  refine .fenced (.fenced (.fenced (.fenced (.fenced ?_))))
  dsimp only
  split
  · exact .unchanged
  rename_i plan planned
  split
  · exact .unchanged
  have released := before.live.releaseUnverified_follows path
  refine .recompute _ _ _ ⟨?_, fun issues => ?_⟩ ?_ fun unchanged => ?_
  · exact (KeepsEntries.of_eq (before.live.releaseUnverified_manifest path)).trans
      (removeFile_keeps _ (mem_singleton_self _))
  · exact scoutPlanWithoutPathLocked_pending issues planned
  · exact released.trans ((before.live.releaseUnverified path).2.removeFile_follows path)
  · have kept := (or_eq_false_iff.mp unchanged).1
    exact released.trans (removeFile_retains kept)

/-- A terminal disposition drops the row unless it retains the content. -/
theorem publishTerminalDisposition_effect (disposition : FileDisposition) (gen state : Nat)
    (panics : Bool) :
    Effect before (if disposition.retainsLastValidContent then [] else [.drop path])
      (some ⟨[path, scoutedCatalogPath scouted.path], before.scoutPlan⟩)
      (before.publishTerminalDispositionAtGeneration env path scouted disposition gen state panics
        captured).2 := by
  generalize intended :
    (if disposition.retainsLastValidContent then [] else [RowChange.drop path]) = changes
  refine .fenced (.fenced (.fenced ?_))
  dsimp only
  split
  · exact .unchanged
  rename_i plan planned
  have listed : scoutedCatalogPath scouted.path ∈ [path, scoutedCatalogPath scouted.path] :=
    mem_cons_of_mem _ (mem_singleton_self _)
  have pending issues := scoutPlanWithEntryLocked_pending issues planned
  subst intended
  cases disposition.retainsLastValidContent with
  | true =>
    have kept : ∀ entry, before.live.Follows [] (before.live.upsertManifestEntry env entry) :=
      fun _ => of_same rfl rfl
    exact .recompute _ _ false ⟨upsertManifestEntry_keeps _ _ _ listed, pending⟩ (kept _)
      fun _ => kept _
  | false =>
    refine .recompute _ _ true ⟨?_, pending⟩ ?_ nofun
    · exact (before.live.removeFile_keeps (mem_cons_self ..)).trans
        (upsertManifestEntry_keeps _ _ _ listed)
    · exact (before.live.removeFile_follows _).congr rfl rfl

/-- A publication of the live index under another state of the verify. -/
theorem Effect.mark (files : live.files = before.live.files)
    (root : live.indexedRoot = before.live.indexedRoot)
    (manifest : live.manifestEntries = before.live.manifestEntries) :
    Effect before [] (some ⟨[], before.scoutPlan⟩)
      (before.recomputeAndPublish live false captured) :=
  .recompute none _ false ⟨.of_eq manifest, reconciliationPending_of_issues⟩
    (of_same files root) fun _ => of_same files root

/-- Marking the verification as running changes no row. -/
theorem Effect.markRunning : Effect before [] (some ⟨[], before.scoutPlan⟩)
    (before.recomputeAndPublish before.live.markSnapshotVerifyRunning false captured) := by
  unfold markSnapshotVerifyRunning
  split <;> exact .mark _ rfl rfl rfl

/-- Marking it as completed changes no row. -/
theorem Effect.markCompleted : Effect before [] (some ⟨[], before.scoutPlan⟩)
    (before.recomputeAndPublish (before.live.markSnapshotVerifyCompleted paths) false
      captured) := by
  unfold markSnapshotVerifyCompleted
  split <;> exact .mark _ rfl rfl rfl

/-- Completing it at a generation drops the unresolved rows. -/
theorem markCompletedAtGeneration_effect (completion : SnapshotVerifyCompletion) :
    Effect before (before.live.resolveRows completion).dropped (some ⟨[], before.scoutPlan⟩)
      (before.markSnapshotVerifyCompletedAtGeneration gen completion captured).2 := by
  refine .fenced (.fenced ?_)
  split
  · exact .unchanged
  exact .recompute none _ _ ⟨.of_eq (before.live.resolveSnapshotVerify_manifest _),
    reconciliationPending_of_issues⟩ (before.live.resolveSnapshotVerify_follows _)
    (before.live.resolveSnapshotVerify_retains _)

/-- A verification makes the changes that it intends. -/
theorem publishSnapshotVerify_effect (removals : List (String × Bool))
    (files : List SnapshotVerifiedFile) (completion : Option SnapshotVerifyCompletion)
    (finalAdmission : Bool) :
    Effect before (before.intendedChanges env
        (.publishSnapshotVerify gen removals files completion finalAdmission))
      (some ⟨VerifyBatch.catalogPaths removals files, before.scoutPlan⟩)
      (before.publishSnapshotVerifyWithObservation env gen removals files completion finalAdmission
        captured).2 := by
  obtain ⟨follows, retains⟩ := completeBatch_follows _
    (VerifyBatch.collect_tracks _ before.live _ _)
    (collect_not_completed _ before.live _ _) _
  refine .fenced ?_
  refine .fenced (.fenced ?_)
  split
  · exact .unchanged
  rename_i plan planned
  exact .recompute _ _ _ ⟨completeBatch_keeps _ before.live _ _ _,
    fun issues => scoutPlanWithBatchLocked_pending issues planned⟩ follows retains

/-- A reconciliation changes no row. -/
theorem publishReconciledScoutPlan_effect (baseline : Option ScoutPlan) (fresh : ScoutPlan)
    (gen : Nat) :
    Effect before [] (some ⟨[], some fresh⟩)
      (before.publishReconciledScoutPlanAtGeneration env baseline fresh gen captured).2 := by
  unfold publishReconciledScoutPlanAtGeneration
  split
  · exact .quiet _
  dsimp only
  split
  · exact .unchanged
  rename_i refreshed accounted
  have held : Basis.KeptBy ⟨[], some fresh⟩ before.live before.live
      (some (coveredBy before.live refreshed)) := by
    refine ⟨.of_eq rfl, fun issues => ?_⟩
    have listed : fresh.issues ≠ [] := by simpa using (and_eq_true_iff.mp issues).2
    have degraded := coveredBy_degraded before.live (refreshScoutPlan_degraded accounted listed)
    simp [reconciliationPending, degraded]
  split
  · exact .publish (some (coveredBy before.live refreshed)) _ before.rejectedStaleMutations
      before.live false _ (.recomputed held) (refl _) fun _ => refl _
  -- neither the plan nor the freshness is another one
  rename_i same
  obtain ⟨samePlan, sameStatus⟩ := or_eq_false_iff.mp (eq_false_iff.mpr same)
  have plan : before.scoutPlan = some (coveredBy before.live refreshed) := by
    simpa using samePlan
  have status : recomputeFreshness before.freshnessStatus before.published.contentGeneration
      before.live (some (coveredBy before.live refreshed)) = before.freshnessStatus := by
    simpa [recomputeFreshnessLocked] using sameStatus
  have kept : (recomputeFreshnessLocked { before with
      scoutPlan := some (coveredBy before.live refreshed) } before.live
        (some (coveredBy before.live refreshed))).2 = before := by
    rw [recomputeFreshnessLocked]
    rw [status, ← plan]
  rw [kept]
  exact .unchanged

/-- Neither does an observer gap. -/
theorem latchObserverGapLocked_effect :
    Effect before [] none (before.latchObserverGapLocked captured) := by
  unfold latchObserverGapLocked
  dsimp only
  split
  · exact .unchanged
  exact .publish before.scoutPlan _ before.rejectedStaleMutations before.live false _
    (.latched none _) (refl _) fun _ => refl _

/-- Neither does a git update. -/
theorem updateGitTemporalAtFence_effect (fence : GitTemporalPublicationFence)
    (candidate : Option CapturedManifest) :
    Effect before [] none (before.updateGitTemporalAtFence fence candidate captured).2 := by
  unfold updateGitTemporalAtFence
  split
  · dsimp only
    split
    · exact .publish before.scoutPlan before.freshnessStatus _ before.live false _
        (.kept none)
        (refl _) fun _ => refl _
    · exact .quiet _
  · exact .again

/-- Neither does abandoning the load of knowledge. -/
theorem abandonLoadingKnowledge_effect :
    Effect before [] none before.abandonLoadingKnowledgeAsPartial := by
  unfold abandonLoadingKnowledgeAsPartial
  split
  · exact .unchanged
  · exact .republish rfl false

end SharedIndexHandle

/-- The operations that set the freshness at will. -/
def Operation.setsFreshness : Operation → Bool
  | .setFreshnessStatus _ | .resetToEmpty => true
  | _ => false

/-- The basis on which an operation recomputes the freshness, if it does. -/
def SharedIndexHandle.basis (handle : SharedIndexHandle) : Operation → Option Basis
  | .publishIndexedFileAtGeneration path _ scouted _ _ _ _
  | .publishTerminalDispositionAtGeneration path scouted _ _ _ _ =>
    some ⟨[path, scoutedCatalogPath scouted.path], handle.scoutPlan⟩
  | .publishHashSkipAtGeneration _ _ scouted _ _ _ =>
    some ⟨[scoutedCatalogPath scouted.path], handle.scoutPlan⟩
  | .removeFileWithFences path _ _ _ _ _ => some ⟨[path], handle.scoutPlan⟩
  | .markSnapshotVerifyStartedAtGeneration _ | .markSnapshotVerifyRunningAtFence _
  | .markSnapshotVerifyCompletedAtFence .. | .markSnapshotVerifyCompletedAtGeneration ..
  | .markSnapshotVerifyFailedAtGeneration .. => some ⟨[], handle.scoutPlan⟩
  | .publishSnapshotVerify _ removals files _ _ =>
    some ⟨VerifyBatch.catalogPaths removals files, handle.scoutPlan⟩
  | .publishReconciledScoutPlanAtGeneration _ fresh _ => some ⟨[], some fresh⟩
  | _ => none

namespace SharedIndexHandle

variable {before : SharedIndexHandle} {env : Environment} {captured : Option CapturedManifest}

/-- Every other operation has one of the three effects. -/
theorem apply_effect {operation : Operation} (ordinary : operation.setsFreshness = false) :
    Effect before (before.intendedChanges env operation) (before.basis operation)
      (before.apply env captured operation) := by
  cases operation with
  | updateFile path file panics | addFile path file panics =>
    exact updateFile_effect _ _ _
  | updateFileAtGeneration path file gen panics =>
    exact .fenced (updateFile_effect _ _ _)
  | publishIndexedFileAtGeneration path file scouted targets gen state panics =>
    exact publishIndexedFile_effect _ _ _ _ _ _ _
  | touchMtime path mtime => exact touchMtime_effect _ _
  | touchMtimeAtGeneration path mtime gen => exact .fenced (touchMtime_effect _ _)
  | publishHashSkipAtGeneration path mtime scouted targets gen state =>
    exact publishHashSkip_effect _ _ _ _ _ _
  | removeFile path panics => exact removeFile_effect _ _
  | removeFileWithFences path gen scouted publication absent panics =>
    exact removeFileWithFences_effect _ _ _ _ _ _
  | publishTerminalDispositionAtGeneration path scouted disposition gen state panics =>
    exact publishTerminalDisposition_effect _ _ _ _ _ _
  | markSnapshotVerifyStartedAtGeneration gen => exact .fenced (.fenced .markRunning)
  | markSnapshotVerifyRunningAtFence fence => exact .fenced .markRunning
  | markSnapshotVerifyCompletedAtFence fence paths => exact .fenced (.markCompleted _)
  | markSnapshotVerifyCompletedAtGeneration gen completion =>
    exact markCompletedAtGeneration_effect _ _
  | markSnapshotVerifyFailedAtGeneration gen report => exact .fenced (.fenced (.mark _ rfl rfl rfl))
  | publishSnapshotVerify gen removals files completion finalAdmission =>
    exact publishSnapshotVerify_effect _ _ _ _ _
  | publishReconciledScoutPlanAtGeneration baseline fresh gen =>
    exact publishReconciledScoutPlan_effect _ _ _
  | latchObserverGap => exact latchObserverGapLocked_effect
  | latchObserverGapAtGeneration gen => exact .fenced latchObserverGapLocked_effect
  | setFreshnessStatus status | resetToEmpty => cases ordinary
  | publishPreparedBridge fence => exact .fenced (.republish rfl false)
  | publishPreparedAuthority fence source version => exact .fenced (.republish rfl _)
  | publishDeferredKnowledge fence => exact .fenced (.fenced (.republish rfl false))
  | abandonLoadingKnowledgeAsPartial => exact abandonLoadingKnowledge_effect
  | refreshSourceMetadata candidate => exact .fenced .again
  | updateGitTemporal => exact .again
  | updateGitTemporalAtFence fence candidate =>
    exact updateGitTemporalAtFence_effect _ _
  | setLocalEmptyReason reason | markBootstrapLoading =>
    exact .swap _ false (of_same rfl rfl) fun _ => of_same rfl rfl

end SharedIndexHandle

namespace SharedIndexHandle

/-- The handle that a commit swaps its merged index into. -/
def committing (handle : SharedIndexHandle) (reload : PreparedReload) : SharedIndexHandle :=
  { handle with
    scoutPlan := some reload.data.scoutPlan
    freshnessStatus := handle.reloadFreshness reload
    projectGeneration := handle.projectGeneration + 1 }

/-- A commit that returns has merged, and publishes what it merged. -/
theorem commitReload_ok {env : Environment} {handle after : SharedIndexHandle}
    {reload : PreparedReload} {cancelled : Bool} {carryPanics : String → Bool}
    {captured : Option CapturedManifest}
    (committed : handle.commitReload env reload cancelled carryPanics captured = .ok after) :
    ∃ live, mergePostWatermarkLiveAdmissions env reload.watermark handle.live
        (fromReloadData reload.root reload.data) carryPanics = .ok live ∧
      after = (handle.committing reload).swapAndPublish live captured := by
  unfold commitReload at committed
  split at committed
  · cases committed
  dsimp only at committed
  split at committed
  · cases committed
  rename_i live merged
  cases committed
  exact ⟨_, merged, rfl⟩

end SharedIndexHandle

namespace System

/-- What a step does to the handle. -/
theorem step_cases {env : Environment} {state next : System} {action : Action}
    (moved : state.step env action = some next) :
    (∃ operation captured, action = .operate operation captured ∧
      next.handle = state.handle.apply env captured operation) ∨
    (∃ latched, next.handle = { state.handle with physicalReplacementLatched := latched }) ∨
    ∃ id cancelled carryPanics captured reload,
      action = .commitReload id cancelled carryPanics captured ∧
      state.reloads id = some (.prepared reload) ∧
      state.handle.commitReload env reload cancelled carryPanics captured = .ok next.handle := by
  cases action with
  | operate operation captured =>
    cases moved
    exact .inl ⟨_, _, rfl, rfl⟩
  | startReload id root =>
    simp only [step] at moved
    split at moved
    · cases moved
      exact .inr (.inl ⟨state.handle.physicalReplacementLatched, rfl⟩)
    · cases moved
  | prepareReload id data seen =>
    simp only [step] at moved
    split at moved
    · cases moved
      exact .inr (.inl ⟨_, rfl⟩)
    · cases moved
  | commitReload id cancelled carryPanics captured =>
    simp only [step] at moved
    split at moved
    · rename_i reload found
      split at moved
      · rename_i handle committed
        cases moved
        exact .inr (.inr ⟨id, _, _, _, _, rfl, found, committed⟩)
      · cases moved
        exact .inr (.inl ⟨state.handle.physicalReplacementLatched, rfl⟩)
    · cases moved

end System

end Symforge.Store
