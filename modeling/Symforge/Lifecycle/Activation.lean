import Symforge.Lifecycle.Mutation
import Symforge.Lifecycle.Observer
import Symforge.Lifecycle.Transition

/-!
# The write authority of one project root

Model of `ProjectSourceAuthority`, its observation lane and `WriteAuthority` in
`index_lifecycle/activation.rs`. Each definition is the code between taking one of the two locks and
releasing it, so that a run of them is an interleaving of critical sections: `return_to_current` is
two definitions. Of the candidate pipeline it is only said whether it committed.
-/

namespace Symforge.Lifecycle

open SourceRuntime ObserverSlot

open Process

/-- `activation::ObservationLane`, as far as registration, observation and permit returns use it. -/
structure ObservationLane where
  slot : ObserverSlot
  /-- The token paired with the active observer. -/
  activeToken : ObserverToken
  accumulator : CoalescingAccumulator
  /-- Number of the last registration. -/
  nextObserver : Nat
  /-- Last stamp handed out. -/
  nextStamp : Nat
  /-- The cut consumed by the last permit return. -/
  lastReconcileCut : Option ObservationCut
deriving DecidableEq, Repr

/-- `OBSERVATION_ACCUMULATOR_BOUND`. -/
def observationAccumulatorBound : Nat := 4096

/-- `activation::AuthorityInner`. -/
structure AuthorityInner where
  runtime : SourceRuntime
  /-- The lease of the current permit cycle, dormant between cycles. -/
  lease : PhysicalRootLease
  /-- The drain signal of the last permit. -/
  outstanding : SignalId
deriving DecidableEq, Repr

/-- `activation::ProjectSourceAuthority`. -/
structure ProjectSourceAuthority where
  root : RootPath
  /-- Identity of the first lease. -/
  admissionRoot : PhysicalRootIdentity
  /-- The directory object observed when the authority was made. -/
  physicalAnchor : Option PhysicalRootAnchor
  /-- The path was absent at the last registry lookup. -/
  pathAbsentPending : Bool
  /-- State behind the authority lock. -/
  inner : AuthorityInner
  /-- State behind the lane lock. -/
  lane : ObservationLane
deriving DecidableEq, Repr

/-- `activation::WriteAuthority` — with the permit it still owns. -/
structure WriteAuthority where
  permit : SourceMutationPermit
  /-- The publication that froze the source for this authority. -/
  frozenPublication : PublicationIdentity
deriving DecidableEq, Repr

namespace ObservationLane

variable (lane : ObservationLane)

/-- The lane half of `ProjectSourceAuthority::register_observer`; `none` where an `expect` fails. -/
def registerObserver (process : Process) : Option (ObserverId × ObservationLane × Process) :=
  let successor : ObserverId := ⟨lane.nextObserver + 1⟩
  match lane.slot.beginHandoff successor with
  | (.error _, _) => none
  | (.ok _, begun) =>
    match begun.deliverPending.2.completeHandoff with
    | (.error _, _) => none
    | (.ok _, completed) =>
      let (token, process) := process.mintIdentity
      some (successor, { lane with
        nextObserver := lane.nextObserver + 1
        slot := completed
        accumulator := lane.accumulator.latchHandoffBarrier
        activeToken := ⟨token⟩ }, process)

/-- `ObservationLane::observe_admission_locked` — `committed` if the candidate got to its commit. -/
def observeAdmissionLocked (source : Nat) (committed : Bool) : ObservationLane :=
  let stamp := lane.nextStamp + 1
  { lane with
    nextStamp := stamp
    accumulator :=
      if committed then lane.accumulator.observe source (some stamp)
      else lane.accumulator.reportGap }

/-- `ProjectSourceAuthority::observe_removal_active`. -/
def observeRemovalActive (source : Nat) : ObservationLane :=
  let stamp := lane.nextStamp + 1
  { lane with
    nextStamp := stamp
    accumulator := lane.accumulator.observe source (some stamp) }

variable (observer : ObserverId)

/-- The check every attributed observation makes: a stale observer is told who is active. -/
def attributed
    (change : ObservationLane → ObservationLane) : Except ObserverId Unit × ObservationLane :=
  if lane.slot.active ≠ observer then (.error lane.slot.active, lane) else (.ok (), change lane)

/-- `ProjectSourceAuthority::observe_admission`. -/
def observeAdmission (source : Nat) (committed : Bool) : Except ObserverId Unit × ObservationLane :=
  lane.attributed observer (·.observeAdmissionLocked source committed)

/-- `ProjectSourceAuthority::observe_removal`. -/
def observeRemoval (source : Nat) : Except ObserverId Unit × ObservationLane :=
  lane.attributed observer (·.observeRemovalActive source)

/-- `ProjectSourceAuthority::report_gap`. -/
def reportGap : Except ObserverId Unit × ObservationLane :=
  lane.attributed observer fun lane => { lane with accumulator := lane.accumulator.reportGap }

/-- The lane half of `recover_stranded`. -/
def latchScopeDirty : ObservationLane :=
  { lane with accumulator := lane.accumulator.latchScopeDirty }

/-- The lane half of `return_to_current`: consume the cut and read the active token. -/
def consumeCut : ObserverToken × ObservationLane :=
  let (cut, accumulator) := lane.accumulator.cut
  (lane.activeToken, { lane with accumulator := accumulator, lastReconcileCut := some cut })

end ObservationLane

namespace ProjectSourceAuthority

/-- `ProjectSourceAuthority::for_root` — `observed` is the directory at the path. The handle that
the lease opens is dropped by `parked` at once. -/
def forRoot (process : Process) (root : RootPath) (observed : Option PhysicalRootAnchor) :
    ProjectSourceAuthority × Process :=
  let (taken, process) := PhysicalRootLease.take process root observed
  let lease := taken.parked
  let (binding, process) := BindingAuthority.bind process lease.identity
  let (seedToken, process) := process.mintIdentity
  let (publication, process) := CurrentPublication.promote process binding ⟨seedToken⟩
  let (signal, process) := process.newSignal
  ({ root, admissionRoot := lease.identity, physicalAnchor := observed
     pathAbsentPending := false
     inner := ⟨.current publication, lease, signal⟩
     lane := ⟨.new ⟨1⟩, ⟨seedToken⟩, .new observationAccumulatorBound, 1, 0, none⟩ }, process)

variable (authority : ProjectSourceAuthority)

/-- `ProjectSourceAuthority::is_current`. -/
def isCurrent : Bool := authority.inner.runtime.livePublication.isSome

/-- `ProjectSourceAuthority::current_publication`. -/
def currentPublication : Option PublicationIdentity :=
  authority.inner.runtime.livePublication.map (·.publication)

/-- `ProjectSourceAuthority::revoke_for_replacement`. -/
def revokeForReplacement (process : Process) : Process :=
  process.revokeLease authority.inner.lease.identity

/-- `ProjectSourceAuthority::acquire_write_if_publication` — `opened` is what reopening the dormant
lease returned. A refused permit leaves the source frozen. -/
def acquireWriteIfPublication (process : Process)
    (expected : Option PublicationIdentity) (opened : Option PhysicalRootAnchor) :
    Except AuthorityRefusal WriteAuthority × Process × ProjectSourceAuthority :=
  match authority.inner.runtime.livePublication with
  | none => (.error (.phaseNotCurrent authority.inner.runtime.phase.name), process, authority)
  | some live =>
    let presented := live.publication
    if expected.any (· ≠ presented) then
      (.error (.publicationIdentityMismatch (expected.getD presented) presented),
        process, authority)
    else
      match authority.inner.runtime.requestMutationGrant process (.liveCurrent presented) with
      | (.error refusal, process, runtime) =>
        (.error refusal, process, { authority with inner.runtime := runtime })
      | (.ok grant, process, runtime) =>
        let frozenPublication := grant.publishedNonCurrent.publication
        let (drain, process) := process.newSignal
        let liveLease := authority.inner.lease.reopened opened
        match SourceMutationPermit.grant process grant liveLease drain with
        | (.error refusal, process) =>
          (.error refusal, process, { authority with inner.runtime := runtime })
        | (.ok permit, process) =>
          (.ok ⟨permit, frozenPublication⟩, process,
            { authority with inner := ⟨runtime, liveLease, drain⟩ })

/-- The inner half of `return_to_current`: retire the permit, take a fresh dormant lease and apply
the sealed transition; the lease is stored if it was applied. -/
def returnInner (process : Process)
    (frozenPublication : PublicationIdentity) (observerCut : ObserverToken) :
    Except AuthorityRefusal Unit × Process × ProjectSourceAuthority :=
  let (_, runtime) := authority.inner.runtime.retirePermit frozenPublication
  let (taken, process) := PhysicalRootLease.take process authority.root none
  let newLease := taken.parked
  let (incoming, process) := BindingAuthority.bind process newLease.identity
  match applyTransition process runtime .reload authority.inner.lease.identity incoming
      observerCut authority.inner.outstanding with
  | (.error refusal, process, runtime) =>
    (.error refusal, process, { authority with inner.runtime := runtime })
  | (.ok _, process, runtime) =>
    (.ok (), process, { authority with inner := ⟨runtime, newLease, authority.inner.outstanding⟩ })

end ProjectSourceAuthority

namespace WriteAuthority

/-- The opening of `write` and `begin_delegated`: a side effect in flight continues. -/
def beginSideEffect (write : WriteAuthority) (process : Process) :
    Except AuthorityRefusal Unit × WriteAuthority :=
  match write.permit.startSideEffect process with
  | (.error .sideEffectAlreadyInFlight, permit) => (.ok (), { write with permit })
  | (result, permit) => (result, { write with permit })

/-- `WriteAuthority::write` and `write_owner_only`. -/
def write (write : WriteAuthority) (process : Process) (target : String)
    (disk : Except RootRefusal Unit) : Except AuthorityRefusal WriteReceipt × WriteAuthority :=
  match write.beginSideEffect process with
  | (.error refusal, begun) => (.error refusal, begun)
  | (.ok (), begun) => (begun.permit.replaceBeneath process target disk, begun)

/-- `WriteAuthority::begin_delegated`. -/
def beginDelegated (write : WriteAuthority) (process : Process) :
    Except AuthorityRefusal Unit × WriteAuthority :=
  write.beginSideEffect process

end WriteAuthority

/-! ## What each critical section can do -/

/-- The process after an acquisition drew the frozen publication and its drain signal. -/
def Process.afterFreezing (process : Process) : Process :=
  { process with
    nextIdentity := process.nextIdentity + 1
    nextSignal := process.nextSignal + 1
    signals := Function.update process.signals ⟨process.nextSignal⟩ {} }

/-- The process after the permit armed that signal. -/
def Process.afterAcquiring (process : Process) : Process :=
  process.afterFreezing.updateSignal ⟨process.nextSignal⟩ PermitDrainSignal.arm

/-- The process after a return: one lease, a binding, the freeze and the publication. -/
def Process.afterReturning (process : Process) (outgoing : PhysicalRootIdentity) : Process :=
  { process with
    nextRoot := process.nextRoot + 1
    nextIdentity := process.nextIdentity + 4
    revokedLeases := outgoing :: process.revokedLeases }

namespace ProjectSourceAuthority

variable (authority : ProjectSourceAuthority) (process : Process) (live : CurrentPublication)

/-- The permit checks of an acquisition against the live publication. -/
def Permitted : Prop :=
  live.binding.physicalRoot = authority.inner.lease.identity ∧
    process.bindingLive live.binding.identity = true ∧
    process.leaseLive authority.inner.lease.identity = true

/-- The source an acquisition freezes. -/
def frozenRuntime : SourceRuntime := authority.inner.runtime.granted live ⟨process.nextIdentity⟩

/-- The grant behind an acquisition. -/
def acquiredGrant : CurrentMutationGrantAuthority where
  authority := ⟨live.generation, live.binding, authority.inner.runtime.mutationEpoch + 1,
    live.publication⟩
  publishedNonCurrent := ⟨⟨process.nextIdentity⟩, authority.inner.runtime.mutationEpoch + 1⟩

/-- The write authority an acquisition returns. -/
def acquiredWrite (opened : Option PhysicalRootAnchor) : WriteAuthority where
  permit :=
    { authority := (authority.acquiredGrant process live).authority
      publishedNonCurrent := (authority.acquiredGrant process live).publishedNonCurrent
      lease := authority.inner.lease.reopened opened
      state := .granted
      drain := ⟨process.nextSignal⟩ }
  frozenPublication := ⟨process.nextIdentity⟩

/-- The publication a permit return installs. -/
def returnedPublication (observerCut : ObserverToken) : CurrentPublication :=
  ⟨⟨process.nextIdentity + 2⟩, ⟨process.nextIdentity + 3⟩,
    ⟨⟨process.nextIdentity⟩, ⟨process.nextRoot⟩⟩, observerCut⟩

variable (authority : ProjectSourceAuthority) (process : Process)
  (expected : Option PublicationIdentity) (opened : Option PhysicalRootAnchor)

/-- An acquisition without the expected publication changes nothing. With it, it is refused its
permit and leaves the source frozen, or hands out a write authority on a source just frozen. -/
theorem acquireWriteIfPublication_cases :
    ((∀ live, authority.inner.runtime.phase = .current live →
        ∃ presented, expected = some presented ∧ presented ≠ live.publication) ∧
      ∃ refusal, authority.acquireWriteIfPublication process expected opened =
        (.error refusal, process, authority)) ∨
    ∃ live, authority.inner.runtime.phase = .current live ∧
      (∀ presented, expected = some presented → presented = live.publication) ∧
      ((¬ authority.Permitted process live ∧ ∃ refusal,
        authority.acquireWriteIfPublication process expected opened =
          (.error refusal, process.afterFreezing,
            { authority with inner.runtime := authority.frozenRuntime process live })) ∨
      (authority.Permitted process live ∧
        authority.acquireWriteIfPublication process expected opened =
          (.ok (authority.acquiredWrite process live opened), process.afterAcquiring,
            { authority with inner := ⟨authority.frozenRuntime process live,
                authority.inner.lease.reopened opened, ⟨process.nextSignal⟩⟩ }))) := by
  unfold acquireWriteIfPublication
  cases found : authority.inner.runtime.livePublication with
  | none =>
    refine .inl ⟨fun live phase => ?_, _, rfl⟩
    cases found.symm.trans (livePublication_eq_some.mpr phase)
  | some live =>
    have phase := livePublication_eq_some.mp found
    by_cases mismatch : expected.any (· ≠ live.publication) = true
    · refine .inl ⟨fun other current => ?_, _, by simp only [mismatch, if_true]; rfl⟩
      cases phase.symm.trans current
      simpa [Option.any_eq_true] using mismatch
    refine .inr ⟨_, phase, ?_, ?_⟩
    · rintro presented rfl
      simpa using mismatch
    simp only [mismatch, requestMutationGrant_current _ phase, newSignal]
    by_cases permitted : authority.Permitted process live
    · have granted := SourceMutationPermit.grant_ok process.afterFreezing
        (authority.acquiredGrant process live) (authority.inner.lease.reopened opened)
        ⟨process.nextSignal⟩ permitted
      simp only [afterFreezing, acquiredGrant] at granted
      exact .inr ⟨permitted, by rw [granted]; rfl⟩
    · obtain ⟨refusal, refused⟩ := SourceMutationPermit.grant_refused process.afterFreezing
        (authority.acquiredGrant _ live) (authority.inner.lease.reopened opened)
        ⟨process.nextSignal⟩ permitted
      simp only [afterFreezing, acquiredGrant] at refused
      exact .inl ⟨permitted, refusal, by rw [refused]; rfl⟩

/-- Nothing of the source has changed: its phase, its epoch, its grant count, its lease and what its
drain signal says. -/
structure Untouched (after : Process) (result : ProjectSourceAuthority) : Prop where
  inner : result.inner = authority.inner
  lease : after.leaseLive authority.inner.lease.identity =
    process.leaseLive authority.inner.lease.identity
  signal : after.signals authority.inner.outstanding =
    process.signals authority.inner.outstanding

/-- A refused acquisition leaves no trace exactly where one that gets as far as the grant is also
given its permit. -/
theorem refused_acquisition_untouched_iff :
    (∀ refusal after result, authority.acquireWriteIfPublication process expected opened =
      (.error refusal, after, result) → authority.Untouched process after result) ↔
    ∀ live, authority.inner.runtime.phase = .current live →
      (∀ presented, expected = some presented → presented = live.publication) →
      authority.Permitted process live := by
  constructor
  · intro untouched live phase agrees
    obtain ⟨mismatch, -⟩ | ⟨other, current, -, ⟨-, refusal, refused⟩ | ⟨permitted, -⟩⟩ :=
      authority.acquireWriteIfPublication_cases _ _ _
    · obtain ⟨presented, isExpected, differs⟩ := mismatch _ phase
      exact absurd (agrees _ isExpected) differs
    · have same := congrArg (·.runtime.phase) (untouched _ _ _ refused).inner
      rw [phase] at same
      cases same
    · cases phase.symm.trans current
      exact permitted
  · intro permitted refusal after result refused
    obtain ⟨-, _, unchanged⟩ | ⟨live, phase, agrees, ⟨refusedPermit, -⟩ | ⟨-, acquired⟩⟩ :=
      authority.acquireWriteIfPublication_cases _ _ _
    · rw [unchanged] at refused
      cases refused
      exact ⟨rfl, rfl, rfl⟩
    · exact absurd (permitted _ phase agrees) refusedPermit
    · rw [acquired] at refused
      cases refused

/-- On a revoked lease the permit is refused and the source stays frozen behind it. -/
theorem revoked_acquisition_freezes :
    let made := forRoot .initial "/repo" (some ⟨1, 1⟩)
    let acquired := made.1.acquireWriteIfPublication (made.1.revokeForReplacement made.2) none
      (some ⟨1, 1⟩)
    acquired.1 = .error .physicalRootReplaced ∧ made.1.isCurrent = true ∧
      acquired.2.2.isCurrent = false ∧ acquired.2.2.inner.runtime.grantsIssued = 1 := by
  decide

/-- Once the permit has ended, a return retires it, installs a fresh publication on a fresh lease,
and revokes the old lease. -/
theorem returnInner_ended {frozen : PublicationIdentity} {observerCut : ObserverToken}
    {retained : GenerationIdentity} {binding : BindingAuthority} {observerPhase : ObserverPhase}
    {work : NonCurrentWork}
    (phase : authority.inner.runtime.phase =
      .refreshing retained binding frozen observerPhase ⟨[frozen], true⟩ work)
    (ended : (process.signals authority.inner.outstanding).hasEnded = true) :
    authority.returnInner process frozen observerCut =
      (.ok (), process.afterReturning authority.inner.lease.identity, { authority with inner :=
          ⟨⟨.current (returnedPublication process observerCut),
              authority.inner.runtime.mutationEpoch + 1, authority.inner.runtime.grantsIssued⟩,
            ⟨⟨process.nextRoot⟩, authority.root, none⟩, authority.inner.outstanding⟩ }) := by
  have retire : authority.inner.runtime.retirePermit frozen = (true, { authority.inner.runtime with
      phase := .refreshing retained binding frozen observerPhase ⟨[], true⟩ work }) := by
    simp [retirePermit, phase, ActivePermits.retire]
  simp only [returnInner, retire, PhysicalRootLease.take, mintRoot,
    PhysicalRootLease.parked, BindingAuthority.bind, mintIdentity]
  have found : frozenParts
      (.refreshing retained binding frozen observerPhase ⟨[], true⟩ work) =
      some ⟨retained, binding, observerPhase, ⟨[], true⟩, work⟩ := rfl
  rw [applyTransition_drained _ _ _ _ _ _ _ found]
  · rfl
  · simp [drained, activePermits, ActivePermits.isDrained, ended]

end ProjectSourceAuthority

namespace WriteAuthority

/-- Using a write authority changes at most its permit's state, and not to a terminal one. -/
theorem beginSideEffect_permit (write : WriteAuthority) (process : Process) :
    (write.beginSideEffect process).2.permit = write.permit ∨
      (write.beginSideEffect process).2.permit = { write.permit with state := .inFlight } := by
  have moved := write.permit.startSideEffect_permit process
  unfold beginSideEffect
  split
  · rename_i permit started
    rw [started] at moved
    exact moved
  · rename_i result permit _ started
    rw [started] at moved
    exact moved

/-- `write` uses the permit as `begin_delegated` does, whatever the disk answers. -/
theorem write_permit (write : WriteAuthority) (process : Process) (target : String)
    (disk : Except RootRefusal Unit) :
    (write.write process target disk).2 = (write.beginSideEffect process).2 := by
  unfold WriteAuthority.write
  split
  · rename_i started
    rw [started]
  · rename_i started
    rw [started]

end WriteAuthority

namespace ObservationLane

/-- An observation, attributed or not, leaves the slot alone. -/
theorem attributed_slot (lane : ObservationLane) (observer : ObserverId)
    (change : ObservationLane → ObservationLane) (kept : (change lane).slot = lane.slot) :
    (lane.attributed observer change).2.slot = lane.slot := by
  unfold attributed
  split
  · rfl
  · exact kept

/-- A registration succeeds whenever no handoff is in progress, and completes its own. -/
theorem registerObserver_idle {lane : ObservationLane} (process : Process)
    (idle : lane.slot.pendingSuccessor = none) :
    ∃ registered, registered.slot.pendingSuccessor = none ∧
      lane.registerObserver process = some (⟨lane.nextObserver + 1⟩, registered,
        { process with nextIdentity := process.nextIdentity + 1 }) := by
  refine ⟨_, ?_, by
    simp only [registerObserver, beginHandoff, idle, deliverPending,
      completeHandoff, mintIdentity, List.isEmpty_nil, if_true]
    rfl⟩
  rfl

end ObservationLane

end Symforge.Lifecycle
