import Symforge.Lifecycle.PhysicalRoot

/-!
# Mutation permits

Model of `index_lifecycle/mutation.rs`: a permit is consumed out of a grant, begins
one side effect, and ends once, by a commit, by the observation that it never began,
or by being dropped. Its source sees the end through the shared drain signal.
-/

namespace Symforge.Lifecycle

/-- `mutation::PermitState`. -/
inductive PermitState where
  | granted
  | inFlight
  | terminal (termination : Termination)
deriving DecidableEq, Repr

/-- `mutation::RefreshTicket`. -/
structure RefreshTicket where
  /-- The epoch the source must rebuild past. -/
  epoch : Nat
  termination : Termination
deriving DecidableEq, Repr

/-- `mutation::SourceMutationPermit`. -/
structure SourceMutationPermit where
  /-- What the grant allowed. -/
  authority : MutationAuthority
  /-- The publication that froze the source. -/
  publishedNonCurrent : NonCurrentPublicationProof
  /-- The lease the permit writes through. -/
  lease : PhysicalRootLease
  state : PermitState
  /-- The signal its source waits on. -/
  drain : SignalId
deriving DecidableEq, Repr

namespace SourceMutationPermit

/-- `SourceMutationPermit::grant` — the three checks in order, then the signal is armed. -/
def grant (process : Process) (grant : CurrentMutationGrantAuthority)
    (lease : PhysicalRootLease) (drain : SignalId) :
    Except AuthorityRefusal SourceMutationPermit × Process :=
  if grant.authority.binding.physicalRoot ≠ lease.identity then
    (.error .wholeAuthorityMismatch, process)
  else if !process.bindingLive grant.authority.binding.identity then
    (.error (.bindingRevoked grant.authority.binding.identity), process)
  else if !lease.isLive process then (.error .physicalRootReplaced, process)
  else
    (.ok ⟨grant.authority, grant.publishedNonCurrent, lease, .granted, drain⟩,
      process.updateSignal drain PermitDrainSignal.arm)

variable (permit : SourceMutationPermit) (process : Process)

/-- `SourceMutationPermit::start_side_effect`. -/
def startSideEffect : Except AuthorityRefusal Unit × SourceMutationPermit :=
  match permit.state with
  | .terminal _ => (.error .permitAlreadyTerminal, permit)
  | .inFlight => (.error .sideEffectAlreadyInFlight, permit)
  | .granted =>
    if !permit.lease.isLive process then (.error .physicalRootReplaced, permit)
    else (.ok (), { permit with state := .inFlight })

/-- `SourceMutationPermit::replace_beneath` and `replace_owner_only_beneath`. -/
def replaceBeneath (target : String)
    (disk : Except RootRefusal Unit) : Except AuthorityRefusal WriteReceipt :=
  if permit.state ≠ .inFlight then .error .permitAlreadyTerminal
  else (Lifecycle.replaceBeneath process permit.lease target disk).mapError AuthorityRefusal.ofRoot

/-- `SourceMutationPermit::finish`. -/
def finish (termination : Termination) : RefreshTicket × SourceMutationPermit × Process :=
  (⟨permit.authority.epoch, termination⟩, { permit with state := .terminal termination },
    process.updateSignal permit.drain (·.record termination))

/-- `SourceMutationPermit::commit`. -/
def commit (receipt : WriteReceipt) :
    Except AuthorityRefusal RefreshTicket × SourceMutationPermit × Process :=
  if permit.state ≠ .inFlight then (.error .permitAlreadyTerminal, permit, process)
  else if receipt.lease ≠ permit.lease.identity then
    (.error .wholeAuthorityMismatch, permit, process)
  else
    let (ticket, permit, process) := permit.finish process .committed
    (.ok ticket, permit, process)

/-- `SourceMutationPermit::no_side_effect`. -/
def noSideEffect : Except AuthorityRefusal RefreshTicket × SourceMutationPermit × Process :=
  match permit.state with
  | .terminal _ => (.error .permitAlreadyTerminal, permit, process)
  | .inFlight => (.error .sideEffectAlreadyInFlight, permit, process)
  | .granted =>
    let (ticket, permit, process) := permit.finish process .noSideEffect
    (.ok ticket, permit, process)

/-- `Drop for SourceMutationPermit` — a permit that has not ended is recorded as drained. -/
def drop : Process :=
  match permit.state with
  | .terminal _ => process
  | _ => process.updateSignal permit.drain (·.record .drained)

/-! ## What each operation can do -/

/-- The three checks of `SourceMutationPermit::grant`. -/
def Grantable (grant : CurrentMutationGrantAuthority) (lease : PhysicalRootLease) : Prop :=
  grant.authority.binding.physicalRoot = lease.identity ∧
    process.bindingLive grant.authority.binding.identity = true ∧
    process.leaseLive lease.identity = true

variable (permit : SourceMutationPermit) (process : Process)
  (grant : CurrentMutationGrantAuthority) (lease : PhysicalRootLease) (drain : SignalId)

/-- A permit is refused without a trace unless all three checks pass. -/
theorem grant_refused (refused : ¬ Grantable process grant lease) :
    ∃ refusal,
      SourceMutationPermit.grant process grant lease drain = (.error refusal, process) := by
  unfold SourceMutationPermit.grant
  split
  · exact ⟨_, rfl⟩
  rename_i pinned
  split
  · exact ⟨_, rfl⟩
  rename_i bound
  split
  · exact ⟨_, rfl⟩
  rename_i live
  exact absurd ⟨by simpa using pinned, by simpa using bound,
    by simpa [PhysicalRootLease.isLive] using live⟩ refused

/-- A permit that passes the checks arms its signal. -/
theorem grant_ok (granted : Grantable process grant lease) :
    SourceMutationPermit.grant process grant lease drain =
      (.ok ⟨grant.authority, grant.publishedNonCurrent, lease, .granted, drain⟩,
        process.updateSignal drain PermitDrainSignal.arm) := by
  obtain ⟨pinned, bound, live⟩ := granted
  simp [SourceMutationPermit.grant, pinned, bound, PhysicalRootLease.isLive, live]

/-- The permit has not reached a terminal state. -/
def Open : Prop := ∀ termination, permit.state ≠ .terminal termination

/-- Dropping an open permit records that it was drained. -/
theorem drop_open {permit : SourceMutationPermit} (isOpen : permit.Open) :
    permit.drop process = process.updateSignal permit.drain (·.record .drained) := by
  unfold drop
  split
  · exact absurd (by assumption) (isOpen _)
  · rfl

/-- Dropping a permit that has ended does nothing. -/
theorem drop_finish (termination : Termination) :
    (permit.finish process termination).2.1.drop (permit.finish process termination).2.2 =
      process.updateSignal permit.drain (·.record termination) := rfl

/-- A commit ends the permit, or refuses and leaves it as it was. -/
theorem commit_cases (receipt : WriteReceipt) :
    (∃ refusal, permit.commit process receipt = (.error refusal, permit, process)) ∨
    ∃ ticket, permit.commit process receipt =
      (.ok ticket, (permit.finish process .committed).2) := by
  unfold commit
  split
  · exact .inl ⟨_, rfl⟩
  split
  · exact .inl ⟨_, rfl⟩
  · exact .inr ⟨_, rfl⟩

/-- The no-side-effect ending ends the permit, or refuses and leaves it as it was. -/
theorem noSideEffect_cases :
    (∃ refusal, permit.noSideEffect process = (.error refusal, permit, process)) ∨
    ∃ ticket, permit.noSideEffect process =
      (.ok ticket, (permit.finish process .noSideEffect).2) := by
  unfold noSideEffect
  split
  · exact .inl ⟨_, rfl⟩
  · exact .inl ⟨_, rfl⟩
  · exact .inr ⟨_, rfl⟩

/-- Beginning the side effect moves only the permit's state, and never to a terminal one. -/
theorem startSideEffect_permit :
    (permit.startSideEffect process).2 = permit ∨
      (permit.startSideEffect process).2 = { permit with state := .inFlight } := by
  unfold startSideEffect
  split
  · exact .inl rfl
  · exact .inl rfl
  split
  · exact .inl rfl
  · exact .inr rfl

end SourceMutationPermit

end Symforge.Lifecycle
