import Symforge.Lifecycle.WriteCell

/-!
# What holds of an authority between critical sections

The invariant ties source phase, permit record, drain signal and lease together in three situations:
idle and current, busy with exactly one write authority whose freeze is the only permit, or stuck
after an acquisition that was refused its permit. Every critical section is brought to one of eight
effects, and each property of a step is then read off the effects.
-/

namespace Symforge.Lifecycle

open Option Function SourceCell Process ProjectSourceAuthority ObservationLane PermitDrainSignal

/-- Revocation flags are only set on leases and bindings that exist. -/
structure Process.Sane (process : Process) : Prop where
  /-- Revoked leases were taken. -/
  leases : ∀ lease ∈ process.revokedLeases, lease.raw < process.nextRoot
  /-- Revoked bindings were made. -/
  bindings : ∀ binding ∈ process.revokedBindings, binding.raw < process.nextIdentity

/-- What the drain signal of the cycle says at each stage of its write authority. -/
def StageSignal (process : Process) (inner : AuthorityInner) : WriteStage → Prop
  | .held permit => permit.drain = inner.outstanding ∧ permit.lease = inner.lease ∧ permit.Open ∧
      (process.signals inner.outstanding).termination = none
  | _ => (process.signals inner.outstanding).hasEnded = true

/-- The three situations an authority can be in. -/
inductive CellShape (process : Process) (cell : SourceCell) : Prop where
  /-- No write authority is outstanding and the source is current. -/
  | idle (live : CurrentPublication) (none : cell.writes = [])
      (phase : cell.authority.inner.runtime.phase = .current live)
      (pinned : live.binding.physicalRoot = cell.authority.inner.lease.identity)
      (bound : process.bindingLive live.binding.identity = true)
      (bindingMinted : live.binding.identity.raw < process.nextIdentity)
      (minted : live.publication.raw < process.nextIdentity)
  /-- One write authority is outstanding; its freeze is the source's only permit. -/
  | busy (write : WriteHandle) (retained : GenerationIdentity) (binding : BindingAuthority)
      (observerPhase : ObserverPhase) (work : NonCurrentWork) (one : cell.writes = [write])
      (phase : cell.authority.inner.runtime.phase = .refreshing retained binding
        write.frozenPublication observerPhase ⟨[write.frozenPublication], true⟩ work)
      (signal : StageSignal process cell.authority.inner write.stage)
  /-- An acquisition froze the source and was refused its permit because the lease is revoked. -/
  | stuck (none : cell.writes = [])
      (phase : cell.authority.inner.runtime.phase.name = .refreshing)
      (revoked : process.leaseLive cell.authority.inner.lease.identity = false)

/-- What holds of an authority between critical sections. -/
structure CellInv (process : Process) (cell : SourceCell) : Prop where
  shape : CellShape process cell
  leaseTaken : cell.authority.inner.lease.identity.raw < process.nextRoot
  signalAllocated : cell.authority.inner.outstanding.raw < process.nextSignal
  /-- No handoff is left half done. -/
  settled : cell.authority.lane.slot.pendingSuccessor = none

/-- One of the write authorities has the directory open. -/
def SourceCell.Holds (cell : SourceCell) (directory : PhysicalRootAnchor) : Prop :=
  ∃ write ∈ cell.writes, ∃ permit, write.stage = .held permit ∧ permit.lease.dir = some directory

/-- The effect of one critical section on a cell that satisfies the invariant. -/
inductive CellEffect (process : Process) (cell : SourceCell) (action : WriteAction) :
    Process → SourceCell → Prop where
  /-- A refusal without a trace. -/
  | unchanged : CellEffect process cell action process cell
  /-- A registry lookup noted whether the path was absent. -/
  | noted (absent : Bool) : CellEffect process cell action process
      { cell with authority.pathAbsentPending := absent }
  /-- Only the lane changed; a registration draws its token. -/
  | observed (drawn : Nat) (lane : ObservationLane) (settled : lane.slot.pendingSuccessor = none) :
      CellEffect process cell action { process with nextIdentity := process.nextIdentity + drawn }
        (cell.withLane lane)
  /-- An acquisition froze the source and was refused its permit. -/
  | starved (live : CurrentPublication) (none : cell.writes = [])
      (phase : cell.authority.inner.runtime.phase = .current live)
      (refused : ¬ cell.authority.Permitted process live) :
      CellEffect process cell action process.afterFreezing { cell with
        authority.inner.runtime := cell.authority.frozenRuntime process live }
  /-- An acquisition handed out a write authority. -/
  | acquired (live : CurrentPublication) (opened : Option PhysicalRootAnchor)
      (none : cell.writes = []) (phase : cell.authority.inner.runtime.phase = .current live)
      (permitted : cell.authority.Permitted process live)
      (asked : ∃ expected, action = .acquire expected opened) :
      CellEffect process cell action process.afterAcquiring
        { authority := { cell.authority with inner :=
            ⟨cell.authority.frozenRuntime process live,
              cell.authority.inner.lease.reopened opened, ⟨process.nextSignal⟩⟩ }
          nextHandle := cell.nextHandle + 1
          writes := [⟨cell.nextHandle, ⟨process.nextIdentity⟩,
            .held (cell.authority.acquiredWrite process live opened).permit⟩] }
  /-- The held permit was used. -/
  | used (write : WriteHandle) (permit next : SourceMutationPermit) (one : cell.writes = [write])
      (held : write.stage = .held permit)
      (same : next = permit ∨ next = { permit with state := .inFlight }) :
      CellEffect process cell action process
        { cell with writes := [{ write with stage := .held next }] }
  /-- The held permit ended and its owner is on a terminal path. -/
  | ended (write : WriteHandle) (permit : SourceMutationPermit) (termination : Termination)
      (stage : WriteStage) (one : cell.writes = [write]) (held : write.stage = .held permit)
      (path : stage = .returning ∨ stage = .recovering) :
      CellEffect process cell action (process.updateSignal permit.drain (·.record termination))
        { cell with writes := [{ write with stage }] }
  /-- A terminal path ran one of its critical sections on the lane. -/
  | moved (write : WriteHandle) (lane : ObservationLane) (stage : WriteStage)
      (one : cell.writes = [write]) (settled : lane.slot.pendingSuccessor = none)
      (path : write.stage = .recovering ∧ stage = .returning ∨
        write.stage = .returning ∧ ∃ observerCut, stage = .reconciling observerCut) :
      CellEffect process cell action process
        { cell.withLane lane with writes := [{ write with stage }] }
  /-- A terminal path returned the source to current. -/
  | returned (write : WriteHandle) (observerCut : ObserverToken) (one : cell.writes = [write])
      (path : write.stage = .reconciling observerCut) :
      CellEffect process cell action (process.afterReturning cell.authority.inner.lease.identity)
        { cell with
          authority := { cell.authority with inner :=
            ⟨⟨.current (returnedPublication process observerCut),
                cell.authority.inner.runtime.mutationEpoch + 1,
                cell.authority.inner.runtime.grantsIssued⟩,
              ⟨⟨process.nextRoot⟩, cell.authority.root, none⟩, cell.authority.inner.outstanding⟩ }
          writes := [] }

namespace SourceCell

variable {process : Process} {cell : SourceCell}
  {handle : Nat} {write : WriteHandle} {permit : SourceMutationPermit}

/-- With one write authority outstanding, that one holds the open directory. -/
theorem holds_single {directory : PhysicalRootAnchor} (one : cell.writes = [write]) :
    cell.Holds directory ↔
      ∃ permit, write.stage = .held permit ∧ permit.lease.dir = some directory := by
  simp [Holds, one, exists_eq_left]

/-- Only the named write authority changes its stage. -/
theorem setStage_single (cell : SourceCell) (stage : WriteStage) (one : cell.writes = [write])
    (named : write.handle = handle) :
    cell.setStage handle stage = { cell with writes := [{ write with stage }] } := by
  simp [setStage, one, named]

/-- Only the named write authority is removed. -/
theorem remove_single (cell : SourceCell) (one : cell.writes = [write])
    (named : write.handle = handle) :
    cell.remove handle = { cell with writes := [] } := by
  simp [remove, one, named]

/-- The write authority is the only one, and its freeze is the source's only permit. -/
def BusyWith (process : Process) (cell : SourceCell) (write : WriteHandle) : Prop :=
  cell.writes = [write] ∧ StageSignal process cell.authority.inner write.stage ∧
    ∃ retained binding observerPhase work, cell.authority.inner.runtime.phase = .refreshing retained
      binding write.frozenPublication observerPhase ⟨[write.frozenPublication], true⟩ work

section Effects

variable (shape : CellShape process cell)

include shape

/-- An outstanding write authority makes the cell busy with it. -/
theorem busy_of_mem (outstanding : write ∈ cell.writes) : BusyWith process cell write := by
  cases shape with
  | idle live none | stuck none =>
    rw [none] at outstanding
    cases outstanding
  | busy other retained binding observerPhase work one phase signal =>
    rw [one, List.mem_singleton] at outstanding
    subst outstanding
    exact ⟨one, signal, _, _, _, _, phase⟩

/-- A write authority that can be found makes the cell busy with it. -/
theorem busy_of_find (looked : cell.find handle = some write) :
    BusyWith process cell write ∧ write.handle = handle :=
  ⟨busy_of_mem shape (List.mem_of_find?_eq_some looked), by simpa using List.find?_some looked⟩

/-- A held permit belongs to the one outstanding write authority. -/
theorem held_of_heldPermit (looked : cell.heldPermit handle = some permit) :
    ∃ write, cell.writes = [write] ∧ write.handle = handle ∧ write.stage = .held permit ∧
      permit.Open := by
  unfold heldPermit at looked
  split at looked
  · rename_i named frozen held found
    cases looked
    obtain ⟨⟨one, signal, -⟩, same⟩ := busy_of_find shape found
    exact ⟨_, one, same, rfl, signal.2.2.1⟩
  · cases looked

variable {after : Process} {next : SourceCell} {action : WriteAction}

/-- A current phase is only found in an idle cell. -/
theorem idle_of_current {live : CurrentPublication}
    (phase : cell.authority.inner.runtime.phase = .current live) : cell.writes = [] := by
  cases shape with
  | idle _ none | stuck none => exact none
  | busy _ _ _ _ _ _ other =>
    rw [phase] at other
    cases other

/-- The effect of an acquisition. -/
theorem acquire_effect (expected : Option PublicationIdentity)
    (opened : Option PhysicalRootAnchor) :
    CellEffect process cell (.acquire expected opened) (cell.acquire process expected opened).1
      (cell.acquire process expected opened).2 := by
  obtain ⟨-, _, refused⟩ | ⟨live, phase, -, ⟨denied, _, frozen⟩ | ⟨permitted, acquired⟩⟩ :=
    cell.authority.acquireWriteIfPublication_cases process expected opened
  · simp only [acquire, refused]
    exact .unchanged
  · simp only [acquire, frozen]
    exact .starved _ (idle_of_current shape phase) phase denied
  have none := idle_of_current shape phase
  simp only [acquire, acquired, none, List.nil_append]
  exact .acquired _ opened none phase permitted ⟨_, rfl⟩

/-- The effect of using a held permit, for a use that leaves the permit open. -/
theorem usePermit_effect {handle : Nat} {use : WriteAuthority → WriteAuthority}
    (mild : ∀ write, (use write).permit = write.permit ∨
      (use write).permit = { write.permit with state := .inFlight })
    (taken : cell.usePermit process handle use = some (after, next)) :
    CellEffect process cell action after next := by
  obtain ⟨write, looked, used⟩ := bind_eq_some_iff.mp taken
  obtain ⟨⟨one, -⟩, named⟩ := busy_of_find shape looked
  split at used
  · rename_i permit held
    cases used
    rw [setStage_single _ _ one named]
    exact .used _ _ _ one held (mild ⟨_, write.frozenPublication⟩)
  · cases used

/-- The effect of a terminal path up to its first lock, for an ending that finishes the permit or
refuses. -/
theorem finish_effect {termination : Termination}
    {ending : SourceMutationPermit → Except AuthorityRefusal RefreshTicket ×
      SourceMutationPermit × Process}
    (ends : ∀ permit, (∃ refusal, ending permit = (.error refusal, permit, process)) ∨
      ∃ ticket, ending permit = (.ok ticket, (permit.finish process termination).2))
    (taken : cell.finish handle ending = some (after, next)) :
    CellEffect process cell action after next := by
  obtain ⟨permit, looked, finished⟩ := map_eq_some_iff.mp taken
  obtain ⟨write, one, named, held, isOpen⟩ := held_of_heldPermit shape looked
  obtain ⟨refusal, refused⟩ | ⟨ticket, done⟩ := ends permit
  · simp only [refused, permit.drop_open process isOpen] at finished
    cases finished
    rw [setStage_single _ _ one named]
    exact .ended _ permit .drained .recovering one held (.inr rfl)
  · simp only [done, permit.drop_finish process termination] at finished
    cases finished
    rw [setStage_single _ _ one named]
    exact .ended _ _ _ .returning one held (.inl rfl)

end Effects

/-- The effect of the next critical section of a terminal path. -/
theorem advance_effect (inv : CellInv process cell)
    (taken : cell.advance process handle = some (after, next)) :
    CellEffect process cell action after next := by
  unfold advance at taken
  split at taken
  · rename_i looked
    obtain ⟨⟨one, -⟩, named⟩ := busy_of_find inv.shape looked
    cases taken
    rw [setStage_single (cell.withLane cell.authority.lane.latchScopeDirty) _ one named]
    exact .moved _ _ _ one inv.settled (.inl ⟨rfl, rfl⟩)
  · rename_i looked
    obtain ⟨⟨one, -⟩, named⟩ := busy_of_find inv.shape looked
    cases taken
    rw [setStage_single (cell.withLane cell.authority.lane.consumeCut.2) _ one named]
    exact .moved _ _ _ one inv.settled (.inr ⟨rfl, _, rfl⟩)
  · rename_i frozen observerCut looked
    obtain ⟨⟨one, signal, retained, binding, observerPhase, work, phase⟩, named⟩ :=
      busy_of_find inv.shape looked
    cases taken
    rw [remove_single { cell with
      authority := (cell.authority.returnInner process frozen observerCut).2.2 } one named,
      cell.authority.returnInner_ended _ phase signal]
    exact .returned _ _ one rfl
  · cases taken

/-- Every critical section has one of the effects. -/
theorem step_effect (inv : CellInv process cell)
    (taken : cell.step process action = some (after, next)) :
    CellEffect process cell action after next := by
  cases action with
  | acquire expected opened =>
    have effect := acquire_effect inv.shape expected opened
    rw [some.inj taken] at effect
    exact effect
  | write handle target disk =>
    rw [step] at taken
    refine usePermit_effect inv.shape (fun write => ?_) taken
    rw [write.write_permit process target disk]
    exact write.beginSideEffect_permit _
  | beginDelegated handle =>
    rw [step] at taken
    exact usePermit_effect inv.shape (fun write => write.beginSideEffect_permit _) taken
  | attestDelegated handle target disk =>
    rw [step] at taken
    exact usePermit_effect inv.shape (fun write => .inl rfl) taken
  | finishCommitted handle receipt =>
    rw [step] at taken
    exact finish_effect inv.shape (fun permit => permit.commit_cases _ receipt) taken
  | finishNoSideEffect handle =>
    rw [step] at taken
    exact finish_effect inv.shape (fun permit => permit.noSideEffect_cases _) taken
  | drop handle =>
    rw [step] at taken
    obtain ⟨permit, looked, dropped⟩ := map_eq_some_iff.mp taken
    obtain ⟨write, one, named, held, isOpen⟩ := held_of_heldPermit inv.shape looked
    rw [permit.drop_open process isOpen] at dropped
    cases dropped
    rw [setStage_single cell _ one named]
    exact .ended _ permit .drained .recovering one held (.inr rfl)
  | advance handle =>
    rw [step] at taken
    exact advance_effect inv taken
  | registerObserver =>
    obtain ⟨registered, settled, done⟩ :=
      cell.authority.lane.registerObserver_idle process inv.settled
    simp only [step, done, map_some] at taken
    cases taken
    exact .observed 1 registered settled
  | observeAdmission observer source committed | observeRemoval observer source
  | reportGap observer =>
    cases taken
    refine .observed 0 _ ?_
    simp only [observeAdmission, observeRemoval, reportGap]
    rw [attributed_slot _ _ _ rfl]
    exact inv.settled
  | observeAdmissionActive source committed | observeRemovalActive source =>
    cases taken
    exact .observed 0 _ inv.settled

end SourceCell

/-- A recorded signal counts as ended. -/
theorem PermitDrainSignal.hasEnded_record {signal : PermitDrainSignal} (termination : Termination)
    (fresh : signal.termination = none) : (signal.record termination).hasEnded = true := by
  simp [record, fresh, hasEnded]

variable {process : Process}

/-- The next lease has not been revoked. -/
theorem Process.Sane.leaseLive_fresh (sane : process.Sane) :
    process.leaseLive ⟨process.nextRoot⟩ = true := by
  rw [leaseLive, Bool.not_eq_true', List.contains_eq_mem, decide_eq_false_iff_not]
  intro member
  exact absurd (sane.leases _ member) (Nat.lt_irrefl _)

/-- The lease a permit return takes is live. -/
theorem Process.Sane.leaseLive_next (sane : process.Sane)
    {outgoing : PhysicalRootIdentity} (taken : outgoing.raw < process.nextRoot) :
    (process.afterReturning outgoing).leaseLive ⟨process.nextRoot⟩ = true := by
  have fresh := sane.leaseLive_fresh
  rw [leaseLive, Bool.not_eq_true', List.contains_eq_mem, decide_eq_false_iff_not]
    at fresh ⊢
  intro member
  obtain same | before := List.mem_cons.mp member
  · rw [← same] at taken
    exact absurd taken (Nat.lt_irrefl _)
  · exact fresh before

/-- A binding identity above the counter has not been revoked. -/
theorem Process.Sane.bindingLive_next (sane : process.Sane) :
    process.bindingLive ⟨process.nextIdentity⟩ = true := by
  rw [bindingLive, Bool.not_eq_true', List.contains_eq_mem, decide_eq_false_iff_not]
  intro member
  exact absurd (sane.bindings _ member) (Nat.lt_irrefl _)

/-- A cell keeps its shape when the process keeps its signal, the revoked bindings and its lease. -/
theorem CellShape.frame {after : Process} {cell next : SourceCell}
    (shape : CellShape process cell) (inner : next.authority.inner = cell.authority.inner)
    (writes : next.writes = cell.writes)
    (signal : after.signals cell.authority.inner.outstanding =
      process.signals cell.authority.inner.outstanding)
    (bindings : after.revokedBindings = process.revokedBindings)
    (counter : process.nextIdentity ≤ after.nextIdentity)
    (revoked : process.leaseLive cell.authority.inner.lease.identity = false →
      after.leaseLive cell.authority.inner.lease.identity = false) : CellShape after next := by
  cases shape with
  | idle live none phase pinned bound bindingMinted minted =>
    refine .idle _ (writes ▸ none) (inner ▸ phase) (inner ▸ pinned) ?_
      (Nat.lt_of_lt_of_le bindingMinted counter) (Nat.lt_of_lt_of_le minted counter)
    rw [bindingLive, bindings]
    exact bound
  | busy write retained binding observerPhase work one phase held =>
    refine .busy _ _ _ _ _ (writes ▸ one) (inner ▸ phase) ?_
    rw [inner]
    cases stage : write.stage with
    | held permit =>
      rw [stage] at held
      exact ⟨held.1, held.2.1, held.2.2.1, by rw [signal]; exact held.2.2.2⟩
    | _ =>
      rw [stage] at held
      exact (congrArg hasEnded signal).trans held
  | stuck none phase dead =>
    refine .stuck (writes ▸ none) (inner ▸ phase) ?_
    rw [inner]
    exact revoked dead

section Construction

variable {process : Process} (sane : process.Sane) (root : RootPath)
  (observed : Option PhysicalRootAnchor)
include sane

/-- Making an authority keeps the revocation flags within the counters. -/
theorem Process.Sane.forRoot : (forRoot process root observed).2.Sane := by
  refine ⟨fun lease member => ?_, fun binding member => ?_⟩
  · exact Nat.lt_succ_of_lt (sane.leases _ member)
  · exact Nat.lt_of_lt_of_le (sane.bindings _ member) (Nat.le_add_right _ 4)

/-- A new authority is idle. -/
theorem CellInv.forRoot :
    CellInv (forRoot process root observed).2
      ⟨(forRoot process root observed).1, 0, []⟩ := by
  refine ⟨.idle _ rfl rfl rfl sane.bindingLive_next ?_ ?_, Nat.lt_succ_self _, Nat.lt_succ_self _,
    rfl⟩
  · exact Nat.lt_add_of_pos_right (by decide : 0 < 4)
  show process.nextIdentity + 2 < process.nextIdentity + 4
  omega

end Construction

namespace CellEffect

variable {process after : Process} {cell next : SourceCell} {action : WriteAction}

section Effect

variable (effect : CellEffect process cell action after next)

include effect

/-- The counters never go back. -/
theorem counters :
    process.nextIdentity ≤ after.nextIdentity ∧ process.nextRoot ≤ after.nextRoot ∧
      process.nextSignal ≤ after.nextSignal := by
  cases effect with
  | unchanged | noted | observed | used | moved => simp
  | starved => simp [afterFreezing]
  | acquired => simp [afterAcquiring, afterFreezing, updateSignal]
  | ended => simp [updateSignal]
  | returned => simp [afterReturning]

/-- No critical section revokes a binding, or another lease than a permit return replaces. -/
theorem revocations :
    after.revokedBindings = process.revokedBindings ∧
      (after.revokedLeases = process.revokedLeases ∨
        after.revokedLeases = cell.authority.inner.lease.identity :: process.revokedLeases) := by
  cases effect with
  | returned => exact ⟨rfl, .inr rfl⟩
  | _ => exact ⟨rfl, .inl rfl⟩

/-- A revoked lease stays revoked. -/
theorem revoked_stays {lease : PhysicalRootIdentity} (revoked : process.leaseLive lease = false) :
    after.leaseLive lease = false := by
  rw [leaseLive, Bool.not_eq_false', List.contains_eq_mem, decide_eq_true_eq] at revoked ⊢
  obtain same | added := effect.revocations.2
  · exact same ▸ revoked
  rw [added]
  exact List.mem_cons_of_mem _ revoked

/-- Critical sections keep the revocation flags within the counters. -/
theorem sane (sane : process.Sane) (inv : CellInv process cell) : after.Sane := by
  obtain ⟨identities, roots, -⟩ := effect.counters
  obtain ⟨bindings, leases⟩ := effect.revocations
  refine ⟨fun lease member => Nat.lt_of_lt_of_le ?_ roots, fun binding member => ?_⟩
  · obtain same | added := leases
    · exact sane.leases _ (same ▸ member)
    rw [added, List.mem_cons] at member
    obtain rfl | before := member
    · exact inv.leaseTaken
    · exact sane.leases _ before
  · rw [bindings] at member
    exact Nat.lt_of_lt_of_le (sane.bindings _ member) identities

/-- The publication that is current after a critical section was so before, or was drawn by it. -/
theorem publication {publication : PublicationIdentity}
    (current : next.authority.currentPublication = some publication) :
    cell.authority.currentPublication = some publication ∨
      process.nextIdentity ≤ publication.raw := by
  cases effect with
  | unchanged | noted | observed | used | ended | moved => exact .inl current
  | starved | acquired => cases current
  | returned =>
    cases current
    exact .inr (Nat.le_add_right _ _)

end Effect

/-- Ending the held permit is seen through the signal of its cycle. -/
theorem signal_ended {inner : AuthorityInner} {permit : SourceMutationPermit}
    (termination : Termination) {stage : WriteStage}
    (signal : StageSignal process inner (.held permit))
    (path : stage = .returning ∨ stage = .recovering) :
    StageSignal (process.updateSignal permit.drain (·.record termination)) inner stage := by
  obtain ⟨drains, -, -, fresh⟩ := signal
  have ended : ((process.updateSignal permit.drain (·.record termination)).signals
      inner.outstanding).hasEnded = true := by
    rw [← drains] at fresh ⊢
    simp only [updateSignal, update_self]
    exact hasEnded_record _ fresh
  obtain rfl | rfl := path
  · exact ended
  · exact ended

section Shape

variable (effect : CellEffect process cell action after next)

include effect

/-- Every critical section keeps the shape. -/
theorem shape (sane : process.Sane) (inv : CellInv process cell) : CellShape after next := by
  cases effect with
  | unchanged => exact inv.shape
  | noted => exact inv.shape.frame rfl rfl rfl rfl (Nat.le_refl _) id
  | observed drawn lane =>
    exact inv.shape.frame rfl rfl rfl rfl (Nat.le_add_right _ _) id
  | starved live none phase refused =>
    refine .stuck none rfl ?_
    cases inv.shape with
    | idle other _ otherPhase pinned bound =>
      rw [phase] at otherPhase
      cases otherPhase
      by_contra alive
      exact refused ⟨pinned, bound, eq_true_of_ne_false alive⟩
    | busy _ _ _ _ _ _ otherPhase =>
      rw [phase] at otherPhase
      cases otherPhase
    | stuck _ otherPhase dead => exact dead
  | acquired live opened none phase permitted =>
    refine .busy _ live.generation live.binding (.active live.observerCut) .dirty rfl rfl ?_
    refine ⟨rfl, rfl, fun termination => by simp [acquiredWrite], ?_⟩
    simp [afterAcquiring, afterFreezing, updateSignal, arm]
  | used write permit used one held same =>
    obtain ⟨-, signal, retained, binding, observerPhase, work, phase⟩ :=
      busy_of_mem inv.shape (one ▸ List.mem_singleton_self _)
    rw [held] at signal
    refine .busy { write with stage := .held used } _ _ _ _ rfl
      phase ?_
    obtain rfl | rfl := same
    · exact signal
    · exact ⟨signal.1, signal.2.1, fun termination => by simp, signal.2.2.2⟩
  | ended write permit termination stage one held path =>
    obtain ⟨-, signal, retained, binding, observerPhase, work, phase⟩ :=
      busy_of_mem inv.shape (one ▸ List.mem_singleton_self _)
    rw [held] at signal
    exact .busy { write with stage } _ _ _ _ rfl phase
      (signal_ended _ signal path)
  | moved write lane stage one _ path =>
    obtain ⟨-, signal, retained, binding, observerPhase, work, phase⟩ :=
      busy_of_mem inv.shape (one ▸ List.mem_singleton_self _)
    refine .busy { write with stage } _ _ _ _ rfl phase ?_
    obtain ⟨before, rfl⟩ | ⟨before, observerCut, rfl⟩ := path
    all_goals
      rw [before] at signal
      exact signal
  | returned write observerCut one path =>
    refine .idle (returnedPublication _ _) rfl rfl rfl
      sane.bindingLive_next ?_ ?_
    · simp [returnedPublication, afterReturning]
    · simp [returnedPublication, afterReturning]

/-- Every critical section keeps the invariant. -/
theorem inv (sane : process.Sane) (inv : CellInv process cell) : CellInv after next := by
  have shape := effect.shape sane inv
  obtain ⟨-, roots, signals⟩ := effect.counters
  have leaseKept := Nat.lt_of_lt_of_le inv.leaseTaken roots
  have signalKept := Nat.lt_of_lt_of_le inv.signalAllocated signals
  cases effect with
  | unchanged => exact inv
  | noted | starved | used | ended => exact ⟨shape, leaseKept, signalKept, inv.settled⟩
  | observed _ _ settled | moved _ _ _ _ settled => exact ⟨shape, leaseKept, signalKept, settled⟩
  | acquired => exact ⟨shape, leaseKept, Nat.lt_succ_self _, inv.settled⟩
  | returned => exact ⟨shape, Nat.lt_succ_self _, signalKept, inv.settled⟩

/-- The root of an authority is fixed. -/
theorem root : next.authority.root = cell.authority.root := by
  cases effect <;> rfl

/-- A critical section changes no signal of another cycle. -/
theorem signals (inv : CellInv process cell) {signal : SignalId}
    (other : signal ≠ cell.authority.inner.outstanding)
    (allocated : signal.raw < process.nextSignal) :
    after.signals signal = process.signals signal := by
  have old : signal ≠ ⟨process.nextSignal⟩ := by
    rintro rfl
    exact absurd allocated (Nat.lt_irrefl _)
  cases effect with
  | unchanged | noted | observed | used | moved | returned => rfl
  | starved => exact update_of_ne old _ _
  | acquired =>
    simp only [afterAcquiring, updateSignal, update_of_ne old]
    exact update_of_ne old _ _
  | ended write permit termination stage one held =>
    have cycle := (busy_of_mem inv.shape (one ▸ List.mem_singleton_self _)).2.1
    rw [held] at cycle
    exact update_of_ne (by rw [cycle.1]; exact other) _ _

/-- The signal of a cycle is kept until an acquisition allocates the next one. -/
theorem outstanding :
    next.authority.inner.outstanding = cell.authority.inner.outstanding ∨
      next.authority.inner.outstanding = ⟨process.nextSignal⟩ ∧
        after.nextSignal = process.nextSignal + 1 := by
  cases effect with
  | acquired => exact .inr ⟨rfl, rfl⟩
  | _ => exact .inl rfl

/-- An authority without write authorities whose lease was revoked stays that way. -/
theorem retired (none : cell.writes = [])
    (revoked : process.leaseLive cell.authority.inner.lease.identity = false) :
    next.writes = [] ∧ after.leaseLive next.authority.inner.lease.identity = false := by
  cases effect with
  | unchanged | noted | observed | starved => exact ⟨none, revoked⟩
  | acquired _ _ _ _ permitted =>
    rw [permitted.2.2] at revoked
    cases revoked
  | used _ _ _ one | ended _ _ _ _ one | moved _ _ _ one | returned _ _ one => simp [none] at one

/-- A directory is opened only by an acquisition through a live lease. -/
theorem opens {directory : PhysicalRootAnchor} (holds : next.Holds directory) :
    cell.Holds directory ∨ ((∃ expected, action = .acquire expected (some directory)) ∧
      process.leaseLive cell.authority.inner.lease.identity = true) := by
  cases effect with
  | unchanged | noted | observed | starved => exact .inl holds
  | acquired live opened none phase permitted asked =>
    obtain ⟨permit, held, opens⟩ := (holds_single rfl).mp holds
    cases held
    cases opens
    exact .inr ⟨asked, permitted.2.2⟩
  | used write permit next one held same =>
    obtain ⟨kept, stage, opens⟩ := (holds_single rfl).mp holds
    cases stage
    refine .inl ((holds_single one).mpr ⟨_, held, ?_⟩)
    obtain rfl | rfl := same
    · exact opens
    · exact opens
  | ended write permit termination stage one held path =>
    obtain ⟨kept, stage, -⟩ := (holds_single rfl).mp holds
    obtain rfl | rfl := path <;> cases stage
  | moved write lane stage one settled path =>
    obtain ⟨kept, stage, -⟩ := (holds_single rfl).mp holds
    obtain ⟨-, rfl⟩ | ⟨-, observerCut, rfl⟩ := path <;> cases stage
  | returned =>
    obtain ⟨other, member, -⟩ := holds
    cases member

/-- Without a root replacement the lease of an idle authority stays live. -/
theorem leaseLive (sane : process.Sane) (inv : CellInv process cell)
    (live : cell.writes = [] → process.leaseLive cell.authority.inner.lease.identity = true) :
    next.writes = [] → after.leaseLive next.authority.inner.lease.identity = true := by
  cases effect with
  | unchanged | noted | observed | starved => exact live
  | acquired | used | ended | moved => exact fun none => by cases none
  | returned => exact fun _ => sane.leaseLive_next inv.leaseTaken

end Shape

end CellEffect

end Symforge.Lifecycle
