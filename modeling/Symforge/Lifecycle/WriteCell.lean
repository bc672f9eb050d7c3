import Symforge.Lifecycle.Activation

/-!
# Write authorities as stages

One `ProjectSourceAuthority`, the `WriteAuthority` values handed out from it, and every interleaving
of the critical sections that acquire, use and end them with observer registration and observations.
A `WriteAuthority` is outstanding until the inner half of `return_to_current` has run: its remaining
critical sections are stages, so that other threads can run in between.
-/

namespace Symforge.Lifecycle

/-- Where the owner of a `WriteAuthority` stands. -/
inductive WriteStage where
  | held (permit : SourceMutationPermit)
  /-- `Drop` released the permit; the scope-dirty latch comes next. -/
  | recovering
  /-- The permit ended; the lane half of `return_to_current` comes next. -/
  | returning
  /-- The cut was consumed; the inner half of `return_to_current` comes next. -/
  | reconciling (observerCut : ObserverToken)
deriving DecidableEq, Repr

/-- One outstanding `WriteAuthority`. -/
structure WriteHandle where
  /-- Names the value among all that were ever handed out. -/
  handle : Nat
  /-- The publication that froze the source for it. -/
  frozenPublication : PublicationIdentity
  /-- How far its owner has come. -/
  stage : WriteStage
deriving DecidableEq, Repr

/-- An authority with the write authorities handed out from it. -/
structure SourceCell where
  authority : ProjectSourceAuthority
  nextHandle : Nat
  writes : List WriteHandle
deriving DecidableEq, Repr

/-- One critical section. -/
inductive WriteAction where
  | acquire (expected : Option PublicationIdentity) (opened : Option PhysicalRootAnchor)
  | write (handle : Nat) (target : String) (disk : Except RootRefusal Unit)
  | beginDelegated (handle : Nat)
  | attestDelegated (handle : Nat) (target : String) (disk : Except RootRefusal Bool)
  | finishCommitted (handle : Nat) (receipt : WriteReceipt)
  | finishNoSideEffect (handle : Nat)
  | drop (handle : Nat)
  /-- The next critical section of a terminal path. -/
  | advance (handle : Nat)
  | registerObserver
  | observeAdmission (observer : ObserverId) (source : Nat) (committed : Bool)
  | observeRemoval (observer : ObserverId) (source : Nat)
  | reportGap (observer : ObserverId)
  | observeAdmissionActive (source : Nat) (committed : Bool)
  | observeRemovalActive (source : Nat)

namespace SourceCell

variable (cell : SourceCell) (handle : Nat)

/-- The outstanding write authority with this name. -/
def find : Option WriteHandle := cell.writes.find? (·.handle = handle)

/-- The permit of a write authority that has not reached a terminal path. -/
def heldPermit : Option SourceMutationPermit :=
  match cell.find handle with
  | some ⟨_, _, .held permit⟩ => some permit
  | _ => none

/-- Move one write authority to another stage. -/
def setStage (stage : WriteStage) : SourceCell :=
  { cell with writes := cell.writes.map fun write =>
      if write.handle = handle then { write with stage } else write }

/-- A write authority that is gone. -/
def remove : SourceCell := { cell with writes := cell.writes.filter (·.handle ≠ handle) }

/-- Replace the lane. -/
def withLane (lane : ObservationLane) : SourceCell :=
  { cell with authority := { cell.authority with lane } }

variable (process : Process)

/-- `acquire_write` and `acquire_write_expected`, with the write authority they return. -/
def acquire (expected : Option PublicationIdentity)
    (opened : Option PhysicalRootAnchor) : Process × SourceCell :=
  match cell.authority.acquireWriteIfPublication process expected opened with
  | (.error _, process, authority) => (process, { cell with authority })
  | (.ok write, process, authority) =>
    (process, { authority
                nextHandle := cell.nextHandle + 1
                writes := cell.writes ++
                  [⟨cell.nextHandle, write.frozenPublication, .held write.permit⟩] })

/-- `finish_committed`, `finish_no_side_effect` and `Drop` up to their first lock: the permit ends
or refuses, is dropped either way, and a refusal takes the recovery path. -/
def finish
    (ending : SourceMutationPermit → Except AuthorityRefusal RefreshTicket ×
      SourceMutationPermit × Process) : Option (Process × SourceCell) :=
  (cell.heldPermit handle).map fun permit =>
    match ending permit with
    | (.ok _, permit, process) => (permit.drop process, cell.setStage handle .returning)
    | (.error _, permit, process) => (permit.drop process, cell.setStage handle .recovering)

/-- The next critical section of a write authority on a terminal path. -/
def advance (handle : Nat) : Option (Process × SourceCell) :=
  match cell.find handle with
  | some ⟨_, _, .recovering⟩ =>
    some (process, (cell.withLane cell.authority.lane.latchScopeDirty).setStage handle .returning)
  | some ⟨_, _, .returning⟩ =>
    let consumed := cell.authority.lane.consumeCut
    some (process, (cell.withLane consumed.2).setStage handle (.reconciling consumed.1))
  | some ⟨_, frozen, .reconciling observerCut⟩ =>
    let returned := cell.authority.returnInner process frozen observerCut
    some (returned.2.1, { cell with authority := returned.2.2 }.remove handle)
  | _ => none

/-- Use a held permit in place. -/
def usePermit (handle : Nat)
    (use : WriteAuthority → WriteAuthority) : Option (Process × SourceCell) :=
  (cell.find handle).bind fun write =>
    match write.stage with
    | .held permit =>
      some (process, cell.setStage handle
        (.held (use ⟨permit, write.frozenPublication⟩).permit))
    | _ => none

/-- The state after one critical section, or `none` where it cannot run. -/
def step (cell : SourceCell) : WriteAction → Option (Process × SourceCell)
  | .acquire expected opened => some (cell.acquire process expected opened)
  | .write handle target disk =>
    cell.usePermit process handle fun write => (write.write process target disk).2
  | .beginDelegated handle =>
    cell.usePermit process handle fun write => (write.beginDelegated process).2
  | .attestDelegated handle _ _ => cell.usePermit process handle fun write => write
  | .finishCommitted handle receipt =>
    cell.finish handle fun permit => permit.commit process receipt
  | .finishNoSideEffect handle => cell.finish handle fun permit => permit.noSideEffect process
  | .drop handle =>
    (cell.heldPermit handle).map fun permit =>
      (permit.drop process, cell.setStage handle .recovering)
  | .advance handle => cell.advance process handle
  | .registerObserver =>
    (cell.authority.lane.registerObserver process).map fun (_, lane, process) =>
      (process, cell.withLane lane)
  | .observeAdmission observer source committed =>
    some (process, cell.withLane (cell.authority.lane.observeAdmission observer source committed).2)
  | .observeRemoval observer source =>
    some (process, cell.withLane (cell.authority.lane.observeRemoval observer source).2)
  | .reportGap observer =>
    some (process, cell.withLane (cell.authority.lane.reportGap observer).2)
  | .observeAdmissionActive source committed =>
    some (process, cell.withLane (cell.authority.lane.observeAdmissionLocked source committed))
  | .observeRemovalActive source =>
    some (process, cell.withLane (cell.authority.lane.observeRemovalActive source))

end SourceCell

end Symforge.Lifecycle
