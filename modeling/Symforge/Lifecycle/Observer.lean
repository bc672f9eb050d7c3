import Mathlib.Data.List.Basic

/-!
# Observation accumulator and observer slot

Model of `index_lifecycle/observer.rs`: the coalescing accumulator whose latches force
a full baseline, and the slot that hands the observer role from one registration to the
next. The pending `BTreeMap` is a list in ascending key order.
-/

namespace Symforge.Lifecycle

/-- `observer::LatchCause`. -/
inductive LatchCause where
  | gap
  | scopeDirty
  | capacityExhausted
  | handoffBarrier
deriving DecidableEq, Repr

/-- `observer::CutKind`. -/
inductive CutKind where
  | incremental (invalidations : List (Nat × Nat))
  | fullBaseline (cause : LatchCause)
deriving DecidableEq, Repr

/-- `observer::ObservationCut`. -/
structure ObservationCut where
  /-- Strictly increasing per accumulator. -/
  token : Nat
  /-- What the cut demands of its consumer. -/
  kind : CutKind
deriving DecidableEq, Repr

/-- `BTreeMap::insert` on an ascending list of entries. -/
def insertPending : List (Nat × Nat) → Nat → Nat → List (Nat × Nat)
  | [], source, stamp => [(source, stamp)]
  | (key, value) :: rest, source, stamp =>
    if source < key then (source, stamp) :: (key, value) :: rest
    else if source = key then (source, stamp) :: rest
    else (key, value) :: insertPending rest source stamp

/-- `observer::CoalescingAccumulator`. -/
structure CoalescingAccumulator where
  /-- Bound on distinct pending sources. -/
  bound : Nat
  /-- Newest stamp of every pending source. -/
  pending : List (Nat × Nat)
  /-- First cause that forces a baseline. -/
  latch : Option LatchCause
  nextToken : Nat
deriving DecidableEq, Repr

namespace CoalescingAccumulator

/-- `CoalescingAccumulator::new`. -/
def new (bound : Nat) : CoalescingAccumulator := ⟨bound, [], none, 1⟩

variable (accumulator : CoalescingAccumulator)

/-- `Option::get_or_insert` on the latch: the first cause wins. -/
def latchCause (cause : LatchCause) : CoalescingAccumulator :=
  { accumulator with latch := some (accumulator.latch.getD cause) }

/-- `CoalescingAccumulator::observe` — `none` stands for a derivation that unwinds. -/
def observe (source : Nat) (derived : Option Nat) : CoalescingAccumulator :=
  if accumulator.pending.all (·.1 ≠ source) ∧ accumulator.bound ≤ accumulator.pending.length then
    accumulator.latchCause .capacityExhausted
  else
    match derived with
    | none => accumulator.latchCause .scopeDirty
    | some stamp =>
      { accumulator with pending := insertPending accumulator.pending source stamp }

/-- `CoalescingAccumulator::report_gap`. -/
def reportGap : CoalescingAccumulator := accumulator.latchCause .gap

/-- `CoalescingAccumulator::latch_handoff_barrier`. -/
def latchHandoffBarrier : CoalescingAccumulator := accumulator.latchCause .handoffBarrier

/-- `CoalescingAccumulator::latch_scope_dirty`. -/
def latchScopeDirty : CoalescingAccumulator := accumulator.latchCause .scopeDirty

/-- `CoalescingAccumulator::cut`. -/
def cut : ObservationCut × CoalescingAccumulator :=
  let kind := match accumulator.latch with
    | some cause => CutKind.fullBaseline cause
    | none => CutKind.incremental accumulator.pending
  (⟨accumulator.nextToken, kind⟩,
    { accumulator with pending := [], latch := none, nextToken := accumulator.nextToken + 1 })

end CoalescingAccumulator

/-- `observer::ObserverId`. -/
structure ObserverId where
  raw : Nat
deriving DecidableEq, Repr

/-- `observer::HandoffRefusal`. -/
inductive HandoffRefusal where
  | predecessorStillDraining (undelivered : Nat)
  | noHandoffInProgress
  | handoffAlreadyInProgress (boundSuccessor : ObserverId)
  | notTheActiveObserver (producer : ObserverId)
deriving DecidableEq, Repr

/-- `observer::ObserverSlot`. -/
structure ObserverSlot where
  active : ObserverId
  /-- Cuts produced and not yet delivered. -/
  undelivered : List (ObserverId × ObservationCut)
  /-- The successor bound by a handoff in progress. -/
  pendingSuccessor : Option ObserverId
deriving DecidableEq, Repr

namespace ObserverSlot

/-- `ObserverSlot::new`. -/
def new (first : ObserverId) : ObserverSlot := ⟨first, [], none⟩

variable (slot : ObserverSlot)

/-- `ObserverSlot::queue_undelivered`. -/
def queueUndelivered (producer : ObserverId) (cut : ObservationCut) :
    Except HandoffRefusal Unit × ObserverSlot :=
  if producer ≠ slot.active then (.error (.notTheActiveObserver producer), slot)
  else (.ok (), { slot with undelivered := slot.undelivered ++ [(producer, cut)] })

/-- `ObserverSlot::begin_handoff`. -/
def beginHandoff (successor : ObserverId) : Except HandoffRefusal Unit × ObserverSlot :=
  match slot.pendingSuccessor with
  | some bound => (.error (.handoffAlreadyInProgress bound), slot)
  | none => (.ok (), { slot with pendingSuccessor := some successor })

/-- `ObserverSlot::deliver_pending`. -/
def deliverPending : List ObservationCut × ObserverSlot :=
  (slot.undelivered.map Prod.snd, { slot with undelivered := [] })

/-- `ObserverSlot::complete_handoff`. -/
def completeHandoff : Except HandoffRefusal CutKind × ObserverSlot :=
  match slot.pendingSuccessor with
  | none => (.error .noHandoffInProgress, slot)
  | some successor =>
    if slot.undelivered.isEmpty then
      (.ok (.fullBaseline .handoffBarrier),
        { slot with active := successor, pendingSuccessor := none })
    else (.error (.predecessorStillDraining slot.undelivered.length), slot)

end ObserverSlot

end Symforge.Lifecycle
