import Mathlib.Logic.Function.Basic

/-!
# Process-wide shared state of the index lifecycle

The lifecycle code shares three kinds of state between threads: the identity counters of
`lifecycle_identity.rs` and `physical_root.rs`, the revocation flags that clones of one lease or
binding share, and the drain signals that a permit and its source hold. They are one record here.
Counters are natural numbers: an identity is never reused.
-/

namespace Symforge.Lifecycle

/-- `lifecycle_identity::BindingIdentity` — one binding of a source to a physical root. -/
structure BindingIdentity where
  raw : Nat
deriving DecidableEq, Repr

/-- `lifecycle_identity::ObserverToken` — one registration of a file-system observer. -/
structure ObserverToken where
  raw : Nat
deriving DecidableEq, Repr

/-- `lifecycle_identity::CandidateIdentity` — one candidate under construction. -/
structure CandidateIdentity where
  raw : Nat
deriving DecidableEq, Repr

/-- `lifecycle_identity::GenerationIdentity` — one complete published generation. -/
structure GenerationIdentity where
  raw : Nat
deriving DecidableEq, Repr

/-- `lifecycle_identity::PublicationIdentity` — one publication of a source phase. -/
structure PublicationIdentity where
  raw : Nat
deriving DecidableEq, Repr

/-- `lifecycle_identity::SnapshotIdentity` — one persisted snapshot. -/
structure SnapshotIdentity where
  raw : Nat
deriving DecidableEq, Repr

/-- `physical_root::PhysicalRootIdentity` — one lease taken on a root directory. -/
structure PhysicalRootIdentity where
  raw : Nat
deriving DecidableEq, Repr

/-- `mutation::Termination` — the three ways a permit ends. -/
inductive Termination where
  | committed
  | noSideEffect
  /-- The permit was dropped before it reached a terminal state. -/
  | drained
deriving DecidableEq, Repr

/-- `mutation::PermitDrainSignal` — what a source can see of the permit it issued last. -/
structure PermitDrainSignal where
  /-- A permit is attached to the signal. -/
  armed : Bool := false
  /-- The attached permit has ended. -/
  ended : Bool := false
  termination : Option Termination := none
deriving DecidableEq, Repr

/-- `PermitDrainSignal::has_ended` — a signal that no permit ever armed counts as ended. -/
def PermitDrainSignal.hasEnded (signal : PermitDrainSignal) : Bool := !signal.armed || signal.ended

/-- `PermitDrainSignal::arm` — attach a permit. -/
def PermitDrainSignal.arm (signal : PermitDrainSignal) : PermitDrainSignal :=
  { signal with armed := true }

/-- `PermitDrainSignal::record` — the first termination wins. -/
def PermitDrainSignal.record (signal : PermitDrainSignal) (termination : Termination) :
    PermitDrainSignal :=
  match signal.termination with
  | none => { signal with termination := some termination, ended := true }
  | some _ => signal

/-- The shared allocation behind an `Arc<PermitDrainSignal>`. -/
structure SignalId where
  raw : Nat
deriving DecidableEq, Repr

/-- The shared cells of the process. -/
structure Process where
  /-- `NEXT_IDENTITY` — the next value of the identity counter. -/
  nextIdentity : Nat
  /-- `NEXT_ROOT` — the next value of the root counter. -/
  nextRoot : Nat
  /-- Leases whose shared revocation flag is set. -/
  revokedLeases : List PhysicalRootIdentity
  /-- Bindings whose shared revocation flag is set. -/
  revokedBindings : List BindingIdentity
  nextSignal : Nat
  signals : SignalId → PermitDrainSignal

/-- The cells of a process before any lifecycle code ran. -/
def Process.initial : Process where
  nextIdentity := 1
  nextRoot := 1
  revokedLeases := []
  revokedBindings := []
  nextSignal := 0
  signals := fun _ => {}

variable (process : Process)

/-- `lifecycle_identity::next_identity` — the value, and the counter after the draw. -/
def Process.mintIdentity : Nat × Process :=
  (process.nextIdentity, { process with nextIdentity := process.nextIdentity + 1 })

/-- `PhysicalRootIdentity::fresh` — mint one physical-root identity. -/
def Process.mintRoot : PhysicalRootIdentity × Process :=
  (⟨process.nextRoot⟩, { process with nextRoot := process.nextRoot + 1 })

/-- `Arc::new(PermitDrainSignal::new())` — allocate an unarmed signal. -/
def Process.newSignal : SignalId × Process :=
  (⟨process.nextSignal⟩, { process with
      nextSignal := process.nextSignal + 1
      signals := Function.update process.signals ⟨process.nextSignal⟩ {} })

/-- Change one drain signal in place. -/
def Process.updateSignal (signal : SignalId)
    (change : PermitDrainSignal → PermitDrainSignal) : Process :=
  { process with
    signals := Function.update process.signals signal (change (process.signals signal)) }

/-- `PhysicalRootLease::revoke` — the flag that every copy of the lease shares. -/
def Process.revokeLease (lease : PhysicalRootIdentity) : Process :=
  { process with revokedLeases := lease :: process.revokedLeases }

/-- `BindingAuthority::revoke` — the flag that every clone of the binding shares. -/
def Process.revokeBinding (binding : BindingIdentity) : Process :=
  { process with revokedBindings := binding :: process.revokedBindings }

/-- `PhysicalRootLease::is_live` — whether the lease is unrevoked. -/
def Process.leaseLive (lease : PhysicalRootIdentity) : Bool := !process.revokedLeases.contains lease

/-- `BindingAuthority::is_live` — whether the binding is unrevoked. -/
def Process.bindingLive (binding : BindingIdentity) : Bool :=
  !process.revokedBindings.contains binding

end Symforge.Lifecycle
