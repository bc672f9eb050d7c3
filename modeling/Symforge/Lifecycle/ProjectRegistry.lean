import Symforge.Lifecycle.Authority
import Symforge.Lifecycle.Capacity

/-!
# Project admission and tombstones

Model of `index_lifecycle/registry.rs`. A handle is a clone of an `Arc` whose one mutable part is
the revocation flag of its allocation, so a handle is a value that names its flag, and the flags and
the number of clones outside the registry are state. The maps are functions. Every call returns its
result and the registry it leaves, on the refusing branches too.
-/

namespace Symforge.Lifecycle

open Function

/-- `registry::SlotIdentity`. -/
structure SlotIdentity where
  raw : Nat
deriving DecidableEq, Repr

/-- `registry::ProjectKey`. -/
structure ProjectKey where
  id : String
deriving DecidableEq, Repr

/-- `registry::StatePlacement`. -/
inductive StatePlacement where
  | projectLocal
  | userLocal
  | memoryOnly
deriving DecidableEq, Repr

/-- `registry::RootProtection`. -/
inductive RootProtection where
  | normal
  | protectedRoot
deriving DecidableEq, Repr

/-- `registry::RegistryRefusal`. -/
inductive RegistryRefusal where
  | tombstoned (slot : SlotIdentity)
  | notAdmitted
  | protectedWithoutAuthorization
  | stillPending
  | rootMismatch (joined presented : PhysicalRootIdentity)
  | placementMismatch (joined presented : StatePlacement)
deriving DecidableEq, Repr

/-- `registry::PendingProjectAdmission`. -/
structure PendingProjectAdmission where
  slot : SlotIdentity
  key : ProjectKey
  binding : BindingAuthority
  placement : StatePlacement
  /-- Callers waiting on this admission. -/
  joiners : Nat
deriving DecidableEq, Repr

/-- `registry::AdmissionJoin`. -/
inductive AdmissionJoin where
  | createdPending
  | joinedPending
  | joinedLive
deriving DecidableEq, Repr

/-- `registry::AdmissionAttempt`. -/
structure AdmissionAttempt where
  slot : SlotIdentity
  join : AdmissionJoin
deriving DecidableEq, Repr

/-- `AdmissionAttempt::cleanup_candidate`. -/
def AdmissionAttempt.cleanupCandidate (attempt : AdmissionAttempt) : Bool :=
  attempt.join = .createdPending || attempt.join = .joinedPending

/-- `registry::LiveProjectSlot`, behind its `Arc`. -/
structure LiveProjectSlot where
  slot : SlotIdentity
  key : ProjectKey
  binding : BindingAuthority
  placement : StatePlacement
  owner : Option OwnerIdentity
  /-- The allocation that holds the `revoked` flag. -/
  allocation : Nat
deriving DecidableEq, Repr

/-- `registry::Occupancy`. -/
inductive Occupancy where
  | pending (admission : PendingProjectAdmission)
  | live (slot : LiveProjectSlot)
deriving DecidableEq, Repr

namespace Occupancy

/-- The slot of an occupant. -/
def slot : Occupancy → SlotIdentity
  | .pending admission => admission.slot
  | .live slot => slot.slot

/-- Its key. -/
def key : Occupancy → ProjectKey
  | .pending admission => admission.key
  | .live slot => slot.key

/-- The root it is bound to. -/
def physicalRoot : Occupancy → PhysicalRootIdentity
  | .pending admission => admission.binding.physicalRoot
  | .live slot => slot.binding.physicalRoot

/-- Where its state is. -/
def placement : Occupancy → StatePlacement
  | .pending admission => admission.placement
  | .live slot => slot.placement

end Occupancy

/-- `registry::ProjectRegistry`, with the memory its handles share. -/
structure ProjectRegistry where
  process : Process
  /-- `NEXT_SLOT`. -/
  nextSlot : Nat
  keys : ProjectKey → Option Occupancy
  /-- Identities that have stopped. -/
  tombstones : SlotIdentity → Option ProjectKey
  allocated : Nat
  /-- The `revoked` flag of every allocation. -/
  revoked : Nat → Bool
  /-- Clones of every allocation held outside the registry. -/
  holders : Nat → Nat

namespace ProjectRegistry

/-- `ProjectRegistry::new`, in a given process. -/
def new (process : Process) : ProjectRegistry where
  process := process
  nextSlot := 1
  keys := fun _ => none
  tombstones := fun _ => none
  allocated := 0
  revoked := fun _ => false
  holders := fun _ => 0

variable (registry : ProjectRegistry) (slot : LiveProjectSlot)

/-- `LiveProjectSlot::is_live`. -/
def isLive : Bool := !registry.revoked slot.allocation

/-- `LiveProjectSlot::binding`. -/
def binding : Except RegistryRefusal BindingAuthority :=
  if registry.isLive slot then .ok slot.binding else .error (.tombstoned slot.slot)

/-- `LiveProjectSlot::capacity_owner`. -/
def capacityOwner : Except RegistryRefusal (Option OwnerIdentity) :=
  if registry.isLive slot then .ok slot.owner else .error (.tombstoned slot.slot)

/-- `LiveProjectSlot::revoke` — the binding, then the flag. -/
def revoke : ProjectRegistry :=
  { registry with
    process := registry.process.revokeBinding slot.binding.identity
    revoked := update registry.revoked slot.allocation true }

variable (key : ProjectKey)

/-- `HashMap::remove` on the keys. -/
def removeKey : ProjectRegistry := { registry with keys := update registry.keys key none }

/-- `HashMap::insert` on the keys. -/
def insertKey (occupancy : Occupancy) : ProjectRegistry :=
  { registry with keys := update registry.keys key (some occupancy) }

/-- Record a retired identity. -/
def insertTombstone (slot : SlotIdentity) (key : ProjectKey) : ProjectRegistry :=
  { registry with tombstones := update registry.tombstones slot (some key) }

/-- A caller takes a clone of a handle. -/
def hold : ProjectRegistry :=
  { registry with
    holders := update registry.holders slot.allocation
      (registry.holders slot.allocation + 1) }

/-- `ProjectRegistry::admit_with_outcome`. -/
def admitWithOutcome (binding : BindingAuthority)
    (protection : RootProtection) (authorized : Bool) (placement : StatePlacement) :
    Except RegistryRefusal AdmissionAttempt × ProjectRegistry :=
  if protection = .protectedRoot ∧ !authorized then
    (.error .protectedWithoutAuthorization, registry)
  else if protection = .protectedRoot ∧ placement = .projectLocal then
    (.error .protectedWithoutAuthorization, registry)
  else
    match registry.keys key with
    | some (.pending pending) =>
      if pending.binding.physicalRoot ≠ binding.physicalRoot then
        (.error (.rootMismatch pending.binding.physicalRoot binding.physicalRoot), registry)
      else if pending.placement ≠ placement then
        (.error (.placementMismatch pending.placement placement), registry)
      else
        (.ok ⟨pending.slot, .joinedPending⟩,
          registry.insertKey key (.pending { pending with joiners := pending.joiners + 1 }))
    | some (.live live) =>
      if live.binding.physicalRoot ≠ binding.physicalRoot then
        (.error (.rootMismatch live.binding.physicalRoot binding.physicalRoot), registry)
      else if live.placement ≠ placement then
        (.error (.placementMismatch live.placement placement), registry)
      else (.ok ⟨live.slot, .joinedLive⟩, registry)
    | none =>
      let slot : SlotIdentity := ⟨registry.nextSlot⟩
      (.ok ⟨slot, .createdPending⟩,
        { registry with nextSlot := registry.nextSlot + 1 }.insertKey key
          (.pending ⟨slot, key, binding, placement, 1⟩))

/-- `ProjectRegistry::install`. -/
def install (owner : Option OwnerIdentity) :
    Except RegistryRefusal LiveProjectSlot × ProjectRegistry :=
  let removed := registry.removeKey key
  match registry.keys key with
  | some (.pending pending) =>
    let live : LiveProjectSlot :=
      ⟨pending.slot, pending.key, pending.binding, pending.placement, owner, registry.allocated⟩
    let allocated := { removed with
      allocated := registry.allocated + 1
      revoked := update registry.revoked registry.allocated false
      holders := update registry.holders registry.allocated 0 }
    (.ok live, (allocated.insertKey pending.key (.live live)).hold live)
  | some other => (.error .notAdmitted, removed.insertKey key other)
  | none => (.error .notAdmitted, removed)

/-- `ProjectRegistry::cancel`. -/
def cancel : Except RegistryRefusal SlotIdentity × ProjectRegistry :=
  let removed := registry.removeKey key
  match registry.keys key with
  | some (.pending pending) => (.ok pending.slot, removed.insertTombstone pending.slot pending.key)
  | some other => (.error .notAdmitted, removed.insertKey key other)
  | none => (.error .notAdmitted, removed)

/-- `ProjectRegistry::stop`. -/
def stop : Except RegistryRefusal SlotIdentity × ProjectRegistry :=
  let removed := registry.removeKey key
  match registry.keys key with
  | some (.live live) => (.ok live.slot, (removed.revoke live).insertTombstone live.slot live.key)
  | some other => (.error .notAdmitted, removed.insertKey key other)
  | none => (.error .notAdmitted, removed)

/-- `ProjectRegistry::stop_if_unheld` — a clone held outside makes the strong count above one. -/
def stopIfUnheld (slot : SlotIdentity) : Except RegistryRefusal SlotIdentity × ProjectRegistry :=
  match registry.keys key with
  | some (.live live) =>
    if live.slot ≠ slot then (.error .notAdmitted, registry)
    else if 0 < registry.holders live.allocation then (.error .stillPending, registry)
    else (.ok live.slot, ((registry.removeKey key).revoke live).insertTombstone live.slot live.key)
  | some (.pending _) => (.error .stillPending, registry)
  | none => (.error .notAdmitted, registry)

/-- `ProjectRegistry::is_current`. -/
def isCurrent (slot : SlotIdentity) : Bool :=
  if registry.tombstones slot ≠ none then false
  else
    match registry.keys key with
    | some (.live live) => live.slot = slot
    | _ => false

/-- `ProjectRegistry::live` — the caller holds the clone it is given. -/
def live : Except RegistryRefusal LiveProjectSlot × ProjectRegistry :=
  match registry.keys key with
  | some (.live live) => (.ok live, registry.hold live)
  | some (.pending _) => (.error .stillPending, registry)
  | none => (.error .notAdmitted, registry)

end ProjectRegistry

namespace ProjectRegistry

variable {registry : ProjectRegistry} {key : ProjectKey}

/-- An inserted occupant is found. -/
@[simp]
theorem keys_insertKey_self {occupancy : Occupancy} :
    (registry.insertKey key occupancy).keys key = some occupancy :=
  update_self ..

/-- Putting back what was removed changes nothing. -/
theorem insertKey_removeKey {occupancy : Occupancy} (found : registry.keys key = some occupancy) :
    (registry.removeKey key).insertKey key occupancy = registry := by
  simp [removeKey, insertKey, update_idem, ← found, update_eq_self]

/-- A vacant key stays vacant. -/
theorem removeKey_vacant (vacant : registry.keys key = none) :
    registry.removeKey key = registry := by
  simp [removeKey, ← vacant, update_eq_self]

/-- What a call asks of the registry. -/
inductive Call where
  | admitWithOutcome (key : ProjectKey) (binding : BindingAuthority)
      (protection : RootProtection) (authorized : Bool) (placement : StatePlacement)
  | install (key : ProjectKey) (owner : Option OwnerIdentity)
  | cancel (key : ProjectKey)
  | stop (key : ProjectKey)
  | stopIfUnheld (key : ProjectKey) (slot : SlotIdentity)
deriving DecidableEq, Repr

/-- Whether a call succeeds, and the registry it leaves. -/
def call (registry : ProjectRegistry) : Call → Except RegistryRefusal Unit × ProjectRegistry
  | .admitWithOutcome key binding protection authorized placement =>
    let (result, after) := registry.admitWithOutcome key binding protection authorized placement
    (result.map fun _ => (), after)
  | .install key owner =>
    let (result, after) := registry.install key owner
    (result.map fun _ => (), after)
  | .cancel key =>
    let (result, after) := registry.cancel key
    (result.map fun _ => (), after)
  | .stop key =>
    let (result, after) := registry.stop key
    (result.map fun _ => (), after)
  | .stopIfUnheld key slot =>
    let (result, after) := registry.stopIfUnheld key slot
    (result.map fun _ => (), after)

/-- An admission that succeeded joined an occupancy of its root and placement, or made one. -/
theorem admitWithOutcome_ok {binding : BindingAuthority} {protection : RootProtection}
    {authorized : Bool} {placement : StatePlacement} {attempt : AdmissionAttempt}
    {after : ProjectRegistry}
    (admitted : registry.admitWithOutcome key binding protection authorized placement =
      (.ok attempt, after)) :
    ¬ (protection = .protectedRoot ∧ placement = .projectLocal) ∧
    ((∃ pending, registry.keys key = some (.pending pending) ∧
        pending.binding.physicalRoot = binding.physicalRoot ∧ pending.placement = placement ∧
        attempt = ⟨pending.slot, .joinedPending⟩ ∧
        after = registry.insertKey key
          (.pending { pending with joiners := pending.joiners + 1 })) ∨
      (∃ live, registry.keys key = some (.live live) ∧
        live.binding.physicalRoot = binding.physicalRoot ∧ live.placement = placement ∧
        attempt = ⟨live.slot, .joinedLive⟩ ∧ after = registry) ∨
      (registry.keys key = none ∧ attempt = ⟨⟨registry.nextSlot⟩, .createdPending⟩ ∧
        after = { registry with nextSlot := registry.nextSlot + 1 }.insertKey key
          (.pending ⟨⟨registry.nextSlot⟩, key, binding, placement, 1⟩))) := by
  unfold admitWithOutcome at admitted
  split at admitted
  · cases admitted
  split at admitted
  · cases admitted
  rename_i allowed
  refine ⟨allowed, ?_⟩
  split at admitted
  · rename_i pending found
    split at admitted
    · cases admitted
    rename_i sameRoot
    split at admitted
    · cases admitted
    rename_i samePlacement
    cases admitted
    exact .inl ⟨pending, found, not_not.mp sameRoot, not_not.mp samePlacement, rfl, rfl⟩
  · rename_i live found
    split at admitted
    · cases admitted
    rename_i sameRoot
    split at admitted
    · cases admitted
    rename_i samePlacement
    cases admitted
    exact .inr (.inl ⟨_, found, not_not.mp sameRoot, not_not.mp samePlacement, rfl, rfl⟩)
  · rename_i vacant
    cases admitted
    exact .inr (.inr ⟨vacant, rfl, rfl⟩)

/-- A refusal leaves the registry. -/
theorem admitWithOutcome_refused {binding : BindingAuthority} {protection : RootProtection}
    {authorized : Bool} {placement : StatePlacement} {refusal : RegistryRefusal}
    {after : ProjectRegistry}
    (refused : registry.admitWithOutcome key binding protection authorized placement =
      (.error refusal, after)) : after = registry := by
  unfold admitWithOutcome at refused
  split at refused
  · exact (Prod.ext_iff.mp refused).2.symm
  split at refused
  · exact (Prod.ext_iff.mp refused).2.symm
  split at refused
  · split at refused
    · exact (Prod.ext_iff.mp refused).2.symm
    split at refused
    · exact (Prod.ext_iff.mp refused).2.symm
    · cases (Prod.ext_iff.mp refused).1
  · split at refused
    · exact (Prod.ext_iff.mp refused).2.symm
    split at refused
    · exact (Prod.ext_iff.mp refused).2.symm
    · cases (Prod.ext_iff.mp refused).1
  · cases (Prod.ext_iff.mp refused).1

/-- The slot that installing a pending admission allocates. -/
def installedSlot (registry : ProjectRegistry) (pending : PendingProjectAdmission)
    (owner : Option OwnerIdentity) : LiveProjectSlot :=
  ⟨pending.slot, pending.key, pending.binding, pending.placement, owner, registry.allocated⟩

variable (registry : ProjectRegistry) (key : ProjectKey)

/-- Installing turns a pending admission live, or is refused. -/
theorem install_cases (owner : Option OwnerIdentity) :
    (∃ pending, registry.keys key = some (.pending pending) ∧
      registry.install key owner = (.ok (registry.installedSlot pending owner), { registry with
          keys := update (update registry.keys key none) pending.key
            (some (.live (registry.installedSlot pending owner)))
          allocated := registry.allocated + 1
          revoked := update registry.revoked registry.allocated false
          holders := update registry.holders registry.allocated 1 })) ∨
    (registry.install key owner = (.error .notAdmitted, registry) ∧
      ∀ pending, registry.keys key ≠ some (.pending pending)) := by
  unfold install
  cases found : registry.keys key with
  | none => exact .inr ⟨by simp [removeKey_vacant found], fun _ => nofun⟩
  | some occupancy =>
    cases occupancy with
    | live slot => exact .inr ⟨by simp [insertKey_removeKey found], fun _ => nofun⟩
    | pending admission =>
      refine .inl ⟨admission, rfl, ?_⟩
      simp [removeKey, insertKey, hold, installedSlot, update_self, update_idem]

/-- Cancelling retires a pending admission, or is refused. -/
theorem cancel_cases :
    (∃ pending, registry.keys key = some (.pending pending) ∧
      registry.cancel key = (.ok pending.slot,
        (registry.removeKey key).insertTombstone pending.slot pending.key)) ∨
    registry.cancel key = (.error .notAdmitted, registry) := by
  unfold cancel
  cases found : registry.keys key with
  | none => exact .inr (by simp [removeKey_vacant found])
  | some occupancy =>
    cases occupancy with
    | live slot => exact .inr (by simp [insertKey_removeKey found])
    | pending admission => exact .inl ⟨admission, rfl, rfl⟩

/-- Stopping retires a live occupancy and revokes its handles, or is refused. -/
theorem stop_cases :
    (∃ live, registry.keys key = some (.live live) ∧
      registry.stop key = (.ok live.slot,
        ((registry.removeKey key).revoke live).insertTombstone live.slot live.key)) ∨
    registry.stop key = (.error .notAdmitted, registry) := by
  unfold stop
  cases found : registry.keys key with
  | none => exact .inr (by simp [removeKey_vacant found])
  | some occupancy =>
    cases occupancy with
    | pending admission => exact .inr (by simp [insertKey_removeKey found])
    | live slot => exact .inl ⟨_, rfl, rfl⟩

/-- Stopping an unheld occupancy does what stopping does, or is refused. -/
theorem stopIfUnheld_cases (slot : SlotIdentity) :
    (∃ live, registry.keys key = some (.live live) ∧
      registry.stopIfUnheld key slot = (.ok live.slot,
        ((registry.removeKey key).revoke live).insertTombstone live.slot live.key)) ∨
    ∃ refusal, registry.stopIfUnheld key slot = (.error refusal, registry) := by
  unfold stopIfUnheld
  cases found : registry.keys key with
  | none => exact .inr ⟨_, rfl⟩
  | some occupancy =>
    cases occupancy with
    | pending admission => exact .inr ⟨_, rfl⟩
    | live live =>
      dsimp only
      split
      · exact .inr ⟨_, rfl⟩
      split
      · exact .inr ⟨_, rfl⟩
      · exact .inl ⟨_, rfl, rfl⟩

/-- A refused call leaves the registry as it was. -/
theorem call_refused {request : Call} {refusal : RegistryRefusal}
    (refused : (registry.call request).1 = .error refusal) :
    (registry.call request).2 = registry := by
  cases request with
  | admitWithOutcome key binding protection authorized placement =>
    simp only [call] at refused ⊢
    rcases outcome : registry.admitWithOutcome key binding protection authorized placement
      with ⟨result, after⟩
    cases result with
    | error refusal => exact admitWithOutcome_refused outcome
    | ok attempt =>
      rw [outcome] at refused
      cases refused
  | install key owner =>
    simp only [call] at refused ⊢
    rcases install_cases _ _ _ with ⟨pending, -, done⟩ | ⟨done, -⟩
    · rw [done] at refused
      cases refused
    · rw [done]
  | cancel key =>
    simp only [call] at refused ⊢
    rcases cancel_cases _ _ with ⟨pending, -, done⟩ | done
    · rw [done] at refused
      cases refused
    · rw [done]
  | stop key =>
    simp only [call] at refused ⊢
    rcases stop_cases _ _ with ⟨live, -, done⟩ | done
    · rw [done] at refused
      cases refused
    · rw [done]
  | stopIfUnheld key slot =>
    simp only [call] at refused ⊢
    rcases stopIfUnheld_cases _ _ _ with ⟨live, -, done⟩ | ⟨_, done⟩
    · rw [done] at refused
      cases refused
    · rw [done]

end ProjectRegistry

end Symforge.Lifecycle
