import Symforge.Library.Run
import Symforge.Lifecycle.ProjectRegistry

/-!
# Admission of a project

Model of `admit_project_with_outcome` in `index_lifecycle/activation.rs` with the planning half of
`index_lifecycle/adapters.rs`. A call takes the registry lock three times: to admit, to install and,
where that is refused, to look up the live slot. Other users of the registry come in between. The
owner table and the admission root are read anew on every pass, so both are parameters of the step.
-/

namespace Symforge.Lifecycle

open Library

/-- `process_runtime::SurfaceKind`. -/
inductive SurfaceKind where
  | daemon
  | stdio
  | serve
  | embed
deriving DecidableEq, Repr

/-- `domain::index::SourceAccessMode`. -/
inductive SourceAccessMode where
  | normalProject
  | explicitProtected
deriving DecidableEq, Repr

/-- `adapters::AdapterRefusal`. -/
inductive AdapterRefusal where
  | surfaceNotAttached (surface : SurfaceKind)
  | registry (refusal : RegistryRefusal)
deriving DecidableEq, Repr

/-- `adapters::AdmissionPlan`. -/
structure AdmissionPlan where
  surface : SurfaceKind
  key : ProjectKey
  placement : StatePlacement
  owner : OwnerIdentity
  protection : RootProtection
  authorized : Bool
  touchesSourceRoot : Bool
deriving DecidableEq, Repr

/-- `adapters::plan_admission` — `owner` is what `owner_for` answers for the surface. -/
def planAdmission (owner : Option OwnerIdentity) (surface : SurfaceKind) (key : ProjectKey)
    (protection : RootProtection) (authorized : Bool) (requested : StatePlacement) :
    Except AdapterRefusal AdmissionPlan :=
  match owner with
  | none => .error (.surfaceNotAttached surface)
  | some owner =>
    let plan := fun placement : StatePlacement => AdmissionPlan.mk surface key placement owner
      protection authorized (placement = .projectLocal)
    match protection, authorized, requested with
    | .protectedRoot, false, _ => .error (.registry .protectedWithoutAuthorization)
    | .protectedRoot, true, .projectLocal => .error (.registry .protectedWithoutAuthorization)
    | .protectedRoot, true, chosen => .ok (plan chosen)
    | .normal, _, chosen => .ok (plan chosen)

/-- `adapters::execute_plan_with_outcome`. -/
def executePlanWithOutcome (registry : ProjectRegistry) (plan : AdmissionPlan)
    (binding : BindingAuthority) :
    Except AdapterRefusal (AdmissionAttempt × OwnerIdentity) × ProjectRegistry :=
  match registry.admitWithOutcome plan.key binding plan.protection plan.authorized
      plan.placement with
  | (.ok attempt, after) => (.ok (attempt, plan.owner), after)
  | (.error refusal, after) => (.error (.registry refusal), after)

/-- What one call of `admit_project_with_outcome` asks for. -/
structure AdmissionRequest where
  surface : SurfaceKind
  /-- Built from the project id. -/
  key : ProjectKey
  accessMode : SourceAccessMode
  placement : StatePlacement
deriving DecidableEq, Repr

/-- The protection a call derives from its access mode. -/
def AdmissionRequest.protection (request : AdmissionRequest) : RootProtection :=
  match request.accessMode with
  | .normalProject => .normal
  | .explicitProtected => .protectedRoot

/-- The explicit mode is the authorization. -/
def AdmissionRequest.authorized (request : AdmissionRequest) : Bool :=
  request.accessMode = .explicitProtected

/-- `TORN_DOWN_ADMIT_ATTEMPTS`. -/
def tornDownAdmitAttempts : Nat := 4

/-- Where a call is. -/
inductive AdmissionPhase where
  /-- At the head of the loop, after some passes that found the occupancy torn down. -/
  | passing (retries : Nat)
  /-- Admitted on the presented root, before the installation. -/
  | admitted (retries : Nat) (presented : PhysicalRootIdentity) (attempt : AdmissionAttempt)
      (owner : OwnerIdentity)
  /-- The installation found nothing pending; before the live slot is looked up. -/
  | looking (retries : Nat) (presented : PhysicalRootIdentity) (attempt : AdmissionAttempt)
  /-- Returned `Ok` with the slot, having presented the root in its last pass. -/
  | returned (presented : PhysicalRootIdentity) (slot : LiveProjectSlot)
      (cleanupCandidate : Bool)
  | refused (refusal : AdapterRefusal)
deriving DecidableEq, Repr

/-- The root a call presented to the admission it has not returned from. -/
def AdmissionPhase.presented : AdmissionPhase → Option PhysicalRootIdentity
  | .admitted _ root _ _ => some root
  | .looking _ root _ => some root
  | _ => none

/-- The registry and every call that was made. -/
structure AdmissionSystem where
  registry : ProjectRegistry
  calls : Nat → Option (AdmissionRequest × AdmissionPhase)

/-- A step of one call, or of anybody else who uses the registry. -/
inductive AdmissionAction where
  | start (call : Nat) (request : AdmissionRequest)
  /-- Plan, bind and admit: `owner` is what the runtime answers, `root` the admission root of the
  source authority. -/
  | admits (call : Nat) (owner : Option OwnerIdentity) (root : PhysicalRootIdentity)
  | install (call : Nat)
  | lookUp (call : Nat)
  | other (request : ProjectRegistry.Call)
deriving DecidableEq, Repr

namespace AdmissionSystem

/-- A fresh registry and no calls. -/
def initial (process : Process) : AdmissionSystem := ⟨ProjectRegistry.new process, fun _ => none⟩

variable (system : AdmissionSystem) (call : Nat) (request : AdmissionRequest)

/-- A call goes on to another phase. -/
def setPhase (phase : AdmissionPhase) : AdmissionSystem :=
  { system with calls := Function.update system.calls call (some (request, phase)) }

variable (retries : Nat)

/-- The first half of a pass: `plan_admission`, `admission_binding`, `execute_plan_with_outcome`. -/
def admitPass (owner : Option OwnerIdentity) (root : PhysicalRootIdentity) :
    AdmissionSystem :=
  match planAdmission owner request.surface request.key request.protection request.authorized
      request.placement with
  | .error refusal => system.setPhase call request (.refused refusal)
  | .ok plan =>
    let (binding, process) := BindingAuthority.bind system.registry.process root
    match executePlanWithOutcome { system.registry with process } plan binding with
    | (.error refusal, registry) =>
      { system with registry }.setPhase call request (.refused refusal)
    | (.ok (attempt, owner), registry) =>
      { system with registry }.setPhase call request (.admitted retries root attempt owner)

variable (presented : PhysicalRootIdentity)

/-- The second half of a pass: `install`. -/
def installPass (attempt : AdmissionAttempt)
    (owner : OwnerIdentity) : AdmissionSystem :=
  match system.registry.install request.key (some owner) with
  | (.ok live, registry) =>
    { system with registry }.setPhase call request
      (.returned presented live attempt.cleanupCandidate)
  | (.error .notAdmitted, registry) =>
    { system with registry }.setPhase call request (.looking retries presented attempt)
  | (.error refusal, registry) =>
    { system with registry }.setPhase call request (.refused (.registry refusal))

/-- What a refused installation falls back to: `live`, and another pass after a teardown. -/
def lookUpPass (attempt : AdmissionAttempt) :
    AdmissionSystem :=
  match system.registry.live request.key with
  | (.ok live, registry) =>
    { system with registry }.setPhase call request
      (.returned presented live attempt.cleanupCandidate)
  | (.error refusal, registry) =>
    if (refusal = .notAdmitted ∨ refusal = .stillPending) ∧
        retries + 1 < tornDownAdmitAttempts then
      { system with registry }.setPhase call request (.passing (retries + 1))
    else { system with registry }.setPhase call request (.refused (.registry refusal))

/-- One step; a step that a call is not at is not enabled. -/
def step : AdmissionAction → Option AdmissionSystem
  | .start call request =>
    match system.calls call with
    | none => some (system.setPhase call request (.passing 0))
    | some _ => none
  | .admits call owner root =>
    match system.calls call with
    | some (request, .passing retries) =>
      some (system.admitPass call request retries owner root)
    | _ => none
  | .install call =>
    match system.calls call with
    | some (request, .admitted retries presented attempt owner) =>
      some (system.installPass call request retries presented attempt owner)
    | _ => none
  | .lookUp call =>
    match system.calls call with
    | some (request, .looking retries presented attempt) =>
      some (system.lookUpPass call request retries presented attempt)
    | _ => none
  | .other request => some { system with registry := (system.registry.call request).2 }

/-- Every call that returned was handed a slot on the root and placement it presented; a call for a
protected root got none placed beneath the project. -/
def HandedWhatWasAsked : Prop :=
  ∀ call request presented slot cleanup,
    system.calls call = some (request, .returned presented slot cleanup) →
      slot.binding.physicalRoot = presented ∧ slot.placement = request.placement ∧
        (request.accessMode = .explicitProtected → slot.placement ≠ .projectLocal)

end AdmissionSystem

end Symforge.Lifecycle
