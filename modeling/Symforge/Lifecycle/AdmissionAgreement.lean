import Symforge.Lifecycle.ProjectAdmission

/-!
# What an admission hands out

An admission checks root and placement against the occupancy it joins, but its later steps look the
key up again. A call that joined a live occupancy has no pending claim of its own: the occupancy can
be stopped, and the key occupied again with another root or placement, before the call installs or
looks up. That is the only way a call is handed something else than it asked for.
-/

namespace Symforge.Lifecycle

open Library Function ProjectRegistry

namespace ProjectRegistry

variable {registry : ProjectRegistry}
  {owner : Option OwnerIdentity} {after : ProjectRegistry} {key : ProjectKey}
  {presented : PhysicalRootIdentity} {protection : RootProtection} {plan : AdmissionPlan}

/-- Every occupancy stands under its own key. -/
def Keyed (registry : ProjectRegistry) : Prop :=
  ∀ key occupancy, registry.keys key = some occupancy → occupancy.key = key

/-- Whatever occupies a key afterwards has the root and placement of what did before. -/
def Continues (registry after : ProjectRegistry) : Prop :=
  ∀ key occupancy, after.keys key = some occupancy →
    ∃ before, registry.keys key = some before ∧ occupancy.key = before.key ∧
      occupancy.physicalRoot = before.physicalRoot ∧ occupancy.placement = before.placement

/-- A registry continues itself. -/
theorem Continues.refl (registry : ProjectRegistry) : registry.Continues registry :=
  fun _ _ found => ⟨_, found, rfl, rfl, rfl⟩

/-- The keys stay with their occupants. -/
theorem Continues.keyed (continues : registry.Continues after) (keyed : registry.Keyed) :
    after.Keyed := by
  intro key occupancy found
  obtain ⟨before, present, sameKey, -⟩ := continues _ _ found
  rw [sameKey]
  exact keyed _ _ present

/-- An occupancy in the place of one with its key, root and placement. -/
theorem continues_insert {before next : Occupancy} (found : registry.keys key = some before)
    (keys : after.keys = update registry.keys key (some next))
    (sameKey : next.key = before.key) (sameRoot : next.physicalRoot = before.physicalRoot)
    (samePlacement : next.placement = before.placement) : registry.Continues after := by
  intro other occupancy looked
  rw [keys] at looked
  rcases update_some_eq_some.mp looked with ⟨rfl, rfl⟩ | ⟨-, present⟩
  · exact ⟨before, found, sameKey, sameRoot, samePlacement⟩
  · exact ⟨occupancy, present, rfl, rfl, rfl⟩

/-- Without one occupant it continues. -/
theorem continues_remove (keys : after.keys = update registry.keys key none) :
    registry.Continues after := by
  intro other occupancy looked
  rw [keys] at looked
  exact ⟨_, (update_none_eq_some.mp looked).2, rfl, rfl, rfl⟩

open Continues

/-- An installation hands out the occupancy it found, and changes no root or placement. -/
theorem install_continues (keyed : registry.Keyed) (key : ProjectKey)
    (owner : Option OwnerIdentity) : registry.Continues (registry.install key owner).2 := by
  rcases install_cases _ _ _ with ⟨pending, found, done⟩ | ⟨done, -⟩
  · rw [done]
    have ownKey : pending.key = key := keyed _ (.pending pending) found
    apply continues_insert found
    · rw [ownKey, update_idem]
    · rfl
    · rfl
    · rfl
  · rw [done]
    exact refl _

/-- After a cancellation it continues. -/
theorem cancel_continues : registry.Continues (registry.cancel key).2 := by
  rcases cancel_cases _ _ with ⟨pending, -, done⟩ | done
  · rw [done]
    exact continues_remove rfl
  · rw [done]
    exact refl _

/-- After a stop it continues. -/
theorem stop_continues : registry.Continues (registry.stop key).2 := by
  rcases stop_cases _ _ with ⟨live, -, done⟩ | done
  · rw [done]
    exact continues_remove rfl
  · rw [done]
    exact refl _

/-- After a conditional stop it continues. -/
theorem stopIfUnheld_continues (slot : SlotIdentity) :
    registry.Continues (registry.stopIfUnheld key slot).2 := by
  rcases stopIfUnheld_cases _ _ _ with ⟨live, -, done⟩ | ⟨refusal, done⟩
  · rw [done]
    exact continues_remove rfl
  · rw [done]
    exact refl _

/-- The protection rules let the admission through. -/
def admissible (protection : RootProtection) (authorized : Bool) (placement : StatePlacement) :
    Bool :=
  !(protection = .protectedRoot && (!authorized || placement = .projectLocal))

/-- An admission goes on with the occupancy of the key, makes one as asked, or is refused. -/
theorem admit_continues (registry : ProjectRegistry)
    (binding : BindingAuthority) (authorized : Bool)
    (placement : StatePlacement) :
    registry.Continues
        (registry.admitWithOutcome key binding protection authorized placement).2 ∨
      (registry.keys key = none ∧ admissible protection authorized placement = true ∧
        (registry.admitWithOutcome key binding protection authorized placement).2.keys =
          update registry.keys key
            (some (.pending ⟨⟨registry.nextSlot⟩, key, binding, placement, 1⟩))) := by
  unfold admitWithOutcome
  split
  · exact .inl (refl _)
  rename_i authorizedIfProtected
  split
  · exact .inl (refl _)
  rename_i notLocalIfProtected
  split
  · rename_i pending found
    left
    split
    · exact refl _
    split
    · exact refl _
    · exact continues_insert found rfl rfl rfl rfl
  · left
    split
    · exact refl _
    split
    · exact refl _
    · exact refl _
  · rename_i vacant
    refine .inr ⟨vacant, ?_, rfl⟩
    cases protection with
    | normal => rfl
    | protectedRoot => simp_all [admissible]

variable {binding : BindingAuthority} {placement : StatePlacement}

/-- An admission that the protection rules allow occupies a vacant key. -/
theorem admit_vacant (vacant : registry.keys key = none)
    {authorized : Bool}
    (allowed : admissible protection authorized placement = true) :
    registry.admitWithOutcome key binding protection authorized placement =
      (.ok ⟨⟨registry.nextSlot⟩, .createdPending⟩,
        { registry with nextSlot := registry.nextSlot + 1 }.insertKey key
          (.pending ⟨⟨registry.nextSlot⟩, key, binding, placement, 1⟩)) := by
  have authorizedIfProtected : ¬ (protection = .protectedRoot ∧ !authorized) := by
    rintro ⟨rfl, unauthorized⟩
    rw [admissible, unauthorized] at allowed
    cases allowed
  have notLocalIfProtected : ¬ (protection = .protectedRoot ∧ placement = .projectLocal) := by
    rintro ⟨rfl, rfl⟩
    simp [admissible] at allowed
  rw [admitWithOutcome, if_neg authorizedIfProtected, if_neg notLocalIfProtected, vacant]

/-- An admission that succeeded finds its own root and placement under the key. -/
theorem admit_agrees {authorized : Bool}
    {attempt : AdmissionAttempt}
    (admitted : registry.admitWithOutcome key binding protection authorized placement =
      (.ok attempt, after)) {occupancy : Occupancy} (found : after.keys key = some occupancy) :
    occupancy.physicalRoot = binding.physicalRoot ∧ occupancy.placement = placement := by
  rcases (admitWithOutcome_ok admitted).2 with ⟨pending, -, root, place, -, rfl⟩ |
    ⟨live, looked, root, place, -, rfl⟩ | ⟨-, -, rfl⟩
  · rw [keys_insertKey_self] at found
    cases found
    exact ⟨root, place⟩
  · rw [looked] at found
    cases found
    exact ⟨root, place⟩
  · rw [keys_insertKey_self] at found
    cases found
    exact ⟨rfl, rfl⟩

end ProjectRegistry

/-- A plan carries what was asked, and was only made where the protection rules allow it. -/
theorem planAdmission_ok {owner : Option OwnerIdentity} {surface : SurfaceKind}
    {key : ProjectKey} {protection : RootProtection} {authorized : Bool}
    {requested : StatePlacement} {plan : AdmissionPlan}
    (planned : planAdmission owner surface key protection authorized requested = .ok plan) :
    plan.key = key ∧ plan.placement = requested ∧ plan.protection = protection ∧
      plan.authorized = authorized ∧
      admissible protection authorized requested = true := by
  unfold planAdmission at planned
  cases owner with
  | none => cases planned
  | some owner =>
    dsimp only at planned
    split at planned
    · cases planned
    · cases planned
    · rename_i notLocal
      cases planned
      refine ⟨rfl, rfl, rfl, rfl, ?_⟩
      cases requested with
      | projectLocal => exact absurd rfl notLocal
      | userLocal => rfl
      | memoryOnly => rfl
    · cases planned
      exact ⟨rfl, rfl, rfl, rfl, rfl⟩

namespace AdmissionSystem

variable {system next : AdmissionSystem}
  {request : AdmissionRequest} {key : ProjectKey} {call : Nat} {attempt : AdmissionAttempt}
  {phase : AdmissionPhase} {after : ProjectRegistry}
  {owner : Option OwnerIdentity} {presented : PhysicalRootIdentity}

/-- Every call between its admission and its return would find what it presented. -/
structure Inv (system : AdmissionSystem) : Prop where
  keyed : system.registry.Keyed
  agreed : ∀ call request phase presented occupancy,
    system.calls call = some (request, phase) → phase.presented = some presented →
      system.registry.keys request.key = some occupancy →
        occupancy.physicalRoot = presented ∧ occupancy.placement = request.placement
  placed : ∀ call request phase, system.calls call = some (request, phase) →
    phase.presented ≠ none → request.accessMode = .explicitProtected →
      request.placement ≠ .projectLocal
  handed : system.HandedWhatWasAsked

/-- The invariant holds at the start. -/
theorem initial_inv (process : Process) : (initial process).Inv := by
  refine ⟨fun _ => ?_, ?_, ?_, fun _ => ?_⟩
  all_goals
    intros
    contradiction

/-- If the key is vacant, every call between its admission and its return on it presented this root
and placement. -/
def CreatesAlike (system : AdmissionSystem) (key : ProjectKey) (root : PhysicalRootIdentity)
    (placement : StatePlacement) : Prop :=
  system.registry.keys key = none → ∀ call request phase presented,
    system.calls call = some (request, phase) → request.key = key →
      phase.presented = some presented → presented = root ∧ request.placement = placement

/-- An admission that the protection rules allow makes no occupancy on another root or placement
than a call on the key between its admission and its return. -/
def RecreatesAlike (system : AdmissionSystem) : AdmissionAction → Prop
  | .admits call owner root => ∀ request retries plan,
    system.calls call = some (request, .passing retries) →
      planAdmission owner request.surface request.key request.protection request.authorized
        request.placement = .ok plan →
        system.CreatesAlike request.key root request.placement
  | .other (.admitWithOutcome key binding protection authorized placement) =>
    admissible protection authorized placement = true →
      system.CreatesAlike key binding.physicalRoot placement
  | _ => True

namespace Inv

/-- A continuing registry keeps the invariant. -/
theorem continues (inv : system.Inv) (continues : system.registry.Continues after) :
    Inv { system with registry := after } := by
  refine ⟨continues.keyed inv.keyed, ?_, inv.placed, inv.handed⟩
  intro call request phase presented occupancy called shown found
  obtain ⟨before, present, -, root, placement⟩ := continues request.key _ found
  rw [root, placement]
  exact inv.agreed _ _ _ _ _ called shown present

/-- A vacant key is occupied the way the calls that wait on it asked for. -/
theorem creates (inv : system.Inv) {created : Occupancy} (vacant : system.registry.keys key = none)
    (keys : after.keys = update system.registry.keys key (some created))
    (ownKey : created.key = key)
    (alike : system.CreatesAlike key created.physicalRoot created.placement) :
    Inv { system with registry := after } := by
  refine ⟨?_, ?_, inv.placed, inv.handed⟩
  · rw [ProjectRegistry.Keyed, keys]
    exact forall_update_some ownKey inv.keyed
  · intro call request phase presented occupancy called shown found
    rw [keys] at found
    rcases update_some_eq_some.mp found with ⟨here, rfl⟩ | ⟨-, before⟩
    · obtain ⟨root, placement⟩ := alike vacant _ _ _ _ called here shown
      exact ⟨root.symm, placement.symm⟩
    · exact inv.agreed _ _ _ _ _ called shown before

/-- A call goes on to a phase whose own part of the invariant holds. -/
theorem advance (inv : system.Inv)
    (agreed : ∀ presented occupancy, phase.presented = some presented →
      system.registry.keys request.key = some occupancy →
        occupancy.physicalRoot = presented ∧ occupancy.placement = request.placement)
    (placed : phase.presented ≠ none → request.accessMode = .explicitProtected →
      request.placement ≠ .projectLocal)
    (handed : ∀ presented slot cleanup, phase = .returned presented slot cleanup →
      slot.binding.physicalRoot = presented ∧ slot.placement = request.placement ∧
        (request.accessMode = .explicitProtected → slot.placement ≠ .projectLocal)) :
    (system.setPhase call request phase).Inv := by
  refine ⟨inv.keyed, ?_, ?_, ?_⟩
  · intro other asked reached presented occupancy called shown found
    rcases update_some_eq_some.mp called with ⟨-, same⟩ | ⟨-, before⟩
    · cases same
      exact agreed _ _ shown found
    · exact inv.agreed _ _ _ _ _ before shown found
  · intro other asked reached called
    rcases update_some_eq_some.mp called with ⟨-, same⟩ | ⟨-, before⟩
    · cases same
      exact placed
    · exact inv.placed _ _ _ before
  · intro other asked presented slot cleanup called
    rcases update_some_eq_some.mp called with ⟨-, same⟩ | ⟨-, before⟩
    · cases same
      exact handed _ _ _ rfl
    · exact inv.handed _ _ _ _ _ before

/-- A phase in which a call has presented nothing and returned nothing. -/
theorem advance_idle (inv : system.Inv) (idle : phase.presented = none)
    (unreturned : ∀ presented slot cleanup, phase ≠ .returned presented slot cleanup) :
    (system.setPhase call request phase).Inv := by
  apply inv.advance
  · intro presented occupancy shown
    rw [idle] at shown
    cases shown
  · exact fun shown => absurd idle shown
  · exact fun presented slot cleanup same => absurd same (unreturned _ _ _)

/-- A call for a protected root was only admitted with its state elsewhere. -/
theorem placed_of_plan {plan : AdmissionPlan}
    (planned : planAdmission owner request.surface request.key request.protection
      request.authorized request.placement = .ok plan)
    (explicit : request.accessMode = .explicitProtected) :
    request.placement ≠ .projectLocal := by
  obtain ⟨-, -, -, -, allowed⟩ := planAdmission_ok planned
  intro isLocal
  rw [AdmissionRequest.protection, explicit, isLocal] at allowed
  simp [admissible] at allowed

section
variable (inv : system.Inv)
include inv

/-- An admission on the registry, by a call or by anybody else. -/
theorem admission (key : ProjectKey) (binding : BindingAuthority)
    (protection : RootProtection) (authorized : Bool) (placement : StatePlacement)
    (alike : admissible protection authorized placement = true →
      system.CreatesAlike key binding.physicalRoot placement) :
    Inv { system with registry :=
      (system.registry.admitWithOutcome key binding protection authorized placement).2 } := by
  rcases system.registry.admit_continues _ _ _ with
    continues | ⟨vacant, allowed, keys⟩
  · exact inv.continues continues
  · exact inv.creates vacant keys rfl (alike allowed)

open ProjectRegistry.Continues

/-- So does the pass that admits. -/
theorem admitPass_inv {retries : Nat} {root : PhysicalRootIdentity}
    (alike : ∀ plan, planAdmission owner request.surface request.key request.protection
      request.authorized request.placement = .ok plan →
        system.CreatesAlike request.key root request.placement) :
    (system.admitPass call request retries owner root).Inv := by
  unfold admitPass
  split
  · exact inv.advance_idle rfl (fun _ _ _ => nofun)
  rename_i plan planned
  obtain ⟨key, placement, -, -, -⟩ := planAdmission_ok planned
  dsimp only [BindingAuthority.bind, Process.mintIdentity]
  have bound : Inv { system with registry := { system.registry with process :=
      { system.registry.process with
        nextIdentity := system.registry.process.nextIdentity + 1 } } } :=
    inv.continues (refl system.registry)
  have done := bound.admission plan.key ⟨⟨system.registry.process.nextIdentity⟩, root⟩
    plan.protection plan.authorized plan.placement
    (by rw [key, placement]; exact fun _ => alike _ planned)
  rcases outcome : admitWithOutcome { system.registry with process :=
      { system.registry.process with
        nextIdentity := system.registry.process.nextIdentity + 1 } } plan.key
      ⟨⟨system.registry.process.nextIdentity⟩, root⟩ plan.protection plan.authorized
      plan.placement with ⟨result, after⟩
  rw [outcome] at done
  simp only [executePlanWithOutcome, outcome]
  cases result with
  | error refusal => exact done.advance_idle rfl (fun _ _ _ => nofun)
  | ok attempt =>
    apply done.advance
    · intro presented occupancy shown found
      cases shown
      have agreed := admit_agrees outcome (key ▸ found)
      exact ⟨agreed.1, agreed.2.trans placement⟩
    · exact fun _ => placed_of_plan planned
    · exact fun _ _ _ => nofun

/-- So does the pass that installs. -/
theorem installPass_inv {retries : Nat} {owner : OwnerIdentity}
    (called : system.calls call = some (request, .admitted retries presented attempt owner)) :
    (system.installPass call request retries presented attempt owner).Inv := by
  have installed := inv.continues
    (install_continues inv.keyed request.key (some owner))
  have placed := inv.placed _ _ _ called (by simp [AdmissionPhase.presented])
  unfold installPass
  rcases install_cases system.registry request.key (some owner) with
    ⟨pending, found, done⟩ | ⟨done, -⟩
  · rw [done] at installed ⊢
    obtain ⟨root, placement⟩ := inv.agreed _ _ _ _ (.pending pending) called rfl found
    apply installed.advance
    · exact fun _ _ shown => nomatch shown
    · exact fun shown => absurd rfl shown
    intro _ _ _ same
    cases same
    refine ⟨root, placement, ?_⟩
    intro explicit
    exact fun isLocal => placed explicit (placement.symm.trans isLocal)
  · rw [done] at installed ⊢
    apply installed.advance
    · intro shownRoot occupancy shown found
      cases shown
      exact inv.agreed _ _ _ _ _ called rfl found
    · exact fun _ => placed
    · exact fun _ _ _ => nofun

/-- So does the pass that looks up. -/
theorem lookUpPass_inv {retries : Nat}
    (called : system.calls call = some (request, .looking retries presented attempt)) :
    (system.lookUpPass call request retries presented attempt).Inv := by
  have placed := inv.placed _ _ _ called (by simp [AdmissionPhase.presented])
  unfold lookUpPass live
  cases found : system.registry.keys request.key with
  | none =>
    dsimp only
    split
    · exact inv.advance_idle rfl (fun _ _ _ => nofun)
    · exact inv.advance_idle rfl (fun _ _ _ => nofun)
  | some occupancy =>
    obtain ⟨root, placement⟩ := inv.agreed _ _ _ _ _ called rfl found
    cases occupancy with
    | pending admission =>
      dsimp only
      split
      · exact inv.advance_idle rfl (fun _ _ _ => nofun)
      · exact inv.advance_idle rfl (fun _ _ _ => nofun)
    | live slot =>
      have held : Inv { system with registry := system.registry.hold slot } :=
        inv.continues (refl system.registry)
      apply held.advance
      · exact fun _ _ shown => nomatch shown
      · exact fun shown => absurd rfl shown
      intro _ _ _ same
      cases same
      refine ⟨root, placement, ?_⟩
      intro explicit
      exact fun isLocal => placed explicit (placement.symm.trans isLocal)

/-- Every step that recreates no occupancy otherwise keeps the invariant. -/
theorem step_inv {action : AdmissionAction}
    (alike : system.RecreatesAlike action) (taken : system.step action = some next) : next.Inv := by
  cases action with
  | start call request =>
    simp only [step] at taken
    split at taken
    · cases taken
      exact inv.advance_idle rfl (fun _ _ _ => nofun)
    · cases taken
  | admits call owner root =>
    simp only [step] at taken
    split at taken
    · rename_i request retries called
      cases taken
      exact inv.admitPass_inv (fun plan => alike _ _ _ called)
    · cases taken
  | install call =>
    simp only [step] at taken
    split at taken
    · rename_i called
      cases taken
      exact inv.installPass_inv called
    · cases taken
  | lookUp call =>
    simp only [step] at taken
    split at taken
    · rename_i called
      cases taken
      exact inv.lookUpPass_inv called
    · cases taken
  | other request =>
    cases taken
    cases request with
    | admitWithOutcome key binding protection authorized placement =>
      exact inv.admission _ _ _ _ _ alike
    | install key owner =>
      exact inv.continues (install_continues inv.keyed _ _)
    | cancel key => exact inv.continues (cancel_continues)
    | stop key => exact inv.continues (stop_continues)
    | stopIfUnheld key slot =>
      exact inv.continues (stopIfUnheld_continues _)

end

end Inv

/-- A call that waits on a key which was occupied otherwise can be handed that occupancy. -/
theorem mismatch_follows {pending : PendingProjectAdmission}
    (found : system.registry.keys key = some (.pending pending)) (ownKey : pending.key = key)
    (called : system.calls call = some (request, phase)) (sameKey : request.key = key)
    (shown : phase.presented = some presented)
    (otherwise : ¬ (presented = pending.binding.physicalRoot ∧
      request.placement = pending.placement)) :
    ∃ later final, run step system later = some final ∧ ¬ final.HandedWhatWasAsked := by
  subst sameKey
  -- whoever installs, the slot has the root and the placement of the pending occupancy
  have wrong : ∀ (final : AdmissionSystem) (owner : Option OwnerIdentity) (cleanup : Bool),
      final.calls call = some (request,
        .returned presented (system.registry.installedSlot pending owner) cleanup) →
      ¬ final.HandedWhatWasAsked := by
    intro final owner cleanup returned handed
    obtain ⟨root, placement, -⟩ := handed _ _ _ _ _ returned
    exact otherwise ⟨root.symm, placement.symm⟩
  have install : ∀ owner, ∃ registry, system.registry.install request.key owner =
        (.ok (system.registry.installedSlot pending owner), registry) ∧
      registry.keys request.key =
        some (.live (system.registry.installedSlot pending owner)) := by
    intro owner
    rcases install_cases system.registry request.key _ with
      ⟨installed, looked, done⟩ | ⟨-, nothing⟩
    · rw [found] at looked
      cases looked
      refine ⟨_, done, ?_⟩
      rw [ownKey]
      exact update_self ..
    · exact absurd found (nothing _)
  cases phase with
  | passing retries | returned root slot cleanup | refused refusal => cases shown
  | admitted retries root attempt owner =>
    cases shown
    obtain ⟨registry, done, -⟩ := install (some owner)
    refine ⟨[.install call], _, ?_, wrong ({ system with registry }.setPhase call request
      (.returned _ (system.registry.installedSlot _ (some owner))
        attempt.cleanupCandidate)) _ _ (update_self ..)⟩
    simp [run, step, called, installPass, done]
  | looking retries root attempt =>
    cases shown
    obtain ⟨registry, done, live⟩ := install none
    refine ⟨[.other (.install request.key none), .lookUp call], _, ?_, wrong ({ system with
        registry := registry.hold (system.registry.installedSlot pending none) }.setPhase call
          request (.returned _ (system.registry.installedSlot pending none)
            attempt.cleanupCandidate)) _ _ (update_self ..)⟩
    simp [run, step, ProjectRegistry.call, done, called, lookUpPass, ProjectRegistry.live, live,
      Option.bind_some]

/-- A pass that was planned occupies a vacant key as its call asks for. -/
theorem admitPass_vacant (call : Nat) (retries : Nat) (root : PhysicalRootIdentity)
    {plan : AdmissionPlan}
    (planned : planAdmission owner request.surface request.key request.protection
      request.authorized request.placement = .ok plan)
    (vacant : system.registry.keys request.key = none) :
    ∃ registry phase pending, system.admitPass call request retries owner root =
        { system with registry }.setPhase call request phase ∧
      registry.keys request.key = some (.pending pending) ∧ pending.key = request.key ∧
      pending.binding.physicalRoot = root ∧ pending.placement = request.placement := by
  obtain ⟨key, placement, protection, authorized, allowed⟩ := planAdmission_ok planned
  simp only [admitPass, planned, BindingAuthority.bind, Process.mintIdentity,
    executePlanWithOutcome, key, placement, protection, authorized]
  rw [admit_vacant (by exact vacant) allowed]
  exact ⟨_, _, _, rfl, update_self .., rfl, rfl, rfl⟩

/-- A call is handed what it asked for in every run in which no occupancy is recreated otherwise
while it waits; where a step does that, the run can go on to a wrong slot. -/
theorem handed_what_was_asked (process : Process) :
    (∀ actions system, RunMeets step RecreatesAlike (initial process) actions →
      run step (initial process) actions = some system → system.HandedWhatWasAsked) ∧
    ∀ system action next, step system action = some next → ¬ system.RecreatesAlike action →
      ∃ later final, run step next later = some final ∧ ¬ final.HandedWhatWasAsked := by
  constructor
  · intro actions system meets reached
    have inv : system.Inv := run_invariant_meets Inv
      (fun _ _ _ inv alike taken => inv.step_inv alike taken) (initial_inv _) meets reached
    exact inv.handed
  · intro system action next taken otherwise
    cases action with
    | start call request | install call | lookUp call => exact absurd trivial otherwise
    | admits call owner root =>
      simp only [RecreatesAlike, CreatesAlike, not_forall] at otherwise
      obtain ⟨request, retries, plan, called, planned, vacant, waiting, asked, phase, presented,
        waits, sameKey, shown, differs⟩ := otherwise
      obtain ⟨registry, entered, pending, done, found, ownKey, bound, placement⟩ :=
        admitPass_vacant call retries root planned vacant
      simp only [step, called, Option.some.injEq, done] at taken
      subst taken
      have apart : waiting ≠ call := by
        rintro rfl
        rw [called] at waits
        cases waits
        cases shown
      rw [← placement, ← bound] at differs
      exact mismatch_follows found ownKey ((update_of_ne apart ..).trans waits) sameKey
        shown differs
    | other request =>
      cases request with
      | install key owner | cancel key | stop key | stopIfUnheld key slot =>
        exact absurd trivial otherwise
      | admitWithOutcome key binding protection authorized placement =>
        simp only [RecreatesAlike, CreatesAlike, not_forall] at otherwise
        obtain ⟨allowed, vacant, waiting, asked, phase, presented, waits, sameKey, shown,
          differs⟩ := otherwise
        simp only [step, call, Option.some.injEq] at taken
        rw [admit_vacant vacant allowed] at taken
        subst taken
        exact mismatch_follows (update_self ..) rfl waits sameKey shown differs

/-- A call that opens a protected root with user-local state. -/
def protectedOpen : AdmissionRequest := ⟨.daemon, ⟨"p"⟩, .explicitProtected, .userLocal⟩

/-- Call 0 opens a protected root and joins the live occupancy of call 1, which is stopped, and call
2 occupies the key for the same root before call 0 installs. -/
def reoccupied (third : AdmissionRequest) : List AdmissionAction :=
  [.start 0 protectedOpen, .start 1 protectedOpen, .start 2 third,
    .admits 1 (some ⟨1⟩) ⟨1⟩, .install 1, .admits 0 (some ⟨1⟩) ⟨1⟩, .other (.stop ⟨"p"⟩),
    .admits 2 (some ⟨1⟩) ⟨1⟩, .install 0]

/-- Nobody who waits in a run of equal calls is handed something else. -/
theorem reoccupied_alike :
    ∃ system, run step (initial Process.initial) (reoccupied protectedOpen) = some system ∧
      (∃ slot, system.calls 0 = some (protectedOpen, .returned ⟨1⟩ slot false)) ∧
      system.HandedWhatWasAsked := by
  refine ⟨_, rfl, ⟨_, rfl⟩,
    (handed_what_was_asked Process.initial).1 (reoccupied protectedOpen) _ ?_ rfl⟩
  refine .cons trivial rfl (.cons trivial rfl (.cons trivial rfl (.cons ?vacant rfl (.cons trivial
    rfl (.cons ?joined rfl (.cons trivial rfl (.cons ?again rfl (.cons trivial rfl trivial))))))))
  case joined =>
    intro request retries plan called _ vacant
    cases called
    cases vacant
  all_goals
    intro request retries plan called _ _ waiting asked phase presented waits _ shown
    cases called
  case vacant => match waiting with | 0 | 1 | 2 | _ + 3 => cases waits <;> cases shown
  case again =>
    match waiting with
    | 1 | 2 | _ + 3 => cases waits <;> cases shown
    -- the one that waits presented the same root and placement
    | 0 =>
      cases waits
      cases shown
      exact ⟨rfl, rfl⟩

/-- Where the third call asks for state beneath the project, the protected opener is handed it. -/
theorem reoccupied_wrong :
    ∃ system, run step (initial Process.initial)
        (reoccupied ⟨.daemon, ⟨"p"⟩, .normalProject, .projectLocal⟩) = some system ∧
      ∃ slot, system.calls 0 = some (protectedOpen, .returned ⟨1⟩ slot false) ∧
        slot.placement = .projectLocal ∧ ¬ system.HandedWhatWasAsked := by
  refine ⟨_, rfl, _, rfl, rfl, ?_⟩
  intro handed
  exact nomatch (handed 0 _ _ _ _ rfl).2.1

end AdmissionSystem

end Symforge.Lifecycle
