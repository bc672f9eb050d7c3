import Symforge.Library.Run
import Symforge.Lifecycle.ProjectRegistry

/-!
# Safety of the project registry

A run of registry calls carries two histories: what every successful admission asked for, and
every handle that was given out. An identity names one occupancy of one key; once it is retired,
no handle to it is honoured again and the binding it was on is revoked for every clone.
-/

namespace Symforge.Lifecycle

open Library List Function ProjectRegistry Nat Process

/-- What a successful admission asked for, and the slot it was given. -/
structure Admitted where
  slot : SlotIdentity
  key : ProjectKey
  physicalRoot : PhysicalRootIdentity
  protection : RootProtection
  placement : StatePlacement
deriving DecidableEq, Repr

/-- A registry with the admissions it granted and the handles it gave out. -/
structure RegistryRun where
  registry : ProjectRegistry
  admitted : List Admitted
  handed : List LiveProjectSlot

/-- What callers do with a registry and its handles. -/
inductive RegistryCall where
  | call (request : ProjectRegistry.Call)
  /-- `ProjectRegistry::live`. -/
  | live (key : ProjectKey)
  /-- `Arc::clone` of a handle. -/
  | cloneHandle (slot : LiveProjectSlot)
  /-- A caller drops one of its clones. -/
  | dropHandle (slot : LiveProjectSlot)
deriving DecidableEq, Repr

namespace RegistryRun

/-- A fresh registry. -/
def initial (process : Process) : RegistryRun := ⟨ProjectRegistry.new process, [], []⟩

variable (history : RegistryRun)

/-- Record the handle a call returned. -/
def recordHanded
    (outcome : Except RegistryRefusal LiveProjectSlot × ProjectRegistry) : RegistryRun :=
  match outcome with
  | (.ok slot, after) => { history with registry := after, handed := slot :: history.handed }
  | (.error _, after) => { history with registry := after }

/-- One action of a caller. -/
def step : RegistryCall → Option RegistryRun
  | .call (.admitWithOutcome key binding protection authorized placement) =>
    match history.registry.admitWithOutcome key binding protection authorized placement with
    | (.ok attempt, after) => some { history with
        registry := after
        admitted := ⟨attempt.slot, key, binding.physicalRoot, protection, placement⟩ ::
          history.admitted }
    | (.error _, after) => some { history with registry := after }
  | .call (.install key owner) => some (history.recordHanded (history.registry.install key owner))
  | .call (.cancel key) => some { history with registry := (history.registry.cancel key).2 }
  | .call (.stop key) => some { history with registry := (history.registry.stop key).2 }
  | .call (.stopIfUnheld key slot) =>
    some { history with registry := (history.registry.stopIfUnheld key slot).2 }
  | .live key => some (history.recordHanded (history.registry.live key))
  | .cloneHandle slot =>
    if slot ∈ history.handed then some { history with registry := history.registry.hold slot }
    else none
  | .dropHandle slot =>
    if 0 < history.registry.holders slot.allocation then
      some { history with registry := { history.registry with
        holders := update history.registry.holders slot.allocation
          (history.registry.holders slot.allocation - 1) } }
    else none

/-- Every occupancy is under its own key and identity, and every admission found what it asked. -/
structure Occupied (registry : ProjectRegistry) (admitted : List Admitted) : Prop where
  keyed : ∀ key occupancy, registry.keys key = some occupancy → occupancy.key = key
  minted : ∀ key occupancy, registry.keys key = some occupancy →
    occupancy.slot.raw < registry.nextSlot
  unretired : ∀ key occupancy, registry.keys key = some occupancy →
    registry.tombstones occupancy.slot = none
  /-- Two keys are not occupied under one identity. -/
  single : ∀ key other occupancy another, registry.keys key = some occupancy →
    registry.keys other = some another → occupancy.slot = another.slot → key = other
  retiredMinted : ∀ slot key, registry.tombstones slot = some key →
    slot.raw < registry.nextSlot
  /-- What was admitted is still there as it was asked for, or retired. -/
  honoured : ∀ request ∈ admitted, (∃ occupancy, registry.keys request.key = some occupancy ∧
      occupancy.slot = request.slot ∧ occupancy.physicalRoot = request.physicalRoot ∧
      occupancy.placement = request.placement) ∨
    registry.tombstones request.slot = some request.key
  agree : ∀ request ∈ admitted, ∀ other ∈ admitted, request.slot = other.slot →
    request.key = other.key ∧ request.physicalRoot = other.physicalRoot ∧
      request.placement = other.placement
  guarded : ∀ request ∈ admitted,
    ¬ (request.protection = .protectedRoot ∧ request.placement = .projectLocal)

/-- Every handle is the live occupancy of its key, or retired together with its binding. -/
structure Served (registry : ProjectRegistry) (handed : List LiveProjectSlot) : Prop where
  served : ∀ slot ∈ handed,
    (registry.keys slot.key = some (.live slot) ∧ registry.revoked slot.allocation = false) ∨
    (registry.tombstones slot.slot = some slot.key ∧ registry.revoked slot.allocation = true ∧
      registry.process.bindingLive slot.binding.identity = false)
  liveHanded : ∀ key slot, registry.keys key = some (.live slot) → slot ∈ handed
  allocations : ∀ slot ∈ handed, slot.allocation < registry.allocated
  ownFlag : ∀ slot ∈ handed, ∀ other ∈ handed, slot.allocation = other.allocation → slot = other

/-- What holds between calls. -/
structure Inv (history : RegistryRun) : Prop where
  occupied : Occupied history.registry history.admitted
  served : Served history.registry history.handed

/-- The invariant holds at the start. -/
theorem initial_inv (process : Process) : (initial process).Inv := by
  refine ⟨⟨?_, ?_, ?_, ?_, ?_, ?_, ?_, ?_⟩, ⟨?_, ?_, ?_, ?_⟩⟩
  all_goals
    intros
    contradiction

namespace Occupied

variable {registry : ProjectRegistry} {admitted : List Admitted} {key : ProjectKey}
  {occupancy : Occupancy}

/-- A retired slot is not occupied. -/
theorem ne_of_retired (occupied : Occupied registry admitted)
    (found : registry.keys key = some occupancy) {slot : SlotIdentity} {other : ProjectKey}
    (retired : registry.tombstones slot = some other) : slot ≠ occupancy.slot := by
  rintro rfl
  rw [occupied.unretired _ _ found] at retired
  cases retired

/-- An admission on a key that is occupied is recorded with what the occupancy has. -/
theorem join (occupied : Occupied registry admitted)
    (found : registry.keys key = some occupancy) {request : Admitted}
    (sameKey : request.key = key) (sameSlot : request.slot = occupancy.slot)
    (sameRoot : request.physicalRoot = occupancy.physicalRoot)
    (samePlacement : request.placement = occupancy.placement)
    (allowed : ¬ (request.protection = .protectedRoot ∧ request.placement = .projectLocal)) :
    Occupied registry (request :: admitted) := by
  -- an earlier admission under this identity was honoured by the same occupancy
  have earlier : ∀ other ∈ admitted, other.slot = request.slot →
      other.key = request.key ∧ other.physicalRoot = request.physicalRoot ∧
        other.placement = request.placement := by
    intro other listed same
    rcases occupied.honoured _ listed with ⟨held, looked, slot, root, placement⟩ | retired
    · have heldKey : other.key = key := by
        apply occupied.single other.key _ _ _ looked found
        rw [slot, same, sameSlot]
      rw [heldKey, found] at looked
      cases looked
      rw [heldKey, sameKey, sameRoot, samePlacement]
      exact ⟨rfl, root.symm, placement.symm⟩
    · exact absurd (same.trans sameSlot) (occupied.ne_of_retired found retired)
  refine { occupied with honoured := ?_, agree := ?_, guarded := ?_ }
  · exact forall_mem_cons.mpr ⟨.inl ⟨_, by rw [sameKey, found], sameSlot.symm,
      sameRoot.symm, samePlacement.symm⟩, occupied.honoured⟩
  · refine forall_mem_cons.mpr ⟨forall_mem_cons.mpr ⟨fun _ => ⟨rfl, rfl, rfl⟩, ?_⟩, ?_⟩
    · intro other before same
      obtain ⟨keys, roots, placements⟩ := earlier _ before same.symm
      exact ⟨keys.symm, roots.symm, placements.symm⟩
    · exact fun one before =>
        forall_mem_cons.mpr ⟨earlier _ before, occupied.agree _ before⟩
  · exact forall_mem_cons.mpr ⟨allowed, occupied.guarded⟩

variable {after : ProjectRegistry}

section
variable (occupied : Occupied registry admitted)
include occupied

/-- The occupancy of a key goes on in another form, under its identity. -/
theorem replace {next : Occupancy}
    (found : registry.keys key = some occupancy)
    (keys : after.keys = update registry.keys key (some next))
    (tombstones : after.tombstones = registry.tombstones)
    (nextSlot : after.nextSlot = registry.nextSlot)
    (sameKey : next.key = occupancy.key) (sameSlot : next.slot = occupancy.slot)
    (sameRoot : next.physicalRoot = occupancy.physicalRoot)
    (samePlacement : next.placement = occupancy.placement) : Occupied after admitted := by
  refine ⟨?_, ?_, ?_, ?_, ?_, ?_, occupied.agree, occupied.guarded⟩
  · rw [keys]
    exact forall_update_some (sameKey.trans (occupied.keyed _ _ found)) occupied.keyed
  · rw [keys, nextSlot]
    exact forall_update_some (sameSlot ▸ occupied.minted _ _ found) occupied.minted
  · rw [keys, tombstones]
    exact forall_update_some (sameSlot ▸ occupied.unretired _ _ found) occupied.unretired
  · rw [keys]
    refine update_some_injective occupied.single fun other held apart looked same => apart ?_
    exact occupied.single _ _ _ _ looked found (same.trans sameSlot)
  · rw [tombstones, nextSlot]
    exact occupied.retiredMinted
  · intro request listed
    rw [tombstones, keys]
    rcases occupied.honoured _ listed with ⟨held, looked, slot, root, placement⟩ | retired
    · left
      by_cases here : request.key = key
      · rw [here, found] at looked
        cases looked
        refine ⟨next, ?_, sameSlot.trans slot, sameRoot.trans root, samePlacement.trans placement⟩
        rw [here, update_self]
      · exact ⟨held, by rw [update_of_ne here, looked], slot, root, placement⟩
    · exact .inr retired

/-- A vacant key is occupied under a new identity. -/
theorem create {next : Occupancy}
    (vacant : registry.keys key = none)
    (keys : after.keys = update registry.keys key (some next))
    (tombstones : after.tombstones = registry.tombstones)
    (nextSlot : after.nextSlot = registry.nextSlot + 1)
    (ownKey : next.key = key) (fresh : next.slot = ⟨registry.nextSlot⟩) :
    Occupied after admitted := by
  have unused : ∀ other held, registry.keys other = some held → held.slot ≠ next.slot := by
    intro other held looked same
    have old := occupied.minted _ _ looked
    rw [same, fresh] at old
    exact lt_irrefl _ old
  refine ⟨?_, ?_, ?_, ?_, ?_, ?_, occupied.agree, occupied.guarded⟩
  · rw [keys]
    exact forall_update_some ownKey occupied.keyed
  · rw [keys, nextSlot]
    refine forall_update_some ?_ fun other held before =>
      lt_succ_of_lt (occupied.minted _ _ before)
    rw [fresh]
    exact lt_succ_self _
  · rw [keys, tombstones]
    refine forall_update_some ?_ occupied.unretired
    rw [fresh]
    refine Option.eq_none_iff_forall_ne_some.mpr fun key retired => ?_
    exact lt_irrefl _ (occupied.retiredMinted _ _ retired)
  · rw [keys]
    exact update_some_injective occupied.single fun other held _ => unused _ _
  · rw [tombstones, nextSlot]
    exact fun slot key retired => lt_succ_of_lt (occupied.retiredMinted _ _ retired)
  · intro request listed
    rw [tombstones, keys]
    rcases occupied.honoured _ listed with ⟨held, looked, same⟩ | retired
    · have apart : request.key ≠ key := by
        intro here
        rw [here, vacant] at looked
        cases looked
      exact .inl ⟨_, by rw [update_of_ne apart, looked], same⟩
    · exact .inr retired

/-- The occupancy of a key ends and its identity is retired. -/
theorem retire (found : registry.keys key = some occupancy)
    (keys : after.keys = update registry.keys key none)
    (tombstones : after.tombstones =
      update registry.tombstones occupancy.slot (some occupancy.key))
    (nextSlot : after.nextSlot = registry.nextSlot) : Occupied after admitted := by
  have ownKey := occupied.keyed _ _ found
  have remains : ∀ other held, after.keys other = some held →
      other ≠ key ∧ registry.keys other = some held := by
    intro other held looked
    rw [keys] at looked
    exact update_none_eq_some.mp looked
  refine ⟨?_, ?_, ?_, ?_, ?_, ?_, occupied.agree, occupied.guarded⟩
  · intro other held looked
    exact occupied.keyed _ _ (remains _ _ looked).2
  · intro other held looked
    rw [nextSlot]
    exact occupied.minted _ _ (remains _ _ looked).2
  · intro other held looked
    obtain ⟨apart, before⟩ := remains _ _ looked
    have different : held.slot ≠ occupancy.slot := fun same =>
      apart (occupied.single _ _ _ _ before found same)
    rw [tombstones, update_of_ne different]
    exact occupied.unretired _ _ before
  · intro one other held another looked alsoLooked same
    exact occupied.single _ _ _ _ (remains _ _ looked).2
      (remains _ _ alsoLooked).2 same
  · rw [nextSlot, tombstones]
    exact forall_update_some (occupied.minted _ _ found) occupied.retiredMinted
  · intro request listed
    rw [tombstones, keys]
    rcases occupied.honoured _ listed with ⟨held, looked, slot, same⟩ | retired
    · by_cases here : request.key = key
      · rw [here, found] at looked
        cases looked
        right
        rw [← slot, update_self, ownKey, here]
      · exact .inl ⟨held, by rw [update_of_ne here, looked], slot, same⟩
    · right
      rw [update_of_ne (occupied.ne_of_retired found retired)]
      exact retired

end

end Occupied

variable {key : ProjectKey}

/-- A pending occupancy in the place of one that is not live changes no live one. -/
theorem live_insertPending {keys : ProjectKey → Option Occupancy}
    {pending : PendingProjectAdmission} (notLive : ∀ slot, keys key ≠ some (.live slot))
    (other : ProjectKey) (slot : LiveProjectSlot) :
    update keys key (some (.pending pending)) other = some (.live slot) ↔
      keys other = some (.live slot) := by
  rw [update_some_eq_some]
  constructor
  · rintro (⟨-, same⟩ | ⟨-, before⟩)
    · cases same
    · exact before
  · intro looked
    refine .inr ⟨?_, looked⟩
    rintro rfl
    exact notLive _ looked

namespace Served

variable {registry : ProjectRegistry} {handed : List LiveProjectSlot} {key : ProjectKey}

section
variable (served : Served registry handed)
include served

/-- What leaves live occupancies, their flags and tombstones alone keeps the handles served. -/
theorem keep {after : ProjectRegistry}
    (sameLive : ∀ key slot, after.keys key = some (.live slot) ↔
      registry.keys key = some (.live slot))
    (retired : ∀ slot ∈ handed, registry.tombstones slot.slot = some slot.key →
      after.tombstones slot.slot = some slot.key)
    (revoked : after.revoked = registry.revoked) (process : after.process = registry.process)
    (allocated : after.allocated = registry.allocated) : Served after handed := by
  refine ⟨?_, ?_, ?_, served.ownFlag⟩
  · intro slot listed
    rw [revoked, process]
    rcases served.served _ listed with ⟨found, flag⟩ | ⟨stopped, rest⟩
    · exact .inl ⟨(sameLive slot.key _).mpr found, flag⟩
    · exact .inr ⟨retired _ listed stopped, rest⟩
  · exact fun other slot found => served.liveHanded _ _ ((sameLive _ _).mp found)
  · rw [allocated]
    exact served.allocations

/-- Installing gives out a handle with a flag of its own. -/
theorem install {pending : PendingProjectAdmission}
    {live : LiveProjectSlot} {after : ProjectRegistry}
    (found : registry.keys key = some (.pending pending)) (liveKey : live.key = key)
    (allocation : live.allocation = registry.allocated)
    (keys : after.keys = update registry.keys key (some (.live live)))
    (tombstones : after.tombstones = registry.tombstones)
    (process : after.process = registry.process)
    (revoked : after.revoked = update registry.revoked registry.allocated false)
    (allocated : after.allocated = registry.allocated + 1) : Served after (live :: handed) := by
  have olderFlag : ∀ slot ∈ handed, slot.allocation ≠ registry.allocated := fun slot listed =>
    Nat.ne_of_lt (served.allocations _ listed)
  refine ⟨?_, ?_, ?_, ?_⟩
  · intro slot listed
    rw [keys, tombstones, process, revoked]
    rcases mem_cons.mp listed with rfl | before
    · left
      rw [liveKey, allocation]
      exact ⟨update_self .., update_self ..⟩
    rw [update_of_ne (olderFlag _ before)]
    rcases served.served _ before with ⟨looked, flag⟩ | stopped
    · have apart : slot.key ≠ key := by
        intro here
        rw [here, found] at looked
        cases looked
      exact .inl ⟨by rw [update_of_ne apart, looked], flag⟩
    · exact .inr stopped
  · intro other slot looked
    rw [keys] at looked
    rcases update_some_eq_some.mp looked with ⟨-, same⟩ | ⟨-, before⟩
    · cases same
      exact mem_cons_self
    · exact mem_cons_of_mem _ (served.liveHanded _ _ before)
  · rw [allocated, forall_mem_cons, allocation]
    exact ⟨lt_succ_self _, fun slot before =>
      lt_succ_of_lt (served.allocations _ before)⟩
  · refine forall_mem_cons.mpr ⟨forall_mem_cons.mpr ⟨fun _ => rfl, ?_⟩, ?_⟩
    · exact fun other before same =>
        absurd (same.symm.trans allocation) (olderFlag _ before)
    · exact fun slot before => forall_mem_cons.mpr ⟨fun same =>
        absurd (same.trans allocation) (olderFlag _ before), served.ownFlag _ before⟩

/-- Stopping revokes every handle to the slot it retires, and no other. -/
theorem stop {admitted : List Admitted}
    (occupied : Occupied registry admitted) {live : LiveProjectSlot}
    (found : registry.keys key = some (.live live)) :
    Served (((registry.removeKey key).revoke live).insertTombstone live.slot live.key)
      handed := by
  have handedLive := served.liveHanded _ _ found
  have ownKey : live.key = key := occupied.keyed _ (.live live) found
  refine ⟨?_, ?_, served.allocations, served.ownFlag⟩
  · intro slot listed
    rcases served.served _ listed with ⟨looked, flag⟩ | ⟨retired, flag, binding⟩
    · by_cases same : slot = live
      · subst same
        refine .inr ⟨update_self .., update_self .., ?_⟩
        simp [revoke, insertTombstone, bindingLive, revokeBinding]
      left
      have apart : slot.key ≠ key := by
        intro here
        rw [here, found] at looked
        cases looked
        exact same rfl
      have otherFlag : slot.allocation ≠ live.allocation := fun shared =>
        same (served.ownFlag _ listed _ handedLive shared)
      constructor
      · exact update_none_eq_some.mpr ⟨apart, looked⟩
      · exact (update_of_ne otherFlag ..).trans flag
    · right
      have different : slot.slot ≠ live.slot := occupied.ne_of_retired found retired
      refine ⟨(update_of_ne different ..).trans retired, ?_, ?_⟩
      · by_cases shared : slot.allocation = live.allocation
        · exact (congrArg _ shared).trans (update_self ..)
        · exact (update_of_ne shared ..).trans flag
      · simp only [revoke, insertTombstone, bindingLive,
          revokeBinding, removeKey, Bool.not_eq_false',
          contains_cons, Bool.or_eq_true] at binding ⊢
        exact .inr binding
  · intro other slot looked
    exact served.liveHanded _ _ (update_none_eq_some.mp looked).2

end

end Served

namespace Inv

variable {history next : RegistryRun} {key : ProjectKey}

section
variable (inv : history.Inv)
include inv

/-- Admission keeps the invariant. -/
theorem admit_inv {binding : BindingAuthority} {protection : RootProtection}
    {authorized : Bool} {placement : StatePlacement}
    (taken : history.step (.call (.admitWithOutcome key binding protection authorized
      placement)) = some next) : next.Inv := by
  simp only [step] at taken
  split at taken
  · rename_i attempt after admitted
    cases taken
    obtain ⟨allowed, outcome⟩ := admitWithOutcome_ok admitted
    rcases outcome with ⟨pending, found, root, place, rfl, rfl⟩ |
      ⟨live, found, root, place, rfl, rfl⟩ | ⟨vacant, rfl, rfl⟩
    · have counted : Occupied (history.registry.insertKey key
          (.pending { pending with joiners := pending.joiners + 1 })) history.admitted :=
        inv.occupied.replace found rfl rfl rfl rfl rfl rfl rfl
      refine ⟨counted.join (update_self ..) rfl rfl root.symm place.symm allowed,
        inv.served.keep (live_insertPending ?_) (fun _ _ => id) rfl rfl rfl⟩
      rw [found]
      exact fun _ => nofun
    · exact ⟨inv.occupied.join found rfl rfl root.symm place.symm allowed, inv.served⟩
    · have created : Occupied ({ history.registry with
            nextSlot := history.registry.nextSlot + 1 }.insertKey key
          (.pending ⟨⟨history.registry.nextSlot⟩, key, binding, placement, 1⟩))
          history.admitted :=
        inv.occupied.create vacant rfl rfl rfl rfl rfl
      refine ⟨created.join (update_self ..) rfl rfl rfl rfl allowed,
        inv.served.keep (live_insertPending ?_) (fun _ _ => id) rfl rfl rfl⟩
      rw [vacant]
      exact fun _ => nofun
  · rename_i refusal after refused
    cases taken
    rw [admitWithOutcome_refused refused]
    exact inv

/-- Installation keeps the invariant. -/
theorem install_inv {owner : Option OwnerIdentity}
    (taken : history.step (.call (.install key owner)) = some next) : next.Inv := by
  cases taken
  rcases install_cases history.registry _ _ with
    ⟨pending, found, done⟩ | ⟨done, -⟩
  · have ownKey : pending.key = key := inv.occupied.keyed _ (.pending pending) found
    rw [done, ownKey, update_idem]
    exact ⟨inv.occupied.replace found rfl rfl rfl rfl rfl rfl rfl,
      inv.served.install found ownKey rfl rfl rfl rfl rfl rfl⟩
  · rw [done]
    exact inv

/-- Cancellation keeps the invariant. -/
theorem cancel_inv (taken : history.step (.call (.cancel key)) = some next) : next.Inv := by
  cases taken
  rcases cancel_cases history.registry _ with ⟨pending, found, done⟩ | done
  · rw [done]
    refine ⟨inv.occupied.retire found rfl rfl rfl, inv.served.keep ?_ ?_ rfl rfl rfl⟩
    · intro other slot
      constructor
      · intro looked
        exact (update_none_eq_some.mp looked).2
      · intro looked
        refine update_none_eq_some.mpr ⟨?_, looked⟩
        rintro rfl
        rw [found] at looked
        cases looked
    · intro slot listed retired
      have different : slot.slot ≠ pending.slot := inv.occupied.ne_of_retired found retired
      exact (update_of_ne different ..).trans retired
  · rw [done]
    exact inv

/-- Stopping a live project keeps the invariant. -/
theorem stop_inv {live : LiveProjectSlot}
    (found : history.registry.keys key = some (.live live)) :
    Inv { history with
      registry := ((history.registry.removeKey key).revoke live).insertTombstone live.slot
        live.key } :=
  ⟨inv.occupied.retire found rfl rfl rfl, inv.served.stop inv.occupied found⟩

/-- The number of clones of a handle is free. -/
theorem holders_inv (holders : Nat → Nat) :
    Inv { history with registry := { history.registry with holders } } :=
  ⟨⟨inv.occupied.keyed, inv.occupied.minted, inv.occupied.unretired, inv.occupied.single,
      inv.occupied.retiredMinted, inv.occupied.honoured, inv.occupied.agree,
      inv.occupied.guarded⟩,
    inv.served.keep (fun _ _ => .rfl) (fun _ _ => id) rfl rfl rfl⟩

/-- Handing out a live slot keeps the invariant. -/
theorem live_inv (taken : history.step (.live key) = some next) : next.Inv := by
  simp only [step, Option.some.injEq, live] at taken
  subst taken
  split
  · rename_i live found
    have listed := inv.served.liveHanded _ _ found
    have held := inv.holders_inv (history.registry.hold live).holders
    have inHanded : ∀ one ∈ live :: history.handed, one ∈ history.handed :=
      forall_mem_cons.mpr ⟨listed, fun _ => id⟩
    refine ⟨held.occupied, ⟨?_, ?_, ?_, ?_⟩⟩
    · intro slot member
      exact held.served.served _ (inHanded _ member)
    · intro other slot looked
      exact mem_cons_of_mem _ (held.served.liveHanded _ _ looked)
    · intro slot member
      exact held.served.allocations _ (inHanded _ member)
    · intro slot member other alsoMember
      exact held.served.ownFlag _ (inHanded _ member) _ (inHanded _ alsoMember)
  · exact inv
  · exact inv

/-- Every action keeps the invariant. -/
theorem step_inv {action : RegistryCall} (taken : history.step action = some next) : next.Inv := by
  cases action with
  | call request =>
    cases request with
    | admitWithOutcome key binding protection authorized placement => exact inv.admit_inv taken
    | install key owner => exact inv.install_inv taken
    | cancel key => exact inv.cancel_inv taken
    | stop key =>
      cases taken
      rcases stop_cases history.registry _ with ⟨live, found, done⟩ | done
      · rw [done]
        exact inv.stop_inv found
      · rw [done]
        exact inv
    | stopIfUnheld key slot =>
      cases taken
      rcases stopIfUnheld_cases history.registry _ _ with
        ⟨live, found, done⟩ | ⟨refusal, done⟩
      · rw [done]
        exact inv.stop_inv found
      · rw [done]
        exact inv
  | live key => exact inv.live_inv taken
  | cloneHandle slot | dropHandle slot =>
    simp only [step] at taken
    split at taken
    · cases taken
      exact inv.holders_inv _
    · cases taken

end

end Inv

/-- The identity names an occupancy of the key: one that is there, retired, admitted or that a
handle was given to. -/
def Belongs (slot : SlotIdentity) (key : ProjectKey) : Prop :=
  (∃ occupancy, history.registry.keys key = some occupancy ∧ occupancy.slot = slot) ∨
  history.registry.tombstones slot = some key ∨
  (∃ request ∈ history.admitted, request.slot = slot ∧ request.key = key) ∨
  ∃ handle ∈ history.handed, handle.slot = slot ∧ handle.key = key

/-- What the registry promises of its identities, its handles and its admissions. -/
structure Safe (history : RegistryRun) : Prop where
  oneKey : ∀ slot key other, history.Belongs slot key → history.Belongs slot other → key = other
  retiredNotCurrent : ∀ slot, history.registry.tombstones slot ≠ none →
    ∀ key, history.registry.isCurrent key slot = false
  retiredRefuses : ∀ handle ∈ history.handed, history.registry.tombstones handle.slot ≠ none →
    history.registry.binding handle = .error (.tombstoned handle.slot) ∧
    history.registry.capacityOwner handle = .error (.tombstoned handle.slot) ∧
    history.registry.process.bindingLive handle.binding.identity = false
  current : ∀ key slot, history.registry.isCurrent key slot = true →
    ∃ handle ∈ history.handed, history.registry.keys key = some (.live handle) ∧
      handle.slot = slot ∧ history.registry.isLive handle = true
  agree : ∀ request ∈ history.admitted, ∀ other ∈ history.admitted, request.slot = other.slot →
    request.physicalRoot = other.physicalRoot ∧ request.placement = other.placement
  joined : ∀ request ∈ history.admitted, ∀ key occupancy,
    history.registry.keys key = some occupancy → occupancy.slot = request.slot →
      occupancy.physicalRoot = request.physicalRoot ∧ occupancy.placement = request.placement
  protectedPlaced : ∀ request ∈ history.admitted, request.protection = .protectedRoot →
    request.placement ≠ .projectLocal

variable {history : RegistryRun} {slot : SlotIdentity}

section
variable (inv : history.Inv)
include inv

/-- What belongs to a key is there or retired. -/
theorem Inv.belongs (belongs : history.Belongs slot key) :
    (∃ occupancy, history.registry.keys key = some occupancy ∧ occupancy.slot = slot) ∨
      history.registry.tombstones slot = some key := by
  rcases belongs with present | retired | ⟨request, listed, rfl, rfl⟩ | ⟨handle, listed, rfl, rfl⟩
  · exact .inl present
  · exact .inr retired
  · rcases inv.occupied.honoured _ listed with ⟨held, looked, same, -⟩ | retired
    · exact .inl ⟨held, looked, same⟩
    · exact .inr retired
  · rcases inv.served.served _ listed with ⟨looked, -⟩ | ⟨retired, -⟩
    · exact .inl ⟨.live handle, looked, rfl⟩
    · exact .inr retired

/-- A slot belongs to one key. -/
theorem Inv.oneKey {other : ProjectKey}
    (belongs : history.Belongs slot key) (alsoBelongs : history.Belongs slot other) :
    key = other := by
  rcases inv.belongs belongs with ⟨held, looked, rfl⟩ | retired
  · rcases inv.belongs alsoBelongs with ⟨another, alsoLooked, same⟩ | alsoRetired
    · exact inv.occupied.single _ _ _ _ looked alsoLooked same.symm
    · exact absurd rfl (inv.occupied.ne_of_retired looked alsoRetired)
  · rcases inv.belongs alsoBelongs with ⟨another, alsoLooked, rfl⟩ | alsoRetired
    · exact absurd rfl (inv.occupied.ne_of_retired alsoLooked retired)
    · exact Option.some.inj (retired.symm.trans alsoRetired)

/-- Every access by a retired handle is refused. -/
theorem Inv.retiredRefuses {handle : LiveProjectSlot}
    (listed : handle ∈ history.handed) (retired : history.registry.tombstones handle.slot ≠ none) :
    history.registry.binding handle = .error (.tombstoned handle.slot) ∧
    history.registry.capacityOwner handle = .error (.tombstoned handle.slot) ∧
    history.registry.process.bindingLive handle.binding.identity = false := by
  rcases inv.served.served _ listed with ⟨looked, -⟩ | ⟨-, flag, binding⟩
  · exact absurd (inv.occupied.unretired handle.key (.live handle) looked) retired
  simp only [ProjectRegistry.binding, capacityOwner, isLive, flag]
  exact ⟨rfl, rfl, binding⟩

/-- A current slot is live and was handed out. -/
theorem Inv.current (current : history.registry.isCurrent key slot = true) :
    ∃ handle ∈ history.handed, history.registry.keys key = some (.live handle) ∧
      handle.slot = slot ∧ history.registry.isLive handle = true := by
  unfold isCurrent at current
  split at current
  · cases current
  split at current
  · rename_i handle found
    have listed := inv.served.liveHanded _ _ found
    refine ⟨_, listed, found, of_decide_eq_true current, ?_⟩
    rcases inv.served.served _ listed with ⟨-, flag⟩ | ⟨retired, -⟩
    · rw [isLive, flag]
      rfl
    · exact absurd rfl (inv.occupied.ne_of_retired found retired)
  · cases current

/-- The invariant is all that safety asks for. -/
theorem Inv.safe : history.Safe := by
  refine ⟨fun _ _ _ => inv.oneKey, ?_, fun _ => inv.retiredRefuses, fun _ _ => inv.current,
    ?_, ?_, ?_⟩
  · intro slot retired key
    rw [isCurrent, if_pos retired]
  · intro request listed other alsoListed same
    exact (inv.occupied.agree _ listed _ alsoListed same).2
  · intro request listed key occupancy found same
    rcases inv.occupied.honoured _ listed with ⟨held, looked, slot, agreed⟩ | retired
    · have here := inv.occupied.single _ request.key _ _ found looked
        (same.trans slot.symm)
      rw [← here, found] at looked
      cases looked
      exact agreed
    · exact absurd same.symm (inv.occupied.ne_of_retired found retired)
  · intro request listed guarded placed
    exact inv.occupied.guarded _ listed ⟨guarded, placed⟩

end

/-- A retired identity stays retired. -/
theorem step_retired {next : RegistryRun} {action : RegistryCall}
    (taken : history.step action = some next) (retired : history.registry.tombstones slot ≠ none) :
    next.registry.tombstones slot ≠ none := by
  have recorded : ∀ ended (key : ProjectKey),
      update history.registry.tombstones ended (some key) slot ≠ none := by
    intro ended key
    by_cases same : slot = ended
    · rw [same, update_self]
      nofun
    · rw [update_of_ne same]
      exact retired
  cases action with
  | call request =>
    cases request with
    | admitWithOutcome key binding protection authorized placement =>
      simp only [step] at taken
      split at taken
      · rename_i attempt after admitted
        cases taken
        rcases (admitWithOutcome_ok admitted).2 with
          ⟨pending, -, -, -, -, rfl⟩ | ⟨live, -, -, -, -, rfl⟩ | ⟨-, -, rfl⟩
        all_goals exact retired
      · rename_i refusal after refused
        cases taken
        rw [admitWithOutcome_refused refused]
        exact retired
    | install key owner =>
      cases taken
      rcases install_cases history.registry _ _ with
        ⟨pending, -, done⟩ | ⟨done, -⟩
      all_goals
        rw [done]
        exact retired
    | cancel key =>
      cases taken
      rcases cancel_cases history.registry _ with ⟨pending, -, done⟩ | done
      · rw [done]
        exact recorded _ _
      · rw [done]
        exact retired
    | stop key =>
      cases taken
      rcases stop_cases history.registry _ with ⟨live, -, done⟩ | done
      · rw [done]
        exact recorded _ _
      · rw [done]
        exact retired
    | stopIfUnheld key named =>
      cases taken
      rcases stopIfUnheld_cases history.registry _ _ with
        ⟨live, -, done⟩ | ⟨refusal, done⟩
      · rw [done]
        exact recorded _ _
      · rw [done]
        exact retired
  | live key =>
    simp only [step, live, Option.some.injEq] at taken
    subst taken
    split
    all_goals exact retired
  | cloneHandle handle | dropHandle handle =>
    simp only [step] at taken
    split at taken
    · cases taken
      exact retired
    · cases taken

/-- The registry is safe after any sequence of calls, what it retired stays retired, and a refused
call changes nothing. -/
theorem registry_safe (process : Process) (actions : List RegistryCall)
    (reached : run step (initial process) actions = some history) :
    history.Safe ∧
    (∀ later final, run step history later = some final → ∀ slot,
      history.registry.tombstones slot ≠ none →
        final.registry.tombstones slot ≠ none ∧
          ∀ key, final.registry.isCurrent key slot = false) ∧
    ∀ request refusal, (history.registry.call request).1 = .error refusal →
      (history.registry.call request).2 = history.registry := by
  have inv : history.Inv :=
    run_invariant Inv (fun _ _ _ inv => inv.step_inv) (initial_inv _) reached
  refine ⟨inv.safe, ?_, fun _ _ => call_refused _⟩
  intro later final continued slot retired
  have stays : final.registry.tombstones slot ≠ none :=
    run_invariant (fun history => history.registry.tombstones slot ≠ none)
      (fun _ _ _ retired taken => step_retired taken retired) retired continued
  refine ⟨stays, ?_⟩
  intro key
  rw [isCurrent, if_pos stays]

/-- Two opens of one key join, one installs and the slot is stopped; the key is opened again. -/
def reopening : List RegistryCall :=
  [.call (.admitWithOutcome ⟨"p"⟩ ⟨⟨1⟩, ⟨1⟩⟩ .protectedRoot true .userLocal),
    .call (.admitWithOutcome ⟨"p"⟩ ⟨⟨2⟩, ⟨1⟩⟩ .normal false .userLocal),
    .call (.install ⟨"p"⟩ none), .call (.stop ⟨"p"⟩),
    .call (.admitWithOutcome ⟨"p"⟩ ⟨⟨3⟩, ⟨1⟩⟩ .normal false .projectLocal),
    .call (.install ⟨"p"⟩ none)]

/-- A project is opened, stopped and opened again. -/
theorem reopening_safe :
    ∃ history, run step (initial Process.initial) reopening = some history ∧ history.Safe ∧
      history.registry.isCurrent ⟨"p"⟩ ⟨1⟩ = false ∧
      history.registry.isCurrent ⟨"p"⟩ ⟨2⟩ = true ∧ history.handed.length = 2 :=
  ⟨_, rfl, (registry_safe Process.initial reopening rfl).1, rfl, rfl, rfl⟩

end RegistryRun

end Symforge.Lifecycle
