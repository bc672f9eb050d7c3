import Symforge.Library.Table
import Symforge.Lifecycle.AuthorityRegistry
import Symforge.Lifecycle.WriteInvariant

/-!
# Finality of root replacement

Revocation acts on the lease of the current permit cycle. A write authority outstanding at that time
goes on to `return_to_current`, which takes a fresh lease on the path and makes the source current
again, so the replaced authority hands out write authorities next to its successor.
-/

namespace Symforge.Lifecycle
open Symforge.Library Option Function Nat List

/-- No write authority is outstanding and the lease is revoked. -/
def SourceCell.Retired (process : Process) (cell : SourceCell) : Prop :=
  cell.writes = [] ∧ process.leaseLive cell.authority.inner.lease.identity = false

/-- A retired authority refuses every acquisition. -/
theorem SourceCell.Retired.refuses {process : Process} {cell : SourceCell}
    (retired : cell.Retired process) (expected : Option PublicationIdentity)
    (opened : Option PhysicalRootAnchor) (write : WriteAuthority) :
    (cell.authority.acquireWriteIfPublication process expected opened).1 ≠ .ok write := by
  intro returned
  obtain ⟨-, refusal, refused⟩ | ⟨live, -, -, ⟨-, refusal, refused⟩ | ⟨permitted, -⟩⟩ :=
    cell.authority.acquireWriteIfPublication_cases _ _ _
  · rw [refused] at returned
    cases returned
  · rw [refused] at returned
    cases returned
  have dead := retired.2
  rw [permitted.2.2] at dead
  cases dead

/-- Each directory object is reached through one authority root only: by path, and by path from the
root whose write authority has it open. -/
structure Separated (fs : RootPath → Option PhysicalRootAnchor)
    (cells : Nat → Option SourceCell) : Prop where
  /-- Two roots that lead to one directory are one path. -/
  roots : ∀ first second one other directory, cells first = some one →
    cells second = some other → fs one.authority.root = some directory →
    fs other.authority.root = some directory → other.authority.root = one.authority.root
  /-- A root that leads to a directory held open is the holder's own path. -/
  held : ∀ first second one other directory, cells first = some one →
    cells second = some other → one.Holds directory →
    fs other.authority.root = some directory → other.authority.root = one.authority.root

/-- No two cells have to do with the same directory. -/
theorem separated_iff {fs : RootPath → Option PhysicalRootAnchor}
    {cells : Nat → Option SourceCell} :
    Separated fs cells ↔ ∀ first second one other directory, cells first = some one →
      cells second = some other → fs one.authority.root = some directory ∨ one.Holds directory →
      fs other.authority.root = some directory → other.authority.root = one.authority.root := by
  constructor
  · intro separated first second one other directory found otherFound touches
    rcases touches with reaches | holds
    · exact separated.roots _ _ _ _ _ found otherFound reaches
    · exact separated.held _ _ _ _ _ found otherFound holds
  · exact fun apart => ⟨fun _ _ _ _ _ found otherFound reaches =>
      apart _ _ _ _ _ found otherFound (.inl reaches), fun _ _ _ _ _ found otherFound holds =>
      apart _ _ _ _ _ found otherFound (.inr holds)⟩

namespace RegistrySystem

/-- A revocation finds no write authority outstanding, and rearranging directories or making an
authority keeps every directory behind one root. -/
def Orderly (system : RegistrySystem) : RegistryAction → Prop
  | .relocate fs => Separated fs system.cells
  | .revoke => ∀ key index cell, system.lock = .revoking key index →
      system.cells index = some cell → cell.writes = []
  | .evict key _ _ => ∀ index cell, system.map key = some index →
      system.cells index = some cell → cell.writes = []
  | .insert _ => ∀ key index cell directory, system.lock = .inserting key →
      system.cells index = some cell → system.fs key = some directory →
      system.fs cell.authority.root = some directory ∨ cell.Holds directory →
      cell.authority.root = key
  | _ => True

/-- What holds of the registry along every orderly run. -/
structure Inv (system : RegistrySystem) : Prop where
  sane : system.process.Sane
  cells : ∀ index cell, system.cells index = some cell → CellInv system.process cell
  /-- Authorities are numbered in the order they were made. -/
  bounded : ∀ index cell, system.cells index = some cell → index < system.nextCell
  /-- No two authorities share a drain signal. -/
  signals : ∀ first second one other, system.cells first = some one →
    system.cells second = some other →
    one.authority.inner.outstanding = other.authority.inner.outstanding → first = second
  /-- A registered authority is the one made for its key. -/
  registered : ∀ key index, system.map key = some index →
    ∃ cell, system.cells index = some cell ∧ cell.authority.root = key
  /-- An authority that is not registered is retired. -/
  superseded : ∀ index cell, system.cells index = some cell →
    system.map cell.authority.root = some index ∨ cell.Retired system.process
  /-- A replaced authority is retired. -/
  replaced : ∀ index ∈ system.replaced, ∃ cell, system.cells index = some cell ∧
    cell.Retired system.process
  /-- A lookup about to revoke found its authority registered. -/
  revoking : ∀ key index, system.lock = .revoking key index → system.map key = some index
  /-- A lookup about to insert found its key vacant. -/
  inserting : ∀ key, system.lock = .inserting key → system.map key = none
  /-- Each directory object is behind one root. -/
  separated : Separated system.fs system.cells
  /-- No directory is held open by two authorities. -/
  exclusive : ∀ first second one other directory, first ≠ second →
    system.cells first = some one → system.cells second = some other →
    ¬ (one.Holds directory ∧ other.Holds directory)

/-- A process without authorities satisfies the invariant. -/
theorem start_inv (fs : RootPath → Option PhysicalRootAnchor) : (start fs).Inv where
  sane := ⟨by simp [start, Process.initial], by simp [start, Process.initial]⟩
  cells := by simp [start]
  bounded := by simp [start]
  signals := by simp [start]
  registered := by simp [start]
  superseded := by simp [start]
  replaced := by simp [start]
  revoking := by simp [start]
  inserting := by simp [start]
  separated := ⟨by simp [start], by simp [start]⟩
  exclusive := by simp [start]

variable {system next : RegistrySystem}
  {cell stepped bystander : SourceCell} {action : WriteAction} {index : Nat}
  {after : Process} {observed : Option PhysicalRootAnchor}

/-- Revocation flags stay set. -/
theorem retired_other {next : SourceCell} {process : Process}
    (effect : CellEffect process cell action after next) (retired : bystander.Retired process) :
    bystander.Retired after :=
  ⟨retired.1, effect.revoked_stays retired.2⟩

/-- Where an authority after a critical section comes from: its root is unchanged, and a directory
it holds was held before or just opened through its live lease at its root. -/
theorem looked_back {other : Nat} (found : system.cells index = some cell)
    (opens : system.Opens cell action)
    (effect : CellEffect system.process cell action after stepped)
    (looked : update system.cells index (some stepped) other = some bystander) :
    ∃ before, system.cells other = some before ∧
      bystander.authority.root = before.authority.root ∧
      ∀ directory, bystander.Holds directory → before.Holds directory ∨
        other = index ∧ system.fs before.authority.root = some directory ∧
          system.process.leaseLive before.authority.inner.lease.identity = true := by
  obtain ⟨rfl, rfl⟩ | ⟨-, stored⟩ := update_some_eq_some.mp looked
  · refine ⟨_, found, effect.root, fun directory holds => ?_⟩
    obtain before | ⟨⟨expected, rfl⟩, live⟩ := effect.opens holds
    · exact .inl before
    obtain failed | answer := opens
    · cases failed
    · exact .inr ⟨rfl, answer.symm, live⟩
  · exact ⟨_, stored, rfl, fun directory holds => .inl holds⟩

/-- Changing the holder of the registry lock keeps the rest of the invariant. -/
theorem lock_inv {before stage : LookupStage} (inv : { system with lock := before }.Inv)
    (revoking : ∀ key index, stage = .revoking key index → system.map key = some index)
    (inserting : ∀ key, stage = .inserting key → system.map key = none) :
    { system with lock := stage }.Inv :=
  { inv with revoking, inserting }

section Kept

variable (inv : system.Inv)

include inv

/-- What the invariant gives is what replacement promises. -/
theorem replacementFinal_of_inv : system.ReplacementFinal := by
  refine ⟨fun index member => ?_, fun first second directory distinct => ?_⟩
  · rintro ⟨cell, expected, opened, write, found, -, acquired⟩
    obtain ⟨retiredCell, stored, retired⟩ := inv.replaced _ member
    obtain rfl : cell = retiredCell := some.inj (found.symm.trans stored)
    exact retired.refuses _ _ _ acquired
  · rintro ⟨⟨one, write, permit, found, member, held, -, opens⟩,
      other, otherWrite, otherPermit, otherFound, otherMember, otherHeld, -, otherOpens⟩
    exact inv.exclusive _ _ _ _ _ distinct found otherFound
      ⟨⟨_, member, _, held, opens⟩, otherWrite, otherMember, otherPermit, otherHeld, otherOpens⟩

/-! ## Critical sections on one authority -/

/-- An acquisition opens a directory that no other authority holds: one root only leads to it, and
of the authorities of one root only the registered one has a live lease. -/
theorem opened_exclusive {other : Nat} {directory : PhysicalRootAnchor}
    (apart : other ≠ index) (found : system.cells index = some cell)
    (stored : system.cells other = some bystander)
    (reaches : system.fs cell.authority.root = some directory)
    (live : system.process.leaseLive cell.authority.inner.lease.identity = true) :
    ¬ bystander.Holds directory := by
  intro holds
  have samePath := inv.separated.held _ _ _ _ _ stored found holds
    reaches
  obtain registered | retired := inv.superseded _ _ stored
  · obtain current | gone := inv.superseded _ _ found
    · rw [samePath, registered] at current
      exact apart (some.inj current)
    · rw [gone.2] at live
      cases live
  · obtain ⟨write, member, -⟩ := holds
    rw [retired.1] at member
    cases member

section Effect

variable (found : system.cells index = some cell)

include found

/-- What a critical section on one authority leaves of another one. -/
theorem cellInv_other {other : Nat} {next : SourceCell}
    (effect : CellEffect system.process cell action after next) (apart : other ≠ index)
    (stored : system.cells other = some bystander) : CellInv after bystander := by
  have kept := inv.cells _ _ stored
  have own := inv.cells _ _ found
  obtain ⟨identities, roots, signals⟩ := effect.counters
  have elsewhere : bystander.authority.inner.outstanding ≠ cell.authority.inner.outstanding :=
    fun same => apart (inv.signals _ _ _ _ stored found same)
  refine ⟨kept.shape.frame rfl rfl (effect.signals own elsewhere kept.signalAllocated)
    effect.revocations.1 identities ?_, kept.leaseTaken.trans_le roots,
    kept.signalAllocated.trans_le signals, kept.settled⟩
  exact effect.revoked_stays

/-- A critical section on one authority keeps the drain signals apart. -/
theorem effect_signals {first second : Nat} {one other : SourceCell}
    (effect : CellEffect system.process cell action after stepped)
    (firstLooked : update system.cells index (some stepped) first = some one)
    (secondLooked : update system.cells index (some stepped) second = some other)
    (same : one.authority.inner.outstanding = other.authority.inner.outstanding) :
    first = second := by
  have fresh : ∀ place bystander, place ≠ index → system.cells place = some bystander →
      bystander.authority.inner.outstanding ≠ stepped.authority.inner.outstanding := by
    intro place bystander apart stored equal
    obtain kept | ⟨allocated, -⟩ := effect.outstanding
    · rw [kept] at equal
      exact apart (inv.signals _ _ _ _ stored found equal)
    have below := (inv.cells _ _ stored).signalAllocated
    rw [equal, allocated] at below
    exact absurd below (lt_irrefl _)
  exact update_some_injective inv.signals fresh _ _ _ _ firstLooked secondLooked same

variable (opens : system.Opens cell action)
  (effect : CellEffect system.process cell action after stepped)

include opens effect

/-- A critical section on one authority keeps every directory behind one root. -/
theorem effect_separated : Separated system.fs (update system.cells index (some stepped)) := by
  refine separated_iff.mpr fun first second one other directory firstLooked secondLooked touches
    otherReaches => ?_
  obtain ⟨before, stored, root, held⟩ := looked_back found opens effect firstLooked
  obtain ⟨otherBefore, otherStored, otherRoot, -⟩ := looked_back found opens effect secondLooked
  rw [otherRoot] at otherReaches ⊢
  rw [root] at touches ⊢
  refine separated_iff.mp inv.separated _ _ _ _ _ stored otherStored
    ?_ otherReaches
  rcases touches with reaches | holds
  · exact .inl reaches
  obtain kept | ⟨-, reaches, -⟩ := held _ holds
  · exact .inr kept
  · exact .inl reaches

/-- A critical section on one authority opens no directory that another one holds. -/
theorem effect_exclusive {first second : Nat} {one other : SourceCell}
    {directory : PhysicalRootAnchor} (distinct : first ≠ second)
    (firstLooked : update system.cells index (some stepped) first = some one)
    (secondLooked : update system.cells index (some stepped) second = some other) :
    ¬ (one.Holds directory ∧ other.Holds directory) := by
  rintro ⟨holds, otherHolds⟩
  obtain ⟨before, stored, -, held⟩ := looked_back found opens effect firstLooked
  obtain ⟨otherBefore, otherStored, -, otherHeld⟩ := looked_back found opens effect secondLooked
  obtain kept | ⟨rfl, reaches, live⟩ := held _ holds
  · obtain otherKept | ⟨rfl, reaches, live⟩ := otherHeld _ otherHolds
    · exact inv.exclusive _ _ _ _ _ distinct stored otherStored
        ⟨kept, otherKept⟩
    · exact opened_exclusive inv distinct otherStored stored reaches live kept
  · obtain otherKept | ⟨rfl, -, -⟩ := otherHeld _ otherHolds
    · exact opened_exclusive inv distinct.symm stored otherStored reaches live otherKept
    · exact distinct rfl

/-- An effect on one authority keeps the invariant. -/
theorem effect_inv : { system.setCell index stepped with process := after }.Inv := by
  have own := inv.cells _ _ found
  refine ⟨effect.sane inv.sane own, ?_, ?_, ?_, ?_, ?_, ?_, inv.revoking, inv.inserting,
    effect_separated inv found opens effect, ?_⟩
  · intro other bystander looked
    obtain ⟨rfl, rfl⟩ | ⟨apart, stored⟩ := update_some_eq_some.mp looked
    · exact effect.inv inv.sane own
    · exact cellInv_other inv found effect apart stored
  · exact forall_update_some (inv.bounded _ _ found) inv.bounded
  · intro first second one other firstLooked secondLooked same
    exact effect_signals inv found effect firstLooked secondLooked same
  · intro key other registered
    obtain ⟨registeredCell, stored, same⟩ := inv.registered _ _ registered
    by_cases apart : other = index
    · subst apart
      cases stored.symm.trans found
      exact ⟨stepped, update_self _ _ _, effect.root.trans same⟩
    · exact ⟨registeredCell, (update_of_ne apart _ _).trans stored, same⟩
  · intro other bystander looked
    obtain ⟨rfl, rfl⟩ | ⟨-, stored⟩ := update_some_eq_some.mp looked
    · rw [effect.root]
      obtain registered | gone := inv.superseded _ _ found
      · exact .inl registered
      · exact .inr (effect.retired gone.1 gone.2)
    · obtain registered | gone := inv.superseded _ _ stored
      · exact .inl registered
      · exact .inr (retired_other effect gone)
  · intro other member
    obtain ⟨retiredCell, stored, gone⟩ := inv.replaced _ member
    by_cases apart : other = index
    · subst apart
      cases stored.symm.trans found
      exact ⟨stepped, update_self _ _ _, effect.retired gone.1 gone.2⟩
    · exact ⟨retiredCell, (update_of_ne apart _ _).trans stored, retired_other effect gone⟩
  · intro first second one other directory distinct firstLooked secondLooked
    exact effect_exclusive inv found opens effect distinct firstLooked secondLooked

end Effect

/-- A critical section on one authority keeps the invariant. -/
theorem onCell_inv (taken : system.onCell index action = some next) :
    next.Inv := by
  obtain ⟨cell, found, ran⟩ := bind_eq_some_iff.mp taken
  split at ran
  case isFalse => cases ran
  rename_i opens
  obtain ⟨⟨after, stepped⟩, sectionRan, rfl⟩ := map_eq_some_iff.mp ran
  exact effect_inv inv found opens (SourceCell.step_effect (inv.cells _ _ found) sectionRan)

/-! ## Registry operations -/

/-- Noting whether the path was absent keeps the invariant. -/
theorem setAbsent_inv {absent : Bool} (found : system.cells index = some cell) :
    (system.setAbsent index cell absent).Inv := by
  have effect : CellEffect system.process cell .registerObserver system.process
      { cell with authority.pathAbsentPending := absent } := .noted _
  exact effect_inv inv found (show system.Opens cell .registerObserver from trivial) effect

/-- A lookup up to its first decision keeps the invariant. -/
theorem lookup_inv {key : RootPath}
    (taken : system.lookup key observed = some next) : next.Inv := by
  unfold lookup at taken
  split at taken
  case isFalse => cases taken
  split at taken
  · rename_i vacant
    cases taken
    exact lock_inv inv nofun (fun other same => by cases same; exact vacant)
  rename_i index registered
  obtain ⟨cell, found, decided⟩ := map_eq_some_iff.mp taken
  cases observed with
  | none =>
    cases decided
    exact setAbsent_inv inv found
  | some anchor =>
    simp only at decided
    split at decided
    · cases decided
      exact setAbsent_inv inv found
    · cases decided
      exact lock_inv inv (fun _ _ same => by cases same; exact registered) nofun

/-- Retiring a registered authority without write authorities keeps the invariant once nobody is
about to revoke or insert. -/
theorem retire_inv {key : RootPath} (registered : system.map key = some index)
    (found : system.cells index = some cell) (none : cell.writes = []) :
    { system.retire key index cell with lock := .free }.Inv := by
  have stays : ∀ lease, system.process.leaseLive lease = false →
      (cell.authority.revokeForReplacement system.process).leaseLive lease = false := by
    intro lease revoked
    rw [Process.leaseLive, Bool.not_eq_false', contains_eq_mem, decide_eq_true_eq]
      at revoked ⊢
    exact mem_cons_of_mem _ revoked
  have retired : cell.Retired (cell.authority.revokeForReplacement system.process) := by
    refine ⟨none, ?_⟩
    rw [Process.leaseLive, Bool.not_eq_false', contains_eq_mem, decide_eq_true_eq]
    exact mem_cons_self
  have own := inv.cells _ _ found
  refine ⟨⟨?_, inv.sane.bindings⟩, ?_, inv.bounded, inv.signals, ?_, ?_, ?_, ?_, ?_,
    inv.separated, inv.exclusive⟩
  · exact forall_mem_cons.mpr ⟨own.leaseTaken, inv.sane.leases⟩
  · intro other bystander stored
    have kept := inv.cells _ _ stored
    exact { kept with shape := kept.shape.frame rfl rfl rfl rfl le_rfl (stays _) }
  · intro other place registeredThere
    have apart : other ≠ key := by
      rintro rfl
      cases (update_self _ _ _).symm.trans registeredThere
    exact inv.registered _ _ ((update_of_ne apart _ _).symm.trans registeredThere)
  · intro other bystander stored
    obtain there | gone := inv.superseded _ _ stored
    · by_cases same : bystander.authority.root = key
      · rw [same, registered] at there
        cases there
        cases found.symm.trans stored
        exact .inr retired
      · exact .inl ((update_of_ne same _ _).trans there)
    · exact .inr ⟨gone.1, stays _ gone.2⟩
  · refine forall_mem_cons.mpr ⟨⟨_, found, retired⟩, fun other before => ?_⟩
    obtain ⟨bystander, stored, gone⟩ := inv.replaced _ before
    exact ⟨_, stored, gone.1, stays _ gone.2⟩
  · intro _ _ impossible
    cases impossible
  · intro _ impossible
    cases impossible

/-- Revoking an authority that a lookup found replaced keeps the invariant. -/
theorem revoke_inv (orderly : system.Orderly .revoke)
    (taken : system.revoke = some next) : next.Inv := by
  unfold revoke at taken
  split at taken
  case h_2 => cases taken
  rename_i key index held
  obtain ⟨cell, found, rfl⟩ := map_eq_some_iff.mp taken
  have registered := inv.revoking _ _ held
  have none := orderly _ _ _ held found
  refine lock_inv (retire_inv inv registered found none) nofun ?_
  intro other same
  cases same
  exact update_self _ _ _

/-- Evicting an authority keeps the invariant. -/
theorem evict_inv {key : RootPath} {admitted : Option PhysicalRootAnchor}
    (orderly : system.Orderly (.evict key admitted observed))
    (taken : system.evict key admitted observed = some next) : next.Inv := by
  unfold evict at taken
  split at taken
  case isFalse => cases taken
  rename_i guard
  split at taken
  · cases taken
    exact inv
  rename_i index registered
  obtain ⟨cell, found, rfl⟩ := map_eq_some_iff.mp taken
  have none := orderly _ _ registered found
  have kept := retire_inv inv registered found none
  exact lock_inv kept (fun _ _ same => by rw [guard.1] at same; cases same)
    (fun _ same => by rw [guard.1] at same; cases same)

/-- Making an authority for a vacant key keeps the invariant. -/
theorem insert_inv (orderly : system.Orderly (.insert observed))
    (taken : system.insert observed = some next) :
    next.Inv := by
  unfold insert at taken
  split at taken
  case h_2 => cases taken
  rename_i key held
  split at taken
  case isFalse => cases taken
  cases taken
  have vacant := inv.inserting _ held
  have separate := fun index cell directory => orderly _ index cell directory held
  have old : ∀ other bystander, system.cells other = some bystander → other ≠ system.nextCell :=
    fun other bystander stored same => absurd (inv.bounded _ _ stored)
      (same ▸ lt_irrefl _)
  have oldSignal : ∀ other bystander, system.cells other = some bystander →
      bystander.authority.inner.outstanding ≠ ⟨system.process.nextSignal⟩ := by
    intro other bystander stored same
    have below := (inv.cells _ _ stored).signalAllocated
    rw [same] at below
    exact absurd below (lt_irrefl _)
  refine ⟨inv.sane.forRoot key observed, ?_, ?_, ?_, ?_, ?_, ?_, nofun, nofun,
    separated_iff.mpr ?_, ?_⟩
  · intro other bystander looked
    obtain ⟨rfl, rfl⟩ | ⟨-, stored⟩ := update_some_eq_some.mp looked
    · exact CellInv.forRoot inv.sane _ observed
    have kept := inv.cells _ _ stored
    have apart := oldSignal _ _ stored
    refine ⟨kept.shape.frame rfl rfl (update_of_ne apart _ _)
      rfl (le_add_right _ 4) id, lt_succ_of_lt kept.leaseTaken,
      lt_succ_of_lt kept.signalAllocated, kept.settled⟩
  · exact forall_update_some (lt_succ_self _) fun other bystander stored =>
      lt_succ_of_lt (inv.bounded _ _ stored)
  · exact update_some_injective inv.signals fun other bystander _ => oldSignal _ _
  · intro other place registered
    obtain ⟨rfl, rfl⟩ | ⟨-, before⟩ := update_some_eq_some.mp registered
    · exact ⟨_, update_self _ _ _, rfl⟩
    obtain ⟨bystander, stored, root⟩ := inv.registered _ _ before
    exact ⟨_, (update_of_ne (old _ _ stored) _ _).trans stored, root⟩
  · intro other bystander looked
    obtain ⟨rfl, rfl⟩ | ⟨-, stored⟩ := update_some_eq_some.mp looked
    · exact .inl (update_self _ _ _)
    obtain there | gone := inv.superseded _ _ stored
    · refine .inl ((update_of_ne (fun same => ?_) _ _).trans there)
      rw [same, vacant] at there
      cases there
    · exact .inr gone
  · intro other member
    obtain ⟨bystander, stored, gone⟩ := inv.replaced _ member
    exact ⟨_, (update_of_ne (old _ _ stored) _ _).trans stored, gone⟩
  · intro first second one other directory firstLooked secondLooked touches otherReaches
    obtain ⟨rfl, rfl⟩ | ⟨-, firstStored⟩ := update_some_eq_some.mp firstLooked
    · obtain ⟨rfl, rfl⟩ | ⟨-, secondStored⟩ := update_some_eq_some.mp secondLooked
      · rfl
      rcases touches with reaches | ⟨write, member, -⟩
      · exact separate second other directory secondStored reaches (.inl otherReaches)
      · cases member
    · obtain ⟨rfl, rfl⟩ | ⟨-, secondStored⟩ := update_some_eq_some.mp secondLooked
      · exact (separate first one _ firstStored otherReaches touches).symm
      exact separated_iff.mp inv.separated first second _ _ _ firstStored
        secondStored touches otherReaches
  · intro first second one other directory distinct firstLooked secondLooked
    rintro ⟨holds, otherHolds⟩
    obtain ⟨rfl, rfl⟩ | ⟨-, firstStored⟩ := update_some_eq_some.mp firstLooked
    · obtain ⟨write, member, -⟩ := holds
      cases member
    obtain ⟨rfl, rfl⟩ | ⟨-, secondStored⟩ := update_some_eq_some.mp secondLooked
    · obtain ⟨write, member, -⟩ := otherHolds
      cases member
    · exact inv.exclusive first second _ _ _ distinct firstStored secondStored
        ⟨holds, otherHolds⟩

/-- Drawing identities keeps the invariant. -/
theorem elsewhere_inv (identities roots : Nat) :
    { system with
      process.nextIdentity := system.process.nextIdentity + identities
      process.nextRoot := system.process.nextRoot + roots }.Inv := by
  refine { inv with sane := ⟨?_, ?_⟩, cells := ?_ }
  · intro lease member
    exact (inv.sane.leases _ member).trans_le (le_add_right _ _)
  · intro binding member
    exact (inv.sane.bindings _ member).trans_le (le_add_right _ _)
  · intro index cell found
    have kept := inv.cells _ _ found
    exact { kept with
      shape := kept.shape.frame rfl rfl rfl rfl (le_add_right _ _) id
      leaseTaken := kept.leaseTaken.trans_le (le_add_right _ _) }

/-- Every orderly step keeps the invariant. -/
theorem step_inv {action : RegistryAction} (orderly : system.Orderly action)
    (taken : system.step action = some next) : next.Inv := by
  cases action with
  | relocate fs =>
    cases taken
    exact { inv with separated := orderly }
  | lookup key observed => exact lookup_inv inv taken
  | revoke => exact revoke_inv inv orderly taken
  | insert observed => exact insert_inv inv orderly taken
  | evict key admitted observed => exact evict_inv inv orderly taken
  | cell index action => exact onCell_inv inv taken
  | elsewhere identities roots =>
    cases taken
    exact elsewhere_inv inv _ _

end Kept

/-- In every orderly run root replacement is final in every state reached. -/
theorem replacement_final (fs : RootPath → Option PhysicalRootAnchor)
    (actions : List RegistryAction) (reached : RegistrySystem)
    (orderly : RunMeets step Orderly (start fs) actions)
    (ran : run step (start fs) actions = some reached) : reached.ReplacementFinal :=
  replacementFinal_of_inv (run_invariant_meets Inv
    (fun _ _ _ kept met taken => step_inv kept met taken) (start_inv _) orderly ran)

/-- A file system with one directory, at `/repo`. -/
def repositoryAt (directory : PhysicalRootAnchor) (path : RootPath) : Option PhysicalRootAnchor :=
  if path = "/repo" then some directory else none

/-- The directory of an idle authority is replaced, and a lookup revokes the authority. -/
def replacedWhileIdle : List RegistryAction :=
  [.lookup "/repo" (some ⟨1, 1⟩), .insert (some ⟨1, 1⟩), .relocate (repositoryAt ⟨1, 2⟩),
    .lookup "/repo" (some ⟨1, 2⟩), .revoke]

/-- Replacing an idle authority is orderly. -/
theorem replacedWhileIdle_orderly :
    RunMeets step Orderly (start (repositoryAt ⟨1, 1⟩)) replacedWhileIdle := by
  refine .cons trivial rfl (.cons (fun _ _ _ _ _ found => nomatch found) rfl
    (.cons ?_ rfl (.cons trivial rfl (.cons (fun key index cell _ found => ?_) rfl trivial))))
  · refine separated_iff.mpr fun first second one other directory found otherFound _ _ => ?_
    obtain ⟨-, rfl⟩ | ⟨-, absent⟩ := update_some_eq_some.mp found
    · obtain ⟨-, rfl⟩ | ⟨-, absent⟩ := update_some_eq_some.mp otherFound
      · rfl
      · cases absent
    · cases absent
  · obtain ⟨-, rfl⟩ | ⟨-, absent⟩ := update_some_eq_some.mp found
    · rfl
    · cases absent

/-- An authority whose directory is replaced while it is idle is replaced for good. -/
theorem idle_replacement_final :
    ∃ reached, run step (start (repositoryAt ⟨1, 1⟩)) replacedWhileIdle = some reached ∧
      reached.replaced = [0] ∧ reached.ReplacementFinal :=
  ⟨_, rfl, rfl, replacement_final (repositoryAt ⟨1, 1⟩) _ _
    replacedWhileIdle_orderly rfl⟩

/-- An authority makes one write authority; its directory is replaced, a lookup revokes it and makes
a successor, and the write authority is dropped. -/
def replacedDuringWrite : List RegistryAction :=
  [.lookup "/repo" (some ⟨1, 1⟩), .insert (some ⟨1, 1⟩),
    .cell 0 (.acquire none (some ⟨1, 1⟩)), .relocate (repositoryAt ⟨1, 2⟩),
    .lookup "/repo" (some ⟨1, 2⟩), .revoke, .insert (some ⟨1, 2⟩),
    .cell 0 (.drop 0), .cell 0 (.advance 0), .cell 0 (.advance 0), .cell 0 (.advance 0)]

/-- The replaced authority is current again, and then it and its successor hold write authorities
beneath the new directory. -/
theorem replaced_authority_writes_beside_successor :
    (∃ reached, run step (start (repositoryAt ⟨1, 1⟩)) replacedDuringWrite = some reached ∧
      0 ∈ reached.replaced ∧ reached.Acquires 0) ∧
    ∃ reached, run step (start (repositoryAt ⟨1, 1⟩)) (replacedDuringWrite ++
        [.cell 0 (.acquire none (some ⟨1, 2⟩)), .cell 1 (.acquire none (some ⟨1, 2⟩))]) =
          some reached ∧
      reached.CanWrite 0 ⟨1, 2⟩ ∧ reached.CanWrite 1 ⟨1, 2⟩ := by
  refine ⟨⟨_, rfl, by decide, ?_⟩, ⟨_, rfl, ?_, ?_⟩⟩
  · exact ⟨_, none, some ⟨1, 2⟩, _, rfl, .inr rfl, rfl⟩
  · exact ⟨_, _, _, rfl, mem_cons_self, rfl, rfl, rfl⟩
  · exact ⟨_, _, _, rfl, mem_cons_self, rfl, rfl, rfl⟩

end RegistrySystem

end Symforge.Lifecycle
