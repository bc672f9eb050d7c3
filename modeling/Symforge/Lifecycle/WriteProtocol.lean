import Symforge.Library.Run
import Symforge.Lifecycle.WriteInvariant

/-!
# The write-authority protocol

Runs of one authority in its process: any interleaving of acquisitions, uses and endings
of write authorities with observer registration, observations and identities drawn
elsewhere, without a root replacement.
-/

namespace Symforge.Lifecycle
open Symforge.Library Option Process SourceRuntime SourceCell

/-- One authority in its process. -/
structure WriteSystem where
  process : Process
  cell : SourceCell

/-- A critical section on the authority, or identities drawn by the rest of the process. -/
inductive SystemAction where
  | own (action : WriteAction)
  | elsewhere (identities roots : Nat)

namespace WriteSystem

/-- A new authority for a root, with no write authority handed out. -/
def start (process : Process) (root : RootPath) (observed : Option PhysicalRootAnchor) :
    WriteSystem :=
  let made := ProjectSourceAuthority.forRoot process root observed
  ⟨made.2, ⟨made.1, 0, []⟩⟩

variable (system : WriteSystem)

/-- The system after an action, or `none` where it cannot run. -/
def step : SystemAction → Option WriteSystem
  | .own action => (system.cell.step system.process action).map fun next => ⟨next.1, next.2⟩
  | .elsewhere identities roots =>
    some { system with
      process.nextIdentity := system.process.nextIdentity + identities
      process.nextRoot := system.process.nextRoot + roots }

/-- `is_current` of the authority. -/
def isCurrent : Bool := system.cell.authority.isCurrent

/-- `current_publication` of the authority. -/
def currentPublication : Option PublicationIdentity := system.cell.authority.currentPublication

/-- Whether `acquire_write` (or `acquire_write_expected`) would return a write authority now. -/
def Acquires (expected : Option PublicationIdentity) (opened : Option PhysicalRootAnchor) : Prop :=
  ∃ write, (system.cell.authority.acquireWriteIfPublication system.process expected opened).1 =
    .ok write

/-- What holds of the system along every run. -/
structure Inv (system : WriteSystem) : Prop where
  sane : system.process.Sane
  cell : CellInv system.process system.cell
  /-- No root replacement: an idle authority has a live lease. -/
  live : system.cell.writes = [] →
    system.process.leaseLive system.cell.authority.inner.lease.identity = true

variable {system next : WriteSystem} {publication : PublicationIdentity}

/-- A new authority is idle on a live lease. -/
theorem start_inv {process : Process} (sane : process.Sane) (root : RootPath)
    (observed : Option PhysicalRootAnchor) : (start process root observed).Inv :=
  ⟨sane.forRoot root observed, CellInv.forRoot sane _ _, fun _ => sane.leaseLive_fresh⟩

/-- Every action keeps the invariant. -/
theorem step_inv {action : SystemAction} (inv : system.Inv)
    (taken : system.step action = some next) : next.Inv := by
  cases action with
  | own action =>
    obtain ⟨⟨after, cell⟩, ran, rfl⟩ := map_eq_some_iff.mp taken
    have effect := step_effect inv.cell ran
    exact ⟨effect.sane inv.sane inv.cell, effect.inv inv.sane inv.cell,
      effect.leaseLive inv.sane inv.cell inv.live⟩
  | elsewhere identities roots =>
    cases taken
    refine ⟨⟨fun lease member => ?_, fun binding member => ?_⟩,
      ⟨inv.cell.shape.frame rfl rfl rfl rfl (Nat.le_add_right _ _) id, ?_,
        inv.cell.signalAllocated, inv.cell.settled⟩, inv.live⟩
    · exact Nat.lt_of_lt_of_le (inv.sane.leases _ member) (Nat.le_add_right _ _)
    · exact Nat.lt_of_lt_of_le (inv.sane.bindings _ member) (Nat.le_add_right _ _)
    · exact Nat.lt_of_lt_of_le inv.cell.leaseTaken (Nat.le_add_right _ _)

variable {actions : List SystemAction}

/-- Every run keeps the invariant. -/
theorem run_inv (inv : system.Inv) (reached : run step system actions = some next) : next.Inv :=
  run_invariant Inv (fun _ _ _ => step_inv) inv reached

/-! ## Terminal paths -/

/-- Critical sections a terminal path still has to run. -/
def remaining : WriteStage → Nat
  | .held _ => 0
  | .reconciling _ => 1
  | .returning => 2
  | .recovering => 3

variable {write : WriteHandle}

/-- An authority on a terminal path can run its next critical section, and comes closer to the end
or returns the source to current. -/
theorem advance_progress (one : system.cell.writes = [write]) (path : remaining write.stage ≠ 0) :
    ∃ next, system.step (.own (.advance write.handle)) = some next ∧
      (next.cell.writes = [] ∨ ∃ moved, next.cell.writes = [moved] ∧
        moved.handle = write.handle ∧ remaining moved.stage ≠ 0 ∧
        remaining moved.stage < remaining write.stage) := by
  obtain ⟨handle, frozen, stage⟩ := write
  have found : system.cell.find handle = some ⟨handle, frozen, stage⟩ := by
    simp [find, one]
  cases stage with
  | held permit => exact absurd rfl path
  | recovering =>
    refine ⟨_, by simp only [step, SourceCell.step, SourceCell.advance, found]; rfl, .inr ?_⟩
    exact ⟨_, congrArg writes (setStage_single
      (system.cell.withLane system.cell.authority.lane.latchScopeDirty) _ one rfl), rfl,
      by simp [remaining]⟩
  | returning =>
    refine ⟨_, by simp only [step, SourceCell.step, SourceCell.advance, found]; rfl, .inr ?_⟩
    exact ⟨_, congrArg writes (setStage_single
      (system.cell.withLane system.cell.authority.lane.consumeCut.2) _ one rfl), rfl,
      by simp [remaining]⟩
  | reconciling observerCut =>
    refine ⟨_, by simp only [step, SourceCell.step, SourceCell.advance, found]; rfl, .inl ?_⟩
    exact congrArg writes (remove_single { system.cell with
      authority := (system.cell.authority.returnInner system.process _ _).2.2 }
      one rfl)

/-- An idle system is current. -/
theorem isCurrent_of_idle (inv : system.Inv) (none : system.cell.writes = []) :
    system.isCurrent = true := by
  cases inv.cell.shape with
  | idle live _ phase =>
    simp [isCurrent, ProjectSourceAuthority.isCurrent, livePublication, phase]
  | busy _ _ _ _ _ one => simp [none] at one
  | stuck _ _ revoked =>
    rw [inv.live none] at revoked
    cases revoked

/-- A busy system has no current publication, and exactly one write authority. -/
theorem busy_spec (inv : system.Inv) (busy : system.cell.writes ≠ []) :
    (∃ write, system.cell.writes = [write]) ∧ system.isCurrent = false ∧
      system.currentPublication = none := by
  cases inv.cell.shape with
  | idle _ none | stuck none => exact absurd none busy
  | busy write _ _ _ _ one phase =>
    refine ⟨⟨_, one⟩, ?_, ?_⟩
    · simp [isCurrent, ProjectSourceAuthority.isCurrent, livePublication, phase]
    · simp [currentPublication, ProjectSourceAuthority.currentPublication, livePublication, phase]

/-- A terminal path that is left to run ends with the source current. -/
theorem terminal_completes (inv : system.Inv)
    (one : system.cell.writes = [write]) (path : remaining write.stage ≠ 0) :
    ∃ count final, run step system (List.replicate count (.own (.advance write.handle))) =
        some final ∧ final.cell.writes = [] ∧ final.isCurrent = true := by
  induction left : remaining write.stage using Nat.strongRecOn
    generalizing system write with
  | _ bound ih =>
    obtain ⟨next, taken, progress⟩ := advance_progress one path
    have kept := step_inv inv taken
    obtain done | ⟨moved, still, named, onPath, closer⟩ := progress
    · exact ⟨1, next, run_cons.mpr ⟨next, taken, rfl⟩, done, isCurrent_of_idle kept done⟩
    obtain ⟨count, final, ran, ended⟩ := ih _ (left ▸ closer) kept still onPath rfl
    rw [named] at ran
    exact ⟨count + 1, final, run_cons.mpr ⟨next, taken, ran⟩, ended⟩

/-- The three ways the owner of a write authority can end it. -/
inductive Ending (handle : Nat) : WriteAction → Prop where
  | committed (receipt : WriteReceipt) : Ending handle (.finishCommitted handle receipt)
  | noSideEffect : Ending handle (.finishNoSideEffect handle)
  | dropped : Ending handle (.drop handle)

/-- Each ending of a held write authority puts it on a terminal path. -/
theorem ending_enabled {permit : SourceMutationPermit} {action : WriteAction}
    (one : system.cell.writes = [write]) (held : write.stage = .held permit)
    (ending : Ending write.handle action) :
    ∃ next, system.step (.own action) = some next ∧ ∃ moved, next.cell.writes = [moved] ∧
      moved.handle = write.handle ∧ remaining moved.stage ≠ 0 := by
  obtain ⟨handle, frozen, stage⟩ := write
  cases held
  have found : system.cell.heldPermit handle = some permit := by
    simp [SourceCell.heldPermit, SourceCell.find, one]
  have staged : ∀ stage, (system.cell.setStage handle stage).writes = [⟨handle, frozen, stage⟩] :=
    fun stage => congrArg SourceCell.writes (SourceCell.setStage_single system.cell _ one rfl)
  cases ending with
  | committed receipt =>
    simp only [step, SourceCell.step, SourceCell.finish, found, map_some]
    obtain ⟨refusal, refused⟩ | ⟨ticket, done⟩ := permit.commit_cases system.process _
    · rw [refused]
      exact ⟨_, rfl, _, staged .recovering, rfl, by simp [remaining]⟩
    · rw [done]
      exact ⟨_, rfl, _, staged .returning, rfl, by simp [remaining]⟩
  | noSideEffect =>
    simp only [step, SourceCell.step, SourceCell.finish, found, map_some]
    obtain ⟨refusal, refused⟩ | ⟨ticket, done⟩ := permit.noSideEffect_cases system.process
    · rw [refused]
      exact ⟨_, rfl, _, staged .recovering, rfl, by simp [remaining]⟩
    · rw [done]
      exact ⟨_, rfl, _, staged .returning, rfl, by simp [remaining]⟩
  | dropped =>
    simp only [step, SourceCell.step, found, map_some]
    exact ⟨_, rfl, _, staged .recovering, rfl, by simp [remaining]⟩

/-! ## Publications -/

/-- A publication that was minted and is not current. -/
def Retired (publication : PublicationIdentity) (system : WriteSystem) : Prop :=
  publication.raw < system.process.nextIdentity ∧ system.currentPublication ≠ some publication

/-- The current publication was minted. -/
theorem currentPublication_minted (inv : system.Inv)
    (current : system.currentPublication = some publication) :
    publication.raw < system.process.nextIdentity := by
  cases inv.cell.shape with
  | idle live _ phase _ _ _ minted =>
    rw [currentPublication, ProjectSourceAuthority.currentPublication,
      livePublication_eq_some.mpr phase] at current
    cases current
    exact minted
  | busy write _ _ _ _ one =>
    have none := (busy_spec inv (by simp [one])).2.2
    rw [none] at current
    cases current
  | stuck none _ revoked =>
    rw [inv.live none] at revoked
    cases revoked

/-- A retired publication does not become current again: what becomes current is newer. -/
theorem retired_step {action : SystemAction} (inv : system.Inv)
    (retired : Retired publication system) (taken : system.step action = some next) :
    Retired publication next := by
  cases action with
  | own action =>
    obtain ⟨⟨after, cell⟩, ran, rfl⟩ := map_eq_some_iff.mp taken
    have effect := step_effect inv.cell ran
    refine ⟨Nat.lt_of_lt_of_le retired.1 effect.counters.1, fun current => ?_⟩
    obtain before | drawn := effect.publication current
    · exact retired.2 before
    · exact absurd retired.1 (Nat.not_lt_of_le drawn)
  | elsewhere identities roots =>
    cases taken
    exact ⟨Nat.lt_of_lt_of_le retired.1 (Nat.le_add_right _ _), retired.2⟩

/-- A retired publication stays retired along every run. -/
theorem retired_run (inv : system.Inv)
    (retired : Retired publication system) (reached : run step system actions = some next) :
    Retired publication next :=
  (run_invariant (fun now => now.Inv ∧ Retired publication now)
    (fun _ _ _ kept taken => ⟨step_inv kept.1 taken, retired_step kept.1 kept.2 taken⟩)
    ⟨inv, retired⟩ reached).2

/-- A publication that was minted by some point of a run is minted from then on. -/
theorem minted_run (inv : system.Inv) (minted : publication.raw < system.process.nextIdentity)
    (reached : run step system actions = some next) :
    publication.raw < next.process.nextIdentity := by
  refine (run_invariant (fun now => now.Inv ∧ publication.raw < now.process.nextIdentity)
    (fun now action after kept taken => ⟨step_inv kept.1 taken, ?_⟩) ⟨inv, minted⟩ reached).2
  cases action with
  | own action =>
    obtain ⟨⟨process, cell⟩, ran, rfl⟩ := map_eq_some_iff.mp taken
    exact Nat.lt_of_lt_of_le kept.2 (step_effect kept.1.cell ran).counters.1
  | elsewhere identities roots =>
    cases taken
    exact Nat.lt_of_lt_of_le kept.2 (Nat.le_add_right _ _)

/-- An acquisition that succeeds found its expected publication current and leaves none. -/
theorem acquires_spec {expected : Option PublicationIdentity}
    {opened : Option PhysicalRootAnchor} (acquires : system.Acquires expected opened)
    (taken : system.step (.own (.acquire expected opened)) = some next) :
    (∀ publication, expected = some publication →
      system.currentPublication = some publication) ∧ next.currentPublication = none := by
  obtain ⟨write, returned⟩ := acquires
  obtain ⟨-, refusal, refused⟩ | ⟨live, phase, agrees, ⟨-, refusal, refused⟩ | ⟨-, acquired⟩⟩ :=
    system.cell.authority.acquireWriteIfPublication_cases system.process _ _
  · rw [refused] at returned
    cases returned
  · rw [refused] at returned
    cases returned
  refine ⟨fun publication presented => ?_, ?_⟩
  · rw [agrees _ presented, currentPublication, ProjectSourceAuthority.currentPublication,
      livePublication_eq_some.mpr phase, map_some]
  · simp only [step, SourceCell.step, SourceCell.acquire, acquired, map_some] at taken
    cases taken
    rfl

/-- Over every interleaving at most one write authority is outstanding, and while one is, the source
is not current. When it ends the source is current again, and each of its endings gets there. A
publication that stopped being current never is again, so a write authority acquired since makes the
expected publication fail. -/
theorem write_authority_protocol (process : Process) (sane : process.Sane) (root : RootPath)
    (observed : Option PhysicalRootAnchor) (actions : List SystemAction) (now : WriteSystem)
    (reached : run step (start process root observed) actions = some now) :
    (now.cell.writes.length ≤ 1 ∧
      (now.cell.writes ≠ [] → now.isCurrent = false ∧ now.currentPublication = none)) ∧
    ((now.cell.writes = [] → now.isCurrent = true) ∧
      (∀ action next, now.step action = some next → now.cell.writes ≠ [] →
        next.cell.writes = [] → next.isCurrent = true) ∧
      (∀ write ∈ now.cell.writes, ∀ permit, write.stage = .held permit →
        ∀ ending, Ending write.handle ending → ∃ count final,
          run step now (.own ending :: List.replicate count (.own (.advance write.handle))) =
            some final ∧ final.cell.writes = [] ∧ final.isCurrent = true) ∧
      (∀ write ∈ now.cell.writes, (∀ permit, write.stage ≠ .held permit) → ∃ count final,
        run step now (List.replicate count (.own (.advance write.handle))) = some final ∧
          final.cell.writes = [] ∧ final.isCurrent = true)) ∧
    (∀ publication, now.currentPublication = some publication →
      (∀ between middle later final, run step now between = some middle →
        middle.currentPublication ≠ some publication →
        run step middle later = some final → final.currentPublication ≠ some publication) ∧
      (∀ between middle expected opened acquired later final,
        run step now between = some middle → middle.Acquires expected opened →
        middle.step (.own (.acquire expected opened)) = some acquired →
        run step acquired later = some final →
        ∀ reopened, ¬ final.Acquires (some publication) reopened)) := by
  have inv := run_inv (start_inv sane _ _) reached
  refine ⟨⟨?_, fun busy => (busy_spec inv busy).2⟩, ⟨isCurrent_of_idle inv, ?_, ?_, ?_⟩, ?_⟩
  · by_cases none : now.cell.writes = []
    · simp [none]
    obtain ⟨write, one⟩ := (busy_spec inv none).1
    simp [one]
  · intro action next taken _ none
    exact isCurrent_of_idle (step_inv inv taken) none
  · intro write member permit held ending isEnding
    obtain ⟨other, one⟩ := (busy_spec inv (List.ne_nil_of_mem member)).1
    obtain rfl : write = other := by simpa [one] using member
    obtain ⟨next, taken, moved, still, named, path⟩ := ending_enabled one held isEnding
    obtain ⟨count, final, ran, ended⟩ := terminal_completes (step_inv inv taken) still path
    rw [named] at ran
    exact ⟨count, final, run_cons.mpr ⟨next, taken, ran⟩, ended⟩
  · intro write member unheld
    obtain ⟨other, one⟩ := (busy_spec inv (List.ne_nil_of_mem member)).1
    obtain rfl : write = other := by simpa [one] using member
    refine terminal_completes inv one ?_
    cases stage : write.stage with
    | held permit => exact absurd stage (unheld _)
    | _ => simp [remaining]
  · intro publication current
    have minted := currentPublication_minted inv current
    constructor
    · intro between middle later final first gone second
      have midInv := run_inv inv first
      exact (retired_run midInv ⟨minted_run inv minted first, gone⟩ second).2
    · intro between middle expected opened acquired later final first acquires taken second
        reopened again
      have midInv := run_inv inv first
      obtain ⟨-, none⟩ := acquires_spec acquires taken
      have one : run step middle [.own (.acquire expected opened)] = some acquired :=
        run_cons.mpr ⟨acquired, taken, rfl⟩
      have retired : Retired publication acquired :=
        ⟨minted_run midInv (minted_run inv minted first) one, by rw [none]; simp⟩
      have gone := (retired_run (step_inv midInv taken) retired second).2
      exact gone ((acquires_spec again rfl).1 _ rfl)

/-- A write cycle from acquisition through a write and its commit ends with the source current. -/
theorem committed_cycle_returns_current :
    let repository := start initial "/repo" (some ⟨1, 7⟩)
    let cycle : List SystemAction :=
      [.own (.acquire none (some ⟨1, 7⟩)), .own (.write 0 "a.rs" (.ok ())),
        .own (.finishCommitted 0 ⟨[.tempCreated, .replaced], "a.rs", ⟨1⟩⟩),
        .own .registerObserver, .own (.advance 0), .own (.advance 0)]
    ∃ now, run step repository cycle = some now ∧ now.isCurrent = true := by
  intro repository cycle
  have sane : initial.Sane := ⟨by simp [initial], by simp [initial]⟩
  exact ⟨_, rfl, (write_authority_protocol _ sane "/repo" (some ⟨1, 7⟩) cycle _
    rfl).2.1.1 rfl⟩

end WriteSystem

end Symforge.Lifecycle
