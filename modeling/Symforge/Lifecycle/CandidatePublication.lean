import Symforge.Library.Locks
import Symforge.Library.Run
import Symforge.Lifecycle.Candidate

/-!
# Publication of candidates

Any number of supervisors share one artifact root. A commit holds its supervisor's lock from its
checks to its record and takes the root lock in between, so that only other supervisors' commits
come between its critical sections. So the checks still hold when the root is replaced, and every
replaced root is recorded as committed.
-/

namespace Symforge.Lifecycle

open Library List Option Function SupervisorState

/-- Where the commit of a candidate is. -/
inductive CommitPhase where
  | prepared
  /-- The checks passed; the supervisor lock is held. -/
  | entered (built : SourceId → Option SourceArtifacts) (delta : Option DeltaSpec)
  /-- The root was replaced; the supervisor lock is still held. -/
  | published (root : ProjectArtifacts)
  | returned (result : Except PromotionRefusal ProjectArtifacts)

/-- The commit is between its checks and its record. -/
def CommitPhase.holding : CommitPhase → Bool
  | .entered _ _ => true
  | .published _ => true
  | _ => false

/-- The shared root, the supervisors with their locks, and every prepared candidate. -/
structure PublicationSystem where
  process : Process
  pool : ProcessCapacityPool
  supervisors : Nat → SupervisorState
  /-- The candidate whose commit holds the supervisor. -/
  locks : Nat → Option Nat
  root : ProjectArtifacts
  candidates : Nat → Option (IsolatedCandidate × CommitPhase)
  /-- History: the supervisor of every commit that returned `Ok`. -/
  succeeded : List Nat

/-- A call of one of the parties, or the next critical section of a commit. -/
inductive PublicationAction where
  | beginAttempt (supervisor : Nat)
  | retryTrigger (supervisor : Nat) (cause : ClassifiedFailure)
  | cancel (attempt : LoadAttempt)
  | prepareFull (candidate : Nat) (owner : OwnerIdentity) (attempt : LoadAttempt)
      (sources : List CandidateSource) (derive : Nat → CandidateSource → Option UInt64)
  | prepareDelta (candidate : Nat) (owner : OwnerIdentity) (attempt : LoadAttempt)
      (changed : CandidateSource) (expected : Option SourceContentToken)
      (derive : Nat → CandidateSource → Option UInt64)
  | enter (candidate : Nat)
  | publish (candidate : Nat)
  | record (candidate : Nat)

namespace PublicationSystem

/-- Nothing prepared yet. -/
def initial (process : Process) (pool : ProcessCapacityPool) (root : ProjectArtifacts) :
    PublicationSystem where
  process := process
  pool := pool
  supervisors := fun _ => {}
  locks := fun _ => none
  root := root
  candidates := fun _ => none
  succeeded := []

variable (system : PublicationSystem)

/-- Replace one supervisor's state. -/
def setSupervisor (supervisor : Nat) (state : SupervisorState) : PublicationSystem :=
  { system with supervisors := update system.supervisors supervisor state }

variable (number : Nat) (candidate : IsolatedCandidate)

/-- A candidate goes on to another phase. -/
def setPhase
    (phase : CommitPhase) : PublicationSystem :=
  { system with candidates := update system.candidates number (some (candidate, phase)) }

/-- The end of a commit: the lock is released, then the permit is dropped. -/
def finish
    (result : Except PromotionRefusal ProjectArtifacts) : PublicationSystem :=
  { system.setPhase number candidate (.returned result) with
    locks := release system.locks number
    pool := (system.pool.refund candidate.permit.owner candidate.permit.charge).2 }

/-- Keep a prepared candidate under its number. -/
def storePrepared
    (prepared : Except CapacityRefusal IsolatedCandidate × ProcessCapacityPool) :
    PublicationSystem :=
  let system := { system with process := system.process.mintIdentity.2, pool := prepared.2 }
  match prepared.1 with
  | .error _ => system
  | .ok candidate => system.setPhase number candidate .prepared

/-- The checks of a commit, under the supervisor lock it has just taken. -/
def enterWith
    (locks : Nat → Option Nat) : PublicationSystem :=
  let supervisor := candidate.attempt.supervisor
  match candidate.check (system.supervisors supervisor) with
  | (.error refusal, state) =>
    ({ system with locks }.setSupervisor supervisor state).finish number candidate
      (.error refusal)
  | (.ok (built, delta), state) =>
    ({ system with locks }.setSupervisor supervisor state).setPhase number candidate
      (.entered built delta)

/-- One step; a supervisor that a commit holds lets nobody else in. -/
def step : PublicationAction → Option PublicationSystem
  | .beginAttempt supervisor =>
    if system.locks supervisor = none then
      some (system.setSupervisor supervisor (system.supervisors supervisor).beginAttempt.2)
    else none
  | .retryTrigger supervisor cause =>
    if system.locks supervisor = none then
      some (system.setSupervisor supervisor
        ((system.supervisors supervisor).retryTrigger cause).2)
    else none
  | .cancel attempt =>
    if system.locks attempt.supervisor = none then
      some (system.setSupervisor attempt.supervisor
        ((system.supervisors attempt.supervisor).cancel attempt.id))
    else none
  | .prepareFull number owner attempt sources derive =>
    match system.candidates number with
    | some _ => none
    | none => some (system.storePrepared number (IsolatedCandidate.prepareFull system.pool owner
        ⟨system.process.nextIdentity⟩ attempt sources derive))
  | .prepareDelta number owner attempt changed expected derive =>
    match system.candidates number with
    | some _ => none
    | none => some (system.storePrepared number (IsolatedCandidate.prepareDelta system.pool owner
        ⟨system.process.nextIdentity⟩ attempt changed expected derive))
  | .enter number =>
    match system.candidates number with
    | some (candidate, .prepared) =>
      (acquire system.locks candidate.attempt.supervisor number).map
        (system.enterWith number candidate)
    | _ => none
  | .publish number =>
    match system.candidates number with
    | some (candidate, .entered built delta) =>
      (system.root.publish built delta).map fun
        | .error refusal => system.finish number candidate (.error refusal)
        | .ok next => { system with root := next }.setPhase number candidate (.published next)
    | _ => none
  | .record number =>
    match system.candidates number with
    | some (candidate, .published next) =>
      let supervisor := candidate.attempt.supervisor
      some { (system.setSupervisor supervisor
          ((system.supervisors supervisor).recordCommit candidate.attempt.id)).finish number
            candidate (.ok next) with
        succeeded := supervisor :: system.succeeded }
    | _ => none

variable {system next : PublicationSystem} {number : Nat} {candidate : IsolatedCandidate}
  {action : PublicationAction} {supervisor : Nat} {state : SupervisorState}
  {locks : Nat → Option Nat}

/-- Supervisors are sound and count the commits that succeeded; a commit past its checks holds its
supervisor, its attempt still live. -/
structure Inv (system : PublicationSystem) : Prop where
  sound : ∀ supervisor, (system.supervisors supervisor).Inv
  counted : ∀ supervisor,
    (system.supervisors supervisor).committed = system.succeeded.count supervisor
  held : ∀ number candidate phase, system.candidates number = some (candidate, phase) →
    phase.holding = true →
      Holds system.locks number [candidate.attempt.supervisor] ∧
      (system.supervisors candidate.attempt.supervisor).isSuperseded candidate.attempt.id =
        false ∧
      (system.supervisors candidate.attempt.supervisor).isTerminal candidate.attempt.id = false
  buildable : ∀ number candidate phase, system.candidates number = some (candidate, phase) →
    candidate.Buildable
  ready : ∀ number candidate built delta,
    system.candidates number = some (candidate, .entered built delta) →
      candidate.outcome = .ready built delta

/-- The invariant holds at the start. -/
theorem initial_inv (process : Process) (pool : ProcessCapacityPool) (root : ProjectArtifacts) :
    (initial process pool root).Inv where
  sound := fun _ => new_inv
  counted := fun _ => rfl
  held := fun _ _ _ found => nomatch found
  buildable := fun _ _ _ found => nomatch found
  ready := fun _ _ _ _ found => nomatch found

namespace Inv

section Step

variable (inv : system.Inv)

include inv

/-- A supervisor that nobody holds changes and counts the commits of a new history. -/
theorem superviseWith {succeeded : List Nat} (free : system.locks supervisor = none)
    (sound : state.Inv) (here : state.committed = succeeded.count supervisor)
    (elsewhere : ∀ other, other ≠ supervisor →
      succeeded.count other = system.succeeded.count other) :
    Inv { system.setSupervisor supervisor state with succeeded } := by
  refine ⟨?_, ?_, ?_, inv.buildable, inv.ready⟩
  · exact (forall_update_iff system.supervisors fun _ state => state.Inv).mpr
      ⟨sound, fun other _ => inv.sound _⟩
  · exact (forall_update_iff system.supervisors fun other state =>
      state.committed = succeeded.count other).mpr
        ⟨here, fun other same => (inv.counted _).trans (elsewhere _ same).symm⟩
  · intro number candidate phase found holding
    obtain ⟨locked, live⟩ := inv.held _ _ _ found holding
    have apart : candidate.attempt.supervisor ≠ supervisor := by
      intro same
      have taken := locked _ mem_cons_self
      rw [same, free] at taken
      cases taken
    simp only [setSupervisor, update_of_ne apart]
    exact ⟨locked, live⟩

/-- A supervisor that nobody holds changes without counting a commit. -/
theorem supervise (free : system.locks supervisor = none) (sound : state.Inv)
    (same : state.committed = (system.supervisors supervisor).committed) :
    (system.setSupervisor supervisor state).Inv :=
  inv.superviseWith free sound (same.trans (inv.counted _)) fun _ _ => rfl

/-- A candidate goes on to a phase in which its commit holds its supervisor or nothing. -/
theorem goOn {phase : CommitPhase} (buildable : candidate.Buildable)
    (held : phase.holding = true → Holds system.locks number [candidate.attempt.supervisor] ∧
      (system.supervisors candidate.attempt.supervisor).isSuperseded candidate.attempt.id =
        false ∧
      (system.supervisors candidate.attempt.supervisor).isTerminal candidate.attempt.id = false)
    (ready : ∀ built delta, phase = .entered built delta → candidate.outcome = .ready built delta) :
    (system.setPhase number candidate phase).Inv := by
  refine ⟨inv.sound, inv.counted, ?_, ?_, ?_⟩
  · intro other another reached found holding
    rcases update_some_eq_some.mp found with ⟨here, same⟩ | ⟨-, before⟩
    · cases same
      rw [here]
      exact held holding
    · exact inv.held _ _ _ before holding
  · intro other another reached found
    rcases update_some_eq_some.mp found with ⟨-, same⟩ | ⟨-, before⟩
    · cases same
      exact buildable
    · exact inv.buildable _ _ _ before
  · intro other another built delta found
    rcases update_some_eq_some.mp found with ⟨-, same⟩ | ⟨-, before⟩
    · cases same
      exact ready _ _ rfl
    · exact inv.ready _ _ _ _ before

/-- The end of a commit takes nothing from another one. -/
theorem finished {phase : CommitPhase} (known : system.candidates number = some (candidate, phase))
    (result : Except PromotionRefusal ProjectArtifacts) :
    (system.finish number candidate result).Inv := by
  have returned : (system.setPhase number candidate (.returned result)).Inv :=
    inv.goOn (inv.buildable _ _ _ known) nofun nofun
  refine { returned with held := ?_ }
  intro other another phase found holding
  obtain ⟨locked, live⟩ := returned.held _ _ _ found holding
  have apart : other ≠ number := by
    rintro rfl
    rcases update_some_eq_some.mp found with ⟨-, same⟩ | ⟨different, -⟩
    · cases same
      cases holding
    · exact different rfl
  exact ⟨locked.release apart, live⟩

/-- A prepared candidate may be stored. -/
theorem storePrepared_inv
    {prepared : Except CapacityRefusal IsolatedCandidate × ProcessCapacityPool}
    (buildable : ∀ candidate, prepared.1 = .ok candidate → candidate.Buildable) :
    (system.storePrepared number prepared).Inv := by
  have charged : Inv { system with
      process := system.process.mintIdentity.2, pool := prepared.2 } :=
    { inv with }
  unfold storePrepared
  split
  · exact charged
  rename_i candidate made
  exact charged.goOn (buildable _ made) nofun nofun

/-- Nobody's lock changes hands when a free one is taken. -/
theorem lock (taken : acquire system.locks supervisor number = some locks) :
    Inv { system with locks } := by
  refine { inv with held := ?_ }
  intro other another phase found holding
  obtain ⟨held, live⟩ := inv.held _ _ _ found holding
  exact ⟨held.acquire taken, live⟩

/-- A commit takes the lock of its supervisor and is refused, or goes on with its attempt live. -/
theorem enter (found : system.candidates number = some (candidate, .prepared))
    (taken : acquire system.locks candidate.attempt.supervisor number = some locks) :
    (system.enterWith number candidate locks).Inv := by
  have free : system.locks candidate.attempt.supervisor = none := by
    unfold acquire at taken
    split at taken
    · assumption
    · cases taken
  unfold enterWith
  dsimp only
  rcases candidate.check_cases (inv.sound candidate.attempt.supervisor) with
    ⟨refusal, state, refused, sound, same, -⟩ | ⟨built, delta, passed, ready, current, alive⟩
  · rw [refused]
    exact ((inv.supervise free sound same).lock taken).finished found _
  rw [passed]
  have unchanged := (inv.supervise free (inv.sound _) rfl).lock taken
  have nothing : Holds system.locks number [] := nofun
  have locked : Holds locks number [candidate.attempt.supervisor] := nothing.acquired taken
  refine unchanged.goOn (inv.buildable _ _ _ found) (fun _ => ⟨locked, ?_, ?_⟩) ?_
  · simpa only [setSupervisor, update_self] using current
  · simpa only [setSupervisor, update_self] using alive
  intro known spec entered
  cases entered
  exact ready

/-- The root changes under a commit that goes on holding its supervisor. -/
theorem publish {built : SourceId → Option SourceArtifacts} {delta : Option DeltaSpec}
    (root : ProjectArtifacts)
    (found : system.candidates number = some (candidate, .entered built delta)) :
    ({ system with root }.setPhase number candidate (.published root)).Inv := by
  have held := inv.held _ _ _ found rfl
  have replaced : Inv { system with root } := { inv with }
  exact replaced.goOn (inv.buildable _ _ _ found) (fun _ => held) nofun

/-- The record ends a commit: its attempt has not ended before, so the commit is counted. -/
theorem record {root : ProjectArtifacts}
    (found : system.candidates number = some (candidate, .published root)) :
    Inv { (system.setSupervisor candidate.attempt.supervisor
        ((system.supervisors candidate.attempt.supervisor).recordCommit
          candidate.attempt.id)).finish number candidate (.ok root) with
      succeeded := candidate.attempt.supervisor :: system.succeeded } := by
  obtain ⟨locked, -, alive⟩ := inv.held _ _ _ found rfl
  have freed : release system.locks number candidate.attempt.supervisor = none :=
    if_pos (locked _ mem_cons_self)
  have ended : (system.finish number candidate (.ok root)).Inv := inv.finished found _
  refine ended.superviseWith freed ((inv.sound _).recordCommit _) ?_ ?_
  · rw [recordCommit_committed alive, count_cons_self, inv.counted]
  intro other apart
  exact count_cons_of_ne (Ne.symm apart)

end Step

end Inv

/-- What a step can do. -/
inductive Moved (system : PublicationSystem) (action : PublicationAction) :
    PublicationSystem → Prop
  | supervised (supervisor : Nat) (state : SupervisorState)
      (free : system.locks supervisor = none)
      (sound : (system.supervisors supervisor).Inv → state.Inv)
      (same : state.committed = (system.supervisors supervisor).committed)
      (ages : (system.supervisors supervisor).Ages state) :
      Moved system action (system.setSupervisor supervisor state)
  | prepared (number : Nat)
      (prepared : Except CapacityRefusal IsolatedCandidate × ProcessCapacityPool)
      (absent : system.candidates number = none)
      (buildable : ∀ candidate, prepared.1 = .ok candidate → candidate.Buildable) :
      Moved system action (system.storePrepared number prepared)
  | entered (number : Nat) (candidate : IsolatedCandidate) (locks : Nat → Option Nat)
      (found : system.candidates number = some (candidate, .prepared))
      (taken : acquire system.locks candidate.attempt.supervisor number = some locks) :
      Moved system action (system.enterWith number candidate locks)
  | drifted (number : Nat) (candidate : IsolatedCandidate)
      (built : SourceId → Option SourceArtifacts) (delta : Option DeltaSpec)
      (refusal : PromotionRefusal)
      (found : system.candidates number = some (candidate, .entered built delta)) :
      Moved system action (system.finish number candidate (.error refusal))
  | published (number : Nat) (candidate : IsolatedCandidate)
      (built : SourceId → Option SourceArtifacts) (delta : Option DeltaSpec)
      (root : ProjectArtifacts) (called : action = .publish number)
      (found : system.candidates number = some (candidate, .entered built delta))
      (replaced : system.root.publish built delta = some (.ok root)) :
      Moved system action ({ system with root }.setPhase number candidate (.published root))
  | recorded (number : Nat) (candidate : IsolatedCandidate) (root : ProjectArtifacts)
      (found : system.candidates number = some (candidate, .published root)) :
      Moved system action
        { (system.setSupervisor candidate.attempt.supervisor
            ((system.supervisors candidate.attempt.supervisor).recordCommit
              candidate.attempt.id)).finish number candidate (.ok root) with
          succeeded := candidate.attempt.supervisor :: system.succeeded }

/-- What one move does. -/
theorem step_moved (moved : step system action = some next) : Moved system action next := by
  cases action with
  | beginAttempt supervisor =>
    obtain ⟨free, same⟩ := ite_none_right_eq_some.mp moved
    cases same
    exact .supervised _ _ free SupervisorState.Inv.mint rfl (mint_ages _)
  | retryTrigger supervisor cause =>
    obtain ⟨free, same⟩ := ite_none_right_eq_some.mp moved
    cases same
    exact .supervised _ _ free (fun inv => inv.retryTrigger _)
      (retryTrigger_committed _) (retryTrigger_ages _)
  | cancel attempt =>
    obtain ⟨free, same⟩ := ite_none_right_eq_some.mp moved
    cases same
    exact .supervised attempt.supervisor _ free (fun inv => inv.terminalRow attempt.id nofun)
      (terminalRow_committed _ _) (terminalRow_ages _ _)
  | prepareFull number | prepareDelta number =>
    simp only [step] at moved
    split at moved
    · cases moved
    rename_i absent
    cases moved
    refine .prepared _ _ absent fun _ => ?_
    first
      | exact IsolatedCandidate.prepareFull_buildable
      | exact IsolatedCandidate.prepareDelta_buildable
  | enter number =>
    simp only [step] at moved
    split at moved
    · rename_i candidate found
      obtain ⟨locks, taken, same⟩ := map_eq_some_iff.mp moved
      exact same ▸ .entered _ _ _ found taken
    · cases moved
  | publish number =>
    simp only [step] at moved
    split at moved
    · rename_i candidate built delta found
      obtain ⟨result, replaced, same⟩ := map_eq_some_iff.mp moved
      cases result with
      | error refusal => exact same ▸ .drifted _ _ _ _ _ found
      | ok root => exact same ▸ .published _ _ _ _ _ rfl found replaced
    · cases moved
  | record number =>
    simp only [step] at moved
    split at moved
    · rename_i candidate root found
      exact some.inj moved ▸ .recorded _ _ _ found
    · cases moved

/-- Every move keeps the invariant. -/
theorem step_inv (inv : system.Inv) (moved : step system action = some next) : next.Inv := by
  cases step_moved moved with
  | supervised supervisor state free sound same _ =>
    exact inv.supervise free (sound (inv.sound _)) same
  | prepared number prepared _ buildable => exact inv.storePrepared_inv buildable
  | entered number candidate locks found taken => exact inv.enter found taken
  | drifted number candidate built delta refusal found => exact inv.finished found _
  | published number candidate built delta root _ found _ => exact inv.publish _ found
  | recorded number candidate root found => exact inv.record found

/-- It holds along every run. -/
theorem run_inv {process : Process} {pool : ProcessCapacityPool} {root : ProjectArtifacts}
    {actions : List PublicationAction}
    (reached : run step (initial process pool root) actions = some system) : system.Inv :=
  run_invariant Inv (fun _ _ _ => step_inv) (initial_inv _ _ _)
    reached

/-- The life of a candidate: a refusal comes before its root is published or not at all. -/
inductive Leads : Option (IsolatedCandidate × CommitPhase) →
    Option (IsolatedCandidate × CommitPhase) → Prop
  | prepared (candidate : IsolatedCandidate) : Leads none (some (candidate, .prepared))
  | refused (candidate : IsolatedCandidate) (refusal : PromotionRefusal) :
      Leads (some (candidate, .prepared)) (some (candidate, .returned (.error refusal)))
  | entered (candidate : IsolatedCandidate) (built : SourceId → Option SourceArtifacts)
      (delta : Option DeltaSpec) (ready : candidate.outcome = .ready built delta) :
      Leads (some (candidate, .prepared)) (some (candidate, .entered built delta))
  | drifted (candidate : IsolatedCandidate) (built : SourceId → Option SourceArtifacts)
      (delta : Option DeltaSpec) (refusal : PromotionRefusal) :
      Leads (some (candidate, .entered built delta)) (some (candidate, .returned (.error refusal)))
  | published (candidate : IsolatedCandidate) (built : SourceId → Option SourceArtifacts)
      (delta : Option DeltaSpec) (root : ProjectArtifacts) :
      Leads (some (candidate, .entered built delta)) (some (candidate, .published root))
  | recorded (candidate : IsolatedCandidate) (root : ProjectArtifacts) :
      Leads (some (candidate, .published root)) (some (candidate, .returned (.ok root)))

/-- What holds of every step: no disposition changes, no superseded or ended attempt is so no more,
the root changes only where a commit that passed its checks publishes what it built, and no refused
commit changes it. -/
structure StepSafe (system : PublicationSystem) (action : PublicationAction)
    (next : PublicationSystem) : Prop where
  attempts : ∀ supervisor,
    (system.supervisors supervisor).Ages (next.supervisors supervisor)
  root : next.root = system.root ∨
    ∃ number candidate built delta, action = .publish number ∧
      system.candidates number = some (candidate, .entered built delta) ∧
      candidate.outcome = .ready built delta ∧
      (system.supervisors candidate.attempt.supervisor).isSuperseded candidate.attempt.id =
        false ∧
      (system.supervisors candidate.attempt.supervisor).isTerminal candidate.attempt.id = false ∧
      next.candidates number = some (candidate, .published next.root) ∧
      system.root.ReplacedBy next.root built delta
  commits : ∀ number, next.candidates number = system.candidates number ∨
    Leads (system.candidates number) (next.candidates number)
  refused : ∀ number candidate refusal,
    next.candidates number = some (candidate, .returned (.error refusal)) →
      next.candidates number = system.candidates number ∨ next.root = system.root

/-- Only the candidate that goes on changes its phase. -/
theorem setPhase_leads {phase : CommitPhase}
    (leads : Leads (system.candidates number) (some (candidate, phase))) (other : Nat) :
    (system.setPhase number candidate phase).candidates other = system.candidates other ∨
      Leads (system.candidates other)
        ((system.setPhase number candidate phase).candidates other) := by
  by_cases same : other = number
  · subst same
    simp only [setPhase, update_self]
    exact .inr leads
  · exact .inl (update_of_ne same ..)

/-- One supervisor ages and the others stay as they are. -/
theorem setSupervisor_ages (ages : (system.supervisors supervisor).Ages state) (other : Nat) :
    (system.supervisors other).Ages
      ((system.setSupervisor supervisor state).supervisors other) :=
  (forall_update_iff system.supervisors fun other state =>
    (system.supervisors other).Ages state).mpr ⟨ages, fun _ _ => .refl _⟩ _

/-- The checks leave the root alone, whether they refuse or not. -/
theorem enterWith_safe (inv : system.Inv)
    (found : system.candidates number = some (candidate, .prepared)) :
    StepSafe system action (system.enterWith number candidate locks) := by
  unfold enterWith
  dsimp only
  rcases candidate.check_cases (inv.sound candidate.attempt.supervisor) with
    ⟨refusal, state, refused, -, -, ages⟩ | ⟨built, delta, passed, ready, -, -⟩
  · rw [refused]
    exact ⟨setSupervisor_ages ages, .inl rfl,
      setPhase_leads (found ▸ Leads.refused _ _), fun _ _ _ _ => .inr rfl⟩
  · rw [passed]
    exact ⟨setSupervisor_ages (.refl _), .inl rfl,
      setPhase_leads (found ▸ Leads.entered _ _ _ ready), fun _ _ _ _ => .inr rfl⟩

/-- Every move is safe. -/
theorem step_safe (inv : system.Inv) (moved : step system action = some next) :
    StepSafe system action next := by
  cases step_moved moved with
  | supervised supervisor state free sound same ages =>
    exact ⟨setSupervisor_ages ages, .inl rfl, fun _ => .inl rfl, fun _ _ _ _ => .inr rfl⟩
  | prepared number prepared absent buildable =>
    unfold storePrepared
    split
    · exact ⟨fun _ => .refl _, .inl rfl, fun _ => .inl rfl, fun _ _ _ _ => .inr rfl⟩
    rename_i candidate made
    exact ⟨fun _ => .refl _, .inl rfl,
      setPhase_leads (absent ▸ Leads.prepared _), fun _ _ _ _ => .inr rfl⟩
  | entered number candidate locks found taken => exact enterWith_safe inv found
  | drifted number candidate built delta refusal found =>
    exact ⟨fun _ => .refl _, .inl rfl, setPhase_leads (found ▸ Leads.drifted _ _ _ _),
      fun _ _ _ _ => .inr rfl⟩
  | published number candidate built delta root called found replaced =>
    obtain ⟨-, current, alive⟩ := inv.held _ _ _ found rfl
    refine ⟨fun _ => .refl _, .inr ⟨_, candidate, built, delta, called, found,
      inv.ready _ _ _ _ found, current, alive, update_self ..,
      ProjectArtifacts.publish_ok replaced⟩,
      setPhase_leads (found ▸ Leads.published _ _ _ _), ?_⟩
    -- the publishing candidate has not returned, and no other one moves
    intro other another refusal returned
    rcases update_some_eq_some.mp returned with ⟨-, same⟩ | ⟨-, before⟩
    · cases same
    · exact .inl (returned.trans before.symm)
  | recorded number candidate root found =>
    exact ⟨setSupervisor_ages (recordCommit_ages _), .inl rfl,
      setPhase_leads (found ▸ Leads.recorded _ _), fun _ _ _ _ => .inr rfl⟩

/-- A commit that passed its checks is never stuck at the root. -/
theorem publish_isSome (inv : system.Inv) {built : SourceId → Option SourceArtifacts}
    {delta : Option DeltaSpec}
    (found : system.candidates number = some (candidate, .entered built delta)) :
    (step system (.publish number)).isSome := by
  have built : (system.root.publish built delta).isSome := by
    apply ProjectArtifacts.publish_isSome
    rintro spec rfl
    exact inv.buildable _ _ _ found _ _
      (inv.ready _ _ _ _ found)
  simp [step, found, isSome_map, built]

/-- A started attempt is live. -/
theorem beginAttempt_starts (moved : step system (.beginAttempt supervisor) = some next) :
    ⟨(system.supervisors supervisor).nextAttempt⟩ ∈ (next.supervisors supervisor).live := by
  obtain ⟨-, same⟩ := ite_none_right_eq_some.mp moved
  cases same
  simp [setSupervisor, SupervisorState.beginAttempt, mint]

/-- A retry supersedes and ends the live attempts of its supervisor. -/
theorem retryTrigger_supersedes {cause : ClassifiedFailure}
    (moved : step system (.retryTrigger supervisor cause) = some next) {id : AttemptId}
    (live : id ∈ (system.supervisors supervisor).live) :
    (next.supervisors supervisor).isSuperseded id = true ∧
      (next.supervisors supervisor).isTerminal id = true := by
  obtain ⟨-, same⟩ := ite_none_right_eq_some.mp moved
  cases same
  simpa [setSupervisor, isSuperseded, isTerminal] using retryTrigger_ends cause live

/-- A cancelled attempt has ended. -/
theorem cancel_ends {attempt : LoadAttempt} (moved : step system (.cancel attempt) = some next) :
    (next.supervisors attempt.supervisor).isTerminal attempt.id = true := by
  obtain ⟨-, same⟩ := ite_none_right_eq_some.mp moved
  cases same
  simpa [setSupervisor, isTerminal, SupervisorState.cancel] using
    mem_terminal_terminalRow attempt.id .cancelled

/-- In every reachable state: each attempt has ended at most once, a supervisor counts its
successful commits, every further step is safe, a started attempt is live, a retry supersedes the
live ones, a cancelled one has ended, and a commit that passed its checks goes on. -/
theorem publication_safe (process : Process) (pool : ProcessCapacityPool)
    (root : ProjectArtifacts) (actions : List PublicationAction)
    (reached : run step (initial process pool root) actions = some system) :
    (∀ supervisor, ((system.supervisors supervisor).history.map AttemptRecord.id).Nodup ∧
      (system.supervisors supervisor).records = (system.supervisors supervisor).history.drop
        ((system.supervisors supervisor).history.length - maxAttemptRecords) ∧
      (system.supervisors supervisor).committed = system.succeeded.count supervisor) ∧
    (∀ action next, step system action = some next → StepSafe system action next) ∧
    (∀ supervisor next, step system (.beginAttempt supervisor) = some next →
      ⟨(system.supervisors supervisor).nextAttempt⟩ ∈ (next.supervisors supervisor).live) ∧
    (∀ supervisor cause next, step system (.retryTrigger supervisor cause) = some next →
      ∀ id ∈ (system.supervisors supervisor).live,
        (next.supervisors supervisor).isSuperseded id = true ∧
          (next.supervisors supervisor).isTerminal id = true) ∧
    (∀ attempt next, step system (.cancel attempt) = some next →
      (next.supervisors attempt.supervisor).isTerminal attempt.id = true) ∧
    (∀ number candidate built delta,
      system.candidates number = some (candidate, .entered built delta) →
        (step system (.publish number)).isSome) := by
  have inv := run_inv reached
  refine ⟨?_, fun _ _ moved => step_safe inv moved, fun _ _ moved => beginAttempt_starts moved,
    fun _ _ _ moved _ live => retryTrigger_supersedes moved live,
    fun _ _ moved => cancel_ends moved, fun _ _ _ _ found => publish_isSome inv found⟩
  intro supervisor
  exact ⟨(inv.sound _).once, (inv.sound _).newest, inv.counted _⟩

/-- Source 7 with one byte of content. -/
def sampleSource (token : UInt64) : CandidateSource := ⟨⟨7⟩, .content ⟨"f", some "f"⟩ ⟨token⟩ 1⟩

/-- The delta of one supervisor is committed between the critical sections of another's full build.
Then a superseded and a cancelled delta try to commit. -/
def interleavedCommits : List PublicationAction :=
  [.beginAttempt 0, .beginAttempt 1,
    .prepareFull 0 ⟨1⟩ ⟨⟨0⟩, 0⟩ [sampleSource 4] (fun _ _ => some 40),
    .prepareDelta 1 ⟨1⟩ ⟨⟨0⟩, 1⟩ (sampleSource 5) (some ⟨4⟩) (fun _ _ => some 50),
    .enter 0, .enter 1, .publish 0, .publish 1, .record 1, .record 0, .beginAttempt 1,
    .prepareDelta 2 ⟨1⟩ ⟨⟨1⟩, 1⟩ (sampleSource 6) (some ⟨5⟩) (fun _ _ => some 60),
    .retryTrigger 1 .unreadable, .enter 2, .beginAttempt 0,
    .prepareDelta 3 ⟨1⟩ ⟨⟨1⟩, 0⟩ (sampleSource 7) (some ⟨5⟩) (fun _ _ => some 70),
    .cancel ⟨⟨1⟩, 0⟩, .enter 3]

/-- A pool with one owner of 100 bytes. -/
def samplePool : ProcessCapacityPool := ProcessCapacityPool.root { identity := ⟨1⟩ } ⟨1⟩ 100

/-- Both late deltas are refused and the root keeps the source of the first one. -/
theorem interleavedCommits_safe :
    ∃ system, run step (initial Process.initial samplePool ⟨fun _ => none⟩) interleavedCommits =
        some system ∧
      system.succeeded = [0, 1] ∧
      (∀ supervisor, ((system.supervisors supervisor).history.map AttemptRecord.id).Nodup) ∧
      (∃ superseded, system.candidates 2 = some (superseded, .returned (.error .superseded))) ∧
      (∃ cancelled,
        system.candidates 3 = some (cancelled, .returned (.error .attemptAlreadyTerminal))) ∧
      (system.root.sources ⟨7⟩).map SourceArtifacts.token = some ⟨5⟩ := by
  refine ⟨_, rfl, rfl, ?_, ⟨_, rfl⟩, ⟨_, rfl⟩, rfl⟩
  intro supervisor
  exact ((publication_safe Process.initial samplePool ⟨fun _ => none⟩ interleavedCommits
    rfl).1 supervisor).1

end PublicationSystem

end Symforge.Lifecycle
