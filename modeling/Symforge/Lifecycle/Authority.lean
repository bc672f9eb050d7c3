import Symforge.Lifecycle.Process

/-!
# Source phases and mutation grants

Model of `index_lifecycle/authority.rs`: the five phases of one source, the permit record a
refreshing source carries, and the functions that move the source between phases. A fallible
function returns its result together with the state it leaves. The mutation epoch and the grant
counter are `u64` in the source and natural numbers here; both advance by at most one per call.
-/

namespace Symforge.Lifecycle

/-- `authority::BindingAuthority` — the revocation flag lives in the process. -/
structure BindingAuthority where
  identity : BindingIdentity
  /-- The lease the binding names. -/
  physicalRoot : PhysicalRootIdentity
deriving DecidableEq, Repr

/-- `BindingAuthority::bind` — a fresh binding to a lease. -/
def BindingAuthority.bind (process : Process) (root : PhysicalRootIdentity) :
    BindingAuthority × Process :=
  let (identity, process) := process.mintIdentity
  (⟨⟨identity⟩, root⟩, process)

/-- `authority::CurrentPublication` — a publication a source can be `Current` on. -/
structure CurrentPublication where
  publication : PublicationIdentity
  /-- The generation it serves. -/
  generation : GenerationIdentity
  /-- The binding it was published under. -/
  binding : BindingAuthority
  /-- The observer registration it carries. -/
  observerCut : ObserverToken
deriving DecidableEq, Repr

/-- `CurrentPublication::promote` — fresh publication and generation, in that order. -/
def CurrentPublication.promote (process : Process) (binding : BindingAuthority)
    (observerCut : ObserverToken) : CurrentPublication × Process :=
  let (publication, process) := process.mintIdentity
  let (generation, process) := process.mintIdentity
  (⟨⟨publication⟩, ⟨generation⟩, binding, observerCut⟩, process)

/-- `authority::MutationAuthority` — what a grant allows its holder to mutate. -/
structure MutationAuthority where
  /-- The generation the mutation replaces. -/
  generation : GenerationIdentity
  /-- The binding of the granting publication. -/
  binding : BindingAuthority
  /-- The epoch after the freeze. -/
  epoch : Nat
  /-- The publication that was live when the grant was made. -/
  publication : PublicationIdentity
deriving DecidableEq, Repr

/-- `authority::NonCurrentPublicationProof` — the publication that froze the source. -/
structure NonCurrentPublicationProof where
  publication : PublicationIdentity
  /-- The epoch after the freeze. -/
  epoch : Nat
deriving DecidableEq, Repr

/-- `authority::CurrentMutationGrantAuthority` — an accepted grant. -/
structure CurrentMutationGrantAuthority where
  authority : MutationAuthority
  /-- Evidence that the source left `Current` first. -/
  publishedNonCurrent : NonCurrentPublicationProof
deriving DecidableEq, Repr

/-- `authority::Provenance` — where the input of a grant request came from. -/
inductive Provenance where
  | liveCurrent
  | candidate
  | snapshot
  | retainedGeneration
  | stalePublication
deriving DecidableEq, Repr

/-- `authority::MutationGrantInput` — what a caller presents to obtain a grant. -/
inductive MutationGrantInput where
  | liveCurrent (publication : PublicationIdentity)
  | candidate (candidate : CandidateIdentity)
  | snapshot (snapshot : SnapshotIdentity)
  | retainedGeneration (generation : GenerationIdentity)
  | stalePublication (publication : PublicationIdentity)
deriving DecidableEq, Repr

/-- `MutationGrantInput::provenance`. -/
def MutationGrantInput.provenance : MutationGrantInput → Provenance
  | .liveCurrent _ => .liveCurrent
  | .candidate _ => .candidate
  | .snapshot _ => .snapshot
  | .retainedGeneration _ => .retainedGeneration
  | .stalePublication _ => .stalePublication

/-- `authority::PhaseName`. -/
inductive PhaseName where
  | loading
  | current
  | refreshing
  | blocked
  | stopping
deriving DecidableEq, Repr

/-- `authority::ObserverPhase` — the observer as one non-current source sees it. -/
inductive ObserverPhase where
  | absent
  | active (token : ObserverToken)
  | draining (token : ObserverToken)
  | observerFree (handoff : ObserverToken)
deriving DecidableEq, Repr

/-- `authority::NonCurrentWork` — what a source without a current publication is doing. -/
inductive NonCurrentWork where
  | dirty
  | waitingForCapacity
  | building (candidate : CandidateIdentity)
  | verifying (candidate : CandidateIdentity)
  | retryWait (attempt : Nat)
deriving DecidableEq, Repr

/-- `authority::BlockedCause`. -/
inductive BlockedCause where
  | verificationFailed
  | observerUnavailable
  | capacityRefused
deriving DecidableEq, Repr

/-- `authority::ActivePermits` — the permits issued against one freeze. -/
structure ActivePermits where
  /-- Permits that have not been retired, in the order they were recorded. -/
  outstanding : List PublicationIdentity := []
  /-- Some permit was recorded against this freeze. -/
  everRecorded : Bool := false
deriving DecidableEq, Repr

variable (permits : ActivePermits)

/-- `ActivePermits::record` — latch the record and add the permit once. -/
def ActivePermits.record (grant : PublicationIdentity) : ActivePermits where
  everRecorded := true
  outstanding :=
    if permits.outstanding.contains grant then permits.outstanding
    else permits.outstanding ++ [grant]

/-- `ActivePermits::retire` — whether the permit was there, and the record without it. -/
def ActivePermits.retire (grant : PublicationIdentity) : Bool × ActivePermits :=
  let kept := permits.outstanding.filter (· ≠ grant)
  (kept.length != permits.outstanding.length, { permits with outstanding := kept })

/-- `ActivePermits::is_drained`. -/
def ActivePermits.isDrained : Bool := permits.outstanding.isEmpty

/-- `authority::RevocationResidency` — the charge a stopping source leaves behind. -/
structure RevocationResidency where
  charge : PublicationIdentity
deriving DecidableEq, Repr

/-- `authority::SourcePhase` — the five phases with the data each of them stores. -/
inductive SourcePhase where
  | loading (binding : BindingAuthority) (observerPhase : ObserverPhase) (work : NonCurrentWork)
  | current (publication : CurrentPublication)
  | refreshing (retained : GenerationIdentity) (binding : BindingAuthority)
      (publication : PublicationIdentity) (observerPhase : ObserverPhase)
      (activePermits : ActivePermits) (work : NonCurrentWork)
  | blocked (binding : BindingAuthority) (observerPhase : ObserverPhase)
      (retained : Option GenerationIdentity) (cause : BlockedCause)
  | stopping (retained : Option GenerationIdentity) (residency : Option RevocationResidency)
deriving DecidableEq, Repr

/-- `SourcePhase::name`. -/
def SourcePhase.name : SourcePhase → PhaseName
  | .loading .. => .loading
  | .current _ => .current
  | .refreshing .. => .refreshing
  | .blocked .. => .blocked
  | .stopping .. => .stopping

/-- `authority::AuthorityRefusal`. -/
inductive AuthorityRefusal where
  /-- The operation needs a `Current` source. -/
  | phaseNotCurrent (phase : PhaseName)
  /-- The grant input is not the live publication. -/
  | provenanceNotLiveCurrent (provenance : Provenance)
  /-- The presented publication is not the live one. -/
  | publicationIdentityMismatch (presented live : PublicationIdentity)
  /-- The lease was revoked, or an operation beneath it was refused. -/
  | physicalRootReplaced
  /-- The permit is not in the state the operation needs. -/
  | permitAlreadyTerminal
  | sideEffectAlreadyInFlight
  /-- A binding or a receipt names another lease. -/
  | wholeAuthorityMismatch
  | bindingRevoked (binding : BindingIdentity)
  | outstandingPermit
deriving DecidableEq, Repr

/-- `authority::SourceRuntime`. -/
structure SourceRuntime where
  phase : SourcePhase
  /-- Advanced by every freeze. -/
  mutationEpoch : Nat
  /-- Number of grants ever accepted. -/
  grantsIssued : Nat
deriving DecidableEq, Repr

namespace SourceRuntime

/-! ## Constructors -/

/-- `SourceRuntime::loading`. -/
def loading (binding : BindingAuthority) : SourceRuntime := ⟨.loading binding .absent .dirty, 0, 0⟩

/-- `SourceRuntime::current`. -/
def current (publication : CurrentPublication) : SourceRuntime := ⟨.current publication, 0, 0⟩

/-- `SourceRuntime::refreshing` — mints the publication it stands on. -/
def refreshing (process : Process) (binding : BindingAuthority)
    (retained : GenerationIdentity) : SourceRuntime × Process :=
  let (publication, process) := process.mintIdentity
  (⟨.refreshing retained binding ⟨publication⟩ .absent {} .dirty, 0, 0⟩, process)

/-- `SourceRuntime::blocked`. -/
def blocked (binding : BindingAuthority) (retained : Option GenerationIdentity) : SourceRuntime :=
  ⟨.blocked binding .absent retained .verificationFailed, 0, 0⟩

/-- `SourceRuntime::stopping`. -/
def stopping (retained : Option GenerationIdentity)
    (residency : Option RevocationResidency) : SourceRuntime :=
  ⟨.stopping retained residency, 0, 0⟩

/-! ## Observations -/

variable (runtime : SourceRuntime)

/-- `SourceRuntime::active_permits` — only a refreshing source stores permits. -/
def activePermits : ActivePermits :=
  match runtime.phase with
  | .refreshing _ _ _ _ permits _ => permits
  | _ => {}

/-- `SourceRuntime::queryable_generation` — a refreshing source serves what it retains until a
permit is recorded against it. -/
def queryableGeneration : Option GenerationIdentity :=
  match runtime.phase with
  | .current publication => some publication.generation
  | .refreshing retained _ _ _ permits _ => if permits.everRecorded then none else some retained
  | .loading .. | .blocked .. | .stopping .. => none

/-- `SourceRuntime::live_publication`. -/
def livePublication : Option CurrentPublication :=
  match runtime.phase with
  | .current publication => some publication
  | _ => none

/-- A source has a live publication exactly when its phase is current. -/
theorem livePublication_eq_some {runtime : SourceRuntime} {live : CurrentPublication} :
    runtime.livePublication = some live ↔ runtime.phase = .current live := by
  obtain ⟨phase, epoch, grants⟩ := runtime
  cases phase <;> simp [livePublication]

/-! ## Transitions of the phase -/

/-- The data of a refreshing phase that `freeze` stores. -/
structure Frozen where
  retained : GenerationIdentity
  binding : BindingAuthority
  observerPhase : ObserverPhase
  /-- Permits carried across a second freeze. -/
  activePermits : ActivePermits
  /-- Work carried across a second freeze. -/
  work : NonCurrentWork

/-- What `freeze` reads: nothing to publish in `Loading`, `Blocked` and `Stopping`. -/
def frozenParts (phase : SourcePhase) : Option Frozen :=
  match phase with
  | .current publication =>
    some ⟨publication.generation, publication.binding, .active publication.observerCut, {}, .dirty⟩
  | .refreshing retained binding _ observerPhase permits work =>
    some ⟨retained, binding, observerPhase, permits, work⟩
  | .loading .. | .blocked .. | .stopping .. => none

variable (process : Process)

/-- `SourceRuntime::freeze` — publish non-current under a fresh identity and advance the epoch. -/
def freeze : Option PublicationIdentity × Process × SourceRuntime :=
  match frozenParts runtime.phase with
  | none => (none, process, runtime)
  | some parts =>
    let (publication, process) := process.mintIdentity
    (some ⟨publication⟩, process, { runtime with
        mutationEpoch := runtime.mutationEpoch + 1
        phase := .refreshing parts.retained parts.binding ⟨publication⟩ parts.observerPhase
          parts.activePermits parts.work })

/-- `SourceRuntime::record_permit`. -/
def recordPermit (grant : PublicationIdentity) : Bool × SourceRuntime :=
  match runtime.phase with
  | .refreshing retained binding publication observerPhase permits work =>
    (true, { runtime with
      phase := .refreshing retained binding publication observerPhase (permits.record grant) work })
  | _ => (false, runtime)

/-- `SourceRuntime::retire_permit`. -/
def retirePermit (grant : PublicationIdentity) : Bool × SourceRuntime :=
  match runtime.phase with
  | .refreshing retained binding publication observerPhase permits work =>
    ((permits.retire grant).1, { runtime with
      phase := .refreshing retained binding publication observerPhase
        (permits.retire grant).2 work })
  | _ => (false, runtime)

/-- `SourceRuntime::set_work`. -/
def setWork (next : NonCurrentWork) : Bool × SourceRuntime :=
  match runtime.phase with
  | .loading binding observerPhase _ =>
    (true, { runtime with phase := .loading binding observerPhase next })
  | .refreshing retained binding publication observerPhase permits _ =>
    (true, { runtime with
      phase := .refreshing retained binding publication observerPhase permits next })
  | _ => (false, runtime)

/-- `SourceRuntime::set_observer_phase`. -/
def setObserverPhase (next : ObserverPhase) : Bool × SourceRuntime :=
  match runtime.phase with
  | .loading binding _ work => (true, { runtime with phase := .loading binding next work })
  | .refreshing retained binding publication _ permits work =>
    (true, { runtime with
      phase := .refreshing retained binding publication next permits work })
  | .blocked binding _ retained cause =>
    (true, { runtime with phase := .blocked binding next retained cause })
  | _ => (false, runtime)

/-- `SourceRuntime::install`. -/
def install (publication : CurrentPublication) : SourceRuntime :=
  { runtime with phase := .current publication }

/-- `SourceRuntime::request_mutation_grant` — the checks, then the freeze, the permit record and the
grant. The refusal after an empty freeze is the source's `expect`, which a current phase never
reaches. -/
def requestMutationGrant (input : MutationGrantInput) :
    Except AuthorityRefusal CurrentMutationGrantAuthority × Process × SourceRuntime :=
  match runtime.phase with
  | .current live =>
    match input with
    | .liveCurrent presented =>
      if presented ≠ live.publication then
        (.error (.publicationIdentityMismatch presented live.publication), process, runtime)
      else
        match runtime.freeze process with
        | (none, process, runtime) => (.error (.phaseNotCurrent .current), process, runtime)
        | (some publication, process, frozen) =>
          let (_, recorded) := frozen.recordPermit publication
          let epoch := recorded.mutationEpoch
          (.ok ⟨⟨live.generation, live.binding, epoch, live.publication⟩, ⟨publication, epoch⟩⟩,
            process, { recorded with grantsIssued := recorded.grantsIssued + 1 })
    | other => (.error (.provenanceNotLiveCurrent other.provenance), process, runtime)
  | other => (.error (.phaseNotCurrent other.name), process, runtime)

/-! ## What each transition can do -/

/-- `freeze` finds nothing to publish, or stores the frozen parts under the identity it drew. -/
theorem freeze_cases :
    (frozenParts runtime.phase = none ∧ runtime.freeze process = (none, process, runtime)) ∨
    ∃ parts, frozenParts runtime.phase = some parts ∧
      runtime.freeze process = (some ⟨process.nextIdentity⟩,
        { process with nextIdentity := process.nextIdentity + 1 },
        { runtime with
          mutationEpoch := runtime.mutationEpoch + 1
          phase := .refreshing parts.retained parts.binding ⟨process.nextIdentity⟩
            parts.observerPhase parts.activePermits parts.work }) := by
  unfold freeze
  cases found : frozenParts runtime.phase with
  | none => exact .inl ⟨rfl, rfl⟩
  | some parts => exact .inr ⟨parts, rfl, rfl⟩

/-- The source a grant leaves: refreshing on a fresh publication, which is its only permit. -/
def granted (live : CurrentPublication) (frozen : PublicationIdentity) : SourceRuntime where
  phase := .refreshing live.generation live.binding frozen (.active live.observerCut)
    ⟨[frozen], true⟩ .dirty
  mutationEpoch := runtime.mutationEpoch + 1
  grantsIssued := runtime.grantsIssued + 1

/-- A current source with its own live publication is frozen and records just the new permit. -/
theorem requestMutationGrant_current {runtime : SourceRuntime} {live : CurrentPublication}
    (process : Process) (phase : runtime.phase = .current live) :
    runtime.requestMutationGrant process (.liveCurrent live.publication) =
      (.ok ⟨⟨live.generation, live.binding, runtime.mutationEpoch + 1, live.publication⟩,
          ⟨⟨process.nextIdentity⟩, runtime.mutationEpoch + 1⟩⟩,
        { process with nextIdentity := process.nextIdentity + 1 },
        runtime.granted live ⟨process.nextIdentity⟩) := by
  simp [requestMutationGrant, phase, freeze, frozenParts, Process.mintIdentity, recordPermit,
    ActivePermits.record, granted]

/-- A grant request is refused without a trace, or a current source was given its publication. -/
theorem requestMutationGrant_cases (input : MutationGrantInput) :
    (∃ refusal, runtime.requestMutationGrant process input = (.error refusal, process, runtime)) ∨
    ∃ live, runtime.phase = .current live ∧ input = .liveCurrent live.publication := by
  obtain ⟨phase, epoch, grants⟩ := runtime
  cases phase with
  | current live =>
    cases input with
    | liveCurrent presented =>
      by_cases same : presented = live.publication
      · exact .inr ⟨_, rfl, by rw [same]⟩
      exact .inl ⟨.publicationIdentityMismatch presented live.publication,
        by simp [requestMutationGrant, if_pos same]⟩
    | _ => exact .inl ⟨_, rfl⟩
  | _ => exact .inl ⟨_, rfl⟩

end SourceRuntime

end Symforge.Lifecycle
