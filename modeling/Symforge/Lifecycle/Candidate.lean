import Symforge.Lifecycle.Capacity
import Symforge.Lifecycle.Supervisor

/-!
# Isolated candidates

Model of `index_lifecycle/candidate.rs`: a candidate is built aside from the published root, holds
its capacity permit and is consumed by `commit`. A derivation is a parameter that may unwind. The
hash maps are functions. `commit` is given by its three critical sections: the checks under the
supervisor lock, the publication under the root lock, and the record, still under the first lock.
-/

namespace Symforge.Lifecycle

open Function

/-- `candidate::SourceId`. -/
structure SourceId where
  raw : Nat
deriving DecidableEq, Repr

/-- `candidate::SourceContentToken`. -/
structure SourceContentToken where
  raw : UInt64
deriving DecidableEq, Repr

/-- `candidate::ArtifactKind`. -/
inductive ArtifactKind where
  | catalog
  | symbols
  | references
  | outline
deriving DecidableEq, Repr

/-- `ArtifactKind::REQUIRED`. -/
def ArtifactKind.required : List ArtifactKind := [.catalog, .symbols, .references, .outline]

/-- `domain::index::CatalogPath`. -/
structure CatalogPath where
  publicId : String
  normalizedUtf8 : Option String
deriving DecidableEq, Repr

/-- `domain::index::MetadataOnlyReason`. -/
inductive MetadataOnlyReason where
  | lockfile
  | binary
  | oversizedData
  | generatedOrVendor
  | sensitivePath (ruleId : String)
  | sensitiveContent (ruleIds : List String) (findingCount : UInt32)
  | lfsPointer (declaredOid : Option String) (declaredSize : Option UInt64)
  | unsupportedPathEncoding
  | pathMetadataTooLarge
  | unsupportedTextEncoding
deriving DecidableEq, Repr

/-- `candidate::SourceObservation`. -/
inductive SourceObservation where
  | content (path : CatalogPath) (token : SourceContentToken) (bytes : UInt64)
  | metadataOnly (path : CatalogPath) (reason : MetadataOnlyReason)
  | failed (cause : ClassifiedFailure)
deriving DecidableEq, Repr

/-- `candidate::CandidateSource`. -/
structure CandidateSource where
  id : SourceId
  observation : SourceObservation
deriving DecidableEq, Repr

/-- `candidate::EntryDisposition`. -/
inductive EntryDisposition where
  | indexed (contentStamp : UInt64)
  | metadataOnly (reason : MetadataOnlyReason)
deriving DecidableEq, Repr

/-- `candidate::ManifestEntry`. -/
structure ManifestEntry where
  path : CatalogPath
  disposition : EntryDisposition
deriving DecidableEq, Repr

/-- `candidate::SourceArtifacts` — the manifest is its list of entries. -/
structure SourceArtifacts where
  token : SourceContentToken
  manifest : List ManifestEntry
  artifacts : List (ArtifactKind × UInt64)
deriving DecidableEq, Repr

/-- `candidate::ProjectArtifacts`. -/
structure ProjectArtifacts where
  sources : SourceId → Option SourceArtifacts

/-- `candidate::PromotionRefusal`. -/
inductive PromotionRefusal where
  | failure (cause : ClassifiedFailure)
  | capabilityCannotAuthorize
  | superseded
  | attemptAlreadyTerminal
  | sameSourceDrift (expected found : Option SourceContentToken)
  | epochIsNotAuthority
  | panicked
deriving DecidableEq, Repr

/-- `candidate::DeltaSpec`. -/
structure DeltaSpec where
  changed : SourceId
  expected : Option SourceContentToken
deriving DecidableEq, Repr

/-- `candidate::BuildOutcome`. -/
inductive BuildOutcome where
  | ready (built : SourceId → Option SourceArtifacts) (delta : Option DeltaSpec)
  | classified (cause : ClassifiedFailure)
  | panicked

/-- `supervisor::LoadAttempt` — with the number of the supervisor it points to. -/
structure LoadAttempt where
  id : AttemptId
  supervisor : Nat
deriving DecidableEq, Repr

/-- `candidate::IsolatedCandidate`. -/
structure IsolatedCandidate where
  outcome : BuildOutcome
  attempt : LoadAttempt
  permit : CapacityPermit

/-- `candidate::reserved_bytes`. -/
def reservedBytes (sources : List CandidateSource) : UInt64 :=
  max 1 ((sources.map fun source => match source.observation with
    | .content _ _ bytes => bytes
    | _ => 0).foldl (· + ·) 0)

/-- The artifacts derived for content with a stamp. -/
def contentArtifacts (path : CatalogPath) (token : SourceContentToken) (stamp : UInt64) :
    SourceArtifacts where
  token := token
  manifest := [⟨path, .indexed stamp⟩]
  artifacts := ArtifactKind.required.zipIdx.map fun (kind, offset) =>
    (kind, stamp + UInt64.ofNat offset)

/-- The artifacts of a source that is only catalogued. -/
def metadataArtifacts (path : CatalogPath) (reason : MetadataOnlyReason) : SourceArtifacts where
  token := ⟨0⟩
  manifest := [⟨path, .metadataOnly reason⟩]
  artifacts := []

/-- The loop of `candidate::build_sources` after some derivations; `derive call source` is `none`
where that call unwinds. -/
def buildSourcesFrom (derive : Nat → CandidateSource → Option UInt64) :
    Nat → (SourceId → Option SourceArtifacts) → List CandidateSource → BuildOutcome
  | _, built, [] => .ready built none
  | call, built, source :: rest =>
    match source.observation with
    | .failed cause => .classified cause
    | .content path token _ =>
      match derive call source with
      | none => .panicked
      | some stamp => buildSourcesFrom derive (call + 1)
          (update built source.id (some (contentArtifacts path token stamp))) rest
    | .metadataOnly path reason => buildSourcesFrom derive call
        (update built source.id (some (metadataArtifacts path reason))) rest

/-- `candidate::build_sources`. -/
def buildSources (derive : Nat → CandidateSource → Option UInt64)
    (sources : List CandidateSource) : BuildOutcome :=
  buildSourcesFrom derive 0 (fun _ => none) sources

namespace IsolatedCandidate

variable {candidate : IsolatedCandidate} {attempt : LoadAttempt} {pool : ProcessCapacityPool}
  {owner : OwnerIdentity} {charge : PublicationIdentity} {delta : Option DeltaSpec}
  {sources : List CandidateSource} {derive : Nat → CandidateSource → Option UInt64}
  {built : SourceId → Option SourceArtifacts}

/-- Reserve, redeem and build: what the two ways to prepare a candidate share. -/
def prepare (pool : ProcessCapacityPool) (owner : OwnerIdentity) (charge : PublicationIdentity)
    (attempt : LoadAttempt) (sources : List CandidateSource) (outcome : BuildOutcome) :
    Except CapacityRefusal IsolatedCandidate × ProcessCapacityPool :=
  match pool.reserve owner (reservedBytes sources) charge with
  | .error refusal => (.error refusal, pool)
  | .ok (grant, charged) =>
    match charged.redeem grant with
    | .error refusal => (.error refusal, (charged.refund grant.owner grant.charge).2)
    | .ok permit => (.ok ⟨outcome, attempt, permit⟩, charged)

/-- `IsolatedCandidate::prepare_full`. -/
def prepareFull (pool : ProcessCapacityPool) (owner : OwnerIdentity)
    (charge : PublicationIdentity) (attempt : LoadAttempt) (sources : List CandidateSource)
    (derive : Nat → CandidateSource → Option UInt64) :
    Except CapacityRefusal IsolatedCandidate × ProcessCapacityPool :=
  prepare pool owner charge attempt sources (buildSources derive sources)

/-- The outcome of a delta build, to be validated against the expected token. -/
def deltaOutcome (changed : SourceId) (expected : Option SourceContentToken) :
    BuildOutcome → BuildOutcome
  | .ready built _ => .ready built (some ⟨changed, expected⟩)
  | .classified cause => .classified cause
  | .panicked => .panicked

/-- `IsolatedCandidate::prepare_delta`. -/
def prepareDelta (pool : ProcessCapacityPool) (owner : OwnerIdentity)
    (charge : PublicationIdentity) (attempt : LoadAttempt) (changed : CandidateSource)
    (expected : Option SourceContentToken) (derive : Nat → CandidateSource → Option UInt64) :
    Except CapacityRefusal IsolatedCandidate × ProcessCapacityPool :=
  prepare pool owner charge attempt [changed]
    (deltaOutcome changed.id expected (buildSources derive [changed]))

/-- The first critical section of `IsolatedCandidate::commit`: what is to be published, or the
refusal. -/
def check (candidate : IsolatedCandidate) (supervisor : SupervisorState) :
    Except PromotionRefusal ((SourceId → Option SourceArtifacts) × Option DeltaSpec) ×
      SupervisorState :=
  if supervisor.isSuperseded candidate.attempt.id then (.error .superseded, supervisor)
  else if supervisor.isTerminal candidate.attempt.id then
    (.error .attemptAlreadyTerminal, supervisor)
  else
    match candidate.outcome with
    | .classified cause =>
      (.error (.failure cause), supervisor.recordDiscard candidate.attempt.id cause)
    | .panicked => (.error .panicked, supervisor.recordPanic candidate.attempt.id)
    | .ready built delta => (.ok (built, delta), supervisor)

/-- The checks refuse without counting a commit, or change nothing and find the attempt live. -/
theorem check_cases (candidate : IsolatedCandidate) {supervisor : SupervisorState}
    (inv : supervisor.Inv) :
    (∃ refusal state, candidate.check supervisor = (.error refusal, state) ∧ state.Inv ∧
      state.committed = supervisor.committed ∧ supervisor.Ages state) ∨
    (∃ built delta, candidate.check supervisor = (.ok (built, delta), supervisor) ∧
      candidate.outcome = .ready built delta ∧
      supervisor.isSuperseded candidate.attempt.id = false ∧
      supervisor.isTerminal candidate.attempt.id = false) := by
  unfold check
  split
  · exact .inl ⟨_, _, rfl, inv, rfl, .refl _⟩
  rename_i current
  split
  · exact .inl ⟨_, _, rfl, inv, rfl, .refl _⟩
  rename_i alive
  split
  · exact .inl ⟨_, _, rfl, inv.terminalRow _ nofun,
      SupervisorState.terminalRow_committed _ _, SupervisorState.terminalRow_ages _ _⟩
  · exact .inl ⟨_, _, rfl, inv.terminalRow _ nofun,
      SupervisorState.terminalRow_committed _ _, SupervisorState.terminalRow_ages _ _⟩
  rename_i built delta ready
  exact .inr ⟨built, delta, rfl, ready, Bool.eq_false_iff.mpr current, Bool.eq_false_iff.mpr alive⟩

/-- A delta build that is ready has built the source it changes. -/
def Buildable (candidate : IsolatedCandidate) : Prop :=
  ∀ built spec, candidate.outcome = .ready built (some spec) → built spec.changed ≠ none

/-- A prepared candidate has the outcome it was prepared with. -/
theorem prepare_outcome {outcome : BuildOutcome}
    (prepared : (prepare pool owner charge attempt sources outcome).1 = .ok candidate) :
    candidate.outcome = outcome := by
  unfold prepare at prepared
  split at prepared
  · cases prepared
  split at prepared
  · cases prepared
  cases prepared
  rfl

/-- A build by itself asks for no validation. -/
theorem buildSourcesFrom_delta {call : Nat} {start : SourceId → Option SourceArtifacts}
    (ready : buildSourcesFrom derive call start sources = .ready built delta) :
    delta = none := by
  induction sources generalizing call start with
  | nil =>
    cases ready
    rfl
  | cons source rest ih =>
    unfold buildSourcesFrom at ready
    split at ready
    · cases ready
    · split at ready
      · cases ready
      · exact ih ready
    · exact ih ready

/-- A full candidate can be built. -/
theorem prepareFull_buildable
    (prepared : (prepareFull pool owner charge attempt sources derive).1 = .ok candidate) :
    candidate.Buildable := by
  intro built spec ready
  rw [prepare_outcome prepared] at ready
  cases buildSourcesFrom_delta ready

/-- So can a delta candidate. -/
theorem prepareDelta_buildable {changed : CandidateSource} {expected : Option SourceContentToken}
    (prepared : (prepareDelta pool owner charge attempt changed expected derive).1 =
      .ok candidate) : candidate.Buildable := by
  intro built spec ready
  rw [prepare_outcome prepared] at ready
  simp only [buildSources, buildSourcesFrom, deltaOutcome] at ready
  split at ready
  · rename_i alone outcome
    cases ready
    split at outcome
    · cases outcome
    · split at outcome
      · cases outcome
      cases outcome
      simp
    · cases outcome
      simp
  · cases ready
  · cases ready

end IsolatedCandidate

/-- The second critical section of `IsolatedCandidate::commit`: the next root, or the drift; `none`
where its `expect` fails. -/
def ProjectArtifacts.publish (root : ProjectArtifacts)
    (built : SourceId → Option SourceArtifacts) (delta : Option DeltaSpec) :
    Option (Except PromotionRefusal ProjectArtifacts) :=
  match delta with
  | none => some (.ok ⟨built⟩)
  | some spec =>
    let found := (root.sources spec.changed).map SourceArtifacts.token
    if found ≠ spec.expected then some (.error (.sameSourceDrift spec.expected found))
    else (built spec.changed).map fun changed =>
      .ok ⟨update root.sources spec.changed (some changed)⟩

/-- The next root holds just what was built, or differs from the latest root in the changed source
alone, which had the expected token. -/
def ProjectArtifacts.ReplacedBy (root next : ProjectArtifacts)
    (built : SourceId → Option SourceArtifacts) : Option DeltaSpec → Prop
  | none => next.sources = built
  | some spec => (root.sources spec.changed).map SourceArtifacts.token = spec.expected ∧
      next.sources spec.changed = built spec.changed ∧ next.sources spec.changed ≠ none ∧
      ∀ other, other ≠ spec.changed → next.sources other = root.sources other

variable {built : SourceId → Option SourceArtifacts}

/-- A publication replaces what it says. -/
theorem ProjectArtifacts.publish_ok {root next : ProjectArtifacts} {delta : Option DeltaSpec}
    (published : root.publish built delta = some (.ok next)) :
    root.ReplacedBy next built delta := by
  unfold publish at published
  cases delta with
  | none =>
    cases published
    rfl
  | some spec =>
    dsimp only at published
    split at published
    · cases published
    rename_i expected
    obtain ⟨changed, found, same⟩ := Option.map_eq_some_iff.mp published
    cases same
    refine ⟨not_not.mp expected, ?_, ?_, fun other apart => update_of_ne apart ..⟩
    · rw [found]
      exact update_self ..
    · dsimp only
      rw [update_self]
      nofun

/-- The `expect` holds where the changed source was built. -/
theorem ProjectArtifacts.publish_isSome (root : ProjectArtifacts) {delta : Option DeltaSpec}
    (changedBuilt : ∀ spec, delta = some spec → built spec.changed ≠ none) :
    (root.publish built delta).isSome := by
  unfold publish
  split
  · rfl
  rename_i spec
  obtain ⟨changed, found⟩ := Option.ne_none_iff_exists'.mp (changedBuilt _ rfl)
  dsimp only
  split
  · rfl
  rw [found]
  rfl

end Symforge.Lifecycle
