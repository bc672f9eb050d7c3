import Symforge.Lifecycle.Authority

/-!
# Freeze, drain, install

Model of `index_lifecycle/transition.rs`. A transition checks that every permit has
ended, freezes the source, checks again, and then revokes the outgoing lease and
installs a fresh publication. The two drain checks read the shared signal at their
own point of the function, so the second one sees the state after the freeze.
-/

namespace Symforge.Lifecycle

open SourceRuntime Process

/-- `transition::TransitionKind`. -/
inductive TransitionKind where
  | reload
  | rebind
  | physicalRootReplacement
deriving DecidableEq, Repr

/-- `transition::TransitionStep`. -/
inductive TransitionStep where
  | freeze
  | drain
  /-- The outgoing lease was revoked and the incoming binding installed. -/
  | install
deriving DecidableEq, Repr

/-- `transition::TransitionReceipt`. -/
structure TransitionReceipt where
  kind : TransitionKind
  steps : List TransitionStep
deriving DecidableEq, Repr

variable (process : Process)

/-- The drain question of `transition::apply`: the signal has ended and the source has no permit. -/
def drained (runtime : SourceRuntime) (outstanding : SignalId) : Bool :=
  (process.signals outstanding).hasEnded && runtime.activePermits.isDrained

/-- `transition::apply`. -/
def applyTransition (runtime : SourceRuntime) (kind : TransitionKind)
    (outgoing : PhysicalRootIdentity) (incoming : BindingAuthority) (observerCut : ObserverToken)
    (outstanding : SignalId) :
    Except AuthorityRefusal TransitionReceipt × Process × SourceRuntime :=
  if !drained process runtime outstanding then (.error .outstandingPermit, process, runtime)
  else
    match runtime.freeze process with
    | (none, process, runtime) => (.error (.phaseNotCurrent runtime.phase.name), process, runtime)
    | (some _, process, runtime) =>
      if !drained process runtime outstanding then (.error .outstandingPermit, process, runtime)
      else
        let process := process.revokeLease outgoing
        let (publication, process) := CurrentPublication.promote process incoming observerCut
        (.ok ⟨kind, [.freeze, .drain, .install]⟩, process, runtime.install publication)

/-- The process after a transition: three identities drawn, the outgoing lease revoked. -/
def Process.afterTransition (outgoing : PhysicalRootIdentity) : Process :=
  { process with
    nextIdentity := process.nextIdentity + 3
    revokedLeases := outgoing :: process.revokedLeases }

/-- The publication an applied transition installs. -/
def Process.installedPublication (incoming : BindingAuthority)
    (observerCut : ObserverToken) : CurrentPublication :=
  ⟨⟨process.nextIdentity + 1⟩, ⟨process.nextIdentity + 2⟩, incoming, observerCut⟩

/-- Freezing neither ends nor adds a permit, so both drain checks have the same answer. -/
theorem drained_freeze {process : Process} {runtime : SourceRuntime}
    {parts : SourceRuntime.Frozen} {outstanding : SignalId}
    (found : frozenParts runtime.phase = some parts)
    (first : drained process runtime outstanding = true) :
    parts.activePermits.isDrained = true := by
  obtain ⟨phase, epoch, grants⟩ := runtime
  cases phase with
  | current publication =>
    cases found
    rfl
  | refreshing retained binding publication observerPhase permits work =>
    cases found
    exact (Bool.and_eq_true _ _ ▸ first).2
  | _ => cases found

section Outcomes

variable (process : Process) (runtime : SourceRuntime) (kind : TransitionKind)
  (outgoing : PhysicalRootIdentity) (incoming : BindingAuthority) (observerCut : ObserverToken)
  (outstanding : SignalId)

/-- A drained source with something to freeze gets a fresh publication. -/
theorem applyTransition_drained {parts : SourceRuntime.Frozen}
    (found : frozenParts runtime.phase = some parts)
    (first : drained process runtime outstanding = true) :
    applyTransition process runtime kind outgoing incoming observerCut outstanding =
      (.ok ⟨kind, [.freeze, .drain, .install]⟩, process.afterTransition outgoing,
        ⟨.current (process.installedPublication incoming observerCut),
          runtime.mutationEpoch + 1, runtime.grantsIssued⟩) := by
  have ended : (process.signals outstanding).hasEnded = true := (Bool.and_eq_true _ _ ▸ first).1
  have second := drained_freeze found first
  simp only [applyTransition, first, freeze, found, mintIdentity]
  simp [drained, activePermits, ended, second, revokeLease,
    CurrentPublication.promote, mintIdentity, install,
    afterTransition, installedPublication]

/-- A transition is refused without a trace, or the source was drained and was frozen. -/
theorem applyTransition_cases :
    (∃ refusal, applyTransition process runtime kind outgoing incoming observerCut outstanding =
      (.error refusal, process, runtime)) ∨
    (∃ parts, frozenParts runtime.phase = some parts) ∧
      drained process runtime outstanding = true := by
  cases first : drained process runtime outstanding with
  | false => exact .inl ⟨.outstandingPermit, by simp [applyTransition, first]⟩
  | true =>
    cases found : frozenParts runtime.phase with
    | none =>
      exact .inl ⟨.phaseNotCurrent runtime.phase.name, by
        simp [applyTransition, first, freeze, found]⟩
    | some parts => exact .inr ⟨⟨parts, rfl⟩, rfl⟩

end Outcomes

end Symforge.Lifecycle
