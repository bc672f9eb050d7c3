import Symforge.Library.Run
import Symforge.Lifecycle.Transition

/-!
# Histories of one source

Every way of driving one `SourceRuntime` through its public functions. The question is FR-043: a
generation that a mutation grant was issued against is never served again. One call can only keep
what a reader is served, close it, or replace it by a generation the call minted itself; everything
else follows by induction on the history.
-/

namespace Symforge.Lifecycle
open Symforge.Library Nat

/-- A source with its process. The generation it serves was drawn from the process counter. -/
structure Source where
  process : Process
  runtime : SourceRuntime
  /-- The served generation is below the counter. -/
  minted : ∀ generation, runtime.queryableGeneration = some generation →
    generation.raw < process.nextIdentity

/-- The five constructors a source can be started with. -/
inductive Start where
  | loading (binding : BindingAuthority)
  | current (publication : CurrentPublication)
  | refreshing (binding : BindingAuthority) (retained : GenerationIdentity)
  | blocked (binding : BindingAuthority) (retained : Option GenerationIdentity)
  | stopping (retained : Option GenerationIdentity) (residency : Option RevocationResidency)

/-- The runtime and the process after the constructor call. -/
def Start.open (process : Process) : Start → SourceRuntime × Process
  | .loading binding => (.loading binding, process)
  | .current publication => (.current publication, process)
  | .refreshing binding retained => SourceRuntime.refreshing process binding retained
  | .blocked binding retained => (.blocked binding retained, process)
  | .stopping retained residency => (.stopping retained residency, process)

/-- One call on the source, or what other threads do to the shared cells between two calls. -/
inductive SourceCall where
  | requestMutationGrant (input : MutationGrantInput)
  | freeze
  | recordPermit (grant : PublicationIdentity)
  | retirePermit (grant : PublicationIdentity)
  | setWork (next : NonCurrentWork)
  | setObserverPhase (next : ObserverPhase)
  | applyTransition (kind : TransitionKind) (outgoing : PhysicalRootIdentity)
      (incoming : BindingAuthority) (observerCut : ObserverToken) (outstanding : SignalId)
  /-- Other threads draw identities and leave one drain signal with the given contents. -/
  | elsewhere (drawn : Nat) (signal : SignalId) (contents : PermitDrainSignal)

/-- What a call reports. -/
inductive CallResult where
  | grant (result : Except AuthorityRefusal CurrentMutationGrantAuthority)
  | transition (result : Except AuthorityRefusal TransitionReceipt)
  /-- The remaining calls cannot be refused. -/
  | done

/-- The call was an accepted grant or an applied transition. -/
def CallResult.Accepted : CallResult → Prop
  | .grant (Except.ok _) | .transition (Except.ok _) => True
  | _ => False

/-- The call returned an error. -/
def CallResult.Refused : CallResult → Prop
  | .grant (Except.error _) | .transition (Except.error _) => True
  | _ => False

/-- The generation an accepted grant was issued against. -/
def CallResult.grantedGeneration : CallResult → Option GenerationIdentity
  | .grant (.ok issued) => some issued.authority.generation
  | _ => none

/-- Perform one call: what it reports and the state it leaves. -/
def SourceCall.perform (process : Process) (runtime : SourceRuntime) :
    SourceCall → CallResult × Process × SourceRuntime
  | .requestMutationGrant input =>
    let (result, process, runtime) := runtime.requestMutationGrant process input
    (.grant result, process, runtime)
  | .freeze =>
    let (_, process, runtime) := runtime.freeze process
    (.done, process, runtime)
  | .recordPermit grant => (.done, process, (runtime.recordPermit grant).2)
  | .retirePermit grant => (.done, process, (runtime.retirePermit grant).2)
  | .setWork next => (.done, process, (runtime.setWork next).2)
  | .setObserverPhase next => (.done, process, (runtime.setObserverPhase next).2)
  | .applyTransition kind outgoing incoming observerCut outstanding =>
    let (result, process, runtime) :=
      Lifecycle.applyTransition process runtime kind outgoing incoming observerCut outstanding
    (.transition result, process, runtime)
  | .elsewhere drawn signal contents =>
    (.done, { process with
      nextIdentity := process.nextIdentity + drawn
      signals := Function.update process.signals signal contents }, runtime)

namespace SourceRuntime

/-- Freezing leaves a reader with the generation it had. -/
theorem queryableGeneration_freeze (runtime : SourceRuntime) (process : Process) :
    (runtime.freeze process).2.2.queryableGeneration = runtime.queryableGeneration := by
  obtain ⟨phase, epoch, grants⟩ := runtime
  cases phase <;> rfl

end SourceRuntime

/-! ## What one call can do -/

/-- The effect of one call on the source: the five shapes every call falls into. -/
inductive CallEffect (process : Process) (runtime : SourceRuntime) :
    CallResult → Process → SourceRuntime → Prop where
  /-- A refusal, or a step of other threads. -/
  | untouched (result : CallResult) (after : Process)
      (unaccepted : ¬ result.Accepted) (counter : process.nextIdentity ≤ after.nextIdentity) :
      CallEffect process runtime result after runtime
  /-- The phase was annotated; a reader may lose what it was served. -/
  | annotated (after : SourceRuntime) (epoch : after.mutationEpoch = runtime.mutationEpoch)
      (served : after.queryableGeneration = none ∨
        after.queryableGeneration = runtime.queryableGeneration) :
      CallEffect process runtime .done process after
  /-- The source was frozen without a grant. -/
  | frozen (after : SourceRuntime) (epoch : after.mutationEpoch = runtime.mutationEpoch + 1)
      (served : after.queryableGeneration = runtime.queryableGeneration) :
      CallEffect process runtime .done
        { process with nextIdentity := process.nextIdentity + 1 } after
  /-- A grant was issued against the live generation. -/
  | granted (live : CurrentPublication) (grant : CurrentMutationGrantAuthority)
      (phase : runtime.phase = .current live)
      (names : grant.authority.generation = live.generation) :
      CallEffect process runtime (.grant (.ok grant))
        { process with nextIdentity := process.nextIdentity + 1 }
        (runtime.granted live ⟨process.nextIdentity⟩)
  /-- A transition installed a fresh publication. -/
  | installed (receipt : TransitionReceipt) (outgoing : PhysicalRootIdentity)
      (incoming : BindingAuthority) (observerCut : ObserverToken) :
      CallEffect process runtime (.transition (.ok receipt)) (process.afterTransition outgoing)
        ⟨.current (process.installedPublication incoming observerCut),
          runtime.mutationEpoch + 1, runtime.grantsIssued⟩

/-- Every call has one of the five effects. -/
theorem perform_effect (process : Process) (runtime : SourceRuntime) (call : SourceCall) :
    CallEffect process runtime (call.perform process runtime).1
      (call.perform process runtime).2.1 (call.perform process runtime).2.2 := by
  cases call with
  | requestMutationGrant input =>
    simp only [SourceCall.perform]
    obtain ⟨refusal, refused⟩ | ⟨live, phase, rfl⟩ := runtime.requestMutationGrant_cases _ input
    · rw [refused]
      exact .untouched _ _ (fun accepted => accepted) (Nat.le_refl _)
    · rw [SourceRuntime.requestMutationGrant_current process phase]
      exact .granted _ _ phase rfl
  | freeze =>
    simp only [SourceCall.perform]
    have served := runtime.queryableGeneration_freeze process
    obtain ⟨-, empty⟩ | ⟨parts, -, frozen⟩ := runtime.freeze_cases _
    · rw [empty]
      exact .untouched _ _ (fun accepted => accepted) (Nat.le_refl _)
    · rw [frozen] at served ⊢
      exact .frozen _ rfl served
  | recordPermit grant | retirePermit grant | setWork next | setObserverPhase next =>
    -- recording a permit closes a refreshing source, and retiring one does not reopen it
    obtain ⟨phase, epoch, grants⟩ := runtime
    refine .annotated _ ?_ ?_
    · cases phase <;> rfl
    · cases phase <;> first | exact .inr rfl | exact .inl rfl
  | applyTransition kind outgoing incoming observerCut outstanding =>
    simp only [SourceCall.perform]
    obtain ⟨refusal, refused⟩ | ⟨⟨parts, found⟩, first⟩ := applyTransition_cases _ _ _ _ _ _ _
    · rw [refused]
      exact .untouched _ _ (fun accepted => accepted) (Nat.le_refl _)
    rw [applyTransition_drained _ _ _ _ _ _ _
      found first]
    exact .installed _ _ _ _
  | elsewhere drawn signal contents =>
    exact .untouched _ _ (fun accepted => accepted) (le_add_right _ _)

section Effects

variable {process after : Process} {runtime next : SourceRuntime} {result : CallResult}

section Calls

variable (effect : CallEffect process runtime result after next)

include effect

/-- The identity counter never goes back. -/
theorem CallEffect.counter : process.nextIdentity ≤ after.nextIdentity := by
  cases effect with
  | untouched _ _ _ counter => exact counter
  | annotated => exact Nat.le_refl _
  | frozen | granted | installed => exact le_add_right _ _

/-- The generation served after a call was served before it, or the call drew it. -/
theorem CallEffect.served {generation : GenerationIdentity}
    (served : next.queryableGeneration = some generation) :
    runtime.queryableGeneration = some generation ∨
      process.nextIdentity ≤ generation.raw ∧ generation.raw < after.nextIdentity := by
  cases effect with
  | untouched => exact .inl served
  | annotated _ _ kept =>
    obtain closed | same := kept
    · rw [closed] at served
      cases served
    · exact .inl (same ▸ served)
  | frozen _ _ same => exact .inl (same ▸ served)
  | granted => cases served
  | installed =>
    cases served
    refine .inr ⟨?_, ?_⟩
    · simp [Process.installedPublication]
    · simp [Process.installedPublication, Process.afterTransition]

/-- The epoch never goes back. -/
theorem CallEffect.epoch_le : runtime.mutationEpoch ≤ next.mutationEpoch := by
  cases effect with
  | untouched => exact Nat.le_refl _
  | annotated _ epoch => exact Nat.le_of_eq epoch.symm
  | frozen _ epoch => exact epoch ▸ le_add_right _ _
  | granted | installed => exact le_add_right _ _

/-- Accepted grants and applied transitions advance the epoch. -/
theorem CallEffect.epoch_lt (accepted : result.Accepted) :
    runtime.mutationEpoch < next.mutationEpoch := by
  cases effect with
  | untouched _ _ unaccepted => exact absurd accepted unaccepted
  | annotated | frozen => cases accepted
  | granted | installed => exact lt_succ_self _

/-- A refused call leaves the source as it was. -/
theorem CallEffect.refused (refused : result.Refused) : next = runtime := by
  cases effect with
  | untouched => rfl
  | annotated | frozen | granted | installed => cases refused

/-- An accepted grant names the generation that was served and closes the source. -/
theorem CallEffect.granted_closes {generation : GenerationIdentity}
    (granted : result.grantedGeneration = some generation) :
    runtime.queryableGeneration = some generation ∧ next.queryableGeneration = none := by
  cases effect with
  | untouched result _ unaccepted =>
    cases result with
    | grant outcome =>
      cases outcome with
      | ok grant => exact absurd trivial unaccepted
      | error refusal => cases granted
    | transition outcome | done => cases granted
  | annotated | frozen | installed => cases granted
  | granted live grant phase names =>
    cases granted
    exact ⟨by rw [SourceRuntime.queryableGeneration, phase, names], rfl⟩

end Calls

end Effects

/-! ## Histories -/

namespace Source

/-- Start a source in any of the five phases, on a generation the process has minted. -/
def start (process : Process) (start : Start)
    (minted : ∀ generation, (start.open process).1.queryableGeneration = some generation →
      generation.raw < process.nextIdentity) : Source where
  process := (start.open process).2
  runtime := (start.open process).1
  minted := fun generation served => by
    have bound := minted generation served
    cases start with
    | refreshing => exact lt_succ_of_lt bound
    | _ => exact bound

variable (source : Source) (call : SourceCall)

/-- What a call on the source reports. -/
def result : CallResult := (call.perform source.process source.runtime).1

/-- The source after a call. -/
def after : Source where
  process := (call.perform source.process source.runtime).2.1
  runtime := (call.perform source.process source.runtime).2.2
  minted := fun generation served => by
    have effect := perform_effect source.process source.runtime call
    obtain before | ⟨-, drawn⟩ := effect.served served
    · exact Nat.lt_of_lt_of_le (source.minted generation before) effect.counter
    · exact drawn

/-- Every call can be made in every state. -/
def step : Option Source := some (source.after call)

/-- The effect of a call, in terms of the source. -/
theorem after_effect :
    CallEffect source.process source.runtime (source.result call)
      (source.after call).process (source.after call).runtime :=
  perform_effect source.process source.runtime _

/-- A generation that was minted and is no longer served. -/
def Spent (generation : GenerationIdentity) (source : Source) : Prop :=
  generation.raw < source.process.nextIdentity ∧
    source.runtime.queryableGeneration ≠ some generation

/-- A grant spends the generation it was issued against. -/
theorem spent_of_granted {generation : GenerationIdentity}
    (granted : (source.result call).grantedGeneration = some generation) :
    Spent generation (source.after call) := by
  have effect := source.after_effect call
  obtain ⟨served, closed⟩ := effect.granted_closes granted
  refine ⟨Nat.lt_of_lt_of_le (source.minted _ served) effect.counter, ?_⟩
  rw [closed]
  exact Option.some_ne_none generation |>.symm

/-- No call serves a spent generation again: what it serves anew is above the counter. -/
theorem spent_after (generation : GenerationIdentity) (source : Source) (call : SourceCall)
    (spent : Spent generation source) : Spent generation (source.after call) := by
  have effect := source.after_effect call
  refine ⟨Nat.lt_of_lt_of_le spent.1 effect.counter, fun served => ?_⟩
  obtain before | ⟨drawn, -⟩ := effect.served served
  · exact spent.2 before
  · exact absurd spent.1 (Nat.not_lt_of_le drawn)

section Runs

variable {source final : Source} {calls : List SourceCall}
  (reached : run step source calls = some final)

include reached

/-- A spent generation stays spent along every history. -/
theorem spent_run {generation : GenerationIdentity} (spent : Spent generation source) :
    Spent generation final :=
  run_invariant (Spent generation) (fun source call next kept taken => by
    cases taken
    exact spent_after _ _ _ kept) spent reached

/-- The epoch of a history's end is not below the epoch of its start. -/
theorem epoch_run : source.runtime.mutationEpoch ≤ final.runtime.mutationEpoch :=
  run_invariant (fun now => source.runtime.mutationEpoch ≤ now.runtime.mutationEpoch)
    (fun now call next kept taken => by
      cases taken
      exact Nat.le_trans kept (now.after_effect _).epoch_le) (Nat.le_refl _) reached

end Runs

/-- No terminal path restores a mutated generation. Along every history the epoch never goes back;
whatever is called next, acceptance advances it, refusal changes nothing, and a generation a grant
was issued against is not served at the end of any continuation. -/
theorem mutated_generation_never_restored (source now : Source) (calls : List SourceCall)
    (reached : run step source calls = some now) :
    source.runtime.mutationEpoch ≤ now.runtime.mutationEpoch ∧
    ∀ call : SourceCall, ((now.result call).Accepted →
        now.runtime.mutationEpoch < (now.after call).runtime.mutationEpoch) ∧
      ((now.result call).Refused → (now.after call).runtime = now.runtime) ∧
      ∀ generation, (now.result call).grantedGeneration = some generation →
        ∀ (later : List SourceCall) (final : Source), run step (now.after call) later = some final →
          final.runtime.queryableGeneration ≠ some generation := by
  refine ⟨epoch_run reached, fun call => ⟨?_, ?_, ?_⟩⟩
  · exact (now.after_effect _).epoch_lt
  · exact (now.after_effect _).refused
  intro generation granted later final continued
  exact (spent_run continued (now.spent_of_granted _ granted)).2

/-- A source that was granted against its generation 2 does not serve it after the permit is retired
and a reload is applied. -/
theorem reload_does_not_restore_generation :
    let live : CurrentPublication := ⟨⟨1⟩, ⟨2⟩, ⟨⟨3⟩, ⟨1⟩⟩, ⟨4⟩⟩
    let source := Source.start { Process.initial with nextIdentity := 5 } (.current live)
      (fun generation served => by cases served; decide)
    let granted := source.after (.requestMutationGrant (.liveCurrent ⟨1⟩))
    let returned := (granted.after (.retirePermit ⟨5⟩)).after
      (.applyTransition .reload ⟨1⟩ ⟨⟨6⟩, ⟨2⟩⟩ ⟨4⟩ ⟨0⟩)
    source.runtime.queryableGeneration = some ⟨2⟩ ∧
      returned.runtime.queryableGeneration = some ⟨8⟩ ∧
      returned.runtime.queryableGeneration ≠ some ⟨2⟩ :=
  ⟨rfl, rfl, ((mutated_generation_never_restored _ _ [] rfl).2
    (.requestMutationGrant (.liveCurrent ⟨1⟩))).2.2 ⟨2⟩ rfl
    [.retirePermit ⟨5⟩, .applyTransition .reload ⟨1⟩ ⟨⟨6⟩, ⟨2⟩⟩ ⟨4⟩ ⟨0⟩] _ rfl⟩

end Source

end Symforge.Lifecycle
