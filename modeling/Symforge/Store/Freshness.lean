import Symforge.Store.Generations

/-!
# The latches of the freshness

The observer gap is a reason that no recomputation drops and every reload carries, so it stays until
the freshness is set or the index is reset. The physical replacement of the root is a flag that only
reloads look at: it is published as a reason that the next recomputation derives anew, and drops.
-/

namespace Symforge.Store

open List FreshnessStatus Store.System

variable {reason : FreshnessReason}

open Library Symforge.Store.LiveIndex

section Reasons

variable {status : FreshnessStatus} {live : LiveIndex} {plan : Option ScoutPlan}

/-- Degraded, with the observer gap among the reasons. -/
def FreshnessStatus.Gapped (status : FreshnessStatus) : Prop :=
  ∃ lastValid reasons, status = .degraded lastValid reasons ∧ .watcherUnavailable ∈ reasons

/-- A gap is told by its reason code. -/
theorem FreshnessStatus.gapped_iff : status.Gapped ↔ .watcherUnavailable ∈ status.reasonCodes := by
  constructor
  · rintro ⟨lastValid, reasons, rfl, member⟩
    exact member
  · intro member
    cases status with
    | degraded lastValid reasons => exact ⟨lastValid, reasons, rfl, member⟩
    | _ => cases member

/-- A status with a reason is not `Current`. -/
theorem FreshnessStatus.ne_current_of_mem (member : reason ∈ status.reasonCodes) :
    status ≠ .current := by
  rintro rfl
  cases member

/-- A pushed reason is added once. -/
theorem mem_pushReason {reasons : List FreshnessReason} {pushed : FreshnessReason} :
    reason ∈ pushReason reasons pushed ↔ reason ∈ reasons ∨ reason = pushed := by
  unfold pushReason
  split
  · rename_i there
    exact ⟨.inl, fun either => either.elim id fun same => same ▸ there⟩
  · simp

/-- So is each of several reasons. -/
theorem mem_foldl_pushReason {reasons pushed : List FreshnessReason} :
    reason ∈ pushed.foldl pushReason reasons ↔ reason ∈ reasons ∨ reason ∈ pushed := by
  induction pushed generalizing reasons with
  | nil => simp
  | cons first rest ih => rw [foldl_cons, ih, mem_pushReason, mem_cons, or_assoc]

/-- A recomputation retains the reasons that are not derived and derives the others anew. -/
theorem mem_nextReasons :
    reason ∈ nextReasons status live plan ↔
      (reason ∈ status.reasonCodes ∧ reason.isDerived = false) ∨
      (observationFailed live = true ∧ reason = .observationFailed) ∨
      (reconciliationPending plan = true ∧ reason = .reconciliationPending) ∨
      (snapshotVerificationFailed live.snapshotVerifyState = true ∧
        reason = .snapshotVerificationFailed) := by
  have pushed : ∀ (reasons : List FreshnessReason) (derived : FreshnessReason) (cause : Bool),
      reason ∈ (if cause = true then pushReason reasons derived else reasons) ↔
        reason ∈ reasons ∨ (cause = true ∧ reason = derived) := by
    intro reasons derived cause
    cases cause with
    | false => simp
    | true => simp [mem_pushReason]
  unfold nextReasons
  simp [pushed, mem_foldl_pushReason, mem_filter, not_mem_nil, false_or, or_assoc]

/-- The reasons of a recomputed status. -/
theorem recomputeFreshness_reasonCodes (publishedContent : Nat) :
    (recomputeFreshness status publishedContent live plan).reasonCodes =
      nextReasons status live plan := by
  unfold recomputeFreshness
  dsimp only
  split
  · rename_i none
    rw [isEmpty_iff.mp none]
    split <;> rfl
  · rfl

end Reasons

namespace SharedIndexHandle

variable {before after : SharedIndexHandle} {P : FreshnessStatus → Prop} {base : Nat}

/-- The freshness has a property, and so has every publication from the given number on. -/
structure HoldsSince (P : FreshnessStatus → Prop) (base : Nat) (handle : SharedIndexHandle) :
    Prop where
  status : P handle.freshnessStatus
  published : P handle.published.freshness
  since : base ≤ handle.publications.length
  later : ∀ generation ∈ handle.publications.drop base, P generation.freshness

/-- One more publication under a freshness with the property. -/
theorem HoldsSince.install {prepared : SharedIndexHandle}
    (since : base ≤ before.publications.length)
    (later : ∀ generation ∈ before.publications.drop base, P generation.freshness)
    {generation : PublishedGeneration} (publications : prepared.publications = before.publications)
    (status : P prepared.freshnessStatus) (published : P generation.freshness) :
    HoldsSince P base (prepared.install generation) where
  status := status
  published := published
  since := by
    show base ≤ (prepared.publications ++ [generation]).length
    rw [publications, length_append]
    omega
  later := by
    show ∀ other ∈ (prepared.publications ++ [generation]).drop base, P other.freshness
    rw [publications, drop_append_of_le_length since]
    exact forall_mem_append.mpr ⟨later, forall_mem_singleton.mpr published⟩

/-- What every move gives holds on after an effect. -/
theorem HoldsSince.effect {intended : List RowChange} {basis : Option Basis}
    (holds : HoldsSince P base before) (effect : Effect before intended basis after)
    (moves : ∀ live plan status, FreshnessMove before live plan basis status → P status) :
    HoldsSince P base after := by
  cases effect with
  | quiet rejected => exact { holds with }
  | republish nothing bridgeLoading =>
    exact .install holds.since holds.later rfl holds.status holds.published
  | publish plan status rejected live contentChanged captured moved follows retains =>
    have kept := moves _ _ _ moved
    exact .install holds.since holds.later rfl kept kept

/-- What a reload gives holds on after its commit. -/
theorem HoldsSince.commit {env : Environment} {reload : PreparedReload} {cancelled : Bool}
    {carryPanics : String → Bool} {captured : Option CapturedManifest}
    (since : base ≤ before.publications.length)
    (later : ∀ generation ∈ before.publications.drop base, P generation.freshness)
    (committed : before.commitReload env reload cancelled carryPanics captured = .ok after)
    (reloaded : P (before.reloadFreshness reload)) : HoldsSince P base after := by
  obtain ⟨live, -, rfl⟩ := commitReload_ok committed
  exact .install since later rfl reloaded reloaded

end SharedIndexHandle

namespace System

open SharedIndexHandle

variable {env : Environment} {P : FreshnessStatus → Prop} {base : Nat}

/-- A step keeps a property of the freshness that its operation or reload publishes with. -/
theorem HoldsSince.step {state next : System} {action : Action}
    (holds : HoldsSince P base state.handle) (moved : state.step env action = some next)
    (operates : ∀ operation captured, action = .operate operation captured →
      operation.setsFreshness = false ∧ ∀ live plan status,
        FreshnessMove state.handle live plan (state.handle.basis operation) status → P status)
    (commits : ∀ id cancelled carryPanics captured reload,
      action = .commitReload id cancelled carryPanics captured →
      state.reloads id = some (.prepared reload) → P (state.handle.reloadFreshness reload)) :
    HoldsSince P base next.handle := by
  rcases step_cases moved with ⟨operation, captured, isOperate, after⟩ | ⟨latched, after⟩ |
    ⟨id, cancelled, carryPanics, captured, reload, isCommit, prepared, committed⟩
  · obtain ⟨ordinary, moves⟩ := operates _ _ isOperate
    rw [after]
    exact holds.effect (apply_effect ordinary) moves
  · rw [after]
    exact { holds with }
  · exact .commit holds.since holds.later committed
      (commits _ _ _ _ _ isCommit prepared)

end System

section ObserverGap

variable {before : SharedIndexHandle} {captured : Option CapturedManifest}

open SharedIndexHandle

/-- No publication of an operation drops the gap. -/
theorem SharedIndexHandle.FreshnessMove.gapped {live : LiveIndex} {plan : Option ScoutPlan}
    {basis : Option Basis} {status : FreshnessStatus} (gapped : before.freshnessStatus.Gapped)
    (moved : FreshnessMove before live plan basis status) : status.Gapped := by
  cases moved with
  | kept => exact gapped
  | recomputed =>
    rw [gapped_iff] at gapped ⊢
    rw [recomputeFreshness_reasonCodes, mem_nextReasons]
    exact .inl ⟨gapped, rfl⟩
  | latched => exact ⟨_, _, rfl, mem_append_right _ (mem_singleton_self _)⟩

variable {reload : PreparedReload}

/-- The reasons of the freshness a reload publishes with. -/
theorem reloadFreshness_reasonCodes :
    (before.reloadFreshness reload).reasonCodes = before.reloadReasons reload := by
  unfold reloadFreshness
  dsimp only
  split
  · rename_i none
    rw [isEmpty_iff.mp none]
    rfl
  · rfl

/-- The reasons that a reload leaves. -/
theorem mem_reloadReasons :
    reason ∈ before.reloadReasons reload ↔
      ((reload.data.scoutPlan.coverage = .degraded ∨ reload.physicalReplacement = true) ∧
        reason = .reconciliationPending) ∨
      (.watcherUnavailable ∈ before.freshnessStatus.reasonCodes ∧
        reason = .watcherUnavailable) := by
  unfold reloadReasons
  rw [mem_append, mem_ite_nil_right, mem_ite_nil_right, mem_singleton,
    mem_singleton, Bool.or_eq_true, beq_iff_eq]

/-- A reload carries the gap. -/
theorem reloadFreshness_gapped (gapped : before.freshnessStatus.Gapped) :
    (before.reloadFreshness reload).Gapped := by
  rw [gapped_iff] at gapped ⊢
  rw [reloadFreshness_reasonCodes]
  exact mem_reloadReasons.mpr (.inr ⟨gapped, rfl⟩)

/-- The latch publishes the gap, unless it is published already. -/
theorem latchObserverGapLocked_holds (coherent : before.Coherent) :
    HoldsSince FreshnessStatus.Gapped before.publications.length
      (before.latchObserverGapLocked captured) := by
  have nothing : ∀ generation ∈ before.publications.drop before.publications.length,
      generation.freshness.Gapped := by
    rw [drop_length]
    exact fun _ => nofun
  unfold latchObserverGapLocked
  dsimp only
  split
  · rename_i there
    have gapped := gapped_iff.mpr there
    exact ⟨gapped, coherent.freshness ▸ gapped, le_rfl, nothing⟩
  · have gapped : FreshnessStatus.Gapped (.degraded
        (before.freshnessStatus.lastValid before.published.contentGeneration)
        (before.freshnessStatus.reasonCodes ++ [.watcherUnavailable])) :=
      ⟨_, _, rfl, mem_append_right _ (mem_singleton_self _)⟩
    exact .install le_rfl nothing rfl gapped gapped

/-- The operation latches the gap: the plain latch, or the fenced one that commits. -/
def SharedIndexHandle.latchesGap (handle : SharedIndexHandle)
    (captured : Option CapturedManifest) : Operation → Bool
  | .latchObserverGap => true
  | .latchObserverGapAtGeneration gen => (handle.latchObserverGapAtGeneration gen captured).1
  | _ => false

/-- A latched gap is in every publication of the operation. -/
theorem latchesGap_holds {env : Environment} {operation : Operation} (coherent : before.Coherent)
    (latches : before.latchesGap captured operation = true) :
    HoldsSince FreshnessStatus.Gapped before.publications.length
      (before.apply env captured operation) := by
  cases operation with
  | latchObserverGap => exact latchObserverGapLocked_holds coherent
  | latchObserverGapAtGeneration gen =>
    have committed : (before.latchObserverGapAtGeneration gen captured).1 = true := latches
    show HoldsSince _ _ (before.latchObserverGapAtGeneration gen captured).2
    unfold latchObserverGapAtGeneration at committed ⊢
    split
    · rename_i missed
      rw [if_pos missed] at committed
      cases committed
    · exact latchObserverGapLocked_holds coherent
  | _ => cases latches

/-- The action sets the freshness at will: it stores one, or resets the index. -/
def Action.setsFreshness : Action → Bool
  | .operate operation _ => operation.setsFreshness
  | _ => false

namespace System

/-- In every run, once the observer gap is latched everything published is degraded and lists the
gap, until the freshness is set or the index is reset; and a refused fenced latch leaves the handle
as it is. -/
theorem observerGap_latched (env : Environment) {start reached latched final : System}
    {earlier later : List Action} {operation : Operation} {captured : Option CapturedManifest}
    (initial : start.handle.Initial) (reaches : run (step env) start earlier = some reached)
    (latches : reached.handle.latchesGap captured operation = true)
    (latching : reached.step env (.operate operation captured) = some latched)
    (continues : run (step env) latched later = some final)
    (undisturbed : ∀ action ∈ later, action.setsFreshness = false) :
    final.handle.published.freshness.Gapped ∧
    (∀ generation ∈ final.handle.publications.drop reached.handle.publications.length,
      generation.freshness.Gapped) ∧
    ∀ (handle : SharedIndexHandle) (gen : Nat) (captured : Option CapturedManifest),
      (handle.latchObserverGapAtGeneration gen captured).1 = false →
        (handle.latchObserverGapAtGeneration gen captured).2 = handle := by
  have coherent := (run_sound initial reaches).1
  have first : HoldsSince FreshnessStatus.Gapped reached.handle.publications.length
      latched.handle := by
    cases latching
    exact latchesGap_holds coherent latches
  have last : HoldsSince FreshnessStatus.Gapped reached.handle.publications.length
      final.handle := by
    refine run_invariant_meets (fun state => HoldsSince FreshnessStatus.Gapped
      reached.handle.publications.length state.handle) ?_ first
      (runMeets_of_forall undisturbed _) continues
    intro state action next holds ordinary moved
    refine HoldsSince.step holds moved ?_ ?_
    · rintro operation captured rfl
      exact ⟨ordinary, fun _ _ _ move => move.gapped holds.status⟩
    · intro id cancelled carryPanics captured reload _ _
      exact reloadFreshness_gapped holds.status
  refine ⟨last.published, last.later, fun handle gen captured refused => ?_⟩
  unfold latchObserverGapAtGeneration at refused ⊢
  split
  · rfl
  rename_i met
  rw [if_neg met] at refused
  cases refused

end System

/-- The gap is latched, a file is published and the root is reloaded. -/
def sampleGapRun : List Action :=
  [.operate (.updateFile "a.rs" sampleFile false) (some firstCommit), .startReload 0 "/work",
    .prepareReload 0 ⟨∅, samplePlan, []⟩ ⟨false, fun _ => false, some ⟨1, 10⟩, ⟨0⟩⟩,
    .commitReload 0 false (fun _ => false) (some firstCommit)]

/-- A run in which a gap stays. -/
theorem sampleGapRun_gapped :
    ∃ latched final, step sampleEnv ⟨sampleHandle, fun _ => none⟩
        (.operate .latchObserverGap (some firstCommit)) = some latched ∧
      run (step sampleEnv) latched sampleGapRun = some final ∧
      (final.handle.publications.map (·.publicationGeneration)) = [1, 2, 3, 4] ∧
      ∀ generation ∈ final.handle.publications.drop 1, generation.freshness.Gapped := by
  have reaches : run (step sampleEnv) ⟨sampleHandle, fun _ => none⟩ [] =
      some ⟨sampleHandle, fun _ => none⟩ := rfl
  have undisturbed : ∀ action ∈ sampleGapRun, action.setsFreshness = false := by
    simp [sampleGapRun, Action.setsFreshness, Operation.setsFreshness]
  have latches : sampleHandle.latchesGap (some firstCommit) .latchObserverGap = true := rfl
  refine ⟨_, _, rfl, rfl, rfl, ?_⟩
  exact (observerGap_latched _ sampleHandle_initial reaches latches rfl rfl
    undisturbed).2.1

end ObserverGap

section PhysicalReplacement

open SharedIndexHandle

variable {before : SharedIndexHandle}

/-- Something other than a replaced root keeps a recomputation from `Current`: a retained reason, an
issue of the plan, or a failed observation elsewhere. -/
def SharedIndexHandle.StaysDegraded (handle : SharedIndexHandle) (basis : Basis) : Prop :=
  (∃ reason ∈ handle.freshnessStatus.reasonCodes, reason.isDerived = false) ∨
    planHasIssues basis.plan = true ∨
    ∃ entry ∈ handle.live.manifestEntries, entry.disposition.retainsLastValidContent = true ∧
      scoutedCatalogPath entry.path ∉ basis.paths

/-- One failed entry is a failed observation. -/
theorem observationFailed_of_mem {live : LiveIndex} {entry : CatalogEntry}
    (member : entry ∈ live.manifestEntries)
    (failed : entry.disposition.retainsLastValidContent = true) :
    observationFailed live = true := by
  refine any_eq_true.mpr ⟨_, member, ?_⟩
  cases shape : entry.disposition <;> simp_all [FileDisposition.retainsLastValidContent]

/-- A recomputation that has another cause does not return to `Current`. -/
theorem recompute_ne_current {basis : Basis} {live : LiveIndex} {plan : Option ScoutPlan}
    (stays : before.StaysDegraded basis) (held : basis.KeptBy before.live live plan)
    (publishedContent : Nat) :
    recomputeFreshness before.freshnessStatus publishedContent live plan ≠ .current := by
  have listed : ∃ reason, reason ∈ nextReasons before.freshnessStatus live plan := by
    rcases stays with ⟨reason, member, retained⟩ | issues | ⟨entry, member, failed, other⟩
    · exact ⟨reason, mem_nextReasons.mpr (.inl ⟨member, retained⟩)⟩
    · exact ⟨_, mem_nextReasons.mpr (.inr (.inr (.inl ⟨held.issues issues, rfl⟩)))⟩
    have still := observationFailed_of_mem (held.entries _ member other) failed
    exact ⟨_, mem_nextReasons.mpr (.inr (.inl ⟨still, rfl⟩))⟩
  obtain ⟨reason, member⟩ := listed
  rw [← recomputeFreshness_reasonCodes _] at member
  exact ne_current_of_mem member

/-- An operation that recomputes runs while something else keeps the freshness degraded, and a
reload that commits has seen the replacement, covers its root incompletely or carries a gap. -/
def System.KeepsLatch (state : System) : Action → Prop
  | .operate operation _ => operation.setsFreshness = false ∧
      ∀ basis, state.handle.basis operation = some basis → state.handle.StaysDegraded basis
  | .commitReload id _ _ _ => ∀ reload, state.reloads id = some (.prepared reload) →
      reload.physicalReplacement = true ∨ reload.data.scoutPlan.coverage = .degraded ∨
        .watcherUnavailable ∈ state.handle.freshnessStatus.reasonCodes
  | _ => True

/-- A reload with a cause against it is not current. -/
theorem reload_ne_current {reload : PreparedReload}
    (cause : reload.physicalReplacement = true ∨ reload.data.scoutPlan.coverage = .degraded ∨
      .watcherUnavailable ∈ before.freshnessStatus.reasonCodes) :
    before.reloadFreshness reload ≠ .current := by
  have listed : ∃ reason, reason ∈ before.reloadReasons reload := by
    rcases cause with replaced | incomplete | gap
    · exact ⟨_, mem_reloadReasons.mpr (.inl ⟨.inr replaced, rfl⟩)⟩
    · exact ⟨_, mem_reloadReasons.mpr (.inl ⟨.inl incomplete, rfl⟩)⟩
    · exact ⟨_, mem_reloadReasons.mpr (.inr ⟨gap, rfl⟩)⟩
  obtain ⟨reason, member⟩ := listed
  rw [← reloadFreshness_reasonCodes] at member
  exact ne_current_of_mem member

namespace System

/-- After a reload that saw its root physically replaced has published, nothing publishes `Current`
in a run whose steps all keep the latch. -/
theorem replacement_latched (env : Environment) {handle : SharedIndexHandle}
    {latched final : System} {actions : List Action} {reload : PreparedReload} {cancelled : Bool}
    {carryPanics : String → Bool} {captured : Option CapturedManifest}
    (replaced : reload.physicalReplacement = true)
    (committed : handle.commitReload env reload cancelled carryPanics captured =
      .ok latched.handle)
    (continues : run (step env) latched actions = some final)
    (kept : RunMeets (step env) KeepsLatch latched actions) :
    (∃ lastValid reasons, latched.handle.published.freshness = .degraded lastValid reasons) ∧
    ∀ generation ∈ final.handle.publications.drop handle.publications.length,
      generation.freshness ≠ .current := by
  have first : HoldsSince (· ≠ .current) handle.publications.length latched.handle := by
    refine .commit le_rfl ?_ committed (reload_ne_current (.inl replaced))
    rw [drop_length]
    exact fun _ => nofun
  have last : HoldsSince (· ≠ .current) handle.publications.length final.handle := by
    refine run_invariant_meets (fun system => HoldsSince (· ≠ .current)
      handle.publications.length system.handle) ?_ first kept continues
    intro system action next holds keeps moved
    refine HoldsSince.step holds moved ?_ ?_
    · rintro operation captured rfl
      obtain ⟨ordinary, stays⟩ := keeps
      refine ⟨ordinary, fun live plan status move => ?_⟩
      generalize shape : system.handle.basis operation = basis at move
      cases move with
      | kept => exact holds.status
      | recomputed held => exact recompute_ne_current (stays _ shape) held _
      | latched => exact nofun
    · rintro id cancelled carryPanics captured reload rfl prepared
      exact reload_ne_current (keeps _ prepared)
  refine ⟨?_, last.later⟩
  obtain ⟨live, -, after⟩ := commitReload_ok committed
  have listed : .reconciliationPending ∈ (handle.reloadFreshness reload).reasonCodes := by
    rw [reloadFreshness_reasonCodes]
    exact mem_reloadReasons.mpr (.inl ⟨.inr replaced, rfl⟩)
  rw [after]
  show ∃ lastValid reasons, handle.reloadFreshness reload = .degraded lastValid reasons
  cases shape : handle.reloadFreshness reload with
  | degraded lastValid reasons => exact ⟨lastValid, reasons, rfl⟩
  | _ =>
    rw [shape] at listed
    cases listed

end System

/-- The root with another directory object under its name. -/
def replacedRoot : RootObservation := ⟨false, fun _ => false, some ⟨1, 99⟩, ⟨0⟩⟩

/-- The root with the directory object that was admitted. -/
def admittedRoot : RootObservation := ⟨false, fun _ => false, some ⟨1, 10⟩, ⟨0⟩⟩

/-- A reload that sees the root replaced. -/
def reloadReplaced : List Action :=
  [.startReload 0 "/work", .prepareReload 0 ⟨∅, samplePlan, []⟩ replacedRoot,
    .commitReload 0 false (fun _ => false) (some firstCommit)]

/-- The gap is latched, then a file is published. -/
def gapThenFile : List Action :=
  [.operate .latchObserverGap (some firstCommit),
    .operate (.publishIndexedFileAtGeneration "a.rs" sampleFile sampleScouted .code 2 3 false)
      (some firstCommit)]

/-- The system after that reload. -/
def replacedSystem : System :=
  (run (System.step sampleEnv) ⟨sampleHandle, fun _ => none⟩ reloadReplaced).getD
    ⟨sampleHandle, fun _ => none⟩

/-- A file published behind a gap is not current. -/
theorem gapThenFile_latched :
    ∃ final, run (step sampleEnv) replacedSystem gapThenFile = some final ∧
      (final.handle.publications.map (·.publicationGeneration)) = [1, 2, 3, 4] ∧
      ∀ generation ∈ final.handle.publications.drop 1, generation.freshness ≠ .current := by
  have committed : commitReload sampleEnv { sampleHandle with physicalReplacementLatched := true }
      ⟨⟨"/work", sampleLive⟩, ⟨∅, samplePlan, []⟩, true⟩ false (fun _ => false) (some firstCommit) =
        .ok replacedSystem.handle := rfl
  have meets : RunMeets (step sampleEnv) System.KeepsLatch replacedSystem gapThenFile := by
    refine .cons ⟨rfl, nofun⟩ rfl (.cons ⟨rfl, fun _ _ => .inl ⟨.watcherUnavailable, ?_, rfl⟩⟩ rfl
      trivial)
    exact mem_cons_of_mem _ (mem_singleton_self _)
  refine ⟨_, rfl, rfl, ?_⟩
  exact (replacement_latched sampleEnv rfl committed rfl meets).2

/-- After the replacement is published, a file publication publishes `Current`; so does a reload
that looked at the root before. -/
theorem replacement_forgotten :
    (∃ final, run (step sampleEnv) ⟨sampleHandle, fun _ => none⟩ (reloadReplaced ++
        [.operate (.publishIndexedFileAtGeneration "a.rs" sampleFile sampleScouted .code 2 2 false)
          (some firstCommit)]) = some final ∧
      (final.handle.publications.map (·.freshness)) =
        [.current, .degraded 1 [.reconciliationPending], .current]) ∧
    ∃ final, run (step sampleEnv) ⟨sampleHandle, fun _ => none⟩
        ([.startReload 1 "/work", .prepareReload 1 ⟨∅, samplePlan, []⟩ admittedRoot] ++
          reloadReplaced ++ [.commitReload 1 false (fun _ => false) (some firstCommit)]) =
        some final ∧
      (final.handle.publications.map (·.freshness)) =
        [.current, .degraded 1 [.reconciliationPending], .current] :=
  ⟨⟨_, rfl, rfl⟩, ⟨_, rfl, rfl⟩⟩

end PhysicalReplacement

end Symforge.Store
