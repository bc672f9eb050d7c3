import Symforge.Store.ReloadWindow

/-!
# Where the rows of a reloaded index come from

A system that remembers the root each row was read under: that of the candidate for the rows of a
reload, the one that is served for a row that is published live. The merge of a reload carries rows
by its watermark alone, so a row enters the index of another root unless the candidate happens to
hold its path.
-/

namespace Symforge.Store

open Library Symforge.Store.LiveIndex Option SharedIndexHandle Nat RowChange
open Lifecycle (RootPath)

/-- A system and the roots its rows were read under. -/
structure TracedSystem where
  system : System
  origins : String → Option RootPath

/-- The roots after a change made while a root is served. -/
def RowChange.trace (served : Option RootPath) (origins : String → Option RootPath) :
    RowChange → String → Option RootPath
  | .put path _ => Function.update origins path served
  | .drop path => Function.update origins path none

namespace SharedIndexHandle

/-- The reload is to the root that is served, or its candidate holds every row to be carried. -/
def ServesOrCovers (handle : SharedIndexHandle) (reload : PreparedReload) : Prop :=
  handle.live.indexedRoot = some reload.root ∨
    ∀ path file, handle.live.row path = some file →
      livePathChangedSinceReloadWatermark reload.watermark file path = true →
      (reload.data.files.lookup path).isSome = true

end SharedIndexHandle

namespace TracedSystem

/-- The roots after a step. -/
def originsAfter (env : Environment) (state : TracedSystem) : Action → String → Option RootPath
  | .operate operation captured =>
    (state.system.handle.rowChanges env captured operation).foldl
      (RowChange.trace state.system.handle.live.indexedRoot) state.origins
  | .commitReload id cancelled carryPanics captured => match state.system.reloads id with
    | some (.prepared reload) =>
      match state.system.handle.commitReload env reload cancelled carryPanics captured with
      | .ok _ => fun path =>
        if (reload.data.files.lookup path).isSome then some reload.root else state.origins path
      | .error _ => state.origins
    | _ => state.origins
  | _ => state.origins

/-- The state after a step. -/
def step (env : Environment) (state : TracedSystem) (action : Action) : Option TracedSystem :=
  (state.system.step env action).map fun next => ⟨next, state.originsAfter env action⟩

/-- Every row was read under the root that is served. -/
def Attributed (state : TracedSystem) : Prop :=
  ∀ path, (state.system.handle.live.row path).isSome = true →
    state.origins path = state.system.handle.live.indexedRoot

/-- A reload that commits is to the root that is served, or covers what it would carry. -/
def KeepsRoots (state : TracedSystem) : Action → Prop
  | .commitReload id _ _ _ => ∀ reload, state.system.reloads id = some (.prepared reload) →
      state.system.handle.ServesOrCovers reload
  | _ => True

variable {env : Environment} {state next : TracedSystem}

/-- Changes made under a root leave every row attributed to it. -/
theorem trace_attributed (changes : List RowChange) {served : Option RootPath}
    {origins : String → Option RootPath} {rows : String → Option IndexedFile}
    (attributed : ∀ path, (rows path).isSome = true → origins path = served) (path : String)
    (present : (followChanges changes rows path).isSome = true) :
    changes.foldl (trace served) origins path = served := by
  induction changes generalizing origins rows with
  | nil => exact attributed _ present
  | cons change rest ih =>
    refine ih (fun other held => ?_) present
    cases change with
    | put changed | drop changed =>
      by_cases here : other = changed
      · subst here
        simp_all [follow, trace]
      · simp only [follow, trace, Function.update_of_ne here] at held ⊢
        exact attributed _ held

/-- Rows keep to their root under every operation. -/
theorem Attributed.operate (attributed : state.Attributed) (operation : Operation)
    (captured : Option CapturedManifest) :
    Attributed ⟨⟨state.system.handle.apply env captured operation, state.system.reloads⟩,
      state.originsAfter env (.operate operation captured)⟩ := by
  by_cases reset : operation = .resetToEmpty
  · subst reset
    intro path present
    cases present
  have follows : state.system.handle.live.Follows
      (state.system.handle.rowChanges env captured operation)
      (state.system.handle.apply env captured operation).live :=
    apply_follows reset
  intro path present
  rw [follows.root]
  refine trace_attributed _ attributed path ?_
  have rows := congrArg isSome (follows.rows path)
  rw [isSome_map, isSome_map] at rows
  rw [← rows]
  exact present

/-- The rows of a reload that commits come from its root exactly when it is to the root served or
covers what it would carry. -/
theorem Attributed.commit_iff (attributed : state.Attributed) {id : Nat} {reload : PreparedReload}
    {cancelled : Bool} {carryPanics : String → Bool} {captured : Option CapturedManifest}
    {after : SharedIndexHandle} (prepared : state.system.reloads id = some (.prepared reload))
    (committed : state.system.handle.commitReload env reload cancelled carryPanics captured =
      .ok after) :
    (∀ path, (after.published.live.row path).isSome = true →
      state.originsAfter env (.commitReload id cancelled carryPanics captured) path =
        some reload.root) ↔ state.system.handle.ServesOrCovers reload := by
  have merges := commitReload_merges committed
  have origins : ∀ path,
      state.originsAfter env (.commitReload id cancelled carryPanics captured) path =
        if (reload.data.files.lookup path).isSome then some reload.root
        else state.origins path := by
    intro path
    simp [originsAfter, prepared, committed]
  constructor
  · intro fromRoot
    by_cases serves : state.system.handle.live.indexedRoot = some reload.root
    · exact .inl serves
    -- a row that is carried was read under the root that is served
    refine .inr fun path file held changed => ?_
    by_contra absent
    have missing : reload.data.files.lookup path = none := by simpa using absent
    have present : state.system.handle.live.files.entries.dlookup path = some file := held
    have carried : after.published.live.row path = some file := by
      rw [merges.rows _, present]
      show (reload.data.files.lookup path).or _ = some file
      rw [missing]
      simp [Option.filter, changed]
    have origin := fromRoot _ (by rw [carried]; rfl)
    rw [origins, missing] at origin
    exact serves ((attributed _ (by rw [held]; rfl)).symm.trans origin)
  · intro allowed path present
    rw [origins]
    cases found : reload.data.files.lookup path with
    | some file => rfl
    | none =>
      rw [merges.rows _] at present
      have candidate : (LiveIndex.fromReloadData reload.root reload.data).row path = none := found
      rw [candidate, none_or] at present
      obtain ⟨file, isCarried⟩ := isSome_iff_exists.mp present
      obtain ⟨held, changed⟩ := filter_eq_some_iff.mp isCarried
      have row : state.system.handle.live.row path = some file := held
      rcases allowed with serves | covers
      · have origin := attributed _ (by rw [row]; rfl)
        exact origin.trans serves
      have covered := covers _ _ row changed
      rw [found] at covered
      cases covered

/-- So they do under every move that keeps the roots. -/
theorem Attributed.step {action : Action} (attributed : state.Attributed)
    (keeps : state.KeepsRoots action) (moved : state.step env action = some next) :
    next.Attributed := by
  obtain ⟨system, taken, rfl⟩ := map_eq_some_iff.mp moved
  cases action with
  | operate operation captured =>
    cases taken
    exact attributed.operate _ _
  | startReload id root | prepareReload id data seen =>
    simp only [System.step] at taken
    split at taken
    · cases taken
      exact attributed
    · cases taken
  | commitReload id cancelled carryPanics captured =>
    simp only [System.step] at taken
    split at taken
    swap
    · cases taken
    rename_i reload prepared
    split at taken
    · rename_i handle committed
      cases taken
      have fromRoot := (attributed.commit_iff prepared committed).mpr (keeps _ prepared)
      have merges := commitReload_merges committed
      obtain ⟨live, -, rfl⟩ := commitReload_ok committed
      intro path present
      exact (fromRoot _ present).trans merges.root.symm
    · rename_i error refused
      cases taken
      intro path present
      simp only [originsAfter, prepared, refused]
      exact attributed _ present

/-- In a run whose earlier reloads were each to the root served or covered what they would carry,
the rows that the next one publishes were all read under its root exactly when it is such a reload.
-/
theorem reload_unmixed_iff (env : Environment) {start reached : TracedSystem}
    {actions : List Action} (attributed : start.Attributed)
    (kept : RunMeets (step env) KeepsRoots start actions)
    (reaches : run (step env) start actions = some reached) {id : Nat} {reload : PreparedReload}
    {cancelled : Bool} {carryPanics : String → Bool} {captured : Option CapturedManifest}
    {after : SharedIndexHandle} (prepared : reached.system.reloads id = some (.prepared reload))
    (committed : reached.system.handle.commitReload env reload cancelled carryPanics captured =
      .ok after) :
    (∀ path, (after.published.live.row path).isSome = true →
      reached.originsAfter env (.commitReload id cancelled carryPanics captured) path =
        some reload.root) ↔ reached.system.handle.ServesOrCovers reload := by
  have still : reached.Attributed :=
    run_invariant_meets Attributed (fun _ _ _ held keeps moved => held.step keeps moved)
      attributed kept reaches
  exact still.commit_iff prepared committed

end TracedSystem

/-- An operation on one generation of the project keeps the root that it serves. -/
theorem SharedIndexHandle.Effect.root {before after : SharedIndexHandle}
    {intended : List RowChange} {basis : Option Basis}
    (effect : Effect before intended basis after) :
    after.projectGeneration = before.projectGeneration ∧
      after.live.indexedRoot = before.live.indexedRoot := by
  refine ⟨?_, effect.follows.root⟩
  cases effect <;> rfl

/-- The root changes with the project generation only. -/
theorem System.step_root {env : Environment} {state next : System} {action : Action}
    (moved : state.step env action = some next) :
    state.handle.projectGeneration ≤ next.handle.projectGeneration ∧
      (next.handle.projectGeneration = state.handle.projectGeneration →
        next.handle.live.indexedRoot = state.handle.live.indexedRoot) := by
  rcases step_cases moved with ⟨operation, captured, -, after⟩ | ⟨latched, after⟩ |
    ⟨id, cancelled, carryPanics, captured, reload, -, -, committed⟩
  · rw [after]
    by_cases ordinary : operation.setsFreshness = false
    · obtain ⟨generation, root⟩ := (apply_effect ordinary).root
      exact ⟨le_of_eq generation.symm, fun _ => root⟩
    cases operation with
    | setFreshnessStatus status => exact ⟨le_rfl, fun _ => rfl⟩
    | resetToEmpty => exact ⟨le_succ _, fun same => absurd same (succ_ne_self _)⟩
    | _ => exact absurd rfl ordinary
  · rw [after]
    exact ⟨le_rfl, fun _ => rfl⟩
  · obtain ⟨live, -, after⟩ := commitReload_ok committed
    rw [after]
    exact ⟨le_succ _, fun same => absurd same (succ_ne_self _)⟩

/-- A project generation serves one root, so what is fenced on it is for the root served then. -/
theorem System.root_of_generation (env : Environment) {fenced final : System}
    {actions : List Action} (ran : run (step env) fenced actions = some final)
    (same : final.handle.projectGeneration = fenced.handle.projectGeneration) :
    final.handle.live.indexedRoot = fenced.handle.live.indexedRoot := by
  have held := run_invariant (fun state : System =>
    fenced.handle.projectGeneration ≤ state.handle.projectGeneration ∧
      (state.handle.projectGeneration = fenced.handle.projectGeneration →
        state.handle.live.indexedRoot = fenced.handle.live.indexedRoot)) ?_
    ⟨le_rfl, fun _ => rfl⟩ ran
  · exact held.2 same
  · intro state action next held moved
    obtain ⟨grows, keeps⟩ := step_root moved
    refine ⟨held.1.trans grows, fun back => ?_⟩
    have between : state.handle.projectGeneration = fenced.handle.projectGeneration := by
      have earlier := held.1
      omega
    exact (keeps (back.trans between.symm)).trans (held.2 between)

section Sample

/-- The sample system with no row to attribute. -/
def sampleTraced : TracedSystem := ⟨⟨sampleHandle, fun _ => none⟩, fun _ => none⟩

/-- A file is published while the root that is served is reloaded. -/
def reloadServed : List Action :=
  [.startReload 0 "/work", .operate (.updateFile "a.rs" sampleFile false) (some firstCommit),
    .prepareReload 0 ⟨∅, samplePlan, []⟩ admittedRoot]

open TracedSystem

/-- A reload serves rows of its own root. -/
theorem reloadServed_unmixed :
    ∃ reached after, run (step sampleEnv) sampleTraced reloadServed = some reached ∧
      reached.system.handle.commitReload sampleEnv emptyReload false (fun _ => false)
        (some firstCommit) = .ok after ∧
      (after.published.live.row "a.rs").isSome = true ∧
      ∀ path, (after.published.live.row path).isSome = true →
        reached.originsAfter sampleEnv (.commitReload 0 false (fun _ => false) (some firstCommit))
          path = some "/work" := by
  have attributed : sampleTraced.Attributed := fun path => nofun
  have kept : RunMeets (step sampleEnv) TracedSystem.KeepsRoots sampleTraced
      reloadServed :=
    ⟨trivial, fun _ _ => ⟨trivial, fun _ _ => ⟨trivial, fun _ _ => trivial⟩⟩⟩
  obtain ⟨reached, reaches, prepared, serves, after, committed, present⟩ : ∃ reached,
      run (step sampleEnv) sampleTraced reloadServed = some reached ∧
      reached.system.reloads 0 = some (.prepared emptyReload) ∧
      reached.system.handle.live.indexedRoot = some emptyReload.root ∧
      ∃ after, reached.system.handle.commitReload sampleEnv emptyReload false (fun _ => false)
        (some firstCommit) = .ok after ∧ (after.published.live.row "a.rs").isSome = true :=
    ⟨_, rfl, rfl, rfl, _, rfl, rfl⟩
  exact ⟨reached, _, reaches, committed, present, (reload_unmixed_iff _
    attributed kept reaches prepared committed).mpr (.inl serves)⟩

/-- After a run, the root that is served, and the file with the root it was read under. -/
def servedAndOrigin (actions : List Action) : Option (Option RootPath × Option (Option RootPath)) :=
  (run (TracedSystem.step sampleEnv) sampleTraced actions).map fun final =>
    (final.system.handle.published.live.indexedRoot,
      (final.system.handle.published.live.row "a.rs").map fun _ => final.origins "a.rs")

/-- A reload to another root carries a file published for the root before, and one that a reload to
a third root brought in. -/
theorem reload_mixes_roots :
    servedAndOrigin [.startReload 0 "/other",
        .operate (.updateFile "a.rs" sampleFile false) (some firstCommit),
        .prepareReload 0 ⟨∅, samplePlan, []⟩ admittedRoot,
        .commitReload 0 false (fun _ => false) (some firstCommit)] =
      some (some "/other", some (some "/work")) ∧
    servedAndOrigin [.startReload 0 "/other", .startReload 1 "/third",
        .prepareReload 1 (candidateOf sampleFile) admittedRoot,
        .commitReload 1 false (fun _ => false) (some firstCommit),
        .prepareReload 0 ⟨∅, samplePlan, []⟩ admittedRoot,
        .commitReload 0 false (fun _ => false) (some firstCommit)] =
      some (some "/other", some (some "/third")) :=
  ⟨rfl, rfl⟩

end Sample

end Symforge.Store
