import Symforge.Store.ReloadOrigins

/-!
# The generation on which a watcher fences its batch

Model of `effective_fence_generation` and of the generations that a batch of `process_events` holds
(`watcher/mod.rs`). A generation serves one root. The re-admission after a change of the dismissal
store is fenced on a generation that `reconcile_secret_dismissals` reads for itself.
-/

namespace Symforge.Store

open Library
open Lifecycle (RootPath)

/-- One state comes after another in some interleaving. -/
def System.Reaches (env : Environment) (earlier later : System) : Prop :=
  ∃ actions, run (step env) earlier actions = some later

section Watcher

-- `normalize_root`, over roots that keep their place on the disk
variable (normalizeRoot : RootPath → RootPath) (env : Environment)

/-- The index that is served is of this root. -/
def SharedIndexHandle.Serves (handle : SharedIndexHandle) (root : RootPath) : Prop :=
  handle.live.indexedRoot.map normalizeRoot = some (normalizeRoot root)

/-- `effective_fence_generation`. -/
def effectiveFenceGeneration (handle : SharedIndexHandle) (repoRoot : RootPath)
    (spawnGen : Nat) : Nat :=
  let published := handle.published
  let currentGen := published.projectGeneration
  if currentGen = spawnGen then spawnGen
  else
    let sameRoot := (published.live.indexedRoot.map normalizeRoot).any
      (· = normalizeRoot repoRoot)
    if sameRoot then currentGen else spawnGen

/-- The generation on which a publication or a removal of the watcher is fenced. -/
def Operation.watcherFence : Operation → Option Nat
  | .publishIndexedFileAtGeneration _ _ _ _ gen _ _ | .publishHashSkipAtGeneration _ _ _ _ gen _
  | .publishTerminalDispositionAtGeneration _ _ _ gen _ _ | .removeFileWithFences _ gen _ _ _ _
  | .publishReconciledScoutPlanAtGeneration _ _ gen => some gen
  | _ => none

/-- A generation that a batch of the watcher holds, with the state in which it was read: the
effective one, or the one that the re-admission of dismissed paths reads after the comparison. -/
inductive Holds (root : RootPath) (spawn : System) : (dismissals : Bool) → System → Nat → Prop
  | batch {now : System} : spawn.Reaches env now →
      Holds root spawn false now (effectiveFenceGeneration normalizeRoot now.handle root
        spawn.handle.published.projectGeneration)
  | dismissals {taken checked now : System} {gen : Nat} : Holds root spawn false taken gen →
      taken.Reaches env checked → checked.handle.projectGeneration = gen →
      checked.Reaches env now → Holds root spawn true now now.handle.projectGeneration

variable {normalizeRoot env}

/-- Two runs are one. -/
theorem System.Reaches.trans {first second third : System} (one : first.Reaches env second)
    (other : second.Reaches env third) : first.Reaches env third := by
  obtain ⟨actions, ran⟩ := one
  obtain ⟨later, thereafter⟩ := other
  refine ⟨actions ++ later, ?_⟩
  rw [run_append, ran]
  exact thereafter

/-- What is reached is coherent. -/
theorem System.Reaches.coherent {earlier later : System} (reaches : earlier.Reaches env later)
    (sound : earlier.handle.Sound) : later.handle.Coherent := by
  obtain ⟨actions, ran⟩ := reaches
  exact (run_invariant (fun state : System => state.handle.Sound)
    (fun _ _ _ => step_sound) sound ran).1

/-- The root that is served stays as long as the generation does. -/
theorem System.Reaches.serves_iff {earlier later : System} (reaches : earlier.Reaches env later)
    (same : later.handle.projectGeneration = earlier.handle.projectGeneration) (root : RootPath) :
    later.handle.Serves normalizeRoot root ↔ earlier.handle.Serves normalizeRoot root := by
  obtain ⟨actions, ran⟩ := reaches
  unfold SharedIndexHandle.Serves
  rw [root_of_generation _ ran same]

/-- The effective generation is that at the start of the watcher, or the current one of its root. -/
theorem effectiveFenceGeneration_cases {handle : SharedIndexHandle} (coherent : handle.Coherent)
    (root : RootPath) (spawnGen : Nat) :
    effectiveFenceGeneration normalizeRoot handle root spawnGen = spawnGen ∨
      effectiveFenceGeneration normalizeRoot handle root spawnGen = handle.projectGeneration ∧
        handle.Serves normalizeRoot root := by
  simp only [effectiveFenceGeneration, coherent.live, coherent.project]
  by_cases unmoved : handle.projectGeneration = spawnGen
  · exact .inl (if_pos unmoved)
  rw [if_neg unmoved]
  by_cases same : handle.Serves normalizeRoot root
  · have adopted : (handle.live.indexedRoot.map normalizeRoot).any
        (· = normalizeRoot root) = true := by
      rw [show handle.live.indexedRoot.map normalizeRoot = some (normalizeRoot root) from same]
      simp
    exact .inr ⟨if_pos adopted, same⟩
  · refine .inl (if_neg fun adopted => same ?_)
    obtain ⟨served, found, equal⟩ := (Option.any_eq_true ..).mp adopted
    rw [SharedIndexHandle.Serves, found, of_decide_eq_true equal]

/-- A publication of the watcher is of the generation it is fenced on. -/
theorem SharedIndexHandle.generation_of_published {handle : SharedIndexHandle}
    {captured : Option CapturedManifest} {operation : Operation} {gen : Nat}
    (fenced : operation.watcherFence = some gen)
    (published : (handle.apply env captured operation).publications ≠ handle.publications) :
    handle.projectGeneration = gen := by
  by_contra missed
  apply published
  apply refused_publishes_nothing
  · cases operation <;>
      simp only [Operation.watcherFence, Option.some.injEq, reduceCtorEq] at fenced
    all_goals
      subst fenced
      simp [refuses, missed]
  · cases operation <;> first | rfl | cases fenced

/-- What a watcher publishes goes into the index of its root unless it is fenced on a generation
that the re-admission of dismissed paths read while another root was served; another fence than the
current generation is refused. -/
theorem watcher_publishes_into_root_iff {root : RootPath} {spawn reading committing : System}
    {dismissals : Bool} {gen : Nat} (sound : spawn.handle.Sound)
    (spawned : spawn.handle.Serves normalizeRoot root)
    (holds : Holds normalizeRoot env root spawn dismissals reading gen)
    (reaches : reading.Reaches env committing) {operation : Operation}
    (fenced : operation.watcherFence = some gen) (captured : Option CapturedManifest) :
    ((committing.handle.apply env captured operation).publications ≠
        committing.handle.publications →
      (committing.handle.Serves normalizeRoot root ↔
        (dismissals = true → reading.handle.Serves normalizeRoot root))) ∧
    (committing.handle.projectGeneration ≠ gen →
      (committing.handle.apply env captured operation).publications =
        committing.handle.publications) := by
  refine ⟨fun published => ?_, fun missed => ?_⟩
  · have current := SharedIndexHandle.generation_of_published fenced published
    cases holds with
    | batch since =>
      simp only [Bool.false_eq_true, false_implies, iff_true]
      rcases effectiveFenceGeneration_cases (since.coherent sound) _
        spawn.handle.published.projectGeneration with kept | ⟨adopted, serves⟩
      · rw [kept, sound.1.project] at current
        exact ((since.trans reaches).serves_iff current _).mpr spawned
      · exact (reaches.serves_iff (current.trans adopted) _).mpr serves
    | dismissals taken since compared later =>
      simp only [true_implies]
      exact reaches.serves_iff current _
  · by_contra published
    exact missed (SharedIndexHandle.generation_of_published fenced published)

end Watcher

section Sample

/-- A system that serves the root of the watcher. -/
def spawnSystem : System := ⟨sampleHandle, fun _ => none⟩

/-- A reload to a root. -/
def retarget (root : RootPath) : List Action :=
  [.startReload 0 root, .prepareReload 0 ⟨∅, samplePlan, []⟩ admittedRoot,
    .commitReload 0 false (fun _ => false) (some firstCommit)]

/-- The system after that reload. -/
def retargeted (root : RootPath) : System :=
  (run (System.step sampleEnv) spawnSystem (retarget root)).getD spawnSystem

/-- The publication of the file that the watcher read below its root. -/
def watchedFile (gen state : Nat) : Operation :=
  .publishIndexedFileAtGeneration "a.rs" sampleFile sampleScouted .code gen state false

/-- After a reload of its own root the watcher publishes under the new generation. -/
theorem watchedFile_published :
    let reloaded := (retargeted "/work").handle
    effectiveFenceGeneration id reloaded "/work" 1 = 2 ∧
      (reloaded.apply sampleEnv (some firstCommit) (watchedFile 2 2)).publications ≠
        reloaded.publications ∧ reloaded.Serves id "/work" := by
  have holds : Holds id sampleEnv "/work" spawnSystem false (retargeted "/work") 2 :=
    .batch ⟨retarget "/work", rfl⟩
  have serves : spawnSystem.handle.Serves id "/work" := rfl
  have grows : ((retargeted "/work").handle.apply sampleEnv (some firstCommit)
      (watchedFile 2 2)).publications ≠ (retargeted "/work").handle.publications := by
    intro same
    have lengths := congrArg List.length same
    revert lengths
    decide
  exact ⟨rfl, grows, ((watcher_publishes_into_root_iff
    ⟨sampleHandle_initial.coherent, sampleHandle_initial.numbered⟩ serves holds ⟨[], rfl⟩ rfl
    (some firstCommit)).1 grows).mpr nofun⟩

/-- The reload comes after the batch has compared the generation and before the re-admission reads
it: the file is published in the other root's index. -/
theorem watchedFile_in_other_root :
    sampleHandle.Serves id "/work" ∧
      Holds id sampleEnv "/work" spawnSystem true (retargeted "/other") 2 ∧
      let after := (retargeted "/other").handle.apply sampleEnv (some firstCommit) (watchedFile 2 2)
      after.published.live.indexedRoot = some "/other" ∧
        (after.published.live.row "a.rs").isSome = true :=
  ⟨rfl, .dismissals (.batch ⟨[], rfl⟩) ⟨[], rfl⟩ rfl ⟨retarget _, rfl⟩, rfl, rfl⟩

end Sample

end Symforge.Store
