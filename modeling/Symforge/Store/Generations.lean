import Symforge.Store.Effects

/-!
# Generations identify what they number

Every publication gets the next publication generation, a publication that may have changed a row
gets the next content generation, and one that gets none has the rows of its predecessor. An
operation whose fence is not met publishes nothing, except that a stale temporal result publishes
the source that it is stale against.
-/

namespace Symforge.Store

open Library Symforge.Store.LiveIndex List

/-- The map from path to content and symbols. -/
def LiveIndex.contents (index : LiveIndex) (path : String) : Option (Bytes × List SymbolRecord) :=
  (index.row path).map fun file => (file.content, file.symbols)

/-- Rows that agree up to their times have the same content and symbols. -/
theorem LiveIndex.Follows.contents_eq {before after : LiveIndex}
    (follows : before.Follows [] after) : after.contents = before.contents := by
  funext path
  have same := follows.rows path
  rw [followChanges, foldl_nil] at same
  have agree := congrArg (Option.map fun file : IndexedFile => (file.content, file.symbols)) same
  simpa [LiveIndex.contents, Function.comp_def, IndexedFile.untimed] using agree

namespace SharedIndexHandle

/-- What is published is what the handle holds. -/
structure Coherent (handle : SharedIndexHandle) : Prop where
  live : handle.published.live = handle.live
  freshness : handle.published.freshness = handle.freshnessStatus
  project : handle.published.projectGeneration = handle.projectGeneration

/-- The publications are numbered, and the numbers identify contents. -/
structure Numbered (handle : SharedIndexHandle) : Prop where
  last : handle.publications.getLast? = some handle.published
  below : ∀ generation ∈ handle.publications,
    generation.publicationGeneration < handle.nextGeneration
  increasing : handle.publications.Pairwise fun earlier later =>
    earlier.publicationGeneration < later.publicationGeneration
  monotone : handle.publications.Pairwise fun earlier later =>
    earlier.contentGeneration ≤ later.contentGeneration
  identified : ∀ one ∈ handle.publications, ∀ other ∈ handle.publications,
    one.contentGeneration = other.contentGeneration → one.live.contents = other.live.contents

/-- A handle that has published once. -/
structure Initial (handle : SharedIndexHandle) : Prop where
  coherent : handle.Coherent
  first : handle.publications = [handle.published]
  below : handle.published.publicationGeneration < handle.nextGeneration

variable {before prepared : SharedIndexHandle} {live : LiveIndex} {contentChanged : Bool}
  {captured : Option CapturedManifest}

/-- The first publication has its number. -/
theorem Initial.numbered (initial : before.Initial) : before.Numbered := by
  refine ⟨?_, ?_, ?_, ?_, ?_⟩
  all_goals rw [initial.first]
  · rfl
  · exact forall_mem_singleton.mpr initial.below
  · exact pairwise_singleton _ _
  · exact pairwise_singleton _ _
  · exact forall_mem_singleton.mpr (forall_mem_singleton.mpr fun _ => rfl)

/-- The last content generation is the greatest. -/
theorem Numbered.le_published (numbered : before.Numbered) {generation : PublishedGeneration}
    (member : generation ∈ before.publications) :
    generation.contentGeneration ≤ before.published.contentGeneration := by
  obtain ⟨earlier, split⟩ := getLast?_eq_some_iff.mp numbered.last
  have monotone := numbered.monotone
  rw [split] at monotone member
  rcases mem_append.mp member with early | last
  · exact (pairwise_append.mp monotone).2.2 _ early before.published
      (mem_singleton_self _)
  · rw [mem_singleton.mp last]

/-- What is published is the last of the publications. -/
theorem Numbered.published_mem (numbered : before.Numbered) :
    before.published ∈ before.publications :=
  mem_of_getLast? numbered.last

/-- One more publication: of the contents under the number there is, or under the next. -/
theorem Numbered.install (numbered : before.Numbered) {generation : PublishedGeneration}
    (publications : prepared.publications = before.publications)
    (next : prepared.nextGeneration = before.nextGeneration)
    (number : generation.publicationGeneration = before.nextGeneration)
    (content : (generation.contentGeneration = before.published.contentGeneration ∧
        generation.live.contents = before.published.live.contents) ∨
      generation.contentGeneration = before.published.contentGeneration + 1) :
    (prepared.install generation).Numbered := by
  have greatest : ∀ other ∈ before.publications,
      other.contentGeneration ≤ generation.contentGeneration := by
    intro other member
    have most := numbered.le_published member
    rcases content with ⟨same, -⟩ | advanced <;> omega
  -- a publication with the number of the new one shows its contents
  have shows : ∀ other ∈ before.publications,
      other.contentGeneration = generation.contentGeneration →
        other.live.contents = generation.live.contents := by
    intro other member same
    rcases content with ⟨kept, contents⟩ | advanced
    · rw [contents]
      exact numbered.identified _ member before.published numbered.published_mem
        (same.trans kept)
    · have most := numbered.le_published member
      omega
  have grown : (prepared.install generation).publications = before.publications ++ [generation] :=
    congrArg (· ++ [generation]) publications
  have advanced : (prepared.install generation).nextGeneration = before.nextGeneration + 1 :=
    congrArg (· + 1) next
  refine ⟨getLast?_concat, ?_, ?_, ?_, ?_⟩
  all_goals rw [grown]
  · rw [advanced, forall_mem_append, forall_mem_singleton, number]
    exact ⟨fun other early => Nat.lt_succ_of_lt (numbered.below _ early), Nat.lt_succ_self _⟩
  · refine pairwise_append.mpr ⟨numbered.increasing, pairwise_singleton _ _, ?_⟩
    simp only [forall_mem_singleton, number]
    exact numbered.below
  · refine pairwise_append.mpr ⟨numbered.monotone, pairwise_singleton _ _, ?_⟩
    simp only [forall_mem_singleton]
    exact greatest
  · simp only [forall_mem_append, forall_mem_singleton]
    exact ⟨fun one early => ⟨numbered.identified _ early, shows _ early⟩,
      fun other early same => (shows _ early same.symm).symm, fun _ => trivial⟩

/-- A swap publishes coherently. -/
theorem swap_coherent :
    (prepared.swapAndPublishWithContentChange live contentChanged captured).Coherent :=
  ⟨rfl, rfl, rfl⟩

/-- A swap of an index with the same rows, or one that advances the content generation. -/
theorem Numbered.swap (numbered : before.Numbered) (coherent : before.Coherent)
    (publications : prepared.publications = before.publications)
    (next : prepared.nextGeneration = before.nextGeneration)
    (published : prepared.published = before.published)
    (retains : contentChanged = false → before.live.Follows [] live) :
    (prepared.swapAndPublishWithContentChange live contentChanged captured).Numbered := by
  refine numbered.install publications next next ?_
  cases contentChanged with
  | true => exact .inr (congrArg (·.contentGeneration + 1) published)
  | false =>
    refine .inl ⟨congrArg (·.contentGeneration) published, ?_⟩
    rw [coherent.live]
    exact (retains rfl).contents_eq

/-- Republishing is coherent. -/
theorem Coherent.republish (coherent : before.Coherent) (bridgeLoading : Bool) :
    (before.republish bridgeLoading).Coherent :=
  { coherent with }

/-- Republishing takes the next number. -/
theorem Numbered.republish (numbered : before.Numbered) (bridgeLoading : Bool) :
    (before.republish bridgeLoading).Numbered := by
  exact numbered.install rfl rfl rfl (.inl ⟨rfl, rfl⟩)

/-- Coherence and numbering together. -/
def Sound (handle : SharedIndexHandle) : Prop := handle.Coherent ∧ handle.Numbered

/-- Every effect keeps a handle sound. -/
theorem Sound.effect {intended : List RowChange} {basis : Option Basis}
    {after : SharedIndexHandle} (sound : before.Sound)
    (effect : Effect before intended basis after) : after.Sound := by
  obtain ⟨coherent, numbered⟩ := sound
  cases effect with
  | quiet rejected =>
    exact ⟨{ coherent with }, { numbered with }⟩
  | republish nothing bridgeLoading =>
    exact ⟨coherent.republish _, numbered.republish _⟩
  | publish plan status rejected live contentChanged captured moved follows retains =>
    exact ⟨swap_coherent, numbered.swap coherent rfl rfl rfl retains⟩

variable {operation : Operation}

/-- Every operation keeps a handle sound. -/
theorem Sound.apply {env : Environment} (sound : before.Sound) :
    (before.apply env captured operation).Sound := by
  by_cases ordinary : operation.setsFreshness = false
  · exact sound.effect (apply_effect ordinary)
  obtain ⟨coherent, numbered⟩ := sound
  cases operation with
  | setFreshnessStatus status =>
    exact ⟨swap_coherent, numbered.swap coherent rfl rfl rfl fun _ => Follows.refl _⟩
  | resetToEmpty => exact ⟨swap_coherent, numbered.swap coherent rfl rfl rfl nofun⟩
  | _ => exact absurd rfl ordinary

/-- A stale temporal result whose source moved: the one refusal that publishes. -/
def refusedButPublishes (handle : SharedIndexHandle) : Operation → Bool
  | .updateGitTemporalAtFence _ candidate => handle.sourceMoved candidate
  | _ => false

variable {env : Environment}

/-- Behind a missed fence nothing is published. -/
theorem fenced_ifs {gen state : Nat} {rest : Bool × SharedIndexHandle}
    (missed :
      (before.projectGeneration != gen || before.publishedStateGeneration != state) = true) :
    (if before.projectGeneration ≠ gen then (false, before.noteRejectedStaleMutation)
      else if before.publishedStateGeneration ≠ state then (false, before)
      else rest).2.publications = before.publications := by
  split
  · rfl
  split
  · rfl
  rename_i sameProject sameState
  simp only [ne_eq, not_not] at sameProject sameState
  simp [sameProject, sameState] at missed

/-- An operation whose fence is not met publishes nothing. -/
theorem refused_publishes_nothing (refused : before.refuses env operation = true)
    (unmoved : before.refusedButPublishes operation = false) :
    (before.apply env captured operation).publications = before.publications := by
  cases operation with
  | updateFileAtGeneration _ _ gen | touchMtimeAtGeneration _ _ gen
  | markSnapshotVerifyStartedAtGeneration gen | markSnapshotVerifyCompletedAtGeneration gen
  | markSnapshotVerifyFailedAtGeneration gen
  | publishReconciledScoutPlanAtGeneration _ _ gen =>
    have missed : before.projectGeneration ≠ gen := by simpa [refuses] using refused
    simp [apply, updateFileAtGeneration, touchMtimeAtGeneration,
      markSnapshotVerifyStartedAtGeneration, markSnapshotVerifyCompletedAtGeneration,
      markSnapshotVerifyFailedAtGeneration, publishReconciledScoutPlanAtGeneration, missed,
      noteRejectedStaleMutation]
  | publishIndexedFileAtGeneration path file scouted targets gen state panics
  | publishTerminalDispositionAtGeneration path scouted disposition gen state panics
  | publishHashSkipAtGeneration path mtime scouted targets gen state => exact fenced_ifs refused
  | removeFileWithFences path gen scouted publication absent panics =>
    unfold apply removeFileWithFences
    simp only
    split
    · rfl
    split
    · rfl
    split
    · rfl
    split
    · rfl
    rename_i sameProject samePublication sameScouted confirmed
    simp only [ne_eq, not_not] at sameProject
    simp only [ne_eq, decide_not] at samePublication
    simp [refuses, sameProject, samePublication, sameScouted, confirmed] at refused
  | markSnapshotVerifyRunningAtFence fence | markSnapshotVerifyCompletedAtFence fence
  | publishPreparedBridge fence =>
    have missed : before.publicationFence ≠ fence := by simpa [refuses] using refused
    simp [apply, markSnapshotVerifyRunningAtFence, markSnapshotVerifyCompletedAtFence,
      publishPreparedBridge, missed, noteRejectedStaleMutation]
  | publishSnapshotVerify gen removals files completion finalAdmission =>
    unfold apply publishSnapshotVerifyWithObservation
    simp only
    split
    · rfl
    split
    · rfl
    split
    · rfl
    rename_i sameProject changes accepted
    simp only [ne_eq, not_not] at sameProject
    simp [refuses, sameProject, accepted] at refused
  | latchObserverGapAtGeneration gen =>
    have missed : before.published.projectGeneration ≠ gen := by simpa [refuses] using refused
    simp [apply, latchObserverGapAtGeneration, missed]
  | publishPreparedAuthority fence source version =>
    have missed : before.publicationFence ≠ fence ∨ before.published.source ≠ source ∨
        before.published.sourceVersion ≠ version := by
      simpa [refuses, or_assoc] using refused
    simp only [apply, publishPreparedAuthority, if_pos missed]
    rfl
  | publishDeferredKnowledge fence =>
    have missed : before.published.contentGeneration ≠ fence.contentGeneration ∨
        before.published.projectGeneration ≠ fence.projectGeneration := by
      simpa [refuses] using refused
    unfold apply publishDeferredKnowledge
    simp only [if_pos missed]
    split <;> rfl
  | updateGitTemporalAtFence fence candidate =>
    have missed : before.temporalFenceHolds fence candidate = false := by
      simpa [refuses] using refused
    have still : before.sourceMoved candidate = false := unmoved
    simp [apply, updateGitTemporalAtFence, missed, still, noteRejectedStaleMutation]
  | _ => cases refused

/-- The one refusal that publishes: the rows there are, under the content generation there is and
with the source captured for the publication. -/
theorem refused_publishes_source (refused : before.refuses env operation = true)
    (moved : before.refusedButPublishes operation = true) :
    ∃ generation, (before.apply env captured operation).publications =
        before.publications ++ [generation] ∧
      generation.contentGeneration = before.published.contentGeneration ∧
      generation.live = before.live ∧ generation.freshness = before.freshnessStatus ∧
      generation.source = captured.map CapturedManifest.source ∧
      generation.sourceVersion = captured.map CapturedManifest.sourceVersion := by
  cases operation with
  | updateGitTemporalAtFence fence candidate =>
    have missed : before.temporalFenceHolds fence candidate = false := by
      simpa [refuses] using refused
    have gone : before.sourceMoved candidate = true := moved
    simp only [apply, updateGitTemporalAtFence, missed, Bool.not_false, if_true, gone]
    exact ⟨_, rfl, rfl, rfl, rfl, rfl, rfl⟩
  | _ => cases moved

end SharedIndexHandle

namespace System

open SharedIndexHandle

/-- Every move keeps the handle sound. -/
theorem step_sound {env : Environment} {state next : System} {action : Action}
    (sound : state.handle.Sound) (moved : state.step env action = some next) :
    next.handle.Sound := by
  rcases step_cases moved with ⟨operation, captured, -, after⟩ | ⟨latched, after⟩ |
    ⟨id, cancelled, carryPanics, captured, reload, -, -, committed⟩
  · rw [after]
    exact sound.apply
  · rw [after]
    obtain ⟨coherent, numbered⟩ := sound
    exact ⟨{ coherent with }, { numbered with }⟩
  · obtain ⟨live, -, after⟩ := commitReload_ok committed
    rw [after]
    exact ⟨swap_coherent, sound.2.swap sound.1 rfl rfl rfl nofun⟩

/-- The handle is sound along every run. -/
theorem run_sound {env : Environment} {start final : System} {actions : List Action}
    (initial : start.handle.Initial) (reached : run (step env) start actions = some final) :
    final.handle.Sound :=
  run_invariant (fun state => state.handle.Sound) (fun _ _ _ => step_sound)
    ⟨initial.coherent, initial.numbered⟩ reached

/-- Over every run of operations and reloads: publication generations increase strictly, content
generations never decrease, publications of one content generation have the same contents and
symbols, and an operation whose fence is not met publishes nothing unless it is a stale temporal
result whose source moved. That one publishes the same rows and content generation, with the source
and version of the manifest captured. -/
theorem generations_identify (env : Environment) {start final : System} (actions : List Action)
    (initial : start.handle.Initial) (reached : run (step env) start actions = some final) :
    (final.handle.publications.Pairwise fun earlier later =>
      earlier.publicationGeneration < later.publicationGeneration) ∧
    (final.handle.publications.Pairwise fun earlier later =>
      earlier.contentGeneration ≤ later.contentGeneration) ∧
    (∀ one ∈ final.handle.publications, ∀ other ∈ final.handle.publications,
      one.contentGeneration = other.contentGeneration →
        one.live.contents = other.live.contents) ∧
    ∀ operation captured, final.handle.refuses env operation = true →
      if final.handle.refusedButPublishes operation then
        ∃ generation, (final.handle.apply env captured operation).publications =
            final.handle.publications ++ [generation] ∧
          generation.contentGeneration = final.handle.published.contentGeneration ∧
          generation.live = final.handle.live ∧
          generation.freshness = final.handle.freshnessStatus ∧
          generation.source = captured.map CapturedManifest.source ∧
          generation.sourceVersion = captured.map CapturedManifest.sourceVersion
      else (final.handle.apply env captured operation).publications =
        final.handle.publications := by
  obtain ⟨-, numbered⟩ := run_sound initial reached
  refine ⟨numbered.increasing, numbered.monotone, numbered.identified, ?_⟩
  intro operation captured refused
  split
  · rename_i moved
    exact refused_publishes_source refused moved
  · rename_i unmoved
    exact refused_publishes_nothing refused (Bool.eq_false_iff.mpr unmoved)

end System

section Sample

/-- An environment that knows only lowercase texts. -/
def sampleEnv : Environment where
  toLowercase := id
  issueRecordBytes := fun _ => 40
  entryRecordBytes := fun _ => 40
  maxCatalogMetadataBytes := 10000

/-- The repository at its first commit. -/
def firstCommit : CapturedManifest where
  source := ⟨"repository", "source", .workingTree "main"⟩
  sourceVersion := ⟨some "main", some "a1", .clean⟩

/-- The repository after a commit that changed no byte. -/
def secondCommit : CapturedManifest :=
  { firstCommit with sourceVersion := ⟨some "main", some "b2", .clean⟩ }

/-- A plan that covers an empty repository. -/
def samplePlan : ScoutPlan := ⟨.complete, [], [], ⟨0, 2, 0⟩⟩

/-- An index loaded from an empty directory. -/
def sampleLive : LiveIndex := LiveIndex.fromReloadData "/work" ⟨∅, samplePlan, []⟩

/-- A handle that has published that index. -/
def sampleHandle : SharedIndexHandle where
  live := sampleLive
  published := ⟨1, 1, 1, some firstCommit.source, some firstCommit.sourceVersion, .current,
    sampleLive, false⟩
  publishedStateGeneration := 1
  scoutPlan := some samplePlan
  freshnessStatus := .current
  nextGeneration := 2
  projectGeneration := 1
  admittedRoot := none
  admittedPhysicalAnchor := some ⟨1, 10⟩
  physicalReplacementLatched := false
  rejectedStaleMutations := 0
  deferColdKnowledge := false
  inArc := true
  publications := [⟨1, 1, 1, some firstCommit.source, some firstCommit.sourceVersion, .current,
    sampleLive, false⟩]

/-- The sample handle is a first one. -/
theorem sampleHandle_initial : sampleHandle.Initial := ⟨⟨rfl, rfl, rfl⟩, rfl, by decide⟩

/-- A file of the repository. -/
def sampleFile : IndexedFile where
  content := utf8 "fn a() {}"
  language := .rust
  symbols := []
  references := []
  aliasMap := []
  classification := ⟨.code, false, false, false, false⟩
  parseStatus := .parsed
  byteLen := 9
  contentHash := "h1"
  mtimeSecs := 5

/-- The file of the repository as the scout found it. -/
def sampleScouted : ScoutedEntry where
  path := ⟨"a.rs", some "a.rs"⟩
  absolutePath := some "/work/a.rs"
  stamp := ⟨9, none, some 5, none⟩
  language := some .rust
  classification := ⟨.code, false, false, false, false⟩
  decision := .ingest .code

/-- A file that is new since the baseline stays in the plan though the fresh scan missed it. -/
theorem reconciled_keeps_new_file :
    let found : ScoutPlan := { samplePlan with entries := [sampleScouted] }
    let before := { sampleHandle with scoutPlan := some found }
    let result := before.publishReconciledScoutPlanAtGeneration sampleEnv (some samplePlan)
      samplePlan 1 (some firstCommit)
    result.1 = true ∧ ∃ plan, result.2.scoutPlan = some plan ∧
      SharedIndexHandle.entryAt plan sampleScouted.path = some sampleScouted := by
  intro found before result
  have published : result.1 = true := by decide
  have reconciles := @SharedIndexHandle.publishReconciledScoutPlan_reconciles sampleEnv sampleHandle
    (some samplePlan) found samplePlan 1 (some firstCommit)
  obtain ⟨plan, isPlan, entries, -⟩ := reconciles.2 published
  exact ⟨published, plan, isPlan, entries _⟩

/-- A file, another time of it, and an update of a passed generation. -/
def sampleActions : List Action :=
  [.operate (.updateFile "a.rs" sampleFile false) (some firstCommit),
    .operate (.touchMtime "a.rs" 9) (some firstCommit),
    .operate (.updateFileAtGeneration "a.rs" sampleFile 0 false) (some firstCommit)]

/-- A run of three publications. -/
theorem sampleActions_identified :
    ∃ final, run (System.step sampleEnv) ⟨sampleHandle, fun _ => none⟩ sampleActions = some final ∧
      (final.handle.publications.map (·.publicationGeneration)) = [1, 2, 3] ∧
      ∀ one ∈ final.handle.publications, ∀ other ∈ final.handle.publications,
        one.contentGeneration = other.contentGeneration →
          one.live.contents = other.live.contents :=
  ⟨_, rfl, rfl, (System.generations_identify _ sampleActions sampleHandle_initial rfl).2.2.1⟩

/-- A temporal result computed for the first commit, handed in after the second. -/
def staleTemporal : Operation :=
  .updateGitTemporalAtFence ⟨1, 1, some firstCommit.source, some firstCommit.sourceVersion⟩
    (some secondCommit)

/-- The stale result is refused and there is a publication all the same. -/
theorem staleTemporal_publishes : sampleHandle.Initial ∧
    sampleHandle.refuses sampleEnv staleTemporal = true ∧
    (sampleHandle.apply sampleEnv (some secondCommit) staleTemporal).publications ≠
      sampleHandle.publications := by
  refine ⟨sampleHandle_initial, rfl, ?_⟩
  intro same
  have lengths := congrArg length same
  revert lengths
  decide

end Sample

end Symforge.Store
