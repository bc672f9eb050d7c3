import Symforge.Store.RowChanges

/-!
# What the mutations do to the catalog

A mutation replaces the manifest entries of the paths it is about and leaves the others, and a scout
plan that is refreshed keeps the issues it had.
-/

namespace Symforge.Store

open Library List AList

namespace LiveIndex

/-- The entries of all other paths are still there. -/
def KeepsEntries (before : LiveIndex) (paths : List String) (after : LiveIndex) : Prop :=
  ∀ entry ∈ before.manifestEntries, scoutedCatalogPath entry.path ∉ paths →
    entry ∈ after.manifestEntries

variable {before middle after : LiveIndex} {paths : List String}

/-- The same entries are kept. -/
theorem KeepsEntries.of_eq (same : after.manifestEntries = before.manifestEntries) :
    before.KeepsEntries paths after :=
  fun _ member _ => same ▸ member

/-- Kept twice is kept. -/
theorem KeepsEntries.trans (left : before.KeepsEntries paths middle)
    (right : middle.KeepsEntries paths after) : before.KeepsEntries paths after :=
  fun _ member other => right _ (left _ member other) other

variable (env : Environment) (index : LiveIndex) (path : String) (file : IndexedFile)

/-- Sorting keeps the entries. -/
theorem mem_sortManifestEntries (entry : CatalogEntry) :
    entry ∈ (index.sortManifestEntries env).manifestEntries ↔ entry ∈ index.manifestEntries :=
  mem_insertionSort _

/-- An entry of the paths may be put. -/
theorem upsertManifestEntry_keeps (put : CatalogEntry)
    (named : scoutedCatalogPath put.path ∈ paths) :
    index.KeepsEntries paths (index.upsertManifestEntry env put) := by
  intro entry member other
  refine (mem_sortManifestEntries _ _ _).mpr (mem_append_left _ ?_)
  refine mem_filter.mpr ⟨member, decide_eq_true fun same => other ?_⟩
  rw [same]
  exact named

/-- An entry of the paths may be removed. -/
theorem removeManifestEntry_keeps {path : String} (named : path ∈ paths) :
    index.KeepsEntries paths (index.removeManifestEntry path).2 := by
  intro entry member other
  refine mem_filter.mpr ⟨member, decide_eq_true fun same => other ?_⟩
  rw [same]
  exact named

/-- The entry derived for a file is the entry of its path. -/
theorem derivedManifestEntry_path :
    scoutedCatalogPath (index.derivedManifestEntry path file).path = path := by
  unfold derivedManifestEntry
  cases known : index.manifestEntries.find? fun entry => scoutedCatalogPath entry.path == path with
  | none => rfl
  | some entry =>
    have here : scoutedCatalogPath entry.path = path := by
      simpa using find?_some known
    cases shape : entry.disposition <;> simp [shape, here]

/-- Releasing a restored row leaves the catalog. -/
theorem releaseUnverified_manifest :
    (index.releaseUnverified path).2.manifestEntries = index.manifestEntries := by
  unfold releaseUnverified
  split <;> rfl

/-- Removing a row leaves the catalog. -/
theorem removeRow_manifest : (index.removeRow path).2.manifestEntries = index.manifestEntries := by
  unfold removeRow removeReverseIndexForPath removePathIndicesForPath
  cases found : index.files.lookup path <;> simp [found]

/-- Removing a file touches its own entry only. -/
theorem removeFile_keeps {path : String} (named : path ∈ paths) :
    index.KeepsEntries paths (index.removeFile path).2 := by
  have removed : index.KeepsEntries paths ((index.releaseUnverified path).2.removeRow path).2 :=
    .of_eq ((removeRow_manifest _ _).trans (index.releaseUnverified_manifest _))
  exact removed.trans (removeManifestEntry_keeps _ named)

/-- An update puts its row and leaves the rest of the catalog to `insertRow`. -/
theorem updateFileWithManifest_manifest (manifest : Bool) :
    (index.updateFileWithManifest env path file manifest).manifestEntries =
      ((index.releaseUnverified path).2.insertRow env path file manifest).manifestEntries := by
  unfold updateFileWithManifest insertReverseIndexForPath insertPathIndicesForPath
  dsimp only
  split <;> rw [cleanUpOldRow_eq]

/-- Updating a file touches its own entry only. -/
theorem updateFile_keeps {path : String} (named : path ∈ paths) :
    index.KeepsEntries paths (index.updateFile env path file) := by
  have released : index.KeepsEntries paths (index.releaseUnverified path).2 :=
    .of_eq (index.releaseUnverified_manifest _)
  refine released.trans fun entry member other => ?_
  rw [updateFile, updateFileWithManifest_manifest]
  refine upsertManifestEntry_keeps _ { (index.releaseUnverified path).2 with
    files := (index.releaseUnverified path).2.files.insert _ file } _ ?_ _ member other
  rw [derivedManifestEntry_path]
  exact named

/-- Resolving the verify drops rows, not entries. -/
theorem resolveSnapshotVerify_manifest (completion : SnapshotVerifyCompletion) :
    (index.resolveSnapshotVerify completion).2.manifestEntries = index.manifestEntries := by
  refine foldlRecOn (motive := fun state : Resolution =>
    state.live.manifestEntries = index.manifestEntries) completion.restoredRows resolveRow rfl ?_
  intro state same restored _
  unfold resolveRow
  split
  · exact same
  split
  · exact (removeRow_manifest _ _).trans same
  · exact same

end LiveIndex

namespace VerifyBatch

open Symforge.Store.LiveIndex

/-- The paths whose entries a batch may replace. -/
def catalogPaths (removals : List (String × Bool)) (files : List SnapshotVerifiedFile) :
    List String :=
  removals.map Prod.fst ++ files.map (scoutedCatalogPath ·.scouted.path)

/-- The loops of a batch leave the catalog and only note what to write to it. -/
structure NotesCatalog (start : LiveIndex) (paths : List String) (batch : VerifyBatch) : Prop where
  manifest : batch.live.manifestEntries = start.manifestEntries
  drop : ∀ path ∈ batch.catalogDrop, path ∈ paths
  set : ∀ entry ∈ batch.catalogSet, scoutedCatalogPath entry.path ∈ paths

variable {start : LiveIndex} {paths : List String} {batch : VerifyBatch}

/-- A removal notes its own path only. -/
theorem NotesCatalog.remove (notes : NotesCatalog start paths batch) (catalog : List CatalogEntry)
    {removal : String × Bool} (named : removal.1 ∈ paths) :
    NotesCatalog start paths (batch.remove catalog removal) := by
  unfold VerifyBatch.remove
  by_cases absent : removal.2
  · rw [if_pos absent]
    refine ⟨(removeRow_manifest _ _).trans notes.manifest, ?_, notes.set⟩
    dsimp only
    split
    · exact forall_mem_append.mpr ⟨notes.drop, forall_mem_singleton.mpr named⟩
    · exact notes.drop
  · rw [if_neg absent]
    exact { notes with }

/-- An admitted file notes its own path only. -/
theorem NotesCatalog.admitFile (notes : NotesCatalog start paths batch) (env : Environment)
    (catalog : List CatalogEntry) {verified : SnapshotVerifiedFile}
    (named : scoutedCatalogPath verified.scouted.path ∈ paths) :
    NotesCatalog start paths (batch.admitFile env catalog verified) := by
  have noted : ∀ entry : CatalogEntry, entry.path = verified.scouted.path →
      ∀ other ∈ batch.catalogSet ++ [entry], scoutedCatalogPath other.path ∈ paths := by
    intro entry here
    exact forall_mem_append.mpr ⟨notes.set, forall_mem_singleton.mpr (here ▸ named)⟩
  unfold VerifyBatch.admitFile
  dsimp only
  split
  · exact { notes with }
  split
  · exact { notes with }
  split
  · split
    · refine ⟨?_, notes.drop, notes.set⟩
      rw [dropHalfApplied, removeRow_manifest]
      exact (batch.live.releaseUnverified_manifest verified.path).trans notes.manifest
    · refine ⟨?_, notes.drop, noted _ rfl⟩
      rw [updateFileWithManifest_manifest]
      exact (batch.live.releaseUnverified_manifest verified.path).trans notes.manifest
  · refine ⟨(removeRow_manifest _ _).trans notes.manifest, notes.drop, ?_⟩
    dsimp only
    split
    · exact noted _ rfl
    · exact notes.set

/-- A batch notes the paths of its removals and files only. -/
theorem collect_notes (env : Environment) (live : LiveIndex) (removals : List (String × Bool))
    (files : List SnapshotVerifiedFile) :
    NotesCatalog live (catalogPaths removals files) (collect env live removals files) := by
  refine foldlRecOn _ _ (foldlRecOn _ _ ?_ ?_) ?_
  · exact ⟨rfl, fun _ => nofun, fun _ => nofun⟩
  · intro batch notes removal member
    exact notes.remove _ (mem_append_left _ (mem_map_of_mem member))
  · intro batch notes verified member
    exact notes.admitFile _ _ (mem_append_right _ (mem_map_of_mem member))

/-- Writing the catalog of a batch leaves the entries of all other paths. -/
theorem NotesCatalog.settled (notes : NotesCatalog start paths batch) (env : Environment) :
    start.KeepsEntries paths (batch.settled env) := by
  have written : ∀ live : LiveIndex, live.manifestEntries = batch.live.manifestEntries →
      start.KeepsEntries paths (writeCatalog live batch.catalogDrop batch.catalogSet) := by
    intro live same entry member other
    rw [← notes.manifest, ← same] at member
    unfold writeCatalog
    split
    · exact member
    refine mem_append_left _ (mem_filter.mpr ⟨member, decide_eq_true fun replaced => ?_⟩)
    rcases mem_append.mp replaced with dropped | set
    · exact other (notes.drop _ dropped)
    obtain ⟨put, isPut, same⟩ := mem_map.mp set
    exact other (same ▸ notes.set _ isPut)
  have sorted : ∀ live : LiveIndex, live.manifestEntries = batch.live.manifestEntries →
      start.KeepsEntries paths (if batch.changedContent
        then (writeCatalog live batch.catalogDrop batch.catalogSet).sortManifestEntries env
        else writeCatalog live batch.catalogDrop batch.catalogSet) := by
    intro live same
    split
    · exact fun entry member other =>
        (mem_sortManifestEntries _ _ _).mpr (written _ same _ member other)
    · exact written _ same
  unfold VerifyBatch.settled
  cases batch.panicked with
  | false => exact sorted batch.live rfl
  | true => exact sorted _ rfl

end VerifyBatch

namespace SharedIndexHandle

open Symforge.Store.LiveIndex VerifyBatch

/-- A verification keeps the entries of all other paths. -/
theorem completeBatch_keeps (env : Environment) (live : LiveIndex)
    (removals : List (String × Bool)) (files : List SnapshotVerifiedFile)
    (completion : Option SnapshotVerifyCompletion) :
    live.KeepsEntries (catalogPaths removals files)
      (completeBatch env (collect env live removals files) completion).1 := by
  have settled := (collect_notes env live removals files).settled env
  unfold completeBatch
  cases completion with
  | none => exact settled
  | some completion =>
    dsimp only
    split
    · exact settled.trans (.of_eq (resolveSnapshotVerify_manifest _ _))
    · exact settled

/-- The plan is degraded by issues of its own. -/
def planHasIssues (plan : Option ScoutPlan) : Bool :=
  plan.any fun plan => plan.coverage == .degraded && !plan.issues.isEmpty

/-- A plan with issues leaves the reconciliation pending. -/
theorem reconciliationPending_of_issues {plan : Option ScoutPlan}
    (issues : planHasIssues plan = true) : reconciliationPending plan = true := by
  cases plan with
  | none => cases issues
  | some plan => exact (Bool.and_eq_true_iff.mp issues).1

/-- A refreshed plan with issues does not cover the repository. -/
theorem refreshScoutPlan_degraded {env : Environment} {plan refreshed : ScoutPlan}
    (accounted : refreshScoutPlan env plan = some refreshed) (issues : plan.issues ≠ []) :
    refreshed.coverage = .degraded := by
  obtain ⟨bytes, -, built⟩ := Option.bind_eq_some_iff.mp accounted
  cases built
  have listed : (sortByKey (fun issue : ScoutIssue =>
      scoutOrderKey env issue.safePath issue.pathId) plan.issues) ≠ [] := by
    intro none
    have counted := congrArg length none
    rw [sortByKey, length_insertionSort] at counted
    exact issues (length_eq_zero_iff.mp counted)
  simp [listed]

/-- Degraded coverage stays degraded. -/
theorem coveredBy_degraded (live : LiveIndex) {plan : ScoutPlan}
    (degraded : plan.coverage = .degraded) : (coveredBy live plan).coverage = .degraded := by
  unfold coveredBy
  split
  · rfl
  · exact degraded

variable {env : Environment} {handle : SharedIndexHandle} {plan : Option ScoutPlan}

section Pending

variable (issues : planHasIssues handle.scoutPlan = true)

include issues

/-- A plan with issues stays pending when every plan stored in its place has its issues. -/
theorem storeScoutPlan_pending
    (refreshed : ∀ current stored, handle.scoutPlan = some current → current.issues ≠ [] →
      plan = some stored → stored.coverage = .degraded) :
    reconciliationPending (handle.storeScoutPlan plan).scoutPlan = true := by
  cases plan with
  | none => exact reconciliationPending_of_issues issues
  | some stored =>
    show (stored.coverage == .degraded) = true
    cases held : handle.scoutPlan with
    | none =>
      rw [held] at issues
      cases issues
    | some current =>
      rw [held] at issues
      have listed : current.issues ≠ [] := by simpa using (Bool.and_eq_true_iff.mp issues).2
      rw [refreshed _ _ held listed rfl]
      rfl

/-- A plan that lost a path leaves the reconciliation pending. -/
theorem scoutPlanWithoutPathLocked_pending {path : String}
    (planned : handle.scoutPlanWithoutPathLocked env path = .ok plan) :
    reconciliationPending (handle.storeScoutPlan plan).scoutPlan = true := by
  refine storeScoutPlan_pending issues fun current stored held listed isStored => ?_
  unfold scoutPlanWithoutPathLocked at planned
  rw [held] at planned
  dsimp only at planned
  split at planned
  · cases planned
    cases isStored
  split at planned
  · cases planned
  rename_i refreshed accounted
  cases planned
  cases isStored
  exact refreshScoutPlan_degraded accounted listed

/-- So does a plan that a batch changed. -/
theorem scoutPlanWithBatchLocked_pending {entries : List ScoutedEntry} {removed : List String}
    {live : LiveIndex}
    (planned : handle.scoutPlanWithBatchLocked env entries removed live = .ok plan) :
    reconciliationPending (handle.storeScoutPlan plan).scoutPlan = true := by
  refine storeScoutPlan_pending issues fun current stored held listed isStored => ?_
  unfold scoutPlanWithBatchLocked at planned
  rw [held] at planned
  dsimp only at planned
  split at planned
  · cases planned
  rename_i refreshed accounted
  have degraded := coveredBy_degraded live (refreshScoutPlan_degraded accounted listed)
  split at planned
  · cases planned
    cases isStored
  cases planned
  cases isStored
  exact degraded

/-- One entry is a batch of it. -/
theorem scoutPlanWithEntryLocked_pending {entry : ScoutedEntry} {live : LiveIndex}
    (planned : handle.scoutPlanWithEntryLocked env entry live = .ok plan) :
    reconciliationPending (handle.storeScoutPlan plan).scoutPlan = true := by
  have asBatch : handle.scoutPlanWithBatchLocked env [entry] [] live = .ok plan := by
    rw [← planned]
    unfold scoutPlanWithBatchLocked scoutPlanWithEntryLocked
    simp
  exact scoutPlanWithBatchLocked_pending issues asBatch

end Pending

/-! ### Reconciliation -/

section Reconciliation

open Lifecycle (CatalogPath)

/-- What a plan holds for a path. -/
def entryAt (plan : ScoutPlan) (path : CatalogPath) : Option ScoutedEntry :=
  (entriesByPath plan.entries).lookup path

variable (baseline : Option ScoutPlan) (current fresh : ScoutPlan) (path : CatalogPath)

/-- What a reconciled plan is to hold: the current entry or its absence where it moved since the
baseline, the fresh entry elsewhere. -/
def reconciledAt : Option ScoutedEntry :=
  if entryAt current path = baseline.bind (entryAt · path) then entryAt fresh path
  else entryAt current path

variable {entries : List ScoutedEntry} {baseline current fresh path} {entry : ScoutedEntry}

/-- An entry is listed under its own path. -/
theorem path_of_entriesByPath : ∀ path entry,
    (entriesByPath entries).lookup path = some entry → entry.path = path := by
  induction entries using reverseRecOn with
  | nil =>
    intro _ _ none
    cases none
  | append_singleton earlier last keyed =>
    rw [entriesByPath, foldl_append]
    exact Table.forall_insert rfl keyed

/-- Without two entries of one path, every entry is found under its path. -/
theorem lookup_entriesByPath (distinct : (entries.map (·.path)).Nodup) :
    (entriesByPath entries).lookup path = some entry ↔ entry ∈ entries ∧ entry.path = path := by
  induction entries using reverseRecOn with
  | nil => exact ⟨nofun, nofun⟩
  | append_singleton earlier last ih =>
    rw [map_append, nodup_append] at distinct
    unfold entriesByPath at ih ⊢
    rw [foldl_append, foldl_cons, foldl_nil, Table.lookup_insert_iff, ih distinct.1, mem_append,
      mem_singleton]
    constructor
    · rintro (⟨rfl, rfl⟩ | ⟨-, member, rfl⟩)
      · exact ⟨.inr rfl, rfl⟩
      · exact ⟨.inl member, rfl⟩
    · rintro ⟨member | rfl, rfl⟩
      · exact .inr ⟨distinct.2.2 _ (mem_map_of_mem member) _ mem_cons_self, member, rfl⟩
      · exact .inl ⟨rfl, rfl⟩

/-- The loop over the paths that may have moved. -/
theorem lookup_merged {before now : Table CatalogPath ScoutedEntry} (paths : List CatalogPath)
    (table : Table CatalogPath ScoutedEntry) :
    (paths.foldl (fun table path =>
      if now.lookup path = before.lookup path then table
      else match now.lookup path with
        | some entry => table.insert path entry
        | none => table.erase path) table).lookup path =
      if path ∈ paths ∧ now.lookup path ≠ before.lookup path then now.lookup path
      else table.lookup path := by
  induction paths generalizing table with
  | nil => simp
  | cons first rest ih =>
    rw [foldl_cons, ih]
    by_cases same : path = first
    · subst same
      by_cases moved : now.lookup path = before.lookup path
      · simp [moved]
      cases found : now.lookup path <;> simp [found ▸ moved]
    by_cases moved : now.lookup first = before.lookup first
    · simp [moved, same]
    rw [if_neg moved]
    cases now.lookup first <;> simp [same]

/-- The entries of the merge in any order are those that are to be there. -/
theorem lookup_reconciledEntries
    (listed : entries.Perm (reconciledEntries baseline current fresh)) :
    (entriesByPath entries).lookup path = reconciledAt baseline current fresh path := by
  unfold reconciledEntries at listed
  extract_lets before now merged at listed
  have base path : before.lookup path = baseline.bind (entryAt · path) := by
    cases baseline <;> rfl
  have merges path : merged.lookup path = reconciledAt baseline current fresh path := by
    refine (lookup_merged _ _).trans ?_
    rw [base, reconciledAt]
    by_cases moved : entryAt current path = baseline.bind (entryAt · path)
    · rw [if_pos moved, if_neg fun both => both.2 moved, entryAt]
    have mayMove : path ∈ before.keys ++ now.keys := by
      rw [mem_append, ← AList.mem_keys, ← AList.mem_keys]
      by_contra absent
      obtain ⟨notBefore, notNow⟩ := not_or.mp absent
      refine moved ?_
      rw [← base, lookup_eq_none.mpr notBefore]
      exact lookup_eq_none.mpr notNow
    rw [if_neg moved, if_pos ⟨mayMove, moved⟩, entryAt]
  have keyed path entry (found : merged.lookup path = some entry) : entry.path = path := by
    rw [merges, reconciledAt] at found
    split at found <;> exact path_of_entriesByPath _ _ found
  have values : ∀ row ∈ merged.entries, row.2.path = row.1 :=
    fun row member => keyed _ _ (mem_lookup_iff.mpr member)
  have distinct : ((merged.entries.map Sigma.snd).map (·.path)).Nodup := by
    rw [map_map, Function.comp_def, map_congr_left values]
    exact merged.keys_nodup
  rw [← merges]
  ext entry
  rw [lookup_entriesByPath ((listed.map _).nodup_iff.mpr distinct), listed.mem_iff, mem_map]
  constructor
  · rintro ⟨⟨row, member, rfl⟩, rfl⟩
    rw [values _ member]
    exact mem_lookup_iff.mpr member
  · exact fun found => ⟨⟨⟨path, entry⟩, mem_lookup_iff.mp found, rfl⟩, keyed _ _ found⟩

/-- A reconciled plan of another generation is refused. One that is published holds every entry that
moved since the baseline as it is now. -/
theorem publishReconciledScoutPlan_reconciles (expectedGen : Nat)
    (captured : Option CapturedManifest) :
    let before := { handle with scoutPlan := some current }
    let result :=
      before.publishReconciledScoutPlanAtGeneration env baseline fresh expectedGen captured
    (handle.projectGeneration ≠ expectedGen → result = (false, before.noteRejectedStaleMutation)) ∧
      (result.1 = true → ∃ plan, result.2.scoutPlan = some plan ∧
        (∀ path, entryAt plan path = reconciledAt baseline current fresh path) ∧
        (manifestRequiresDegradedCoverage handle.live = true → plan.coverage = .degraded)) := by
  intro before result
  refine ⟨fun stale => if_pos stale, fun published => ?_⟩
  unfold result publishReconciledScoutPlanAtGeneration at published ⊢
  by_cases stale : before.projectGeneration ≠ expectedGen
  · rw [if_pos stale] at published
    cases published
  rw [if_neg stale] at published ⊢
  cases accounted : refreshScoutPlan env
      { fresh with entries := reconciledEntries baseline current fresh } with
  | none => simp [before, accounted] at published
  | some refreshed =>
    refine ⟨coveredBy handle.live refreshed, ?_, fun path => ?_, fun requires => ?_⟩
    · simp only [before, accounted]
      split <;> rfl
    · have same : (coveredBy handle.live refreshed).entries = refreshed.entries := by
        unfold coveredBy
        split <;> rfl
      obtain ⟨bytes, -, built⟩ := Option.bind_eq_some_iff.mp accounted
      rw [entryAt, same]
      cases built
      exact lookup_reconciledEntries (perm_insertionSort _ _)
    · rw [coveredBy, if_pos requires]

end Reconciliation

end SharedIndexHandle

end Symforge.Store
