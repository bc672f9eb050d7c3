import Symforge.Store.DerivedIndices
import Symforge.Store.SnapshotVerify

/-!
# What the mutations do to the rows

Every mutation of the live index is a list of rows put and dropped, up to the modification times of
the rows, and keeps the root the index was built from. The derived indices and the catalog do not
matter here.
-/

namespace Symforge.Store

open Library RowChange Store.IndexedFile List Bool

/-- A file without the time it was last seen at. -/
def IndexedFile.untimed (file : IndexedFile) : IndexedFile := { file with mtimeSecs := 0 }

/-- The rows after a change. -/
def RowChange.follow (rows : String → Option IndexedFile) : RowChange → String → Option IndexedFile
  | .put path file => Function.update rows path (some file)
  | .drop path => Function.update rows path none

/-- The rows after a list of changes. -/
def followChanges (changes : List RowChange) (rows : String → Option IndexedFile) :
    String → Option IndexedFile :=
  changes.foldl RowChange.follow rows

namespace LiveIndex

/-- The row of a path. -/
def row (index : LiveIndex) (path : String) : Option IndexedFile := index.files.lookup path

/-- The rows of the second are those of the first with the changes; the root is kept. -/
structure Follows (before : LiveIndex) (changes : List RowChange) (after : LiveIndex) : Prop where
  rows : ∀ path, (after.row path).map IndexedFile.untimed =
    (followChanges changes before.row path).map IndexedFile.untimed
  root : after.indexedRoot = before.indexedRoot

variable {before middle after : LiveIndex} {first second : List RowChange}

/-- No change leaves the rows. -/
theorem Follows.refl (before : LiveIndex) : before.Follows [] before := ⟨fun _ => rfl, rfl⟩

/-- Changes of rows that agree up to their times agree up to their times. -/
theorem followChanges_congr (changes : List RowChange) {left right : String → Option IndexedFile}
    (same : ∀ path, (left path).map untimed = (right path).map untimed)
    (path : String) :
    (followChanges changes left path).map untimed =
      (followChanges changes right path).map untimed := by
  induction changes generalizing left right with
  | nil => exact same _
  | cons change rest ih =>
    refine ih fun other => ?_
    cases change with
    | put changed file | drop changed =>
      by_cases here : other = changed
      · subst here
        simp [follow]
      · simp [follow, here, same _]

/-- Changes in a row add up. -/
theorem Follows.trans (left : before.Follows first middle) (right : middle.Follows second after) :
    before.Follows (first ++ second) after where
  rows path := by
    rw [right.rows _, followChanges_congr _ left.rows _, followChanges, followChanges,
      followChanges, foldl_append]
  root := right.root.trans left.root

/-- The files and the root are all that counts. -/
theorem Follows.of_same (files : after.files = before.files)
    (root : after.indexedRoot = before.indexedRoot) : before.Follows [] after where
  rows path := by
    rw [followChanges, foldl_nil, row, row, files]
  root := root

/-- Only the rows and the root matter. -/
theorem Follows.congr {index : LiveIndex} (follows : before.Follows first after)
    (files : index.files = after.files) (root : index.indexedRoot = after.indexedRoot) :
    before.Follows first index := by
  have extended := follows.trans (Follows.of_same files root)
  rwa [append_nil] at extended

section Rows

variable (env : Environment) (index : LiveIndex) (path : String) (file : IndexedFile)
  (manifest : Bool)

/-- Releasing a restored row keeps the root. -/
theorem releaseUnverified_root :
    (index.releaseUnverified path).2.indexedRoot = index.indexedRoot := by
  unfold releaseUnverified
  split <;> rfl

/-- It changes no row. -/
theorem releaseUnverified_follows : index.Follows [] (index.releaseUnverified path).2 :=
  Follows.of_same (index.releaseUnverified_same _).1 (index.releaseUnverified_root _)

/-- Inserting a row keeps the root. -/
theorem insertRow_root :
    (index.insertRow env path file manifest).indexedRoot = index.indexedRoot := by
  cases manifest <;> rfl

/-- Cleaning up keeps the root. -/
theorem cleanUpOldRow_root (oldRow : Option IndexedFile) :
    (index.cleanUpOldRow path oldRow).indexedRoot = index.indexedRoot := by
  rw [cleanUpOldRow_eq]

/-- An update keeps the root. -/
theorem updateFileWithManifest_root :
    (index.updateFileWithManifest env path file manifest).indexedRoot = index.indexedRoot := by
  unfold updateFileWithManifest insertReverseIndexForPath insertPathIndicesForPath
  dsimp only
  split <;> rw [cleanUpOldRow_root, insertRow_root, releaseUnverified_root]

/-- It puts its row. -/
theorem updateFileWithManifest_follows :
    index.Follows [.put path file] (index.updateFileWithManifest env path file manifest) where
  rows other := by
    rw [row, (index.updateFileWithManifest_parts _ _ _ _).1, Table.lookup_insert]
    rfl
  root := index.updateFileWithManifest_root _ _ _ _

/-- Removing a row keeps the root. -/
theorem removeRow_root : (index.removeRow path).2.indexedRoot = index.indexedRoot := by
  unfold removeRow removeReverseIndexForPath removePathIndicesForPath
  cases found : index.files.lookup path <;> simp [found]

/-- It drops its row. -/
theorem removeRow_follows : index.Follows [.drop path] (index.removeRow path).2 where
  rows other := by
    cases found : index.files.lookup path with
    | none =>
      rw [index.removeRow_absent _ found]
      by_cases here : other = path
      · subst here
        simp [followChanges, follow, row, found]
      · simp [followChanges, follow, here]
    | some file =>
      rw [row, (index.removeRow_parts _ found).1, Table.lookup_erase]
      rfl
  root := index.removeRow_root _

/-- Removing a file drops its row. -/
theorem removeFile_follows : index.Follows [.drop path] (index.removeFile path).2 :=
  (index.releaseUnverified_follows _).trans
    ((removeRow_follows _ _).congr rfl rfl)

end Rows

/-- A row that is not there is not removed. -/
theorem removeRow_eq_false {index : LiveIndex} {path : String}
    (kept : (index.removeRow path).1 = false) : index.files.lookup path = none := by
  unfold removeRow at kept
  cases found : index.files.lookup path with
  | none => rfl
  | some file =>
    rw [removeReverseIndexForPath, found] at kept
    simp [found] at kept

/-- What the loop over the restored rows has done so far. -/
structure Resolves (start : LiveIndex) (state : Resolution) : Prop where
  follows : start.Follows state.dropped state.live
  withheld : state.withheld = false → state.dropped = []

/-- One restored row is resolved. -/
theorem Resolves.row {start : LiveIndex} {state : Resolution} (resolves : Resolves start state)
    (restored : String × Bool) : Resolves start (resolveRow state restored) := by
  unfold resolveRow
  by_cases absent : (state.live.files.lookup restored.1).isNone
  · rw [if_pos absent]
    exact resolves
  rw [if_neg absent]
  by_cases untouched : restored.2
  · rw [if_pos untouched]
    refine ⟨resolves.follows.trans (state.live.removeRow_follows restored.1), fun kept => ?_⟩
    have gone := removeRow_eq_false (or_eq_false_iff.mp kept).2
    rw [gone] at absent
    exact absurd rfl absent
  · rw [if_neg untouched]
    exact ⟨resolves.follows, resolves.withheld⟩

variable (index : LiveIndex) (completion : SnapshotVerifyCompletion)

/-- All restored rows are resolved. -/
theorem resolveRows_resolves : Resolves index (index.resolveRows completion) := by
  refine foldlRecOn completion.restoredRows resolveRow ?_ ?_
  · exact ⟨Follows.refl _, fun _ => rfl⟩
  intro state resolves restored _
  exact resolves.row _

/-- A resolution drops the rows that it says. -/
theorem resolveSnapshotVerify_follows :
    index.Follows (index.resolveRows completion).dropped
      (index.resolveSnapshotVerify completion).2 :=
  (index.resolveRows_resolves _).follows.congr rfl rfl

/-- An incomplete one drops nothing. -/
theorem resolveSnapshotVerify_retains (kept : (index.resolveSnapshotVerify completion).1 = false) :
    index.Follows [] (index.resolveSnapshotVerify completion).2 := by
  have nothing := (index.resolveRows_resolves completion).withheld kept
  have follows := index.resolveSnapshotVerify_follows completion
  rwa [nothing] at follows

end LiveIndex

namespace VerifyBatch

open Symforge.Store.LiveIndex

/-- What the loops of a batch have done so far. -/
structure Tracks (start : LiveIndex) (batch : VerifyBatch) : Prop where
  follows : start.Follows batch.changes batch.live
  retains : batch.changedContent = false → start.Follows [] batch.live

/-- A removal is tracked. -/
theorem Tracks.remove {start : LiveIndex} {batch : VerifyBatch} (tracks : Tracks start batch)
    (catalog : List CatalogEntry) (removal : String × Bool) :
    Tracks start (batch.remove catalog removal) := by
  unfold VerifyBatch.remove
  by_cases absent : removal.2
  · rw [if_pos absent]
    refine ⟨tracks.follows.trans (batch.live.removeRow_follows removal.1), fun unchanged => ?_⟩
    by_cases held : ((batch.live.removeRow removal.1).1 ||
        (catalogEntry catalog removal.1).isSome) = true
    · simp [changedContent, held] at unchanged
    have missing := eq_false_iff.mpr held
    have gone := removeRow_eq_false (or_eq_false_iff.mp missing).1
    simp only [changedContent, held] at unchanged
    rw [batch.live.removeRow_absent removal.1 gone]
    exact tracks.retains unchanged
  · rw [if_neg absent]
    exact ⟨tracks.follows, tracks.retains⟩

variable (env : Environment) (live : LiveIndex)

/-- A row and its indices dropped after a panic. -/
theorem dropHalfApplied_follows (path : String) (file : IndexedFile) :
    live.Follows [.drop path] (dropHalfApplied
      ((live.releaseUnverified path).2.insertRow env path file false) path) := by
  have dropped := removeRow_follows { (live.releaseUnverified path).2.insertRow env path file false
    with trigramIndex := ((live.releaseUnverified path).2.insertRow env path file
      false).trigramIndex.removeFile path none } path
  refine ⟨fun other => ?_, ?_⟩
  · rw [dropHalfApplied, dropped.rows other]
    have inserted := ((live.releaseUnverified path).2.insertRow_same env path file false).1
    by_cases here : other = path
    · subst here
      simp [followChanges, follow]
    · simp [followChanges, follow, here, LiveIndex.row, inserted,
        (live.releaseUnverified_same path).1]
  · rw [dropHalfApplied, dropped.root]
    exact (insertRow_root env _ path file false).trans (live.releaseUnverified_root path)

/-- An admitted file is tracked. -/
theorem Tracks.admitFile {start : LiveIndex} {batch : VerifyBatch} (tracks : Tracks start batch)
    (env : Environment) (catalog : List CatalogEntry) (verified : SnapshotVerifiedFile) :
    Tracks start (batch.admitFile env catalog verified) := by
  unfold VerifyBatch.admitFile
  by_cases moved : (batch.live.files.lookup verified.path).map (·.contentHash) ≠ verified.baseHash
  · rw [if_pos moved]
    exact ⟨tracks.follows, tracks.retains⟩
  rw [if_neg moved]
  by_cases stale : (!verified.stampMatches) = true
  · rw [if_pos stale]
    exact ⟨tracks.follows, tracks.retains⟩
  rw [if_neg stale]
  cases verified.admission with
  | indexed file targets panics =>
    cases panics with
    | true =>
      refine ⟨tracks.follows.trans (dropHalfApplied_follows _ batch.live verified.path _),
        fun unchanged => ?_⟩
      simp [changedContent] at unchanged
    | false =>
      refine ⟨tracks.follows.trans
        (batch.live.updateFileWithManifest_follows _ verified.path _ false),
        fun unchanged => ?_⟩
      simp [changedContent] at unchanged
  | terminal disposition =>
    refine ⟨tracks.follows.trans (batch.live.removeRow_follows verified.path), fun unchanged => ?_⟩
    by_cases held : ((batch.live.removeRow verified.path).1 || catalogEntry catalog verified.path !=
        some (catalogEntryFromScout verified.scouted disposition none)) = true
    · simp [changedContent, held] at unchanged
    have missing := eq_false_iff.mpr held
    have gone := removeRow_eq_false (or_eq_false_iff.mp missing).1
    simp only [changedContent, held] at unchanged
    rw [batch.live.removeRow_absent verified.path gone]
    exact tracks.retains unchanged

/-- A batch tracks its removals and files. -/
theorem collect_tracks (removals : List (String × Bool)) (files : List SnapshotVerifiedFile) :
    Tracks live (collect env live removals files) := by
  refine foldlRecOn _ _ (foldlRecOn _ _ ?_ ?_) ?_
  · exact ⟨Follows.refl _, fun _ => Follows.refl _⟩
  · intro batch tracks removal _
    exact tracks.remove _ _
  · intro batch tracks verified _
    exact tracks.admitFile _ _ _

/-- Writing the catalog keeps rows and root. -/
theorem writeCatalog_kept (drop : List String) (set : List CatalogEntry) :
    (writeCatalog live drop set).files = live.files ∧
      (writeCatalog live drop set).indexedRoot = live.indexedRoot := by
  unfold writeCatalog
  split <;> exact ⟨rfl, rfl⟩

/-- Settling the catalog of a batch leaves its rows alone. -/
theorem settled_follows (batch : VerifyBatch) : batch.live.Follows [] (batch.settled env) := by
  have rebuilt : ∀ live : LiveIndex, live.files = batch.live.files →
      live.indexedRoot = batch.live.indexedRoot → batch.live.Follows [] (if batch.changedContent
        then (writeCatalog live batch.catalogDrop batch.catalogSet).sortManifestEntries env
        else writeCatalog live batch.catalogDrop batch.catalogSet) := by
    intro live files root
    obtain ⟨filesKept, rootKept⟩ := writeCatalog_kept _ batch.catalogDrop batch.catalogSet
    split <;> exact Follows.of_same (filesKept.trans files) (rootKept.trans root)
  unfold settled
  cases batch.panicked with
  | false => exact rebuilt batch.live rfl rfl
  | true => exact rebuilt _ rfl rfl

end VerifyBatch

namespace SharedIndexHandle

open Symforge.Store.LiveIndex VerifyBatch

/-- Collecting completes nothing. -/
theorem collect_not_completed (env : Environment) (live : LiveIndex)
    (removals : List (String × Bool)) (files : List SnapshotVerifiedFile) :
    (collect env live removals files).receipt.completed = false := by
  let Fresh : VerifyBatch → Prop := fun batch => batch.receipt.completed = false
  refine foldlRecOn (motive := Fresh) _ _
    (foldlRecOn (motive := Fresh) _ _ rfl ?_) ?_
  · intro batch fresh removal _
    show (VerifyBatch.remove live.manifestEntries batch removal).receipt.completed = false
    unfold VerifyBatch.remove
    split
    · dsimp only
      split <;> exact fresh
    · exact fresh
  · intro batch fresh verified _
    show (VerifyBatch.admitFile env live.manifestEntries batch verified).receipt.completed = false
    unfold VerifyBatch.admitFile
    dsimp only
    repeat' split
    all_goals exact fresh

/-- A completed batch has made its changes and those of the resolution, or none. -/
theorem completeBatch_follows (env : Environment) {start : LiveIndex} {batch : VerifyBatch}
    (tracks : Tracks start batch) (fresh : batch.receipt.completed = false)
    (completion : Option SnapshotVerifyCompletion) :
    start.Follows (batch.changes ++ withheldChanges env batch completion)
        (completeBatch env batch completion).1 ∧
      ((completeBatch env batch completion).2.1 = false →
        start.Follows [] (completeBatch env batch completion).1) := by
  have settled := tracks.follows.trans (batch.settled_follows env)
  rw [append_nil] at settled
  have retained : batch.changedContent = false → start.Follows [] (batch.settled env) :=
    fun unchanged => (tracks.retains unchanged).trans (batch.settled_follows env)
  cases completion with
  | none =>
    refine ⟨?_, retained⟩
    rw [withheldChanges, append_nil]
    exact settled
  | some completion =>
    by_cases resolves : (batch.receipt.refused.isEmpty &&
        verifyInFlight (batch.settled env).snapshotVerifyState &&
        (batch.settled env).loadSource == .snapshotRestore) = true
    · simp only [withheldChanges, completeBatch, resolves, if_true]
      refine ⟨settled.trans ((batch.settled env).resolveSnapshotVerify_follows _),
        fun unchanged => ?_⟩
      obtain ⟨rowsKept, nothingWithheld⟩ := or_eq_false_iff.mp unchanged
      exact (retained rowsKept).trans
        ((batch.settled env).resolveSnapshotVerify_retains _ nothingWithheld)
    · simp only [withheldChanges, completeBatch, resolves, if_false, fresh, append_nil,
        false_eq_true]
      exact ⟨settled, retained⟩

end SharedIndexHandle

end Symforge.Store
