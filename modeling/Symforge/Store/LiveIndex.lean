import Symforge.Index.Files
import Symforge.Index.Trigrams
import Symforge.Library.Buckets
import Symforge.Store.Catalog

/-!
# The rows of the store and their derived indices

Model of `LiveIndex` in `live_index/store.rs`: the rows by path, the catalog beside them, and the
four indices that single-file mutations patch and bulk loads rebuild. The map of rows is a table in
one order of iteration; the reverse and path indices are only looked up. Positions are natural
numbers: a file has fewer bytes than 32 bits count. Paths are read as on Unix.
-/

namespace Symforge.Store

open Library
open Lifecycle (CatalogPath)

/-- `store::ParseStatus`. -/
inductive ParseStatus where
  | parsed
  | partialParse (warning : String)
  | failed (error : String)
  deriving DecidableEq, Repr

/-- The aggregate status of the catalog entry of a parsed file. -/
def ParseStatus.aggregate : ParseStatus → CatalogParseStatus
  | .parsed => .parsed
  | .partialParse _ => .partialParse
  | .failed _ => .failed

/-- `store::IndexedFile`. -/
structure IndexedFile extends Symforge.IndexedFile where
  classification : FileClassification
  parseStatus : ParseStatus
  byteLen : Nat
  contentHash : String
  mtimeSecs : Nat
  deriving DecidableEq, Repr

/-- `store::IndexLoadSource`. -/
inductive IndexLoadSource where
  | emptyBootstrap | freshLoad | snapshotRestore
  deriving DecidableEq, Repr

/-- `store::SnapshotVerifyReport`. -/
structure SnapshotVerifyReport where
  mismatchCount : Nat
  mismatchedPaths : List String
  reason : Option String
  unverified : List (String × String)
  discoveryError : Option String
  deriving DecidableEq, Repr

variable (report : SnapshotVerifyReport)

/-- `SnapshotVerifyReport::has_mismatches`. -/
def SnapshotVerifyReport.hasMismatches : Bool :=
  decide (0 < report.mismatchCount) || report.discoveryError.isSome

/-- `SnapshotVerifyReport::drop_unverified`. -/
def SnapshotVerifyReport.dropUnverified (path : String) :
    Bool × SnapshotVerifyReport :=
  if report.unverified.any (·.1 == path) then
    (true, { report with
      unverified := report.unverified.filter (·.1 != path)
      mismatchCount := report.mismatchCount - 1
      mismatchedPaths := report.mismatchedPaths.filter (· != path) })
  else (false, report)

/-- `store::SnapshotVerifyState`; the progress counters of a running verify are left out. -/
inductive SnapshotVerifyState where
  | notNeeded
  | pending
  | running
  | completed (report : SnapshotVerifyReport)
  | failed (report : SnapshotVerifyReport)
  deriving DecidableEq, Repr

/-- The rows of a file map. -/
abbrev Rows := Table String IndexedFile

/-- A row put in place or dropped. -/
inductive RowChange where
  | put (path : String) (file : IndexedFile)
  | drop (path : String)
  deriving DecidableEq, Repr

/-- `store::LiveIndex`. -/
structure LiveIndex where
  files : Rows
  isEmpty : Bool
  loadSource : IndexLoadSource
  snapshotVerifyState : SnapshotVerifyState
  reverseIndex : Buckets String ReferenceLocation
  filesByBasename : Buckets String String
  filesByDirComponent : Buckets String String
  trigramIndex : Index.TrigramIndex
  manifestEntries : List CatalogEntry
  localEmptyReason : Option String
  indexedRoot : Option String

/-- `str::to_ascii_lowercase`. -/
def asciiLowercase (text : String) : String := text.map Char.toLower

variable (path : String)

/-- `Path::file_name` — the last component, unless it is `..`. -/
def fileName : Option String :=
  let components := (path.toList.splitOn '/').filter fun part => part ≠ [] ∧ part ≠ ['.']
  components.getLast?.bind fun last => if last = ['.', '.'] then none else some (String.ofList last)

/-- `store::basename_key`. -/
def basenameKey : Option String := (fileName path).map asciiLowercase

/-- `store::dir_component_keys`. -/
def dirComponentKeys : List String :=
  let components := (path.toList.splitOnP fun c => c == '/' || c == '\\').filter (· ≠ [])
  if components.length ≤ 1 then []
  else
    let keys := components.dropLast.map fun component => asciiLowercase (String.ofList component)
    keys.dedup.insertionSort (· ≤ ·)

/-- `store::insert_sorted_unique`. -/
def insertSortedUnique (paths : List String) : List String := insertSorted paths path

/-- `store::remove_sorted_path`. -/
def removeSortedPath (paths : List String) : List String := removeSorted paths path

/-- The path entered under each of the keys. -/
def insertUnderKeys (keys : List String) (path : String) (index : Buckets String String) :
    Buckets String String :=
  keys.foldl (Buckets.modify · (insertSortedUnique path)) index

/-- The path taken from each of the keys. -/
def removeUnderKeys (keys : List String) (path : String) (index : Buckets String String) :
    Buckets String String :=
  keys.foldl (Buckets.prune · (removeSortedPath path)) index

/-- The inner loop of `build_reverse_index_from_files`. -/
def pushReferences (references : List ReferenceRecord)
    (index : Buckets String ReferenceLocation) : Buckets String ReferenceLocation :=
  references.zipIdx.foldl (fun index reference =>
    index.modify (· ++ [⟨path, reference.2⟩]) reference.1.name) index

/-- The locations in a file dropped from the lists of the names. -/
def dropReferences (names : List String)
    (index : Buckets String ReferenceLocation) : Buckets String ReferenceLocation :=
  names.foldl (Buckets.prune · (·.filter fun location => location.filePath ≠ path)) index

variable (files : Rows)

/-- `store::build_reverse_index_from_files`. -/
def buildReverseIndexFromFiles : Buckets String ReferenceLocation :=
  files.entries.foldl (fun index row => pushReferences row.1 row.2.references index) fun _ => none

/-- One of the two maps of `build_path_indices_from_files`. -/
def buildPathIndex (keys : String → List String) (files : Rows) : Buckets String String :=
  files.entries.foldl (fun index row => insertUnderKeys (keys row.1) row.1 index) fun _ => none

/-- `store::build_path_indices_from_files`. -/
def buildPathIndicesFromFiles : Buckets String String × Buckets String String :=
  (buildPathIndex (fun path => (basenameKey path).toList) files,
    buildPathIndex dirComponentKeys files)

/-- The contents that the trigram index is built from. -/
def Rows.contents : Index.FileContents :=
  ⟨files.entries.map fun row => ⟨row.1, row.2.content⟩, by
    have same : (files.entries.map fun row =>
        (⟨row.1, row.2.content⟩ : Sigma fun _ : String => Bytes)).keys = files.entries.keys := by
      simp [List.keys, Function.comp_def]
    rw [List.NodupKeys, same]
    exact files.nodupKeys⟩

namespace LiveIndex

variable (index : LiveIndex)

/-- The four indices rebuilt from the rows, as `DerivedIndices::build_from_files` does it. -/
def rebuildDerived : LiveIndex :=
  let (byBasename, byDirComponent) := buildPathIndicesFromFiles index.files
  { index with
    reverseIndex := buildReverseIndexFromFiles index.files
    filesByBasename := byBasename
    filesByDirComponent := byDirComponent
    trigramIndex := .buildFromFiles index.files.contents }

variable (path : String)

/-- `LiveIndex::release_unverified`. -/
def releaseUnverified : Bool × LiveIndex :=
  match index.snapshotVerifyState with
  | .completed report =>
    let (released, report) := report.dropUnverified path
    (released, { index with snapshotVerifyState := .completed report })
  | _ => (false, index)

variable (env : Environment)

/-- `LiveIndex::sort_manifest_entries`. -/
def sortManifestEntries (index : LiveIndex) : LiveIndex :=
  { index with
    manifestEntries := sortByKey (fun entry : CatalogEntry =>
      let path := scoutedCatalogPath entry.path
      toLex (env.toLowercase path, path)) index.manifestEntries }

/-- `LiveIndex::upsert_manifest_entry`. -/
def upsertManifestEntry (index : LiveIndex) (entry : CatalogEntry) : LiveIndex :=
  sortManifestEntries env { index with
    manifestEntries := index.manifestEntries.filter (fun existing =>
      scoutedCatalogPath existing.path ≠ scoutedCatalogPath entry.path) ++ [entry] }

/-- `LiveIndex::remove_manifest_entry`. -/
def removeManifestEntry : Bool × LiveIndex :=
  let kept := index.manifestEntries.filter fun entry => scoutedCatalogPath entry.path ≠ path
  (kept.length != index.manifestEntries.length, { index with manifestEntries := kept })

/-- `LiveIndex::derived_manifest_entry`. -/
def derivedManifestEntry (file : IndexedFile) : CatalogEntry :=
  let routed : IndexTargets := if isCodeLanguage file.language then .code else .knowledge
  let known := index.manifestEntries.find? fun entry => scoutedCatalogPath entry.path == path
  let (catalogPath, targets) : CatalogPath × IndexTargets := match known with
    | some entry => match entry.disposition with
      | .indexed targets _ => (entry.path, targets)
      | _ => (entry.path, routed)
    | none => (⟨path, some path⟩, routed)
  { path := catalogPath
    size := file.byteLen
    language := some file.language
    classification := file.classification
    disposition := .indexed targets file.parseStatus.aggregate
    contentHash := some file.contentHash }

/-- `LiveIndex::insert_path_indices_for_path`. -/
def insertPathIndicesForPath : LiveIndex :=
  { index with
    filesByBasename := insertUnderKeys (basenameKey path).toList path index.filesByBasename
    filesByDirComponent := insertUnderKeys (dirComponentKeys path) path index.filesByDirComponent }

/-- `LiveIndex::remove_path_indices_for_path`. -/
def removePathIndicesForPath : LiveIndex :=
  { index with
    filesByBasename := removeUnderKeys (basenameKey path).toList path index.filesByBasename
    filesByDirComponent := removeUnderKeys (dirComponentKeys path) path index.filesByDirComponent }

/-- `LiveIndex::remove_reverse_index_for_path`, before the row is removed. -/
def removeReverseIndexForPath : LiveIndex :=
  match index.files.lookup path with
  | some file => { index with
      reverseIndex := dropReferences path (file.references.map (·.name)) index.reverseIndex }
  | none => index

/-- `LiveIndex::insert_reverse_index_for_path`, after the row is inserted. -/
def insertReverseIndexForPath : LiveIndex :=
  match index.files.lookup path with
  | some file => { index with
      reverseIndex := pushReferences path file.references index.reverseIndex }
  | none => index

/-- The row put in place and its catalog entry with it, before the derived indices follow. -/
def insertRow (index : LiveIndex) (path : String) (file : IndexedFile)
    (manifest : Bool) : LiveIndex :=
  let inserted := { index with files := index.files.insert path file }
  if manifest then inserted.upsertManifestEntry env (index.derivedManifestEntry path file)
  else inserted

/-- The old row's entries in the reverse and path indices cleaned up, from the state captured
before. -/
def cleanUpOldRow (oldRow : Option IndexedFile) : LiveIndex :=
  let oldRefNames := (oldRow.map fun file => file.references.map (·.name)).getD []
  let hadExisting := !oldRefNames.isEmpty || oldRow.isSome
  let index := if hadExisting then index.removePathIndicesForPath path else index
  { index with reverseIndex := dropReferences path oldRefNames index.reverseIndex }

/-- `LiveIndex::update_file_with_manifest`. -/
def updateFileWithManifest (index : LiveIndex) (path : String)
    (file : IndexedFile) (manifest : Bool) : LiveIndex :=
  let index := (index.releaseUnverified path).2
  let oldRow := index.files.lookup path
  let index := (index.insertRow env path file manifest).cleanUpOldRow path oldRow
  let index := { index with
    trigramIndex := index.trigramIndex.updateFile path
      (oldRow.map fun row : IndexedFile => row.content) file.content }
  let index := (index.insertReverseIndexForPath path).insertPathIndicesForPath path
  { index with isEmpty := false }

/-- `LiveIndex::update_file`. -/
def updateFile (index : LiveIndex) (path : String) (file : IndexedFile) : LiveIndex :=
  index.updateFileWithManifest env path file true

/-- `LiveIndex::add_file`. -/
def addFile (index : LiveIndex) (path : String) (file : IndexedFile) : LiveIndex :=
  index.updateFile env path file

/-- `LiveIndex::remove_row`. -/
def removeRow : Bool × LiveIndex :=
  let index := index.removeReverseIndexForPath path
  match index.files.lookup path with
  | none => (false, index)
  | some row =>
    (true, { index with
      files := index.files.erase path
      trigramIndex := index.trigramIndex.removeFile path (some row.content)
      }.removePathIndicesForPath path)

/-- `LiveIndex::remove_file`. -/
def removeFile : Bool × LiveIndex :=
  let (released, index) := index.releaseUnverified path
  let (removedFile, index) := index.removeRow path
  let (removedManifest, index) := index.removeManifestEntry path
  (released || removedFile || removedManifest, index)

end LiveIndex

end Symforge.Store
