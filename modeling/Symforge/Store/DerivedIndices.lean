import Symforge.Index.TrigramAgreement
import Symforge.Store.LiveIndex

/-!
# Derived indices match the rows

Each of the four indices inverts a relation that the rows alone determine: a name and a place that
refers to it, a key and a path that has it, a trigram and a path whose content holds it. A build has
that relation and every single-file mutation keeps it, so the patched indices are those of a
rebuild, whatever order the rebuild iterates the rows in.
-/

namespace Symforge.Store

open Library Buckets List AList Function

/-- A place in the references of one file, and the name it refers to. -/
def Referring (path : String) (references : List ReferenceRecord) (name : String)
    (location : ReferenceLocation) : Prop :=
  location.filePath = path ∧
    ∃ reference, references[location.referenceIdx]? = some reference ∧ reference.name = name

/-- What the reverse index of the rows holds. -/
def Refers (files : Rows) (name : String) (location : ReferenceLocation) : Prop :=
  ∃ file, files.lookup location.filePath = some file ∧
    Referring location.filePath file.references name location

/-- What a path index of the rows holds. -/
def Keyed (keys : String → List String) (files : Rows) (key path : String) : Prop :=
  key ∈ keys path ∧ (files.lookup path).isSome

/-- The key of the basename index, as a list. -/
def basenameKeys (path : String) : List String := (basenameKey path).toList

/-- The contents by path. -/
def contentAt (files : Rows) (path : String) : Option Bytes :=
  (files.lookup path).map fun file => file.content

section Reverse

variable {index : Buckets String ReferenceLocation}
  {relation : String → ReferenceLocation → Prop} {path : String}

/-- The last reference of a file adds its place. -/
theorem referring_concat {before : List ReferenceRecord} {last : ReferenceRecord} {name : String}
    {location : ReferenceLocation} :
    Referring path (before ++ [last]) name location ↔
      (name = last.name ∧ location = ⟨path, before.length⟩) ∨
        Referring path before name location := by
  obtain ⟨file, position⟩ := location
  simp only [Referring, ReferenceLocation.mk.injEq]
  rcases Nat.lt_trichotomy position before.length with below | rfl | above
  · rw [getElem?_append_left below]
    simp [Nat.ne_of_lt below]
  · rw [getElem?_concat_length, getElem?_eq_none le_rfl]
    simp [and_comm, eq_comm]
  have beyond : before.length + 1 ≤ position := above
  rw [getElem?_eq_none (by simpa using beyond), getElem?_eq_none above.le]
  simp [Nat.ne_of_gt above]

/-- A file that the index does not name yet enters it with all its references. -/
theorem pushReferences_inverts (references : List ReferenceRecord)
    (inverts : Inverts List.Nodup index relation)
    (unnamed : ∀ name location, relation name location → location.filePath ≠ path) :
    Inverts List.Nodup (pushReferences path references index) fun name location =>
      Referring path references name location ∨ relation name location := by
  induction references using reverseRecOn with
  | nil => exact inverts.congr fun name location => by simp [Referring]
  | append_singleton before last ih =>
    -- the places before this one are below its position, and the rest are in other files
    have absent : (⟨path, before.length⟩ : ReferenceLocation) ∉
        (pushReferences path before index).bucket last.name := by
      intro present
      rcases (ih.mem _ _).mp present with ⟨-, reference, found, -⟩ | relates
      · rw [getElem?_eq_none le_rfl] at found
        cases found
      · exact unnamed _ _ relates rfl
    have distinct := (ih.shape last.name).concat absent
    rw [concat_eq_append] at distinct
    have unfolded : pushReferences path (before ++ [last]) index =
        (pushReferences path before index).modify (· ++ [⟨path, before.length⟩]) last.name := by
      simp [pushReferences, zipIdx_append]
    rw [unfolded]
    refine (ih.modify distinct fun entry =>
      (mem_append.trans (or_congr_right mem_singleton)).trans or_comm).congr ?_
    intro name location
    rw [referring_concat, or_assoc]

/-- The names of a file lose its places. -/
theorem dropReferences_inverts (names : List String) (inverts : Inverts List.Nodup index relation) :
    Inverts List.Nodup (dropReferences path names index) fun name location =>
      ¬ (name ∈ names ∧ location.filePath = path) ∧ relation name location := by
  refine inverts.foldl_prune _ filter_nil ?_ ?_
  · intro list distinct
    exact distinct.filter _
  · intro list distinct location
    simp [and_comm]

end Reverse

section Paths

variable {index : Buckets String String} {relation : String → String → Prop} {path : String}

/-- A path inserted under its keys is found under them. -/
theorem insertUnderKeys_inverts (keys : List String)
    (inverts : Inverts (List.Pairwise (· < ·)) index relation) :
    Inverts (List.Pairwise (· < ·)) (insertUnderKeys keys path index) fun key found =>
      (key ∈ keys ∧ found = path) ∨ relation key found :=
  inverts.foldl_modify _ (fun _ sorted => insertSorted_sorted sorted)
    fun _ sorted _ => mem_insertSorted sorted

/-- A path removed from its keys is no longer found there. -/
theorem removeUnderKeys_inverts (keys : List String)
    (inverts : Inverts (List.Pairwise (· < ·)) index relation) :
    Inverts (List.Pairwise (· < ·)) (removeUnderKeys keys path index) fun key found =>
      ¬ (key ∈ keys ∧ found = path) ∧ relation key found := by
  refine inverts.foldl_prune _ rfl (fun _ sorted => removeSorted_sorted sorted) ?_
  intro list sorted found
  exact (mem_removeSorted sorted).trans and_comm

end Paths

section Builds

variable {files : Rows}

/-- A path has a row if one is listed. -/
theorem lookup_isSome_iff {path : String} :
    (files.lookup path).isSome ↔ ∃ row ∈ files.entries, row.1 = path := by
  rw [AList.lookup_isSome, AList.mem_keys]
  simp [AList.keys, List.keys]

/-- The reverse index of a list of rows, the last of which are pushed last. -/
theorem foldl_pushReferences (rows : List (Sigma fun _ : String => IndexedFile))
    (distinct : (rows.map Sigma.fst).Nodup) :
    Inverts List.Nodup (rows.foldl (fun index row =>
        pushReferences row.1 row.2.references index) fun _ => none)
      fun name location => ∃ row ∈ rows, Referring row.1 row.2.references name location := by
  induction rows using reverseRecOn with
  | nil => exact (empty_inverts nodup_nil).congr fun name location => by simp
  | append_singleton before last ih =>
    rw [map_append, map_singleton] at distinct
    obtain ⟨distinctBefore, -, apart⟩ := nodup_append.mp distinct
    rw [foldl_append, foldl_cons, foldl_nil]
    refine (pushReferences_inverts last.2.references (ih distinctBefore) ?_).congr
      fun name location => ?_
    · rintro name location ⟨row, member, here, -⟩ same
      refine apart row.1 (mem_map_of_mem member) last.1 (mem_singleton_self _) ?_
      rw [← here, same]
    · simp [mem_append, or_and_right, exists_or, or_comm]

/-- The built reverse index has the references of the rows. -/
theorem buildReverseIndexFromFiles_inverts :
    Inverts List.Nodup (buildReverseIndexFromFiles files) (Refers files) := by
  refine (foldl_pushReferences files.entries files.nodupKeys).congr fun name location => ?_
  constructor
  · rintro ⟨⟨path, file⟩, member, here, refers⟩
    cases here
    exact ⟨_, mem_lookup_iff.mpr member, rfl, refers⟩
  · rintro ⟨file, found, refers⟩
    exact ⟨⟨location.filePath, _⟩, mem_lookup_iff.mp found, refers⟩

/-- A built path index has the rows under their keys. -/
theorem buildPathIndex_inverts (keys : String → List String) :
    Inverts (List.Pairwise (· < ·)) (buildPathIndex keys files) (Keyed keys files) := by
  have folded : ∀ rows : List (Sigma fun _ : String => IndexedFile),
      Inverts (List.Pairwise (· < ·)) (rows.foldl (fun index row =>
          insertUnderKeys (keys row.1) row.1 index) fun _ => none)
        fun key path => key ∈ keys path ∧ ∃ row ∈ rows, row.1 = path := by
    intro rows
    induction rows using reverseRecOn with
    | nil => exact (empty_inverts List.Pairwise.nil).congr fun key path => by simp
    | append_singleton before last ih =>
      rw [foldl_append, foldl_cons, foldl_nil]
      refine (insertUnderKeys_inverts (keys last.1) ih).congr fun key path => ?_
      simp only [mem_append, mem_singleton]
      constructor
      · rintro (⟨keyed, rfl⟩ | ⟨keyed, row, member, here⟩)
        · exact ⟨keyed, _, .inr rfl, rfl⟩
        · exact ⟨keyed, _, .inl member, here⟩
      · rintro ⟨keyed, row, member | rfl, here⟩
        · exact .inr ⟨keyed, _, member, here⟩
        subst here
        exact .inl ⟨keyed, rfl⟩
  refine (folded files.entries).congr fun key path => ?_
  rw [Keyed, lookup_isSome_iff]

/-- The trigram index sees the contents of the rows. -/
theorem contents_lookup (files : Rows) : files.contents.lookup = contentAt files := by
  funext path
  apply Option.ext
  intro content
  unfold contentAt
  rw [← Option.mem_def, mem_lookup_iff, Option.map_eq_some_iff]
  constructor
  · intro member
    obtain ⟨⟨other, file⟩, listed, same⟩ := mem_map.mp member
    cases same
    exact ⟨_, mem_lookup_iff.mpr listed, rfl⟩
  · rintro ⟨file, found, rfl⟩
    exact mem_map_of_mem (mem_lookup_iff.mp found)

end Builds

section Mutations

variable {files : Rows} {path : String} {file : IndexedFile}
  {references : Buckets String ReferenceLocation} {paths : Buckets String String}
  {keys : String → List String}

section Rows

variable {names : List String} (inverts : Inverts List.Nodup references (Refers files))
  (covers : ∀ row, files.lookup path = some row → ∀ reference ∈ row.references,
    reference.name ∈ names)

include inverts covers

/-- Dropping the names of a row drops every place in it. -/
theorem dropRow_inverts :
    Inverts List.Nodup (dropReferences path names references) fun name location =>
      location.filePath ≠ path ∧ Refers files name location := by
  refine (dropReferences_inverts _ inverts).congr fun name location => ?_
  constructor
  · rintro ⟨kept, refers⟩
    refine ⟨?_, refers⟩
    rintro here
    obtain ⟨row, found, -, reference, held, rfl⟩ := refers
    rw [here] at found
    exact kept ⟨covers _ found _ (mem_of_getElem? held), here⟩
  · rintro ⟨elsewhere, refers⟩
    exact ⟨fun both => elsewhere both.2, refers⟩

/-- The places of the replaced row go, those of the new row come. -/
theorem replaceRow_inverts :
    Inverts List.Nodup
      (pushReferences path file.references (dropReferences path names references))
      (Refers (files.insert path file)) := by
  refine (pushReferences_inverts file.references (dropRow_inverts inverts covers)
    fun _ _ both => both.1).congr fun name location => ?_
  constructor
  · rintro (⟨here, refers⟩ | ⟨elsewhere, row, found, refers⟩)
    · exact ⟨_, Table.lookup_insert_iff.mpr (.inl ⟨here, rfl⟩), rfl, refers⟩
    · exact ⟨_, Table.lookup_insert_iff.mpr (.inr ⟨elsewhere, found⟩), refers⟩
  · rintro ⟨row, found, -, refers⟩
    rcases Table.lookup_insert_iff.mp found with ⟨here, rfl⟩ | ⟨elsewhere, before⟩
    · exact .inl ⟨here, refers⟩
    · exact .inr ⟨elsewhere, row, before, rfl, refers⟩

/-- The references of an erased row are dropped. -/
theorem eraseRow_inverts :
    Inverts List.Nodup (dropReferences path names references) (Refers (files.erase path)) := by
  refine (dropRow_inverts inverts covers).congr fun name location => ?_
  constructor
  · rintro ⟨elsewhere, row, found, refers⟩
    exact ⟨_, Table.lookup_erase_iff.mpr ⟨elsewhere, found⟩, refers⟩
  · rintro ⟨row, found, refers⟩
    obtain ⟨elsewhere, before⟩ := Table.lookup_erase_iff.mp found
    exact ⟨elsewhere, _, before, refers⟩

end Rows

/-- A new row adds its own keys. -/
theorem keyed_insert {key found : String} :
    Keyed keys (files.insert path file) key found ↔
      (key ∈ keys path ∧ found = path) ∨ Keyed keys files key found := by
  unfold Keyed
  by_cases same : found = path
  · subst same
    simp only [lookup_insert, Option.isSome_some, and_true]
    tauto
  · simp [lookup_insert_ne same, same, and_false, false_or]

/-- An erased row takes its own keys. -/
theorem keyed_erase {key found : String} :
    Keyed keys (files.erase path) key found ↔
      ¬ (key ∈ keys path ∧ found = path) ∧ Keyed keys files key found := by
  unfold Keyed
  by_cases same : found = path
  · subst same
    simp only [lookup_erase, Option.isSome_none, Bool.false_eq_true, and_false, and_true, false_iff]
    tauto
  · simp [lookup_erase_ne same, same, and_false, not_false_eq_true, true_and]

/-- A path taken out before it is entered, or not. -/
theorem reinsertPath_inverts (existing : Bool)
    (inverts : Inverts (List.Pairwise (· < ·)) paths (Keyed keys files)) :
    Inverts (List.Pairwise (· < ·))
      (insertUnderKeys (keys path) path
        (if existing then removeUnderKeys (keys path) path paths else paths))
      (Keyed keys (files.insert path file)) := by
  cases existing with
  | false =>
    refine (insertUnderKeys_inverts (keys path) inverts).congr fun key found => ?_
    exact keyed_insert.symm
  | true =>
    refine (insertUnderKeys_inverts (keys path) (removeUnderKeys_inverts (keys path)
      inverts)).congr fun key found => ?_
    rw [keyed_insert]
    tauto

/-- A removed path leaves the path index right. -/
theorem removePath_inverts (inverts : Inverts (List.Pairwise (· < ·)) paths (Keyed keys files)) :
    Inverts (List.Pairwise (· < ·)) (removeUnderKeys (keys path) path paths)
      (Keyed keys (files.erase path)) :=
  (removeUnderKeys_inverts (keys path) inverts).congr fun _ _ => keyed_erase.symm

/-- A new row adds its content. -/
theorem contentAt_insert :
    contentAt (files.insert path file) =
      update (contentAt files) path (some file.content) := by
  unfold contentAt
  simp only [Table.lookup_insert]
  exact comp_update (Option.map fun file : IndexedFile => file.content) _ _
    (some file)

/-- An erased row takes its content. -/
theorem contentAt_erase :
    contentAt (files.erase path) = update (contentAt files) path none := by
  unfold contentAt
  simp only [Table.lookup_erase]
  exact comp_update (Option.map fun file : IndexedFile => file.content) _ _ none

end Mutations

namespace LiveIndex

/-- The four indices are those of the rows. -/
structure Derived (index : LiveIndex) : Prop where
  references : Inverts List.Nodup index.reverseIndex (Refers index.files)
  basenames : Inverts (List.Pairwise (· < ·)) index.filesByBasename
    (Keyed basenameKeys index.files)
  dirComponents : Inverts (List.Pairwise (· < ·)) index.filesByDirComponent
    (Keyed dirComponentKeys index.files)
  trigrams : index.trigramIndex.Represents (contentAt index.files)

/-- The two have the same rows and the same derived indices. -/
def SameRows (index other : LiveIndex) : Prop :=
  index.files = other.files ∧ index.reverseIndex = other.reverseIndex ∧
    index.filesByBasename = other.filesByBasename ∧
    index.filesByDirComponent = other.filesByDirComponent ∧
    index.trigramIndex = other.trigramIndex

variable {index other : LiveIndex}

/-- Only the rows and the derived indices matter. -/
theorem Derived.congr (derived : index.Derived) (same : other.SameRows index) : other.Derived := by
  obtain ⟨files, references, basenames, dirComponents, trigrams⟩ := same
  refine ⟨?_, ?_, ?_, ?_⟩
  · rw [references, files]
    exact derived.references
  · rw [basenames, files]
    exact derived.basenames
  · rw [dirComponents, files]
    exact derived.dirComponents
  · rw [trigrams, files]
    exact derived.trigrams

/-- Rebuilt indices are derived from the rows. -/
theorem rebuildDerived_derived (index : LiveIndex) : index.rebuildDerived.Derived where
  references := buildReverseIndexFromFiles_inverts
  basenames := buildPathIndex_inverts basenameKeys
  dirComponents := buildPathIndex_inverts _
  trigrams := contents_lookup index.files ▸
    Index.TrigramIndex.buildFromFiles_represents index.files.contents

/-- Releasing a restored row changes no row. -/
theorem releaseUnverified_same (index : LiveIndex) (path : String) :
    (index.releaseUnverified path).2.SameRows index := by
  unfold releaseUnverified
  split <;> exact ⟨rfl, rfl, rfl, rfl, rfl⟩

/-- Removing a catalog entry changes no row. -/
theorem removeManifestEntry_same (path : String) :
    (index.removeManifestEntry path).2.SameRows index :=
  ⟨rfl, rfl, rfl, rfl, rfl⟩

section Update

variable (env : Environment) (index : LiveIndex) (path : String) (file : IndexedFile)
  (manifest : Bool)

/-- The row is put in place and nothing derived has followed yet. -/
theorem insertRow_same : (index.insertRow env path file manifest).SameRows
    { index with files := index.files.insert path file } := by
  unfold insertRow
  cases manifest <;> exact ⟨rfl, rfl, rfl, rfl, rfl⟩

/-- A path had a row exactly when its indices are cleaned up. -/
theorem cleanUpOldRow_eq (oldRow : Option IndexedFile) :
    index.cleanUpOldRow path oldRow = { index with
      reverseIndex := dropReferences path
        ((oldRow.map fun row => row.references.map (·.name)).getD []) index.reverseIndex
      filesByBasename := if oldRow.isSome then
          removeUnderKeys (basenameKeys path) path index.filesByBasename
        else index.filesByBasename
      filesByDirComponent := if oldRow.isSome then
          removeUnderKeys (dirComponentKeys path) path index.filesByDirComponent
        else index.filesByDirComponent } := by
  cases oldRow with
  | none => rfl
  | some row => simp [cleanUpOldRow, removePathIndicesForPath, basenameKeys]

/-- The names that the old row referred to. -/
def oldRefNames : List String :=
  ((index.files.lookup path).map fun row => row.references.map (·.name)).getD []

/-- The names to clean up cover the old row's references. -/
theorem oldRefNames_covers {row : IndexedFile} (found : index.files.lookup path = some row) :
    ∀ reference ∈ row.references, reference.name ∈ index.oldRefNames path := by
  intro reference member
  rw [oldRefNames, found]
  exact mem_map_of_mem member

/-- What an update makes of the rows and of each index. -/
theorem updateFileWithManifest_parts :
    (index.updateFileWithManifest env path file manifest).SameRows { index with
      files := index.files.insert path file
      reverseIndex := pushReferences path file.references
        (dropReferences path (index.oldRefNames path) index.reverseIndex)
      filesByBasename := insertUnderKeys (basenameKeys path) path
        (if (index.files.lookup path).isSome then
          removeUnderKeys (basenameKeys path) path index.filesByBasename
        else index.filesByBasename)
      filesByDirComponent := insertUnderKeys (dirComponentKeys path) path
        (if (index.files.lookup path).isSome then
          removeUnderKeys (dirComponentKeys path) path index.filesByDirComponent
        else index.filesByDirComponent)
      trigramIndex := index.trigramIndex.updateFile path
        ((index.files.lookup path).map fun row : IndexedFile => row.content) file.content } := by
  obtain ⟨files, references, basenames, dirComponents, trigrams⟩ := index.releaseUnverified_same _
  obtain ⟨filesIn, referencesIn, basenamesIn, dirComponentsIn, trigramsIn⟩ :=
    (index.releaseUnverified path).2.insertRow_same _ _ _ _
  unfold updateFileWithManifest
  dsimp only
  rw [cleanUpOldRow_eq]
  unfold insertReverseIndexForPath insertPathIndicesForPath
  dsimp only
  rw [filesIn, lookup_insert, referencesIn, basenamesIn, dirComponentsIn, trigramsIn, files,
    references, basenames, dirComponents, trigrams]
  exact ⟨rfl, rfl, rfl, rfl, rfl⟩

/-- An update keeps the indices derived. -/
theorem updateFileWithManifest_derived (derived : index.Derived) :
    (index.updateFileWithManifest env path file manifest).Derived := by
  refine Derived.congr ?_ (index.updateFileWithManifest_parts _ _ _ _)
  refine ⟨?_, ?_, ?_, ?_⟩
  · exact replaceRow_inverts derived.references fun _ found => index.oldRefNames_covers _ found
  · exact reinsertPath_inverts _ derived.basenames
  · exact reinsertPath_inverts _ derived.dirComponents
  rw [contentAt_insert]
  refine derived.trigrams.updateFile ?_
  intro given current passed stored
  exact Option.some.inj (passed.symm.trans stored)

end Update

section Remove

variable (index : LiveIndex) (path : String)

/-- What the removal of a row makes of the rows and of each index. -/
theorem removeRow_parts {row : IndexedFile} (found : index.files.lookup path = some row) :
    (index.removeRow path).2.SameRows { index with
      files := index.files.erase path
      reverseIndex := dropReferences path (index.oldRefNames path) index.reverseIndex
      filesByBasename := removeUnderKeys (basenameKeys path) path index.filesByBasename
      filesByDirComponent := removeUnderKeys (dirComponentKeys path) path
        index.filesByDirComponent
      trigramIndex := index.trigramIndex.removeFile path (some row.content) } := by
  unfold removeRow removeReverseIndexForPath oldRefNames
  simp only [found]
  exact ⟨rfl, rfl, rfl, rfl, rfl⟩

/-- There is nothing to remove without a row. -/
theorem removeRow_absent (absent : index.files.lookup path = none) :
    index.removeRow path = (false, index) := by
  unfold removeRow removeReverseIndexForPath
  simp [absent]

/-- Removing a row keeps the indices derived. -/
theorem removeRow_derived (derived : index.Derived) : (index.removeRow path).2.Derived := by
  cases found : index.files.lookup path with
  | none =>
    rw [removeRow_absent _ _ found]
    exact derived
  | some row =>
    refine Derived.congr ?_ (index.removeRow_parts _ found)
    refine ⟨?_, ?_, ?_, ?_⟩
    · exact eraseRow_inverts derived.references fun _ held => index.oldRefNames_covers _ held
    · exact removePath_inverts derived.basenames
    · exact removePath_inverts derived.dirComponents
    rw [contentAt_erase]
    show (index.trigramIndex.removeFile path (some row.content)).Represents _
    refine derived.trigrams.removeFile ?_
    intro given current passed stored
    rw [contentAt, found] at stored
    exact Option.some.inj (passed.symm.trans stored)

/-- So does removing a file. -/
theorem removeFile_derived (derived : index.Derived) : (index.removeFile path).2.Derived := by
  have released := derived.congr (index.releaseUnverified_same path)
  have removed := removeRow_derived _ path released
  exact removed.congr (removeManifestEntry_same path)

end Remove

/-- A single-file mutation of the index. -/
inductive FileChange where
  | update (path : String) (file : IndexedFile)
  | add (path : String) (file : IndexedFile)
  | remove (path : String)
  | removeRow (path : String)

variable (env : Environment)

/-- The index after a mutation. -/
def change (index : LiveIndex) : FileChange → LiveIndex
  | .update path file => index.updateFile env path file
  | .add path file => index.addFile env path file
  | .remove path => (index.removeFile path).2
  | .removeRow path => (index.removeRow path).2

/-- Every change keeps the indices derived. -/
theorem change_derived (index : LiveIndex) (change : FileChange)
    (derived : index.Derived) : (index.change env change).Derived := by
  cases change with
  | update path file | add path file =>
    exact index.updateFileWithManifest_derived _ _ _ true derived
  | remove path => exact index.removeFile_derived _ derived
  | removeRow path => exact index.removeRow_derived _ derived

/-- So does every sequence of changes. -/
theorem changes_derived (changes : List FileChange) (index : LiveIndex)
    (derived : index.Derived) : (changes.foldl (change env) index).Derived := by
  induction changes generalizing index with
  | nil => exact derived
  | cons first rest ih => exact ih _ (index.change_derived _ _ derived)

/-- The derived indices of two rebuilds, or of a patched and a rebuilt index, are the same. -/
structure SameDerived (index other : LiveIndex) : Prop where
  /-- The same locations under every name, in any order. -/
  references : ∀ name, (index.reverseIndex.bucket name).Perm (other.reverseIndex.bucket name)
  names : ∀ name, index.reverseIndex name = none ↔ other.reverseIndex name = none
  basenames : index.filesByBasename = other.filesByBasename
  dirComponents : index.filesByDirComponent = other.filesByDirComponent
  /-- The same paths under every trigram, whatever their ids. -/
  trigrams : ∀ trigram path,
    index.trigramIndex.Relates trigram path ↔ other.trigramIndex.Relates trigram path
  keys : ∀ trigram, index.trigramIndex.map trigram = none ↔ other.trigramIndex.map trigram = none
  tracked : ∀ path,
    index.trigramIndex.pathToId path = none ↔ other.trigramIndex.pathToId path = none

/-- No list of an index is empty. -/
def NoEmptyBuckets (index : LiveIndex) : Prop :=
  (∀ name, index.reverseIndex name ≠ some []) ∧ (∀ key, index.filesByBasename key ≠ some []) ∧
    (∀ key, index.filesByDirComponent key ≠ some []) ∧
    ∀ trigram, index.trigramIndex.map trigram ≠ some []

/-- Every path that an index names has a row. -/
structure NamesRows (index : LiveIndex) : Prop where
  references : ∀ name, ∀ location ∈ index.reverseIndex.bucket name, location.filePath ∈ index.files
  basenames : ∀ key, ∀ path ∈ index.filesByBasename.bucket key, path ∈ index.files
  dirComponents : ∀ key, ∀ path ∈ index.filesByDirComponent.bucket key, path ∈ index.files
  trigrams : ∀ trigram id, index.trigramIndex.Posted trigram id →
    ∃ path ∈ index.files, index.trigramIndex.idToPath id = some path
  tracked : ∀ path id, index.trigramIndex.pathToId path = some id → path ∈ index.files

/-- A file is in the index if it has a row. -/
theorem mem_files_iff {path : String} : path ∈ index.files ↔ (index.files.lookup path).isSome :=
  lookup_isSome.symm

section
variable (derived : index.Derived)
include derived

/-- Derived indices have no empty bucket. -/
theorem Derived.noEmptyBuckets : index.NoEmptyBuckets :=
  ⟨derived.references.nonempty, derived.basenames.nonempty, derived.dirComponents.nonempty,
    fun _ empty => (derived.trigrams.lists _ [] empty).1 rfl⟩

/-- A path of the trigram index has a row. -/
theorem Derived.content_isSome {path : String} {id : Nat}
    (known : index.trigramIndex.pathToId path = some id) : path ∈ index.files := by
  rw [mem_files_iff]
  have tracked : contentAt index.files path ≠ none := by
    rw [Ne, ← derived.trigrams.tracked _, known]
    nofun
  unfold contentAt at tracked
  cases found : index.files.lookup path with
  | none =>
    rw [found] at tracked
    exact absurd rfl tracked
  | some file => rfl

/-- Derived indices name paths with a row only. -/
theorem Derived.namesRows : index.NamesRows where
  references := by
    intro name location member
    obtain ⟨file, found, -⟩ := (derived.references.mem _ _).mp member
    rw [mem_files_iff, found]
    rfl
  basenames key path member := mem_files_iff.mpr ((derived.basenames.mem _ _).mp member).2
  dirComponents key path member := mem_files_iff.mpr ((derived.dirComponents.mem _ _).mp member).2
  trigrams := by
    intro trigram id posted
    obtain ⟨path, content, known, -⟩ := (derived.trigrams.posted _ _).mp posted
    exact ⟨_, derived.content_isSome ((derived.trigrams.inverse _ _).mpr known), known⟩
  tracked _ _ known := derived.content_isSome known

/-- A trigram has no list exactly when no content holds it. -/
theorem Derived.map_eq_none_iff {trigram : Index.Trigram} :
    index.trigramIndex.map trigram = none ↔
      ∀ path, ¬ index.trigramIndex.Relates trigram path := by
  constructor
  · rintro absent path ⟨id, ⟨list, present, -⟩, -⟩
    rw [absent] at present
    cases present
  · intro unrelated
    cases here : index.trigramIndex.map trigram with
    | none => rfl
    | some list =>
      obtain ⟨id, member⟩ := exists_mem_of_ne_nil _
        (derived.trigrams.lists _ _ here).1
      have posted : index.trigramIndex.Posted trigram id := ⟨list, here, member⟩
      obtain ⟨path, content, known, -⟩ := (derived.trigrams.posted _ _).mp posted
      exact absurd ⟨id, posted, known⟩ (unrelated _)

/-- The rows determine the derived indices. -/
theorem Derived.sameDerived (rebuilt : other.Derived)
    (same : ∀ path, other.files.lookup path = index.files.lookup path) :
    index.SameDerived other := by
  have sameKeyed : ∀ keys, Keyed keys other.files = Keyed keys index.files := by
    intro keys
    funext key path
    rw [Keyed, Keyed, same]
  have sameContents : contentAt other.files = contentAt index.files := by
    funext path
    rw [contentAt, contentAt, same]
  have related trigram path :
      index.trigramIndex.Relates trigram path ↔ other.trigramIndex.Relates trigram path := by
    rw [derived.trigrams.relates_iff, rebuilt.trigrams.relates_iff, sameContents]
  have members name location : location ∈ index.reverseIndex.bucket name ↔
      location ∈ other.reverseIndex.bucket name := by
    rw [derived.references.mem, rebuilt.references.mem, Refers, Refers, same]
  have permuted name :
      (index.reverseIndex.bucket name).Perm (other.reverseIndex.bucket name) :=
    (perm_ext_iff_of_nodup (derived.references.shape _)
      (rebuilt.references.shape _)).mpr (members _)
  have sorted : ∀ {left right : Buckets String String} {keys : String → List String},
      Inverts (List.Pairwise (· < ·)) left (Keyed keys index.files) →
      Inverts (List.Pairwise (· < ·)) right (Keyed keys other.files) → left = right := by
    intro left right keys leftInverts rightInverts
    funext key
    apply eq_of_bucket_eq (leftInverts.nonempty _) (rightInverts.nonempty _)
    refine (leftInverts.shape _).eq_of_mem_iff (rightInverts.shape _) fun path => ?_
    rw [leftInverts.mem, rightInverts.mem, sameKeyed _]
  refine ⟨permuted, ?_, sorted derived.basenames rebuilt.basenames,
    sorted derived.dirComponents rebuilt.dirComponents, related, ?_, ?_⟩
  · intro name
    rw [derived.references.eq_none_iff, rebuilt.references.eq_none_iff]
    constructor
    · intro empty
      exact (empty ▸ permuted _).nil_eq.symm
    · intro empty
      exact (empty ▸ permuted _).eq_nil
  · intro trigram
    rw [derived.map_eq_none_iff, rebuilt.map_eq_none_iff]
    simp [related]
  · intro path
    rw [derived.trigrams.tracked, rebuilt.trigrams.tracked, sameContents]

end

/-- After any sequence of single-file mutations of a rebuilt index, each derived index holds what a
rebuild of the resulting rows holds; no list is empty and no entry names a path without a row. -/
theorem derivedIndices_match (env : Environment) (start : LiveIndex) (changes : List FileChange) :
    let index := changes.foldl (change env) start.rebuildDerived
    (∀ rows : Rows, (∀ path, rows.lookup path = index.files.lookup path) →
      index.SameDerived { index with files := rows }.rebuildDerived) ∧
    index.NoEmptyBuckets ∧ index.NamesRows := by
  intro index
  have derived : index.Derived :=
    changes_derived _ _ start.rebuildDerived start.rebuildDerived_derived
  refine ⟨?_, derived.noEmptyBuckets, derived.namesRows⟩
  intro rows same
  exact derived.sameDerived (rebuildDerived_derived _) same

end LiveIndex

end Symforge.Store
