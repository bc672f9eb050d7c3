import Mathlib.Data.List.Induction
import Symforge.Index.Trigrams

/-!
# What a trigram index represents

The trigrams of the current content of every file it tracks, and nothing else. An update and a
removal keep that, whether they are given the indexed content or have to look everywhere, and a
build has it.
-/

namespace Symforge.Index

open Library List Function Sigma

namespace TrigramIndex

variable (index : TrigramIndex)

/-- The id is in the list of the trigram. -/
def Posted (trigram : Trigram) (id : Nat) : Prop :=
  ∃ list, index.map trigram = some list ∧ id ∈ list

/-- Every list is strictly increasing and holds something. -/
def ListsSorted : Prop :=
  ∀ trigram list, index.map trigram = some list → list ≠ [] ∧ list.Pairwise (· < ·)

/-- The two know the same files under the same ids. -/
def SameIds (index other : TrigramIndex) : Prop :=
  index.idToPath = other.idToPath ∧ index.pathToId = other.pathToId ∧
    index.nextId = other.nextId

/-- What an index of these files is. -/
structure Represents (index : TrigramIndex) (files : String → Option Bytes) : Prop where
  lists : index.ListsSorted
  inverse : ∀ path id, index.pathToId path = some id ↔ index.idToPath id = some path
  below : ∀ id path, index.idToPath id = some path → id < index.nextId
  tracked : ∀ path, index.pathToId path = none ↔ files path = none
  posted : ∀ trigram id, index.Posted trigram id ↔ ∃ path content,
    index.idToPath id = some path ∧ files path = some content ∧ trigram ∈ trigramsOf content

variable {index : TrigramIndex} {trigram other : Trigram} {id found : Nat}

/-- A missing list posts nothing. -/
theorem posted_of_getD : index.Posted trigram id ↔ id ∈ (index.map trigram).getD [] := by
  unfold Posted
  cases here : index.map trigram with
  | none => simp
  | some list => simp

/-- A list that gains one id. -/
theorem posted_modifyEntry {change : List Nat → List Nat}
    (gains : ∀ one, one ∈ change ((index.map trigram).getD []) ↔
      one = id ∨ one ∈ (index.map trigram).getD []) :
    (index.modifyEntry change trigram).Posted other found ↔
      (other = trigram ∧ found = id) ∨ index.Posted other found := by
  rw [posted_of_getD, posted_of_getD]
  by_cases same : other = trigram
  · subst same
    simp [modifyEntry, update_self, Option.getD_some, gains, true_and]
  · simp [modifyEntry, same, false_and, false_or]

/-- A missing list is sorted too. -/
theorem ListsSorted.getD (sorted : index.ListsSorted) (trigram : Trigram) :
    ((index.map trigram).getD []).Pairwise (· < ·) := by
  cases here : index.map trigram with
  | none => exact List.Pairwise.nil
  | some list => exact (sorted _ _ here).2

/-- An insertion posts one id. -/
theorem posted_insertId (sorted : index.ListsSorted) :
    (index.insertId id trigram).Posted other found ↔
      (other = trigram ∧ found = id) ∨ index.Posted other found :=
  posted_modifyEntry fun _ => mem_insertSorted (sorted.getD _)

/-- It keeps the lists sorted. -/
theorem insertId_sorted (sorted : index.ListsSorted) : (index.insertId id trigram).ListsSorted := by
  intro other list here
  rcases update_some_eq_some.mp here with ⟨-, rfl⟩ | ⟨-, before⟩
  · have member : id ∈ insertSorted ((index.map trigram).getD []) id :=
      (mem_insertSorted (sorted.getD _)).mpr (.inl rfl)
    exact ⟨ne_nil_of_mem member, insertSorted_sorted (sorted.getD _)⟩
  · exact sorted _ _ before

/-- A list that is dropped when nothing is left of it. -/
theorem getD_dropEmpty (list : List Nat) :
    (if list.isEmpty then none else some list).getD [] = list := by
  split
  · rename_i empty
    rw [isEmpty_iff.mp empty]
    rfl
  · rfl

/-- An emptied list is not kept. -/
theorem dropEmpty_eq_some {list kept : List Nat}
    (here : (if list.isEmpty then none else some list) = some kept) :
    kept = list ∧ list ≠ [] := by
  split at here
  · cases here
  rename_i nonempty
  cases here
  exact ⟨rfl, fun empty => nonempty (isEmpty_iff.mpr empty)⟩

/-- The removal of an id, whether it is found or not. -/
theorem posted_removeId (sorted : index.ListsSorted) :
    (index.removeId id trigram).Posted other found ↔
      ¬ (other = trigram ∧ found = id) ∧ index.Posted other found := by
  -- the list of the trigram loses the id, the others stay
  have loses : ((index.removeId id trigram).map other).getD [] =
      if other = trigram then removeSorted ((index.map other).getD []) id
      else (index.map other).getD [] := by
    unfold removeId
    by_cases same : other = trigram
    · subst same
      rw [if_pos rfl]
      cases here : index.map other with
      | none => rw [here]; rfl
      | some list =>
        unfold removeSorted
        dsimp only [Option.getD_some]
        cases search : binarySearch list id with
        | error position => rw [here]; rfl
        | ok position =>
          dsimp only
          rw [update_self, getD_dropEmpty]
    · rw [if_neg same]
      split
      · rfl
      split
      · rfl
      dsimp only
      rw [update_of_ne same]
  rw [posted_of_getD, posted_of_getD, loses]
  split
  · rename_i same
    rw [mem_removeSorted (sorted.getD _)]
    tauto
  · tauto

/-- Unchanged twice is unchanged. -/
theorem SameIds.trans {first second third : TrigramIndex} (left : first.SameIds second)
    (right : second.SameIds third) : first.SameIds third :=
  ⟨left.1.trans right.1, left.2.1.trans right.2.1, left.2.2.trans right.2.2⟩

/-- Removal of a posting keeps the ids. -/
theorem removeId_ids : (index.removeId id trigram).SameIds index := by
  unfold removeId
  split
  · exact ⟨rfl, rfl, rfl⟩
  split
  · exact ⟨rfl, rfl, rfl⟩
  · exact ⟨rfl, rfl, rfl⟩

/-- It keeps the lists sorted. -/
theorem removeId_sorted (sorted : index.ListsSorted) : (index.removeId id trigram).ListsSorted := by
  unfold removeId
  split
  · exact sorted
  rename_i list here
  split
  · exact sorted
  rename_i position search
  intro other kept there
  dsimp only at there
  by_cases same : other = trigram
  · subst same
    rw [update_self] at there
    obtain ⟨rfl, nonempty⟩ := dropEmpty_eq_some there
    exact ⟨nonempty, (sorted _ _ here).2.sublist (eraseIdx_sublist _ _)⟩
  · rw [update_of_ne same] at there
    exact sorted _ _ there

/-- A removed id is posted nowhere, the others as before. -/
theorem posted_removeIdEverywhere (sorted : index.ListsSorted) :
    (index.removeIdEverywhere id).Posted trigram found ↔
      found ≠ id ∧ index.Posted trigram found := by
  rw [posted_of_getD, posted_of_getD]
  cases here : index.map trigram with
  | none => simp [removeIdEverywhere, here]
  | some list =>
    simp only [removeIdEverywhere, here, Option.bind_some, getD_dropEmpty, Option.getD_some]
    rw [mem_removeSorted (sorted _ _ here).2]
    exact and_comm

/-- The lists stay sorted. -/
theorem removeIdEverywhere_sorted (sorted : index.ListsSorted) :
    (index.removeIdEverywhere id).ListsSorted := by
  intro trigram kept there
  obtain ⟨list, here, left⟩ := Option.bind_eq_some_iff.mp there
  obtain ⟨rfl, nonempty⟩ := dropEmpty_eq_some left
  exact ⟨nonempty, removeSorted_sorted (sorted _ _ here).2⟩

/-- An id is posted under every trigram of a list. -/
theorem foldl_insertId (trigrams : List Trigram) (sorted : index.ListsSorted) :
    (trigrams.foldl (insertId id) index).ListsSorted ∧
      (trigrams.foldl (insertId id) index).SameIds index ∧
      ∀ other found, (trigrams.foldl (insertId id) index).Posted other found ↔
        (other ∈ trigrams ∧ found = id) ∨ index.Posted other found := by
  induction trigrams generalizing index with
  | nil => exact ⟨sorted, ⟨rfl, rfl, rfl⟩, fun other found => by simp⟩
  | cons trigram rest ih =>
    obtain ⟨lists, ids, posted⟩ := ih (insertId_sorted sorted)
    refine ⟨lists, ids, fun other found => ?_⟩
    rw [foldl_cons, posted, posted_insertId sorted, mem_cons]
    tauto

/-- An id is posted under none of the trigrams of a list. -/
theorem foldl_removeId (trigrams : List Trigram) (sorted : index.ListsSorted) :
    (trigrams.foldl (removeId id) index).ListsSorted ∧
      (trigrams.foldl (removeId id) index).SameIds index ∧
      ∀ other found, (trigrams.foldl (removeId id) index).Posted other found ↔
        ¬ (other ∈ trigrams ∧ found = id) ∧ index.Posted other found := by
  induction trigrams generalizing index with
  | nil => exact ⟨sorted, ⟨rfl, rfl, rfl⟩, fun other found => by simp⟩
  | cons trigram rest ih =>
    obtain ⟨lists, ids, posted⟩ := ih (removeId_sorted sorted)
    refine ⟨lists, ids.trans removeId_ids, fun other found => ?_⟩
    rw [foldl_cons, posted, posted_removeId sorted, mem_cons]
    tauto

variable {files : String → Option Bytes} {path : String} {content : Bytes}

section Represents

variable (represents : index.Represents files)

include represents

/-- What is posted under the id of a tracked path. -/
theorem Represents.posted_id (tracked : index.pathToId path = some id)
    (current : files path = some content) :
    index.Posted trigram id ↔ trigram ∈ trigramsOf content := by
  have known := (represents.inverse _ _).mp tracked
  rw [represents.posted]
  constructor
  · rintro ⟨other, text, here, there, member⟩
    rw [known] at here
    cases here
    rw [current] at there
    cases there
    exact member
  · intro member
    exact ⟨_, _, known, current, member⟩

/-- A tracked path and its id belong to each other. -/
theorem Represents.same_iff {other : String} (tracked : index.pathToId path = some id)
    (here : index.idToPath found = some other) : found = id ↔ other = path := by
  constructor
  · rintro rfl
    exact Option.some.inj (here.symm.trans ((represents.inverse _ _).mp tracked))
  · rintro rfl
    exact Option.some.inj (((represents.inverse _ _).mpr here).symm.trans tracked)

/-- A tracked path has a content. -/
theorem Represents.content_of_tracked (tracked : index.pathToId path = some id) :
    ∃ current, files path = some current := by
  refine Option.ne_none_iff_exists'.mp fun absent => ?_
  rw [(represents.tracked _).mpr absent] at tracked
  cases tracked

/-- The lists of one id are exchanged for those of another content. -/
theorem Represents.repost {next : TrigramIndex} (tracked : index.pathToId path = some id)
    (sorted : next.ListsSorted) (ids : next.SameIds index)
    (posted : ∀ trigram found, next.Posted trigram found ↔
      (trigram ∈ trigramsOf content ∧ found = id) ∨ (found ≠ id ∧ index.Posted trigram found)) :
    next.Represents (update files path (some content)) := by
  obtain ⟨paths, numbers, count⟩ := ids
  have known := (represents.inverse _ _).mp tracked
  refine ⟨sorted, ?_, ?_, ?_, ?_⟩
  · rw [paths, numbers]
    exact represents.inverse
  · rw [paths, count]
    exact represents.below
  · intro other
    rw [numbers, represents.tracked]
    by_cases same : other = path
    · subst same
      obtain ⟨current, indexed⟩ := represents.content_of_tracked tracked
      rw [update_self, indexed]
      exact ⟨nofun, nofun⟩
    · rw [update_of_ne same]
  · intro trigram found
    rw [posted, represents.posted, paths]
    constructor
    · rintro (⟨member, rfl⟩ | ⟨apart, other, text, here, there, member⟩)
      · exact ⟨_, _, known, update_self .., member⟩
      have different := mt (represents.same_iff tracked here).mpr apart
      exact ⟨_, _, here, (update_of_ne different ..).trans there, member⟩
    · rintro ⟨other, text, here, there, member⟩
      rcases update_some_eq_some.mp there with ⟨rfl, rfl⟩ | ⟨different, before⟩
      · exact .inl ⟨member, (represents.same_iff tracked here).mpr rfl⟩
      exact .inr ⟨mt (represents.same_iff tracked here).mp different, other, text, here, before,
        member⟩

/-- A new path gets a new id. -/
theorem Represents.insertFile_new (untracked : index.pathToId path = none) :
    (index.insertFile path content).Represents (update files path (some content)) := by
  unfold insertFile getOrAllocId
  rw [untracked]
  set allocated : TrigramIndex := { index with
    nextId := index.nextId + 1
    pathToId := update index.pathToId _ (some index.nextId)
    idToPath := update index.idToPath index.nextId (some path) } with made
  have sorted : allocated.ListsSorted := represents.lists
  have fresh : ∀ other, index.idToPath index.nextId ≠ some other := by
    intro other here
    exact absurd (represents.below index.nextId _ here) (lt_irrefl _)
  have apart : ∀ {id other}, index.idToPath id = some other → other ≠ path := by
    rintro id other here rfl
    rw [(represents.inverse _ _).mpr here] at untracked
    cases untracked
  obtain ⟨lists, ⟨paths, numbers, count⟩, posted⟩ := foldl_insertId (trigramsOf _) sorted
  refine ⟨lists, ?_, ?_, ?_, ?_⟩
  · intro other id
    rw [paths, numbers]
    refine update_some_eq_some.trans (Iff.trans ?_ update_some_eq_some.symm)
    rw [represents.inverse]
    constructor
    · rintro (⟨rfl, rfl⟩ | ⟨-, here⟩)
      · exact .inl ⟨rfl, rfl⟩
      refine .inr ⟨?_, here⟩
      rintro rfl
      exact fresh _ here
    · rintro (⟨rfl, rfl⟩ | ⟨-, here⟩)
      · exact .inl ⟨rfl, rfl⟩
      · exact .inr ⟨apart here, here⟩
  · rw [paths, count]
    exact forall_update_some (Nat.lt_succ_self _) fun id other before =>
      Nat.lt_succ_of_lt (represents.below _ _ before)
  · intro other
    rw [numbers]
    by_cases same : other = path
    · subst same
      simp [made]
    · simp [made, same, represents.tracked]
  · intro trigram id
    rw [posted, paths]
    constructor
    · rintro (⟨member, rfl⟩ | before)
      · exact ⟨_, _, update_self .., update_self .., member⟩
      obtain ⟨other, text, here, there, member⟩ := (represents.posted _ _).mp before
      refine ⟨_, _, update_some_eq_some.mpr (.inr ⟨?_, here⟩), ?_, member⟩
      · rintro rfl
        exact fresh _ here
      · rw [update_of_ne (apart here), there]
    · rintro ⟨other, text, here, there, member⟩
      rcases update_some_eq_some.mp here with ⟨rfl, rfl⟩ | ⟨-, before⟩
      · rw [update_self] at there
        cases there
        exact .inl ⟨member, rfl⟩
      · rw [update_of_ne (apart before)] at there
        exact .inr ((represents.posted _ _).mpr ⟨other, text, before, there, member⟩)

/-- An update keeps what the index represents, if the old content is the indexed one. -/
theorem Represents.updateFile {old : Option Bytes}
    (honest : ∀ given current, old = some given → files path = some current → given = current) :
    (index.updateFile path old content).Represents (update files path (some content)) := by
  unfold TrigramIndex.updateFile
  split
  · rename_i untracked
    exact represents.insertFile_new untracked
  rename_i id tracked
  split
  · -- every list is scanned, then the file is inserted under its own id
    have cleared : (index.removeIdEverywhere id).ListsSorted :=
      removeIdEverywhere_sorted represents.lists
    have kept : (index.removeIdEverywhere id).pathToId path = some id := tracked
    unfold insertFile getOrAllocId
    rw [kept]
    obtain ⟨lists, ids, posted⟩ := foldl_insertId (trigramsOf content) cleared
    refine represents.repost tracked lists ids fun trigram found => ?_
    rw [posted, posted_removeIdEverywhere represents.lists]
  · -- only the lists that differ are touched
    rename_i given
    obtain ⟨current, indexed⟩ := represents.content_of_tracked tracked
    obtain rfl := honest _ _ rfl indexed
    obtain ⟨removed, removedIds, removedPosted⟩ := foldl_removeId
      ((trigramsOf _).filter (· ∉ trigramsOf _)) represents.lists
    obtain ⟨lists, ids, posted⟩ := foldl_insertId
      ((trigramsOf _).filter (· ∉ trigramsOf _)) removed
    refine represents.repost tracked lists (ids.trans removedIds) fun trigram found => ?_
    rw [posted, removedPosted]
    by_cases mine : found = id
    · subst mine
      rw [represents.posted_id tracked indexed]
      simp only [mem_filter, decide_eq_true_eq]
      tauto
    · tauto

/-- The path of one id is forgotten, and its lists with it. -/
theorem Represents.forget {next : TrigramIndex} (tracked : index.pathToId path = some id)
    (sorted : next.ListsSorted)
    (ids : next.SameIds { index with
      pathToId := update index.pathToId path none
      idToPath := update index.idToPath id none })
    (posted : ∀ trigram found, next.Posted trigram found ↔
      found ≠ id ∧ index.Posted trigram found) :
    next.Represents (update files path none) := by
  obtain ⟨paths, numbers, count⟩ := ids
  have apart : ∀ {found other}, index.idToPath found = some other →
      (found ≠ id ↔ other ≠ path) := fun here => not_congr (represents.same_iff tracked here)
  refine ⟨sorted, ?_, ?_, ?_, ?_⟩
  · intro other found
    rw [paths, numbers]
    refine update_none_eq_some.trans (Iff.trans ?_ update_none_eq_some.symm)
    rw [represents.inverse]
    exact and_congr_left fun here => (apart here).symm
  · intro found other here
    rw [paths] at here
    rw [count]
    exact represents.below _ _ (update_none_eq_some.mp here).2
  · intro other
    rw [numbers]
    by_cases same : other = path
    · subst same
      simp
    · simp [same, represents.tracked]
  · intro trigram found
    rw [posted, represents.posted, paths]
    constructor
    · rintro ⟨different, other, text, here, there, member⟩
      refine ⟨_, _, update_none_eq_some.mpr ⟨different, here⟩, ?_, member⟩
      rw [update_of_ne ((apart here).mp different), there]
    · rintro ⟨other, text, here, there, member⟩
      exact ⟨(update_none_eq_some.mp here).1, _, _, (update_none_eq_some.mp here).2,
        (update_none_eq_some.mp there).2, member⟩

/-- A removal keeps what the index represents, if the content is the indexed one. -/
theorem Represents.removeFile {old : Option Bytes}
    (honest : ∀ given current, old = some given → files path = some current → given = current) :
    (index.removeFile path old).Represents (update files path none) := by
  unfold TrigramIndex.removeFile
  split
  · rename_i untracked
    have absent := (represents.tracked _).mp untracked
    rw [← absent, update_eq_self]
    exact represents
  rename_i id tracked
  obtain ⟨current, indexed⟩ := represents.content_of_tracked tracked
  split
  · rename_i given
    obtain rfl := honest _ _ rfl indexed
    have sorted : ListsSorted { index with
        pathToId := update index.pathToId path none
        idToPath := update index.idToPath id none } := represents.lists
    obtain ⟨lists, ids, posted⟩ := foldl_removeId (trigramsOf given) sorted
    refine represents.forget tracked lists ids fun trigram found => (posted _ _).trans ?_
    have mine : index.Posted trigram id ↔ trigram ∈ trigramsOf given :=
      represents.posted_id tracked indexed
    change ¬ _ ∧ index.Posted trigram found ↔ _
    constructor
    · rintro ⟨unlisted, there⟩
      refine ⟨?_, there⟩
      rintro rfl
      exact unlisted ⟨mine.mp there, rfl⟩
    · rintro ⟨different, there⟩
      exact ⟨fun listed => different listed.2, there⟩
  · refine represents.forget tracked (removeIdEverywhere_sorted represents.lists) ⟨rfl, rfl, rfl⟩
      fun trigram found => ?_
    exact posted_removeIdEverywhere represents.lists

end Represents

/-- No list is kept for nothing. -/
def ListsNonempty : Prop := ∀ trigram list, index.map trigram = some list → list ≠ []

/-- An id is pushed on the list of every trigram of a shard. -/
theorem foldl_push (trigrams : List Trigram) (nonempty : index.ListsNonempty) :
    (trigrams.foldl (modifyEntry · (· ++ [id])) index).ListsNonempty ∧
      (trigrams.foldl (modifyEntry · (· ++ [id])) index).SameIds index ∧
      ∀ other found, (trigrams.foldl (modifyEntry · (· ++ [id])) index).Posted other found ↔
        (other ∈ trigrams ∧ found = id) ∨ index.Posted other found := by
  induction trigrams generalizing index with
  | nil => exact ⟨nonempty, ⟨rfl, rfl, rfl⟩, fun other found => by simp⟩
  | cons trigram rest ih =>
    have pushedNonempty : (index.modifyEntry (· ++ [id]) trigram).ListsNonempty := by
      exact forall_update_some (append_ne_nil_of_right_ne_nil _ (cons_ne_nil _ []))
        nonempty
    obtain ⟨lists, ids, posted⟩ := ih pushedNonempty
    refine ⟨lists, ids, fun other found => ?_⟩
    have pushed : (index.modifyEntry (· ++ [id]) trigram).Posted other found ↔
        (other = trigram ∧ found = id) ∨ index.Posted other found := by
      refine posted_modifyEntry fun one => ?_
      rw [mem_append, mem_singleton, or_comm]
    rw [foldl_cons, posted, pushed, mem_cons]
    tauto

/-- So are all shards, each with its own id. -/
theorem foldl_shards (shards : List (List Trigram × Nat)) (nonempty : index.ListsNonempty) :
    (shards.foldl (fun index shard =>
        shard.1.foldl (modifyEntry · (· ++ [shard.2])) index) index).ListsNonempty ∧
      (shards.foldl (fun index shard =>
        shard.1.foldl (modifyEntry · (· ++ [shard.2])) index) index).SameIds index ∧
      ∀ other found, (shards.foldl (fun index shard =>
          shard.1.foldl (modifyEntry · (· ++ [shard.2])) index) index).Posted other found ↔
        (∃ shard ∈ shards, other ∈ shard.1 ∧ found = shard.2) ∨ index.Posted other found := by
  induction shards generalizing index with
  | nil => exact ⟨nonempty, ⟨rfl, rfl, rfl⟩, fun other found => by simp⟩
  | cons shard rest ih =>
    obtain ⟨pushedNonempty, pushedIds, pushed⟩ := foldl_push shard.1 nonempty
    obtain ⟨lists, ids, posted⟩ := ih pushedNonempty
    refine ⟨lists, ids.trans pushedIds, fun other found => ?_⟩
    rw [foldl_cons, posted, pushed]
    simp only [mem_cons, exists_eq_or_imp]
    rw [or_assoc]
    exact or_left_comm

/-- In a build the ids are the positions of the files. -/
theorem alloc_positions (entries : List (Sigma fun _ : String => Bytes))
    (distinct : (entries.map fst).Nodup) :
    let index := entries.foldl (fun index entry => (index.getOrAllocId entry.1).2) new
    index.nextId = entries.length ∧ index.map = (fun _ => none) ∧
      (∀ id, index.idToPath id = (entries.map fst)[id]?) ∧
      ∀ path id, index.pathToId path = some id ↔ (entries.map fst)[id]? = some path := by
  induction entries using reverseRecOn with
  | nil => exact ⟨rfl, rfl, fun id => rfl, fun path id => by simp [new]⟩
  | append_singleton entries entry ih =>
    rw [map_append, nodup_append] at distinct
    obtain ⟨earlier, -, across⟩ := distinct
    obtain ⟨count, empty, paths, numbers⟩ := ih earlier
    rw [foldl_append, foldl_cons, foldl_nil]
    set index := entries.foldl (fun index entry => (index.getOrAllocId entry.1).2) new
    have untracked : index.pathToId entry.1 = none := by
      by_contra tracked
      obtain ⟨id, here⟩ := Option.ne_none_iff_exists'.mp tracked
      exact across entry.1 (mem_of_getElem? ((numbers entry.1 _).mp here)) entry.1
        (by simp) rfl
    have extended : ∀ id, (List.map fst (entries ++ [entry]))[id]? =
        update index.idToPath index.nextId (some entry.1) id := by
      intro id
      rw [map_append, map_singleton, count]
      by_cases last : id = entries.length
      · subst last
        rw [update_self, getElem?_append_right (by simp)]
        simp
      · rw [update_of_ne last, paths]
        by_cases inside : id < entries.length
        · rw [getElem?_append_left (by simpa using inside)]
        · rw [getElem?_eq_none (by simp; omega), getElem?_eq_none (by simp; omega)]
    unfold getOrAllocId
    rw [untracked]
    refine ⟨by simp [count], empty, fun id => (extended _).symm, fun path id => ?_⟩
    rw [extended]
    refine update_some_eq_some.trans (Iff.trans ?_ update_some_eq_some.symm)
    rw [numbers, ← paths]
    constructor
    · rintro (⟨rfl, rfl⟩ | ⟨-, here⟩)
      · exact .inl ⟨rfl, rfl⟩
      refine .inr ⟨?_, here⟩
      rintro rfl
      rw [paths, count, getElem?_eq_none (by simp)] at here
      cases here
    · rintro (⟨rfl, rfl⟩ | ⟨-, here⟩)
      · exact .inl ⟨rfl, rfl⟩
      refine .inr ⟨?_, here⟩
      rintro rfl
      rw [paths, ← numbers, untracked] at here
      cases here

/-- A build represents its files. -/
theorem buildFromFiles_represents (files : FileContents) :
    (buildFromFiles files).Represents files.lookup := by
  have distinct : (files.entries.map fst).Nodup := files.nodupKeys
  obtain ⟨count, empty, paths, numbers⟩ := alloc_positions files.entries distinct
  have nonempty : (allocAll files).ListsNonempty := by
    intro trigram list here
    rw [allocAll, empty] at here
    cases here
  obtain ⟨lists, ⟨samePaths, sameNumbers, sameCount⟩, posted⟩ :=
    foldl_shards (files.entries.map fun entry => trigramsOf entry.2).zipIdx nonempty
  unfold buildFromFiles
  set pushed := (files.entries.map fun entry => trigramsOf entry.2).zipIdx.foldl
    (fun index shard => shard.1.foldl (modifyEntry · (· ++ [shard.2])) index) (allocAll _)
  have pathOf : ∀ id, pushed.idToPath id = (files.entries.map fst)[id]? := by
    rw [samePaths]
    exact paths
  have numberOf : ∀ path id, pushed.pathToId path = some id ↔
      (files.entries.map fst)[id]? = some path := by
    rw [sameNumbers]
    exact numbers
  refine ⟨?_, ?_, ?_, ?_, ?_⟩
  · intro trigram list here
    obtain ⟨before, there, rfl⟩ := Option.map_eq_some_iff.mp here
    refine ⟨?_, dedupAdjacent_sorted (pairwise_insertionSort (· ≤ ·) _)⟩
    obtain ⟨id, member⟩ := exists_mem_of_ne_nil _ (lists _ _ there)
    exact ne_nil_of_mem ((mem_dedupAdjacent _ _).mpr ((mem_insertionSort _).mpr member))
  · intro path id
    rw [numberOf, pathOf]
  · intro id path here
    rw [pathOf] at here
    rw [sameCount]
    obtain ⟨inside, -⟩ := List.getElem?_eq_some_iff.mp here
    rw [length_map] at inside
    exact inside.trans_eq count.symm
  · intro path
    rw [AList.lookup_eq_none, AList.mem_keys]
    constructor
    · intro untracked member
      obtain ⟨id, here⟩ := mem_iff_getElem?.mp member
      rw [(numberOf _ _).mpr here] at untracked
      cases untracked
    · intro absent
      by_contra tracked
      obtain ⟨id, here⟩ := Option.ne_none_iff_exists'.mp tracked
      exact absent (mem_of_getElem? ((numberOf _ _).mp here))
  · intro trigram id
    have sorting : Posted { pushed with
        map := fun trigram => (pushed.map trigram).map fun list =>
          dedupAdjacent (list.insertionSort (· ≤ ·)) } trigram id ↔ pushed.Posted trigram id := by
      rw [posted_of_getD, posted_of_getD]
      cases here : pushed.map trigram with
      | none => simp [here]
      | some list => simp [here, mem_dedupAdjacent]
    have unposted : ¬ (allocAll files).Posted trigram id := by
      rintro ⟨list, here, -⟩
      rw [allocAll, empty] at here
      cases here
    rw [sorting, posted, or_iff_left unposted]
    constructor
    · rintro ⟨⟨shard, position⟩, listed, member, rfl⟩
      rw [mem_zipIdx_iff_getElem?, getElem?_map] at listed
      obtain ⟨entry, here, rfl⟩ := Option.map_eq_some_iff.mp listed
      refine ⟨entry.1, entry.2, ?_, AList.mem_lookup_iff.mpr (mem_of_getElem? here), member⟩
      rw [pathOf, getElem?_map, here]
      rfl
    · rintro ⟨path, content, here, there, member⟩
      rw [pathOf, getElem?_map] at here
      obtain ⟨entry, found, rfl⟩ := Option.map_eq_some_iff.mp here
      have stored : files.lookup entry.1 = some entry.2 :=
        AList.mem_lookup_iff.mpr (mem_of_getElem? found)
      rw [stored] at there
      cases there
      refine ⟨(trigramsOf entry.2, id), ?_, member, rfl⟩
      rw [mem_zipIdx_iff_getElem?, getElem?_map, found]
      rfl

end TrigramIndex

end Symforge.Index
