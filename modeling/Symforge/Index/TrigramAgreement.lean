import Symforge.Index.TrigramUpdates
import Symforge.Library.Run

/-!
# The trigram index agrees with a rebuild

A search takes its candidates from the lists of the query's trigrams and checks each of them, so in
an index that represents the files it is exact. Every change keeps the index representing the
files, so after any sequence of changes it relates trigrams and paths as a build would.
-/

namespace Symforge.Index

open Library List TrigramIndex TrigramIndex.Represents

/-- The three bytes stand next to each other somewhere. -/
theorem mem_windows {bytes : Bytes} {first second third : UInt8} :
    (first, second, third) ∈ windows bytes ↔ [first, second, third] <:+: bytes := by
  fun_induction windows bytes with
  | case1 one two three rest ih =>
    rw [mem_cons, ih]
    constructor
    · rintro (same | later)
      · cases same
        exact (prefix_append [first, second, third] _).isInfix
      · exact infix_cons later
    · intro inside
      rcases infix_cons_iff.mp inside with ⟨after, same⟩ | later
      · cases same
        exact .inl rfl
      · exact .inr later
  | case2 bytes short =>
    constructor
    · nofun
    rintro ⟨before, after, rfl⟩
    rcases before with _ | ⟨one, _ | ⟨two, _ | ⟨three, rest⟩⟩⟩
    all_goals exact (short _ _ _ _ rfl).elim

/-- The extracted trigrams are the windows. -/
theorem mem_extractTrigrams {bytes : Bytes} {trigram : Trigram} :
    trigram ∈ extractTrigrams bytes ↔ trigram ∈ windows bytes := by
  unfold extractTrigrams
  split
  · rename_i short
    constructor
    · nofun
    intro member
    have long := (mem_windows.mp member).length_le
    rw [length_cons, length_cons, length_singleton] at long
    omega
  · exact mem_dedup

/-- The trigrams of a part are trigrams of the whole. -/
theorem extractTrigrams_infix {part whole : Bytes} (inside : part <:+: whole) {trigram : Trigram}
    (member : trigram ∈ extractTrigrams part) : trigram ∈ extractTrigrams whole := by
  rw [mem_extractTrigrams] at member ⊢
  exact mem_windows.mpr ((mem_windows.mp member).trans inside)

/-- Three bytes make a trigram. -/
theorem exists_mem_extractTrigrams {bytes : Bytes} (long : 3 ≤ bytes.length) :
    ∃ trigram, trigram ∈ extractTrigrams bytes := by
  match bytes, long with
  | first :: second :: third :: rest, _ =>
    exact ⟨(first, second, third), mem_extractTrigrams.mpr mem_cons_self⟩

/-- The needle stands there but for case. -/
theorem matchesAt_iff {haystack needleLower : Bytes} {position : Nat} :
    matchesAt haystack needleLower position = true ↔
      needleLower <+: (toAsciiLowercase haystack).drop position := by
  unfold matchesAt
  rw [all_eq_true, prefix_iff_getElem?]
  constructor
  · intro equal offset inside
    have here := beq_iff_eq.mp (equal _ (mem_range.mpr inside))
    rw [getElem?_drop, here, getElem?_eq_getElem inside]
  · intro equal offset inside
    have within := mem_range.mp inside
    rw [beq_iff_eq, ← getElem?_drop, equal _ within, getElem?_eq_getElem within]

/-- The needle stands somewhere in the folded haystack. -/
theorem containsBytesCi_iff {haystack needleLower : Bytes} :
    containsBytesCi haystack needleLower = true ↔ needleLower <:+: toAsciiLowercase haystack := by
  have sameLength : (toAsciiLowercase haystack).length = haystack.length := length_map _
  unfold containsBytesCi
  split
  · rename_i empty
    rw [isEmpty_iff.mp empty]
    exact iff_of_true rfl nil_infix
  split
  · rename_i longer
    refine iff_of_false nofun fun inside => ?_
    have shorter := inside.length_le
    omega
  rename_i fits
  rw [any_eq_true]
  constructor
  · rintro ⟨position, -, here⟩
    exact (matchesAt_iff.mp here).isInfix.trans (drop_suffix _ _).isInfix
  · rintro ⟨before, after, whole⟩
    refine ⟨before.length, mem_range.mpr ?_, matchesAt_iff.mpr ?_⟩
    · have total := congrArg length whole
      rw [length_append, length_append, sameLength] at total
      omega
    · rw [← whole, append_assoc, drop_left]
      exact prefix_append _ _

namespace TrigramIndex

variable {index : TrigramIndex} {trigram : Trigram} {id : Nat} {files : String → Option Bytes}
  {path : String}

/-- The candidates are in every list. -/
theorem mem_intersect {candidates : List Nat} {lists : List (List Nat)}
    (sorted : ∀ list ∈ lists, list.Pairwise (· < ·)) :
    id ∈ intersect candidates lists ↔ id ∈ candidates ∧ ∀ list ∈ lists, id ∈ list := by
  induction lists generalizing candidates with
  | nil => simp [intersect]
  | cons list rest ih =>
    obtain ⟨first, later⟩ := forall_mem_cons.mp sorted
    have kept : ∀ one, one ∈ candidates.filter (fun id => (binarySearch list id).isOk) ↔
        one ∈ candidates ∧ one ∈ list := by
      intro one
      rw [mem_filter, binarySearch_isOk_iff first]
    unfold intersect
    dsimp only
    split
    · rename_i empty
      rw [List.isEmpty_iff] at empty
      rw [empty] at kept
      constructor
      · nofun
      rintro ⟨candidate, everywhere⟩
      cases (kept _).mpr ⟨candidate, everywhere _ mem_cons_self⟩
    · rw [ih later, kept, forall_mem_cons, and_assoc]

/-- Intersecting only drops candidates. -/
theorem intersect_sublist (candidates : List Nat) (lists : List (List Nat)) :
    (intersect candidates lists).Sublist candidates := by
  induction lists generalizing candidates with
  | nil => exact List.Sublist.refl _
  | cons list rest ih =>
    unfold intersect
    dsimp only
    split
    · exact nil_sublist _
    · exact (ih _).trans filter_sublist

variable {table : FileContents} {query : Bytes}

/-- A verified file contains the query. -/
theorem verify_eq_some {queryLower : Bytes} :
    index.verify queryLower table id = some path ↔ index.idToPath id = some path ∧
      ∃ content, table.lookup path = some content ∧
        queryLower <:+: toAsciiLowercase content := by
  unfold verify
  simp only [bind, Option.bind_eq_some_iff, Option.ite_none_right_eq_some, Option.some.injEq,
    containsBytesCi_iff]
  constructor
  · rintro ⟨other, known, content, stored, inside, rfl⟩
    exact ⟨known, _, stored, inside⟩
  · rintro ⟨known, content, stored, inside⟩
    exact ⟨_, known, _, stored, inside, rfl⟩

/-- The paths whose content contains the query, under ASCII case folding. -/
def Contains (table : FileContents) (query : Bytes) (path : String) : Prop :=
  ∃ content, table.lookup path = some content ∧
    toAsciiLowercase query <:+: toAsciiLowercase content

/-- The scan finds the files that contain it. -/
theorem linearScanLower_exact :
    (linearScanLower (toAsciiLowercase query) table).Nodup ∧
      ∀ path, path ∈ linearScanLower (toAsciiLowercase query) table ↔
        Contains table query path := by
  have taken : ∀ entry : Sigma fun _ : String => Bytes, ∀ path,
      (if containsBytesCi entry.2 (toAsciiLowercase query) then some entry.1 else none) =
        some path ↔ entry.1 = path ∧ toAsciiLowercase query <:+: toAsciiLowercase entry.2 := by
    intro entry path
    rw [Option.ite_none_right_eq_some, containsBytesCi_iff, Option.some.injEq]
    exact and_comm
  constructor
  · have filtered : linearScanLower (toAsciiLowercase query) table =
        (table.entries.filter fun entry => containsBytesCi entry.2 (toAsciiLowercase query)).map
          Sigma.fst := by
      simp [linearScanLower, ← filterMap_eq_map, filterMap_filter]
    have distinct : (table.entries.map Sigma.fst).Nodup := table.nodupKeys
    rw [filtered]
    exact distinct.sublist (filter_sublist.map Sigma.fst)
  · intro path
    unfold linearScanLower
    rw [mem_filterMap]
    constructor
    · rintro ⟨entry, listed, here⟩
      obtain ⟨rfl, inside⟩ := (taken _ _).mp here
      exact ⟨entry.2, AList.mem_lookup_iff.mpr listed, inside⟩
    · rintro ⟨content, stored, inside⟩
      exact ⟨⟨_, _⟩, AList.mem_lookup_iff.mp stored, (taken _ _).mpr ⟨rfl, inside⟩⟩

/-- A file that contains the query is posted under every trigram of it. -/
theorem Represents.candidate (represents : index.Represents table.lookup)
    (known : index.idToPath id = some path) (contains : Contains table query path)
    (member : trigram ∈ extractTrigrams (toAsciiLowercase query)) : index.Posted trigram id := by
  obtain ⟨content, stored, inside⟩ := contains
  exact (represents.posted _ _).mpr
    ⟨_, _, known, stored, extractTrigrams_infix inside member⟩

/-- A search returns the paths that contain the query, each once. -/
theorem Represents.search_exact (represents : index.Represents table.lookup) (asked : query ≠ []) :
    (index.search query table).Nodup ∧
      ∀ path, path ∈ index.search query table ↔ Contains table query path := by
  unfold search
  rw [if_neg (by simpa using asked)]
  dsimp only
  split
  · exact linearScanLower_exact
  rename_i long
  have sorted : ∀ list ∈ (extractTrigrams (toAsciiLowercase query)).filterMap index.map,
      list.Pairwise (· < ·) := by
    intro list listed
    obtain ⟨trigram, -, here⟩ := mem_filterMap.mp listed
    exact (represents.lists _ _ here).2
  -- a path that contains the query is tracked, and its id is in every list
  have everywhere : ∀ path, Contains table query path → ∃ id, index.idToPath id = some path ∧
      ∀ list ∈ (extractTrigrams (toAsciiLowercase query)).filterMap index.map, id ∈ list := by
    intro path contains
    have ⟨content, stored, _⟩ := contains
    have tracked : index.pathToId path ≠ none := by
      rw [Ne, represents.tracked, stored]
      nofun
    obtain ⟨id, here⟩ := Option.ne_none_iff_exists'.mp tracked
    have known := (represents.inverse _ _).mp here
    refine ⟨id, known, fun list listed => ?_⟩
    obtain ⟨trigram, member, there⟩ := mem_filterMap.mp listed
    obtain ⟨other, same, posted⟩ := represents.candidate known contains member
    rw [there] at same
    cases same
    exact posted
  have sorting := perm_insertionSort (fun one two : List Nat => one.length ≤ two.length)
    ((extractTrigrams (toAsciiLowercase query)).filterMap index.map)
  split
  · rename_i nothing
    rw [nothing] at sorting
    refine ⟨nodup_nil, fun path => iff_of_false nofun fun contains => ?_⟩
    obtain ⟨trigram, member⟩ := exists_mem_extractTrigrams (Nat.le_of_not_lt long)
    obtain ⟨id, known, -⟩ := everywhere _ contains
    obtain ⟨list, there, -⟩ := represents.candidate known contains member
    cases sorting.mem_iff.mpr (mem_filterMap.mpr ⟨trigram, member, there⟩)
  · rename_i first rest all
    rw [all] at sorting
    have each : ∀ list, list ∈ first :: rest ↔
        list ∈ (extractTrigrams (toAsciiLowercase query)).filterMap index.map :=
      fun list => sorting.mem_iff
    have restSorted : ∀ list ∈ rest, list.Pairwise (· < ·) := fun list listed =>
      sorted _ ((each _).mp (mem_cons_of_mem _ listed))
    constructor
    · have firstSorted := sorted _ ((each _).mp mem_cons_self)
      have candidates : (intersect first rest).Nodup :=
        (firstSorted.imp ne_of_lt).sublist (intersect_sublist _ _)
      refine candidates.filterMap fun one two path here there => ?_
      have knownOne := (verify_eq_some.mp here).1
      have knownTwo := (verify_eq_some.mp there).1
      have same := ((represents.inverse _ _).mpr knownOne).symm.trans
        ((represents.inverse _ _).mpr knownTwo)
      exact Option.some.inj same
    · intro path
      rw [mem_filterMap]
      constructor
      · rintro ⟨id, -, here⟩
        exact (verify_eq_some.mp here).2
      · intro contains
        obtain ⟨id, known, posted⟩ := everywhere _ contains
        refine ⟨id, (mem_intersect restSorted).mpr ⟨?_, fun list listed => ?_⟩,
          verify_eq_some.mpr ⟨known, contains⟩⟩
        · exact posted _ ((each _).mp mem_cons_self)
        · exact posted _ ((each _).mp (mem_cons_of_mem _ listed))

/-- The trigram and the path belong together in the index. -/
def Relates (index : TrigramIndex) (trigram : Trigram) (path : String) : Prop :=
  ∃ id, index.Posted trigram id ∧ index.idToPath id = some path

/-- The index has the trigrams of the files. -/
theorem Represents.relates_iff (represents : index.Represents files) :
    index.Relates trigram path ↔
      ∃ content, files path = some content ∧ trigram ∈ trigramsOf content := by
  constructor
  · rintro ⟨id, posted, known⟩
    obtain ⟨other, content, here, there, member⟩ := (represents.posted _ _).mp posted
    rw [known] at here
    cases here
    exact ⟨_, there, member⟩
  · rintro ⟨content, there, member⟩
    have tracked : index.pathToId path ≠ none := by
      rw [Ne, represents.tracked, there]
      nofun
    obtain ⟨id, here⟩ := Option.ne_none_iff_exists'.mp tracked
    have known := (represents.inverse _ _).mp here
    exact ⟨id, (represents.posted _ _).mpr ⟨_, _, known, there, member⟩, known⟩

end TrigramIndex

/-- The files, and the index that is kept for them. -/
structure IndexedFiles where
  files : FileContents
  index : TrigramIndex

/-- A change of one file, with the content that the caller says was indexed. -/
inductive FileChange where
  | update (path : String) (old : Option Bytes) (content : Bytes)
  | remove (path : String) (content : Option Bytes)
deriving DecidableEq, Repr

namespace IndexedFiles

variable (state : IndexedFiles)

/-- The change of the map of files, and the call that keeps the index. -/
def step : FileChange → Option IndexedFiles
  | .update path old content =>
    some ⟨state.files.insert path content, state.index.updateFile path old content⟩
  | .remove path content => some ⟨state.files.erase path, state.index.removeFile path content⟩

/-- What the caller passes as indexed is what was indexed, or nothing. -/
def Honest : FileChange → Prop
  | .update path old _ => old = none ∨ state.files.lookup path = none ∨
      old = state.files.lookup path
  | .remove path content => content = none ∨ state.files.lookup path = none ∨
      content = state.files.lookup path

/-- No file and a new index, or files and the index built from them. -/
def Initial : Prop :=
  (state.files = ∅ ∧ state.index = .new) ∨ state.index = .buildFromFiles state.files

/-- The index represents the files. -/
def Current : Prop := state.index.Represents state.files.lookup

/-- The first index is current. -/
theorem initial_current {state : IndexedFiles} (initial : state.Initial) : state.Current := by
  rcases initial with ⟨empty, fresh⟩ | built
  · unfold Current
    rw [empty, fresh]
    refine ⟨nofun, fun path id => iff_of_false nofun nofun, nofun, fun path => ?_, ?_⟩
    · exact iff_of_true rfl (AList.lookup_empty _)
    intro trigram id
    refine iff_of_false ?_ ?_
    · rintro ⟨list, here, -⟩
      cases here
    · rintro ⟨path, content, here, -⟩
      cases here
  · unfold Current
    rw [built]
    exact buildFromFiles_represents state.files

/-- An honest change keeps it current. -/
theorem step_current {state next : IndexedFiles} {change : FileChange} (current : state.Current)
    (honest : state.Honest change) (moved : step state change = some next) : next.Current := by
  have agrees : ∀ {path old}, old = none ∨ state.files.lookup path = none ∨
      old = state.files.lookup path → ∀ given indexed, old = some given →
        state.files.lookup path = some indexed → given = indexed := by
    rintro path old (rfl | absent | same) given indexed passed stored
    · cases passed
    · rw [absent] at stored
      cases stored
    · rw [same, stored] at passed
      exact (Option.some.inj passed).symm
  cases change with
  | update path old content =>
    cases moved
    unfold Current
    rw [funext Table.lookup_insert]
    exact updateFile current (agrees honest)
  | remove path content =>
    cases moved
    unfold Current
    rw [funext Table.lookup_erase]
    exact removeFile current (agrees honest)

/-- After every sequence of changes that pass the indexed content or nothing, the index relates
trigrams and paths as a build over the files does; its lists are strictly increasing and hold
something; its two maps are inverse, with ids below the next one; and every search for something
returns the paths that contain it, each once. -/
theorem index_agrees {state : IndexedFiles} (start : IndexedFiles) (initial : start.Initial)
    (changes : List FileChange) (honest : RunMeets step Honest start changes)
    (reached : run step start changes = some state) :
    (∀ files : FileContents, files.lookup = state.files.lookup → ∀ trigram path,
      state.index.Relates trigram path ↔
        (buildFromFiles files).Relates trigram path) ∧
    (∀ trigram list, state.index.map trigram = some list →
      list ≠ [] ∧ list.Pairwise (· < ·)) ∧
    (∀ path id, state.index.pathToId path = some id ↔ state.index.idToPath id = some path) ∧
    (∀ id path, state.index.idToPath id = some path → id < state.index.nextId) ∧
    (∀ (files : FileContents) query, files.lookup = state.files.lookup → query ≠ [] →
      (state.index.search query files).Nodup ∧
        ∀ path, path ∈ state.index.search query files ↔
          ∃ content, files.lookup path = some content ∧
            toAsciiLowercase query <:+: toAsciiLowercase content) := by
  have current : state.Current := run_invariant_meets Current
    (fun _ _ _ current honest moved => step_current current honest moved)
    (initial_current initial) honest reached
  refine ⟨?_, current.lists, current.inverse, current.below, ?_⟩
  · intro files same trigram path
    have built := buildFromFiles_represents files
    rw [same] at built
    rw [relates_iff current, relates_iff built]
  · intro files query same asked
    have represents : state.index.Represents files.lookup := by
      rw [same]
      exact current
    exact represents.search_exact asked

/-- A file that is indexed and edited, and one that is removed again. -/
def sampleChanges : List FileChange :=
  [.update "a.rs" none (utf8 "fn Alpha"), .update "b.rs" none (utf8 "fn beta"),
    .update "a.rs" (some (utf8 "fn Alpha")) (utf8 "fn gamma"), .remove "b.rs" none]

/-- A sample run of changes. -/
theorem sampleChanges_agree : ∃ state, run step ⟨∅, .new⟩ sampleChanges = some state ∧
    (state.index.search (utf8 "GAM") state.files).Nodup ∧
    state.index.search (utf8 "GAM") state.files = ["a.rs"] := by
  have honest : RunMeets step Honest ⟨∅, .new⟩ sampleChanges :=
    .cons (.inl rfl) rfl (.cons (.inl rfl) rfl
      (.cons (.inr (.inr rfl)) rfl (.cons (.inl rfl) rfl trivial)))
  have agrees := index_agrees ⟨∅, .new⟩ (.inl ⟨rfl, rfl⟩) _ honest rfl
  exact ⟨_, rfl, (agrees.2.2.2.2 _ (utf8 "GAM") rfl (by decide)).1, by decide⟩

end IndexedFiles

end Symforge.Index
