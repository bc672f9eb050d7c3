import Mathlib.Algebra.Order.BigOperators.Group.List
import Symforge.Store.DerivedIndices
import Symforge.Store.SharedIndex
import Symforge.Store.TextSearch

/-!
# Completeness of literal text search

What a text search is meant to report are the accepted lines of the files in scope. The lines are
read with the case mapping of Unicode, the trigram index compares bytes up to the case of ASCII
letters: a file whose only matches differ from a term in the case of another letter is not read.
That and the cap on ranked files are all that a search can miss.
-/

namespace Symforge.Store

open Library List Nat

variable (options : TextSearchOptions) (isMatch : Bytes → Bool)

/-- The lines of a file that are accepted and not suppressed, counted from zero. -/
def visibleLines (file : IndexedFile) : List (Bytes × Nat) :=
  (searchLines file.content).zipIdx.filter fun entry =>
    isMatch entry.1 && !inTestRange (testRanges options file) entry.2

/-- A line as it is reported. -/
def lineMatch (entry : Bytes × Nat) : TextLineMatch := ⟨entry.2 + 1, truncateDisplayLine entry.1⟩

/-- The loop counts every visible line and keeps the first of them. -/
theorem foldl_scanLine
    (ranges : List (Nat × Nat)) (entries seen : List (Bytes × Nat)) (suppressed : Nat) :
    let visible := entries.filter fun entry => isMatch entry.1 && !inTestRange ranges entry.2
    let scan := entries.foldl (scanLine options isMatch ranges)
      ⟨seen.length, suppressed, (seen.take options.maxPerFile).map lineMatch⟩
    scan.visibleCount = (seen ++ visible).length ∧
      scan.matched = ((seen ++ visible).take options.maxPerFile).map lineMatch := by
  induction entries generalizing seen suppressed with
  | nil => simp
  | cons entry rest ih =>
    rw [foldl_cons]
    by_cases accepted : isMatch entry.1
    · by_cases covered : inTestRange ranges entry.2
      · simpa [scanLine, accepted, covered] using ih _ (suppressed + 1)
      have step : scanLine options isMatch ranges
          ⟨seen.length, suppressed, (seen.take options.maxPerFile).map lineMatch⟩ entry =
            ⟨(seen ++ [entry]).length, suppressed,
              ((seen ++ [entry]).take options.maxPerFile).map lineMatch⟩ := by
        by_cases room : seen.length < options.maxPerFile
        · have whole : (seen ++ [entry]).take options.maxPerFile = seen ++ [entry] :=
            take_of_length_le (by rw [length_append]; exact room)
          rw [whole, take_of_length_le room.le]
          simp [scanLine, accepted, covered, room, lineMatch]
        · have full : (seen ++ [entry]).take options.maxPerFile =
              seen.take options.maxPerFile :=
            take_append_of_le_length (Nat.le_of_not_lt room)
          rw [full]
          simp [scanLine, accepted, covered, room]
      rw [step]
      simpa [accepted, covered] using ih (seen ++ [entry]) _
    · simpa [scanLine, accepted] using ih _ _

/-- A scan of a file counts its visible lines and keeps the first of them. -/
theorem scanFile_eq (file : IndexedFile) :
    (scanFile options isMatch file).visibleCount = (visibleLines options isMatch file).length ∧
      (scanFile options isMatch file).matched =
        ((visibleLines options isMatch file).take options.maxPerFile).map lineMatch := by
  have scanned := foldl_scanLine options isMatch (testRanges options file)
    (searchLines file.content).zipIdx [] 0
  rw [take_nil] at scanned
  exact scanned

section Buckets

variable {index : LiveIndex} {options : TextSearchOptions} {isMatch : Bytes → Bool}

/-- The bucket of a candidate with visible lines. -/
def bucketAt (index : LiveIndex) (options : TextSearchOptions) (isMatch : Bytes → Bool)
    (path : String) : Option PathMatchBucket :=
  (getFile index path).bind fun file =>
    let scan := scanFile options isMatch file
    if 0 < scan.visibleCount then some ⟨path, scan.visibleCount, scan.matched⟩ else none

/-- The candidates' buckets are collected in order. -/
theorem foldl_collectPath (index : LiveIndex) (options : TextSearchOptions)
    (isMatch : Bytes → Bool) (candidates : List String) (collected : Collected) :
    (candidates.foldl (collectPath index options isMatch) collected).buckets =
      collected.buckets ++ candidates.filterMap (bucketAt index options isMatch) := by
  induction candidates generalizing collected with
  | nil => simp
  | cons path rest ih =>
    rw [foldl_cons, ih, filterMap_cons]
    unfold collectPath bucketAt
    cases found : getFile index path with
    | none => rfl
    | some file =>
      by_cases visible : 0 < (scanFile options isMatch file).visibleCount
      · simp [visible]
      · simp [visible]

/-- A bucket as it is reported. -/
def reportBucket (bucket : PathMatchBucket) : TextFileMatches := ⟨bucket.path, bucket.matched⟩

/-- The matches of all buckets. -/
def bucketTotal (buckets : List PathMatchBucket) : Nat :=
  (buckets.map fun bucket => bucket.matched.length).sum

/-- Every bucket has matches, and no more than the limit for a file. -/
def Fitting (options : TextSearchOptions) (buckets : List PathMatchBucket) : Prop :=
  ∀ bucket ∈ buckets, 0 < bucket.matched.length ∧ bucket.matched.length ≤ options.maxPerFile

variable {buckets : List PathMatchBucket}

/-- Without ranking every bucket is taken. -/
theorem takeBuckets_unranked (unranked : options.ranked = false) (fileIdx total : Nat)
    (fitting : Fitting options buckets) (room : total + bucketTotal buckets ≤ options.totalLimit) :
    (takeBuckets options fileIdx total buckets).1 = buckets.map reportBucket := by
  induction buckets generalizing fileIdx total with
  | nil => rfl
  | cons bucket rest ih =>
    obtain ⟨⟨some, few⟩, later⟩ := forall_mem_cons.mp fitting
    have sum : bucketTotal (bucket :: rest) = bucket.matched.length + bucketTotal rest := by
      simp [bucketTotal]
    rw [sum] at room
    have whole : bucket.matched.take (min options.maxPerFile (options.totalLimit - total)) =
        bucket.matched := take_of_length_le (by omega)
    have following := ih (fileIdx + 1) (total + bucket.matched.length) later (by omega)
    have below : ¬ options.totalLimit ≤ total := by omega
    have positive : ¬ min options.maxPerFile (options.totalLimit - total) = 0 := by omega
    have present : bucket.matched.isEmpty = false := by
      rw [isEmpty_eq_false_iff, ← length_pos_iff]
      exact some
    simp only [takeBuckets, unranked, Bool.false_eq_true, if_false, below, positive, whole, present,
      map_cons, following]
    rfl

/-- With ranking the buckets up to the cap are taken. -/
theorem takeBuckets_ranked (ranked : options.ranked = true) (fileIdx total : Nat)
    (fitting : Fitting options buckets) :
    (takeBuckets options fileIdx total buckets).1 =
      (buckets.take (rankedFileCap - fileIdx)).map reportBucket := by
  induction buckets generalizing fileIdx total with
  | nil => simp [takeBuckets]
  | cons bucket rest ih =>
    obtain ⟨⟨some, few⟩, later⟩ := forall_mem_cons.mp fitting
    by_cases capped : rankedFileCap ≤ fileIdx
    · have none : rankedFileCap - fileIdx = 0 := by omega
      simp [takeBuckets, ranked, capped, none]
    have whole : bucket.matched.take options.maxPerFile = bucket.matched := take_of_length_le few
    have following := ih (fileIdx + 1) (total + bucket.matched.length) later
    have positive : ¬ options.maxPerFile = 0 := by omega
    have present : bucket.matched.isEmpty = false := by
      rw [isEmpty_eq_false_iff, ← length_pos_iff]
      exact some
    have next : rankedFileCap - fileIdx = (rankedFileCap - (fileIdx + 1)) + 1 := by omega
    simp only [takeBuckets, ranked, if_true, capped, if_false, positive, whole, present,
      Bool.false_eq_true, following]
    rw [next, take_succ_cons, map_cons]
    rfl

/-- A total limit that does not bind truncates nothing. -/
theorem truncateRanked_eq {files : List TextFileMatches} (remaining : Nat)
    (present : ∀ file ∈ files, 0 < file.matched.length)
    (room : (files.map (·.matched.length)).sum ≤ remaining) :
    truncateRanked remaining files = files := by
  induction files generalizing remaining with
  | nil => rfl
  | cons file rest ih =>
    obtain ⟨some, later⟩ := forall_mem_cons.mp present
    rw [map_cons, sum_cons] at room
    have positive : ¬ remaining = 0 := by omega
    have whole : file.matched.take remaining = file.matched := take_of_length_le (by omega)
    have following := ih (remaining - file.matched.length) later (by omega)
    simp [truncateRanked, if_neg positive, whole, following]

/-- With limits that do not bind, the buckets are reported, up to the cap when ranked. -/
theorem reportFiles_perm (env : SearchEnvironment) (index : LiveIndex)
    (fitting : Fitting options buckets) (room : bucketTotal buckets ≤ options.totalLimit) :
    (reportFiles env index options buckets).1.Perm
      ((if options.ranked then buckets.take rankedFileCap else buckets).map reportBucket) := by
  cases ranked : options.ranked with
  | false =>
    have taken := takeBuckets_unranked ranked 0 0 fitting (by omega)
    have reported : (reportFiles env index options buckets).1 =
        (takeBuckets options 0 0 buckets).1 := by simp [reportFiles, ranked]
    rw [reported, taken, if_neg Bool.false_ne_true]
  | true =>
    have taken := takeBuckets_ranked ranked 0 0 fitting
    rw [Nat.sub_zero] at taken
    have rearranged := env.rank_perm index (takeBuckets options 0 0 buckets).1
    rw [taken] at rearranged
    have present : ∀ file ∈ env.rank index ((buckets.take rankedFileCap).map reportBucket),
        0 < file.matched.length := by
      intro file member
      obtain ⟨bucket, isBucket, rfl⟩ := mem_map.mp (rearranged.subset member)
      exact (fitting _ (mem_of_mem_take isBucket)).1
    have fits : ((env.rank index ((buckets.take rankedFileCap).map reportBucket)).map
        (·.matched.length)).sum ≤ options.totalLimit := by
      rw [(rearranged.map _).sum_eq, map_map]
      have fewer := ((take_sublist rankedFileCap buckets).map
        fun bucket => bucket.matched.length).sum_le_sum fun _ _ => zero_le _
      exact fewer.trans room
    have reported : (reportFiles env index options buckets).1 = truncateRanked options.totalLimit
        (env.rank index (takeBuckets options 0 0 buckets).1) := by simp [reportFiles, ranked]
    rw [reported, taken, truncateRanked_eq options.totalLimit present fits, if_pos rfl]
    exact rearranged

/-- How many lines of a path are visible. -/
def matchCount (index : LiveIndex) (options : TextSearchOptions) (isMatch : Bytes → Bool)
    (path : String) : Nat :=
  ((getFile index path).map fun file => (visibleLines options isMatch file).length).getD 0

/-- The line of the path, counted from one, is visible. -/
def VisibleAt (index : LiveIndex) (options : TextSearchOptions) (isMatch : Bytes → Bool)
    (path : String) (number : Nat) : Prop :=
  ∃ file, getFile index path = some file ∧
    ∃ entry ∈ visibleLines options isMatch file, entry.2 + 1 = number

/-- The pair of a path and a line is reported. -/
def Reported (files : List TextFileMatches) (path : String) (number : Nat) : Prop :=
  ∃ file ∈ files, file.path = path ∧ ∃ found ∈ file.matched, found.lineNumber = number

/-- A path with visible matches has a bucket of them. -/
theorem bucketAt_eq_some {path : String} {bucket : PathMatchBucket} :
    bucketAt index options isMatch path = some bucket ↔ ∃ file, getFile index path = some file ∧
      0 < (visibleLines options isMatch file).length ∧
      bucket = ⟨path, (visibleLines options isMatch file).length,
        ((visibleLines options isMatch file).take options.maxPerFile).map lineMatch⟩ := by
  unfold bucketAt
  rw [Option.bind_eq_some_iff]
  refine exists_congr fun file => and_congr_right fun _ => ?_
  obtain ⟨count, matched⟩ := scanFile_eq options isMatch file
  simp only [count, matched, Option.ite_none_right_eq_some, Option.some.injEq]
  exact and_congr_right fun _ => eq_comm

/-- What is known of the buckets of some candidates when the limits do not bind. -/
theorem bucketAt_spec {path : String} {bucket : PathMatchBucket}
    (perFile : matchCount index options isMatch path ≤ options.maxPerFile)
    (made : bucketAt index options isMatch path = some bucket) :
    bucket.path = path ∧ bucket.matched.length = matchCount index options isMatch path ∧
      0 < bucket.matched.length ∧
      ∀ number, (∃ found ∈ bucket.matched, found.lineNumber = number) ↔
        VisibleAt index options isMatch path number := by
  obtain ⟨file, found, visible, rfl⟩ := bucketAt_eq_some.mp made
  have count : matchCount index options isMatch path =
      (visibleLines options isMatch file).length := by rw [matchCount, found]; rfl
  rw [count] at perFile
  simp only [take_of_length_le perFile, length_map, count, true_and]
  refine ⟨visible, fun number => ?_⟩
  simp [VisibleAt, found, lineMatch]

/-- The reported candidates: all with visible lines, or as many as the cap admits. -/
structure Kept (index : LiveIndex) (options : TextSearchOptions) (isMatch : Bytes → Bool)
    (candidates : List String) (files : List TextFileMatches) (kept : List String) : Prop where
  subset : ∀ path ∈ kept, path ∈ candidates
  reported : ∀ path number,
    Reported files path number ↔ path ∈ kept ∧ VisibleAt index options isMatch path number
  capped : options.ranked = true → kept.length ≤ rankedFileCap
  whole : (options.ranked = true →
      (candidates.filter (0 < matchCount index options isMatch ·)).length ≤ rankedFileCap) →
    ∀ path ∈ candidates, 0 < matchCount index options isMatch path → path ∈ kept

/-- A path has a bucket if it has a match. -/
theorem exists_bucketAt {path : String} :
    (∃ bucket, bucketAt index options isMatch path = some bucket) ↔
      0 < matchCount index options isMatch path := by
  unfold matchCount
  cases found : getFile index path with
  | none => simp [bucketAt, found]
  | some file =>
    constructor
    · rintro ⟨bucket, made⟩
      obtain ⟨other, same, visible, -⟩ := bucketAt_eq_some.mp made
      rw [found] at same
      cases same
      exact visible
    · intro visible
      exact ⟨_, bucketAt_eq_some.mpr ⟨_, found, visible, rfl⟩⟩

variable {candidates : List String}

/-- The buckets stand for the candidates with visible lines. -/
theorem paths_filterMap_bucketAt :
    (candidates.filterMap (bucketAt index options isMatch)).map (·.path) =
      candidates.filter (0 < matchCount index options isMatch ·) := by
  induction candidates with
  | nil => rfl
  | cons path rest ih =>
    cases made : bucketAt index options isMatch path with
    | none =>
      have nothing : ¬ 0 < matchCount index options isMatch path := by
        rw [← exists_bucketAt, made]
        rintro ⟨bucket, some⟩
        cases some
      simp [made, nothing, ih]
    | some bucket =>
      have visible : 0 < matchCount index options isMatch path := exists_bucketAt.mp ⟨bucket, made⟩
      have same : bucket.path = path := by
        obtain ⟨file, -, -, rfl⟩ := bucketAt_eq_some.mp made
        rfl
      simp [made, visible, ih, same]

/-- The buckets hold no more than the matches. -/
theorem bucketTotal_le
    (perFile : ∀ path ∈ candidates, matchCount index options isMatch path ≤ options.maxPerFile) :
    bucketTotal (candidates.filterMap (bucketAt index options isMatch)) ≤
      (candidates.map (matchCount index options isMatch)).sum := by
  induction candidates with
  | nil => exact le_rfl
  | cons path rest ih =>
    obtain ⟨here, later⟩ := forall_mem_cons.mp perFile
    have following := ih later
    rw [map_cons, sum_cons]
    cases made : bucketAt index options isMatch path with
    | none =>
      rw [filterMap_cons_none made]
      omega
    | some bucket =>
      have length := (bucketAt_spec here made).2.1
      rw [filterMap_cons_some made]
      unfold bucketTotal at following ⊢
      rw [map_cons, sum_cons]
      omega

/-- Within the limits nothing is cut. -/
theorem exists_kept (env : SearchEnvironment) (label : Bytes)
    (perFile : ∀ path ∈ candidates, matchCount index options isMatch path ≤ options.maxPerFile)
    (total : (candidates.map (matchCount index options isMatch)).sum ≤ options.totalLimit) :
    ∃ kept, Kept index options isMatch candidates
      (collectTextMatches env index candidates isMatch label options).files kept := by
  obtain ⟨buckets, defined⟩ : ∃ buckets, buckets =
      sortBuckets (candidates.filterMap (bucketAt index options isMatch)) := ⟨_, rfl⟩
  have arranged : buckets.Perm (candidates.filterMap (bucketAt index options isMatch)) :=
    defined ▸ perm_insertionSort _ _
  have files : (collectTextMatches env index candidates isMatch label options).files =
      (reportFiles env index options buckets).1 := by
    have made := foldl_collectPath index options isMatch candidates ⟨[], 0, 0⟩
    rw [nil_append] at made
    rw [defined, ← made]
    rfl
  have isBucket : ∀ bucket ∈ buckets, ∃ path ∈ candidates,
      bucketAt index options isMatch path = some bucket :=
    fun bucket member => mem_filterMap.mp (arranged.subset member)
  have fitting : Fitting options buckets := by
    intro bucket member
    obtain ⟨path, isCandidate, made⟩ := isBucket _ member
    obtain ⟨-, length, positive, -⟩ := bucketAt_spec (perFile _ isCandidate) made
    exact ⟨positive, length ▸ perFile _ isCandidate⟩
  have room : bucketTotal buckets ≤ options.totalLimit := by
    have same : bucketTotal buckets = _ := (arranged.map _).sum_eq
    rw [same]
    exact (bucketTotal_le perFile).trans total
  have report := reportFiles_perm env index fitting room
  obtain ⟨taken, isTaken⟩ : ∃ taken, taken =
      if options.ranked then buckets.take rankedFileCap else buckets := ⟨_, rfl⟩
  rw [← isTaken, ← files] at report
  have takenSpec : ∀ bucket ∈ taken, bucket.path ∈ candidates ∧
      ∀ number, (∃ found ∈ bucket.matched, found.lineNumber = number) ↔
        VisibleAt index options isMatch bucket.path number := by
    intro bucket member
    have listed : bucket ∈ buckets := by
      rw [isTaken] at member
      split at member
      · exact mem_of_mem_take member
      · exact member
    obtain ⟨path, isCandidate, made⟩ := isBucket _ listed
    obtain ⟨rfl, -, -, visible⟩ := bucketAt_spec (perFile _ isCandidate) made
    exact ⟨isCandidate, visible⟩
  refine ⟨taken.map (·.path), ?_, ?_, ?_, ?_⟩
  · intro path member
    obtain ⟨bucket, inTaken, rfl⟩ := mem_map.mp member
    exact (takenSpec _ inTaken).1
  · intro path number
    constructor
    · rintro ⟨file, member, rfl, found⟩
      obtain ⟨bucket, inTaken, rfl⟩ := mem_map.mp (report.subset member)
      exact ⟨mem_map.mpr ⟨_, inTaken, rfl⟩, ((takenSpec _ inTaken).2 number).mp found⟩
    · rintro ⟨member, visible⟩
      obtain ⟨bucket, inTaken, rfl⟩ := mem_map.mp member
      exact ⟨reportBucket _, report.symm.subset (mem_map_of_mem inTaken), rfl,
        ((takenSpec _ inTaken).2 number).mpr visible⟩
  · intro ranked
    rw [isTaken, if_pos ranked, length_map, length_take]
    exact min_le_left _ _
  · intro few path isCandidate visible
    have whole : taken = buckets := by
      rw [isTaken]
      split
      · rename_i ranked
        refine take_of_length_le ?_
        rw [arranged.length_eq, ← length_map (·.path), paths_filterMap_bucketAt]
        exact few ranked
      · rfl
    rw [whole, (arranged.map _).mem_iff, paths_filterMap_bucketAt]
    exact mem_filter.mpr ⟨isCandidate, decide_eq_true visible⟩

end Buckets

variable (index : LiveIndex)

/-- The files that a search looks at: in scope and not hidden. -/
def searchedPaths (options : TextSearchOptions)
    (filters : CompiledTextGlobFilters) : List String :=
  pathsInScope index options filters false index.files.keys (getFile index)

/-- The line is to be reported: it is accepted, of a file in scope that is not hidden, and outside
the suppressed test ranges. -/
def IsMatchingLine (options : TextSearchOptions)
    (filters : CompiledTextGlobFilters) (isMatch : Bytes → Bool) (path : String) (number : Nat) :
    Prop :=
  ∃ file line position, getFile index path = some file ∧
    fileMatchesTextBaseScope index options filters path file = true ∧
    fileHiddenBySearchPolicy options path file = false ∧
    (searchLines file.content)[position]? = some line ∧ position + 1 = number ∧
    isMatch line = true ∧ inTestRange (testRanges options file) position = false

/-- The paths that have lines to be reported. -/
def matchingPaths (options : TextSearchOptions)
    (filters : CompiledTextGlobFilters) (isMatch : Bytes → Bool) : List String :=
  (searchedPaths index options filters).filter (0 < matchCount index options isMatch ·)

section Completeness

variable {index : LiveIndex} {options : TextSearchOptions} {filters : CompiledTextGlobFilters}
  {isMatch : Bytes → Bool} {terms : List Bytes} {path : String}

/-- A file that is served has a row. -/
theorem getFile_mem {file : IndexedFile} (found : getFile index path = some file) :
    index.files.lookup path = some file := by
  unfold getFile at found
  split at found
  · split at found
    · cases found
    · cases found
    · cases found
    · exact found
  · exact found

/-- A path in scope is served, in the base scope and not hidden. -/
theorem mem_pathsInScope {paths : List String} :
    path ∈ pathsInScope index options filters false paths (getFile index) ↔
      path ∈ paths ∧ ∃ file, getFile index path = some file ∧
        fileMatchesTextBaseScope index options filters path file = true ∧
        fileHiddenBySearchPolicy options path file = false := by
  simp [pathsInScope, Option.any_eq_true]

/-- The searched paths are those in scope. -/
theorem mem_searchedPaths :
    path ∈ searchedPaths index options filters ↔ ∃ file, getFile index path = some file ∧
      fileMatchesTextBaseScope index options filters path file = true ∧
      fileHiddenBySearchPolicy options path file = false := by
  rw [searchedPaths, mem_pathsInScope]
  refine and_iff_right_of_imp ?_
  rintro ⟨file, found, -⟩
  rw [← AList.mem_keys, ← AList.lookup_isSome, getFile_mem found]
  rfl

/-- A matching line is visible on a searched path. -/
theorem isMatchingLine_iff {number : Nat} :
    IsMatchingLine index options filters isMatch path number ↔
      path ∈ searchedPaths index options filters ∧ VisibleAt index options isMatch path number := by
  rw [mem_searchedPaths]
  constructor
  · rintro ⟨file, line, position, found, inScope, shown, isLine, rfl, accepted, outside⟩
    refine ⟨⟨_, found, inScope, shown⟩, _, found, (line, position), ?_, rfl⟩
    refine mem_filter.mpr ⟨mem_zipIdx_iff_getElem?.mpr isLine, ?_⟩
    simp [accepted, outside]
  · rintro ⟨⟨file, found, inScope, shown⟩, same, foundAgain, ⟨line, position⟩, visible, rfl⟩
    rw [found] at foundAgain
    cases foundAgain
    obtain ⟨isLine, passes⟩ := mem_filter.mp visible
    rw [Bool.and_eq_true, Bool.not_eq_true'] at passes
    exact ⟨_, _, _, found, inScope, shown, mem_zipIdx_iff_getElem?.mp isLine, rfl,
      passes.1, passes.2⟩

/-- The trigram index finds the files that hold a term up to the case of ASCII letters. -/
theorem mem_trigramPaths (derived : index.Derived) (asked : ∀ term ∈ terms, term ≠ []) :
    path ∈ trigramPaths index terms ↔
      ∃ term ∈ terms, Index.TrigramIndex.Contains index.files.contents term path := by
  have represents : index.trigramIndex.Represents index.files.contents.lookup :=
    contents_lookup index.files ▸ derived.trigrams
  rw [trigramPaths, mem_dedup, mem_flatMap]
  refine exists_congr fun term => and_congr_right fun member => ?_
  exact (represents.search_exact (asked _ member)).2 _

/-- A match is a visible line. -/
theorem matchCount_pos_iff :
    0 < matchCount index options isMatch path ↔
      ∃ number, VisibleAt index options isMatch path number := by
  unfold matchCount VisibleAt
  cases found : getFile index path with
  | none => simp
  | some file =>
    constructor
    · intro visible
      obtain ⟨entry, member⟩ := exists_mem_of_length_pos visible
      exact ⟨entry.2 + 1, _, rfl, _, member, rfl⟩
    · rintro ⟨number, same, here, entry, member, -⟩
      cases here
      exact length_pos_of_mem member

/-- Only the total limit is raised. -/
theorem effectiveOptions_eq :
    ∃ limit, options.totalLimit ≤ limit ∧
      effectiveOptions options terms = { options with totalLimit := limit } := by
  unfold effectiveOptions
  by_cases several : 1 < terms.length
  · rw [if_pos several]
    exact ⟨_, Nat.le_mul_of_pos_right _ (by omega), rfl⟩
  · rw [if_neg several]
    exact ⟨_, le_rfl, rfl⟩

/-- The candidates of a literal search. -/
theorem candidates_spec :
    let candidates :=
      pathsInScope index options filters false (trigramPaths index terms) (getFile index)
    candidates.Nodup ∧ candidates ⊆ searchedPaths index options filters ∧
      ∀ path ∈ searchedPaths index options filters, path ∈ trigramPaths index terms →
        path ∈ candidates := by
  refine ⟨(nodup_dedup _).filter _, ?_, ?_⟩
  · intro path member
    exact mem_searchedPaths.mpr (mem_pathsInScope.mp member).2
  · intro path searched listed
    exact mem_pathsInScope.mpr ⟨listed, mem_searchedPaths.mp searched⟩

/-- A literal search is meant to report the lines to be reported and no others, and the trigram
index to leave out no file with such a line. -/
def Complete (index : LiveIndex) (options : TextSearchOptions) (filters : CompiledTextGlobFilters)
    (isMatch : Bytes → Bool) (terms : List Bytes) (result : TextSearchResult) : Prop :=
  (∀ path number, Reported result.files path number ↔
    IsMatchingLine index options filters isMatch path number) ∧
  ∀ path number, IsMatchingLine index options filters isMatch path number →
    path ∈ trigramPaths index terms

/-- The limits do not bind: no file has more lines to report than the limit for a file, and all
together no more than the total limit. -/
def WithinLimits (index : LiveIndex) (options : TextSearchOptions)
    (filters : CompiledTextGlobFilters) (isMatch : Bytes → Bool) : Prop :=
  (∀ path ∈ searchedPaths index options filters,
    matchCount index options isMatch path ≤ options.maxPerFile) ∧
  ((searchedPaths index options filters).map (matchCount index options isMatch)).sum ≤
    options.totalLimit

/-- If the trigram index leaves out no file to be reported, a search is complete unless ranking caps
it. -/
theorem Kept.reported_iff {candidates kept : List String} {files : List TextFileMatches}
    (isKept : Kept index options isMatch candidates files kept) (distinct : candidates.Nodup)
    (subset : candidates ⊆ searchedPaths index options filters)
    (found : ∀ path number, IsMatchingLine index options filters isMatch path number →
      path ∈ candidates) :
    (∀ path number, Reported files path number ↔
        IsMatchingLine index options filters isMatch path number) ↔
      (options.ranked = true →
        (matchingPaths index options filters isMatch).length ≤ rankedFileCap) := by
  constructor
  · intro complete ranked
    have distinctPaths : (matchingPaths index options filters isMatch).Nodup :=
      ((AList.keys_nodup index.files).filter _).filter _
    have contained : matchingPaths index options filters isMatch ⊆ kept := by
      intro path member
      obtain ⟨searched, visible⟩ := mem_filter.mp member
      obtain ⟨number, isVisible⟩ := matchCount_pos_iff.mp (of_decide_eq_true visible)
      have isReported := (complete _ _).mpr (isMatchingLine_iff.mpr ⟨searched, isVisible⟩)
      exact ((isKept.reported _ _).mp isReported).1
    exact le_trans (subperm_of_subset distinctPaths contained).length_le
      (isKept.capped ranked)
  · intro few path number
    rw [isKept.reported, isMatchingLine_iff]
    refine and_congr_left fun visible => ⟨fun member => subset (isKept.subset _ member), ?_⟩
    intro searched
    refine isKept.whole (fun ranked => ?_) _
      (found _ _ (isMatchingLine_iff.mpr ⟨searched, visible⟩))
      (matchCount_pos_iff.mpr ⟨_, visible⟩)
    refine le_trans ?_ (few ranked)
    refine (subperm_of_subset (distinct.filter _) fun other member => ?_).length_le
    obtain ⟨isCandidate, counts⟩ := mem_filter.mp member
    exact mem_filter.mpr ⟨subset isCandidate, counts⟩

variable (env : SearchEnvironment)

/-- When both collections together are complete. -/
theorem collect_complete_iff (derived : index.Derived)
    (asked : ∀ term ∈ terms, term ≠ []) (within : WithinLimits index options filters isMatch)
    {hidden : List String} {label : Bytes} :
    Complete index options filters isMatch terms
        (collectBoth env index
          (pathsInScope index options filters false (trigramPaths index terms) (getFile index))
          hidden isMatch label (effectiveOptions options terms)) ↔
      (∀ path number, IsMatchingLine index options filters isMatch path number →
        ∃ term ∈ terms, Index.TrigramIndex.Contains index.files.contents term path) ∧
      (options.ranked = true →
        (matchingPaths index options filters isMatch).length ≤ rankedFileCap) := by
  obtain ⟨limit, larger, effective⟩ := effectiveOptions_eq
  obtain ⟨distinct, subset, complete⟩ := candidates_spec
  rw [effective]
  generalize pathsInScope index options filters false (trigramPaths index terms) (getFile index) =
    candidates at distinct subset complete ⊢
  have perFile : ∀ path ∈ candidates,
      matchCount index { options with totalLimit := limit } isMatch path ≤ options.maxPerFile :=
    fun path member => within.1 _ (subset member)
  have total : (candidates.map
      (matchCount index { options with totalLimit := limit } isMatch)).sum ≤ limit := by
    obtain ⟨others, permuted, sublist⟩ := subperm_of_subset distinct subset
    have counts := (sublist.map (matchCount index options isMatch)).sum_le_sum
      fun _ _ => zero_le _
    rw [(permuted.map _).sum_eq] at counts
    exact counts.trans (within.2.trans larger)
  obtain ⟨kept, isKept⟩ := exists_kept _ label perFile total
  have same : (∀ path number, IsMatchingLine index options filters isMatch path number →
      path ∈ trigramPaths index terms) ↔
        ∀ path number, IsMatchingLine index options filters isMatch path number →
          ∃ term ∈ terms, Index.TrigramIndex.Contains index.files.contents term path :=
    forall₂_congr fun _ _ => imp_congr_right fun _ => mem_trigramPaths derived asked
  unfold Complete
  rw [← same, and_comm]
  refine and_congr_right fun found => ?_
  have reported : Kept index options isMatch candidates _ kept := { isKept with }
  refine reported.reported_iff distinct subset fun path number matching => ?_
  exact complete _ (isMatchingLine_iff.mp matching).1 (found _ _ matching)

variable {env : SearchEnvironment}

/-- A line matches where a term occurs but for case. -/
theorem occurs_of_lineMatches {line : Bytes} (literal : options.wholeWord = false)
    (accepted : lineMatches env options terms true line = true) :
    ∃ term ∈ terms, toAsciiLowercase term <:+: toAsciiLowercase line := by
  unfold lineMatches at accepted
  rw [if_neg (by rw [literal]; exact Bool.false_ne_true), if_pos rfl] at accepted
  split at accepted
  · obtain ⟨term, member, occurs⟩ := (env.ahoCorasick_iff _ _ _).mp accepted
    exact ⟨_, member, IsInfix.map _ occurs⟩
  · obtain ⟨term, member, occurs⟩ := any_eq_true.mp accepted
    exact ⟨_, member, (of_decide_eq_true occurs).map _⟩

/-- Every file with a line to be reported by a case-sensitive search holds a term. -/
theorem contains_of_isMatchingLine {number : Nat} (literal : options.wholeWord = false)
    (valid : ∀ path file, index.files.lookup path = some file → validUtf8 file.content = true)
    (matching : IsMatchingLine index options filters
      (lineMatches env options terms true) path number) :
    ∃ term ∈ terms, Index.TrigramIndex.Contains index.files.contents term path := by
  obtain ⟨file, line, position, found, -, -, isLine, -, accepted, -⟩ := matching
  have stored := getFile_mem found
  have inContent : line <:+: file.content := by
    obtain ⟨whole, member, rfl⟩ := mem_map.mp (mem_of_getElem? isLine)
    rw [fromUtf8Lossy_valid (valid _ _ stored)] at member
    have front := rdropWhile_prefix (· == 0x0D) whole
    exact front.isInfix.trans (isInfix_of_mem_lines member)
  obtain ⟨term, member, occurs⟩ := occurs_of_lineMatches literal accepted
  refine ⟨_, member, file.content, ?_, occurs.trans (inContent.map _)⟩
  exact (congrFun (contents_lookup index.files) _).trans (congrArg (Option.map _) stored)

variable (env)

/-- The predicate that a literal search accepts a line by. -/
def accepts (options : TextSearchOptions) (query : Option Bytes)
    (asked : Option (List Bytes)) : Bytes → Bool :=
  lineMatches env options (normalizedTerms query asked) (options.caseSensitive.getD false)

variable {asked : Option (List Bytes)} {query : Option Bytes}

/-- No term is empty. -/
theorem normalizedTerms_ne_nil : ∀ term ∈ normalizedTerms query asked, term ≠ [] :=
  fun _ member => of_decide_eq_true (mem_filter.mp member).2

/-- The literal search behind its checks. -/
theorem searchTextWithOptions_literal {env : SearchEnvironment}
    (compiled : compileTextGlobFilters env options = .ok filters)
    (nonempty : normalizedTerms query asked ≠ []) :
    searchTextWithOptions env index query asked false options =
      .ok (searchLiteral env index options filters (normalizedTerms query asked)
        (options.caseSensitive.getD false)) := by
  rw [searchTextWithOptions, compiled]
  exact if_neg nonempty

/-- A case-sensitive search for literal terms over valid UTF-8 is complete when its limits do not
bind and its files are not ranked. -/
theorem searchText_complete_of_caseSensitive (derived : index.Derived)
    (compiled : compileTextGlobFilters env options = .ok filters)
    (nonempty : normalizedTerms query asked ≠ [])
    (valid : ∀ path file, index.files.lookup path = some file → validUtf8 file.content = true)
    (literal : options.wholeWord = false) (sensitive : options.caseSensitive = some true)
    (unranked : options.ranked = false)
    (within : WithinLimits index options filters (accepts env options query asked)) :
    ∃ result, searchTextWithOptions env index query asked false options = .ok result ∧
      Complete index options filters (accepts env options query asked)
        (normalizedTerms query asked) result := by
  refine ⟨_, searchTextWithOptions_literal compiled nonempty, ?_⟩
  refine (collect_complete_iff _ derived normalizedTerms_ne_nil within).mpr ⟨?_, ?_⟩
  · intro path number matching
    rw [accepts, sensitive] at matching
    exact contains_of_isMatchingLine literal valid matching
  · intro ranked
    rw [unranked] at ranked
    cases ranked

/-- A literal search whose limits do not bind is complete exactly when every file with a line to
report holds one of the terms up to ASCII case and, if the files are ranked, there are no more of
them than the cap. -/
theorem searchText_complete_iff (env : SearchEnvironment) (derived : index.Derived)
    (query : Option Bytes) (asked : Option (List Bytes))
    (compiled : compileTextGlobFilters env options = .ok filters)
    (nonempty : normalizedTerms query asked ≠ [])
    (within : WithinLimits index options filters (accepts env options query asked)) :
    ∃ result, searchTextWithOptions env index query asked false options = .ok result ∧
      (Complete index options filters (accepts env options query asked)
          (normalizedTerms query asked) result ↔
        (∀ path number,
          IsMatchingLine index options filters (accepts env options query asked) path number →
            ∃ term ∈ normalizedTerms query asked,
              Index.TrigramIndex.Contains index.files.contents term path) ∧
        (options.ranked = true →
          (matchingPaths index options filters (accepts env options query asked)).length ≤
            rankedFileCap)) := by
  exact ⟨_, searchTextWithOptions_literal compiled nonempty,
    collect_complete_iff _ derived normalizedTerms_ne_nil within⟩

end Completeness

/-- `str::to_lowercase` on ASCII and on the letters of Latin-1. -/
def latinLowercase : Bytes → Bytes
  | [] => []
  | [last] => toAsciiLowercase [last]
  | first :: second :: rest =>
    if first = 0xC3 ∧ 0x80 ≤ second ∧ second ≤ 0x9E ∧ second ≠ 0x97 then
      first :: (second + 0x20) :: latinLowercase rest
    else toAsciiLowercase [first] ++ latinLowercase (second :: rest)

/-- An environment for searches without expressions, globs and ranking. -/
def plainEnvironment : SearchEnvironment where
  toLowercase := latinLowercase
  compileRegex _ _ := .error "unsupported"
  wholeWordMatcher _ _ _ := false
  ahoCorasick terms caseSensitive line := terms.any fun term =>
    if caseSensitive then decide (term <:+: line)
    else decide (toAsciiLowercase term <:+: toAsciiLowercase line)
  ahoCorasick_iff terms caseSensitive line := by cases caseSensitive <;> simp
  compileGlob _ := .error "unsupported"
  rank _ files := files
  rank_perm _ files := List.Perm.refl files

/-- A file of code. -/
def codeFile (content : Bytes) : IndexedFile where
  content := content
  language := .rust
  symbols := []
  references := []
  aliasMap := []
  classification := ⟨.code, false, false, false, false⟩
  parseStatus := .parsed
  byteLen := content.length
  contentHash := "h"
  mtimeSecs := 0

/-- An index of one file. -/
def oneFileIndex (content : Bytes) : LiveIndex :=
  { SharedIndexHandle.emptyLiveIndex with
    files := (∅ : Rows).insert "a.rs" (codeFile content) }.rebuildDerived

/-- The line `let a` is reported by a case-sensitive search for `let`. -/
theorem sensitive_search_complete :
    let options := { TextSearchOptions.forCurrentCodeSearch with caseSensitive := some true }
    ∃ result, searchTextWithOptions plainEnvironment (oneFileIndex (utf8 "let a"))
        (some (utf8 "let")) none false options = .ok result ∧
      Complete (oneFileIndex (utf8 "let a")) options ⟨none, none⟩
        (accepts plainEnvironment options (some (utf8 "let")) none) [utf8 "let"] result := by
  refine searchText_complete_of_caseSensitive _ (LiveIndex.rebuildDerived_derived _) rfl (by decide)
    (fun path file found => ?_) rfl rfl rfl ⟨by decide, by decide⟩
  obtain ⟨rfl, rfl⟩ | ⟨-, absent⟩ := Table.lookup_insert_iff.mp found
  · decide
  · cases absent

/-- A search for `é` does not report the line `É`, although it is accepted. -/
theorem search_misses_capital :
    (oneFileIndex [0xC3, 0x89]).Derived ∧
    WithinLimits (oneFileIndex [0xC3, 0x89]) .forCurrentCodeSearch ⟨none, none⟩
      (accepts plainEnvironment .forCurrentCodeSearch none (some [[0xC3, 0xA9]])) ∧
    ∃ result, searchTextWithOptions plainEnvironment (oneFileIndex [0xC3, 0x89]) none
        (some [[0xC3, 0xA9]]) false .forCurrentCodeSearch = .ok result ∧
      IsMatchingLine (oneFileIndex [0xC3, 0x89]) .forCurrentCodeSearch ⟨none, none⟩
        (accepts plainEnvironment .forCurrentCodeSearch none (some [[0xC3, 0xA9]])) "a.rs" 1 ∧
      ¬ Reported result.files "a.rs" 1 := by
  refine ⟨LiveIndex.rebuildDerived_derived _, ⟨by decide, by decide⟩, _, rfl, ?_, ?_⟩
  · exact ⟨codeFile [0xC3, 0x89], [0xC3, 0x89], 0, rfl, by decide, by decide, by decide, rfl,
      by decide, by decide⟩
  · rintro ⟨file, member, -⟩
    have nothing : file ∈ ([] : List TextFileMatches) := member
    cases nothing

/-- A search for `let` reports the line `Let a`. -/
theorem search_reports_ascii :
    ∃ result, searchTextWithOptions plainEnvironment (oneFileIndex (utf8 "Let a")) none
        (some [utf8 "let"]) false .forCurrentCodeSearch = .ok result ∧
      Complete (oneFileIndex (utf8 "Let a")) .forCurrentCodeSearch ⟨none, none⟩
        (accepts plainEnvironment .forCurrentCodeSearch none (some [utf8 "let"]))
        [utf8 "let"] result := by
  obtain ⟨result, ran, complete⟩ := searchText_complete_iff plainEnvironment
    (LiveIndex.rebuildDerived_derived _ : (oneFileIndex (utf8 "Let a")).Derived) none
    (some [utf8 "let"]) (rfl : compileTextGlobFilters plainEnvironment .forCurrentCodeSearch =
      .ok ⟨none, none⟩) (by decide) ⟨by decide, by decide⟩
  refine ⟨_, ran, complete.mpr ⟨?_, nofun⟩⟩
  rintro path number ⟨file, line, position, found, -⟩
  have stored : ((∅ : Rows).insert "a.rs" (codeFile (utf8 "Let a"))).lookup path = some file :=
    getFile_mem found
  rcases Table.lookup_insert_iff.mp stored with ⟨rfl, rfl⟩ | ⟨-, absent⟩
  · exact ⟨utf8 "let", by decide, utf8 "Let a", rfl, by decide⟩
  rw [AList.lookup_empty] at absent
  cases absent

end Symforge.Store
