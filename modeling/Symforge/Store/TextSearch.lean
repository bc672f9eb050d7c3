import Mathlib.Data.List.Infix
import Symforge.Index.TrigramAgreement
import Symforge.Store.TextScope

/-!
# Text search

Model of `search_text_with_options` and `collect_text_matches` in `live_index/search.rs`. A literal
search asks the trigram index for the files that may hold a term and then reads the lines of those
files; a search by a regular expression reads every file in scope. A set of paths is a list without
repetitions, in the order in which it is iterated.
-/

namespace Symforge.Store

open Library

/-- `search::MAX_DISPLAY_LINE_CHARS`. -/
def maxDisplayLineChars : Nat := 2000

/-- `search::SUPPRESSED_TEXT_MATCH_DISPLAY_CAP`. -/
def suppressedTextMatchDisplayCap : Nat := 100

/-- `RANKED_FILE_CAP` of `collect_text_matches`. -/
def rankedFileCap : Nat := 500

/-- Where the characters of a text start. -/
def charStarts (text : Bytes) : List Nat := (List.range text.length).filter (isCharBoundary text)

/-- `search::truncate_display_line`. -/
def truncateDisplayLine (line : Bytes) : Bytes :=
  let starts := charStarts line
  if line.length ≤ maxDisplayLineChars ∨ starts.length ≤ maxDisplayLineChars then line
  else
    let omitted := starts.length - maxDisplayLineChars
    line.take (starts[maxDisplayLineChars]?.getD line.length) ++
      utf8 s!"... [line truncated, {omitted} chars omitted]"

/-- The lines of a file as the search reads them. -/
def searchLines (content : Bytes) : List Bytes :=
  (lines (fromUtf8Lossy content)).map fun line => line.rdropWhile (· == 0x0D)

/-- `search::compute_test_ranges`. -/
def computeTestRanges (file : IndexedFile) : List (Nat × Nat) :=
  (file.symbols.filter fun symbol => symbol.name == "tests" && symbol.kind == .module).map
    (·.lineRange)

variable (options : TextSearchOptions)

/-- The line ranges in which matches are suppressed. -/
def testRanges (file : IndexedFile) : List (Nat × Nat) :=
  if !options.noisePolicy.includeTests && file.language == .rust then computeTestRanges file else []

/-- The line, counted from zero, is in one of the ranges. -/
def inTestRange (ranges : List (Nat × Nat)) (line : Nat) : Bool :=
  ranges.any fun range => decide (range.1 ≤ line) && decide (line ≤ range.2)

/-- The variables of the loop over the lines of a file. -/
structure FileScan where
  visibleCount : Nat
  suppressed : Nat
  matched : List TextLineMatch

/-- One line of a file. -/
def scanLine (isMatch : Bytes → Bool) (ranges : List (Nat × Nat))
    (scan : FileScan) (entry : Bytes × Nat) : FileScan :=
  if !isMatch entry.1 then scan
  else if inTestRange ranges entry.2 then { scan with suppressed := scan.suppressed + 1 }
  else { scan with
    visibleCount := scan.visibleCount + 1
    matched := if scan.matched.length < options.maxPerFile then
        scan.matched ++ [⟨entry.2 + 1, truncateDisplayLine entry.1⟩]
      else scan.matched }

/-- The loop over the lines of a file. -/
def scanFile (isMatch : Bytes → Bool) (file : IndexedFile) :
    FileScan :=
  (searchLines file.content).zipIdx.foldl
    (scanLine options isMatch (testRanges options file)) ⟨0, 0, []⟩

/-- `PathMatchBucket` of `collect_text_matches`. -/
structure PathMatchBucket where
  path : String
  visibleCount : Nat
  matched : List TextLineMatch

/-- The variables of the loop over the candidates. -/
structure Collected where
  buckets : List PathMatchBucket
  suppressedByNoise : Nat
  allVisibleMatches : Nat

/-- One candidate. -/
def collectPath (index : LiveIndex) (options : TextSearchOptions) (isMatch : Bytes → Bool)
    (collected : Collected) (path : String) : Collected :=
  match getFile index path with
  | none => collected
  | some file =>
    let scan := scanFile options isMatch file
    { buckets := if 0 < scan.visibleCount then
        collected.buckets ++ [⟨path, scan.visibleCount, scan.matched⟩] else collected.buckets
      suppressedByNoise := collected.suppressedByNoise + scan.suppressed
      allVisibleMatches := collected.allVisibleMatches + scan.visibleCount }

/-- Many matches first, then by path. -/
def sortBuckets (buckets : List PathMatchBucket) : List PathMatchBucket :=
  buckets.insertionSort fun one other => other.visibleCount < one.visibleCount ∨
    one.visibleCount = other.visibleCount ∧ one.path ≤ other.path

/-- The loop over the sorted buckets, with the number of files and of matches taken before. -/
def takeBuckets (options : TextSearchOptions) :
    Nat → Nat → List PathMatchBucket → List TextFileMatches × Nat
  | _, total, [] => ([], total)
  | fileIdx, total, bucket :: rest =>
    if (if options.ranked then rankedFileCap ≤ fileIdx else options.totalLimit ≤ total) then
      ([], total)
    else
      let perFileLimit := if options.ranked then options.maxPerFile
        else min options.maxPerFile (options.totalLimit - total)
      if perFileLimit = 0 then ([], total)
      else
        let matched := bucket.matched.take perFileLimit
        if matched.isEmpty then takeBuckets options (fileIdx + 1) total rest
        else
          let (files, final) := takeBuckets options (fileIdx + 1) (total + matched.length) rest
          (⟨bucket.path, matched⟩ :: files, final)

/-- The truncation to the total limit after ranking. -/
def truncateRanked : Nat → List TextFileMatches → List TextFileMatches
  | _, [] => []
  | remaining, file :: rest =>
    if remaining = 0 then truncateRanked remaining rest
    else
      let matched := file.matched.take remaining
      { file with matched := matched } :: truncateRanked (remaining - matched.length) rest

/-- `search::TextSearchResult`. -/
structure TextSearchResult where
  label : Bytes
  totalMatches : Nat
  files : List TextFileMatches
  suppressedByNoise : Nat
  overflowCount : Nat
  excludedKnowledgeFiles : Nat
  withheldPolicyFiles : Nat
  withheldSizeFiles : Nat

/-- How many catalog entries in the path scope have a disposition of this kind. -/
def countInScope (index : LiveIndex) (scope : PathScope) (counts : FileDisposition → Bool) : Nat :=
  index.manifestEntries.countP fun entry =>
    entry.path.normalizedUtf8.any scope.matches && counts entry.disposition

/-- `search::count_in_scope_knowledge_only_files`. -/
def countInScopeKnowledgeOnlyFiles (index : LiveIndex) (scope : PathScope)
    (searchScope : SearchScope) : Nat :=
  if searchScope ≠ .code then 0
  else countInScope index scope fun
    | .indexed .knowledge _ => true
    | _ => false

/-- `search::count_in_scope_withheld_files`. -/
def countInScopeWithheldFiles (index : LiveIndex) (scope : PathScope) : Nat × Nat :=
  (countInScope index scope fun
      | .metadataOnly (.sensitivePath _) | .metadataOnly (.sensitiveContent _ _) => true
      | _ => false,
    countInScope index scope fun
      | .metadataOnly .oversizedData | .hardSkip .perFileCeiling => true
      | _ => false)

variable (env : SearchEnvironment) (index : LiveIndex) (options : TextSearchOptions)

/-- The files of the sorted buckets that are reported, and the number of their matches. -/
def reportFiles (buckets : List PathMatchBucket) : List TextFileMatches × Nat :=
  let (files, total) := takeBuckets options 0 0 buckets
  if options.ranked then
    let ranked := truncateRanked options.totalLimit (env.rank index files)
    (ranked, (ranked.map (·.matched.length)).sum)
  else (files, total)

/-- `search::collect_text_matches`. -/
def collectTextMatches (candidatePaths : List String) (isMatch : Bytes → Bool) (label : Bytes)
    (options : TextSearchOptions) : TextSearchResult :=
  let collected := candidatePaths.foldl (collectPath index options isMatch) ⟨[], 0, 0⟩
  let (files, totalMatches) := reportFiles env index options (sortBuckets collected.buckets)
  let (policy, size) := countInScopeWithheldFiles index options.pathScope
  { label := label
    totalMatches := totalMatches
    files := files
    suppressedByNoise := collected.suppressedByNoise
    overflowCount := collected.allVisibleMatches - totalMatches
    excludedKnowledgeFiles :=
      countInScopeKnowledgeOnlyFiles index options.pathScope options.searchScope
    withheldPolicyFiles := policy
    withheldSizeFiles := size }

/-- `search::count_suppressed_text_matches`; it stops one beyond the cap. -/
def countSuppressedTextMatches (candidatePaths : List String) (isMatch : Bytes → Bool) : Nat :=
  let counts := candidatePaths.filterMap fun path =>
    (getFile index path).map fun file => (searchLines file.content).countP isMatch
  min counts.sum (suppressedTextMatchDisplayCap + 1)

/-- The matches in the visible candidates, and the number of those in the hidden ones. -/
def collectBoth (visible hidden : List String)
    (isMatch : Bytes → Bool) (label : Bytes) (options : TextSearchOptions) : TextSearchResult :=
  let result := collectTextMatches env index visible isMatch label options
  { result with
    suppressedByNoise :=
      result.suppressedByNoise + countSuppressedTextMatches index hidden isMatch }

variable (filters : CompiledTextGlobFilters)

/-- The paths in scope that the policy hides, or those it does not hide. -/
def pathsInScope (hidden : Bool) (paths : List String)
    (look : String → Option IndexedFile) : List String :=
  paths.filter fun path => (look path).any fun file =>
    fileMatchesTextBaseScope index options filters path file &&
      fileHiddenBySearchPolicy options path file == hidden

variable (query : Option Bytes)

/-- `normalized_terms`. -/
def normalizedTerms (terms : Option (List Bytes)) : List Bytes :=
  let texts := match terms with
    | some (first :: rest) => first :: rest
    | _ => query.toList
  (texts.map trim).filter (· ≠ [])

/-- `str::is_ascii`. -/
def isAscii (text : Bytes) : Bool := text.all (· < 0x80)

variable (terms : List Bytes) (caseSensitive : Bool)

/-- `line_matches`: whether a line is accepted. -/
def lineMatches (line : Bytes) : Bool :=
  if options.wholeWord then env.wholeWordMatcher terms caseSensitive line
  else if 1 < terms.length ∧ terms.all isAscii then env.ahoCorasick terms caseSensitive line
  else if caseSensitive then terms.any fun term => decide (term <:+: line)
  else
    let lowered := env.toLowercase line
    terms.any fun term => decide (env.toLowercase term <:+: lowered)

/-- The label of a literal search. -/
def literalLabel : Bytes :=
  match terms with
  | [term] => utf8 "'" ++ term ++ utf8 "'"
  | _ => utf8 "terms [" ++ (utf8 ", ").intercalate terms ++ utf8 "]"

/-- The files that the trigram index finds for one of the terms. -/
def trigramPaths : List String :=
  (terms.flatMap fun term => index.trigramIndex.search term index.files.contents).dedup

/-- The options with the total limit scaled to the number of terms. -/
def effectiveOptions : TextSearchOptions :=
  if 1 < terms.length then { options with totalLimit := options.totalLimit * terms.length }
  else options

/-- The search for literal terms. -/
def searchLiteral (terms : List Bytes) (caseSensitive : Bool) :
    TextSearchResult :=
  let paths := trigramPaths index terms
  collectBoth env index
    (pathsInScope index options filters false paths (getFile index))
    (pathsInScope index options filters true paths (getFile index))
    (lineMatches env options terms caseSensitive) (literalLabel terms)
    (effectiveOptions options terms)

/-- The search for a regular expression. -/
def searchRegex :
    Except TextSearchError TextSearchResult :=
  let pattern := (query.map trim).getD []
  if options.wholeWord then .error .unsupportedWholeWordRegex
  else if pattern = [] then .error .emptyRegexQuery
  else match env.compileRegex pattern (!caseSensitive) with
    | .error message => .error (.invalidRegex pattern message)
    | .ok isMatch =>
      let paths := index.files.keys
      .ok (collectBoth env index
        (pathsInScope index options filters false paths index.files.lookup)
        (pathsInScope index options filters true paths index.files.lookup)
        isMatch (utf8 "regex '" ++ pattern ++ utf8 "'") options)

/-- `search::search_text_with_options`. -/
def searchTextWithOptions
    (terms : Option (List Bytes)) (regex : Bool) (options : TextSearchOptions) :
    Except TextSearchError TextSearchResult := do
  let filters ← compileTextGlobFilters env options
  let caseSensitive := options.caseSensitive.getD regex
  if regex then searchRegex env index options filters query caseSensitive
  else
    let normalized := normalizedTerms query terms
    if normalized = [] then .error .emptyQueryOrTerms
    else .ok (searchLiteral env index options filters normalized caseSensitive)

end Symforge.Store
