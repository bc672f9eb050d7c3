import Mathlib.Data.List.DropRight
import Symforge.Store.LiveIndex
import Symforge.Utf8

/-!
# Which files a text search looks at

Model of the scopes and policies of `live_index/search.rs`: the path scope, the search scope over
the catalog's targets, the language and glob filters, and the noise policy. The crates for regular
expressions, globs and word sets, Unicode case mapping and the ranking of files are an environment;
the ranking only rearranges the files. Limits are natural numbers.
-/

namespace Symforge.Store

/-- `search::PathScope`. -/
inductive PathScope where
  | any
  | exact (path : String)
  | under (path : String)
  deriving DecidableEq, Repr

/-- `PathScope::matches`. -/
def PathScope.matches : PathScope → String → Bool
  | .any, _ => true
  | .exact exactPath, path => path == exactPath
  | .under directory, path =>
    let normalized := (utf8 directory).rdropWhile (· == 0x2F)
    let path := utf8 path
    normalized.isEmpty || path == normalized ||
      (normalized.isPrefixOf path && (path.drop normalized.length).head? == some 0x2F)

/-- `search::SearchScope`. -/
inductive SearchScope where
  | all | code | text | binary
  deriving DecidableEq, Repr

/-- `SearchScope::allows`. -/
def SearchScope.allows (scope : SearchScope) (classification : FileClassification) : Bool :=
  match scope with
  | .all => true
  | .code => classification.fileClass == .code
  | .text => classification.fileClass == .text
  | .binary => classification.fileClass == .binary

/-- `IndexTargets::includes_code`. -/
def includesCode (targets : IndexTargets) : Bool := targets == .code || targets == .codeAndKnowledge

/-- `IndexTargets::includes_knowledge`. -/
def includesKnowledge (targets : IndexTargets) : Bool :=
  targets == .knowledge || targets == .codeAndKnowledge

/-- `SearchScope::allows_targets`. -/
def SearchScope.allowsTargets (scope : SearchScope) (classification : FileClassification)
    (targets : Option IndexTargets) : Bool :=
  match scope, targets with
  | .all, _ => true
  | .code, some targets => includesCode targets
  | .text, some targets => includesKnowledge targets
  | .binary, _ => classification.fileClass == .binary
  | scope, none => scope.allows classification

variable (index : LiveIndex) (path : String)

/-- What `indexed_targets_by_path` holds under a path; a later entry counts. -/
def indexedTargets : Option IndexTargets :=
  index.manifestEntries.reverse.findSome? fun entry => match entry.disposition with
    | .indexed targets _ => if entry.path.normalizedUtf8 = some path then some targets else none
    | _ => none

/-- `search::NoisePolicy`; no search of texts reads `include_ignored`. -/
structure NoisePolicy where
  includeGenerated : Bool
  includeTests : Bool
  includeVendor : Bool
  deriving DecidableEq, Repr

/-- `NoisePolicy::allows`. -/
def NoisePolicy.allows (policy : NoisePolicy) (classification : FileClassification) : Bool :=
  (policy.includeGenerated || !classification.isGenerated) &&
    (policy.includeTests || !classification.isTest) &&
    (policy.includeVendor || !classification.isVendor)

/-- `query::is_personal_tooling_path`. -/
def isPersonalToolingPath : Bool :=
  let lower := toAsciiLowercase ((utf8 path).map fun byte => if byte = 0x5C then 0x2F else byte)
  (splitAtBytes (· == 0x2F) lower).any (· == utf8 ".obsidian") ||
    startsWith lower ".claude/gsd-" || startsWith lower ".claude/get-shit-done/"

/-- `search::TextSearchOptions`; `context` and `churn_scores` are left out. -/
structure TextSearchOptions where
  pathScope : PathScope
  searchScope : SearchScope
  noisePolicy : NoisePolicy
  includePersonalTooling : Bool
  languageFilter : Option LanguageId
  totalLimit : Nat
  maxPerFile : Nat
  glob : Option String
  excludeGlob : Option String
  caseSensitive : Option Bool
  wholeWord : Bool
  ranked : Bool
  deriving DecidableEq, Repr

/-- `TextSearchOptions::for_current_code_search`. -/
def TextSearchOptions.forCurrentCodeSearch : TextSearchOptions where
  pathScope := .any
  searchScope := .code
  noisePolicy := ⟨false, false, true⟩
  includePersonalTooling := true
  languageFilter := none
  totalLimit := 50
  maxPerFile := 5
  glob := none
  excludeGlob := none
  caseSensitive := none
  wholeWord := false
  ranked := false

/-- `search::TextLineMatch`; the symbol around the line is left out. -/
structure TextLineMatch where
  lineNumber : Nat
  line : Bytes
  deriving DecidableEq, Repr

/-- `search::TextFileMatches`; the lines around the matches are left out. -/
structure TextFileMatches where
  path : String
  matched : List TextLineMatch
  deriving DecidableEq, Repr

/-- What a text search takes from outside. -/
structure SearchEnvironment where
  /-- `str::to_lowercase`. -/
  toLowercase : Bytes → Bytes
  /-- `regex::RegexBuilder`: a pattern, and whether case is ignored. -/
  compileRegex : Bytes → Bool → Except String (Bytes → Bool)
  /-- The expression of `compile_literal_whole_word_matcher`, for terms and whether case matters. -/
  wholeWordMatcher : List Bytes → Bool → Bytes → Bool
  /-- `AhoCorasick::is_match`, for literal terms and whether case matters. -/
  ahoCorasick : List Bytes → Bool → Bytes → Bool
  ahoCorasick_iff : ∀ terms caseSensitive line, ahoCorasick terms caseSensitive line = true ↔
    ∃ term ∈ terms, if caseSensitive then term <:+: line
      else toAsciiLowercase term <:+: toAsciiLowercase line
  /-- `GlobBuilder` with `literal_separator`. -/
  compileGlob : String → Except String (String → Bool)
  /-- The order by importance. -/
  rank : LiveIndex → List TextFileMatches → List TextFileMatches
  rank_perm : ∀ index files, (rank index files).Perm files

/-- `search::TextSearchError`; the errors of structural search are left out. -/
inductive TextSearchError where
  | emptyRegexQuery
  | emptyQueryOrTerms
  | invalidRegex (pattern : Bytes) (error : String)
  | invalidGlob (field pattern error : String)
  | unsupportedWholeWordRegex
  deriving DecidableEq, Repr

/-- `search::CompiledTextGlobFilters`. -/
structure CompiledTextGlobFilters where
  included : Option (String → Bool)
  excluded : Option (String → Bool)

/-- `CompiledTextGlobFilters::matches`. -/
def CompiledTextGlobFilters.matches (filters : CompiledTextGlobFilters) (path : String) : Bool :=
  filters.included.all (· path) && filters.excluded.all fun excluded => !excluded path

/-- `search::compile_text_glob`. -/
def compileTextGlob (env : SearchEnvironment) (field : String) (pattern : Option String) :
    Except TextSearchError (Option (String → Bool)) :=
  match pattern.filter (· ≠ "") with
  | none => .ok none
  | some pattern => match env.compileGlob pattern with
    | .ok matcher => .ok (some matcher)
    | .error message => .error (.invalidGlob field pattern message)

/-- `search::compile_text_glob_filters`. -/
def compileTextGlobFilters (env : SearchEnvironment) (options : TextSearchOptions) :
    Except TextSearchError CompiledTextGlobFilters := do
  let included ← compileTextGlob env "glob" options.glob
  let excluded ← compileTextGlob env "exclude_glob" options.excludeGlob
  return ⟨included, excluded⟩

variable (options : TextSearchOptions)

/-- `search::file_matches_text_base_scope`. -/
def fileMatchesTextBaseScope
    (filters : CompiledTextGlobFilters) (path : String) (file : IndexedFile) : Bool :=
  options.pathScope.matches path && filters.matches path &&
    options.searchScope.allowsTargets file.classification (indexedTargets index path) &&
    options.languageFilter.all (file.language == ·)

/-- `search::file_hidden_by_search_policy`. -/
def fileHiddenBySearchPolicy (path : String) (file : IndexedFile) :
    Bool :=
  !options.noisePolicy.allows file.classification ||
    (!options.includePersonalTooling && isPersonalToolingPath path)

/-- `LiveIndex::get_file`: the rows of an unverified snapshot stay invisible. -/
def getFile : Option IndexedFile :=
  if index.loadSource = .snapshotRestore then match index.snapshotVerifyState with
    | .pending | .running | .failed _ => none
    | _ => index.files.lookup path
  else index.files.lookup path

end Symforge.Store
