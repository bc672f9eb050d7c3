import Mathlib.Data.Finset.Max
import Symforge.Index.Disambiguation
/-!
# Symbol selectors

`resolve_symbol_selector` of `live_index/disambiguation.rs` and `resolve_around_symbol_range` of
`index_lifecycle/guidance/file_read.rs`: a name finds one symbol of a file, none or several. The
lines that a refusal lists count from zero, the line that the next call passes counts from one.
-/

namespace Symforge

open List

/-- `SymbolKind` as it is displayed. -/
def SymbolKind.display : SymbolKind → String
  | .function | .method => "fn"
  | .klass => "class"
  | .struct => "struct"
  | .enum => "enum"
  | .interface => "interface"
  | .module => "mod"
  | .constant => "const"
  | .variable => "let"
  | .type => "type"
  | .trait => "trait"
  | .impl => "impl"
  | .other => "other"
  | .key => "key"
  | .section => "section"
  | .macroGenerated => "macro-generated"

/-- `live_index/search.rs` `kind_filter_matches`. -/
def kindFilterMatches (filter : String) (kind : SymbolKind) : Bool :=
  let lower := toAsciiLowercase (utf8 filter)
  utf8 kind.display == lower ||
    [("variable", .variable), ("function", .function), ("method", .method), ("module", .module),
      ("constant", .constant)].any fun word => utf8 word.1 == lower && word.2 == kind

/-- Lower tiers are preferred. -/
def kindDisambiguationTier : SymbolKind → Nat
  | .klass | .struct | .enum | .interface | .trait => 1
  | .module => 2
  | .function | .method | .impl => 3
  | _ => 4

/-- `str::split_whitespace`; the length of the text is fuel enough. -/
def splitWhitespace : (fuel : Nat) → Bytes → List Bytes
  | 0, _ => []
  | fuel + 1, text =>
    let rest := trimStart text
    let stop := ((List.range rest.length).find? fun position =>
      leadingWhitespace (rest.drop position) ≠ 0).getD rest.length
    if rest = [] then [] else rest.take stop :: splitWhitespace fuel (rest.drop stop)

/-- A name without needless blanks. -/
def normalizeSymbolName (name : Bytes) : Bytes :=
  let collapsed := [0x20].intercalate (splitWhitespace name.length name)
  [("< ", "<"), (" >", ">"), (" ,", ","), (", ", ",")].foldl
    (fun text change =>
      replaceAt text (utf8 change.1) (utf8 change.2) (matchIndices text (utf8 change.1)))
    collapsed

/-- What follows the last `::`, or else the last dot. -/
def stripQualification (name : Bytes) : Option Bytes :=
  ((rfind name (utf8 "::")).map (· + 2) <|> (rfind name [0x2E]).map (· + 1)).map name.drop

/-- The name goes on with a delimiter or not at all. -/
def isSelectorPrefixMatch (query stored : Bytes) : Bool :=
  query.isPrefixOf stored && (stored.drop query.length).head?.all fun byte =>
    [0x2C, 0x20, 0x28, 0x7B, 0x09, 0x0A, 0x29].contains byte

/-- The type that a Swift extension extends. -/
def stripSwiftExtension (name : Bytes) : Option Bytes :=
  if startsWith name "extension " then some (trim ((name.drop 10).takeWhile (· != 0x3A))) else none

/-- The steps of `find_candidates_cascade`, which compare the name of a symbol with `name`. -/
def nameSteps (name : Bytes) : List (Bytes → Bool) :=
  let normal := normalizeSymbolName name
  [(· == name)] ++
  (if normal = name then [] else [(normalizeSymbolName · == normal)]) ++
  [(normalizeSymbolName · == utf8 "impl " ++ normal)] ++
  (stripQualification name).toList.map (fun bare stored => stored == bare) ++
  (if name.head?.any [0x40, 0x2E, 0x23].contains then [isSelectorPrefixMatch name] else []) ++
  (stripSwiftExtension name).toList.map (fun type stored => stored == type)

/-- The symbols with their indices, by name, kind and line. -/
def matchSymbols (file : IndexedFile) (namePred : Bytes → Bool) (symbolKind : Option String)
    (symbolLine : Option Nat) : List (SymbolRecord × Nat) :=
  let candidates := file.symbols.zipIdx.filter fun candidate =>
    namePred (utf8 candidate.1.name) && symbolKind.all (kindFilterMatches · candidate.1.kind)
  match symbolLine with
  | none => candidates
  | some line => candidates.filter (·.1.lineRange.1 + 1 = line)

/-- The matches of the first step that has any. -/
def findCandidatesCascade (file : IndexedFile) (name : String) (symbolKind : Option String)
    (symbolLine : Option Nat) : List (SymbolRecord × Nat) :=
  (((nameSteps (utf8 name)).map (matchSymbols file · symbolKind symbolLine)).find?
    (!·.isEmpty)).getD []

/-- The answer of `resolve_symbol_selector`. -/
inductive SymbolSelectorMatch where
  | selected (index : Nat) (symbol : SymbolRecord)
  | notFound
  | ambiguous (lines : List Nat)
  deriving DecidableEq, Repr

/-- `resolve_symbol_selector` once the candidates are found. -/
def selectCandidate (symbolKind : Option String) (candidates : List (SymbolRecord × Nat)) :
    SymbolSelectorMatch :=
  match candidates with
  | [] => .notFound
  | [(symbol, index)] => .selected index symbol
  | _ =>
    let tiers := candidates.map (kindDisambiguationTier ·.1.kind)
    let first := candidates.filter fun candidate =>
      some (kindDisambiguationTier candidate.1.kind) = tiers.min?
    match symbolKind, first with
    | none, [(symbol, index)] => .selected index symbol
    | _, _ => .ambiguous (candidates.map (·.1.lineRange.1))

/-- One symbol, none or the lines of several. -/
def resolveSymbolSelector (file : IndexedFile) (name : String) (symbolKind : Option String)
    (symbolLine : Option Nat) : SymbolSelectorMatch :=
  selectCandidate symbolKind (findCandidatesCascade file name symbolKind symbolLine)

/-- The refusals of `resolve_around_symbol_range`. -/
inductive AroundSymbolResolutionError where
  | notFound
  | selectorNotFound (line : Nat)
  | ambiguous (lines : List Nat)
  deriving DecidableEq, Repr

/-- The lines in order, each once. -/
def dedupSymbolCandidateLines (symbols : List SymbolRecord) : List Nat :=
  Library.dedupAdjacent ((symbols.map (·.lineRange.1)).mergeSort)

/-- The end of `resolve_around_symbol_range`; `missing` is its refusal of no symbol at all. -/
def selectAround (missing : AroundSymbolResolutionError) :
    List SymbolRecord → Except AroundSymbolResolutionError (Nat × Nat)
  | [] => .error missing
  | [symbol] => .ok (symbol.lineRange.1 + 1, symbol.lineRange.2 + 1)
  | symbols => .error (.ambiguous (dedupSymbolCandidateLines symbols))

/-- The lines of the symbol, counted from one. -/
def resolveAroundSymbolRange (file : IndexedFile) (aroundSymbol : String)
    (symbolLine : Option Nat) : Except AroundSymbolResolutionError (Nat × Nat) :=
  let matching := file.symbols.filter (·.name = aroundSymbol)
  match matching, symbolLine with
  | [], _ => .error .notFound
  | _, some line =>
    selectAround (.selectorNotFound line) (matching.filter (·.lineRange.1 + 1 = line))
  | _, none => selectAround .notFound matching

/-- The candidate is selected, or its line is listed. -/
def SymbolSelectorMatch.Offers (candidate : SymbolRecord × Nat) : SymbolSelectorMatch → Prop
  | .selected index symbol => candidate = (symbol, index)
  | .notFound => False
  | .ambiguous lines => candidate.1.lineRange.1 ∈ lines

/-- The same of an answer of `resolve_around_symbol_range`. -/
def AroundOffers (symbol : SymbolRecord) : Except AroundSymbolResolutionError (Nat × Nat) → Prop
  | .ok range => range = (symbol.lineRange.1 + 1, symbol.lineRange.2 + 1)
  | .error (.ambiguous lines) => symbol.lineRange.1 ∈ lines
  | .error _ => False

variable (file : IndexedFile) (name : String) (symbolKind : Option String)

/-- The lines of an ambiguous answer of `resolve_symbol_selector` find symbols when passed back, and
every candidate is found by one of them. -/
def SelectorLinesResolve : Prop :=
  ∀ lines, resolveSymbolSelector file name symbolKind none = .ambiguous lines →
    (∀ line ∈ lines, resolveSymbolSelector file name symbolKind (some line) ≠ .notFound) ∧
    ∀ candidate ∈ findCandidatesCascade file name symbolKind none, ∃ line ∈ lines,
      (resolveSymbolSelector file name symbolKind (some line)).Offers candidate

/-- The same of `resolve_around_symbol_range`. -/
def AroundLinesResolve : Prop :=
  ∀ lines, resolveAroundSymbolRange file name none = .error (.ambiguous lines) →
    (∀ line ∈ lines, resolveAroundSymbolRange file name (some line) ≠ .error .notFound ∧
      resolveAroundSymbolRange file name (some line) ≠ .error (.selectorNotFound line)) ∧
    ∀ symbol ∈ file.symbols.filter (·.name = name), ∃ line ∈ lines,
      AroundOffers symbol (resolveAroundSymbolRange file name (some line))

variable {file name symbolKind} {candidate : SymbolRecord × Nat} {symbol : SymbolRecord}
  {line : Nat} {lines : List Nat}

/-- With a line, candidates start there. -/
theorem line_of_mem_cascade
    (member : candidate ∈ findCandidatesCascade file name symbolKind (some line)) :
    candidate.1.lineRange.1 + 1 = line := by
  unfold findCandidatesCascade at member
  cases found : ((nameSteps (utf8 name)).map (matchSymbols file · symbolKind (some line))).find?
      (!·.isEmpty) with
  | none =>
    rw [found] at member
    cases member
  | some candidates =>
    rw [found] at member
    obtain ⟨step, -, rfl⟩ := mem_map.mp (mem_of_find?_eq_some found)
    exact of_decide_eq_true (mem_filter.mp member).2

/-- What is offered has a candidate's line. -/
theorem of_selectCandidate_offers {candidates : List (SymbolRecord × Nat)}
    (offered : (selectCandidate symbolKind candidates).Offers candidate) :
    ∃ chosen ∈ candidates, chosen.1.lineRange.1 = candidate.1.lineRange.1 := by
  unfold selectCandidate at offered
  split at offered
  · cases offered
  · cases offered
    exact ⟨_, mem_singleton_self _, rfl⟩
  · dsimp only at offered
    split at offered
    · rename_i only
      cases offered
      exact ⟨_, mem_of_mem_filter (only ▸ mem_singleton_self _), rfl⟩
    · exact mem_map.mp offered

/-- A refusal lists the candidates' lines. -/
theorem selectCandidate_ambiguous {candidates : List (SymbolRecord × Nat)}
    (ambiguous : selectCandidate symbolKind candidates = .ambiguous lines) :
    candidates ≠ [] ∧ lines = candidates.map (·.1.lineRange.1) := by
  unfold selectCandidate at ambiguous
  split at ambiguous
  · cases ambiguous
  · cases ambiguous
  · dsimp only at ambiguous
    split at ambiguous
    · cases ambiguous
    · cases ambiguous
      exact ⟨‹_›, rfl⟩

/-- The listed lines are the symbols'. -/
theorem mem_dedupSymbolCandidateLines {symbols : List SymbolRecord} :
    line ∈ dedupSymbolCandidateLines symbols ↔ ∃ symbol ∈ symbols, symbol.lineRange.1 = line := by
  rw [dedupSymbolCandidateLines, Library.mem_dedupAdjacent, mem_mergeSort, mem_map]

/-- With a line, what is offered starts there. -/
theorem line_of_around (offered : AroundOffers symbol
    (resolveAroundSymbolRange file name (some line))) : symbol.lineRange.1 + 1 = line := by
  unfold resolveAroundSymbolRange at offered
  dsimp only at offered
  split at offered
  · cases offered
  · rename_i same _
    cases same
    have starts : ∀ chosen ∈ (file.symbols.filter (·.name = name)).filter
        (·.lineRange.1 + 1 = line), chosen.lineRange.1 + 1 = line :=
      fun _ member => of_decide_eq_true (mem_filter.mp member).2
    unfold selectAround at offered
    split at offered
    · cases offered
    · rename_i only
      have := starts _ (only ▸ mem_singleton_self _)
      rw [← this]
      exact (congrArg Prod.fst offered).symm
    · obtain ⟨chosen, member, same⟩ := mem_dedupSymbolCandidateLines.mp offered
      exact same ▸ starts chosen member
  · contradiction

/-- A refusal lists the symbols' lines. -/
theorem resolveAroundSymbolRange_ambiguous
    (ambiguous : resolveAroundSymbolRange file name none = .error (.ambiguous lines)) :
    file.symbols.filter (·.name = name) ≠ [] ∧
      lines = dedupSymbolCandidateLines (file.symbols.filter (·.name = name)) := by
  unfold resolveAroundSymbolRange at ambiguous
  dsimp only at ambiguous
  split at ambiguous
  · cases ambiguous
  · contradiction
  · unfold selectAround at ambiguous
    split at ambiguous <;> cases ambiguous
    exact ⟨‹_›, rfl⟩

/-- No item begins right after the last one. -/
theorem exists_last {Item : Type} [DecidableEq Item] {items : List Item} (start : Item → Nat)
    (nonempty : items ≠ []) : ∃ last ∈ items, ∀ item ∈ items, start item ≠ start last + 1 := by
  obtain ⟨last, member, greatest⟩ :=
    items.toFinset.exists_max_image start (toFinset_nonempty_iff items |>.mpr nonempty)
  refine ⟨last, mem_toFinset.mp member, fun item another next => ?_⟩
  have := greatest item (mem_toFinset.mpr another)
  omega

/-- Two functions named `f`, on the first and the fifth line. -/
def twoFunctions : IndexedFile where
  content := []
  language := .rust
  symbols := [⟨"f", .function, (0, 8), (0, 1), none⟩, ⟨"f", .function, (20, 28), (4, 5), none⟩]
  references := []
  aliasMap := []

end Symforge
