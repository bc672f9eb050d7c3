import Symforge.Edit.EmbedBatch
/-!
# One replacement through three paths

`prepare_replace`, the embedded batch with a single `Replace` action and the batch executor with a
single `Replace` operation. The embedded batch calls `prepare_replace` and asks the content policy
about the result; the executor always takes the documentation of the symbol along, while
`prepare_replace` keeps it unless the new body brings its own.
-/

namespace Symforge.Edit

open List PreparedReplace

/-- The span of a symbol lies in the content and its documentation starts no later than it. -/
structure ValidSpan (content : Bytes) (sym : SymbolRecord) : Prop where
  ordered : sym.byteRange.1 ≤ sym.byteRange.2
  bounded : sym.byteRange.2 ≤ content.length
  effective : sym.effectiveStart ≤ sym.byteRange.1

/-- The start of the line of the signature. -/
def signatureLine (content : Bytes) (sym : SymbolRecord) : Nat :=
  lastLineStart (content.take sym.byteRange.1)

/-- A docless replacement would keep no documentation: the effective start is on the signature line,
with no orphaned docs above and no doc marker on it. -/
structure NoDocsToKeep (content : Bytes) (sym : SymbolRecord) : Prop where
  sameLine : lastLineStart (content.take sym.effectiveStart) = signatureLine content sym
  noOrphans : extendPastOrphanedDocs content (signatureLine content sym) sym =
    .ok (signatureLine content sym)
  noMarker : sameLineDocPrefixEnd
    ((content.take sym.byteRange.1).drop (signatureLine content sym)) = none

section

variable {content : Bytes} {sym : SymbolRecord} {newBody : String} {start : Nat}

/-- The signature's line starts ahead of it. -/
theorem signatureLine_le (content : Bytes) (sym : SymbolRecord) :
    signatureLine content sym ≤ sym.byteRange.1 := by
  have bound := lastLineStart_le (content.take sym.byteRange.1)
  rw [length_take] at bound
  unfold signatureLine
  omega

section Ranges

variable (valid : ValidSpan content sym)

include valid

/-- A docless splice starts on the signature line, behind any doc marker on it. -/
theorem doclessStart_bounds :
    let start := doclessReplacementSpliceStart content (signatureLine content sym) sym.byteRange.1
    signatureLine content sym ≤ start ∧ start ≤ sym.byteRange.1 ∧
      (start = signatureLine content sym ↔ sameLineDocPrefixEnd
        ((content.take sym.byteRange.1).drop (signatureLine content sym)) = none) := by
  have line := signatureLine_le content sym
  have inside := valid.ordered.trans valid.bounded
  unfold doclessReplacementSpliceStart
  split
  · rename_i atStart
    have empty : (content.take sym.byteRange.1).drop (signatureLine content sym) = [] := by
      rw [drop_eq_nil_iff, length_take]
      omega
    rw [empty]
    exact ⟨le_rfl, line, iff_of_true rfl rfl⟩
  · cases marked : sameLineDocPrefixEnd
      ((content.take sym.byteRange.1).drop (signatureLine _ sym)) with
    | none => exact ⟨le_rfl, line, iff_of_true rfl rfl⟩
    | some stop =>
      have bounds := sameLineDocPrefixEnd_le marked
      rw [length_drop, length_take] at bounds
      dsimp only
      refine ⟨by omega, by omega, iff_of_false ?_ (by simp)⟩
      omega

/-- The executor's splice starts on or above the signature line, and on it exactly when no docs
reach further up. -/
theorem batchReplaceStart_bounds :
    ∃ start, batchReplaceStart content sym = .ok start ∧ start ≤ signatureLine content sym ∧
      (start = signatureLine content sym ↔
        lastLineStart (content.take sym.effectiveStart) = signatureLine content sym ∧
          extendPastOrphanedDocs content (signatureLine content sym) sym =
            .ok (signatureLine content sym)) := by
  have inside : sym.effectiveStart ≤ content.length :=
    valid.effective.trans (valid.ordered.trans valid.bounded)
  have above := lastLineStart_take_le content valid.effective
  have within := lastLineStart_le (content.take sym.effectiveStart)
  rw [length_take] at within
  obtain ⟨start, below, extended⟩ := extendPastOrphanedDocs_ok sym
    (show lastLineStart (content.take sym.effectiveStart) ≤ content.length by omega)
  refine ⟨_, ?_, below.trans above, ?_⟩
  · rw [batchReplaceStart, lineStart_ok inside]
    exact extended
  · constructor
    · intro same
      have sameLine : lastLineStart (content.take sym.effectiveStart) =
          signatureLine content sym := le_antisymm above (same ▸ below)
      rw [sameLine, same] at extended
      exact ⟨sameLine, extended⟩
    · rintro ⟨sameLine, noOrphans⟩
      rw [sameLine, noOrphans] at extended
      exact (Except.ok.inj extended).symm

/-- The two splices of a docless replacement start alike exactly when there are no docs to keep. -/
theorem starts_eq_iff (batch : batchReplaceStart content sym = .ok start) :
    start = doclessReplacementSpliceStart content (signatureLine content sym) sym.byteRange.1 ↔
      NoDocsToKeep content sym := by
  obtain ⟨other, sameOther, below, onLine⟩ := batchReplaceStart_bounds valid
  rw [batch] at sameOther
  cases sameOther
  obtain ⟨above, -, marker⟩ := doclessStart_bounds valid
  constructor
  · intro same
    have atLine : start = signatureLine content sym := by omega
    obtain ⟨sameLine, noOrphans⟩ := onLine.mp atLine
    exact ⟨sameLine, noOrphans, marker.mp (same.symm.trans atLine)⟩
  · intro none_kept
    rw [onLine.mpr ⟨none_kept.sameLine, none_kept.noOrphans⟩]
    exact (marker.mpr none_kept.noMarker).symm

/-- A body with docs takes the old ones along. -/
theorem replacementSpliceRange_docs (docs : bodyStartsWithDocComment newBody = true)
    (batch : batchReplaceStart content sym = .ok start) :
    replacementSpliceRange content sym newBody = .ok (start, sym.byteRange.2) := by
  have ordered := valid.ordered
  have bounded := valid.bounded
  have effective := valid.effective
  unfold replacementSpliceRange
  rw [if_neg (by omega), if_pos docs]
  unfold batchReplaceStart at batch
  rw [lineStart_ok (by omega)] at batch ⊢
  change extendPastOrphanedDocs _ _ _ = _ at batch
  change (extendPastOrphanedDocs _ _ _ >>= _) = _
  rw [batch]
  rfl

/-- A body without docs keeps the old ones. -/
theorem replacementSpliceRange_docless (docless : bodyStartsWithDocComment newBody = false) :
    replacementSpliceRange content sym newBody =
      .ok (doclessReplacementSpliceStart content (signatureLine content sym) sym.byteRange.1,
        sym.byteRange.2) := by
  have ordered := valid.ordered
  have bounded := valid.bounded
  have effective := valid.effective
  unfold replacementSpliceRange
  rw [if_neg (by omega), if_neg (by simp [docless]), lineStart_ok (by omega)]
  rfl

/-- The footprint of a replacement ends with the symbol and starts no later than it. -/
theorem replacementSpliceRange_ok (newBody : String) :
    ∃ start ≤ sym.byteRange.1,
      replacementSpliceRange content sym newBody = .ok (start, sym.byteRange.2) := by
  cases docs : bodyStartsWithDocComment newBody with
  | true =>
    obtain ⟨start, batch, below, -⟩ := batchReplaceStart_bounds valid
    exact ⟨start, below.trans (signatureLine_le _ _), replacementSpliceRange_docs valid docs batch⟩
  | false =>
    exact ⟨_, (doclessStart_bounds valid).2.1, replacementSpliceRange_docless valid docs⟩

end Ranges

/-- The re-columned new body, which all three paths compute in the same way. -/
def replacementText (content : Bytes) (sym : SymbolRecord) (newBody : String) :
    Except EditFault Bytes := do
  let indent ← detectIndentation content sym.byteRange.1
  indentedCode newBody indent (detectLineEnding content)

/-- The single replacement splices the text. -/
theorem prepareReplace_eq
    (range : replacementSpliceRange content sym newBody = .ok (start, sym.byteRange.2)) :
    (prepareReplace content sym newBody).map PreparedReplace.newContent =
      (replacementText content sym newBody).map
        (applySplice content (start, sym.byteRange.2)) := by
  unfold prepareReplace replacementText
  dsimp only
  rw [range]
  cases indentation : detectIndentation content sym.byteRange.1 with
  | error fault => rfl
  | ok indent =>
    simp only [bind, Except.bind]
    cases indentedCode newBody indent (detectLineEnding content) <;> rfl

/-- So does the one of a batch. -/
theorem batchReplace_eq (batch : batchReplaceStart content sym = .ok start) :
    batchReplace content sym newBody (detectLineEnding content) =
      (replacementText content sym newBody).map
        (applySplice content (start, sym.byteRange.2)) := by
  unfold batchReplace replacementText
  rw [batch]
  cases indentation : detectIndentation content sym.byteRange.1 with
  | error fault => rfl
  | ok indent =>
    simp only [bind, Except.bind]
    cases indentedCode newBody indent (detectLineEnding content) <;> rfl

/-- Two splices of one text that end together and start apart differ in length. -/
theorem applySplice_start_inj {other stop : Nat} {text : Bytes} (first : start ≤ stop)
    (second : other ≤ stop) (bounded : stop ≤ content.length)
    (same : applySplice content (start, stop) text = applySplice content (other, stop) text) :
    start = other := by
  have lengths := congrArg length same
  simp only [applySplice, Library.splice, length_append, length_take, length_drop] at lengths
  omega

variable (rustInsertionPrefixStart : Bytes → SymbolRecord → Except String Nat)
  (path footer : String) (language : LanguageId)

section Paths

variable (valid : ValidSpan content sym)

include valid

/-- The executor with a single `Replace` operation is its `Replace` arm. -/
theorem stageFile_replace (newBody : String) :
    stageFile rustInsertionPrefixStart path footer content language [⟨sym, .replace newBody⟩] =
      batchReplace content sym newBody (detectLineEnding content) := by
  have ordered := valid.ordered
  have bounded := valid.bounded
  have effective := valid.effective
  obtain ⟨start, -, range⟩ := replacementSpliceRange_ok valid newBody
  have placed : placeEdit rustInsertionPrefixStart content language ⟨sym, .replace newBody⟩ =
      .ok ⟨⟨sym, .replace newBody⟩, .bytes start sym.byteRange.2, none⟩ := by
    simp [placeEdit, range]
  have inBounds : ¬ (sym.effectiveStart > content.length ∨ sym.byteRange.2 > content.length) := by
    omega
  have checked : checkFile rustInsertionPrefixStart path footer content language
      [⟨sym, .replace newBody⟩] =
        .ok [⟨⟨sym, .replace newBody⟩, .bytes start sym.byteRange.2, none⟩] := by
    unfold checkFile
    simp only [firstPair, find?_nil, any_cons, any_nil, inBounds, decide_false,
      Bool.or_false, Bool.false_eq_true, if_false, mapM_cons, mapM_nil, placed]
    rfl
  have alone : ∀ entry, reverseOrder [entry] = [entry] := fun _ => rfl
  unfold stageFile
  rw [checked]
  change stageChecked path content _ = _
  simp only [stageChecked, alone, find?_cons, find?_nil, decide_eq_false (Nat.not_lt.mpr bounded)]
  exact bind_pure (batchReplace _ _ _ (detectLineEnding _))

/-- The edit of the embedded batch with a single `Replace` action is `prepare_replace`. -/
theorem editActions_replace :
    editActions rustInsertionPrefixStart content language [⟨sym, .replace newBody⟩] =
      orKind .staleContent
        ((prepareReplace content sym newBody).map newContent) := by
  obtain ⟨start, -, range⟩ := replacementSpliceRange_ok valid newBody
  have footprint : actionFootprint rustInsertionPrefixStart content language
      ⟨sym, .replace newBody⟩ = .ok (.bytes start sym.byteRange.2) := by
    simp only [actionFootprint, range]
    rfl
  unfold editActions
  simp only [firstPair, find?_nil, insertionSort_cons, insertionSort_nil,
    orderedInsert_nil, mapM_cons, footprint]
  change applyAction content content (⟨sym, .replace newBody⟩, .bytes start sym.byteRange.2) >>=
    pure = _
  rw [bind_pure]
  simp only [applyAction]
  cases prepareReplace content sym newBody with
  | error fault => cases fault <;> rfl
  | ok prepared => rfl

/-- The embedded batch stages what `prepare_replace` does exactly if the policy admits it. -/
theorem stageActions_replace_iff (admitted : Bytes → Bool) :
    stageActions rustInsertionPrefixStart admitted content language [⟨sym, .replace newBody⟩] =
        orKind .staleContent ((prepareReplace content sym newBody).map newContent) ↔
      ∀ bytes, (prepareReplace content sym newBody).map newContent = .ok bytes →
        admitted bytes = true := by
  rw [stageActions, editActions_replace _ _ valid]
  cases (prepareReplace content sym newBody).map newContent with
  | error fault => cases fault <;> exact iff_of_true rfl nofun
  | ok bytes =>
    change (if admitted bytes then Except.ok bytes else .error EditErrorKind.unsafeContent) =
      .ok bytes ↔ _
    by_cases safe : admitted bytes = true
    · simp [safe]
    · simp [safe]

/-- What `prepare_replace` stages differs from the original only inside the footprint. -/
theorem prepareReplace_inside {bytes : Bytes}
    (prepared : (prepareReplace content sym newBody).map newContent = .ok bytes) :
    ∃ range text, replacementSpliceRange content sym newBody = .ok range ∧
      bytes = applySplice content range text := by
  obtain ⟨start, -, range⟩ := replacementSpliceRange_ok valid _
  rw [prepareReplace_eq range] at prepared
  cases recolumned : replacementText content sym newBody with
  | error fault => simp [recolumned, Except.map] at prepared
  | ok text =>
    simp only [recolumned, Except.map, Except.ok.injEq] at prepared
    exact ⟨_, _, range, prepared.symm⟩

/-- With one start for both splices the executor stages what `prepare_replace` does. -/
theorem stageFile_eq_prepareReplace (batch : batchReplaceStart content sym = .ok start)
    (range : replacementSpliceRange content sym newBody = .ok (start, sym.byteRange.2)) :
    stageFile rustInsertionPrefixStart path footer content language [⟨sym, .replace newBody⟩] =
      (prepareReplace content sym newBody).map newContent := by
  rw [stageFile_replace _ _ _ _ valid, batchReplace_eq batch, prepareReplace_eq range]

/-- The executor stages what `prepare_replace` does exactly when the new body brings its own docs,
the symbol has none to keep, or re-columning the new body panics. -/
theorem stageFile_eq_iff (newBody : String) :
    stageFile rustInsertionPrefixStart path footer content language [⟨sym, .replace newBody⟩] =
        (prepareReplace content sym newBody).map newContent ↔
      bodyStartsWithDocComment newBody = true ∨ NoDocsToKeep content sym ∨
        ∃ fault, replacementText content sym newBody = .error fault := by
  obtain ⟨start, batch, below, -⟩ := batchReplaceStart_bounds valid
  have ordered := valid.ordered
  have line := signatureLine_le content sym
  have staged := stageFile_replace rustInsertionPrefixStart path footer language valid newBody
  rw [batchReplace_eq batch] at staged
  cases docs : bodyStartsWithDocComment newBody with
  | true =>
    have range := replacementSpliceRange_docs valid docs batch
    exact iff_of_true (stageFile_eq_prepareReplace _ _ _ _ valid batch range) (.inl rfl)
  | false =>
    have range := replacementSpliceRange_docless valid docs
    have doclessBelow := (doclessStart_bounds valid).2.1
    constructor
    · intro same
      cases recolumned : replacementText content sym newBody with
      | error fault => exact .inr (.inr ⟨fault, rfl⟩)
      | ok text =>
        rw [staged, prepareReplace_eq range] at same
        simp only [recolumned, Except.map, Except.ok.injEq] at same
        have starts := applySplice_start_inj (by omega) (by omega) valid.bounded same
        exact .inr (.inl ((starts_eq_iff valid batch).mp starts))
    · rintro (impossible | noDocs | ⟨fault, panics⟩)
      · cases impossible
      · have starts := (starts_eq_iff valid batch).mpr noDocs
        rw [← starts] at range
        exact stageFile_eq_prepareReplace _ _ _ _ valid batch range
      · rw [staged, prepareReplace_eq range, panics]
        rfl

/-- The three paths stage the same bytes, which differ from the original only inside the footprint.
-/
structure ReplacePathsAgree (admitted : Bytes → Bool) (content : Bytes) (sym : SymbolRecord)
    (newBody : String) : Prop where
  batch : stageFile rustInsertionPrefixStart path footer content language
      [⟨sym, .replace newBody⟩] =
    (prepareReplace content sym newBody).map PreparedReplace.newContent
  embedded : stageActions rustInsertionPrefixStart admitted content language
      [⟨sym, .replace newBody⟩] =
    orKind .staleContent ((prepareReplace content sym newBody).map PreparedReplace.newContent)
  insideFootprint : ∀ staged, stageFile rustInsertionPrefixStart path footer content language
      [⟨sym, .replace newBody⟩] = .ok staged →
    ∃ range text, replacementSpliceRange content sym newBody = .ok range ∧
      staged = applySplice content range text

end Paths

end

/-! ### A documented function -/

/-- A function with documentation. -/
def documentedFile : Bytes := utf8 "/// Doubles.\nfn twice() {}\n"

/-- That function. -/
def documentedSymbol : SymbolRecord := ⟨"twice", .function, (13, 26), (2, 2), some (0, 12)⟩

/-- A parse that finds no attributes: an item starts with its symbol. -/
def bareItemStart (_ : Bytes) (sym : SymbolRecord) : Except String Nat := .ok sym.byteRange.1

/-- Its spans lie in the file. -/
theorem documentedSymbol_valid : ValidSpan documentedFile documentedSymbol :=
  ⟨by decide, by decide, by decide⟩

end Symforge.Edit
