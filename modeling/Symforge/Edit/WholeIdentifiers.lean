import Symforge.Edit.RenamePlan
/-!
# Renaming whole identifiers

A plan of `build_rename_plan` holds the sites of its three sources whose bytes are the old name.
Whether they are whole identifiers is decided by the sources: the definition is looked for as a mere
substring of its span, and the scan for qualified usages looks at the side of the colons only.
-/

namespace Symforge.Edit

open Library List

variable (content : Bytes)

/-- No identifier byte stands in front of the range. -/
def freeInFront (start : Nat) : Bool := start == 0 || !(content[start - 1]?).any isIdentifierByte

/-- No identifier byte stands behind the range. -/
def freeBehind (stop : Nat) : Bool := !(content[stop]?).any isIdentifierByte

/-- The range is a whole identifier. -/
def isWhole (range : Nat × Nat) : Bool := freeInFront content range.1 && freeBehind content range.2

/-- Only whole identifiers of the name are renamed, the defining one among them. -/
structure RenamesWhole (index : LiveIndex) (input : RenamePlanInput) (defining : Nat × Nat)
    (plan : RenamePlan) : Prop where
  whole : ∀ path range, InGroup plan.byFile path range → ∃ file,
    index.captureSharedFile path = some file ∧
      spells file.content (utf8 input.name) range = true ∧ isWhole file.content range = true
  recorded : InGroup plan.byFile input.path defining

section Sources

variable (index : LiveIndex) (file : IndexedFile) (sym : SymbolRecord) (input : RenamePlanInput)

/-- A site with this qualifier is attributed to the renamed definition. -/
def attributedTo (qualifier : Option Bytes) : Prop :=
  attributable index input.name (enclosingImplOwner file.symbols sym.lineRange.1) qualifier = true

/-- The index lists a reference that a rename takes along. -/
structure ReferenceSite (path : String) (reference : ReferenceRecord) : Prop where
  listed : (path, reference) ∈ index.findReferencesForName none false input.name
  within : inScope input.codeOnly path = true
  attributed : attributedTo index file sym input (reference.qualifiedName.bind immediateQualifier)

/-- The scan finds a qualified usage that a rename takes along. -/
structure UsageSite (path : String) (content : Bytes) (start : Nat) : Prop where
  scanned : (path, content) ∈ scannedContents index input.codeOnly
  found : ∃ usages, fileUsages (utf8 input.name) path content = .ok usages ∧
    ∃ usage ∈ usages, usage.confident = true ∧ usage.byteRange.1 = start
  attributed : attributedTo index file sym input (qualifierBefore content start)

/-- The three sources yield whole identifiers. -/
structure WholeSites (defining : Nat × Nat) : Prop where
  /-- The first place in the span that spells the name is a whole identifier. -/
  definition : ∀ range, definitionRange file sym input = .ok range →
    isWhole file.content range = true
  /-- A reference that spells the name is a whole identifier. -/
  references : ∀ path reference other, ReferenceSite index file sym input path reference →
    index.captureSharedFile path = some other →
    spells other.content (utf8 input.name) reference.byteRange = true →
    isWhole other.content reference.byteRange = true
  /-- A usage with colons on one side is free on the other. -/
  usages : ∀ path content start, UsageSite index file sym input path content start →
    (colonsBefore content start = true →
      freeBehind content (start + (utf8 input.name).length) = true) ∧
    (colonsAfter content (start + (utf8 input.name).length) = true →
      freeInFront content start = true)
  /-- One of the sources yields the defining occurrence. -/
  defined : definitionRange file sym input = .ok defining ∨
    (∃ reference, ReferenceSite index file sym input input.path reference ∧
      reference.byteRange = defining) ∨
    UsageSite index file sym input input.path file.content defining.1

end Sources

variable {content name : Bytes}

/-! ### Usages -/

/-- Colons in front are no part of a name. -/
theorem freeInFront_of_colons {start : Nat} (colons : colonsBefore content start = true) :
    freeInFront content start = true := by
  unfold colonsBefore at colons
  rw [Bool.and_eq_true, decide_eq_true_eq, isPrefixOf_iff_prefix] at colons
  obtain ⟨far, colons⟩ := colons
  have colon := prefix_iff_getElem?.mp colons 1 (by decide)
  rw [getElem?_drop, show start - 2 + 1 = start - 1 by omega] at colon
  unfold freeInFront
  rw [colon]
  exact Bool.or_true _

/-- Colons behind are none either. -/
theorem freeBehind_of_colons {stop : Nat} (colons : colonsAfter content stop = true) :
    freeBehind content stop = true := by
  have starts := isPrefixOf_iff_prefix.mp colons
  have colon := prefix_iff_getElem?.mp starts 0 (by decide)
  rw [getElem?_drop, Nat.add_zero] at colon
  unfold freeBehind
  rw [colon]
  rfl

/-- Beside colons, the other side decides. -/
theorem isWhole_iff_of_colons {start stop : Nat}
    (colons : colonsBefore content start = true ∨ colonsAfter content stop = true) :
    isWhole content (start, stop) = true ↔
      (colonsBefore content start = true → freeBehind content stop = true) ∧
        (colonsAfter content stop = true → freeInFront content start = true) := by
  unfold isWhole
  rw [Bool.and_eq_true]
  constructor
  · rintro ⟨front, behind⟩
    exact ⟨fun _ => behind, fun _ => front⟩
  · rintro ⟨fromFront, fromBehind⟩
    rcases colons with front | behind
    · exact ⟨freeInFront_of_colons front, fromFront front⟩
    · exact ⟨fromBehind behind, freeBehind_of_colons behind⟩

/-! ### What a plan holds -/

/-- The ranges that spell the name are kept. -/
theorem mem_validated {ranges kept : List (Nat × Nat)} {path : String}
    (validated : validateRenameRanges ranges content name path = .ok kept) (range : Nat × Nat) :
    range ∈ kept ↔ range ∈ ranges ∧ spells content name range = true := by
  unfold validateRenameRanges at validated
  dsimp only at validated
  split at validated
  · cases validated
  cases validated
  rw [mem_filter, mem_dedupAdjacent, mem_insertionSort]

/-- The name is spelled where it stands. -/
theorem spells_of_prefix {start : Nat} (nonempty : name ≠ []) (here : name <+: content.drop start) :
    spells content name (start, start + name.length) = true := by
  have positive := length_pos_iff.mpr nonempty
  have fits := here.length_le
  rw [length_drop] at fits
  have text : (content.take (start + name.length)).drop start = name := by
    rw [drop_take, Nat.add_sub_cancel_left]
    exact (prefix_iff_eq_take.mp here).symm
  unfold spells
  rw [Bool.and_eq_true, decide_eq_true_eq, beq_iff_eq]
  exact ⟨⟨by omega, by omega⟩, text⟩

/-- What spells the name is as long. -/
theorem spells_length {range : Nat × Nat} (spelled : spells content name range = true) :
    range.2 = range.1 + name.length := by
  unfold spells at spelled
  rw [Bool.and_eq_true, decide_eq_true_eq, beq_iff_eq] at spelled
  obtain ⟨⟨ordered, bounded⟩, text⟩ := spelled
  rw [← text, length_drop, length_take]
  omega

/-- The definition is found where its bytes are the name. -/
theorem definitionRange_spells {file : IndexedFile} {sym : SymbolRecord} {input : RenamePlanInput}
    {range : Nat × Nat} (found : definitionRange file sym input = .ok range) :
    spells file.content (utf8 input.name) range = true := by
  unfold definitionRange at found
  dsimp only at found
  split at found
  · cases found
  rename_i named
  split at found
  swap
  · cases found
  split at found
  · rename_i offset position
    cases found
    have nonempty : utf8 input.name ≠ [] := fun empty => named (by rw [empty]; rfl)
    have here := ((windowPosition_eq_some_iff nonempty).mp position).1
    rw [drop_drop] at here
    refine spells_of_prefix nonempty (here.trans ?_)
    rw [drop_take]
    exact take_prefix _ _
  · cases found

section Plan

variable {fromUtf8Lossy : Bytes → Bytes} {index : LiveIndex} {file : IndexedFile}
  {sym : SymbolRecord} {input : RenamePlanInput} {plan : RenamePlan} {name : Bytes}

/-- A validated file keeps the ranges that spell the name. -/
theorem validateFile_ok {group entry : String × List (Nat × Nat)}
    (validated : validateFile index name group = .ok entry) :
    entry.1 = group.1 ∧ ∃ other, index.captureSharedFile group.1 = some other ∧
      ∀ range, range ∈ entry.2 ↔ range ∈ group.2 ∧ spells other.content name range = true := by
  unfold validateFile at validated
  dsimp only at validated
  split at validated
  · cases validated
  rename_i other captured
  obtain ⟨ranges, checked, validated⟩ := bind_eq_ok validated
  cases validated
  exact ⟨rfl, _, captured, mem_validated checked⟩

variable {path : String}

/-- The checked sites are the sites of the groups that spell the name. -/
theorem inGroup_validated {groups entries : List (String × List (Nat × Nat))}
    (validated : groups.mapM (validateFile index name) = .ok entries)
    (range : Nat × Nat) :
    InGroup entries path range ↔ InGroup groups path range ∧ ∃ other,
      index.captureSharedFile path = some other ∧ spells other.content name range = true := by
  constructor
  · rintro ⟨ranges, member, inRanges⟩
    obtain ⟨group, inGroups, ok⟩ := exists_of_mem_mapM validated member
    obtain ⟨samePath, other, captured, kept⟩ := validateFile_ok ok
    dsimp only at samePath kept
    obtain ⟨listed, spelled⟩ := (kept _).mp inRanges
    rw [← samePath] at captured
    refine ⟨⟨group.2, ?_, listed⟩, _, captured, spelled⟩
    rw [samePath]
    exact inGroups
  · rintro ⟨⟨ranges, member, listed⟩, other, captured, spelled⟩
    obtain ⟨entry, inEntries, ok⟩ := exists_mem_of_mapM validated member
    obtain ⟨samePath, same, capturedSame, kept⟩ := validateFile_ok ok
    dsimp only at samePath capturedSame kept
    rw [captured] at capturedSame
    cases capturedSame
    refine ⟨entry.2, ?_, (kept _).mpr ⟨listed, spelled⟩⟩
    rw [← samePath]
    exact inEntries

variable {usages : List QualifiedUsage}

/-- The usages come from the scanned files. -/
theorem mem_collected {contents : List (String × Bytes)}
    (collected : collectQualifiedUsages name contents = .ok usages) (usage : QualifiedUsage) :
    usage ∈ usages ↔ ∃ entry ∈ contents, ∃ inFile,
      fileUsages name entry.1 entry.2 = .ok inFile ∧ usage ∈ inFile := by
  obtain ⟨each, scanned, collected⟩ := bind_eq_ok collected
  cases collected
  rw [mem_flatten]
  constructor
  · rintro ⟨inFile, member, inUsages⟩
    obtain ⟨entry, inContents, ok⟩ := exists_of_mem_mapM scanned member
    exact ⟨_, inContents, inFile, ok, inUsages⟩
  · rintro ⟨entry, inContents, inFile, ok, inUsages⟩
    obtain ⟨other, member, same⟩ := exists_mem_of_mapM scanned inContents
    rw [ok] at same
    cases same
    exact ⟨inFile, member, inUsages⟩

variable {content : Bytes}

/-- A usage names its file and is as long as the name; in code it stands beside colons. -/
theorem fileUsages_spec
    (scanned : fileUsages name path content = .ok usages) {usage : QualifiedUsage}
    (member : usage ∈ usages) :
    usage.filePath = path ∧ usage.byteRange.2 = usage.byteRange.1 + name.length ∧ name ≠ [] ∧
      (usage.confident = true → QualifiedAt content name usage.byteRange.1) := by
  unfold fileUsages at scanned
  split at scanned
  · rename_i worthwhile
    obtain ⟨found, searched, scanned⟩ := bind_eq_ok scanned
    cases scanned
    obtain ⟨one, inFound, rfl⟩ := mem_map.mp member
    have nonempty : name ≠ [] := by
      rintro rfl
      cases worthwhile.1
    exact ⟨rfl, rfl, nonempty, findQualifiedUsages_confident nonempty searched _ inFound⟩
  · cases scanned
    cases member

/-- The scanned content of a path is the content of its file. -/
theorem scanned_content
    (scanned : (path, content) ∈ scannedContents index input.codeOnly) :
    ∃ other, index.captureSharedFile path = some other ∧ other.content = content ∧
      ((scannedContents index input.codeOnly).lookup path).getD [] = content := by
  have entries := scanned
  obtain ⟨entry, member, same⟩ := mem_map.mp entries
  cases same
  refine ⟨entry.2, LiveIndex.captureSharedFile_of_mem (mem_filter.mp member).1, rfl, ?_⟩
  have distinct : ((scannedContents index input.codeOnly).map Prod.fst).Nodup := by
    unfold scannedContents
    rw [map_map]
    exact index.distinct.sublist (filter_sublist.map Prod.fst)
  rw [lookup_of_mem distinct scanned]
  rfl

/-- The references that a rename writes. -/
theorem mem_writableReferences (range : Nat × Nat) :
    (path, range) ∈ ((referenceSites index (enclosingImplOwner file.symbols sym.lineRange.1)
        input).filter Prod.snd).map (fun site => (site.1.1, site.1.2.byteRange)) ↔
      ∃ reference, ReferenceSite index file sym input path reference ∧
        reference.byteRange = range := by
  rw [mem_map]
  constructor
  · rintro ⟨⟨⟨sitePath, reference⟩, writable⟩, member, same⟩
    obtain ⟨inSites, isWritable⟩ := mem_filter.mp member
    obtain ⟨site, listed, sameSite⟩ := mem_map.mp inSites
    obtain ⟨inReferences, within⟩ := mem_filter.mp listed
    cases sameSite
    cases same
    exact ⟨_, ⟨inReferences, within, isWritable⟩, rfl⟩
  · rintro ⟨reference, ⟨inReferences, within, attributed⟩, rfl⟩
    refine ⟨((path, reference), true), mem_filter.mpr ⟨?_, rfl⟩, rfl⟩
    refine mem_map.mpr ⟨(path, reference), mem_filter.mpr ⟨inReferences, within⟩, ?_⟩
    exact congrArg _ attributed

/-- The qualified usages that a rename writes. -/
theorem mem_writableUsages
    (collected : collectQualifiedUsages (utf8 input.name) (scannedContents index input.codeOnly) =
      .ok usages) (range : Nat × Nat) :
    (path, range) ∈ (((usages.filter QualifiedUsage.confident).map (usageSite index
        (enclosingImplOwner file.symbols sym.lineRange.1) input)).filter Prod.snd).map
          (fun site => (site.1.filePath, site.1.byteRange)) ↔
      ∃ content, UsageSite index file sym input path content range.1 ∧
        range.2 = range.1 + (utf8 input.name).length := by
  rw [mem_map]
  constructor
  · rintro ⟨⟨usage, writable⟩, member, same⟩
    obtain ⟨inSites, isWritable⟩ := mem_filter.mp member
    obtain ⟨other, inUsages, sameSite⟩ := mem_map.mp inSites
    obtain ⟨inCollected, confident⟩ := mem_filter.mp inUsages
    cases sameSite
    cases same
    obtain ⟨entry, scanned, inFile, ok, member⟩ := (mem_collected collected _).mp inCollected
    obtain ⟨samePath, length, -⟩ := fileUsages_spec ok member
    obtain ⟨_, -, -, content⟩ := scanned_content scanned
    rw [samePath] at isWritable ⊢
    rw [content] at isWritable
    exact ⟨entry.2, ⟨scanned, ⟨inFile, ok, usage, member, confident, rfl⟩, isWritable⟩, length⟩
  · rintro ⟨content, ⟨scanned, ⟨inFile, ok, usage, member, confident, start⟩, attributed⟩, stop⟩
    obtain ⟨samePath, length, -⟩ := fileUsages_spec ok member
    obtain ⟨_, -, -, sameContent⟩ := scanned_content scanned
    have sameRange : usage.byteRange = range := by
      rw [← start] at stop
      exact Prod.ext start (length.trans stop.symm)
    refine ⟨(usage, true), mem_filter.mpr ⟨mem_map.mpr ⟨usage, ?_, ?_⟩, rfl⟩, ?_⟩
    · have inCollected := (mem_collected collected _).mpr
        ⟨(path, content), scanned, inFile, ok, member⟩
      exact mem_filter.mpr ⟨inCollected, confident⟩
    · unfold usageSite
      rw [samePath, sameContent, start]
      exact congrArg _ attributed
    · dsimp only
      rw [samePath, sameRange]

/-- The plan holds the sites of the three sources that spell the name. -/
theorem inGroup_byFile (planned : buildRenamePlan fromUtf8Lossy index file sym input = .ok plan)
    (path : String) (range : Nat × Nat) :
    InGroup plan.byFile path range ↔
      ((path = input.path ∧ definitionRange file sym input = .ok range) ∨
        (∃ reference, ReferenceSite index file sym input path reference ∧
          reference.byteRange = range) ∨
        ∃ content, UsageSite index file sym input path content range.1 ∧
          range.2 = range.1 + (utf8 input.name).length) ∧
      ∃ other, index.captureSharedFile path = some other ∧
        spells other.content (utf8 input.name) range = true := by
  obtain ⟨definition, defined, planned⟩ := bind_eq_ok planned
  obtain ⟨usages, collected, planned⟩ := bind_eq_ok planned
  obtain ⟨demotedReferences, -, planned⟩ := bind_eq_ok planned
  obtain ⟨demotedUsages, -, planned⟩ := bind_eq_ok planned
  obtain ⟨byFile, validated, planned⟩ := bind_eq_ok planned
  cases planned
  rw [inGroup_validated validated, inGroup_groupByKey]
  refine and_congr_left fun _ => ?_
  rw [mem_append, mem_cons, Prod.ext_iff, or_assoc]
  refine or_congr ?_ (or_congr ?_ ?_)
  · rw [defined]
    exact and_congr_right fun _ => ⟨fun same => congrArg Except.ok same.symm,
      fun same => (Except.ok.inj same).symm⟩
  · exact mem_writableReferences _
  · exact mem_writableUsages collected _

/-- A usage spells the name, and is whole if it is free on the side away from the colons. -/
theorem usageSite_spec {start : Nat}
    (site : UsageSite index file sym input path content start) :
    (∃ other, index.captureSharedFile path = some other ∧ other.content = content) ∧
      spells content (utf8 input.name) (start, start + (utf8 input.name).length) = true ∧
      (colonsBefore content start = true ∨
        colonsAfter content (start + (utf8 input.name).length) = true) := by
  obtain ⟨scanned, ⟨usages, ok, usage, member, confident, rfl⟩, -⟩ := site
  obtain ⟨other, captured, sameContent, -⟩ := scanned_content scanned
  obtain ⟨-, -, nonempty, qualified⟩ := fileUsages_spec ok member
  obtain ⟨spelled, colons⟩ := qualified confident
  exact ⟨⟨_, captured, sameContent⟩, spells_of_prefix nonempty spelled, colons⟩

/-- A plan renames whole identifiers, the defining occurrence among them, exactly when its three
sources yield those and one of them that occurrence. -/
theorem renamesWhole_iff {defining : Nat × Nat}
    (indexed : index.captureSharedFile input.path = some file)
    (defines : spells file.content (utf8 input.name) defining = true)
    (planned : buildRenamePlan fromUtf8Lossy index file sym input = .ok plan) :
    RenamesWhole index input defining plan ↔ WholeSites index file sym input defining := by
  have sites := inGroup_byFile planned
  constructor
  · rintro ⟨whole, recorded⟩
    refine ⟨?_, ?_, ?_, ?_⟩
    · intro range found
      obtain ⟨other, captured, -, isWholeThere⟩ := whole input.path _
        ((sites _ _).mpr ⟨.inl ⟨rfl, found⟩, _, indexed, definitionRange_spells found⟩)
      rw [indexed] at captured
      cases captured
      exact isWholeThere
    · intro path reference other site captured spelled
      obtain ⟨same, capturedSame, -, isWholeThere⟩ := whole _ reference.byteRange
        ((sites _ _).mpr ⟨.inr (.inl ⟨_, site, rfl⟩), _, captured, spelled⟩)
      rw [captured] at capturedSame
      cases capturedSame
      exact isWholeThere
    · intro path content start site
      obtain ⟨⟨other, captured, rfl⟩, spelled, colons⟩ := usageSite_spec site
      obtain ⟨same, capturedSame, -, isWholeThere⟩ := whole _ _
        ((sites _ (start, start + (utf8 input.name).length)).mpr
          ⟨.inr (.inr ⟨_, site, rfl⟩), _, captured, spelled⟩)
      rw [captured] at capturedSame
      cases capturedSame
      exact (isWhole_iff_of_colons colons).mp isWholeThere
    · obtain ⟨source, -⟩ := (sites _ _).mp recorded
      rcases source with ⟨-, found⟩ | reference | ⟨content, site, -⟩
      · exact .inl found
      · exact .inr (.inl reference)
      obtain ⟨⟨other, captured, rfl⟩, -, -⟩ := usageSite_spec site
      rw [indexed] at captured
      cases captured
      exact .inr (.inr site)
  · rintro ⟨definition, references, usages, defined⟩
    refine ⟨?_, (sites _ _).mpr ⟨?_, _, indexed, defines⟩⟩
    · intro path range member
      obtain ⟨source, other, captured, spelled⟩ := (sites _ _).mp member
      refine ⟨_, captured, spelled, ?_⟩
      rcases source with ⟨rfl, found⟩ | ⟨reference, site, rfl⟩ | ⟨content, site, stop⟩
      · rw [indexed] at captured
        cases captured
        exact definition _ found
      · exact references _ _ _ site captured spelled
      · obtain ⟨⟨same, capturedSame, rfl⟩, -, colons⟩ := usageSite_spec site
        rw [captured] at capturedSame
        cases capturedSame
        obtain ⟨start, rangeStop⟩ := range
        dsimp only at stop site colons ⊢
        rw [stop]
        exact (isWhole_iff_of_colons colons).mpr (usages _ _ _ site)
    · rcases defined with found | reference | site
      · exact .inl ⟨rfl, found⟩
      · exact .inr (.inl reference)
      · exact .inr (.inr ⟨file.content, site, spells_length defines⟩)

end Plan

/-! ### Two crates -/

/-- A file with one definition and a file that uses a path. -/
def definitionAndUse (definition : Bytes) (sym : SymbolRecord) (use : Bytes) : LiveIndex where
  files := [("lib.rs", ⟨definition, .rust, [sym], [], []⟩), ("main.rs", ⟨use, .rust, [], [], []⟩)]
  distinct := show (["lib.rs", "main.rs"] : List String).Nodup by decide
  reverseIndex := []
  unverifiedSeed := false

/-- A function with a short name. -/
def shortFunction : SymbolRecord := ⟨"n", .function, (0, 7), (0, 0), none⟩

/-- An index of it. -/
def shortNameIndex : LiveIndex :=
  definitionAndUse (utf8 "fn n();\n") shortFunction (utf8 "use a::next;\n")

/-- A function `n`: the plan renames the `n` of `fn` instead of the name, and the first letter of
`next` in a path. -/
theorem short_name_renames_parts :
    buildRenamePlan id shortNameIndex ⟨utf8 "fn n();\n", .rust, [shortFunction], [], []⟩
        shortFunction ⟨"lib.rs", "n", false⟩ =
      .ok ⟨[("lib.rs", [(1, 2)]), ("main.rs", [(7, 8)])], [], .rust⟩ ∧
    isWhole (utf8 "fn n();\n") (1, 2) = false ∧ isWhole (utf8 "use a::next;\n") (7, 8) = false ∧
    ¬ RenamesWhole shortNameIndex ⟨"lib.rs", "n", false⟩ (3, 4)
      ⟨[("lib.rs", [(1, 2)]), ("main.rs", [(7, 8)])], [], .rust⟩ := by
  refine ⟨rfl, rfl, rfl, ?_⟩
  rintro ⟨-, ranges, member, recorded⟩
  simp only [mem_cons, Prod.mk.injEq, not_mem_nil, or_false] at member
  rcases member with ⟨-, rfl⟩ | ⟨other, -⟩
  · revert recorded
    decide
  · revert other
    decide

/-- A function with a longer name. -/
def longFunction : SymbolRecord := ⟨"twice", .function, (0, 11), (0, 0), none⟩

/-- An index of it. -/
def longNameIndex : LiveIndex :=
  definitionAndUse (utf8 "fn twice();\n") longFunction (utf8 "lib::twice();\n")

/-- A name that stands alone is renamed as a whole, in its definition and in a path. -/
theorem long_name_renames_whole :
    buildRenamePlan id longNameIndex ⟨utf8 "fn twice();\n", .rust, [longFunction], [], []⟩
        longFunction ⟨"lib.rs", "twice", false⟩ =
      .ok ⟨[("lib.rs", [(3, 8)]), ("main.rs", [(5, 10)])], [], .rust⟩ ∧
    WholeSites longNameIndex ⟨utf8 "fn twice();\n", .rust, [longFunction], [], []⟩ longFunction
      ⟨"lib.rs", "twice", false⟩ (3, 8) := by
  have planned : buildRenamePlan id longNameIndex
      ⟨utf8 "fn twice();\n", .rust, [longFunction], [], []⟩ longFunction
      ⟨"lib.rs", "twice", false⟩ =
        .ok ⟨[("lib.rs", [(3, 8)]), ("main.rs", [(5, 10)])], [], .rust⟩ := rfl
  refine ⟨planned, (renamesWhole_iff rfl rfl planned).mp ⟨?_, ?_⟩⟩
  · rintro path range ⟨ranges, member, inRanges⟩
    simp only [mem_cons, Prod.mk.injEq, not_mem_nil, or_false] at member
    rcases member with ⟨rfl, rfl⟩ | ⟨rfl, rfl⟩
    · rw [mem_singleton.mp inRanges]
      exact ⟨_, rfl, rfl, rfl⟩
    · rw [mem_singleton.mp inRanges]
      exact ⟨_, rfl, rfl, rfl⟩
  · exact ⟨[(3, 8)], mem_cons_self, mem_cons_self⟩

end Symforge.Edit
