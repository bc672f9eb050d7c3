import Mathlib.Data.List.Sort
import Symforge.Index.Disambiguation
import Symforge.Index.QualifiedUsages
import Symforge.Index.References
/-!
# The rename planner

`edit_safety/rename.rs`. The sites of a rename are the first occurrence of the name in the span
of the definition, the references the index lists for the name, and the qualified usages found by a
scan of all files. Where the name has several definitions, the last two are kept only if their
qualifier names the renamed one's owner. The sites of a file are checked against its bytes.
-/

namespace Symforge.Edit

open Library

/-- `rename::RenamePlanInput`. -/
structure RenamePlanInput where
  path : String
  name : String
  codeOnly : Bool

/-- `rename::RenamePlan`. -/
structure RenamePlan where
  byFile : List (String × List (Nat × Nat))
  uncertainLines : List Bytes
  language : LanguageId
  deriving DecidableEq, Repr

/-! ### The ranges of one file -/

/-- The bytes of a range are the name. -/
def spells (content name : Bytes) (range : Nat × Nat) : Bool :=
  decide (range.1 < range.2 ∧ range.2 ≤ content.length) &&
    ((content.take range.2).drop range.1 == name)

/-- Descending by start, then by end. -/
def rangeAfter (left right : Nat × Nat) : Prop :=
  right.1 < left.1 ∨ (right.1 = left.1 ∧ right.2 ≤ left.2)

instance (left right : Nat × Nat) : Decidable (rangeAfter left right) :=
  inferInstanceAs (Decidable (_ ∨ _))

/-- The first two neighbours, in descending order, that overlap. -/
def overlappingNeighbours : List (Nat × Nat) → Option ((Nat × Nat) × (Nat × Nat))
  | previous :: current :: rest =>
    if current.2 > previous.1 then some (current, previous)
    else overlappingNeighbours (current :: rest)
  | _ => none

/-- `rename::validate_rename_ranges`. -/
def validateRenameRanges (ranges : List (Nat × Nat)) (original oldName : Bytes)
    (filePath : String) : Except EditFault (List (Nat × Nat)) :=
  let kept := (dedupAdjacent (ranges.insertionSort rangeAfter)).filter (spells original oldName)
  match overlappingNeighbours kept with
  | some ((start, stop), (otherStart, otherStop)) => .error (.refused
      s!"{filePath}: overlapping ranges ({start}, {stop}) and ({otherStart}, {otherStop})")
  | none => .ok kept

/-! ### The scope of a rename -/

/-- `path.rsplit('.').next()`. -/
def pathExtension (path : String) : Bytes :=
  match rfind (utf8 path) [0x2E] with
  | some position => (utf8 path).drop (position + 1)
  | none => utf8 path

/-- The `code_only` filter. -/
def inScope (codeOnly : Bool) (path : String) : Bool :=
  !codeOnly ||
    match LanguageId.fromExtension (pathExtension path) with
    | none => false
    | some language => !isConfigLanguage language

/-! ### The ambiguity gate -/

/-- The segment in front of the leaf of a qualified name, if there is one. -/
def immediateQualifier (qualifiedName : String) : Option Bytes :=
  match (nameSegments qualifiedName).reverse with
  | _ :: qualifier :: _ => some qualifier
  | _ => none

/-- `[A-Za-z0-9_]`. -/
def isIdentifierByte (byte : UInt8) : Bool :=
  byte == 0x5F || decide (0x30 ≤ byte ∧ byte ≤ 0x39) || decide (0x41 ≤ byte ∧ byte ≤ 0x5A) ||
    decide (0x61 ≤ byte ∧ byte ≤ 0x7A)

/-- `qualifier_before`: the identifier that ends at the `::` in front of a leaf. It is ASCII, so the
UTF-8 guards do nothing. -/
def qualifierBefore (content : Bytes) (leafStart : Nat) : Option Bytes :=
  if leafStart < 2 ∨ leafStart > content.length ∨
      (content.take leafStart).drop (leafStart - 2) ≠ utf8 "::" then none
  else
    match ((content.take (leafStart - 2)).reverse.takeWhile isIdentifierByte).reverse with
    | [] => none
    | qualifier => some qualifier

/-- The definitions of a name, each with the owner of the `impl` block that holds it. -/
def definitionOwners (index : LiveIndex) (name : String) : List (Option Bytes) :=
  index.files.flatMap fun entry =>
    (entry.2.symbols.filter fun sym => sym.name == name).map fun sym =>
      enclosingImplOwner entry.2.symbols sym.lineRange.1

/-- `recovers`, with the test for several definitions: whether a site stays writable. -/
def attributable (index : LiveIndex) (name : String) (targetOwner qualifier : Option Bytes) :
    Bool :=
  let owners := definitionOwners index name
  decide (owners.length < 2) ||
    match targetOwner, qualifier with
    | some owner, some found => owners.count (some owner) == 1 && found == owner
    | _, _ => false

/-- A site that is reported and not renamed. -/
structure UncertainSite where
  path : String
  line : Nat
  context : Bytes
  deriving DecidableEq, Repr

section Planner

-- `String::from_utf8_lossy` of the standard library.
variable (fromUtf8Lossy : Bytes → Bytes)

/-- `demote`: the line of a site. Cutting the text inside a character panics. -/
def demote (contents : List (String × Bytes)) (path : String) (start : Nat) :
    Except EditFault UncertainSite :=
  let text := fromUtf8Lossy ((contents.lookup path).getD [])
  let stop := min start text.length
  if isCharBoundary text stop then
    let line := (text.take stop).count 0x0A + 1
    .ok ⟨path, line, trim ((lines text).getD (line - 1) [])⟩
  else .error .panicked

/-- The text of the definition with the first occurrence of the name in it. -/
def definitionRange (file : IndexedFile) (sym : SymbolRecord) (input : RenamePlanInput) :
    Except EditFault (Nat × Nat) :=
  let name := utf8 input.name
  let start := sym.byteRange.1
  let stop := sym.byteRange.2
  if name.isEmpty then .error (.refused "Rename target name is empty")
  else if start ≤ stop ∧ stop ≤ file.content.length then
    match windowPosition name ((file.content.take stop).drop start) with
    | some offset => .ok (start + offset, start + offset + name.length)
    | none =>
      let oldName := input.name
      let path := input.path
      .error (.refused
        s!"Could not locate name `{oldName}` within symbol body at {path}:{start}-{stop}")
  else .error (.refused "Rename target span is stale")

variable (index : LiveIndex)

/-- The contents that the scan for qualified usages goes over. -/
def scannedContents (codeOnly : Bool) : List (String × Bytes) :=
  (index.files.filter fun entry => inScope codeOnly entry.1).map fun entry =>
    (entry.1, entry.2.content)

/-- The references of the name, in scope, each with whether it stays writable. -/
def referenceSites (targetOwner : Option Bytes) (input : RenamePlanInput) :
    List ((String × ReferenceRecord) × Bool) :=
  ((index.findReferencesForName none false input.name).filter fun site =>
    inScope input.codeOnly site.1).map fun site =>
      (site, attributable index input.name targetOwner
        (site.2.qualifiedName.bind immediateQualifier))

/-- A confident usage with whether it stays writable. -/
def usageSite (targetOwner : Option Bytes) (input : RenamePlanInput)
    (usage : QualifiedUsage) : QualifiedUsage × Bool :=
  let content := ((scannedContents index input.codeOnly).lookup usage.filePath).getD []
  (usage, attributable index input.name targetOwner (qualifierBefore content usage.byteRange.1))

/-- By path, then by line. -/
def uncertainBefore (left right : UncertainSite) : Prop :=
  left.path < right.path ∨ (left.path = right.path ∧ left.line ≤ right.line)

instance (left right : UncertainSite) : Decidable (uncertainBefore left right) :=
  inferInstanceAs (Decidable (_ ∨ _))

/-- A line of the report. -/
def uncertainLine (site : UncertainSite) : Bytes :=
  let path := site.path
  let line := site.line
  utf8 s!"  {path}:{line}  " ++ site.context

/-- The sites of one file against its bytes. -/
def validateFile (name : Bytes) (group : String × List (Nat × Nat)) :
    Except EditFault (String × List (Nat × Nat)) :=
  let path := group.1
  match index.captureSharedFile path with
  | none => .error (.refused s!"File disappeared: {path}")
  | some file => do
    let ranges ← validateRenameRanges group.2 file.content name path
    .ok (path, ranges)

/-- `rename::build_rename_plan`. -/
def buildRenamePlan (file : IndexedFile) (sym : SymbolRecord)
    (input : RenamePlanInput) : Except EditFault RenamePlan := do
  let definition ← definitionRange file sym input
  let targetOwner := enclosingImplOwner file.symbols sym.lineRange.1
  let contents := scannedContents index input.codeOnly
  let usages ← collectQualifiedUsages (utf8 input.name) contents
  let references := referenceSites index targetOwner input
  let confident := (usages.filter QualifiedUsage.confident).map (usageSite index targetOwner input)
  let demotedReferences ← (references.filter fun site => !site.2).mapM fun site =>
    demote fromUtf8Lossy contents site.1.1 site.1.2.byteRange.1
  let demotedUsages ← (confident.filter fun site => !site.2).mapM fun site =>
    demote fromUtf8Lossy contents site.1.filePath site.1.byteRange.1
  let sites := (input.path, definition) ::
    ((references.filter Prod.snd).map fun site => (site.1.1, site.1.2.byteRange)) ++
    (confident.filter Prod.snd).map fun site => (site.1.filePath, site.1.byteRange)
  let byFile ← (groupByKey sites).mapM (validateFile index (utf8 input.name))
  let uncertain := (usages.filter fun usage => !usage.confident).map fun usage =>
    (⟨usage.filePath, usage.line, usage.context⟩ : UncertainSite)
  .ok
    { byFile := byFile
      uncertainLines := (dedupAdjacent ((uncertain ++ demotedReferences ++
        demotedUsages).insertionSort uncertainBefore)).map uncertainLine
      language := file.language }

end Planner

end Symforge.Edit
