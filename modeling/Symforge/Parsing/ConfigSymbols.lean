import Symforge.Domain
import Symforge.Library.SortedList

/-!
# Symbols of configuration files

What the extractors of `src/parsing/config_extractors` share: the symbols they produce, the lines
that byte offsets are on, and the key paths that symbols are named by. Offsets are natural numbers:
files beyond 100 MiB are not indexed.
-/

namespace Symforge.Parsing

open Library List

/-- `config_extractors::MAX_DEPTH`. -/
def maxDepth : Nat := 6

/-- `config_extractors::MAX_ARRAY_ITEMS`. -/
def maxArrayItems : Nat := 20

/-- `domain::index::SymbolRecord`, with the fields that an extractor fills in. -/
structure ConfigSymbol extends SymbolRecord where
  depth : Nat
  sortOrder : Nat
  itemByteRange : Option (Nat × Nat)
  deriving DecidableEq, Repr

/-- `domain::index::ParseDiagnostic`. -/
structure ParseDiagnostic where
  parser : String
  message : String
  line : Option Nat
  column : Option Nat
  byteSpan : Option (Nat × Nat)
  fallbackUsed : Bool
  deriving DecidableEq, Repr

/-- `config_extractors::ExtractionOutcome`. -/
inductive ExtractionOutcome where
  | ok
  | partialResult (diagnostic : ParseDiagnostic)
  | failed (diagnostic : ParseDiagnostic)
  deriving DecidableEq, Repr

/-- `config_extractors::ExtractionResult`. -/
structure ExtractionResult where
  symbols : List ConfigSymbol
  outcome : ExtractionOutcome
  deriving DecidableEq, Repr

/-- A symbol before it is numbered: its name, its depth and its bytes. -/
structure KeySpan where
  name : String
  depth : Nat
  range : Nat × Nat
  deriving DecidableEq, Repr

/-- The part of a symbol that says where it is. -/
def ConfigSymbol.span (symbol : ConfigSymbol) : KeySpan :=
  ⟨symbol.name, symbol.depth, symbol.byteRange⟩

/-- Where a scan is: outside of quoted strings, in one, or behind a backslash in one. -/
inductive StringMode where
  | outside | inside | escaped
  deriving DecidableEq, Repr

/-- `config_extractors::optional_u32`. -/
def optionalU32 (value : Nat) : Option Nat :=
  if value = 0 then none else if value < 2 ^ 32 then some value else none

/-- `config_extractors::build_line_starts`. -/
def buildLineStarts (content : Bytes) : List Nat :=
  0 :: (content.zipIdx.filter (·.1 = 0x0A)).map (·.2 + 1)

/-- `config_extractors::byte_to_line`. -/
def byteToLine (lineStarts : List Nat) (offset : Nat) : Nat :=
  match binarySearch lineStarts offset with
  | .ok index => index
  | .error index => index - 1

/-- `config_extractors::byte_offset_to_line_column`. -/
def byteOffsetToLineColumn (content : Bytes) (byteOffset : Nat) : Nat × Nat :=
  let before := content.take byteOffset
  (before.count 0x0A + 1, ((before.drop (lastLineStart before)).filter (· != 0x0D)).length + 1)

/-- `config_extractors::parse_diagnostic_from_span`. -/
def parseDiagnosticFromSpan (parser message : String) (content : Bytes) (span : Option (Nat × Nat))
    (fallbackUsed : Bool) : ParseDiagnostic :=
  let byteSpan := span.map fun range =>
    let start := min range.1 content.length
    (start, max (min range.2 content.length) start)
  let position := byteSpan.map fun range => byteOffsetToLineColumn content range.1
  ⟨parser, message, position.map (·.1), position.map (·.2), byteSpan, fallbackUsed⟩

/-- How `escape_key_segment` writes a character. -/
def escapeChar (char : Char) : List Char :=
  if char = '~' then ['~', '0']
  else if char = '.' then ['~', '1']
  else if char = '[' then ['~', '2']
  else if char = ']' then ['~', '3']
  else [char]

/-- `config_extractors::escape_key_segment`. -/
def escapeKeySegment (raw : String) : String := String.ofList (raw.toList.flatMap escapeChar)

/-- `config_extractors::join_key_path`. -/
def joinKeyPath (parent child : String) : String :=
  if parent = "" then escapeKeySegment child else parent ++ "." ++ escapeKeySegment child

/-- `config_extractors::join_array_index`. -/
def joinArrayIndex (parent : String) (index : Nat) : String :=
  parent ++ "[" ++ toString index ++ "]"

/-- Texts written letter by letter in a prefix code can be read back. -/
theorem flatMap_injective_of_prefixCode {Letter Symbol : Type} {code : Letter → List Symbol}
    (nonempty : ∀ letter, code letter ≠ [])
    (unique : ∀ one other rest rest', code one ++ rest = code other ++ rest' →
      one = other ∧ rest = rest') {left right : List Letter}
    (same : left.flatMap code = right.flatMap code) : left = right := by
  induction left generalizing right with
  | nil =>
    cases right with
    | nil => rfl
    | cons first rest =>
      rw [flatMap_nil, flatMap_cons] at same
      exact absurd (append_eq_nil_iff.mp same.symm).1 (nonempty _)
  | cons first rest ih =>
    cases right with
    | nil =>
      rw [flatMap_nil, flatMap_cons] at same
      exact absurd (append_eq_nil_iff.mp same).1 (nonempty _)
    | cons other others =>
      rw [flatMap_cons, flatMap_cons] at same
      obtain ⟨heads, tails⟩ := unique _ _ _ _ same
      rw [heads, ih tails]

/-- No character is escaped to nothing. -/
theorem escapeChar_ne_nil (char : Char) : escapeChar char ≠ [] := by
  unfold escapeChar
  split_ifs <;> exact cons_ne_nil _ _

/-- An escaped character can be read back. -/
theorem escapeChar_append {one other : Char} {rest rest' : List Char}
    (same : escapeChar one ++ rest = escapeChar other ++ rest') : one = other ∧ rest = rest' := by
  unfold escapeChar at same
  -- Equal letters of the code agree, and `~` is no letter of its own.
  split_ifs at same <;> simp only [cons_append, nil_append, cons.injEq] at same <;>
    grind

/-! ### Whole paths -/

/-- A step on the way down to a value. -/
inductive PathSegment where
  | key (name : String)
  | index (position : Nat)
  deriving DecidableEq

namespace PathSegment

/-- The path of what a segment leads to. -/
def join (parent : String) : PathSegment → String
  | .key name => joinKeyPath parent name
  | .index position => joinArrayIndex parent position

/-- The path of what a sequence of segments leads to. -/
def keyPath (segments : List PathSegment) : String := segments.foldl join ""

/-- The first sequence is the other one below empty keys. -/
def BelowEmptyKeys (one other : List PathSegment) : Prop :=
  ∃ count, one = replicate count (.key "") ++ other

/-- The mark and the text that a segment adds to a path. -/
def written : PathSegment → Char × List Char
  | .key name => ('.', name.toList.flatMap escapeChar)
  | .index position => ('[', Nat.toDigits 10 position ++ [']'])

/-- A segment can be read back. -/
theorem written_injective {one other : PathSegment} (same : one.written = other.written) :
    one = other := by
  cases one with
  | key name =>
    cases other with
    | key other =>
      have names := flatMap_injective_of_prefixCode escapeChar_ne_nil
        (fun _ _ _ _ => escapeChar_append) (Prod.ext_iff.mp same).2
      rw [String.toList_inj.mp names]
    | index position => cases (Prod.ext_iff.mp same).1
  | index position =>
    cases other with
    | key name => cases (Prod.ext_iff.mp same).1
    | index other =>
      have numbers := congrArg (Nat.ofDigitChars 10 · 0)
        (append_cancel_right (Prod.ext_iff.mp same).2)
      rw [Nat.ofDigitChars_ten_toDigits, Nat.ofDigitChars_ten_toDigits] at numbers
      rw [numbers]

/-- No text holds a mark. -/
theorem mark_notMem (one other : PathSegment) : one.written.1 ∉ other.written.2 := by
  have mark : one.written.1 = '.' ∨ one.written.1 = '[' := by
    cases one <;> simp [written]
  intro member
  cases other with
  | key name =>
    obtain ⟨raw, -, member⟩ := mem_flatMap.mp member
    unfold escapeChar at member
    split_ifs at member <;> grind
  | index position =>
    rcases mem_append.mp member with digit | closing
    · have isDigit := Nat.isDigit_of_mem_toDigits (by decide) (by decide) digit
      rcases mark with mark | mark <;> simp [mark] at isDigit
    · rw [mem_singleton.mp closing] at mark
      simp at mark

/-- The mark of a key at the root is left out. -/
theorem toList_join (parent : String) (segment : PathSegment) :
    (segment.join parent).toList =
      if parent = "" ∧ segment.written.1 = '.' then segment.written.2
      else parent.toList ++ segment.written.1 :: segment.written.2 := by
  cases segment with
  | key name =>
    simp only [join, joinKeyPath, written, and_true]
    split <;> simp [escapeKeySegment]
  | index position => simp [join, joinArrayIndex, written]

/-- Parent and segment can be read back from the path. -/
theorem join_inj {parent above : String} {one other : PathSegment}
    (same : one.join parent = other.join above) : parent = above ∧ one = other := by
  have texts := congrArg String.toList same
  rw [toList_join, toList_join] at texts
  split_ifs at texts with root otherRoot otherRoot
  · exact ⟨root.1.trans otherRoot.1.symm,
      written_injective (Prod.ext (root.2.trans otherRoot.2.symm) texts)⟩
  · exact absurd (by simp [texts]) (other.mark_notMem one)
  · exact absurd (by simp [← texts]) (one.mark_notMem other)
  · obtain ⟨parents, marks, texts⟩ :=
      append_cons_inj (other.mark_notMem _) (one.mark_notMem _) texts
    exact ⟨String.toList_inj.mp parents, written_injective (Prod.ext marks texts)⟩

/-- A path and the number of its segments determine them. -/
theorem foldl_join_inj {parent above : String} {one other : List PathSegment}
    (lengths : one.length = other.length)
    (same : one.foldl join parent = other.foldl join above) : parent = above ∧ one = other := by
  induction one generalizing other parent above with
  | nil =>
    cases other with
    | nil => exact ⟨same, rfl⟩
    | cons segment rest => cases lengths
  | cons segment rest ih =>
    cases other with
    | nil => cases lengths
    | cons another others =>
      obtain ⟨joined, rfl⟩ := ih (Nat.succ.inj lengths) same
      obtain ⟨parents, rfl⟩ := join_inj joined
      exact ⟨parents, rfl⟩

/-- Empty keys in front leave no trace. -/
theorem keyPath_replicate (count : Nat) (segments : List PathSegment) :
    keyPath (replicate count (.key "") ++ segments) = keyPath segments := by
  induction count with
  | zero => rfl
  | succ count ih => exact ih

/-- Equal paths differ by empty keys in front only. -/
theorem belowEmptyKeys_of_le {one other : List PathSegment} (shorter : other.length ≤ one.length)
    (same : keyPath one = keyPath other) : BelowEmptyKeys one other := by
  have padded := same.trans (keyPath_replicate (one.length - other.length) _).symm
  refine ⟨_, (foldl_join_inj ?_ padded).2⟩
  rw [length_append, length_replicate]
  omega

/-- Two sequences have one path exactly if one of them is the other below empty keys. -/
theorem keyPath_determines_iff (one other : List PathSegment) :
    (keyPath one = keyPath other → one = other) ↔
      (BelowEmptyKeys one other ∨ BelowEmptyKeys other one → one = other) := by
  have same : keyPath one = keyPath other ↔
      BelowEmptyKeys one other ∨ BelowEmptyKeys other one := by
    constructor
    · intro same
      rcases Nat.le_total other.length one.length with shorter | longer
      · exact .inl (belowEmptyKeys_of_le shorter same)
      · exact .inr (belowEmptyKeys_of_le longer same.symm)
    · rintro (⟨count, rfl⟩ | ⟨count, rfl⟩)
      · exact keyPath_replicate _ _
      · exact (keyPath_replicate _ _).symm
  rw [same]

/-- A key below an empty key has the path of the key alone. -/
theorem keyPath_below_empty_key :
    keyPath [.key "", .key "a"] = keyPath [.key "a"] ∧ [key "", key "a"] ≠ [key "a"] := by
  decide +kernel

end PathSegment

open PathSegment

/-- Different keys of one parent have different paths. -/
theorem joinKeyPath_injective {parent left right : String}
    (same : joinKeyPath parent left = joinKeyPath parent right) : left = right := by
  have joined : (key left).join parent = (key right).join parent := same
  exact key.inj (join_inj joined).2

end Symforge.Parsing
