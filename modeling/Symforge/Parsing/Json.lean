import Mathlib.Data.String.Basic
import Symforge.Parsing.ConfigSymbols

/-!
# Symbols of JSON files

Model of `parsing/config_extractors/json.rs`. The parser of the source gives a value without
positions; the walker finds the bytes of every key and item again by scanning the text. The parser
is a parameter. A scan from an offset is a recursion over the bytes behind it.
-/

namespace Symforge.Parsing.Json

open Library

/-- `b' ' | b'\t' | b'\r' | b'\n'`. -/
def isWhitespace (byte : UInt8) : Bool :=
  byte == 0x20 || byte == 0x09 || byte == 0x0D || byte == 0x0A

/-! ### Normalization -/

/-- `json::blank_leading_bom`. -/
def blankLeadingBom : Bytes → Bytes
  | 0xEF :: 0xBB :: 0xBF :: rest => 0x20 :: 0x20 :: 0x20 :: rest
  | input => input

/-- Where a scan of JSON with comments is. -/
inductive CommentMode where
  | plain | string | escaped | lineComment | blockOpen | blockComment | blockClose
  deriving DecidableEq, Repr

/-- The loop of `strip_json_comments`. -/
def stripFrom : CommentMode → Bytes → Bytes
  | _, [] => []
  | .plain, byte :: rest =>
    if byte = 0x22 then byte :: stripFrom .string rest
    else if byte = 0x2F ∧ rest.head? = some 0x2F then 0x20 :: stripFrom .lineComment rest
    else if byte = 0x2F ∧ rest.head? = some 0x2A then 0x20 :: stripFrom .blockOpen rest
    else byte :: stripFrom .plain rest
  | .string, byte :: rest =>
    if byte = 0x22 then byte :: stripFrom .plain rest
    else if byte = 0x5C then byte :: stripFrom .escaped rest
    else byte :: stripFrom .string rest
  | .escaped, byte :: rest => byte :: stripFrom .string rest
  | .lineComment, byte :: rest =>
    if byte = 0x0A then byte :: stripFrom .plain rest else 0x20 :: stripFrom .lineComment rest
  | .blockOpen, _ :: rest => 0x20 :: stripFrom .blockComment rest
  | .blockComment, byte :: rest =>
    if byte = 0x2A ∧ rest.head? = some 0x2F then 0x20 :: stripFrom .blockClose rest
    else (if byte = 0x0A then 0x0A else 0x20) :: stripFrom .blockComment rest
  | .blockClose, _ :: rest => 0x20 :: stripFrom .plain rest

/-- `json::strip_json_comments`. -/
def stripJsonComments (input : Bytes) : Bytes := stripFrom .plain input

/-- The next byte that is not whitespace closes an object or an array. -/
def closesNext (rest : Bytes) : Bool :=
  match rest.dropWhile isWhitespace with
  | [] => false
  | byte :: _ => byte == 0x7D || byte == 0x5D

/-- The loop of `blank_trailing_commas`. -/
def blankCommasFrom : StringMode → Bytes → Bytes
  | _, [] => []
  | .outside, byte :: rest =>
    if byte = 0x22 then byte :: blankCommasFrom .inside rest
    else if byte = 0x2C ∧ closesNext rest then 0x20 :: blankCommasFrom .outside rest
    else byte :: blankCommasFrom .outside rest
  | .inside, byte :: rest =>
    if byte = 0x22 then byte :: blankCommasFrom .outside rest
    else if byte = 0x5C then byte :: blankCommasFrom .escaped rest
    else byte :: blankCommasFrom .inside rest
  | .escaped, byte :: rest => byte :: blankCommasFrom .inside rest

/-- `json::blank_trailing_commas`. -/
def blankTrailingCommas (input : Bytes) : Bytes := blankCommasFrom .outside input

/-- `json::normalize_jsonc`. -/
def normalizeJsonc (input : Bytes) : Bytes :=
  blankTrailingCommas (stripJsonComments (blankLeadingBom input))

/-! ### Scanning -/

variable (content : Bytes) (start : Nat)

/-- `json::skip_whitespace`. -/
def skipWhitespace : Nat := start + ((content.drop start).takeWhile isWhitespace).length

/-- How many bytes behind an opening quote belong to the string. -/
def stringRest : Bytes → Nat
  | [] => 0
  | [_] => 1
  | byte :: next :: rest =>
    if byte = 0x5C then stringRest rest + 2
    else if byte = 0x22 then 1
    else stringRest (next :: rest) + 1

/-- `json::scan_string_end`. -/
def scanStringEnd : Nat := start + 1 + stringRest (content.drop (start + 1))

/-- The loop of `scan_container_end`: how many bytes it passes, with the nesting so far and the
bytes of a string that are still to be skipped. -/
def containerRest (opening closing : UInt8) : Nat → Nat → Bytes → Nat
  | _, _, [] => 0
  | depth, skip + 1, _ :: rest => containerRest opening closing depth skip rest + 1
  | depth, 0, byte :: rest =>
    if byte = 0x22 then containerRest opening closing depth (stringRest rest) rest + 1
    else if byte = opening then containerRest opening closing (depth + 1) 0 rest + 1
    else if byte = closing then
      if depth - 1 = 0 then 1 else containerRest opening closing (depth - 1) 0 rest + 1
    else containerRest opening closing depth 0 rest + 1

/-- `json::scan_container_end`, at a bracket. -/
def scanContainerEnd (opening : UInt8) : Nat :=
  start + containerRest opening (if opening = 0x7B then 0x7D else 0x5D) 0 0 (content.drop start)

/-- A byte that ends a number or a literal. -/
def isDelimiter (byte : UInt8) : Bool :=
  byte == 0x2C || byte == 0x7D || byte == 0x5D || isWhitespace byte

/-- `json::scan_value_end`. -/
def scanValueEnd : Nat :=
  match content.drop start with
  | [] => content.length
  | byte :: rest =>
    if byte = 0x22 then scanStringEnd content start
    else if byte = 0x7B ∨ byte = 0x5B then scanContainerEnd content start byte
    else start + ((byte :: rest).takeWhile (!isDelimiter ·)).length

/-- The loop of `find_value_start_in_range`: where the first colon outside strings is. -/
def firstColon : StringMode → Bytes → Option Nat
  | _, [] => none
  | .outside, byte :: rest =>
    if byte = 0x22 then (firstColon .inside rest).map (· + 1)
    else if byte = 0x3A then some 0
    else (firstColon .outside rest).map (· + 1)
  | .inside, byte :: rest =>
    let mode := if byte = 0x5C then .escaped else if byte = 0x22 then .outside else .inside
    (firstColon mode rest).map (· + 1)
  | .escaped, _ :: rest => (firstColon .inside rest).map (· + 1)

/-- `json::find_value_start_in_range`. -/
def findValueStartInRange (start stop : Nat) : Option Nat :=
  if stop ≤ start ∨ content.length ≤ start then none
  else match firstColon .outside ((content.take stop).drop start) with
    | some colon => some (min (skipWhitespace content (start + colon + 1)) stop)
    | none => some (min (skipWhitespace content start) stop)

/-- The loop of `find_array_item_ranges`. The source loops forever where it does not advance, as on
`[1 /* } */]`; here it is bounded by the number of bytes. -/
def itemRangesFrom (content : Bytes) (arrayEnd : Nat) : Nat → Nat → List (Nat × Nat)
  | 0, _ => []
  | fuel + 1, cursor =>
    if arrayEnd ≤ cursor then []
    else
      let itemStart := skipWhitespace content cursor
      if arrayEnd ≤ itemStart ∨ content[itemStart]? = some 0x5D then []
      else
        let itemEnd := min (scanValueEnd content itemStart) arrayEnd
        let after := skipWhitespace content itemEnd
        let next := if after < arrayEnd ∧ content[after]? = some 0x2C then after + 1 else after
        (itemStart, itemEnd) :: itemRangesFrom content arrayEnd fuel next

/-- `json::find_array_item_ranges`. -/
def findArrayItemRanges (parentRange : Nat × Nat) : List (Nat × Nat) :=
  let stop := min parentRange.2 content.length
  if stop ≤ parentRange.1 then []
  else match findValueStartInRange content parentRange.1 stop with
    | none => []
    | some valueStart =>
      if stop ≤ valueStart ∨ content[valueStart]? ≠ some 0x5B then []
      else
        let arrayEnd := min (scanContainerEnd content valueStart 0x5B) stop
        itemRangesFrom content arrayEnd (content.length + 1) (valueStart + 1)

/-! ### Keys -/

/-- How `key_needle` writes a byte of a key. -/
def escapeKeyByte (byte : UInt8) : Bytes :=
  if byte = 0x5C then [0x5C, 0x5C] else if byte = 0x22 then [0x5C, 0x22] else [byte]

variable (key : String)

/-- `json::key_needle`. -/
def keyNeedle : Bytes := 0x22 :: (utf8 key).flatMap escapeKeyByte ++ [0x22]

/-- `json::find_key_offset`. -/
def findKeyOffset (searchFrom stop : Nat) : Option Nat :=
  (windowPosition (keyNeedle key) ((content.take stop).drop searchFrom)).map (searchFrom + ·)

/-- `json::find_key_value_range`. -/
def findKeyValueRange (searchFrom parentEnd : Nat) : Nat × Nat :=
  let parentEnd := min parentEnd content.length
  match findKeyOffset content key searchFrom parentEnd with
  | none => (min searchFrom content.length, parentEnd)
  | some keyStart =>
    let afterKey := keyStart + (keyNeedle key).length
    match ((content.take parentEnd).drop afterKey).findIdx? (· == 0x3A) with
    | none => (keyStart, min afterKey parentEnd)
    | some colon =>
      let valueStart := skipWhitespace content (afterKey + colon + 1)
      (keyStart, min (scanValueEnd content valueStart) parentEnd)

/-! ### The walk -/

/-- `serde_json::Value`, with nothing of scalars. -/
inductive Value where
  | scalar
  | array (items : List Value)
  | object (entries : List (String × Value))

/-- An entry of a map with the offset it is ordered by. -/
structure Ordered where
  offset : Nat
  key : String
  value : Value

variable (parentStart parentEnd : Nat)

/-- An entry with the place where its key is found. -/
def orderEntry (entry : String × Value) : Ordered :=
  ⟨(findKeyOffset content entry.1 parentStart parentEnd).getD parentStart, entry.1, entry.2⟩

/-- The entries of a map in the order of the first occurrence of their keys. -/
def orderEntries (entries : List (String × Value)) : List Ordered :=
  (entries.map (orderEntry content parentStart parentEnd)).insertionSort (·.offset ≤ ·.offset)

/-- How the walk goes on into a value: with its path and its bytes. -/
abbrev Descent := Value → String → Nat × Nat → List KeySpan

/-- The loop of `walk_object` over the ordered entries. -/
def memberSpans (content : Bytes) (parentPath : String) (parentEnd depth : Nat)
    (descend : Descent) : Nat → List Ordered → List KeySpan
  | _, [] => []
  | cursor, entry :: rest =>
    let keyPath := joinKeyPath parentPath entry.key
    let range := findKeyValueRange content entry.key cursor parentEnd
    ⟨keyPath, depth, range⟩ :: (descend entry.value keyPath range ++
      memberSpans content parentPath parentEnd depth descend (max range.2 cursor) rest)

/-- The loop of `walk_array`. -/
def itemSpans (itemRanges : List (Nat × Nat)) (parentPath : String) (parentRange : Nat × Nat)
    (depth : Nat) (descend : Descent) : Nat → List Value → List KeySpan
  | _, [] => []
  | index, value :: rest =>
    let path := joinArrayIndex parentPath index
    let range := itemRanges[index]?.getD parentRange
    ⟨path, depth, range⟩ :: (descend value path range ++
      itemSpans itemRanges parentPath parentRange depth descend (index + 1) rest)

/-- `JsonWalker::walk_object` and `JsonWalker::walk_array`, for so many levels more. -/
def walk (content : Bytes) : Nat → Nat → Descent
  | 0, _, _, _, _ => []
  | _ + 1, _, .scalar, _, _ => []
  | levels + 1, depth, .array items, path, range =>
    itemSpans (findArrayItemRanges content range) path range depth
      (walk content levels (depth + 1)) 0 (items.take maxArrayItems)
  | levels + 1, depth, .object entries, path, range =>
    let parentStart := min range.1 content.length
    let parentEnd := min range.2 content.length
    memberSpans content path parentEnd depth (walk content levels (depth + 1)) parentStart
      (orderEntries content parentStart parentEnd entries)

/-- `JsonWalker::push_key_symbol`, with the number of the symbol. -/
def keySymbol (lineStarts : List Nat) (span : KeySpan) (sortOrder : Nat) : ConfigSymbol where
  name := span.name
  kind := .key
  byteRange := span.range
  lineRange := (byteToLine lineStarts span.range.1,
    byteToLine lineStarts (max (span.range.2 - 1) span.range.1))
  docByteRange := none
  depth := span.depth
  sortOrder := sortOrder
  itemByteRange := some span.range

/-- `serde_json::Error`. -/
structure SerdeError where
  message : String
  line : Nat
  column : Nat

/-- `JsonExtractor::extract`. -/
def extract (fromSlice : Bytes → Except SerdeError Value) (content : Bytes) : ExtractionResult :=
  match fromSlice (normalizeJsonc content) with
  | .error error => ⟨[], .failed ⟨"serde_json", error.message, optionalU32 error.line,
      optionalU32 error.column, none, false⟩⟩
  | .ok value =>
    let spans := walk content maxDepth 0 value "" (0, content.length)
    ⟨spans.zipIdx.map fun span => keySymbol (buildLineStarts content) span.1 span.2, .ok⟩

end Symforge.Parsing.Json
