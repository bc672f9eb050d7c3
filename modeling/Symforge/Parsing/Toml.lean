import Mathlib.Data.List.DropRight
import Symforge.Parsing.ConfigSymbols

/-!
# Symbols of TOML files

Model of `parsing/config_extractors/toml_ext.rs`. `toml_edit` is a parameter. Its tree says for
every key where it is defined, in a type that the extractor does not look into: the walker searches
the lines of the text for every key again.
-/

namespace Symforge.Parsing.Toml

/-! ### Lines -/

/-- The lines of a text with their line feeds. -/
def rawLines : Bytes → List Bytes
  | [] => []
  | byte :: rest =>
    if byte = 0x0A then [byte] :: rawLines rest
    else
      match rawLines rest with
      | [] => [[byte]]
      | line :: lines => (byte :: line) :: lines

/-- `b' ' | b'\t'`. -/
def isPadding (byte : UInt8) : Bool := byte == 0x20 || byte == 0x09

variable (line : Bytes)

/-- `toml_ext::trim_leading_whitespace`. -/
def trimLeadingWhitespace : Bytes := line.dropWhile isPadding

/-- `toml_ext::trim_trailing_whitespace`. -/
def trimTrailingWhitespace : Bytes := line.rdropWhile isPadding

/-- The loops of the span finders: the line with so many accepted lines before it. -/
def findLine (accepts : Bytes → Bool) : (index offset : Nat) → List Bytes → Option (Nat × Nat)
  | _, _, [] => none
  | index, offset, line :: rest =>
    if accepts line then
      match index with
      | 0 => some (offset, offset + line.length)
      | index + 1 => findLine accepts index (offset + line.length) rest
    else findLine accepts index (offset + line.length) rest

/-- What has to follow a key on its line. -/
def keyEnds (after : Bytes) : Bool :=
  match after with
  | [] => false
  | byte :: _ => isPadding byte || byte == 0x3D

/-- `toml_ext::line_starts_with_key`: a bare or a quoted key. -/
def lineStartsWithKey (line key : Bytes) : Bool :=
  (key.isPrefixOf line && keyEnds (line.drop key.length)) ||
    ((0x22 :: key ++ [0x22]).isPrefixOf line && keyEnds (line.drop (key.length + 2)))

/-- The lines that `find_key_value_bytes` accepts. -/
def isKeyLine (key : String) (line : Bytes) : Bool :=
  let trimmed := trimLeadingWhitespace line
  trimmed.head? != some 0x23 && trimmed.head? != some 0x5B && lineStartsWithKey trimmed (utf8 key)

/-- The lines that `find_header_pattern` and `find_array_table_header_bytes` accept. -/
def isHeaderLine (pattern : String) (line : Bytes) : Bool :=
  startsWith (trimLeadingWhitespace line) pattern

variable (content : Bytes)

/-- `toml_ext::find_key_value_bytes`. -/
def findKeyValueBytes (key : String) (searchFrom : Nat) : Nat × Nat :=
  (findLine (isKeyLine key) 0 searchFrom (rawLines (content.drop searchFrom))).getD (0, 0)

/-- How `unescape_key_path` reads the characters of a path. -/
def unescapeChars : List Char → List Char
  | '~' :: '0' :: rest => '~' :: unescapeChars rest
  | '~' :: '1' :: rest => '.' :: unescapeChars rest
  | '~' :: '2' :: rest => '[' :: unescapeChars rest
  | '~' :: '3' :: rest => ']' :: unescapeChars rest
  | char :: rest => char :: unescapeChars rest
  | [] => []

/-- `toml_ext::unescape_key_path`. -/
def unescapeKeyPath (path : String) : String := String.ofList (unescapeChars path.toList)

variable (keyPath : String)

/-- The start of the header of a table. -/
def headerPattern : String := "[" ++ unescapeKeyPath keyPath ++ "]"

/-- The start of the headers of an array of tables. -/
def arrayHeaderPattern : String := "[[" ++ unescapeKeyPath keyPath ++ "]]"

/-- `toml_ext::find_table_header_bytes`. -/
def findTableHeaderBytes : Nat × Nat :=
  (findLine (isHeaderLine (headerPattern keyPath)) 0 0 (rawLines content)).getD (0, 0)

/-- `toml_ext::find_array_table_header_bytes`. -/
def findArrayTableHeaderBytes (index : Nat) : Nat × Nat :=
  (findLine (isHeaderLine (arrayHeaderPattern keyPath)) index 0 (rawLines content)).getD (0, 0)

/-! ### The walk -/

/-- `toml_edit::Value`: only inline tables are looked into. -/
inductive TomlValue (Place : Type) where
  | plain
  | inlineTable (entries : List (String × Place × TomlValue Place))

/-- `Value::as_inline_table`, with no entries for other values. -/
def TomlValue.entries {Place : Type} : TomlValue Place → List (String × Place × TomlValue Place)
  | .plain => []
  | .inlineTable entries => entries

/-- `toml_edit::Item`. A table without a header of its own has no place. -/
inductive Item (Place : Type) where
  | none
  | value (place : Place) (value : TomlValue Place)
  | table (place : Option Place) (entries : List (String × Item Place))
  | arrayOfTables (tables : List (Place × List (String × Item Place)))

/-- `toml_edit::Table`, in the order of its iterator. -/
abbrev Table (Place : Type) := List (String × Item Place)

section Walk

variable {Place : Type} (content : Bytes)

/-- The loop of `walk_item` over an inline table. -/
def walkInline (keyPath : String)
    (walkChild : String → String → TomlValue Place → Nat → List KeySpan × Nat) :
    List (String × Place × TomlValue Place) → Nat → List KeySpan × Nat
  | [], searchFrom => ([], searchFrom)
  | (key, _, value) :: rest, searchFrom =>
    let child := walkChild key (joinKeyPath keyPath key) value searchFrom
    let others := walkInline keyPath walkChild rest child.2
    (child.1 ++ others.1, others.2)

/-- `TomlWalker::walk_item` for a value, for so many levels: its symbols, and where the search goes
on. -/
def walkValue : (levels depth : Nat) → (rawKey keyPath : String) → TomlValue Place → Nat →
    List KeySpan × Nat
  | 0, _, _, _, _, searchFrom => ([], searchFrom)
  | levels + 1, depth, rawKey, keyPath, value, searchFrom =>
    let range := findKeyValueBytes content rawKey searchFrom
    let inner := walkInline keyPath (walkValue levels (depth + 1)) value.entries
      (max range.2 searchFrom)
    (⟨keyPath, depth, range⟩ :: inner.1, inner.2)

/-- The loop of `walk_item` over an array of tables. -/
def walkTables (keyPath : String) (depth : Nat) (walkChild : Table Place → String → List KeySpan) :
    Nat → List (Place × Table Place) → List KeySpan
  | _, [] => []
  | index, (_, table) :: rest =>
    let indexedPath := joinArrayIndex keyPath index
    ⟨indexedPath, depth, findArrayTableHeaderBytes content keyPath index⟩ ::
      (walkChild table indexedPath ++ walkTables keyPath depth walkChild (index + 1) rest)

/-- The loop of `walk_table`. -/
def walkItems (levels depth : Nat) (parentPath : String)
    (walkChild : Table Place → String → List KeySpan) : Nat → Table Place → List KeySpan
  | _, [] => []
  | searchFrom, (key, item) :: rest =>
    let keyPath := joinKeyPath parentPath key
    match item with
    | .none => walkItems levels depth parentPath walkChild searchFrom rest
    | .value _ value =>
      let spans := walkValue content levels depth key keyPath value searchFrom
      spans.1 ++ walkItems levels depth parentPath walkChild spans.2 rest
    | .table _ entries =>
      ⟨keyPath, depth, findTableHeaderBytes content keyPath⟩ :: (walkChild entries keyPath ++
        walkItems levels depth parentPath walkChild searchFrom rest)
    | .arrayOfTables tables =>
      walkTables content keyPath depth walkChild 0 tables ++
        walkItems levels depth parentPath walkChild searchFrom rest

/-- `TomlWalker::walk_table`, for so many levels more. -/
def walkTable : (levels depth : Nat) → Table Place → String → List KeySpan
  | 0, _, _, _ => []
  | levels + 1, depth, entries, parentPath =>
    walkItems content (levels + 1) depth parentPath (walkTable levels (depth + 1)) 0 entries

end Walk

/-! ### The line scanner -/

/-- `str::from_utf8` of bytes that are valid. -/
def textOf (bytes : Bytes) : String := (String.fromUTF8? ⟨bytes.toArray⟩).getD ""

/-- `str::trim_matches` with one ASCII character. -/
def trimMatches (byte : UInt8) (text : Bytes) : Bytes :=
  (text.dropWhile (· == byte)).rdropWhile (· == byte)

/-- `toml_ext::extract_bracket_content`. -/
def extractBracketContent (double : Bool) : Option Bytes :=
  let opening := utf8 (if double then "[[" else "[")
  let closing := utf8 (if double then "]]" else "]")
  if opening.isPrefixOf line then
    match windowPosition closing (line.drop opening.length) with
    | none => none
    | some position =>
      let inner := (line.drop opening.length).take position
      if validUtf8 inner ∧ trim inner ≠ [] then some (trim inner) else none
  else none

/-- The loop of `extract_key_from_line`: where the first equals sign outside quotes is. -/
def equalsSign : StringMode → Bytes → Option Nat
  | _, [] => none
  | .outside, byte :: rest =>
    if byte = 0x22 then (equalsSign .inside rest).map (· + 1)
    else if byte = 0x3D then some 0
    else (equalsSign .outside rest).map (· + 1)
  | .inside, byte :: rest =>
    let mode := if byte = 0x5C then .escaped else if byte = 0x22 then .outside else .inside
    (equalsSign mode rest).map (· + 1)
  | .escaped, _ :: rest => (equalsSign .inside rest).map (· + 1)

/-- `toml_ext::extract_key_from_line`. -/
def extractKeyFromLine : Option Bytes :=
  match equalsSign .outside line with
  | none => none
  | some position =>
    let keyBytes := trimTrailingWhitespace (line.take position)
    let key := trimMatches 0x27 (trimMatches 0x22 (trim keyBytes))
    if validUtf8 keyBytes ∧ key ≠ [] then some key else none

/-- The loop of `line_scan`, in a section with a depth. -/
def lineScanFrom (currentSection : Bytes) (depthOffset : Nat) : Nat → List Bytes → List KeySpan
  | _, [] => []
  | lineStart, line :: rest =>
    let range := (lineStart, lineStart + line.length)
    let trimmed := trimLeadingWhitespace line
    if trimmed.isEmpty ∨ startsWith trimmed "#" then
      lineScanFrom currentSection depthOffset range.2 rest
    else if startsWith trimmed "[" then
      match extractBracketContent trimmed (startsWith trimmed "[[") with
      | some found =>
        let depth := found.count 0x2E
        ⟨textOf found, depth, range⟩ :: lineScanFrom found depth range.2 rest
      | none => lineScanFrom currentSection depthOffset range.2 rest
    else
      match extractKeyFromLine trimmed with
      | some key =>
        let keyPath := if currentSection.isEmpty then textOf key
          else joinKeyPath (textOf currentSection) (textOf key)
        let others := lineScanFrom currentSection depthOffset range.2 rest
        if depthOffset + 1 < maxDepth then ⟨keyPath, depthOffset + 1, range⟩ :: others else others
      | none => lineScanFrom currentSection depthOffset range.2 rest

/-- `toml_ext::line_scan`. -/
def lineScan : List KeySpan := lineScanFrom [] 0 0 (rawLines content)

/-! ### Extraction -/

/-- `toml_ext::make_symbol`. -/
def makeSymbol (lineStarts : List Nat) (span : KeySpan) (sortOrder : Nat) : ConfigSymbol where
  name := span.name
  kind := .key
  byteRange := span.range
  lineRange := (byteToLine lineStarts span.range.1, byteToLine lineStarts (span.range.2 - 1))
  docByteRange := none
  depth := span.depth
  sortOrder := sortOrder
  itemByteRange := some span.range

/-- `toml_edit::TomlError`. -/
structure TomlError where
  message : String
  span : Option (Nat × Nat)

/-- What the extractor calls: the message of a UTF-8 error, and the parser of `toml_edit`. -/
structure Environment (Place : Bytes → Type) where
  utf8Message : Bytes → String
  parse : (content : Bytes) → Except TomlError (Table (Place content))

/-- `TomlExtractor::extract`. -/
def extract {Place : Bytes → Type} (env : Environment Place) (content : Bytes) : ExtractionResult :=
  if validUtf8 content then
    if isBlank content then ⟨[], .ok⟩
    else
      let symbols := fun spans : List KeySpan =>
        spans.zipIdx.map fun span => makeSymbol (buildLineStarts content) span.1 span.2
      match env.parse content with
      | .ok document => ⟨symbols (walkTable content maxDepth 0 document ""), .ok⟩
      | .error error =>
        let spans := lineScan content
        let diagnostic := parseDiagnosticFromSpan "toml_edit" error.message content error.span
          (!spans.isEmpty)
        ⟨symbols spans, if spans.isEmpty then .failed diagnostic else .partialResult diagnostic⟩
  else ⟨[], .failed ⟨"utf-8", env.utf8Message content, none, none, none, false⟩⟩

end Symforge.Parsing.Toml
