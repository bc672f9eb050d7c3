import Symforge.Parsing.Toml

/-!
# Definitions in TOML documents

What the extractor of `Parsing.Toml` is for. A parser knows for every key the lines of the text that
define it, and for every table with a header the line of the header. These lines are the span of a
key or a table.
-/

namespace Symforge.Parsing.Toml

/-- Where a line starts. -/
def lineOffset (content : Bytes) (line : Nat) : Nat := ((rawLines content).take line).flatten.length

/-- Lines of a text, by their numbers. -/
structure Lines (content : Bytes) where
  first : Nat
  last : Nat
  ordered : first ≤ last
  inside : last < (rawLines content).length

/-- The bytes of the lines. -/
def Lines.range {content : Bytes} (lines : Lines content) : Nat × Nat :=
  (lineOffset content lines.first, lineOffset content (lines.last + 1))

/-- A key or table with its own lines, if it has any. -/
structure DefinedSpan where
  name : String
  depth : Nat
  range : Option (Nat × Nat)
  deriving DecidableEq, Repr

/-- What a symbol says of the lines of its key. -/
def definedSpan (span : KeySpan) : DefinedSpan := ⟨span.name, span.depth, some span.range⟩

/-! ### Spans -/

section Spans

variable {content : Bytes}

/-- A value and the entries of its inline tables, for so many levels. -/
def valueSpans : (levels depth : Nat) → String → Lines content → TomlValue (Lines content) →
    List DefinedSpan
  | 0, _, _, _, _ => []
  | levels + 1, depth, keyPath, own, value =>
    ⟨keyPath, depth, some own.range⟩ :: value.entries.flatMap fun entry =>
      valueSpans levels (depth + 1) (joinKeyPath keyPath entry.1) entry.2.1 entry.2.2

/-- An item with what is inside of its tables. -/
def itemSpans (levels depth : Nat) (inner : Table (Lines content) → String → List DefinedSpan)
    (keyPath : String) : Item (Lines content) → List DefinedSpan
  | .none => []
  | .value own value => valueSpans levels depth keyPath own value
  | .table own entries => ⟨keyPath, depth, own.map Lines.range⟩ :: inner entries keyPath
  | .arrayOfTables tables => tables.zipIdx.flatMap fun table =>
    ⟨joinArrayIndex keyPath table.2, depth, some table.1.1.range⟩ ::
      inner table.1.2 (joinArrayIndex keyPath table.2)

/-- The keys and tables of a table, for so many levels. -/
def tableSpans : (levels depth : Nat) → Table (Lines content) → String → List DefinedSpan
  | 0, _, _, _ => []
  | levels + 1, depth, entries, parentPath => entries.flatMap fun entry =>
    itemSpans (levels + 1) depth (tableSpans levels (depth + 1)) (joinKeyPath parentPath entry.1)
      entry.2

end Spans

/-! ### When the lines can be searched for the keys -/

section Searchable

variable {content : Bytes}

/-- The definition is one line that looks as wanted, with as many such lines before it from the
start on. -/
def StandsAt (accepts : Bytes → Bool) (start index : Nat) (own : Lines content) : Prop :=
  own.first = own.last ∧ start ≤ own.first ∧
    (∃ line ∈ (rawLines content)[own.first]?, accepts line = true) ∧
    (((rawLines content).take own.first).drop start).countP accepts = index

/-- The keys of a value and of its inline tables. -/
def valueKeys : (levels : Nat) → String → Lines content → TomlValue (Lines content) →
    List (String × Lines content)
  | 0, _, _, _ => []
  | levels + 1, key, own, value =>
    (key, own) :: value.entries.flatMap fun entry => valueKeys levels entry.1 entry.2.1 entry.2.2

/-- The keys of a table that have values, with those of the inline tables. -/
def tableKeys (levels : Nat) (entries : Table (Lines content)) : List (String × Lines content) :=
  entries.flatMap fun entry =>
    match entry.2 with
    | .value own value => valueKeys levels entry.1 own value
    | _ => []

/-- Every key is defined on one line that looks like the key, and no line from the one behind the
key before it looks like that. -/
def KeysFirst : Nat → List (String × Lines content) → Prop
  | _, [] => True
  | start, (key, own) :: rest =>
    StandsAt (isKeyLine key) start 0 own ∧ KeysFirst (own.first + 1) rest

/-- Every table of an item has a header, which is the first line that looks like it, or the one with
the number of the table in its array. -/
def HeadersStand (inner : Table (Lines content) → String → Prop) (keyPath : String) :
    Item (Lines content) → Prop
  | .none => True
  | .value _ _ => True
  | .table own entries =>
    (∃ header ∈ own, StandsAt (isHeaderLine (headerPattern keyPath)) 0 0 header) ∧
      inner entries keyPath
  | .arrayOfTables tables => ∀ table ∈ tables.zipIdx,
    StandsAt (isHeaderLine (arrayHeaderPattern keyPath)) 0 table.2 table.1.1 ∧
      inner table.1.2 (joinArrayIndex keyPath table.2)

/-- No line misleads the search for the keys and headers of a table, for so many levels. -/
def Searchable : (levels : Nat) → Table (Lines content) → String → Prop
  | 0, _, _ => True
  | levels + 1, entries, parentPath =>
    KeysFirst 0 (tableKeys (levels + 1) entries) ∧ ∀ entry ∈ entries,
      HeadersStand (Searchable levels) (joinKeyPath parentPath entry.1) entry.2

end Searchable

end Symforge.Parsing.Toml
