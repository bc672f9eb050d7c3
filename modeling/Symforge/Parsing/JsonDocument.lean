import Symforge.Parsing.Json

/-!
# JSON documents

What the extractor of `Parsing.Json` is for. A strict JSON document is given by its layout: the
texts of its tokens and the whitespace between them. A layout has a text, the value that a JSON
parser reads from that text, and the span of every member and item. How the characters of a key are
decoded is a parameter.
-/

namespace Symforge.Parsing.Json

/-! ### Layouts -/

/-- JSON whitespace. -/
abbrev Blank := { bytes : Bytes // bytes.all isWhitespace = true }

/-- The body of a string: no bare quote, and no backslash without a byte behind it. -/
def isStringBody : Bytes → Bool
  | [] => true
  | [byte] => byte != 0x22 && byte != 0x5C
  | byte :: next :: rest =>
    if byte = 0x5C then isStringBody rest else byte != 0x22 && isStringBody (next :: rest)

/-- What stands between the quotes of a string. -/
abbrev StringBody := { bytes : Bytes // isStringBody bytes = true }

/-- A byte of a number, `true`, `false` or `null`. -/
def isScalarByte (byte : UInt8) : Bool :=
  (0x30 ≤ byte && byte ≤ 0x39) || (0x61 ≤ byte && byte ≤ 0x7A) || byte == 0x45 || byte == 0x2B ||
    byte == 0x2D || byte == 0x2E

/-- A number, `true`, `false` or `null`. -/
abbrev ScalarText := { bytes : Bytes // bytes ≠ [] ∧ bytes.all isScalarByte = true }

/-- The two kinds of containers. -/
inductive Shape where
  | array | object
  deriving DecidableEq, Repr

/-- The bracket in front. -/
def Shape.opening : Shape → UInt8
  | .array => 0x5B
  | .object => 0x7B

/-- The bracket behind. -/
def Shape.closing : Shape → UInt8
  | .array => 0x5D
  | .object => 0x7D

/-- A string with its quotes. -/
def quoted (body : Bytes) : Bytes := 0x22 :: body ++ [0x22]

/-- What stands before the value of a member: its key, a colon and whitespace around it. -/
structure KeyText where
  body : StringBody
  middle : Blank
  gap : Blank

/-- What stands before the value of an entry. -/
def Label : Shape → Type
  | .array => Unit
  | .object => KeyText

/-- The key of an object's entry with its colon; none in an array. -/
def Label.text : {shape : Shape} → Label shape → Bytes
  | .array, _ => []
  | .object, key => quoted key.body.val ++ (key.middle.val ++ 0x3A :: key.gap.val)

/-- The key of a member; an item has none. -/
def Label.key (decode : Bytes → String) : {shape : Shape} → Label shape → String
  | .array, _ => ""
  | .object, key => decode key.body.val

/-- The parts of a document. -/
inductive Part where
  | value
  | entries (shape : Shape)

/-- Values and the entries of containers, with all whitespace. -/
inductive Layout : Part → Type where
  | scalar (text : ScalarText) : Layout .value
  | string (body : StringBody) : Layout .value
  | container (shape : Shape) (blank : Blank) (entries : Layout (.entries shape)) : Layout .value
  | done {shape : Shape} : Layout (.entries shape)
  | entry {shape : Shape} (before : Blank) (label : Label shape) (value : Layout .value)
    (after : Blank) (rest : Layout (.entries shape)) : Layout (.entries shape)

/-- What stands between an entry and those behind it. -/
def Layout.comma : {shape : Shape} → Layout (.entries shape) → Bytes
  | _, .done => []
  | _, .entry .. => [0x2C]

/-- The bytes of a part. -/
def Layout.text : {part : Part} → Layout part → Bytes
  | _, .scalar text => text.val
  | _, .string body => quoted body.val
  | _, .container shape blank entries =>
    shape.opening :: (blank.val ++ entries.text) ++ [shape.closing]
  | _, .done => []
  | _, .entry before label value after rest =>
    before.val ++ (label.text ++ (value.text ++ (after.val ++ (rest.comma ++ rest.text))))

/-- Some object has a member. -/
def Layout.hasMember : {part : Part} → Layout part → Bool
  | _, .scalar _ => false
  | _, .string _ => false
  | _, .container _ _ entries => entries.hasMember
  | _, .done => false
  | _, @Layout.entry shape _ _ value _ rest =>
    shape == .object || value.hasMember || rest.hasMember

/-! ### Values -/

/-- What a parser reads from a part; the items of an array have no keys. -/
abbrev Meaning : Part → Type
  | .value => Value
  | .entries _ => List (String × Value)

/-- `serde_json::Map`: the last member with a key counts, and the keys are sorted. -/
def buildMap (members : List (String × Value)) : List (String × Value) :=
  (members.pwFilter (·.1 ≠ ·.1)).insertionSort (·.1 ≤ ·.1)

/-- The value that the parser gets. -/
def Layout.denote (decode : Bytes → String) : {part : Part} → Layout part → Meaning part
  | _, .scalar _ => Value.scalar
  | _, .string _ => Value.scalar
  | _, .container .array _ entries => Value.array ((entries.denote decode).map (·.2))
  | _, .container .object _ entries => Value.object (buildMap (entries.denote decode))
  | _, .done => ([] : List (String × Value))
  | _, .entry _ label value _ rest =>
    ((label.key decode, value.denote decode) :: rest.denote decode : List (String × Value))

/-! ### Spans -/

/-- An entry and where it starts. -/
structure Placed (shape : Shape) where
  start : Nat
  label : Label shape
  value : Layout .value

namespace Placed

variable {shape : Shape} (entry : Placed shape)

/-- Where the value of an entry starts. -/
def valueStart : Nat := entry.start + entry.label.text.length

/-- Where it stops. -/
def stop : Nat := entry.valueStart + entry.value.text.length

/-- The decoded key. -/
def key (decode : Bytes → String) (entry : Placed shape) : String := entry.label.key decode

/-- From the opening quote of the key, or the start of the item, to the end of the value. -/
def range : Nat × Nat := (entry.start, entry.stop)

/-- The span of an entry under a name, and those inside its value. -/
def spans (name : String) (depth : Nat) (inner : Layout .value → String → Nat → List KeySpan)
    (entry : Placed shape) : List KeySpan :=
  ⟨name, depth, entry.range⟩ :: inner entry.value name entry.valueStart

end Placed

/-- What a part has entries of. -/
abbrev Places : Part → Type
  | .value => Unit
  | .entries shape => List (Placed shape)

/-- The entries with their positions. -/
def Layout.placeFrom : {part : Part} → Layout part → Nat → Places part
  | _, .scalar _, _ => ()
  | _, .string _, _ => ()
  | _, .container .., _ => ()
  | _, .done, _ => ([] : List (Placed _))
  | _, .entry before label value after rest, offset =>
    let placed : Placed _ := ⟨offset + before.val.length, label, value⟩
    let behind := placed.stop + after.val.length + rest.comma.length
    (placed :: rest.placeFrom behind : List (Placed _))

/-- The entries of a container, where their text starts at an offset. -/
def Layout.place {shape : Shape} (offset : Nat) (entries : Layout (.entries shape)) :
    List (Placed shape) :=
  entries.placeFrom offset

/-- The members that a parser keeps: the last one of every key. -/
def keptMembers (decode : Bytes → String) (members : List (Placed .object)) :
    List (Placed .object) :=
  members.pwFilter (·.key decode ≠ ·.key decode)

/-- The spans of the members and items of a value at an offset, for so many levels, in document
order. -/
def ownSpans (decode : Bytes → String) : Nat → Nat → Layout .value → String → Nat → List KeySpan
  | levels + 1, depth, .container .array blank entries, path, offset =>
    ((entries.place (offset + 1 + blank.val.length)).take maxArrayItems).zipIdx.flatMap fun item =>
      item.1.spans (joinArrayIndex path item.2) depth (ownSpans decode levels (depth + 1))
  | levels + 1, depth, .container .object blank entries, path, offset =>
    (keptMembers decode (entries.place (offset + 1 + blank.val.length))).flatMap fun member =>
      member.spans (joinKeyPath path (member.key decode)) depth
        (ownSpans decode levels (depth + 1))
  | _, _, _, _, _ => []

/-! ### When the text can be searched for the keys -/

/-- The needle stands at the position, and nowhere between the start and the position. -/
def FirstFrom (needle content : Bytes) (start position : Nat) : Prop :=
  needle <+: content.drop position ∧
    ∀ earlier, start ≤ earlier → earlier < position → ¬ needle <+: content.drop earlier

/-- From the start on, the left needle stands somewhere before the right one does. -/
def StandsBefore (content : Bytes) (start : Nat) (left right : Bytes) : Prop :=
  ∃ position, start ≤ position ∧ left <+: content.drop position ∧
    ∀ earlier, start ≤ earlier → earlier ≤ position → ¬ right <+: content.drop earlier

/-- Every member's key is written as the extractor writes it, and not between the member and the end
of the one before it. -/
def KeysFirst (decode : Bytes → String) (content : Bytes) : Nat → List (Placed .object) → Prop
  | _, [] => True
  | start, member :: rest =>
    FirstFrom (keyNeedle (member.key decode)) content start member.start ∧
      KeysFirst decode content member.stop rest

/-- No text misleads the search for the members and items of a value, for so many levels. The entry
that the value belongs to starts at `start`, and the value at `offset`. -/
def Searchable (decode : Bytes → String) (content : Bytes) :
    Nat → Layout .value → (labelled : Bool) → (start offset : Nat) → Prop
  | levels + 1, .container .array blank entries, labelled, _, offset =>
    (labelled = false → entries.hasMember = false) ∧
      ∀ item ∈ (entries.place (offset + 1 + blank.val.length)).take maxArrayItems,
        Searchable decode content levels item.value false item.start item.valueStart
  | levels + 1, .container .object blank entries, _, start, offset =>
    let members := keptMembers decode (entries.place (offset + 1 + blank.val.length))
    KeysFirst decode content start members ∧
      members.Pairwise (fun earlier later => StandsBefore content start
        (keyNeedle (earlier.key decode)) (keyNeedle (later.key decode))) ∧
      ∀ member ∈ members,
        Searchable decode content levels member.value true member.start member.valueStart
  | _, _, _, _, _ => True

/-! ### Documents -/

/-- A value with the whitespace around it. -/
structure Document where
  before : Blank
  root : Layout .value
  after : Blank

namespace Document

/-- The bytes of the document. -/
def text (document : Document) : Bytes :=
  document.before.val ++ (document.root.text ++ document.after.val)

/-- Its value. -/
def value (decode : Bytes → String) (document : Document) : Value := document.root.denote decode

/-- The spans as the document has them. -/
def spans (decode : Bytes → String) (document : Document) : List KeySpan :=
  ownSpans decode maxDepth 0 document.root "" document.before.val.length

/-- The keys of the document can be found by searching for them. -/
def Searchable (decode : Bytes → String) (document : Document) : Prop :=
  Json.Searchable decode document.text maxDepth document.root false 0 document.before.val.length

end Document

end Symforge.Parsing.Json
