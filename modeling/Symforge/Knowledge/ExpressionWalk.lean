import Symforge.Text

/-!
# The walk over a right-hand side

Model of `expression_carries_quoted_payload` of `knowledge/mod.rs` with the two look-aheads it
consults. The walk reads a window of the buffer, whose size is a parameter here and 512 bytes in the
source. A look-ahead is a function of the bytes behind its position in the window.
-/

namespace Symforge.Knowledge

/-- `CONTEXT_ASSIGNMENT_MIN_PAYLOAD`. -/
def contextAssignmentMinPayload : Nat := 8

/-- `CONTEXT_ASSIGNMENT_SCAN_BOUND`. -/
def contextAssignmentScanBound : Nat := 512

/-- `CHAR_LITERAL_MAX_CONTENT`. -/
def charLiteralMaxContent : Nat := 3

variable (byte : UInt8)

/-- A double quote, an apostrophe or a backtick. -/
def isQuote : Bool := byte == 0x22 || byte == 0x27 || byte == 0x60

/-- The closure `is_payload` of the walk: no quote, no `#`, no ASCII whitespace. -/
def isPayload : Bool := !(isQuote byte || byte == 0x23) && !isAsciiWhitespace byte

/-- An opening bracket of one of the three kinds. -/
def opensGroup : Bool := byte == 0x28 || byte == 0x5B || byte == 0x7B

/-- A closing bracket of one of the three kinds. -/
def closesGroup : Bool := byte == 0x29 || byte == 0x5D || byte == 0x7D

/-- The test behind an opening `quote`: at least eight payload bytes that the same quote ends. -/
def fencesPayload (quote : UInt8) (after : Bytes) : Bool :=
  decide (contextAssignmentMinPayload ≤ (after.takeWhile isPayload).length) &&
    (after.dropWhile isPayload).head? == some quote

/-- The bytes of `CONTINUATION`. -/
def continuationBytes : Bytes :=
  [0x2B, 0x2D, 0x2A, 0x7C, 0x26, 0x5E, 0x25, 0x3D, 0x2E, 0x3F, 0x3A, 0x5C, 0x2C]

/-- The last byte in front of a line break that is not whitespace. -/
def trailingByte (before : Bytes) : Option UInt8 :=
  before.reverse.find? fun byte => !isAsciiWhitespace byte

/-- `[u8]::trim_ascii_start`. -/
def trimAsciiStart (text : Bytes) : Bytes := text.dropWhile isAsciiWhitespace

/-- The next line opens a comment or an attribute. -/
def opensComment (nextLine : Bytes) : Bool :=
  [0x2F, 0x2F].isPrefixOf nextLine || [0x23, 0x5B].isPrefixOf nextLine

/-- `line_break_continues_expression`, with what stands around the line break. -/
def lineBreakContinuesExpression (before after : Bytes) : Bool :=
  let trailing := trailingByte before
  let nextLine := trimAsciiStart after
  if trailing = some 0x2C ∧ opensComment nextLine then false
  else trailing.any continuationBytes.contains || nextLine.head?.any continuationBytes.contains

/-- The loop of `bounded_char_literal_len`, `offset` bytes behind the opening apostrophe. -/
def charLiteralFrom : (offset : Nat) → (carriesBracket : Bool) → Bytes → Option Nat
  | _, _, [] => none
  | offset, carriesBracket, byte :: rest =>
    if charLiteralMaxContent < offset then none
    else if byte = 0x5C then
      match rest with
      | [] => none
      | _ :: rest => charLiteralFrom (offset + 2) carriesBracket rest
    else if byte = 0x0A then none
    else if byte = 0x27 ∧ 0 < offset then
      if carriesBracket then some (offset + 2) else none
    else charLiteralFrom (offset + 1) (carriesBracket || opensGroup byte || closesGroup byte) rest

/-- `bounded_char_literal_len`, with the bytes behind the opening apostrophe. -/
def boundedCharLiteralLen (after : Bytes) : Option Nat := charLiteralFrom 0 false after

/-- The loop that skips a literal: how many bytes stand in front of its closing `quote`. -/
def closingQuote (quote : UInt8) : Bytes → Option Nat
  | [] => none
  | byte :: rest =>
    if byte = 0x5C then
      match rest with
      | [] => none
      | _ :: rest => (closingQuote quote rest).map (· + 2)
    else if byte = quote then some 0
    else (closingQuote quote rest).map (· + 1)

/-- What one round of the walk does: it returns, or it goes on `length` bytes further. -/
inductive WalkStep where
  | answer (carries : Bool)
  | move (length depth : Nat)
  deriving DecidableEq, Repr

/-- One round of the walk at `index`, which holds `byte`, inside `depth` open brackets. -/
def walkStep (window : Bytes) (afterClosedLiteral : Bool) (index depth : Nat) (byte : UInt8) :
    WalkStep :=
  let after := window.drop (index + 1)
  if isQuote byte then
    if fencesPayload byte after then .answer true
    -- An apostrophe is a lifetime sigil or a contraction as often as it opens a literal.
    else if byte = 0x27 then .move ((boundedCharLiteralLen after).getD 1) depth
    else
      match closingQuote byte after with
      | none => .answer true
      | some skipped => .move (skipped + 2) depth
  else if opensGroup byte then .move 1 (depth + 1)
  else if closesGroup byte then
    if depth = 0 then if afterClosedLiteral then .move 1 0 else .answer false
    else .move 1 (depth - 1)
  else if byte = 0x0A ∧ depth = 0 then
    if lineBreakContinuesExpression (window.take index) after then .move 1 depth
    else .answer false
  else .move 1 depth

/-- The rounds of the walk; each goes forward, so the window's length is enough `fuel`. -/
def walkFrom (window : Bytes) (afterClosedLiteral truncated : Bool) :
    (fuel index depth : Nat) → Bool
  | 0, _, depth => truncated || depth != 0
  | fuel + 1, index, depth =>
    match window[index]? with
    | none => truncated || depth != 0
    | some byte =>
      match walkStep window afterClosedLiteral index depth byte with
      | .answer carries => carries
      | .move length depth =>
        walkFrom window afterClosedLiteral truncated fuel (index + length) depth

/-- The loop over `window`; `truncated` answers for a window that ends before the expression does.
-/
def walk (window : Bytes) (afterClosedLiteral truncated : Bool) : Bool :=
  walkFrom window afterClosedLiteral truncated window.length 0 0

/-- `expression_carries_quoted_payload` with a window of at most `bound` bytes. -/
def carriesQuotedPayloadWithin (bound : Nat) (bytes : Bytes) (start : Nat)
    (afterClosedLiteral : Bool) : Bool :=
  let stop := min (start + bound) bytes.length
  walk ((bytes.take stop).drop start) afterClosedLiteral (decide (stop < bytes.length))

/-- `expression_carries_quoted_payload`. -/
def expressionCarriesQuotedPayload (bytes : Bytes) (start : Nat) (afterClosedLiteral : Bool) :
    Bool :=
  carriesQuotedPayloadWithin contextAssignmentScanBound bytes start afterClosedLiteral

end Symforge.Knowledge
