import Symforge.Parsing.JsonDocument

/-!
# Scanning strict JSON

Every scanner of `Parsing.Json` passes the text of a layout as a whole. Each of them is a property
of texts that is closed under concatenation, and `Piecewise` says which texts such a property has to
be checked for.
-/

namespace Symforge.Parsing.Json

open List Layout Bool Shape

/-! ### The bytes of a layout -/

/-- A byte outside strings that is no punctuation. -/
def isPlain (byte : UInt8) : Bool := isWhitespace byte || isScalarByte byte

/-- A byte that a value or a key starts with. -/
def opens (byte : UInt8) : Bool :=
  byte == 0x22 || byte == 0x5B || byte == 0x7B || isScalarByte byte

variable {byte : UInt8}

/-- A byte of a class is none outside of it. -/
theorem ne_of_class {isClass : UInt8 → Bool} (inClass : isClass byte = true)
    (other : UInt8) (excluded : isClass other = false) : byte ≠ other := by
  rintro rfl
  rw [inClass] at excluded
  cases excluded

/-- A bracket is no whitespace. -/
theorem isWhitespace_of_opens (opening : opens byte = true) : isWhitespace byte = false := by
  unfold isWhitespace
  simp only [or_eq_false_iff, beq_eq_false_iff_ne]
  exact ⟨⟨⟨ne_of_class opening _ rfl, ne_of_class opening _ rfl⟩, ne_of_class opening _ rfl⟩,
    ne_of_class opening _ rfl⟩

/-- A scalar's byte is no delimiter. -/
theorem isDelimiter_of_isScalarByte (scalar : isScalarByte byte = true) :
    isDelimiter byte = false := by
  have opening : opens byte = true := by simp [opens, scalar]
  unfold isDelimiter
  rw [isWhitespace_of_opens opening]
  simp only [or_eq_false_iff, beq_eq_false_iff_ne]
  exact ⟨⟨⟨ne_of_class opening _ rfl, ne_of_class opening _ rfl⟩,
    ne_of_class opening _ rfl⟩, trivial⟩

/-- A value starts with a byte of its own. -/
theorem Layout.text_head (value : Layout .value) :
    ∃ byte rest, value.text = byte :: rest ∧ opens byte = true := by
  cases value with
  | scalar text =>
    obtain ⟨bytes, nonempty, scalar⟩ := text
    cases bytes with
    | nil => exact absurd rfl nonempty
    | cons byte rest =>
      rw [all_cons, and_eq_true] at scalar
      exact ⟨_, _, rfl, by simp [opens, scalar.1]⟩
  | string body => exact ⟨0x22, body.val ++ [0x22], rfl, rfl⟩
  | container shape blank entries =>
    refine ⟨shape.opening, (blank.val ++ entries.text) ++ [shape.closing], rfl, ?_⟩
    cases shape <;> rfl

variable {shape : Shape}

/-- So does a value with its label. -/
theorem Label.text_head (label : Label shape) (value : Layout .value) (behind : Bytes) :
    ∃ byte rest, label.text ++ (value.text ++ behind) = byte :: rest ∧ opens byte = true := by
  cases shape with
  | array =>
    obtain ⟨byte, rest, starts, opening⟩ := value.text_head
    refine ⟨_, rest ++ behind, ?_, opening⟩
    show value.text ++ behind = byte :: (rest ++ behind)
    rw [starts, cons_append]
  | object => exact ⟨0x22, _, rfl, rfl⟩

/-- Blanks mean nothing to the scans. -/
theorem isPlain_of_blank (blank : Blank) : blank.val.all isPlain = true := by
  have blanks := blank.property
  rw [all_eq_true] at blanks ⊢
  intro byte inside
  simp [isPlain, blanks _ inside]

/-- Induction over the entries of a container. -/
@[elab_as_elim]
theorem Layout.entries_induction {motive : Layout (.entries shape) → Prop} (done : motive .done)
    (entry : ∀ before label value after rest, motive rest →
      motive (.entry before label value after rest)) :
    ∀ entries, motive entries
  | .done => done
  | .entry _ _ _ _ rest => entry _ _ _ _ _ (entries_induction done entry _)

/-- The first entry is placed, the others follow. -/
theorem Layout.place_entry (before : Blank) (label : Label shape)
    (value : Layout .value) (after : Blank) (rest : Layout (.entries shape)) (offset : Nat) :
    (Layout.entry before label value after rest).place offset =
      ⟨offset + before.val.length, label, value⟩ ::
        rest.place (Placed.stop ⟨offset + before.val.length, label, value⟩ + after.val.length +
          rest.comma.length) := rfl

/-- A property that is closed under concatenation and holds of the pieces of a layout. A comma goes
with what follows; the colon is left open. -/
structure Piecewise (P : Bytes → Prop) : Prop where
  nil : P []
  append : ∀ left right, P left → P right → P (left ++ right)
  plain : ∀ byte, isPlain byte = true → P [byte]
  string : ∀ body : StringBody, P (quoted body.val)
  comma : ∀ (blank : Blank) byte rest, opens byte = true → P (blank.val ++ byte :: rest) →
    P (0x2C :: (blank.val ++ byte :: rest))
  wrap : ∀ (shape : Shape) inner, P inner → P (shape.opening :: inner ++ [shape.closing])

namespace Piecewise

variable {P : Bytes → Prop} (pieces : Piecewise P)

include pieces

/-- What holds piece by piece holds for plain bytes. -/
theorem all_isPlain (bytes : Bytes) (all : bytes.all isPlain = true) : P bytes := by
  induction bytes with
  | nil => exact pieces.nil
  | cons byte rest ih =>
    rw [all_cons, and_eq_true] at all
    exact pieces.append [byte] _ (pieces.plain _ all.1) (ih all.2)

/-- It holds for blanks. -/
theorem blank (blank : Blank) : P blank.val := pieces.all_isPlain blank.val (isPlain_of_blank _)

/-- A piecewise property holds of every layout, if it holds of the colon where there is one. -/
theorem layout {part : Part} (layout : Layout part) (colon : layout.hasMember = true → P [0x3A]) :
    P layout.text := by
  induction layout with
  | scalar text =>
    refine pieces.all_isPlain text.val ?_
    have scalars := text.property.2
    rw [all_eq_true] at scalars ⊢
    intro byte inside
    simp [isPlain, scalars _ inside]
  | string body => exact pieces.string _
  | container shape blank entries ih =>
    exact pieces.wrap _ _ (pieces.append _ _ (pieces.blank _) (ih colon))
  | done => exact pieces.nil
  | @entry shape before label value after rest ihValue ihRest =>
    have ofValue := ihValue (fun member => colon (by simp [hasMember, member]))
    have ofRest := ihRest (fun member => colon (by simp [hasMember, member]))
    have ofLabel : P label.text := by
      cases shape with
      | array => exact pieces.nil
      | object =>
        have ofColon : P [0x3A] := colon rfl
        exact pieces.append _ _ (pieces.string label.body)
          (pieces.append _ _ (pieces.blank label.middle)
            (pieces.append [0x3A] _ ofColon (pieces.blank label.gap)))
    have ofTail : P (rest.comma ++ rest.text) := by
      cases rest with
      | done => exact pieces.nil
      | entry before label value after rest =>
        obtain ⟨byte, more, starts, opening⟩ :=
          label.text_head value (after.val ++ (rest.comma ++ rest.text))
        simp only [text, starts] at ofRest ⊢
        exact pieces.comma _ _ _ opening ofRest
    exact pieces.append _ _ (pieces.blank _) (pieces.append _ _ ofLabel
      (pieces.append _ _ ofValue (pieces.append _ _ (pieces.blank _) ofTail)))

end Piecewise

/-! ### Strings -/

/-- A scanner that reads an escape as a whole comes to the quote behind a string. -/
theorem scan_body {Result : Type} (scan : Bytes → Result) (step : UInt8 → Result → Result)
    (escape : ∀ next rest, scan (0x5C :: next :: rest) = step 0x5C (step next (scan rest)))
    (other : ∀ byte next rest, byte ≠ 0x5C → byte ≠ 0x22 →
      scan (byte :: next :: rest) = step byte (scan (next :: rest)))
    {body : Bytes} (closed : isStringBody body = true) (behind : Bytes) :
    scan (body ++ 0x22 :: behind) = body.foldr step (scan (0x22 :: behind)) := by
  fun_induction isStringBody body with
  | case1 => rfl
  | case2 byte =>
    simp only [and_eq_true, bne_iff_ne] at closed
    exact other _ 0x22 _ closed.2 closed.1
  | case3 next rest ih =>
    simp only [cons_append, foldr_cons]
    rw [escape, ih closed]
  | case4 byte next rest notEscape ih =>
    simp only [and_eq_true, bne_iff_ne] at closed
    have inner := ih closed.2
    rw [cons_append] at inner
    rw [cons_append, cons_append, other _ _ _ notEscape closed.1, inner]
    rfl

/-- Passing over a body adds its length. -/
theorem foldr_count (body : Bytes) (count : Nat) :
    body.foldr (fun _ passed => passed + 1) count = body.length + count := by
  induction body with
  | nil => exact (Nat.zero_add _).symm
  | cons byte rest ih =>
    rw [foldr_cons, ih, length_cons]
    omega

/-- A position behind a body is further on by its length. -/
theorem foldr_shift (body : Bytes) (found : Option Nat) :
    body.foldr (fun _ => Option.map (· + 1)) found = found.map (· + body.length) := by
  induction body with
  | nil => exact Option.map_id'.symm
  | cons byte rest ih =>
    rw [foldr_cons, ih, Option.map_map, length_cons]
    rfl

section Bodies

variable {body : Bytes} (closed : isStringBody body = true) (behind : Bytes)

include closed behind

/-- A string ends at its quote. -/
theorem stringRest_body : stringRest (body ++ 0x22 :: behind) = body.length + 1 := by
  have atQuote : stringRest (0x22 :: behind) = 1 := by cases behind <;> rfl
  rw [scan_body stringRest (fun _ passed => passed + 1) (fun _ _ => rfl)
    (fun _ _ _ notEscape notQuote => by rw [stringRest, if_neg notEscape, if_neg notQuote])
    closed, atQuote]
  exact foldr_count _ 1

/-- Comments are not looked for in a string. -/
theorem stripFrom_body :
    stripFrom .string (body ++ 0x22 :: behind) = body ++ 0x22 :: stripFrom .plain behind := by
  rw [scan_body (stripFrom .string) cons (fun _ _ => rfl)
    (fun _ _ _ notEscape notQuote => by rw [stripFrom, if_neg notQuote, if_neg notEscape]) closed]
  exact foldr_cons_eq_append'

/-- Neither are commas. -/
theorem blankCommasFrom_body :
    blankCommasFrom .inside (body ++ 0x22 :: behind) =
      body ++ 0x22 :: blankCommasFrom .outside behind := by
  rw [scan_body (blankCommasFrom .inside) cons (fun _ _ => rfl)
    (fun _ _ _ notEscape notQuote => by
      rw [blankCommasFrom, if_neg notQuote, if_neg notEscape]) closed]
  exact foldr_cons_eq_append'

/-- Neither are colons. -/
theorem firstColon_body :
    firstColon .inside (body ++ 0x22 :: behind) =
      ((firstColon .outside behind).map (· + 1)).map (· + body.length) := by
  rw [scan_body (firstColon .inside) (fun _ => Option.map (· + 1)) (fun _ _ => rfl)
    (fun _ _ _ notEscape notQuote => by rw [firstColon, if_neg notEscape, if_neg notQuote]) closed]
  exact foldr_shift _ _

end Bodies

/-! ### Normalization -/

/-- Strict JSON has no comments. -/
theorem piecewise_stripFrom : Piecewise fun text =>
    ∀ behind, stripFrom .plain (text ++ behind) = text ++ stripFrom .plain behind where
  nil _ := rfl
  append left right ofLeft ofRight behind := by
    rw [append_assoc, ofLeft, ofRight, append_assoc]
  plain byte plain behind := by
    have notQuote := ne_of_class plain 0x22 rfl
    have notSlash := ne_of_class plain 0x2F rfl
    simp [stripFrom, notQuote, notSlash]
  string body behind := by
    have inner := stripFrom_body body.property behind
    simp [quoted, stripFrom, inner]
  comma blank byte rest _ ofRest behind := by
    rw [cons_append, stripFrom, ofRest]
    rfl
  wrap shape inner ofInner behind := by
    cases shape <;> simp [opening, closing, stripFrom, ofInner]

/-- Blanks are skipped. -/
theorem dropWhile_blank (blank : Blank) (solid : isWhitespace byte = false) (rest : Bytes) :
    (blank.val ++ byte :: rest).dropWhile isWhitespace = byte :: rest := by
  rw [dropWhile_append_of_pos (all_eq_true.mp blank.property),
    dropWhile_cons_of_neg (by simp [solid])]

/-- Strict JSON has no trailing commas. -/
theorem piecewise_blankCommasFrom : Piecewise fun text =>
    ∀ behind,
      blankCommasFrom .outside (text ++ behind) = text ++ blankCommasFrom .outside behind where
  nil _ := rfl
  append left right ofLeft ofRight behind := by
    rw [append_assoc, ofLeft, ofRight, append_assoc]
  plain byte plain behind := by
    have notQuote := ne_of_class plain 0x22 rfl
    have notComma := ne_of_class plain 0x2C rfl
    simp [blankCommasFrom, notQuote, notComma]
  string body behind := by
    have inner := blankCommasFrom_body body.property behind
    simp [quoted, blankCommasFrom, inner]
  comma blank byte rest opening ofRest behind := by
    have stays : closesNext (blank.val ++ byte :: rest ++ behind) = false := by
      have solid := isWhitespace_of_opens opening
      have notBrace := ne_of_class opening 0x7D rfl
      have notBracket := ne_of_class opening 0x5D rfl
      rw [append_assoc, cons_append, closesNext, dropWhile_blank blank solid]
      simp [notBrace, notBracket]
    rw [cons_append, blankCommasFrom, if_neg (by decide), stays, ofRest]
    rfl
  wrap shape inner ofInner behind := by
    cases shape <;> simp [opening, closing, blankCommasFrom, ofInner]

/-- A scan that passes the pieces of a document gives the document. -/
theorem Document.text_passed {scan : Bytes → Bytes} (ends : scan [] = [])
    (pieces : Piecewise fun text => ∀ behind, scan (text ++ behind) = text ++ scan behind)
    (colon : ∀ behind, scan ([0x3A] ++ behind) = [0x3A] ++ scan behind) (document : Document) :
    scan document.text = document.text := by
  have passesAfter := pieces.blank document.after []
  rw [append_nil, ends, append_nil] at passesAfter
  unfold Document.text
  rw [pieces.blank, pieces.layout document.root (fun _ => colon), passesAfter]

/-- A document does not start with a byte order mark. -/
theorem blankLeadingBom_text (document : Document) :
    blankLeadingBom document.text = document.text := by
  have first : ∀ byte rest, document.text = byte :: rest → byte ≠ 0xEF := by
    intro byte rest starts
    obtain ⟨before, root, after⟩ := document
    obtain ⟨bytes, blanks⟩ := before
    cases bytes with
    | nil =>
      obtain ⟨opener, more, rootStarts, opening⟩ := root.text_head
      simp only [Document.text, rootStarts, nil_append, cons_append, cons.injEq] at starts
      rw [← starts.1]
      exact ne_of_class opening 0xEF rfl
    | cons space more =>
      rw [all_cons, and_eq_true] at blanks
      simp only [Document.text, cons_append, cons.injEq] at starts
      rw [← starts.1]
      exact ne_of_class blanks.1 0xEF rfl
  unfold blankLeadingBom
  split
  · rename_i rest starts
    exact absurd rfl (first _ _ starts)
  · rfl

/-- Strict JSON is normalized already. -/
theorem normalizeJsonc_text (document : Document) :
    normalizeJsonc document.text = document.text := by
  have noComments := document.text_passed rfl piecewise_stripFrom (fun _ => rfl)
  have noTrailing := document.text_passed rfl piecewise_blankCommasFrom (fun _ => rfl)
  unfold normalizeJsonc stripJsonComments blankTrailingCommas
  rw [blankLeadingBom_text, noComments, noTrailing]

/-! ### What normalization blanks -/

/-- What a byte of JSON with comments is part of. -/
inductive Region where
  | plain | string | comment | mark
  deriving DecidableEq, Repr

namespace CommentMode

/-- The region of a byte, and the mode behind it. A line comment ends in front of a line feed, a
block comment behind its first `*/`; an open one reaches to the end. -/
def read : CommentMode → UInt8 → Bytes → Region × CommentMode
  | .plain, byte, rest =>
    if byte = 0x22 then (.string, .string)
    else if byte = 0x2F ∧ rest.head? = some 0x2F then (.comment, .lineComment)
    else if byte = 0x2F ∧ rest.head? = some 0x2A then (.comment, .blockOpen)
    else (.plain, .plain)
  | .string, byte, _ =>
    (.string, if byte = 0x22 then .plain else if byte = 0x5C then .escaped else .string)
  | .escaped, _, _ => (.string, .string)
  | .lineComment, byte, _ => if byte = 0x0A then (.plain, .plain) else (.comment, .lineComment)
  | .blockOpen, _, _ => (.comment, .blockComment)
  | .blockComment, byte, rest =>
    (.comment, if byte = 0x2A ∧ rest.head? = some 0x2F then .blockClose else .blockComment)
  | .blockClose, _, _ => (.comment, .plain)

/-- The bytes of a text with their regions. -/
def regions : CommentMode → Bytes → List (Region × UInt8)
  | _, [] => []
  | mode, byte :: rest => ((mode.read byte rest).1, byte) :: regions (mode.read byte rest).2 rest

/-- Where the second pass is while the first one is in a mode. -/
def strings : CommentMode → StringMode
  | .string => .inside
  | .escaped => .escaped
  | _ => .outside

/-- A mode inside a delimiter is at the second byte of the delimiter. -/
def Within (mode : CommentMode) (text : Bytes) : Prop :=
  mode = .blockOpen ∨ mode = .blockClose → text.head? ≠ some 0x0A

end CommentMode

/-- The bytes of an input with their regions: a leading byte order mark, and the text. -/
def regionsOf : Bytes → List (Region × UInt8)
  | 0xEF :: 0xBB :: 0xBF :: rest =>
    (.mark, 0xEF) :: (.mark, 0xBB) :: (.mark, 0xBF) :: CommentMode.plain.regions rest
  | input => CommentMode.plain.regions input

/-- The bytes of comments and of the mark become spaces, except for line feeds. -/
def blankRegion (part : Region × UInt8) : UInt8 :=
  if (part.1 = .comment ∨ part.1 = .mark) ∧ part.2 ≠ 0x0A then 0x20 else part.2

/-- A comma with a closing bracket behind the blanks and comments that follow it. -/
def isTrailing (part : Region × UInt8) (behind : List (Region × UInt8)) : Bool :=
  part = (.plain, 0x2C) && closesNext (behind.map blankRegion)

/-- A text without its comments and trailing commas. -/
def blankAll : List (Region × UInt8) → Bytes
  | [] => []
  | part :: behind =>
    (if isTrailing part behind then 0x20 else blankRegion part) :: blankAll behind

namespace CommentMode

section Step

variable (mode : CommentMode) (byte : UInt8) (rest : Bytes)

/-- Reading a byte leaves a mode that fits the rest. -/
theorem read_within : (mode.read byte rest).2.Within rest := by
  cases mode <;> grind [read, Within]

/-- Stripping blanks a byte by its region. -/
theorem stripFrom_cons (within : mode.Within (byte :: rest)) :
    stripFrom mode (byte :: rest) =
      blankRegion ((mode.read byte rest).1, byte) :: stripFrom (mode.read byte rest).2 rest := by
  cases mode <;> grind [stripFrom, read, blankRegion, Within]

/-- The second pass over a byte of the first. -/
theorem blankCommasFrom_cons (stripped : Bytes) :
    blankCommasFrom mode.strings (blankRegion ((mode.read byte rest).1, byte) :: stripped) =
      (if ((mode.read byte rest).1, byte) = (.plain, 0x2C) && closesNext stripped then 0x20
        else blankRegion ((mode.read byte rest).1, byte)) ::
      blankCommasFrom (mode.read byte rest).2.strings stripped := by
  cases mode <;> grind [strings, read, blankRegion, blankCommasFrom]

end Step

variable {mode : CommentMode} {text : Bytes}

/-- The regions keep the text. -/
theorem map_snd_regions : (mode.regions text).map Prod.snd = text := by
  induction text generalizing mode with
  | nil => rfl
  | cons byte rest ih => rw [regions, map_cons, ih]

/-- Stripping blanks the comment regions. -/
theorem Within.stripFrom_eq_map (within : mode.Within text) :
    stripFrom mode text = (mode.regions text).map blankRegion := by
  induction text generalizing mode with
  | nil => rw [stripFrom, regions, map_nil]
  | cons byte rest ih =>
    rw [mode.stripFrom_cons _ _ within, ih (mode.read_within byte rest), regions, map_cons]

/-- Both passes over a text. -/
theorem Within.blankCommasFrom_stripFrom (within : mode.Within text) :
    blankCommasFrom mode.strings (stripFrom mode text) = blankAll (mode.regions text) := by
  induction text generalizing mode with
  | nil => rw [stripFrom, regions, blankCommasFrom, blankAll]
  | cons byte rest ih =>
    have next := mode.read_within byte rest
    rw [mode.stripFrom_cons _ _ within, blankCommasFrom_cons, ih next, next.stripFrom_eq_map,
      regions, blankAll, isTrailing]

end CommentMode

/-- The regions of an input keep the input. -/
theorem map_snd_regionsOf (input : Bytes) : (regionsOf input).map Prod.snd = input := by
  unfold regionsOf
  split <;> simp [CommentMode.map_snd_regions]

/-- Normalizing blanks comments and trailing commas. -/
theorem normalizeJsonc_eq_blankAll (input : Bytes) :
    normalizeJsonc input = blankAll (regionsOf input) := by
  have passes (text : Bytes) : blankTrailingCommas (stripJsonComments text) =
      blankAll (CommentMode.plain.regions text) := by
    have outside : CommentMode.plain.Within text := by simp [CommentMode.Within]
    exact outside.blankCommasFrom_stripFrom
  fun_cases regionsOf input with
  | case1 rest => exact congrArg (0x20 :: 0x20 :: 0x20 :: ·) (passes rest)
  | case2 _ unmarked =>
    rw [normalizeJsonc, blankLeadingBom, passes]
    exact unmarked

/-- Line feeds stay where they are. -/
theorem blankAll_lines (parts : List (Region × UInt8)) :
    (blankAll parts).map (· == 0x0A) = (parts.map Prod.snd).map (· == 0x0A) := by
  induction parts with
  | nil => rfl
  | cons part behind ih =>
    have same : ((if isTrailing part behind then 0x20 else blankRegion part) == 0x0A) =
        (part.2 == 0x0A) := by grind [isTrailing, blankRegion]
    rw [blankAll, map_cons, ih, same, map_cons, map_cons]

/-- What stands at a position afterwards. -/
theorem blankAll_at {parts : List (Region × UInt8)} {part : Region × UInt8} {i : Nat}
    (found : parts[i]? = some part) :
    (blankAll parts)[i]? =
      some (if isTrailing part (parts.drop (i + 1)) then 0x20 else blankRegion part) := by
  induction parts generalizing i with
  | nil => cases found
  | cons first behind ih =>
    cases i with
    | zero =>
      cases found
      rfl
    | succ i => exact ih found

/-- Normalization keeps the length, the line feeds, the bytes of strings and all strict JSON.
Comments, a leading byte order mark and trailing commas are spaces afterwards, and every other byte
is what it was. -/
theorem normalizeJsonc_only_blanks (input : Bytes) :
    (normalizeJsonc input).length = input.length ∧
      (normalizeJsonc input).map (· == 0x0A) = input.map (· == 0x0A) ∧
      (regionsOf input).map Prod.snd = input ∧
      (∀ (i : Nat) part, (regionsOf input)[i]? = some part →
        (normalizeJsonc input)[i]? = some
          (if isTrailing part ((regionsOf input).drop (i + 1)) then 0x20 else blankRegion part)) ∧
      (∀ (i : Nat) byte, (regionsOf input)[i]? = some (Region.string, byte) →
        (normalizeJsonc input)[i]? = some byte) ∧
      ∀ document : Document, input = document.text → normalizeJsonc input = input := by
  have bytes := map_snd_regionsOf input
  have lines := blankAll_lines (regionsOf input)
  rw [bytes, ← normalizeJsonc_eq_blankAll] at lines
  refine ⟨by simpa using congrArg length lines, lines, bytes, ?_, ?_, ?_⟩
  · intro i part found
    rw [normalizeJsonc_eq_blankAll]
    exact blankAll_at found
  · intro i byte found
    rw [normalizeJsonc_eq_blankAll]
    exact blankAll_at found
  · rintro document rfl
    exact normalizeJsonc_text document

/-! ### Ends of values -/

variable {content : Bytes} {start : Nat}

/-- What follows the front. -/
theorem drop_behind {front rest : Bytes} (standsAt : content.drop start = front ++ rest) :
    content.drop (start + front.length) = rest := by
  rw [← drop_drop, standsAt, drop_left]

/-- Passed bytes only count. -/
theorem containerRest_skip (opening closing : UInt8) (depth : Nat) (passed behind : Bytes) :
    containerRest opening closing depth passed.length (passed ++ behind) =
      passed.length + containerRest opening closing depth 0 behind := by
  induction passed with
  | nil => simp
  | cons byte rest ih =>
    rw [cons_append, length_cons, containerRest, ih]
    omega

/-- A bracket opens one more level. -/
theorem containerRest_opening (depth : Nat) (text : Bytes) :
    containerRest shape.opening shape.closing depth 0 (shape.opening :: text) =
      containerRest shape.opening shape.closing (depth + 1) 0 text + 1 := by
  cases shape <;> rfl

/-- A container is not left inside its entries. -/
theorem piecewise_containerRest (shape : Shape) : Piecewise fun text => ∀ depth behind,
    containerRest shape.opening shape.closing (depth + 1) 0 (text ++ behind) =
      text.length + containerRest shape.opening shape.closing (depth + 1) 0 behind where
  nil depth behind := by simp
  append left right ofLeft ofRight depth behind := by
    rw [append_assoc, ofLeft, ofRight, length_append]
    omega
  plain byte plain depth behind := by
    have notQuote := ne_of_class plain 0x22 rfl
    have notOpening := ne_of_class plain shape.opening (by cases shape <;> rfl)
    have notClosing := ne_of_class plain shape.closing (by cases shape <;> rfl)
    simp [containerRest, notQuote, notOpening, notClosing, Nat.add_comm]
  string body depth behind := by
    have skipped := containerRest_skip shape.opening shape.closing (depth + 1)
      (body.val ++ [0x22]) behind
    have passes : stringRest ((body.val ++ [0x22]) ++ behind) = (body.val ++ [0x22]).length := by
      rw [append_assoc, singleton_append, stringRest_body body.property,
        length_append, length_singleton]
    have length : (quoted body.val).length = (body.val ++ [0x22]).length + 1 := rfl
    show containerRest _ _ _ 0 (0x22 :: ((body.val ++ [0x22]) ++ behind)) = _
    rw [containerRest, if_pos rfl, passes, skipped, length]
    omega
  comma blank byte rest _ ofRest depth behind := by
    have notOpening : (0x2C : UInt8) ≠ shape.opening := by cases shape <;> decide
    have notClosing : (0x2C : UInt8) ≠ shape.closing := by cases shape <;> decide
    rw [cons_append, containerRest, if_neg (by decide), if_neg notOpening,
      if_neg notClosing, ofRest, length_cons]
    omega
  wrap inside inner ofInner depth behind := by
    have length : (inside.opening :: inner ++ [inside.closing]).length = inner.length + 2 := by
      simp
    rw [length, append_assoc, cons_append, singleton_append]
    by_cases same : inside = shape
    · subst same
      have leaves : containerRest inside.opening inside.closing (depth + 1 + 1) 0
          (inside.closing :: behind) =
            containerRest inside.opening inside.closing (depth + 1) 0 behind + 1 := by
        cases inside <;> rfl
      rw [containerRest_opening, ofInner, leaves]
      omega
    · -- A bracket of the other kind is passed like any byte.
      have passes : ∀ byte text, byte = inside.opening ∨ byte = inside.closing →
          containerRest shape.opening shape.closing (depth + 1) 0 (byte :: text) =
            containerRest shape.opening shape.closing (depth + 1) 0 text + 1 := by
        rintro byte text (rfl | rfl) <;> cases inside <;> cases shape <;>
          first | exact absurd rfl same | rfl
      rw [passes _ _ (.inl rfl), ofInner, passes _ _ (.inr rfl)]
      omega

/-- What ends a number or a literal that stands before it. -/
def EndsScalar (behind : Bytes) : Prop := ∀ byte ∈ behind.head?, isDelimiter byte = true

variable {behind : Bytes}

/-- A scalar is read to its end. -/
theorem takeWhile_scalar (text : ScalarText) (ends : EndsScalar behind) :
    (text.val ++ behind).takeWhile (!isDelimiter ·) = text.val := by
  have passes : ∀ byte ∈ text.val, (!isDelimiter byte) = true := by
    intro byte inside
    rw [isDelimiter_of_isScalarByte (all_eq_true.mp text.property.2 _ inside)]
    rfl
  rw [takeWhile_append_of_pos passes]
  cases behind with
  | nil => simp
  | cons byte rest =>
    have delimiter := ends _ rfl
    rw [takeWhile_cons_of_neg (by simp [delimiter]), append_nil]

/-- A container is scanned to its closing bracket. -/
theorem scanContainerEnd_text {blank : Blank} {entries : Layout (.entries shape)}
    (standsAt : content.drop start = (Layout.container shape blank entries).text ++ behind) :
    scanContainerEnd content start shape.opening =
      start + (Layout.container shape blank entries).text.length := by
  have pieces := piecewise_containerRest shape
  have colon : ∀ depth behind,
      containerRest shape.opening shape.closing (depth + 1) 0 ([0x3A] ++ behind) =
        1 + containerRest shape.opening shape.closing (depth + 1) 0 behind := by
    intro depth behind
    cases shape <;> simp [containerRest, opening, closing, Nat.add_comm]
  have inner := pieces.append _ _ (pieces.blank blank) (pieces.layout entries (fun _ => colon)) 0
    (shape.closing :: behind)
  have whole : content.drop start =
      shape.opening :: ((blank.val ++ entries.text) ++ shape.closing :: behind) := by
    rw [standsAt]
    simp [text]
  have leaves : containerRest shape.opening shape.closing (0 + 1) 0 (shape.closing :: behind) =
      1 := by
    cases shape <;> rfl
  have length : (container shape blank entries).text.length =
      (blank.val ++ entries.text).length + 1 + 1 := by
    simp [text, Nat.add_assoc]
  have closing : (if shape.opening = 0x7B then (0x7D : UInt8) else 0x5D) = shape.closing := by
    cases shape <;> rfl
  rw [scanContainerEnd, closing, whole, containerRest_opening, inner, leaves, length]

/-- A value is scanned to its end. -/
theorem scanValueEnd_text (value : Layout .value)
    (standsAt : content.drop start = value.text ++ behind) (ends : EndsScalar behind) :
    scanValueEnd content start = start + value.text.length := by
  cases value with
  | scalar text =>
    have taken := takeWhile_scalar text ends
    obtain ⟨bytes, nonempty, scalars⟩ := text
    cases bytes with
    | nil => exact absurd rfl nonempty
    | cons byte rest =>
      rw [all_cons, and_eq_true] at scalars
      have opening : isPlain byte = true := by simp [isPlain, scalars.1]
      have notContainer : ¬ (byte = 0x7B ∨ byte = 0x5B) := by
        rintro (isBrace | isBracket)
        · exact ne_of_class opening 0x7B rfl isBrace
        · exact ne_of_class opening 0x5B rfl isBracket
      simp only [text, cons_append] at standsAt taken ⊢
      rw [scanValueEnd, standsAt]
      simp [if_neg (ne_of_class opening 0x22 rfl), if_neg notContainer, taken]
  | string body =>
    have drops : content.drop (start + 1) = body.val ++ 0x22 :: behind := by
      rw [← drop_drop, standsAt]
      simp [text, quoted]
    rw [scanValueEnd, standsAt]
    show scanStringEnd content start = _
    rw [scanStringEnd, drops, stringRest_body body.property]
    simp [text, quoted]
    omega
  | container shape blank entries =>
    have scanned := scanContainerEnd_text standsAt
    rw [scanValueEnd, standsAt]
    cases shape <;> exact scanned

/-! ### Starts of values -/

/-- Blanks in front are skipped. -/
theorem skipWhitespace_blank (blank : Blank)
    (standsAt : content.drop start = blank.val ++ byte :: behind)
    (solid : isWhitespace byte = false) :
    skipWhitespace content start = start + blank.val.length := by
  rw [skipWhitespace, standsAt, takeWhile_append_of_pos (all_eq_true.mp blank.property),
    takeWhile_cons_of_neg (by simp [solid]), append_nil]

/-- A text without members is passed in the search for a colon. -/
theorem piecewise_firstColon : Piecewise fun text => ∀ behind,
    firstColon .outside (text ++ behind) =
      (firstColon .outside behind).map (· + text.length) where
  nil behind := Option.map_id'.symm
  append left right ofLeft ofRight behind := by
    rw [append_assoc, ofLeft, ofRight, Option.map_map, length_append]
    congr 1
    funext position
    show position + right.length + left.length = position + (left.length + right.length)
    omega
  plain byte plain behind := by
    have notQuote := ne_of_class plain 0x22 rfl
    have notColon := ne_of_class plain 0x3A rfl
    simp [firstColon, notQuote, notColon]
  string body behind := by
    have inner := firstColon_body body.property behind
    simp [quoted, firstColon, inner, Function.comp_def]
    congr 1
    funext position
    omega
  comma blank byte rest _ ofRest behind := by
    rw [cons_append, firstColon, if_neg (by decide), if_neg (by decide), ofRest, Option.map_map]
    rfl
  wrap shape inner ofInner behind := by
    have shifted : ∀ position, position + 1 + inner.length + 1 =
        position + (inner.length + 1 + 1) := by omega
    cases shape <;>
      simp [opening, closing, firstColon, ofInner, Function.comp_def, shifted]

/-- The colon behind a key is the first one. -/
theorem firstColon_key (key : Label .object) :
    firstColon .outside (key.text ++ behind) =
      some ((quoted key.body.val).length + key.middle.val.length) := by
  have text : key.text ++ behind =
      quoted key.body.val ++ (key.middle.val ++ 0x3A :: (key.gap.val ++ behind)) := by
    simp [Label.text]
  rw [text, piecewise_firstColon.string, piecewise_firstColon.blank]
  show some (0 + key.middle.val.length + (quoted key.body.val).length) = _
  rw [Nat.zero_add, Nat.add_comm]

/-- A member has a colon. -/
theorem firstColon_isSome {part : Part} (layout : Layout part) (member : layout.hasMember = true)
    (behind : Bytes) : (firstColon .outside (layout.text ++ behind)).isSome = true := by
  have pieces := piecewise_firstColon
  induction layout generalizing behind with
  | scalar text | string body | done => cases member
  | container shape blank entries ih =>
    have inner := ih member ([shape.closing] ++ behind)
    have enters : ∀ text, firstColon .outside (shape.opening :: text) =
        (firstColon .outside text).map (· + 1) := by
      intro text
      cases shape <;> rfl
    simp only [text, cons_append, append_assoc]
    rw [enters, pieces.blank, Option.isSome_map, Option.isSome_map]
    exact inner
  | @entry shape before label value after rest ihValue ihRest =>
    simp only [text, append_assoc]
    rw [pieces.blank, Option.isSome_map]
    cases shape with
    | object =>
      rw [firstColon_key]
      rfl
    | array =>
      show (firstColon .outside (value.text ++ _)).isSome = true
      cases inValue : value.hasMember with
      | true => exact ihValue inValue _
      | false =>
        have inRest : rest.hasMember = true := by
          simpa [hasMember, inValue] using member
        have passesComma : ∀ text, (firstColon .outside (rest.comma ++ text)).isSome =
            (firstColon .outside text).isSome := by
          intro text
          cases rest with
          | done => rfl
          | entry => exact Option.isSome_map
        rw [pieces.layout _ (fun member => by rw [inValue] at member; cases member),
          Option.isSome_map, pieces.blank, Option.isSome_map, passesComma]
        exact ihRest inRest _

end Symforge.Parsing.Json
