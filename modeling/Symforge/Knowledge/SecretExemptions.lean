import Symforge.Domain
import Symforge.Knowledge.ExpressionWalk
import Symforge.Knowledge.SecretRules

/-!
# Exemptions of the secret detector

Model of the tests of `knowledge/mod.rs` that a match has to pass before it is reported:
placeholders, interface labels, documented URIs, and on code paths the expression on the right-hand
side of the assignment. The Unicode tables are a parameter.
-/

namespace Symforge.Knowledge

open Library.Regex

/-- The tables of Unicode behind `char::is_alphabetic`, `is_uppercase` and `is_lowercase`. -/
structure CharTables where
  isAlphabetic : Nat → Bool
  isUppercase : Nat → Bool
  isLowercase : Nat → Bool

variable (bytes : Bytes)

/-- `&bytes[start..stop]`. -/
def between (start stop : Nat) : Bytes := (bytes.take stop).drop start

variable (text : Bytes)

/-- `[u8]::trim_ascii`. -/
def trimAscii : Bytes := (trimAsciiStart (trimAsciiStart text).reverse).reverse

/-- `u8::eq_ignore_ascii_case` over a slice. -/
def eqIgnoreAsciiCase (left right : Bytes) : Bool := toAsciiLowercase left == toAsciiLowercase right

/-- The scalar values of a valid text. -/
def scalarsFrom : (fuel : Nat) → Bytes → List Nat
  | 0, _ => []
  | fuel + 1, text =>
    match decodeScalar text with
    | none => []
    | some (code, width) => code :: scalarsFrom fuel (text.drop width)

/-- The scalars of a text. -/
def scalars : List Nat := scalarsFrom text.length text

/-! ### Placeholders -/

/-- The groups of `is_placeholder_only_expression`, the longest opener first. -/
def placeholderGroups : List (Bytes × Bytes) :=
  [([0x24, 0x7B, 0x7B], [0x7D, 0x7D]), ([0x7B, 0x7B], [0x7D, 0x7D]), ([0x24, 0x7B], [0x7D])]

/-- What is left behind a placeholder group at the front of a text. -/
def afterPlaceholderGroup (group : Bytes × Bytes) : Option Bytes :=
  if group.1.isPrefixOf text then
    let interior := text.drop group.1.length
    match windowPosition group.2 interior with
    | none => none
    | some stop =>
      if stop = 0 ∨ (interior.take stop).any fun byte => byte == 0x7B || byte == 0x7D then none
      else some (interior.drop (stop + group.2.length))
  else none

/-- The loop of `is_placeholder_only_expression`; every round consumes a group. -/
def placeholderOnlyFrom : (fuel : Nat) → (matchedAny : Bool) → Bytes → Bool
  | _, matchedAny, [] => matchedAny
  | 0, _, _ :: _ => false
  | fuel + 1, _, text =>
    match placeholderGroups.findSome? (afterPlaceholderGroup text) with
    | none => false
    | some rest => placeholderOnlyFrom fuel true rest

/-- `is_placeholder_only_expression`. -/
def isPlaceholderOnlyExpression (value : Bytes) : Bool :=
  placeholderOnlyFrom value.length false value

/-- A text without braces between the fences of a group. -/
def IsPlaceholderGroup (group : Bytes) : Prop :=
  ∃ fences ∈ placeholderGroups, ∃ interior : Bytes, interior ≠ [] ∧
    (∀ byte ∈ interior, byte ≠ 0x7B ∧ byte ≠ 0x7D) ∧ group = fences.1 ++ interior ++ fences.2

section
open List

variable {text} {rest opener more interior : Bytes}

/-- What is skipped is one placeholder. -/
theorem of_afterPlaceholderGroup
    (left : afterPlaceholderGroup text (opener, 0x7D :: more) = some rest) :
    ∃ interior : Bytes, interior ≠ [] ∧ (∀ byte ∈ interior, byte ≠ 0x7B ∧ byte ≠ 0x7D) ∧
      text = opener ++ interior ++ 0x7D :: more ++ rest := by
  simp only [afterPlaceholderGroup, Option.ite_none_right_eq_some, isPrefixOf_iff_prefix] at left
  obtain ⟨⟨behind, rfl⟩, left⟩ := left
  rw [drop_left] at left
  split at left
  · cases left
  rename_i stop found
  simp only [Option.ite_none_left_eq_some, not_or, any_eq_true, not_exists, not_and,
    Bool.or_eq_true, beq_iff_eq, Option.some.injEq] at left
  obtain ⟨⟨nonempty, plain⟩, rfl⟩ := left
  obtain ⟨⟨final, closed⟩, -⟩ := (windowPosition_eq_some_iff (by simp)).mp found
  refine ⟨behind.take stop, ?_, plain, ?_⟩
  · rw [ne_eq, take_eq_nil_iff]
    rintro (none | rfl)
    · exact nonempty none
    · simp at closed
  · rw [← drop_drop, ← closed, drop_left, append_assoc, append_assoc, closed, take_append_drop]

/-- One placeholder is skipped. -/
theorem afterPlaceholderGroup_append (nonempty : interior ≠ [])
    (plain : ∀ byte ∈ interior, byte ≠ 0x7B ∧ byte ≠ 0x7D) :
    afterPlaceholderGroup (opener ++ interior ++ 0x7D :: more ++ rest) (opener, 0x7D :: more) =
      some rest := by
  have found : windowPosition (0x7D :: more) (interior ++ 0x7D :: (more ++ rest)) =
      some interior.length := by
    refine (windowPosition_eq_some_iff (by simp)).mpr ⟨by simp, ?_⟩
    intro earlier inside closed
    rw [drop_append_of_le_length (Nat.le_of_lt inside), drop_eq_getElem_cons inside] at closed
    exact (plain _ (getElem_mem inside)).2 (cons_prefix_cons.mp closed).1.symm
  simpa [afterPlaceholderGroup, found, nonempty, ← drop_drop] using plain

/-- A round consumes the group that is there: openers that begin alike differ in the brace behind.
-/
theorem consume_eq_some : placeholderGroups.findSome? (afterPlaceholderGroup text) = some rest ↔
    ∃ group, IsPlaceholderGroup group ∧ text = group ++ rest := by
  constructor
  · intro found
    obtain ⟨fences, known, found⟩ := exists_of_findSome?_eq_some found
    have shape := known
    simp only [placeholderGroups, mem_cons, not_mem_nil, or_false] at shape
    rcases shape with rfl | rfl | rfl <;>
      obtain ⟨interior, nonempty, plain, rfl⟩ := of_afterPlaceholderGroup found <;>
      exact ⟨_, ⟨_, known, interior, nonempty, plain, rfl⟩, rfl⟩
  · rintro ⟨_, ⟨fences, known, interior, nonempty, plain, rfl⟩, rfl⟩
    simp only [placeholderGroups, mem_cons, not_mem_nil, or_false] at known
    rcases known with rfl | rfl | rfl
    · rw [placeholderGroups, findSome?_cons, afterPlaceholderGroup_append nonempty plain]
    · rw [placeholderGroups, findSome?_cons, afterPlaceholderGroup, if_neg (by simp),
        findSome?_cons, afterPlaceholderGroup_append nonempty plain]
    cases interior with
    | nil => exact absurd rfl nonempty
    | cons byte more =>
      have other := (plain _ mem_cons_self).1.symm
      rw [placeholderGroups, findSome?_cons, afterPlaceholderGroup, if_neg (by simp [other]),
        findSome?_cons, afterPlaceholderGroup, if_neg (by simp), findSome?_cons,
        afterPlaceholderGroup_append nonempty plain]

/-- A placeholder is not empty. -/
theorem IsPlaceholderGroup.length_pos {group : Bytes} (isGroup : IsPlaceholderGroup group) :
    0 < group.length := by
  obtain ⟨fences, -, interior, nonempty, -, rfl⟩ := isGroup
  have := length_pos_iff.mpr nonempty
  simp only [length_append]
  omega

/-- The groups that the loop is still to consume; it has consumed some or there is one. -/
theorem placeholderOnlyFrom_iff {fuel : Nat} {matchedAny : Bool} (enough : text.length ≤ fuel) :
    placeholderOnlyFrom fuel matchedAny text ↔ ∃ groups : List Bytes,
      (matchedAny ∨ groups ≠ []) ∧ (∀ group ∈ groups, IsPlaceholderGroup group) ∧
        groups.flatten = text := by
  induction fuel, matchedAny, text using placeholderOnlyFrom.induct with
  | case1 fuel matchedAny =>
    rw [placeholderOnlyFrom]
    constructor
    · exact fun consumed => ⟨[], .inl consumed, nofun, rfl⟩
    rintro ⟨_ | ⟨group, groups⟩, some, known, flat⟩
    · simpa using some
    have := (forall_mem_cons.mp known).1.length_pos
    rw [(append_eq_nil_iff.mp flat).1] at this
    cases this
  | case2 => cases enough
  | case3 fuel matchedAny text nonempty stuck =>
    rw [placeholderOnlyFrom.eq_3 _ _ _ nonempty, stuck]
    refine iff_of_false nofun ?_
    rintro ⟨_ | ⟨group, groups⟩, -, known, rfl⟩
    · exact nonempty rfl
    · cases stuck.symm.trans (consume_eq_some.mpr ⟨group, known _ mem_cons_self, rfl⟩)
  | case4 fuel matchedAny text nonempty rest consumed ih =>
    obtain ⟨group, isGroup, rfl⟩ := consume_eq_some.mp consumed
    have := isGroup.length_pos
    rw [placeholderOnlyFrom.eq_3 _ _ _ nonempty, consumed]
    rw [length_append] at enough
    refine (ih (by omega)).trans ⟨?_, ?_⟩
    · rintro ⟨groups, -, known, rfl⟩
      exact ⟨group :: groups, .inr nofun, forall_mem_cons.mpr ⟨isGroup, known⟩, rfl⟩
    · rintro ⟨_ | ⟨first, groups⟩, -, known, flat⟩
      · exact absurd flat.symm nonempty
      obtain ⟨isFirst, known⟩ := forall_mem_cons.mp known
      injection (consume_eq_some.mpr ⟨first, isFirst, flat.symm⟩).symm.trans consumed with same
      exact ⟨groups, .inl rfl, known, same⟩

/-- The loop accepts the concatenations of groups and nothing else. -/
theorem isPlaceholderOnlyExpression_iff (value : Bytes) : isPlaceholderOnlyExpression value ↔
    ∃ groups : List Bytes, groups ≠ [] ∧ (∀ group ∈ groups, IsPlaceholderGroup group) ∧
      groups.flatten = value := by
  rw [isPlaceholderOnlyExpression, placeholderOnlyFrom_iff le_rfl]
  simp

end

variable (byte : UInt8)

/-- The characters that `is_placeholder` trims: quotes and brackets around the value. -/
def isPlaceholderFence : Bool :=
  byte == 0x22 || byte == 0x27 || byte == 0x60 || byte == 0x3C || byte == 0x3E || byte == 0x5B ||
    byte == 0x5D

/-- The words that stand for a secret. -/
def placeholderWords : List String :=
  ["example", "sample", "placeholder", "changeme", "change-me", "change_me", "redacted",
    "replace-me", "replace_me", "dummy", "fake", "test-value"]

/-- `is_placeholder`. -/
def isPlaceholder (value : Bytes) : Bool :=
  validUtf8 value &&
    let trimmed := ((value.dropWhile isPlaceholderFence).reverse.dropWhile
      isPlaceholderFence).reverse
    let normalized := toAsciiLowercase trimmed
    placeholderWords.any (fun word => utf8 word == normalized) ||
      startsWith normalized "your_" || startsWith normalized "your-" ||
      isPlaceholderOnlyExpression normalized

/-- The quote in front of a capture. -/
def openingQuote (start : Nat) : Option UInt8 :=
  if start = 0 then none
  else bytes[start - 1]?.filter isQuote

/-- `right_hand_side_continuation`. -/
def rightHandSideContinuation (captureStart captureEnd : Nat) : Option Nat :=
  if bytes[captureEnd]?.any isQuote then some (captureEnd + 1)
  else
    match openingQuote bytes captureStart with
    | none => some captureEnd
    | some quote =>
      let line := (bytes.drop captureEnd).takeWhile fun byte => byte != 0x0A
      (line.findIdx? fun byte => byte == quote).map fun offset => captureEnd + offset + 1

/-- `is_angle_placeholder`. -/
def isAnglePlaceholder (start : Nat) : Bool :=
  if bytes[start]? = some 0x3C then
    let line := (bytes.drop start).takeWhile fun byte => byte != 0x0A
    let value := match openingQuote bytes start with
      | none => some line
      | some quote => (line.findIdx? fun byte => byte == quote).map line.take
    match value with
    | none => false
    | some value =>
      let value := (trimAsciiStart value.reverse).reverse
      match value.findIdx? fun byte => byte == 0x3E with
      | none => false
      | some firstClose =>
        if (value.drop firstClose).all fun byte => byte == 0x3E then
          let interior := (value.take firstClose).dropWhile fun byte => byte == 0x3C
          interior.any isAsciiWhitespace ||
            !(interior.any fun byte => isAsciiDigitScalar byte.toNat) || isPlaceholder interior
        else false
  else false

/-- `uri_credentials_are_placeholder`. -/
def uriCredentialsArePlaceholder (userinfoStart userinfoEnd : Nat) : Bool :=
  let userinfo := between bytes userinfoStart userinfoEnd
  let placeholderUserinfo := isPlaceholder userinfo ||
    ["pass", "password", "pw", "secret"].any (fun word => utf8 word == toAsciiLowercase userinfo) ||
    userinfo.all fun byte => byte == 0x78 || byte == 0x58
  let host := (bytes.drop (userinfoEnd + 1)).takeWhile fun byte =>
    !([0x2F, 0x3A, 0x3F, 0x23, 0x22, 0x27, 0x60, 0x29, 0x5D, 0x2C, 0x3B].contains byte) &&
      !isAsciiWhitespace byte
  let host := if validUtf8 host then toAsciiLowercase host else []
  let placeholderHost := utf8 "host" == host || utf8 "localhost" == host ||
    startsWith host "example." ||
    (decide (2 < host.length) && host.head? == some 0x3C && host.getLast? == some 0x3E) ||
    isPlaceholderOnlyExpression host
  placeholderUserinfo && placeholderHost

/-! ### Values that are no credentials -/

/-- `context_assignment_match_start`. -/
def contextAssignmentMatchStart (rule : RuleId) (bytes : Bytes) (matchStart : Nat) : Nat :=
  if rule ≠ .contextAssignment then matchStart
  else
    match bytes[matchStart]? with
    | some 0x22 => matchStart + 1
    | some 0x27 => matchStart + 1
    | _ => matchStart

/-- `b':' | b'='`. -/
def isSeparator : Bool := byte == 0x3A || byte == 0x3D

/-- `b'"' | b'\''`. -/
def isStraightQuote : Bool := byte == 0x22 || byte == 0x27

variable (matchStart valueStart : Nat)

/-- `matched_assignment_key`. -/
def matchedAssignmentKey : Bytes :=
  let head := between bytes matchStart valueStart
  let key := trimAscii (head.takeWhile fun byte => !isSeparator byte)
  let key := if key.head?.any isStraightQuote then key.drop 1 else key
  let key := if key.getLast?.any isStraightQuote then key.dropLast else key
  trimAscii key

/-- `NATURAL_LANGUAGE_LABEL_MAX_WORDS`. -/
def naturalLanguageLabelMaxWords : Nat := 3

/-- `NATURAL_LANGUAGE_LABEL_MAX_SINGLE_TOKEN_CHARS`. -/
def naturalLanguageLabelMaxSingleTokenChars : Nat := 16

/-- `str::split_whitespace().count()`. -/
def wordCount : (inWord : Bool) → List Nat → Nat
  | _, [] => 0
  | inWord, code :: rest =>
    if isWhitespaceScalar code then wordCount false rest
    else (if inWord then 0 else 1) + wordCount true rest

variable (tables : CharTables)

/-- `is_natural_language_label`. -/
def isNaturalLanguageLabel (value : Bytes) : Bool :=
  let codes := scalars value
  if !validUtf8 value || codes.isEmpty || codes.any isAsciiDigitScalar then false
  else if !(codes.all fun code => tables.isAlphabetic code || isWhitespaceScalar code ||
      "-'.,:!?".toList.any fun mark => mark.toNat == code) then false
  else if !codes.any tables.isAlphabetic then false
  else if codes.any isWhitespaceScalar then
    decide (1 ≤ wordCount false codes ∧ wordCount false codes ≤ naturalLanguageLabelMaxWords)
  else if naturalLanguageLabelMaxSingleTokenChars < codes.length then false
  else codes.head?.any tables.isUppercase && codes.all tables.isAlphabetic &&
    codes.tail.all tables.isLowercase

/-- `assignment_value_looks_like_credential`. -/
def assignmentValueLooksLikeCredential (bytes : Bytes)
    (matchStart valueStart : Nat) (value : Bytes) : Bool :=
  let key := matchedAssignmentKey bytes matchStart valueStart
  !value.isEmpty && !(!key.isEmpty && eqIgnoreAsciiCase value key) &&
    !isNaturalLanguageLabel tables value

/-! ### Expressions of code -/

/-- Which literals an odd number of delimiters has left open. -/
structure OpenLiterals where
  double : Bool
  single : Bool
  backtick : Bool
  deriving DecidableEq, Repr

/-- In Rust an apostrophe in front of an identifier opens a lifetime, or else a char literal. -/
def isLifetime (after : Bytes) : Bool :=
  after.head?.any (fun next => isAsciiLetter next.toNat || next == 0x5F) &&
    after[1]? != some 0x27

/-- The loop of `match_is_inside_string_literal` over the `left` bytes up to the value; those behind
matter for lifetimes only. -/
def openLiteralsFrom (rust : Bool) : (left : Nat) → (escaped : Bool) → OpenLiterals → Bytes →
    OpenLiterals
  | 0, _, literals, _ => literals
  | _ + 1, _, literals, [] => literals
  | left + 1, true, literals, _ :: rest => openLiteralsFrom rust left false literals rest
  | left + 1, false, literals, byte :: rest =>
    if byte = 0x5C then openLiteralsFrom rust left true literals rest
    else
      let literals :=
        if byte = 0x22 then { literals with double := !literals.double }
        else if byte = 0x27 then
          if rust && isLifetime rest then literals
          else { literals with single := !literals.single }
        else if byte = 0x60 then { literals with backtick := !literals.backtick }
        else literals
      openLiteralsFrom rust left false literals rest

/-- `match_is_inside_string_literal`. -/
def matchIsInsideStringLiteral (valueStart : Nat) (rust : Bool) : Bool :=
  let start := lastLineStart (bytes.take valueStart)
  let literals := openLiteralsFrom rust (valueStart - start) false ⟨false, false, false⟩
    (bytes.drop start)
  literals.double || literals.single || literals.backtick

/-- The bracket depth behind a line; a closer at depth 0 is ignored. -/
def bracketDepth (line : Bytes) : Nat :=
  line.foldl (fun depth byte =>
    if opensGroup byte then depth + 1 else if closesGroup byte then depth - 1 else depth) 0

/-- A quote of the line fences a payload on it. -/
def lineFencesPayload : Bytes → Bool
  | [] => false
  | byte :: rest => (isQuote byte && fencesPayload byte rest) || lineFencesPayload rest

/-- `separator_is_path_not_assignment`. -/
def separatorIsPathNotAssignment : Bool :=
  match (between bytes matchStart valueStart).findIdx? isSeparator with
  | none => false
  | some offset =>
    let separator := matchStart + offset
    if bytes[separator]? ≠ some 0x3A ∨ bytes[separator + 1]? ≠ some 0x3A then false
    else
      let line := (bytes.drop separator).takeWhile fun byte => byte != 0x0A
      let lineEnd := separator + line.length
      if lineEnd < bytes.length ∧
          lineBreakContinuesExpression (bytes.take lineEnd) (bytes.drop (lineEnd + 1)) then false
      else bracketDepth (line.drop 2) == 0 && !lineFencesPayload (line.drop 2)

/-- `capture_is_single_interpolation`. -/
def captureIsSingleInterpolation (value : Bytes) : Bool :=
  decide (3 ≤ value.length) && value.head? == some 0x7B && value.getLast? == some 0x7D &&
    !(value.tail.dropLast.any fun byte => byte == 0x7B || byte == 0x7D)

/-- The quote in front of the value closes the literal of the keyword, without whitespace in it. -/
def closesCompactKeyword (quote : UInt8) : Bool :=
  let before := bytes.take (valueStart - 1)
  match before.reverse.findIdx? fun byte => byte == quote || isAsciiWhitespace byte with
  | none => false
  | some back =>
    let opening := before.length - 1 - back
    bytes[opening]? == some quote && decide (opening < matchStart)

/-- `assignment_is_code_expression`. -/
def assignmentIsCodeExpression (path bytes : Bytes) (matchStart valueStart : Nat)
    (value : Bytes) : Bool :=
  match (LanguageId.fromPath path).filter isCodeLanguage with
  | none => false
  | some language =>
    if separatorIsPathNotAssignment bytes matchStart valueStart then true
    else
      let rust := language == .rust
      match (openingQuote bytes valueStart).filter isStraightQuote with
      | some quote =>
        closesCompactKeyword bytes matchStart valueStart quote &&
          matchIsInsideStringLiteral bytes matchStart rust &&
          !matchIsInsideStringLiteral bytes valueStart rust &&
          !expressionCarriesQuotedPayload bytes valueStart true
      | none =>
        if matchIsInsideStringLiteral bytes valueStart rust then
          captureIsSingleInterpolation value
        else !expressionCarriesQuotedPayload bytes valueStart false

/-- The tests of `scan_secret_bytes` that let a match pass; `secret` is the range of its capture. -/
def isExempt (path bytes : Bytes) (rule : SecretRule) (matchStart : Nat)
    (secret : Nat × Nat) : Bool :=
  let value := between bytes secret.1 secret.2
  if rule.placeholdersAllowed && (isPlaceholder value || isAnglePlaceholder bytes secret.1) then
    (rightHandSideContinuation bytes secret.1 secret.2).any fun start =>
      !expressionCarriesQuotedPayload bytes start false
  else
    (decide (rule.id = .contextAssignment) &&
      (assignmentIsCodeExpression path bytes matchStart secret.1 value ||
        !assignmentValueLooksLikeCredential tables bytes matchStart secret.1 value)) ||
    (decide (rule.id = .uriCredentials) && uriCredentialsArePlaceholder bytes secret.1 secret.2)

end Symforge.Knowledge
