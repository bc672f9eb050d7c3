import Mathlib.Data.List.Basic

/-!
# Regular expressions that match leftmost-first

A pattern over the scalar values of a UTF-8 text: the ways to match from a position are listed in
the order in which a backtracking engine tries them, and the first of them is the match. A group
records the range of what it matched. Byte strings that are no scalar value match nothing.
-/

namespace Symforge.Library.Regex

/-- A byte that continues a scalar value. -/
def isContinuation (byte : UInt8) : Bool := decide (0x80 ≤ byte.toNat ∧ byte.toNat < 0xC0)

/-- The scalar value at the front of a text and the number of its bytes. -/
def decodeScalar : List UInt8 → Option (Nat × Nat)
  | [] => none
  | first :: rest =>
    let lead := first.toNat
    if lead < 0x80 then some (lead, 1)
    else if 0xC2 ≤ lead ∧ lead < 0xE0 then
      match rest with
      | second :: _ =>
        if isContinuation second then some (lead % 32 * 64 + second.toNat % 64, 2) else none
      | _ => none
    else if 0xE0 ≤ lead ∧ lead < 0xF0 then
      match rest with
      | second :: third :: _ =>
        let code := (lead % 16 * 64 + second.toNat % 64) * 64 + third.toNat % 64
        if isContinuation second ∧ isContinuation third ∧ 0x800 ≤ code ∧
            ¬(0xD800 ≤ code ∧ code < 0xE000) then some (code, 3) else none
      | _ => none
    else if 0xF0 ≤ lead ∧ lead < 0xF5 then
      match rest with
      | second :: third :: fourth :: _ =>
        let code := ((lead % 8 * 64 + second.toNat % 64) * 64 + third.toNat % 64) * 64 +
          fourth.toNat % 64
        if isContinuation second ∧ isContinuation third ∧ isContinuation fourth ∧
            0x10000 ≤ code ∧ code < 0x110000 then some (code, 4) else none
      | _ => none
    else none

/-- A regular expression; `most` bounds a repetition, and every repetition is greedy. -/
inductive Pattern where
  | empty
  | scalar (accepts : Nat → Bool)
  | sequence (first second : Pattern)
  | either (first second : Pattern)
  | repeated (least : Nat) (most : Option Nat) (inner : Pattern)
  | group (index : Nat) (inner : Pattern)

/-- The range that a group matched. -/
structure Capture where
  index : Nat
  start : Nat
  stop : Nat
  deriving DecidableEq, Repr

/-- How far a match has come: what is behind it and what its groups matched, the latest first. -/
structure Progress where
  position : Nat
  rest : List UInt8
  captures : List Capture
  deriving DecidableEq, Repr

/-- `count` more rounds at most, of which `least` have to match. -/
def repeatFrom (step : Progress → List Progress) : (count least : Nat) → Progress → List Progress
  | 0, least, progress => if least = 0 then [progress] else []
  | count + 1, least, progress =>
    (step progress).flatMap (repeatFrom step count (least - 1)) ++
      if least = 0 then [progress] else []

/-- The ways to match a pattern, in the order in which they are tried. -/
def Pattern.run : Pattern → Progress → List Progress
  | .empty, progress => [progress]
  | .scalar accepts, progress =>
    match decodeScalar progress.rest with
    | none => []
    | some (code, width) =>
      if accepts code then
        [{ progress with
            position := progress.position + width
            rest := progress.rest.drop width }]
      else []
  | .sequence first second, progress => (first.run progress).flatMap second.run
  | .either first second, progress => first.run progress ++ second.run progress
  -- A round of a repetition matches at least one byte, so an unbounded one ends with the text.
  | .repeated least most inner, progress =>
    repeatFrom inner.run (most.getD progress.rest.length) least progress
  | .group index inner, progress =>
    (inner.run progress).map fun next =>
      { next with captures := ⟨index, progress.position, next.position⟩ :: next.captures }

/-- A match with the captures of its groups; the whole match is group 0. -/
structure Captures where
  start : Nat
  stop : Nat
  groups : List Capture
  deriving DecidableEq, Repr

/-- What group `index` matched last, if it took part. -/
def Captures.get (found : Captures) (index : Nat) : Option (Nat × Nat) :=
  if index = 0 then some (found.start, found.stop)
  else (found.groups.find? fun capture => capture.index == index).map fun capture =>
    (capture.start, capture.stop)

/-- The first match at `position` or behind it, and what follows it. -/
def Pattern.findFrom (pattern : Pattern) : (position : Nat) → List UInt8 → Option (Nat × Progress)
  | position, [] => (pattern.run ⟨position, [], []⟩).head?.map fun last => (position, last)
  | position, byte :: rest =>
    match (pattern.run ⟨position, byte :: rest, []⟩).head? with
    | some last => some (position, last)
    | none => pattern.findFrom (position + 1) rest

/-- The matches from `position` on, without overlap; none of them is empty. -/
def Pattern.capturesFrom (pattern : Pattern) : (fuel position : Nat) → List UInt8 → List Captures
  | 0, _, _ => []
  | fuel + 1, position, text =>
    match pattern.findFrom position text with
    | none => []
    | some (start, last) =>
      if start < last.position then
        ⟨start, last.position, last.captures⟩ :: pattern.capturesFrom fuel last.position last.rest
      else []

/-- `captures_iter` of a pattern that matches no empty text. -/
def Pattern.capturesIter (pattern : Pattern) (text : List UInt8) : List Captures :=
  pattern.capturesFrom (text.length + 1) 0 text

end Symforge.Library.Regex
