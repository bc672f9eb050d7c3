import Symforge.Domain
/-!
# Aliases in prompts

`prompt_contains_exact_alias` of `sidecar/handlers.rs`, for an alias that is not empty.
-/

namespace Symforge.Sidecar

open List

/-- The bytes of identifiers, in lower case. -/
def isWordByte (byte : UInt8) : Bool :=
  (0x61 ≤ byte && byte ≤ 0x7A) || (0x30 ≤ byte && byte ≤ 0x39) || byte == 0x5F

/-- A prompt and an alias to look for in it. -/
structure AliasSearch where
  prompt : Bytes
  name : Bytes

namespace AliasSearch

variable (search : AliasSearch) (start : Nat)

/-- `prev_ok`. -/
def prevOk : Bool := start == 0 || !(search.prompt[start - 1]?).any isWordByte

/-- The byte behind an occurrence. -/
def next : Option UInt8 := search.prompt[start + search.name.length]?

/-- `next_ok`: a colon has to lead to a number. -/
def nextOk : Bool :=
  (search.next start).all fun byte =>
    if byte = 0x3A then (search.next (start + 1)).any fun digit => 0x30 ≤ digit && digit ≤ 0x39
    else byte ≠ 0x2E && byte ≠ 0x2F && !isWordByte byte

/-- Whether an occurrence makes the answer true. -/
def accepts : Bool := search.prevOk start && search.nextOk start

/-- `str::is_char_boundary`. -/
def isBoundary : Bool := start == 0 || isCharBoundary search.prompt start

/-- The loop; `none` is the panic of a slice that starts inside of a character. -/
def run : (fuel : Nat) → (searchStart : Nat) → Option Bool
  | 0, _ => none
  | fuel + 1, searchStart =>
    if search.isBoundary searchStart then
      match windowPosition search.name (search.prompt.drop searchStart) with
      | none => some false
      | some offset =>
        if search.accepts (searchStart + offset) then some true
        else run fuel (searchStart + offset + 1)
    else none

/-- The alias stands there. -/
def OccursAt : Prop := search.name <+: search.prompt.drop start

/-- It stands there with no identifier byte directly before or after it. -/
def FreeAt : Prop :=
  search.OccursAt start ∧ search.prevOk start = true ∧ (search.next start).any isWordByte = false

/-- The search ends at the occurrence, with an answer or a panic. -/
def EndsAt : Prop :=
  search.OccursAt start ∧ (search.accepts start = true ∨ search.isBoundary (start + 1) = false)

/-- The answer from a position on is that of the first occurrence at which the search ends. -/
def Answers (first : Nat) (answer : Option Bool) : Prop :=
  (∃ start, first ≤ start ∧ search.EndsAt start ∧
    (∀ other, first ≤ other → other < start → ¬ search.EndsAt other) ∧
    answer = if search.accepts start then some true else none) ∨
  (∀ start, first ≤ start → ¬ search.EndsAt start) ∧ answer = some false

variable {search start}

/-- What is accepted stands free. -/
theorem freeAt_of_accepts (occurs : search.OccursAt start) (ok : search.accepts start = true) :
    search.FreeAt start := by
  obtain ⟨before, behind⟩ := Bool.and_eq_true_iff.mp ok
  refine ⟨occurs, before, ?_⟩
  cases byte : search.next start with
  | none => rfl
  | some byte => grind [nextOk, isWordByte]

/-- Inside of a character the search panics. -/
theorem run_inside (inside : search.isBoundary start = false) (fuel : Nat) :
    search.run fuel start = none := by
  cases fuel with
  | zero => rfl
  | succ fuel => rw [run, if_neg (ne_true_of_eq_false inside)]

/-- What is found first is not behind another occurrence. -/
theorem le_of_windowPosition (nonempty : search.name ≠ []) {first offset : Nat}
    (found : windowPosition search.name (search.prompt.drop first) = some offset)
    (after : first ≤ start) (occurs : search.OccursAt start) : first + offset ≤ start := by
  by_contra before
  refine ((windowPosition_eq_some_iff nonempty).mp found).2 (start - first) (by omega) ?_
  rw [drop_drop, Nat.add_sub_cancel' after]
  exact occurs

/-- Positions at which the search does not end may be put before. -/
theorem Answers.earlier {first next : Nat} {answer : Option Bool}
    (answers : search.Answers next answer) (before : first ≤ next)
    (behind : ∀ start, first ≤ start → search.EndsAt start → next ≤ start) :
    search.Answers first answer := by
  rcases answers with ⟨start, after, ends, earliest, answer⟩ | ⟨never, answer⟩
  · exact .inl ⟨start, Nat.le_trans before after, ends, fun other onward prior also =>
      earliest other (behind other onward also) prior also, answer⟩
  · exact .inr ⟨fun other after also => never other (behind other after also) also, answer⟩

/-- With fuel for the rest of the prompt the search has its answer. -/
theorem run_answers (nonempty : search.name ≠ []) {fuel first : Nat}
    (enough : search.prompt.length < first + fuel) (whole : search.isBoundary first = true) :
    search.Answers first (search.run fuel first) := by
  induction fuel generalizing first with
  | zero =>
    have outside : search.prompt[first]? = none := getElem?_eq_none (by omega)
    simp only [isBoundary, isCharBoundary, outside, Bool.or_eq_true, beq_iff_eq] at whole
    omega
  | succ fuel ih =>
    rw [run, if_pos whole]
    cases found : windowPosition search.name (search.prompt.drop first) with
    | none =>
      refine .inr ⟨fun start after ends => ?_, rfl⟩
      refine (windowPosition_eq_none_iff nonempty).mp found ?_
      have behind := drop_suffix (start - first) (search.prompt.drop first)
      rw [drop_drop, Nat.add_sub_cancel' after] at behind
      exact ends.1.isInfix.trans behind.isInfix
    | some offset =>
      have here := ((windowPosition_eq_some_iff nonempty).mp found).1
      rw [drop_drop] at here
      have least : ∀ other, first ≤ other → search.EndsAt other → first + offset ≤ other :=
        fun _ after also => le_of_windowPosition nonempty found after also.1
      by_cases ends : search.EndsAt (first + offset)
      · refine .inl ⟨_, by omega, ends, fun other after before also => ?_, ?_⟩
        · exact absurd (least other after also) (by omega)
        · dsimp only
          split
          · rfl
          · exact run_inside (ends.2.resolve_left ‹_›) fuel
      obtain ⟨refused, further⟩ := not_or.mp fun either => ends ⟨here, either⟩
      have behind : ∀ other, first ≤ other → search.EndsAt other → first + offset + 1 ≤ other := by
        intro other after also
        refine Nat.lt_of_le_of_ne (least other after also) ?_
        rintro rfl
        exact ends also
      dsimp only
      rw [if_neg refused]
      exact (ih (by omega) (eq_true_of_ne_false further)).earlier (by omega) behind

/-- The answer is there and says whether the alias stands free somewhere. -/
def Exact (search : AliasSearch) (answer : Option Bool) : Prop :=
  ∃ found, answer = some found ∧ (found = true ↔ ∃ start, search.FreeAt start)

/-- With a free occurrence there is an accepted one, and so there is up to every occurrence behind
whose first byte no character starts. -/
def Suits (search : AliasSearch) : Prop :=
  ((∃ start, search.FreeAt start) → ∃ start, search.OccursAt start ∧ search.accepts start = true) ∧
  ∀ start, search.OccursAt start → search.isBoundary (start + 1) = false →
    ∃ other ≤ start, search.OccursAt other ∧ search.accepts other = true

end AliasSearch

open AliasSearch

/-- Both in lower case. -/
def lowered (prompt name : Bytes) : AliasSearch := ⟨toAsciiLowercase prompt, toAsciiLowercase name⟩

/-- `prompt_contains_exact_alias`. -/
def promptContainsExactAlias (prompt name : Bytes) : Option Bool :=
  (lowered prompt name).run ((lowered prompt name).prompt.length + 1) 0

end Symforge.Sidecar
