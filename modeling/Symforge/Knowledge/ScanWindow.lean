import Symforge.Knowledge.LookAheads

/-!
# What the end of the window can change

A walk that answers "no payload" has ended the expression in its window. The same walk over more
bytes takes the same steps as long as no look-ahead sees past the window, so a "no" is final when
every look-ahead on the way was decided in it. Those at an apostrophe and at a line break can be
open: then the buffer can go on so that the walk over all of it finds a payload.
-/

namespace Symforge.Knowledge

open List Bool

/-! ### The positions of a walk -/

section Positions

variable {window : Bytes} {afterClosedLiteral truncated : Bool} {index depth : Nat} {byte : UInt8}

/-- Every move goes forward. -/
theorem walkStep_move_pos {length next : Nat}
    (moved : walkStep window afterClosedLiteral index depth byte = .move length next) :
    0 < length := by
  have literal : 0 < (boundedCharLiteralLen (window.drop (index + 1))).getD 1 := by
    cases found : boundedCharLiteralLen (window.drop (index + 1)) with
    | none => exact Nat.one_pos
    | some found' =>
      have least := (charLiteralFrom_take found).1
      simp only [Option.getD_some]
      omega
  simp only [walkStep] at moved
  repeat' split at moved
  all_goals simp only [WalkStep.move.injEq, reduceCtorEq] at moved
  all_goals omega

/-- Any two amounts of fuel that cover the rest of the window give the same answer. -/
theorem walkFrom_fuel {fuel other : Nat} (enough : window.length ≤ fuel + index)
    (enough' : window.length ≤ other + index) :
    walkFrom window afterClosedLiteral truncated fuel index depth =
      walkFrom window afterClosedLiteral truncated other index depth := by
  induction fuel generalizing other index depth with
  | zero =>
    have past : window[index]? = none := getElem?_eq_none (by omega)
    cases other with
    | zero => rfl
    | succ other => simp [walkFrom, past]
  | succ fuel ih =>
    cases other with
    | zero =>
      have past : window[index]? = none := getElem?_eq_none (by omega)
      simp [walkFrom, past]
    | succ other =>
      cases here : window[index]? with
      | none => simp [walkFrom, here]
      | some byte =>
        cases round : walkStep window afterClosedLiteral index depth byte with
        | answer carries => simp [walkFrom, here, round]
        | move length next =>
          have forward := walkStep_move_pos round
          simp only [walkFrom, here, round]
          exact ih (by omega) (by omega)

/-- The expression reads up to `index` with `depth` open brackets: piece by piece, no piece fencing
a payload and no line break ending it. -/
inductive Visits (window : Bytes) (afterClosedLiteral : Bool) : (index depth : Nat) → Prop
  | start : Visits window afterClosedLiteral 0 0
  | literal {index depth skipped : Nat} {quote : UInt8} :
      Visits window afterClosedLiteral index depth → window[index]? = some quote →
      quote = 0x22 ∨ quote = 0x60 → fencesPayload quote (window.drop (index + 1)) = false →
      closingQuote quote (window.drop (index + 1)) = some skipped →
      Visits window afterClosedLiteral (index + (skipped + 2)) depth
  /-- An apostrophe alone, or the char literal that it opens. -/
  | apostrophe {index depth : Nat} :
      Visits window afterClosedLiteral index depth → window[index]? = some 0x27 →
      fencesPayload 0x27 (window.drop (index + 1)) = false →
      Visits window afterClosedLiteral
        (index + (boundedCharLiteralLen (window.drop (index + 1))).getD 1) depth
  | opened {index depth : Nat} {byte : UInt8} :
      Visits window afterClosedLiteral index depth → window[index]? = some byte →
      opensGroup byte = true → Visits window afterClosedLiteral (index + 1) (depth + 1)
  | closed {index depth : Nat} {byte : UInt8} :
      Visits window afterClosedLiteral index (depth + 1) → window[index]? = some byte →
      closesGroup byte = true → Visits window afterClosedLiteral (index + 1) depth
  /-- The group around the keyword's literal closes. -/
  | left {index : Nat} {byte : UInt8} : afterClosedLiteral = true →
      Visits window afterClosedLiteral index 0 → window[index]? = some byte →
      closesGroup byte = true → Visits window afterClosedLiteral (index + 1) 0
  | lineBreak {index : Nat} :
      Visits window afterClosedLiteral index 0 → window[index]? = some 0x0A →
      lineBreakContinuesExpression (window.take index) (window.drop (index + 1)) = true →
      Visits window afterClosedLiteral (index + 1) 0
  | other {index depth : Nat} {byte : UInt8} :
      Visits window afterClosedLiteral index depth → window[index]? = some byte →
      isQuote byte = false → opensGroup byte = false → closesGroup byte = false →
      ¬(byte = 0x0A ∧ depth = 0) → Visits window afterClosedLiteral (index + 1) depth

/-- The brackets are told apart from the quotes and from each other. -/
theorem not_quote_of_group (group : opensGroup byte = true ∨ closesGroup byte = true) :
    isQuote byte = false ∧ (closesGroup byte = true → opensGroup byte = false) := by
  revert group
  simp only [closesGroup, isQuote, opensGroup, or_eq_true, beq_iff_eq]
  rintro (((rfl | rfl) | rfl) | ((rfl | rfl) | rfl)) <;> decide

/-- What a move of the walk goes over is a piece of the expression. -/
theorem Visits.move {length next : Nat} (visited : Visits window afterClosedLiteral index depth)
    (here : window[index]? = some byte)
    (moved : walkStep window afterClosedLiteral index depth byte = .move length next) :
    Visits window afterClosedLiteral (index + length) next := by
  simp only [walkStep] at moved
  split at moved
  · rename_i quote
    split at moved
    · cases moved
    rename_i plain
    rw [not_eq_true] at plain
    split at moved
    · rename_i single
      subst single
      cases moved
      exact visited.apostrophe here plain
    rename_i double
    split at moved
    · cases moved
    rename_i skipped closed
    cases moved
    refine visited.literal here ?_ plain closed
    simpa [isQuote, double] using quote
  rename_i quote
  split at moved
  · rename_i opens
    cases moved
    exact visited.opened here opens
  rename_i opens
  split at moved
  · rename_i closes
    split at moved
    · rename_i outside
      subst outside
      split at moved
      · rename_i keeps
        cases moved
        exact .left keeps visited here closes
      · cases moved
    · rename_i inside
      cases moved
      obtain ⟨before, rfl⟩ := Nat.exists_eq_succ_of_ne_zero inside
      exact visited.closed here closes
  rename_i closes
  split at moved
  · rename_i breaks
    obtain ⟨rfl, rfl⟩ := breaks
    split at moved
    · rename_i continues
      cases moved
      exact visited.lineBreak here continues
    · cases moved
  · rename_i breaks
    cases moved
    rw [not_eq_true] at quote opens closes
    exact visited.other here quote opens closes breaks

/-- Every piece of the expression is a move of the walk. -/
@[elab_as_elim]
theorem Visits.moves {P : ∀ index depth, Visits window afterClosedLiteral index depth → Prop}
    (start : P 0 0 .start)
    (move : ∀ {index depth length next : Nat} {byte : UInt8}
      (visited : Visits window afterClosedLiteral index depth) (here : window[index]? = some byte)
      (moved : walkStep window afterClosedLiteral index depth byte = .move length next),
      P index depth visited → P (index + length) next (visited.move here moved))
    (visited : Visits window afterClosedLiteral index depth) : P index depth visited := by
  induction visited with
  | start => exact start
  | literal visited here kind plain closed ih =>
    refine move visited here ?_ ih
    rcases kind with rfl | rfl
    · simp [walkStep, isQuote, plain, closed]
    · simp [walkStep, isQuote, plain, closed]
  | apostrophe visited here plain ih =>
    refine move visited here ?_ ih
    simp [walkStep, isQuote, plain]
  | opened visited here opens ih =>
    refine move visited here ?_ ih
    simp [walkStep, not_quote_of_group (.inl opens), opens]
  | closed visited here closes ih =>
    obtain ⟨quote, opens⟩ := not_quote_of_group (.inr closes)
    refine move visited here ?_ ih
    simp [walkStep, quote, opens closes, closes]
  | left keeps visited here closes ih =>
    obtain ⟨quote, opens⟩ := not_quote_of_group (.inr closes)
    refine move visited here ?_ ih
    simp [walkStep, quote, opens closes, closes, keeps]
  | lineBreak visited here continues ih =>
    refine move visited here ?_ ih
    simp [walkStep, isQuote, opensGroup, closesGroup, continues]
  | other visited here quote opens closes breaks ih =>
    refine move visited here ?_ ih
    simp [walkStep, quote, opens, closes, breaks]

section Visited

variable (visited : Visits window afterClosedLiteral index depth)

include visited

/-- The rounds from a position that the walk visits give the walk's answer. -/
theorem walk_eq_of_visits :
    walk window afterClosedLiteral truncated =
      walkFrom window afterClosedLiteral truncated window.length index depth := by
  induction visited using Visits.moves with
  | start => rfl
  | @move index depth length next byte _ here moved ih =>
    rw [ih]
    obtain ⟨inside, -⟩ := List.getElem?_eq_some_iff.mp here
    have forward := walkStep_move_pos moved
    obtain ⟨fuel, enough⟩ : ∃ fuel, window.length = fuel + 1 := ⟨window.length - 1, by omega⟩
    have round : walkFrom window afterClosedLiteral truncated (fuel + 1) index depth =
        walkFrom window afterClosedLiteral truncated fuel (index + length) next := by
      simp [walkFrom, here, moved]
    rw [enough, round]
    exact walkFrom_fuel (by omega) (by omega)

/-- The walk ends with the step's answer. -/
theorem walk_eq_of_answer {byte : UInt8} {carries : Bool} (here : window[index]? = some byte)
    (answered : walkStep window afterClosedLiteral index depth byte = .answer carries) :
    walk window afterClosedLiteral truncated = carries := by
  rw [walk_eq_of_visits visited]
  obtain ⟨inside, -⟩ := List.getElem?_eq_some_iff.mp here
  obtain ⟨fuel, enough⟩ : ∃ fuel, window.length = fuel + 1 := ⟨window.length - 1, by omega⟩
  rw [enough]
  simp [walkFrom, here, answered]

/-- The answer at the end of the window. -/
theorem walk_eq_of_exhausted (past : window.length ≤ index) :
    walk window afterClosedLiteral truncated = (truncated || depth != 0) := by
  rw [walk_eq_of_visits visited]
  have spent : walkFrom window afterClosedLiteral truncated window.length index depth =
      walkFrom window afterClosedLiteral truncated 0 index depth :=
    walkFrom_fuel (by omega) (by omega)
  exact spent

end Visited

/-- The expression ends at `index`: outside of its brackets another one closes, or its line ends. -/
def EndsAt (window : Bytes) (afterClosedLiteral : Bool) (index : Nat) : Prop :=
  Visits window afterClosedLiteral index 0 ∧
    ((afterClosedLiteral = false ∧ ∃ byte, window[index]? = some byte ∧ closesGroup byte = true) ∨
      (window[index]? = some 0x0A ∧
        lineBreakContinuesExpression (window.take index) (window.drop (index + 1)) = false))

/-- Where the expression ends the walk answers "no". -/
theorem EndsAt.walk_eq (ends : EndsAt window afterClosedLiteral index) :
    walk window afterClosedLiteral truncated = false := by
  obtain ⟨visited, ⟨outside, byte, here, closes⟩ | ⟨here, stops⟩⟩ := ends
  · obtain ⟨quote, opens⟩ := not_quote_of_group (.inr closes)
    apply walk_eq_of_answer visited here
    simp [walkStep, quote, opens closes, closes, outside]
  · apply walk_eq_of_answer visited here
    simp [walkStep, stops, isQuote, opensGroup, closesGroup]

/-- Where the walk answers "no" the expression ends. -/
theorem Visits.endsAt (visited : Visits window afterClosedLiteral index depth)
    (here : window[index]? = some byte)
    (ended : walkStep window afterClosedLiteral index depth byte = .answer false) :
    EndsAt window afterClosedLiteral index := by
  simp only [walkStep] at ended
  repeat' split at ended
  all_goals simp only [WalkStep.answer.injEq, reduceCtorEq, true_eq_false] at ended
  · rename_i closes outside keeps
    exact ⟨outside ▸ visited, .inl ⟨not_eq_true _ ▸ keeps, _, here, closes⟩⟩
  · rename_i breaks stops
    exact ⟨breaks.2 ▸ visited, .inr ⟨breaks.1 ▸ here, not_eq_true _ ▸ stops⟩⟩

/-- A walk that answers "no" ended the expression, or read the buffer to its end. -/
theorem exists_end_of_walk (none : walk window afterClosedLiteral truncated = false) :
    (∃ stop, EndsAt window afterClosedLiteral stop) ∨ truncated = false := by
  have reach : ∀ fuel index depth, Visits window afterClosedLiteral index depth →
      walkFrom window afterClosedLiteral truncated fuel index depth = false →
      (∃ stop, EndsAt window afterClosedLiteral stop) ∨ truncated = false := by
    intro fuel
    induction fuel with
    | zero =>
      intro index depth _ answered
      exact .inr (or_eq_false_iff.mp answered).1
    | succ fuel ih =>
      intro index depth visited answered
      unfold walkFrom at answered
      cases here : window[index]? with
      | none =>
        rw [here] at answered
        exact .inr (or_eq_false_iff.mp answered).1
      | some byte =>
        rw [here] at answered
        cases round : walkStep window afterClosedLiteral index depth byte with
        | answer carries =>
          simp only [round] at answered
          rw [answered] at round
          exact .inl ⟨_, visited.endsAt here round⟩
        | move length next =>
          simp only [round] at answered
          exact ih _ _ (visited.move here round) answered
  exact reach _ 0 0 .start none

/-! ### The same walk over more bytes -/

/-- Both look-aheads at the apostrophe at `index` are decided by the window. -/
def ApostropheDecided (window : Bytes) (index : Nat) : Prop :=
  Decided (fencesPayload 0x27) (window.drop (index + 1)) ∧
    Decided boundedCharLiteralLen (window.drop (index + 1))

/-- A position of the window and what stands around it, with more bytes behind the window. -/
theorem append_at (here : window[index]? = some byte) (more : Bytes) :
    (window ++ more)[index]? = some byte ∧ (window ++ more).take index = window.take index ∧
      (window ++ more).drop (index + 1) = window.drop (index + 1) ++ more := by
  obtain ⟨inside, -⟩ := List.getElem?_eq_some_iff.mp here
  refine ⟨?_, take_append_of_le_length (by omega), drop_append_of_le_length (by omega)⟩
  rw [getElem?_append_left inside]
  exact here

/-- A move of the walk is the same over more bytes when its look-ahead is. -/
theorem walkStep_append {length next : Nat} {more : Bytes} (here : window[index]? = some byte)
    (moved : walkStep window afterClosedLiteral index depth byte = .move length next)
    (apostrophe : byte = 0x27 → ApostropheDecided window index)
    (line : byte = 0x0A → depth = 0 →
      lineBreakContinuesExpression (window.take index) (window.drop (index + 1)) = true →
      lineBreakContinuesExpression (window.take index) (window.drop (index + 1) ++ more) = true) :
    walkStep (window ++ more) afterClosedLiteral index depth byte = .move length next := by
  obtain ⟨-, front, behind⟩ := append_at here more
  simp only [walkStep, behind, front] at moved ⊢
  by_cases quote : isQuote byte = true
  · simp only [quote, ↓reduceIte] at moved ⊢
    by_cases fence : fencesPayload byte (window.drop (index + 1)) = true
    · simp [fence] at moved
    by_cases single : byte = 0x27
    · subst single
      obtain ⟨run, literal⟩ := apostrophe rfl
      rw [run _, literal _]
      exact moved
    simp only [fence, single, ↓reduceIte] at moved ⊢
    cases closed : closingQuote byte (window.drop (index + 1)) with
    | none => simp [closed] at moved
    | some skipped =>
      have ends : isPayload byte = false := by simp [isPayload, quote]
      have run : fencesPayload byte (window.drop (index + 1) ++ more) =
          fencesPayload byte (window.drop (index + 1)) :=
        fencesPayload_decided (closingQuote_mem closed) ends more
      simp only [run, fence, closingQuote_append closed more, closed] at moved ⊢
      exact moved
  · rw [if_neg quote] at moved ⊢
    by_cases opens : opensGroup byte = true
    · rw [if_pos opens] at moved ⊢
      exact moved
    by_cases closes : closesGroup byte = true
    · rw [if_neg opens, if_pos closes] at moved ⊢
      exact moved
    rw [if_neg opens, if_neg closes] at moved ⊢
    by_cases breaks : byte = 0x0A ∧ depth = 0
    · rw [if_pos breaks] at moved ⊢
      by_cases continues :
          lineBreakContinuesExpression (window.take index) (window.drop (index + 1)) = true
      · rw [if_pos (line breaks.1 breaks.2 continues)]
        rw [if_pos continues] at moved
        exact moved
      · rw [if_neg continues] at moved
        cases moved
    · rw [if_neg breaks] at moved ⊢
      exact moved

/-- Over more bytes the walk visits the same positions, unless they make a line break on the way the
end of the expression. -/
theorem Visits.append (more : Bytes) (visited : Visits window afterClosedLiteral index depth)
    (apostrophes : ∀ earlier depth, Visits window afterClosedLiteral earlier depth →
      earlier < index → window[earlier]? = some 0x27 → ApostropheDecided window earlier) :
    Visits (window ++ more) afterClosedLiteral index depth ∨
      ∃ earlier, earlier < index ∧ Visits (window ++ more) afterClosedLiteral earlier 0 ∧
        window[earlier]? = some 0x0A ∧
        lineBreakContinuesExpression (window.take earlier) (window.drop (earlier + 1)) = true ∧
        lineBreakContinuesExpression (window.take earlier)
          (window.drop (earlier + 1) ++ more) = false := by
  induction visited using Visits.moves with
  | start => exact .inl .start
  | @move index depth length next byte visited here moved ih =>
    have forward := walkStep_move_pos moved
    cases ih (fun earlier depth reached ahead => apostrophes _ _ reached (by omega)) with
    | inr stopped =>
      obtain ⟨earlier, ahead, stopped⟩ := stopped
      exact .inr ⟨_, by omega, stopped⟩
    | inl before =>
      by_cases line : byte = 0x0A ∧ depth = 0 ∧
          lineBreakContinuesExpression (window.take index) (window.drop (index + 1)) = true ∧
          lineBreakContinuesExpression (window.take index)
            (window.drop (index + 1) ++ more) = false
      · obtain ⟨rfl, rfl, turned⟩ := line
        exact .inr ⟨_, by omega, before, here, turned⟩
      apply Or.inl
      apply before.move (append_at here _).1
      apply walkStep_append here moved
      · intro single
        subst single
        exact apostrophes _ _ visited (by omega) here
      · intro newline outside continues
        by_contra turned
        exact line ⟨newline, outside, continues, not_eq_true _ ▸ turned⟩

/-- The window decides the look-aheads up to the end of the expression, if it ends in it: at every
apostrophe, and at the line break where it ends. -/
def DecidedWithin (window : Bytes) (afterClosedLiteral : Bool) : Prop :=
  ∀ stop, EndsAt window afterClosedLiteral stop →
    (∀ index depth, Visits window afterClosedLiteral index depth → window[index]? = some 0x27 →
      ApostropheDecided window index) ∧
    (window[stop]? = some 0x0A →
      Decided (lineBreakContinuesExpression (window.take stop)) (window.drop (stop + 1)))

/-- A "no" that the window decides is the answer over every continuation. -/
theorem walk_append_of_decided {more : Bytes} (decided : DecidedWithin window afterClosedLiteral)
    (no : walk window afterClosedLiteral true = false) :
    walk (window ++ more) afterClosedLiteral false = false := by
  obtain ⟨stop, ends⟩ := (exists_end_of_walk no).resolve_right nofun
  obtain ⟨apostrophes, line⟩ := decided _ ends
  obtain ⟨visited, kind⟩ := ends
  cases visited.append more fun index depth reached _ => apostrophes _ _ reached with
  | inr turned =>
    obtain ⟨earlier, -, reached, newline, -, stops⟩ := turned
    obtain ⟨place, front, behind⟩ := append_at newline more
    have ends : EndsAt (window ++ more) afterClosedLiteral earlier := by
      refine ⟨reached, .inr ⟨place, ?_⟩⟩
      rw [front, behind]
      exact stops
    exact ends.walk_eq
  | inl reached =>
    have ends : EndsAt (window ++ more) afterClosedLiteral stop := by
      refine ⟨reached, kind.imp ?_ ?_⟩
      · rintro ⟨outside, byte, here, closes⟩
        exact ⟨outside, byte, (append_at here more).1, closes⟩
      · rintro ⟨here, stops⟩
        obtain ⟨place, front, behind⟩ := append_at here more
        rw [front, behind, line here _]
        exact ⟨place, stops⟩
    exact ends.walk_eq

/-! ### Windows whose look-aheads are open -/

/-- The step at an apostrophe. -/
theorem walkStep_apostrophe : walkStep window afterClosedLiteral index depth 0x27 =
    if fencesPayload 0x27 (window.drop (index + 1)) then .answer true
    else .move ((boundedCharLiteralLen (window.drop (index + 1))).getD 1) depth := rfl

/-- A buffer that ends with an opening bracket of the expression is not exempt. -/
theorem walk_of_open_bracket {text : Bytes}
    (visited : Visits (text ++ [0x28]) afterClosedLiteral text.length depth) :
    walk (text ++ [0x28]) afterClosedLiteral false = true := by
  have last : Visits (text ++ [0x28]) afterClosedLiteral (text.length + 1) (depth + 1) :=
    visited.move getElem?_concat_length rfl
  rw [walk_eq_of_exhausted last (by simp)]
  simp

section Apostrophes

variable (visited : Visits window afterClosedLiteral index depth)
  (here : window[index]? = some 0x27)
  (apostrophes : ∀ earlier depth, Visits window afterClosedLiteral earlier depth →
    earlier < index → window[earlier]? = some 0x27 → ApostropheDecided window earlier)

include visited here apostrophes

/-- Nothing behind the window changes the way to an apostrophe of it. -/
theorem Visits.append_apostrophe (more : Bytes) :
    Visits (window ++ more) afterClosedLiteral index depth := by
  refine (visited.append _ apostrophes).resolve_right ?_
  rintro ⟨earlier, ahead, -, -, continues, stops⟩
  obtain ⟨inside, found⟩ := List.getElem?_eq_some_iff.mp here
  have member : 0x27 ∈ window.drop (earlier + 1) := by
    rw [mem_drop_iff_getElem]
    have offset : earlier + 1 + (index - (earlier + 1)) = index := by omega
    exact ⟨index - (earlier + 1), by omega, by simp [offset, found]⟩
  rw [lineBreak_continues_append continues (opensComment_of_apostrophe member)] at stops
  cases stops

/-- A payload run or a char literal that is cut can go on so that the walk finds a payload. -/
theorem exists_append_of_apostrophe (cut : ¬ApostropheDecided window index) :
    ∃ more, more ≠ [] ∧ walk (window ++ more) afterClosedLiteral false = true := by
  by_cases run : Decided (fencesPayload 0x27) (window.drop (index + 1))
  · have literal : ¬Decided boundedCharLiteralLen (window.drop (index + 1)) := fun decided =>
      cut ⟨run, decided⟩
    obtain ⟨rest, length, size, closed⟩ := exists_literal_of_cut literal
    have total : window.length = index + 1 + (window.drop (index + 1)).length := by
      have inside := (List.getElem?_eq_some_iff.mp here).1
      rw [length_drop]
      omega
    -- The literal goes on behind the window up to its apostrophe, and a bracket opens behind it.
    have reached := visited.append_apostrophe here apostrophes (rest ++ [0x28])
    obtain ⟨place, -, behind⟩ := append_at here (rest ++ [0x28])
    refine ⟨rest ++ [0x28], by simp, ?_⟩
    by_cases fence : fencesPayload 0x27 (window.drop (index + 1) ++ (rest ++ [0x28])) = true
    · apply walk_eq_of_answer reached place
      rw [walkStep_apostrophe, behind, if_pos fence]
    have skip : Visits (window ++ (rest ++ [0x28])) afterClosedLiteral (index + length)
        depth := by
      apply reached.move place
      rw [walkStep_apostrophe, behind, if_neg fence, ← append_assoc, closed]
      rfl
    have last : (window ++ rest).length = index + length := by
      rw [length_append]
      omega
    rw [← last, ← append_assoc] at skip
    rw [← append_assoc]
    exact walk_of_open_bracket skip
  · have all : ∀ byte ∈ window.drop (index + 1), isPayload byte = true := by
      intro byte member
      by_contra ends
      exact run (fencesPayload_decided member (not_eq_true _ ▸ ends))
    refine ⟨replicate 8 0x61 ++ [0x27], by simp, ?_⟩
    obtain ⟨place, -, behind⟩ := append_at here (replicate 8 0x61 ++ [0x27])
    apply walk_eq_of_answer (visited.append_apostrophe here apostrophes _) place
    rw [walkStep_apostrophe, behind, if_pos (fencesPayload_of_cut (by decide) all)]

end Apostrophes

/-- Whitespace in front of a dot does not stop a walk. -/
theorem walkStep_whitespace (white : isAsciiWhitespace byte = true)
    (dot : trimAsciiStart (window.drop (index + 1)) = [0x2E, 0x28]) :
    walkStep window afterClosedLiteral index 0 byte = .move 1 0 := by
  have continues :
      lineBreakContinuesExpression (window.take index) (window.drop (index + 1)) = true := by
    simp [lineBreakContinuesExpression, dot, opensComment, continuationBytes]
  simp only [isAsciiWhitespace, or_eq_true, beq_iff_eq] at white
  rcases white with (((rfl | rfl) | rfl) | rfl) | rfl
  · rfl
  · rfl
  · simp [walkStep, continues, isQuote, opensGroup, closesGroup]
  · rfl
  · rfl

/-- The expression goes on over blanks. -/
theorem Visits.over_whitespace {left : Nat}
    (visited : Visits (window ++ [0x2E, 0x28]) afterClosedLiteral index 0)
    (rest : index + left = window.length)
    (blank : ∀ byte ∈ window.drop index, isAsciiWhitespace byte = true) :
    Visits (window ++ [0x2E, 0x28]) afterClosedLiteral window.length 0 := by
  induction left generalizing index with
  | zero =>
    rw [← rest]
    exact visited
  | succ left ih =>
    have room : index < window.length := by omega
    have split : window.drop index = window[index] :: window.drop (index + 1) :=
      drop_eq_getElem_cons room
    rw [split] at blank
    obtain ⟨here, later⟩ := forall_mem_cons.mp blank
    obtain ⟨place, -, behind⟩ := append_at (getElem?_eq_getElem room) [0x2E, 0x28]
    have dot : trimAsciiStart ((window ++ [0x2E, 0x28]).drop (index + 1)) = [0x2E, 0x28] := by
      rw [behind]
      unfold trimAsciiStart
      rw [dropWhile_append_of_pos later]
      rfl
    exact ih (visited.move place (walkStep_whitespace here dot)) (by omega) later

/-- A line break whose next line is cut can go on so that the walk finds an open bracket. -/
theorem exists_append_of_line (ends : EndsAt window afterClosedLiteral index)
    (here : window[index]? = some 0x0A)
    (apostrophes : ∀ earlier depth, Visits window afterClosedLiteral earlier depth →
      window[earlier]? = some 0x27 → ApostropheDecided window earlier)
    (cut : ¬Decided (lineBreakContinuesExpression (window.take index))
      (window.drop (index + 1))) :
    ∃ more, more ≠ [] ∧ walk (window ++ more) afterClosedLiteral false = true := by
  obtain ⟨visited, kind⟩ := ends
  have stops : lineBreakContinuesExpression (window.take index) (window.drop (index + 1)) =
      false := by
    rcases kind with ⟨-, byte, same, closes⟩ | ⟨-, stops⟩
    · obtain rfl : 0x0A = byte := Option.some.inj (here.symm.trans same)
      cases closes
    · exact stops
  have blank : ∀ byte ∈ window.drop (index + 1), isAsciiWhitespace byte = true := by
    intro byte member
    by_contra solid
    exact cut (lineBreak_decided member (not_eq_true _ ▸ solid) stops)
  have reached : Visits (window ++ [0x2E, 0x28]) afterClosedLiteral index 0 := by
    refine Or.resolve_right
      (visited.append _ fun earlier depth seen _ => apostrophes _ _ seen) ?_
    rintro ⟨earlier, -, -, -, continues, turned⟩
    rw [lineBreak_continues_append continues opensComment_of_dot] at turned
    cases turned
  have room := (List.getElem?_eq_some_iff.mp here).1
  have white : ∀ byte ∈ window.drop index, isAsciiWhitespace byte = true := by
    rw [drop_eq_getElem_cons room, (List.getElem?_eq_some_iff.mp here).2]
    exact forall_mem_cons.mpr ⟨rfl, blank⟩
  have last : Visits (window ++ [0x2E, 0x28]) afterClosedLiteral window.length 0 :=
    reached.over_whitespace (Nat.add_sub_cancel' room.le) white
  have place : (window ++ [0x2E, 0x28])[window.length]? = some 0x2E := by simp
  have dot : Visits (window ++ [0x2E, 0x28]) afterClosedLiteral (window.length + 1) 0 :=
    last.move place rfl
  refine ⟨[0x2E, 0x28], by simp, ?_⟩
  have text : window ++ [0x2E, 0x28] = (window ++ [0x2E]) ++ [0x28] := by simp
  rw [text] at dot ⊢
  exact walk_of_open_bracket (by simpa using dot)

/-- A "no" of a cut window is the answer over all continuations exactly when the window decides the
look-aheads on the way to it. -/
theorem walk_append_iff_decided :
    (∀ more : Bytes, more ≠ [] → walk window afterClosedLiteral true = false →
      walk (window ++ more) afterClosedLiteral false = false) ↔
    DecidedWithin window afterClosedLiteral := by
  constructor
  · intro final stop ends
    have never : ¬∃ more, more ≠ [] ∧ walk (window ++ more) afterClosedLiteral false = true := by
      rintro ⟨more, some, carries⟩
      rw [final _ some ends.walk_eq] at carries
      cases carries
    have apostrophes : ∀ index depth, Visits window afterClosedLiteral index depth →
        window[index]? = some 0x27 → ApostropheDecided window index := by
      intro index
      induction index using Nat.strong_induction_on with
      | _ index ih =>
        intro depth reached here
        by_contra cut
        exact never (exists_append_of_apostrophe reached here
          (fun earlier depth seen ahead => ih _ ahead _ seen) cut)
    refine ⟨apostrophes, fun here => ?_⟩
    by_contra cut
    exact never (exists_append_of_line ends here apostrophes cut)
  · intro decided more _ no
    exact walk_append_of_decided decided no

end Positions

/-! ### The bound of the scan -/

/-- A scan that cuts nothing off walks over the rest of the buffer. -/
theorem carriesQuotedPayloadWithin_whole {bound : Nat} {bytes : Bytes} {start : Nat}
    (afterClosedLiteral : Bool) (whole : bytes.length ≤ start + bound) :
    carriesQuotedPayloadWithin bound bytes start afterClosedLiteral =
      walk (bytes.drop start) afterClosedLiteral false := by
  unfold carriesQuotedPayloadWithin
  simp [Nat.min_eq_right whole]

/-- A scan that cuts something off walks over what is in front of its bound. -/
theorem carriesQuotedPayloadWithin_cut {front more : Bytes} {start bound : Nat}
    (afterClosedLiteral : Bool) (size : front.length = start + bound) (some : more ≠ []) :
    carriesQuotedPayloadWithin bound (front ++ more) start afterClosedLiteral =
      walk (front.drop start) afterClosedLiteral true := by
  have longer := length_pos_iff.mpr some
  unfold carriesQuotedPayloadWithin
  dsimp only
  rw [length_append, size, Nat.min_eq_left (by omega), take_left' size, decide_eq_true (by omega)]

/-- The scan reads the bytes up to its bound and whether there are more. It hides no payload in any
buffer that it cannot tell from this one exactly when nothing is cut off, or the window decides
every look-ahead up to the end of the expression. -/
theorem scanBound_hides_nothing_iff (bytes : Bytes) (start bound : Nat)
    (afterClosedLiteral : Bool) :
    (∀ other : Bytes, other.take (start + bound) = bytes.take (start + bound) →
      (start + bound < other.length ↔ start + bound < bytes.length) →
      carriesQuotedPayloadWithin bound other start afterClosedLiteral = false →
      carriesQuotedPayloadWithin other.length other start afterClosedLiteral = false) ↔
    bytes.length ≤ start + bound ∨
      DecidedWithin ((bytes.take (start + bound)).drop start) afterClosedLiteral := by
  by_cases whole : bytes.length ≤ start + bound
  · refine iff_of_true (fun other _ cut no => ?_) (.inl whole)
    rw [carriesQuotedPayloadWithin_whole _ (by omega)] at no ⊢
    exact no
  rw [or_iff_right whole, ← walk_append_iff_decided]
  have size : (bytes.take (start + bound)).length = start + bound := by
    rw [length_take]
    omega
  generalize bytes.take (start + bound) = front at size
  have all (more : Bytes) : carriesQuotedPayloadWithin (front ++ more).length (front ++ more) start
      afterClosedLiteral = walk (front.drop start ++ more) afterClosedLiteral false := by
    rw [carriesQuotedPayloadWithin_whole _ (by omega), drop_append_of_le_length (by omega)]
  constructor
  · intro final more some no
    have longer := length_pos_iff.mpr some
    rw [← all]
    apply final
    · exact take_left' size
    · rw [length_append, size]
      omega
    · rw [carriesQuotedPayloadWithin_cut _ size some]
      exact no
  · -- A buffer that the scan cannot tell apart is what is in front of the bound and more.
    intro final other same cut no
    obtain ⟨more, some, rfl⟩ : ∃ more, more ≠ [] ∧ front ++ more = other := by
      refine ⟨other.drop (start + bound), ?_, ?_⟩
      · rw [ne_eq, drop_eq_nil_iff]
        omega
      · rw [← same, take_append_drop]
    rw [carriesQuotedPayloadWithin_cut _ size some] at no
    rw [all]
    exact final _ some no

/-- A method chain behind a string of 509 blanks: the window of 512 bytes ends with the line break,
and `.f("ssssssss")` leads the next line. -/
def wrappedChain : Bytes :=
  0x22 :: replicate 509 0x20 ++ 0x22 :: 0x0A :: 0x2E :: 0x66 :: 0x28 :: 0x22 ::
    (replicate 8 0x73 ++ [0x22, 0x29])

/-- The bound of the source hides a payload. -/
theorem scanBound_hides_wrappedChain :
    expressionCarriesQuotedPayload wrappedChain 0 false = false ∧
      carriesQuotedPayloadWithin wrappedChain.length wrappedChain 0 false = true := by
  constructor
  · decide +kernel
  · decide +kernel

end Symforge.Knowledge
