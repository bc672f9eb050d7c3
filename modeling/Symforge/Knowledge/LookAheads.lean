import Mathlib.Data.List.TakeWhile
import Symforge.Knowledge.ExpressionWalk

/-!
# Look-aheads of the walk and the bytes behind them

What a look-ahead tells about the bytes seen is decided when no continuation of them changes it.
For each look-ahead of the walk: when the bytes seen decide it, and how they can go on when they do
not.
-/

namespace Symforge.Knowledge

open List Option

variable {seen : Bytes} {quote byte : UInt8}

/-- No continuation of the bytes seen changes what `look` tells about them. -/
def Decided {Answer : Type} (look : Bytes → Answer) (seen : Bytes) : Prop :=
  ∀ more, look (seen ++ more) = look seen

/-- A byte that ends the run decides the fence. -/
theorem fencesPayload_decided (member : byte ∈ seen) (ends : isPayload byte = false) :
    Decided (fencesPayload quote) seen := by
  intro more
  have cut : ¬∀ other ∈ seen, isPayload other = true := by
    intro all
    rw [all _ member] at ends
    cases ends
  have run : (seen ++ more).takeWhile isPayload = seen.takeWhile isPayload := by
    rw [takeWhile_append, if_neg]
    intro whole
    apply cut
    have front : seen.takeWhile isPayload <+: seen := takeWhile_prefix _
    exact takeWhile_eq_self_iff.mp (front.eq_of_length whole)
  have nonempty : seen.dropWhile isPayload ≠ [] := fun empty =>
    cut (dropWhile_eq_nil_iff.mp empty)
  have rest : (seen ++ more).dropWhile isPayload = seen.dropWhile isPayload ++ more := by
    rw [dropWhile_append, if_neg]
    simpa using nonempty
  unfold fencesPayload
  rw [run, rest, head?_append_of_ne_nil _ nonempty]

/-- A run that the end of the window cuts can go on to a payload. -/
theorem fencesPayload_of_cut (fence : isQuote quote = true)
    (all : ∀ byte ∈ seen, isPayload byte = true) :
    fencesPayload quote (seen ++ (replicate 8 0x61 ++ [quote])) = true := by
  have ends : isPayload quote = false := by
    unfold isPayload
    rw [fence]
    rfl
  have letters : ∀ byte ∈ replicate 8 (0x61 : UInt8), isPayload byte = true := by
    intro byte member
    rw [eq_of_mem_replicate member]
    decide
  have run : (seen ++ (replicate 8 0x61 ++ [quote])).takeWhile isPayload =
      seen ++ replicate 8 0x61 := by
    rw [takeWhile_append_of_pos all, takeWhile_append_of_pos letters,
      takeWhile_cons_of_neg (by simp [ends]), append_nil]
  have rest : (seen ++ (replicate 8 0x61 ++ [quote])).dropWhile isPayload = [quote] := by
    rw [dropWhile_append_of_pos all, dropWhile_append_of_pos letters,
      dropWhile_cons_of_neg (by simp [ends])]
  unfold fencesPayload
  rw [run, rest]
  simp [contextAssignmentMinPayload]

/-- More text does not move the closing quote. -/
theorem closingQuote_append {skipped : Nat} (closed : closingQuote quote seen = some skipped)
    (more : Bytes) :
    closingQuote quote (seen ++ more) = some skipped := by
  fun_induction closingQuote quote seen generalizing skipped with
  | case1 | case2 => cases closed
  | case3 escaped rest ih =>
    obtain ⟨inner, found, rfl⟩ := map_eq_some_iff.mp closed
    simp [cons_append, closingQuote, ↓reduceIte, ih found, map_some]
  | case4 rest plain =>
    rw [cons_append, closingQuote.eq_def]
    simp [plain, ↓reduceIte, closed]
  | case5 byte rest plain other ih =>
    obtain ⟨inner, found, rfl⟩ := map_eq_some_iff.mp closed
    rw [cons_append, closingQuote.eq_def]
    simp [plain, other, ↓reduceIte, ih found, map_some]

/-- The closing quote is in the text. -/
theorem closingQuote_mem {skipped : Nat} (closed : closingQuote quote seen = some skipped) :
    quote ∈ seen := by
  fun_induction closingQuote quote seen generalizing skipped with
  | case1 | case2 => cases closed
  | case3 escaped rest ih =>
    obtain ⟨inner, found, -⟩ := map_eq_some_iff.mp closed
    exact mem_cons_of_mem _ (mem_cons_of_mem _ (ih found))
  | case4 => exact mem_cons_self
  | case5 byte rest _ _ ih =>
    obtain ⟨inner, found, -⟩ := map_eq_some_iff.mp closed
    exact mem_cons_of_mem _ (ih found)

/-- A char literal that is found depends on the bytes up to its closing apostrophe alone. -/
theorem charLiteralFrom_take {offset length : Nat} {carriesBracket : Bool} {text : Bytes}
    (found : charLiteralFrom offset carriesBracket text = some length) :
    offset + 2 ≤ length ∧ length ≤ text.length + offset + 1 ∧
      ∀ more, charLiteralFrom offset carriesBracket
        (text.take (length - offset - 1) ++ more) = some length := by
  fun_induction charLiteralFrom offset carriesBracket text generalizing length with
  | case1 | case2 | case3 | case5 | case7 => cases found
  | case4 offset carriesBracket near escaped rest ih =>
    obtain ⟨least, most, same⟩ := ih found
    refine ⟨by omega, by simp only [length_cons]; omega, fun more => ?_⟩
    obtain ⟨count, enough⟩ : ∃ count, length - offset - 1 = count + 2 :=
      ⟨length - offset - 3, by omega⟩
    have fewer : length - (offset + 2) - 1 = count := by omega
    rw [enough, take_succ_cons, take_succ_cons, cons_append, cons_append, charLiteralFrom.eq_def]
    simp only [near, ↓reduceIte]
    rw [← fewer]
    exact same _
  | case6 offset byte rest near _ _ closes =>
    cases found
    refine ⟨by omega, by simp only [length_cons]; omega, fun more => ?_⟩
    have one : offset + 2 - offset - 1 = 1 := by omega
    rw [one, take_succ_cons, cons_append, charLiteralFrom.eq_def]
    simp [near, closes]
  | case8 offset carriesBracket byte rest near plain line closes ih =>
    obtain ⟨least, most, same⟩ := ih found
    refine ⟨by omega, by simp only [length_cons]; omega, fun more => ?_⟩
    obtain ⟨count, enough⟩ : ∃ count, length - offset - 1 = count + 1 :=
      ⟨length - offset - 2, by omega⟩
    have fewer : length - (offset + 1) - 1 = count := by omega
    rw [enough, take_succ_cons, cons_append, charLiteralFrom.eq_def]
    simp only [near, plain, line, closes, ↓reduceIte]
    rw [← fewer]
    exact same _

variable {more : Bytes}

/-- A char literal that ends inside the window is the same in every continuation. -/
theorem boundedCharLiteralLen_append {length : Nat}
    (found : boundedCharLiteralLen seen = some length) :
    boundedCharLiteralLen (seen ++ more) = some length := by
  obtain ⟨-, -, same⟩ := charLiteralFrom_take found
  have whole := same (seen.drop (length - 0 - 1) ++ more)
  rw [← append_assoc, take_append_drop] at whole
  exact whole

/-- A char literal that the end of the window cuts can go on to its closing apostrophe. -/
theorem exists_literal_of_cut (cut : ¬Decided boundedCharLiteralLen seen) :
    ∃ rest length, length = seen.length + rest.length + 1 ∧
      ∀ more, boundedCharLiteralLen (seen ++ rest ++ more) = some length := by
  obtain ⟨more, changed⟩ := not_forall.mp cut
  have before : boundedCharLiteralLen seen = none := by
    cases found : boundedCharLiteralLen seen with
    | none => rfl
    | some length =>
      rw [boundedCharLiteralLen_append found, found] at changed
      exact absurd rfl changed
  rw [before] at changed
  obtain ⟨length, after⟩ := ne_none_iff_exists'.mp changed
  obtain ⟨least, most, same⟩ := charLiteralFrom_take after
  rw [length_append] at most
  have past : seen.length < length - 1 := by
    by_contra short
    have again : boundedCharLiteralLen _ = _ := same (seen.drop (length - 0 - 1))
    rw [take_append_of_le_length (by omega), take_append_drop, before] at again
    cases again
  have front : (seen ++ more).take (length - 0 - 1) =
      seen ++ more.take (length - 1 - seen.length) := by
    rw [take_append, take_of_length_le (by omega)]
    rfl
  refine ⟨more.take (length - 1 - seen.length), length, ?_, ?_⟩
  · rw [length_take]
    omega
  · rw [← front]
    exact same

/-- Trimming keeps what is no blank. -/
theorem mem_trimAsciiStart (member : byte ∈ seen) (solid : isAsciiWhitespace byte = false) :
    byte ∈ trimAsciiStart seen := by
  rw [← takeWhile_append_dropWhile (p := isAsciiWhitespace) (l := seen), mem_append] at member
  refine member.resolve_left fun blank => ?_
  have white := mem_takeWhile_imp blank
  rw [solid] at white
  cases white

/-- Once it has begun, more text follows. -/
theorem trimAsciiStart_append (begun : trimAsciiStart seen ≠ []) :
    trimAsciiStart (seen ++ more) = trimAsciiStart seen ++ more := by
  unfold trimAsciiStart at begun ⊢
  rw [dropWhile_append, if_neg]
  simpa using begun

/-- More text still opens the comment. -/
theorem opensComment_append {nextLine : Bytes} (opens : opensComment nextLine = true) :
    opensComment (nextLine ++ more) = true := by
  simp only [opensComment, Bool.or_eq_true, isPrefixOf_iff_prefix] at opens ⊢
  exact opens.imp (·.trans (prefix_append _ _)) (·.trans (prefix_append _ _))

/-- A line break that ends the expression does so for good once the next line has begun. -/
theorem lineBreak_decided {before : Bytes} (member : byte ∈ seen)
    (solid : isAsciiWhitespace byte = false)
    (ends : lineBreakContinuesExpression before seen = false) :
    Decided (lineBreakContinuesExpression before) seen := by
  intro more
  have begun : trimAsciiStart seen ≠ [] := ne_nil_of_mem (mem_trimAsciiStart member solid)
  rw [ends]
  unfold lineBreakContinuesExpression at ends ⊢
  simp only [trimAsciiStart_append begun, head?_append_of_ne_nil _ begun] at ends ⊢
  by_cases comma : trailingByte before = some 0x2C
  · by_cases comment : opensComment (trimAsciiStart seen) = true
    · rw [if_pos ⟨comma, opensComment_append comment⟩]
    rw [if_neg fun both => comment both.2, comma] at ends
    simp [continuationBytes] at ends
  · rw [if_neg fun both => comma both.1] at ends ⊢
    exact ends

/-- A line break still does not end the expression unless the bytes behind make a comment of the
next line. -/
theorem lineBreak_continues_append {before : Bytes}
    (continues : lineBreakContinuesExpression before seen = true)
    (plain : opensComment (trimAsciiStart (seen ++ more)) = true →
      opensComment (trimAsciiStart seen) = true) :
    lineBreakContinuesExpression before (seen ++ more) = true := by
  unfold lineBreakContinuesExpression at continues ⊢
  by_cases comma : trailingByte before = some 0x2C
  · by_cases comment : opensComment (trimAsciiStart seen) = true
    · rw [if_pos ⟨comma, comment⟩] at continues
      cases continues
    · rw [if_neg fun both => comment (plain both.2), comma]
      simp [continuationBytes]
  · rw [if_neg fun both => comma both.1, Bool.or_eq_true] at continues ⊢
    refine continues.imp_right fun leads => ?_
    have begun : trimAsciiStart seen ≠ [] := by
      intro empty
      rw [empty] at leads
      cases leads
    rw [trimAsciiStart_append begun, head?_append_of_ne_nil _ begun]
    exact leads

/-- The bytes that open a comment are in the window when an apostrophe behind them is. -/
theorem opensComment_of_apostrophe (member : 0x27 ∈ seen)
    (opens : opensComment (trimAsciiStart (seen ++ more)) = true) :
    opensComment (trimAsciiStart seen) = true := by
  have inside := mem_trimAsciiStart member (by decide)
  rw [trimAsciiStart_append (ne_nil_of_mem inside)] at opens
  revert inside opens
  match trimAsciiStart seen with
  | [] => simp
  | [only] =>
    intro opens inside
    obtain rfl := mem_singleton.mp inside
    simp [opensComment] at opens
  | first :: second :: rest =>
    intro opens _
    simpa [opensComment] using opens

/-- A dot and an opening bracket make no comment of any line. -/
theorem opensComment_of_dot (opens : opensComment (trimAsciiStart (seen ++ [0x2E, 0x28])) = true) :
    opensComment (trimAsciiStart seen) = true := by
  by_cases begun : trimAsciiStart seen = []
  · unfold trimAsciiStart at begun opens
    rw [dropWhile_append, begun, if_pos isEmpty_nil] at opens
    cases opens
  · rw [trimAsciiStart_append begun] at opens
    revert opens
    match trimAsciiStart seen with
    | [] => simp [opensComment]
    | [only] => simp [opensComment]
    | first :: second :: rest => simp [opensComment]

end Symforge.Knowledge
