import Symforge.Edit.EditWithin
import Symforge.Utf8

/-!
# Texts with one kind of line terminator

A text of the `\n` style has no `\r`; a text of the `\r\n` style is read by a two-state machine that
waits for a `\n` after every `\r` and accepts a `\n` only then. A splice keeps the style exactly
when the new piece leads from the state in front of the old one to the state behind it.
-/

namespace Symforge.Edit

open List Option

variable {text : Bytes}

/-! ### Terminators -/

/-- What ends a line. -/
inductive Terminator where
  | lf
  | crLf
  | cr
  deriving DecidableEq, Repr

/-- The end of a line in that style. -/
def LineEnding.terminator : LineEnding → Terminator
  | .lf => .lf
  | .crLf => .crLf

/-- The line terminators of a text: `\r\n` pairs, and `\n` and `\r` outside of them. -/
def terminators : Bytes → List Terminator
  | [] => []
  | [byte] => if byte = 0x0A then [.lf] else if byte = 0x0D then [.cr] else []
  | first :: second :: rest =>
    if first = 0x0D ∧ second = 0x0A then .crLf :: terminators rest
    else if first = 0x0A then .lf :: terminators (second :: rest)
    else if first = 0x0D then .cr :: terminators (second :: rest)
    else terminators (second :: rest)

/-- All line terminators are of one style. -/
def Uniform (lineEnding : LineEnding) (text : Bytes) : Prop :=
  ∀ terminator ∈ terminators text, terminator = lineEnding.terminator

instance (lineEnding : LineEnding) (text : Bytes) : Decidable (Uniform lineEnding text) :=
  inferInstanceAs (Decidable (∀ terminator ∈ terminators text, terminator = lineEnding.terminator))

/-- No carriage return in the text. -/
theorem uniform_lf_iff : Uniform .lf text ↔ 0x0D ∉ text := by
  unfold Uniform LineEnding.terminator
  fun_induction terminators text with
  | case1 | case2 | case3 | case7 => simp
  | case4 byte _ other => simp [Ne.symm other]
  | case5 first second rest pair => simp [pair]
  | case6 second rest _ ih =>
    rw [forall_mem_cons, ih, mem_cons, not_or]
    simp
  | case8 first second rest _ _ other ih => simp [ih, Ne.symm other]

/-! ### The machine of the pairs -/

/-- One byte of a text of the `\r\n` style; the state tells that a `\r` waits for its `\n`. -/
def pairStep (waits : Bool) (byte : UInt8) : Option Bool :=
  if waits then if byte = 0x0A then some false else none
  else if byte = 0x0A then none else some (byte == 0x0D)

/-- Reading a text, pair by pair. -/
def pairRun : Bool → Bytes → Option Bool
  | waits, [] => some waits
  | waits, byte :: rest => (pairStep waits byte).bind (pairRun · rest)

/-- Reading goes on behind the front. -/
theorem pairRun_append (waits : Bool) (front back : Bytes) :
    pairRun waits (front ++ back) = (pairRun waits front).bind (pairRun · back) := by
  induction front generalizing waits with
  | nil => rfl
  | cons byte rest ih =>
    rw [cons_append, pairRun, pairRun, bind_assoc]
    congr 1
    funext next
    exact ih _

/-- The text reads in whole pairs. -/
theorem uniform_crLf_iff : Uniform .crLf text ↔ pairRun false text = some false := by
  unfold Uniform LineEnding.terminator
  fun_induction terminators text with
  | case1 => simp [pairRun]
  | case2 | case3 | case6 => simp [pairRun, pairStep]
  | case4 byte lineFeed other => simp [lineFeed, other, pairRun, pairStep]
  | case5 first second rest pair ih => simp [pair, pairRun, pairStep, ih]
  | case7 second rest unpaired =>
    have unlike : second ≠ 0x0A := fun lineFeed => unpaired ⟨rfl, lineFeed⟩
    simp [pairRun, pairStep, unlike]
  | case8 first second rest _ lineFeed other ih =>
    rw [ih, pairRun.eq_def false (first :: second :: rest)]
    simp [pairStep, lineFeed, beq_false_of_ne other]

/-- Reading one text from two states to one end, the states are the same. -/
theorem pairRun_end {one other stop : Bool} (left : pairRun one text = some stop)
    (right : pairRun other text = some stop) : one = other := by
  cases text with
  | nil => exact (some.inj left).trans (some.inj right).symm
  | cons byte rest =>
    cases one <;> cases other <;> first | rfl | skip
    all_goals
      by_cases lineFeed : byte = 0x0A <;> simp [pairRun, pairStep, lineFeed] at left right

/-- In an acceptable text a new piece is acceptable exactly when it leads from the state in front of
it to the state behind it. -/
theorem pairRun_splice_iff {front new back : Bytes} {first start stop last : Bool}
    (reads : pairRun first front = some start) (ends : pairRun stop back = some last) :
    pairRun first (front ++ new ++ back) = some last ↔ pairRun start new = some stop := by
  rw [append_assoc, pairRun_append, reads, bind_some, pairRun_append]
  constructor
  · intro accepted
    obtain ⟨other, leadsNew, endsNew⟩ := bind_eq_some_iff.mp accepted
    rw [leadsNew, pairRun_end endsNew ends]
  · intro leadsNew
    rw [leadsNew, bind_some, ends]

/-- A text that is read to its end has a state at every position. -/
theorem pairRun_take {first last : Bool} (reads : pairRun first text = some last) (position : Nat) :
    ∃ state, pairRun first (text.take position) = some state ∧
      pairRun state (text.drop position) = some last := by
  rw [← take_append_drop position text, pairRun_append] at reads
  exact bind_eq_some_iff.mp reads

/-- Without returns no line feed is read. -/
theorem pairRun_false_no_return (clean : 0x0D ∉ text) :
    pairRun false text = if 0x0A ∈ text then none else some false := by
  induction text with
  | nil => rfl
  | cons byte rest ih =>
    obtain ⟨here, later⟩ := not_or.mp (mem_cons.not.mp clean)
    by_cases lineFeed : byte = 0x0A
    · simp [pairRun, pairStep, lineFeed]
    rw [pairRun, pairStep, if_neg Bool.false_ne_true, if_neg lineFeed,
      beq_false_of_ne (Ne.symm here), bind_some, ih later]
    simp [Ne.symm lineFeed]

/-- A text without `\r` has no `\n` but the one that is waited for, at its start. -/
theorem pairRun_no_return (clean : 0x0D ∉ text) (start stop : Bool) :
    pairRun start text = some stop ↔
      text.count 0x0A = (if start && !stop then 1 else 0) ∧
        (start = true → ∀ byte ∈ text.head?, byte = 0x0A) ∧
        (stop = true → start = true ∧ text = []) := by
  cases start with
  | false =>
    rw [pairRun_false_no_return clean]
    cases stop <;> by_cases lineFeed : 0x0A ∈ text <;>
      simp [lineFeed, count_eq_zero]
  | true =>
    cases text with
    | nil => cases stop <;> simp [pairRun]
    | cons byte rest =>
      by_cases lineFeed : byte = 0x0A
      · have later := (not_or.mp (mem_cons.not.mp clean)).2
        rw [pairRun, pairStep, if_pos rfl, if_pos lineFeed, bind_some,
          pairRun_false_no_return later]
        cases stop <;> by_cases more : 0x0A ∈ rest <;>
          simp [lineFeed, more, count_eq_zero]
      · simp [pairRun, pairStep, lineFeed]

/-! ### Normalized texts -/

/-- No carriage return is left. -/
theorem canonicalLineEndings_no_return (text : Bytes) : 0x0D ∉ canonicalLineEndings text := by
  have other : ∀ byte : UInt8, 0x0D ≠ if byte = 0x0D then 0x0A else byte := by
    intro byte
    split
    · decide
    · exact Ne.symm ‹_›
  fun_induction canonicalLineEndings text with
  | case1 => exact not_mem_nil
  | case2 byte => exact mem_singleton.not.mpr (other _)
  | case3 _ _ rest _ ih => exact not_mem_cons_of_ne_of_not_mem (by decide) ih
  | case4 first second rest _ ih =>
    exact not_mem_cons_of_ne_of_not_mem (other _) ih

/-- Line feeds made pairs read in whole pairs. -/
theorem pairRun_pairs (clean : 0x0D ∉ text) :
    pairRun false (text.flatMap fun byte => if byte = 0x0A then [0x0D, 0x0A] else [byte]) =
      some false := by
  induction text with
  | nil => rfl
  | cons byte rest ih =>
    obtain ⟨here, later⟩ := not_or.mp (mem_cons.not.mp clean)
    rw [flatMap_cons, pairRun_append, ← ih later]
    by_cases lineFeed : byte = 0x0A
    · rw [if_pos lineFeed]
      rfl
    · simp [lineFeed, pairRun, pairStep, beq_false_of_ne (Ne.symm here)]

/-- A normalized text is of the style it is normalized to. -/
theorem normalizeLineEndings_uniform (lineEnding : LineEnding) :
    Uniform lineEnding (normalizeLineEndings text lineEnding) := by
  have clean := canonicalLineEndings_no_return text
  cases lineEnding with
  | lf => exact (uniform_lf_iff).mpr clean
  | crLf => exact (uniform_crLf_iff).mpr (pairRun_pairs clean)

/-- Only ASCII is exchanged. -/
theorem canonicalLineEndings_exchange : AsciiExchange text (canonicalLineEndings text) := by
  have replaced : ∀ byte {before after}, AsciiExchange before after →
      AsciiExchange (byte :: before) ((if byte = 0x0D then 0x0A else byte) :: after) := by
    intro byte before after rest
    split
    · rename_i return_
      rw [return_]
      exact .swap (by decide) (forall_mem_singleton.mpr (by decide)) rest
    · exact .keep _ rest
  fun_induction canonicalLineEndings text with
  | case1 => exact .nil
  | case2 byte => exact replaced _ .nil
  | case3 first second rest pair ih =>
    rw [pair.1, pair.2]
    exact .swap (by decide) (forall_mem_nil _) (.keep 0x0A ih)
  | case4 first second rest _ ih => exact replaced _ ih

/-- Only ASCII is exchanged here too. -/
theorem pairs_exchange :
    AsciiExchange text
      (text.flatMap fun byte => if byte = 0x0A then [0x0D, 0x0A] else [byte]) := by
  induction text with
  | nil => exact .nil
  | cons byte rest ih =>
    rw [flatMap_cons]
    split
    · rename_i lineFeed
      rw [lineFeed]
      have ascii : ∀ other ∈ [(0x0D : UInt8), 0x0A], other < 0x80 :=
        forall_mem_cons.mpr ⟨by decide, forall_mem_singleton.mpr (by decide)⟩
      exact .swap (by decide) ascii ih
    · exact .keep _ ih

/-- Normalizing a text leaves it valid. -/
theorem normalizeLineEndings_valid (text : String) (lineEnding : LineEnding) :
    validUtf8 (normalizeLineEndings (utf8 text) lineEnding) = true := by
  have canonical := (canonicalLineEndings_exchange).validUtf8 (validUtf8_utf8 text)
  cases lineEnding with
  | lf => exact canonical
  | crLf => exact (pairs_exchange).validUtf8 canonical

/-! ### Replacing occurrences -/

/-- The needle stands at every position that is found, and the occurrences do not overlap. -/
theorem matchIndicesFrom_spec (needle : Bytes) (position skip : Nat) :
    (∀ found ∈ matchIndicesFrom needle position skip text,
      position + skip ≤ found ∧ needle <+: text.drop (found - position)) ∧
    (matchIndicesFrom needle position skip text).Pairwise
      fun one other => one < other ∧ one + needle.length ≤ other := by
  fun_induction matchIndicesFrom needle position skip text with
  | case1 position skip empty =>
    rw [Bool.and_eq_true, List.isEmpty_iff, beq_iff_eq] at empty
    refine ⟨fun found member => ?_, pairwise_singleton _ _⟩
    rw [mem_singleton.mp member, empty.1, empty.2]
    exact ⟨le_rfl, nil_prefix⟩
  | case2 => exact ⟨forall_mem_nil _, List.Pairwise.nil⟩
  | case3 position skip byte rest ih | case5 position byte rest _ ih =>
    refine ⟨fun found member => ?_, ih.2⟩
    obtain ⟨later, occurs⟩ := ih.1 _ member
    refine ⟨by omega, ?_⟩
    rwa [show found - position = found - (position + 1) + 1 from by omega, drop_succ_cons]
  | case4 position byte rest here ih =>
    rw [Bool.and_eq_true, isPrefixOf_iff_prefix] at here
    refine ⟨forall_mem_cons.mpr ⟨?_, fun found member => ?_⟩, pairwise_cons.mpr ⟨?_, ih.2⟩⟩
    · rw [Nat.sub_self]
      exact ⟨le_rfl, here.1⟩
    · obtain ⟨later, occurs⟩ := ih.1 _ member
      refine ⟨by omega, ?_⟩
      rwa [show found - position = found - (position + 1) + 1 from by omega, drop_succ_cons]
    · intro found member
      have later := (ih.1 _ member).1
      omega

/-- Positions where a needle stands without overlap, in ascending order. -/
structure Occurrences (text needle : Bytes) (positions : List Nat) : Prop where
  occurs : ∀ position ∈ positions, position ≤ text.length ∧ needle <+: text.drop position
  apart : positions.Pairwise fun one other => one + needle.length ≤ other

/-- What is found does occur. -/
theorem matchIndices_occurrences (needle : Bytes) :
    Occurrences text needle (matchIndices text needle) := by
  obtain ⟨occurs, apart⟩ := matchIndicesFrom_spec _ 0 0
  refine ⟨fun position member => ⟨?_, ?_⟩, apart.imp fun far => far.2⟩
  · have bounds := mem_matchIndicesFrom 0 0 _ member
    omega
  · exact (occurs _ member).2

variable {needle : Bytes} {positions : List Nat}

/-- Some of the occurrences are occurrences. -/
theorem Occurrences.sublist {chosen : List Nat}
    (found : Occurrences text needle positions) (some_of : chosen.Sublist positions) :
    Occurrences text needle chosen :=
  ⟨fun _ member => found.occurs _ (some_of.subset member), found.apart.sublist some_of⟩

/-- The first bytes of a text are still those of another after a splice behind them. -/
theorem take_splice {result : Bytes} (new : Bytes) {front start : Nat}
    (inside : front ≤ text.length) (kept : result.take front = text.take front)
    (before : front ≤ start) : (result.take start ++ new).take front = text.take front := by
  have long : front ≤ result.length := by
    have lengths := congrArg length kept
    rw [length_take, length_take] at lengths
    omega
  rw [take_append_of_le_length, take_take, Nat.min_eq_left before, kept]
  rw [length_take]
  omega

/-- Replacing occurrences leaves what is in front of all of them. -/
theorem take_replaceAt (replacement : Bytes)
    (found : Occurrences text needle positions) {front : Nat} (inside : front ≤ text.length)
    (before : ∀ position ∈ positions, front ≤ position) :
    (replaceAt text needle replacement positions).take front = text.take front := by
  induction positions with
  | nil => rfl
  | cons position positions ih =>
    obtain ⟨here, later⟩ := forall_mem_cons.mp before
    have kept := ih (found.sublist (sublist_cons_self _ _)) later
    rw [replaceAt, append_assoc]
    exact take_splice _ inside kept here

/-- The bytes of a replacement's result. -/
theorem mem_replaceAt {replacement : Bytes} {byte : UInt8}
    (member : byte ∈ replaceAt text needle replacement positions) :
    byte ∈ text ∨ byte ∈ replacement := by
  induction positions with
  | nil => exact .inl member
  | cons position positions ih =>
    rw [replaceAt, mem_append, mem_append] at member
    rcases member with (front | new) | back
    · exact ih (mem_of_mem_take front)
    · exact .inr new
    · exact ih (mem_of_mem_drop back)

section Machine

variable {text needle replacement : Bytes} {positions : List Nat} {first last : Bool}

/-- A needle of the style that is not empty stands only where no `\r` waits. -/
theorem Occurrences.aligned (found : Occurrences text needle positions) (asked : needle ≠ [])
    (cleanNeedle : pairRun false needle = some false) (reads : pairRun first text = some last)
    {position : Nat} (member : position ∈ positions) :
    pairRun first (text.take position) = some false := by
  obtain ⟨state, before, behind⟩ := pairRun_take reads position
  obtain ⟨rest, same⟩ := (found.occurs _ member).2
  obtain ⟨byte, bytes, rfl⟩ := exists_cons_of_ne_nil asked
  rw [← same] at behind
  cases state with
  | false => exact before
  | true =>
    by_cases lineFeed : byte = 0x0A
    · simp [pairRun, pairStep, lineFeed] at cleanNeedle
    · simp [pairRun, pairStep, lineFeed] at behind

/-- Replacing a needle where no `\r` waits leads where the text led. -/
theorem pairRun_replaceAt (found : Occurrences text needle positions)
    (cleanNeedle : pairRun false needle = some false)
    (cleanReplacement : pairRun false replacement = some false)
    (reads : pairRun first text = some last)
    (aligned : ∀ position ∈ positions, pairRun first (text.take position) = some false) :
    pairRun first (replaceAt text needle replacement positions) = some last := by
  induction positions with
  | nil => exact reads
  | cons position positions ih =>
    obtain ⟨here, later⟩ := forall_mem_cons.mp aligned
    have rest := found.sublist (sublist_cons_self _ _)
    obtain ⟨inside, occurs⟩ := found.occurs _ mem_cons_self
    have fits := occurs.length_le
    rw [length_drop] at fits
    have behind : text.take (position + needle.length) = text.take position ++ needle := by
      rw [take_add, prefix_iff_eq_take.mp occurs, length_take, length_drop, Nat.min_eq_left fits]
    obtain ⟨far, -⟩ := pairwise_cons.mp found.apart
    have keptFar := take_replaceAt replacement rest
      (show position + needle.length ≤ text.length by omega) far
    have keptNear := take_replaceAt replacement rest inside
      fun other member => Nat.le_of_add_right_le (far _ member)
    obtain ⟨state, before, ends⟩ := pairRun_take (ih rest later) (position + needle.length)
    rw [keptFar, behind, pairRun_append, here, bind_some, cleanNeedle] at before
    cases before
    rw [← keptNear] at here
    exact (pairRun_splice_iff here ends).mpr cleanReplacement

/-- A text of the style does not start with `\n`, so none fits between the bytes of a pair. -/
theorem pairRun_between (asked : replacement ≠ [])
    (cleanReplacement : pairRun false replacement = some false) (rest : Bytes) :
    pairRun true (replacement ++ rest) = none := by
  obtain ⟨byte, bytes, rfl⟩ := exists_cons_of_ne_nil asked
  by_cases lineFeed : byte = 0x0A
  · simp [pairRun, pairStep, lineFeed] at cleanReplacement
  · simp [pairRun, pairStep, lineFeed]

/-- Inserting a text of the style keeps it exactly when no place is between the bytes of a pair. -/
theorem pairRun_insertions_iff (found : Occurrences text [] positions) (asked : replacement ≠ [])
    (cleanReplacement : pairRun false replacement = some false)
    (reads : pairRun first text = some last) :
    pairRun first (replaceAt text [] replacement positions) = some last ↔
      ∀ position ∈ positions, pairRun first (text.take position) = some false := by
  refine ⟨fun accepted => ?_, pairRun_replaceAt found rfl cleanReplacement reads⟩
  induction positions with
  | nil => exact forall_mem_nil _
  | cons position positions ih =>
    have rest := found.sublist (sublist_cons_self _ _)
    obtain ⟨inside, -⟩ := found.occurs _ mem_cons_self
    obtain ⟨far, -⟩ := pairwise_cons.mp found.apart
    have kept := take_replaceAt replacement rest inside far
    obtain ⟨state, before, -⟩ := pairRun_take reads position
    rw [replaceAt, kept, append_assoc, pairRun_append, before, bind_some] at accepted
    cases state with
    | true =>
      rw [pairRun_between asked cleanReplacement] at accepted
      cases accepted
    | false =>
      rw [pairRun_append, cleanReplacement, bind_some] at accepted
      refine forall_mem_cons.mpr ⟨before, ih rest ?_⟩
      rw [← take_append_drop position (replaceAt text [] replacement positions),
        pairRun_append, kept, before, bind_some]
      exact accepted

end Machine

/-! ### The state at a position -/

/-- A `\r` stands in front of the position. -/
def afterReturn (content : Bytes) (position : Nat) : Bool :=
  (content.take position).getLast? == some 0x0D

/-- A return waits if it is last. -/
theorem pairRun_getLast {first last : Bool} {text : Bytes} (reads : pairRun first text = some last)
    (some_text : text ≠ []) : last = (text.getLast? == some 0x0D) := by
  obtain ⟨front, byte, rfl⟩ := (eq_nil_or_concat _).resolve_left some_text
  rw [concat_eq_append] at reads ⊢
  rw [pairRun_append] at reads
  obtain ⟨state, -, ends⟩ := bind_eq_some_iff.mp reads
  rw [getLast?_concat]
  cases state <;> by_cases lineFeed : byte = 0x0A <;> simp [pairRun, pairStep, lineFeed] at ends
  · exact ends.symm
  · rw [ends, lineFeed]
    rfl

/-- In a text of the style, the state at a position is read off the byte in front of it. -/
theorem pairRun_take_afterReturn {content : Bytes} (uniform : pairRun false content = some false)
    (position : Nat) :
    pairRun false (content.take position) = some (afterReturn content position) ∧
      pairRun (afterReturn content position) (content.drop position) = some false := by
  obtain ⟨state, before, behind⟩ := pairRun_take uniform _
  have known : state = afterReturn content position := by
    unfold afterReturn
    cases front : content.take position with
    | nil =>
      rw [front] at before
      cases before
      rfl
    | cons byte rest =>
      rw [front] at before
      exact pairRun_getLast before (cons_ne_nil _ _)
  rw [known] at before behind
  exact ⟨before, behind⟩

end Symforge.Edit
