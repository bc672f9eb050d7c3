import Mathlib.Data.List.DropRight
import Mathlib.Logic.Function.Iterate
import Symforge.Text
/-!
# The managed guidance block

`upsert_markdown_block` of `cli/init.rs` replaces what stands between the first start marker of
a Markdown text and the next end marker, or appends the block. A start marker without an end marker
behind it is paired with the end of the block that the first call appends.
-/

namespace Symforge.Cli

open List

section Needle

variable {needle before : Bytes}

/-- The needle is first found right behind `before`. -/
def FirstAt (needle before : Bytes) : Prop :=
  ∃ rest, windowPosition needle (before ++ (needle ++ rest)) = some before.length

variable (nonempty : needle ≠ [])
include nonempty

/-- What stands behind the first occurrence does not matter. -/
theorem FirstAt.position (first : FirstAt needle before) (other : Bytes) :
    windowPosition needle (before ++ (needle ++ other)) = some before.length := by
  obtain ⟨rest, found⟩ := first
  rw [windowPosition_eq_some_iff nonempty] at found ⊢
  refine ⟨by simp, fun earlier less stands => found.2 _ less ?_⟩
  rw [drop_append_of_le_length less.le, ← append_assoc] at stands ⊢
  have inside : needle <+: before.drop earlier ++ needle :=
    prefix_of_prefix_length_le stands (prefix_append _ _) (by simp)
  exact inside.trans (prefix_append _ _)

/-- What is found is the first occurrence. -/
theorem exists_firstAt {text : Bytes} {position : Nat}
    (found : windowPosition needle text = some position) :
    ∃ before rest, text = before ++ (needle ++ rest) ∧ FirstAt needle before := by
  obtain ⟨rest, tail⟩ := ((windowPosition_eq_some_iff nonempty).mp found).1
  have pieces : text.take position ++ (needle ++ rest) = text := by rw [tail, take_append_drop]
  have inside : position ≤ text.length := by
    by_contra beyond
    rw [drop_eq_nil_of_le (by omega)] at tail
    exact nonempty (append_eq_nil_iff.mp tail).1
  have size : (text.take position).length = position := by rw [length_take]; omega
  exact ⟨_, _, pieces.symm, _, by rw [pieces, found, size]⟩

omit nonempty in
/-- A needle without a newline does not stand across one. -/
theorem not_across {r : Bytes} (plain : 0x0A ∉ needle) (absent : ¬ needle <:+: before) :
    ¬ needle <+: before ++ 0x0A :: r := by
  intro stands
  by_cases fits : needle.length ≤ before.length
  · exact absent (prefix_of_prefix_length_le stands (prefix_append _ _) fits).isInfix
  have short : (before ++ [0x0A]).length ≤ needle.length := by
    rw [length_append, length_singleton]
    omega
  have across := prefix_of_prefix_length_le (by simp) stands short
  exact plain (across.subset (by simp))

/-- A needle without line feeds is looked for line by line. -/
theorem firstAt_line {after : Bytes} (plain : 0x0A ∉ needle) (absent : ¬ needle <:+: before)
    (first : FirstAt needle after) : FirstAt needle (before ++ 0x0A :: after) := by
  refine ⟨[], ?_⟩
  induction before with
  | nil =>
    have away := not_across (r := after ++ (needle ++ [])) plain absent
    have found := first.position nonempty []
    simp_all [windowPosition]
  | cons byte before ih =>
    have away := not_across (r := after ++ (needle ++ [])) plain absent
    have found := ih fun inside => absent (infix_cons inside)
    simp_all [windowPosition, Nat.add_right_comm]

end Needle

/-- `SYMFORGE_GUIDANCE_START`. -/
def guidanceStart : Bytes := utf8 "<!-- SYMFORGE START -->"

/-- `SYMFORGE_GUIDANCE_END`. -/
def guidanceEnd : Bytes := utf8 "<!-- SYMFORGE END -->"

/-- A guidance block: it begins and ends with the markers and has no other. -/
structure GuidanceBlock where
  body : Bytes
  oneStart : ¬ guidanceStart <:+: body ++ guidanceEnd
  oneEnd : FirstAt guidanceEnd (guidanceStart ++ body)

/-- The block between its markers. -/
def GuidanceBlock.text (block : GuidanceBlock) : Bytes := guidanceStart ++ block.body ++ guidanceEnd

variable (text : Bytes)

/-- From the first start marker to behind the next end marker. -/
def markedBlock : Option (Nat × Nat) := do
  let start ← windowPosition guidanceStart text
  let offset ← windowPosition guidanceEnd (text.drop start)
  return (start, start + offset + guidanceEnd.length)

/-- The bytes that `trim_end_matches` trims. -/
def isNewline (byte : UInt8) : Bool := byte == 0x0D || byte == 0x0A

/-- `trim_end_matches(['\r', '\n'])`. -/
def trimNewlines : Bytes := text.rdropWhile isNewline

/-- `init::upsert_markdown_block`. -/
def upsertMarkdownBlock (existing guidanceBlock : Bytes) : Bytes :=
  match markedBlock existing with
  | some (start, stop) => existing.take start ++ guidanceBlock ++ existing.drop stop
  | none =>
    if isBlank existing then guidanceBlock ++ [0x0A]
    else trimNewlines existing ++ [0x0A, 0x0A] ++ guidanceBlock ++ [0x0A]

/-- A text has a marked block, a start marker without an end, or no start marker. -/
theorem markers_cases :
    (∃ before inner after, text = before ++ (inner ++ (guidanceEnd ++ after)) ∧
      guidanceStart <+: inner ++ (guidanceEnd ++ after) ∧ FirstAt guidanceStart before ∧
      FirstAt guidanceEnd inner) ∨
    (∃ before rest, text = before ++ (guidanceStart ++ rest) ∧ FirstAt guidanceStart before ∧
      ¬ guidanceEnd <:+: guidanceStart ++ rest) ∨
    ¬ guidanceStart <:+: text := by
  cases found : windowPosition guidanceStart text with
  | none => exact .inr (.inr ((windowPosition_eq_none_iff (by decide)).mp found))
  | some start =>
    obtain ⟨before, rest, rfl, starts⟩ := exists_firstAt (by decide) found
    cases behind : windowPosition guidanceEnd (guidanceStart ++ rest) with
    | none =>
      exact .inr (.inl ⟨_, _, rfl, starts, (windowPosition_eq_none_iff (by decide)).mp behind⟩)
    | some offset =>
      obtain ⟨inner, after, same, ends⟩ := exists_firstAt (by decide) behind
      exact .inl ⟨_, inner, _, by rw [same], ⟨rest, same⟩, starts, ends⟩

/-- Less is left behind a block. -/
theorem markedBlock_shortens {text : Bytes} {start stop : Nat}
    (found : markedBlock text = some (start, stop)) : (text.drop stop).length < text.length := by
  simp only [markedBlock, Option.bind_eq_bind, Option.bind_eq_some_iff, Option.pure_def,
    Option.some.injEq, Prod.mk.injEq] at found
  obtain ⟨start, -, offset, ends, rfl, rfl⟩ := found
  have stands := ((windowPosition_eq_some_iff (by decide)).mp ends).1.length_le
  have positive : 0 < guidanceEnd.length := by decide
  simp only [length_drop] at stands ⊢
  omega

/-- The text outside of the marked blocks. -/
def outside (text : Bytes) : Bytes :=
  match _found : markedBlock text with
  | some (start, stop) => text.take start ++ outside (text.drop stop)
  | none => text
termination_by text.length
decreasing_by exact markedBlock_shortens _found

/-- One round of `outside`. -/
theorem outside_eq (text : Bytes) :
    outside text = match markedBlock text with
      | some (start, stop) => text.take start ++ outside (text.drop stop)
      | none => text := by
  rw [outside]
  split <;> simp [*]

section Marked

variable {before inner after : Bytes} (stands : guidanceStart <+: inner ++ (guidanceEnd ++ after))
  (starts : FirstAt guidanceStart before) (ends : FirstAt guidanceEnd inner)
include stands starts ends

/-- The first marked block of a text. -/
theorem markedBlock_marked :
    markedBlock (before ++ (inner ++ (guidanceEnd ++ after))) =
      some (before.length, before.length + (inner.length + guidanceEnd.length)) := by
  obtain ⟨rest, tail⟩ := stands
  have found := starts.position (by decide) rest
  rw [tail] at found
  simp [markedBlock, found, ends.position (by decide) after, Option.bind_eq_bind,
    Option.bind_some, Option.pure_def, Nat.add_assoc]

/-- A marked block is replaced in its place. -/
theorem upsert_marked (guidanceBlock : Bytes) :
    upsertMarkdownBlock (before ++ (inner ++ (guidanceEnd ++ after))) guidanceBlock =
      before ++ (guidanceBlock ++ after) := by
  simp [upsertMarkdownBlock, markedBlock_marked stands starts ends]

/-- A marked block is not outside. -/
theorem outside_marked :
    outside (before ++ (inner ++ (guidanceEnd ++ after))) = before ++ outside after := by
  rw [outside_eq, markedBlock_marked stands starts ends]
  simp

end Marked

/-- Calls keep the text outside of marked blocks, but for trailing newlines, and the second call
changes nothing. -/
def KeepsText (block : GuidanceBlock) (existing : Bytes) : Prop :=
  (∀ calls, (trimNewlines (outside existing)).Sublist
    (outside ((fun text => upsertMarkdownBlock text block.text)^[calls] existing))) ∧
  upsertMarkdownBlock (upsertMarkdownBlock existing block.text) block.text =
    upsertMarkdownBlock existing block.text

/-- A text without a marked block has no start marker, and only newlines if it is blank. -/
def Unharmed (existing : Bytes) : Prop :=
  markedBlock existing = none →
    ¬ guidanceStart <:+: existing ∧ (isBlank existing = true → trimNewlines existing = [])

/-- Trimming leaves a front part of the text. -/
theorem trimNewlines_front (text : Bytes) : trimNewlines text <+: text := rdropWhile_prefix ..

variable (block : GuidanceBlock)

section Placed

variable {before after : Bytes} (starts : FirstAt guidanceStart before)
include starts

/-- A block already in place stays. -/
theorem upsert_placed : upsertMarkdownBlock (before ++ (block.text ++ after)) block.text =
    before ++ (block.text ++ after) := by
  have stands : guidanceStart <+: guidanceStart ++ block.body ++ (guidanceEnd ++ after) := by simp
  have marked := upsert_marked stands starts block.oneEnd block.text
  rwa [← append_assoc (guidanceStart ++ _)] at marked

/-- The block itself is not outside. -/
theorem outside_placed : outside (before ++ (block.text ++ after)) = before ++ outside after := by
  have stands : guidanceStart <+: guidanceStart ++ block.body ++ (guidanceEnd ++ after) := by simp
  have marked := outside_marked stands starts block.oneEnd
  rwa [← append_assoc (guidanceStart ++ _)] at marked

/-- Once the block is placed, every further call finds it. -/
theorem keepsText_of_placed {existing : Bytes}
    (placed : upsertMarkdownBlock existing block.text = before ++ (block.text ++ after))
    (kept : (trimNewlines (outside existing)).Sublist (before ++ outside after)) :
    KeepsText block existing := by
  constructor
  · intro calls
    cases calls with
    | zero => exact (trimNewlines_front _).sublist
    | succ more =>
      rw [Function.iterate_succ_apply, placed,
        Function.iterate_fixed (upsert_placed _ starts), outside_placed _ starts]
      exact kept
  · rw [placed]
    exact upsert_placed _ starts

end Placed

/-- Without markers the block comes last. -/
theorem upsert_unmarked {existing : Bytes} (unmarked : markedBlock existing = none) :
    upsertMarkdownBlock existing block.text =
      (if isBlank existing then [] else trimNewlines existing ++ [0x0A, 0x0A]) ++
        (block.text ++ [0x0A]) := by
  by_cases blank : isBlank existing <;> simp [upsertMarkdownBlock, unmarked, blank]

/-- Without markers all is outside. -/
theorem outside_unmarked {existing : Bytes} (unmarked : markedBlock existing = none) :
    outside existing = existing := by
  rw [outside_eq, unmarked]

/-- A blank text without a marked block is replaced. -/
theorem trimmed_of_blank {existing : Bytes} (unmarked : markedBlock existing = none)
    (blank : isBlank existing = true) (keeps : KeepsText block existing) :
    trimNewlines existing = [] := by
  have once := keeps.1 1
  rw [outside_unmarked unmarked, Function.iterate_one, upsert_unmarked _ unmarked, if_pos blank,
    outside_placed _ ⟨[], by decide⟩, outside_unmarked (by decide)] at once
  rcases sublist_singleton.mp once with empty | newline
  · exact empty
  have stable : trimNewlines (trimNewlines existing) = trimNewlines existing :=
    rdropWhile_idempotent ..
  rw [newline] at stable
  exact absurd stable (by decide)

/-- Trimming stops at text that ends in none. -/
theorem trimNewlines_append {text : Bytes} (ends : trimNewlines text = text) (rest : Bytes) :
    trimNewlines (text ++ rest) = text ++ trimNewlines rest := by
  simp only [trimNewlines, rdropWhile, reverse_append, dropWhile_append] at ends ⊢
  split
  · rename_i empty
    simp [isEmpty_iff.mp empty, ends]
  · simp

/-- The second call cuts from the stray marker to the end of the appended block. -/
theorem not_keepsText_of_stray {before rest : Bytes} (starts : FirstAt guidanceStart before)
    (stray : ¬ guidanceEnd <:+: guidanceStart ++ rest)
    (unmarked : markedBlock (before ++ (guidanceStart ++ rest)) = none) :
    ¬ KeepsText block (before ++ (guidanceStart ++ rest)) := by
  intro keeps
  have solid : trimNewlines (before ++ guidanceStart) = before ++ guidanceStart := by
    rw [trimNewlines, rdropWhile_eq_self_iff]
    intro nonempty
    rw [getLast_append_of_ne_nil nonempty (by decide)]
    decide
  have trimmed := trimNewlines_append solid rest
  rw [append_assoc, append_assoc] at trimmed
  by_cases blank : isBlank (before ++ (guidanceStart ++ rest)) = true
  · have nothing := trimmed_of_blank _ unmarked blank keeps
    rw [trimmed, append_eq_nil_iff, append_eq_nil_iff] at nothing
    exact absurd nothing.2.1 (by decide)
  have ends : FirstAt guidanceEnd (guidanceStart ++ trimNewlines rest ++
      0x0A :: ([] ++ 0x0A :: (guidanceStart ++ block.body))) := by
    apply firstAt_line (by decide) (by decide)
    · have shorter := (prefix_append_right_inj guidanceStart).mpr (trimNewlines_front rest)
      exact fun inside => stray (inside.trans shorter.isInfix)
    · exact firstAt_line (by decide) (by decide) (by decide) block.oneEnd
  have appended : upsertMarkdownBlock (before ++ (guidanceStart ++ rest)) block.text = before ++
      (guidanceStart ++ trimNewlines rest ++ 0x0A :: ([] ++ 0x0A :: (guidanceStart ++ block.body))
        ++ (guidanceEnd ++ [0x0A])) := by
    rw [upsert_unmarked block unmarked, if_neg blank, trimmed]
    simp [GuidanceBlock.text]
  have cut := keeps.2
  rw [appended, upsert_marked (by simp) starts ends] at cut
  have sizes := congrArg length cut
  simp [GuidanceBlock.text] at sizes
  omega

/-- Calls keep the text outside of marked blocks, and the second changes nothing, exactly when no
start marker lacks its end and no blank text but newlines is replaced. -/
theorem keepsText_iff (existing : Bytes) : KeepsText block existing ↔ Unharmed existing := by
  rcases markers_cases existing with ⟨before, inner, after, rfl, stands, starts, ends⟩ |
    ⟨before, rest, rfl, starts, stray⟩ | absent
  · have marked := markedBlock_marked stands starts ends
    have kept := keepsText_of_placed _ starts (upsert_marked stands starts ends block.text)
      (by rw [outside_marked stands starts ends]; exact (trimNewlines_front _).sublist)
    exact iff_of_true kept fun none => nomatch marked.symm.trans none
  · have unmarked : markedBlock (before ++ (guidanceStart ++ rest)) = none := by
      simp [markedBlock, starts.position (by decide) rest,
        (windowPosition_eq_none_iff (by decide)).mpr stray]
    have lost := not_keepsText_of_stray block starts stray unmarked
    have inside : guidanceStart <:+: before ++ (guidanceStart ++ rest) := ⟨before, rest, by simp⟩
    exact iff_of_false lost fun unharmed => (unharmed unmarked).1 inside
  · have unmarked : markedBlock existing = none := by
      simp [markedBlock, (windowPosition_eq_none_iff (by decide)).mpr absent]
    constructor
    · exact fun keeps _ => ⟨absent, fun blank => trimmed_of_blank _ unmarked blank keeps⟩
    intro unharmed
    apply keepsText_of_placed _ _ (upsert_unmarked _ unmarked)
    · rw [outside_unmarked unmarked]
      split
      · rename_i blank
        rw [(unharmed unmarked).2 blank]
        exact nil_sublist _
      · rw [append_assoc]
        exact (prefix_append _ _).sublist
    · split
      · exact ⟨[], by decide⟩
      have apart : ¬ guidanceStart <:+: trimNewlines existing :=
        fun inside => absent (inside.trans (trimNewlines_front _).isInfix)
      have behind : FirstAt guidanceStart [0x0A] := ⟨[], by decide⟩
      exact firstAt_line (by decide) (by decide) apart behind

/-- A block with no guidance in it. -/
def emptyBlock : GuidanceBlock := ⟨[0x0A], by decide, [], by decide⟩

/-- A start marker in the user's notes: the second call removes the notes behind it. -/
theorem stray_marker_pairs : ¬ KeepsText emptyBlock (guidanceStart ++ utf8 " notes") :=
  fun keeps => absurd keeps.2 (by decide)

end Symforge.Cli
