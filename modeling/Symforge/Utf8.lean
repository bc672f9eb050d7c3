import Symforge.Text

/-!
# Texts are valid UTF-8

The encoding of every text passes the validation, and so does what is left of it when bytes of the
ASCII range are exchanged for others. Lossy decoding keeps what passes it.
-/

namespace Symforge

open Utf8State List UInt8

/-- Nothing is pending: the next byte starts a character. -/
def Utf8State.start : Utf8State := ⟨0, 0x80, 0xBF⟩

/-- The bytes of a text, scalar by scalar. -/
theorem utf8_eq_flatMap (text : String) :
    utf8 text = text.toList.flatMap String.utf8EncodeChar := by
  rw [utf8, String.toUTF8_eq_toByteArray, ← String.utf8Encode_toList, utf8Encode, data_toByteArray]

variable {state next : Utf8State} {byte : UInt8} {rest : Bytes}

/-- Reading one byte. -/
theorem validUtf8From_cons (moves : state.step byte = some next) :
    validUtf8From state (byte :: rest) = validUtf8From next rest := by
  rw [validUtf8From, moves]

/-- A continuation byte in the expected range. -/
theorem validUtf8From_continuation {remaining value : Nat} {lower upper : UInt8}
    (above : lower.toNat ≤ value) (below : value ≤ upper.toNat) :
    validUtf8From ⟨remaining + 1, lower, upper⟩ (ofNat value :: rest) =
      validUtf8From ⟨remaining, 0x80, 0xBF⟩ rest := by
  have same : (ofNat value).toNat = value := by
    have bound := upper.toNat_lt
    rw [toNat_ofNat', Nat.mod_eq_of_lt (by omega)]
  have within : lower ≤ ofNat value ∧ ofNat value ≤ upper := by
    rw [le_iff_toNat_le, le_iff_toNat_le, same]
    exact ⟨above, below⟩
  have moves : step ⟨remaining + 1, lower, upper⟩ (ofNat value) =
      some ⟨remaining, 0x80, 0xBF⟩ := if_pos within
  exact validUtf8From_cons moves

/-- What a lead byte makes the decoder expect. -/
theorem step_lead {value : Nat} (small : value < 256) :
    Utf8State.start.step (UInt8.ofNat value) =
      if value < 0x80 then some .start
      else if value < 0xC2 then none
      else if value < 0xE0 then some ⟨1, 0x80, 0xBF⟩
      else if value = 0xE0 then some ⟨2, 0xA0, 0xBF⟩
      else if value = 0xED then some ⟨2, 0x80, 0x9F⟩
      else if value < 0xF0 then some ⟨2, 0x80, 0xBF⟩
      else if value = 0xF0 then some ⟨3, 0x90, 0xBF⟩
      else if value < 0xF4 then some ⟨3, 0x80, 0xBF⟩
      else if value = 0xF4 then some ⟨3, 0x80, 0x8F⟩
      else none := by
  simp only [step, start, UInt8.lt_iff_toNat_lt, ← UInt8.toNat_inj,
    UInt8.toNat_ofNat', Nat.mod_eq_of_lt small]
  rfl

/-- A lead byte of three bytes: the second one is not overlong and not of a surrogate. -/
theorem validUtf8From_three {lead second third : Nat} (leads : 0xE0 ≤ lead ∧ lead < 0xF0)
    (seconds : 0x80 ≤ second ∧ second ≤ 0xBF) (thirds : 0x80 ≤ third ∧ third ≤ 0xBF)
    (long : lead = 0xE0 → 0xA0 ≤ second) (scalar : lead = 0xED → second ≤ 0x9F) :
    validUtf8From .start
      (ofNat lead :: ofNat second :: ofNat third :: rest) =
        validUtf8From .start rest := by
  have leading := @step_lead lead (by omega)
  rw [if_neg (by omega), if_neg (by omega), if_neg (by omega)] at leading
  split at leading
  · rw [validUtf8From_cons leading, validUtf8From_continuation (long ‹_›) seconds.2,
      validUtf8From_continuation thirds.1 thirds.2]
    rfl
  split at leading
  · rw [validUtf8From_cons leading, validUtf8From_continuation seconds.1 (scalar ‹_›),
      validUtf8From_continuation thirds.1 thirds.2]
    rfl
  · rw [if_pos (by omega)] at leading
    rw [validUtf8From_cons leading, validUtf8From_continuation seconds.1 seconds.2,
      validUtf8From_continuation thirds.1 thirds.2]
    rfl

/-- A lead byte of four bytes: the second one is not overlong and not beyond the last character. -/
theorem validUtf8From_four {lead second third fourth : Nat} (leads : 0xF0 ≤ lead ∧ lead ≤ 0xF4)
    (seconds : 0x80 ≤ second ∧ second ≤ 0xBF) (thirds : 0x80 ≤ third ∧ third ≤ 0xBF)
    (fourths : 0x80 ≤ fourth ∧ fourth ≤ 0xBF) (long : lead = 0xF0 → 0x90 ≤ second)
    (scalar : lead = 0xF4 → second ≤ 0x8F) :
    validUtf8From .start (ofNat lead :: ofNat second :: ofNat third ::
      ofNat fourth :: rest) = validUtf8From .start rest := by
  have tail : ∀ remaining, validUtf8From ⟨remaining + 2, 0x80, 0xBF⟩
      (ofNat third :: ofNat fourth :: rest) =
        validUtf8From ⟨remaining, 0x80, 0xBF⟩ rest := by
    intro remaining
    rw [validUtf8From_continuation thirds.1 thirds.2,
      validUtf8From_continuation fourths.1 fourths.2]
  have leading := @step_lead lead (by omega)
  rw [if_neg (by omega), if_neg (by omega), if_neg (by omega), if_neg (by omega),
    if_neg (by omega), if_neg (by omega)] at leading
  split at leading
  · rw [validUtf8From_cons leading, validUtf8From_continuation (long ‹_›) seconds.2]
    exact tail 0
  split at leading
  · rw [validUtf8From_cons leading, validUtf8From_continuation seconds.1 seconds.2]
    exact tail 0
  rw [if_pos (by omega)] at leading
  rw [validUtf8From_cons leading, validUtf8From_continuation seconds.1 (scalar (by omega))]
  exact tail 0

/-- The bytes of a character leave nothing pending. -/
theorem validUtf8From_char (char : Char) :
    validUtf8From .start (String.utf8EncodeChar char ++ rest) = validUtf8From .start rest := by
  have scalar : char.val.toNat < 0xD800 ∨ 0xDFFF < char.val.toNat ∧ char.val.toNat < 0x110000 :=
    char.valid
  unfold String.utf8EncodeChar
  generalize char.val.toNat = code at scalar
  dsimp only
  split
  · exact validUtf8From_cons ((step_lead (by omega)).trans (if_pos (by omega)))
  split
  · have leading := @step_lead (code / 64 % 32 + 192) (by omega)
    rw [if_neg (by omega), if_neg (by omega), if_pos (by omega)] at leading
    have last : 128 ≤ code % 64 + 128 ∧ code % 64 + 128 ≤ 191 := by omega
    exact (validUtf8From_cons leading).trans (validUtf8From_continuation last.1 last.2)
  · split
    · exact validUtf8From_three (by omega) (by omega) (by omega) (by omega) (by omega)
    exact validUtf8From_four (by omega) (by omega) (by omega) (by omega) (by omega) (by omega)

/-- Every text is valid. -/
theorem validUtf8_utf8 (text : String) : validUtf8 (utf8 text) = true := by
  rw [utf8_eq_flatMap]
  change validUtf8From .start _ = true
  induction text.toList with
  | nil => rfl
  | cons char rest ih => rw [flatMap_cons, validUtf8From_char, ih]

/-! ### Exchanging ASCII bytes -/

/-- The second text is the first with other ASCII bytes for some of its ASCII bytes. -/
inductive AsciiExchange : Bytes → Bytes → Prop where
  | nil : AsciiExchange [] []
  | keep (byte : UInt8) {before after : Bytes} (rest : AsciiExchange before after) :
      AsciiExchange (byte :: before) (byte :: after)
  | swap {byte : UInt8} {bytes before after : Bytes} (old : byte < 0x80)
      (new : ∀ other ∈ bytes, other < 0x80) (rest : AsciiExchange before after) :
      AsciiExchange (byte :: before) (bytes ++ after)

/-- A byte leads to a state that expects no ASCII byte, or to the first one. -/
theorem step_shape (moves : state.step byte = some next) :
    0x80 ≤ next.lower ∧ (next.remaining = 0 → next = .start) := by
  cases known : state.remaining with
  | succ remaining =>
    simp only [step, known] at moves
    split at moves
    · cases moves
      have continuation : (0x80 : UInt8) ≤ 0x80 := UInt8.le_refl _
      refine ⟨continuation, fun none => ?_⟩
      rw [show remaining = 0 from none, start]
    · cases moves
  | zero =>
    simp only [step, known] at moves
    repeat' split at moves
    all_goals cases moves
    -- Only an ASCII byte is a whole character.
    all_goals exact ⟨by decide, fun whole => by first | rfl | cases whole⟩

/-- ASCII is read between scalars only. -/
theorem step_ascii_iff (pending : 0x80 ≤ state.lower) (ascii : byte < 0x80) :
    state.step byte = some next ↔ state.remaining = 0 ∧ next = .start := by
  unfold step
  split
  · rename_i remaining more
    have below : ¬ (state.lower ≤ byte ∧ byte ≤ state.upper) :=
      fun within => absurd (UInt8.le_trans pending within.1) (UInt8.not_le.mpr ascii)
    rw [if_neg below, more]
    exact iff_of_false nofun (fun same => nomatch same.1)
  · rename_i none_pending
    rw [if_pos ascii, none_pending, Option.some.injEq, eq_comm]
    exact (and_iff_right rfl).symm

/-- With nothing pending, the expected range plays no role. -/
theorem validUtf8From_start (none_pending : state.remaining = 0) :
    validUtf8From state rest = validUtf8From .start rest := by
  cases rest with
  | nil => rw [validUtf8From, none_pending]; rfl
  | cons byte rest =>
    have same : state.step byte = start.step byte := by
      unfold step
      rw [none_pending]
      rfl
    rw [validUtf8From, validUtf8From, same]

/-- ASCII in front changes nothing. -/
theorem validUtf8From_ascii (none_pending : state.remaining = 0) (pending : 0x80 ≤ state.lower)
    {bytes : Bytes} (ascii : ∀ byte ∈ bytes, byte < 0x80) :
    validUtf8From state (bytes ++ rest) = validUtf8From .start rest := by
  induction bytes generalizing state with
  | nil => exact validUtf8From_start none_pending
  | cons byte bytes ih =>
    obtain ⟨here, later⟩ := forall_mem_cons.mp ascii
    rw [cons_append, validUtf8From_cons ((step_ascii_iff pending here).mpr ⟨none_pending, rfl⟩)]
    exact ih rfl (by decide) later

/-- Exchanged ASCII leaves the rest readable. -/
theorem AsciiExchange.validUtf8From {before after : Bytes} (exchange : AsciiExchange before after)
    (pending : 0x80 ≤ state.lower) (valid : Symforge.validUtf8From state before = true) :
    Symforge.validUtf8From state after = true := by
  induction exchange generalizing state with
  | nil => exact valid
  | keep byte rest ih =>
    cases moves : state.step byte with
    | none =>
      rw [Symforge.validUtf8From, moves] at valid
      cases valid
    | some next =>
      rw [validUtf8From_cons moves] at valid ⊢
      exact ih (step_shape moves).1 valid
  | swap old new rest ih =>
    rename_i byte bytes before after
    cases moves : state.step byte with
    | none =>
      rw [Symforge.validUtf8From, moves] at valid
      cases valid
    | some next =>
      obtain ⟨none_pending, rfl⟩ := (step_ascii_iff pending old).mp moves
      rw [validUtf8From_cons moves] at valid
      exact (validUtf8From_ascii none_pending pending new).trans (ih (by decide) valid)

/-- Exchanged ASCII leaves the text valid. -/
theorem AsciiExchange.validUtf8 {before after : Bytes} (exchange : AsciiExchange before after)
    (valid : Symforge.validUtf8 before = true) : Symforge.validUtf8 after = true :=
  exchange.validUtf8From (by decide) valid

/-! ### Lossy decoding -/

/-- `U+FFFD`. -/
def replacementCharacter : Bytes := [0xEF, 0xBF, 0xBD]

/-- The rest of `String::from_utf8_lossy`, with the bytes of an unfinished character. -/
def fromUtf8LossyFrom : Utf8State → Bytes → Bytes → Bytes
  | _, pending, [] => if pending.isEmpty then [] else replacementCharacter
  | state, pending, byte :: rest =>
    match state.step byte with
    | some next =>
      if next.remaining = 0 then pending ++ byte :: fromUtf8LossyFrom .start [] rest
      else fromUtf8LossyFrom next (pending ++ [byte]) rest
    | none =>
      if pending.isEmpty then replacementCharacter ++ fromUtf8LossyFrom .start [] rest
      else replacementCharacter ++
        -- The byte that does not continue the character may start another one.
        match Utf8State.start.step byte with
        | some next =>
          if next.remaining = 0 then byte :: fromUtf8LossyFrom .start [] rest
          else fromUtf8LossyFrom next [byte] rest
        | none => replacementCharacter ++ fromUtf8LossyFrom .start [] rest

/-- `String::from_utf8_lossy`. -/
def fromUtf8Lossy (bytes : Bytes) : Bytes := fromUtf8LossyFrom .start [] bytes

/-- Valid bytes are not lost. -/
theorem fromUtf8LossyFrom_valid {pending : Bytes} (valid : validUtf8From state rest = true)
    (settled : state.remaining = 0 → pending = []) :
    fromUtf8LossyFrom state pending rest = pending ++ rest := by
  induction rest generalizing state pending with
  | nil =>
    have done : pending = [] := settled (by simpa [validUtf8From] using valid)
    rw [done]
    rfl
  | cons byte rest ih =>
    unfold validUtf8From at valid
    unfold fromUtf8LossyFrom
    cases moves : state.step byte with
    | none =>
      rw [moves] at valid
      cases valid
    | some next =>
      rw [moves] at valid
      by_cases complete : next.remaining = 0
      · have restart : next = .start := (step_shape moves).2 complete
        rw [restart] at valid
        simp [complete, ih valid fun _ => rfl, nil_append]
      · have unsettled : next.remaining = 0 → pending ++ [byte] = [] :=
          fun done => absurd done complete
        have following := ih valid unsettled
        simp [complete, following, append_assoc]

/-- Valid UTF-8 is kept as it is. -/
theorem fromUtf8Lossy_valid {bytes : Bytes} (valid : validUtf8 bytes = true) :
    fromUtf8Lossy bytes = bytes :=
  fromUtf8LossyFrom_valid valid fun _ => rfl

end Symforge
