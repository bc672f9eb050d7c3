import Symforge.Parsing.JsonScan

/-!
# Finding keys and items in strict JSON

When the searches of `Parsing.Json` give the bytes of a member, and when they give those of the
items of an array.
-/

namespace Symforge.Parsing.Json

open List Option Layout Nat Placed

/-! ### Needles -/

/-- A byte that is not special may stand in front. -/
theorem isStringBody_cons {byte : UInt8} (notQuote : byte ≠ 0x22) (notEscape : byte ≠ 0x5C)
    (rest : Bytes) : isStringBody (byte :: rest) = isStringBody rest := by
  cases rest <;> simp [isStringBody, notQuote, notEscape]

/-- A needle holds the body of a string. -/
theorem isStringBody_escaped (bytes : Bytes) :
    isStringBody (bytes.flatMap escapeKeyByte) = true := by
  induction bytes with
  | nil => rfl
  | cons byte rest ih =>
    rw [flatMap_cons]
    unfold escapeKeyByte
    split_ifs with backslash quote
    · exact ih
    · exact ih
    · exact (isStringBody_cons quote backslash _).trans ih

/-- No byte is escaped to nothing. -/
theorem escapeKeyByte_ne_nil (byte : UInt8) : escapeKeyByte byte ≠ [] := by
  unfold escapeKeyByte
  split_ifs <;> exact cons_ne_nil _ _

/-- An escaped byte can be read back. -/
theorem escapeKeyByte_append {one other : UInt8} {rest rest' : Bytes}
    (same : escapeKeyByte one ++ rest = escapeKeyByte other ++ rest') :
    one = other ∧ rest = rest' := by
  unfold escapeKeyByte at same
  split_ifs at same <;> simp only [cons_append, nil_append, cons.injEq] at same <;>
    grind

/-- Only one string can stand at a place. -/
theorem quoted_unique {left right text : Bytes} (leftClosed : isStringBody left = true)
    (rightClosed : isStringBody right = true) (leftStands : quoted left <+: text)
    (rightStands : quoted right <+: text) : left = right := by
  obtain ⟨leftBehind, rfl⟩ := leftStands
  obtain ⟨rightBehind, same⟩ := rightStands
  have tails : right ++ 0x22 :: rightBehind = left ++ 0x22 :: leftBehind := by
    simpa [quoted] using same
  have lengths := congrArg stringRest tails
  rw [stringRest_body rightClosed, stringRest_body leftClosed] at lengths
  exact (append_inj tails (succ.inj lengths)).1.symm

/-- The needle is the key as it is written. -/
theorem keyNeedle_eq_quoted (key : String) :
    keyNeedle key = quoted ((utf8 key).flatMap escapeKeyByte) := rfl

/-- Only one key can stand at a place. -/
theorem keyNeedle_unique {left right : String} {text : Bytes}
    (leftStands : keyNeedle left <+: text) (rightStands : keyNeedle right <+: text) :
    left = right := by
  have bodies := quoted_unique (isStringBody_escaped _) (isStringBody_escaped _) leftStands
    rightStands
  exact utf8_injective (flatMap_injective_of_prefixCode escapeKeyByte_ne_nil
    (fun _ _ _ _ => escapeKeyByte_append) bodies)

variable {content : Bytes}

/-- A key is found at its first occurrence. -/
theorem findKeyOffset_eq_some_iff {key : String} {start stop position : Nat} :
    findKeyOffset content key start stop = some position ↔
      start ≤ position ∧ position + (keyNeedle key).length ≤ stop ∧
        FirstFrom (keyNeedle key) content start position := by
  have nonempty : keyNeedle key ≠ [] := cons_ne_nil _ _
  have positive : 0 < (keyNeedle key).length := length_pos_of_ne_nil nonempty
  -- Inside the range the needle stands where it stands in the content.
  have stands : ∀ offset, keyNeedle key <+: ((content.take stop).drop start).drop offset ↔
      keyNeedle key <+: content.drop (start + offset) ∧
        start + offset + (keyNeedle key).length ≤ stop := by
    intro offset
    rw [drop_drop, drop_take, prefix_take_iff]
    exact and_congr_right fun _ => by omega
  unfold findKeyOffset
  rw [map_eq_some_iff]
  constructor
  · rintro ⟨offset, found, rfl⟩
    obtain ⟨here, first⟩ := (windowPosition_eq_some_iff nonempty).mp found
    obtain ⟨inContent, fits⟩ := (stands _).mp here
    refine ⟨le_add_right _ _, fits, inContent, fun earlier after before earlierStands => ?_⟩
    refine first (earlier - start) (by omega) ((stands _).mpr ?_)
    rw [Nat.add_sub_cancel' after]
    exact ⟨earlierStands, by omega⟩
  · rintro ⟨after, fits, here, first⟩
    refine ⟨position - start, ?_, by omega⟩
    refine (windowPosition_eq_some_iff nonempty).mpr ⟨(stands _).mpr ?_, ?_⟩
    · rw [Nat.add_sub_cancel' after]
      exact ⟨here, fits⟩
    · intro earlier before earlierStands
      exact first (start + earlier) (le_add_right _ _) (by omega)
        ((stands _).mp earlierStands).1

/-! ### Members -/

/-- An entry stands in the content where it is placed. -/
def Placed.Stands {shape : Shape} (content : Bytes) (entry : Placed shape) : Prop :=
  ∃ behind, content.drop entry.start = entry.label.text ++ (entry.value.text ++ behind) ∧
    EndsScalar behind

section Member

variable {content : Bytes} {member : Placed .object}

/-- A needle that stands where a member starts is the text of its key. -/
theorem keyNeedle_of_stands {key : String} (stands : member.Stands content)
    (found : keyNeedle key <+: content.drop member.start) :
    keyNeedle key = quoted member.label.body.val := by
  obtain ⟨behind, standsAt, _⟩ := stands
  have own : quoted member.label.body.val <+: content.drop member.start := by
    rw [standsAt]
    simp only [Label.text, append_assoc]
    exact prefix_append _ _
  rw [keyNeedle_eq_quoted,
    quoted_unique (isStringBody_escaped _) member.label.body.property found own]

/-- A needle found at a member lies inside it. -/
theorem keyNeedle_fits {key : String} (stands : member.Stands content)
    (found : keyNeedle key <+: content.drop member.start) :
    member.start + (keyNeedle key).length ≤ member.stop := by
  rw [keyNeedle_of_stands stands found]
  simp only [stop, valueStart, Label.text, length_append]
  omega

/-- The colon stands behind the blanks. -/
theorem findIdx?_blank (blank : Blank) (rest : Bytes) :
    (blank.val ++ 0x3A :: rest).findIdx? (· == 0x3A) = some blank.val.length := by
  have noColon : blank.val.findIdx? (· == 0x3A) = none := by
    rw [findIdx?_eq_none_iff]
    intro byte inside
    have plain := all_eq_true.mp (isPlain_of_blank _) _ inside
    exact beq_eq_false_iff_ne.mpr (ne_of_class plain 0x3A rfl)
  rw [findIdx?_append, noColon]
  simp [findIdx?_cons]

/-- The search gives the bytes of a member exactly when it starts where the key is found. -/
theorem findKeyValueRange_eq_range_iff (key : String) {cursor parentEnd : Nat}
    (stands : member.Stands content) (before : cursor < member.start)
    (inside : member.stop ≤ parentEnd) (bounded : parentEnd ≤ content.length) :
    findKeyValueRange content key cursor parentEnd = member.range ↔
      FirstFrom (keyNeedle key) content cursor member.start := by
  unfold findKeyValueRange
  simp only [min_eq_left bounded]
  constructor
  · intro same
    split at same
    · -- A key that is not found gets bytes from the cursor on.
      have start := congrArg Prod.fst same
      simp only [Placed.range] at start
      omega
    · rename_i keyStart found
      have start : keyStart = member.start := by
        split at same <;> exact congrArg Prod.fst same
      subst start
      exact (findKeyOffset_eq_some_iff.mp found).2.2
  · intro first
    have needle := keyNeedle_of_stands stands first.1
    obtain ⟨behind, standsAt, ends⟩ := stands
    have labelText : member.label.text =
        keyNeedle key ++ (member.label.middle.val ++ 0x3A :: member.label.gap.val) := by
      rw [needle]
      rfl
    have labelLength : member.valueStart = member.start + (keyNeedle key).length +
        member.label.middle.val.length + 1 + member.label.gap.val.length := by
      rw [valueStart, labelText]
      simp
      omega
    have valueInside : member.valueStart ≤ member.stop := le_add_right _ _
    have found : findKeyOffset content key cursor parentEnd = some member.start :=
      findKeyOffset_eq_some_iff.mpr ⟨before.le, by omega, first⟩
    have keyAt : content.drop member.start = keyNeedle key ++ (member.label.middle.val ++
        ([0x3A] ++ (member.label.gap.val ++ (member.value.text ++ behind)))) := by
      rw [standsAt, labelText]
      simp
    have afterKey := drop_behind keyAt
    have afterColon := drop_behind (drop_behind afterKey)
    have colon : ((content.take parentEnd).drop
        (member.start + (keyNeedle key).length)).findIdx? (· == 0x3A) =
          some member.label.middle.val.length := by
      have room : parentEnd - (member.start + (keyNeedle key).length) -
          member.label.middle.val.length = parentEnd - (member.start + (keyNeedle key).length) -
            member.label.middle.val.length - 1 + 1 := by omega
      rw [drop_take, afterKey, take_append, take_of_length_le (by omega), room,
        singleton_append, take_succ_cons, findIdx?_blank]
    have valueAt : content.drop member.valueStart = member.value.text ++ behind := by
      rw [labelLength]
      exact drop_behind afterColon
    have valueStart : skipWhitespace content (member.start + (keyNeedle key).length +
        member.label.middle.val.length + 1) = member.valueStart := by
      obtain ⟨byte, more, starts, opening⟩ := member.value.text_head
      rw [starts, cons_append] at afterColon
      rw [labelLength]
      exact skipWhitespace_blank _ afterColon (isWhitespace_of_opens opening)
    have valueEnd : scanValueEnd content member.valueStart = member.stop :=
      scanValueEnd_text member.value valueAt ends
    simp [found, colon, valueStart, valueEnd, min_eq_left inside, Placed.range]

end Member

/-! ### Items -/

variable {behind : Bytes}

/-- Blanks end a scalar too. -/
theorem EndsScalar.blank (ends : EndsScalar behind) (blank : Blank) :
    EndsScalar (blank.val ++ behind) := by
  obtain ⟨bytes, blanks⟩ := blank
  cases bytes with
  | nil => exact ends
  | cons byte rest =>
    intro first isFirst
    cases isFirst
    rw [all_cons, Bool.and_eq_true] at blanks
    simp [isDelimiter, blanks.1]

/-- What follows the value of an entry. -/
theorem EndsScalar.entry (ends : EndsScalar behind) (after : Blank) {shape : Shape}
    (rest : Layout (.entries shape)) :
    EndsScalar (after.val ++ (rest.comma ++ (rest.text ++ behind))) := by
  refine EndsScalar.blank ?_ _
  cases rest with
  | done => exact ends
  | entry =>
    intro first isFirst
    cases isFirst
    rfl

/-- No more entries than bytes. -/
theorem length_place_le {shape : Shape} (entries : Layout (.entries shape)) (offset : Nat) :
    (entries.place offset).length ≤ entries.text.length := by
  induction entries using entries_induction generalizing offset with
  | done => exact zero_le _
  | entry before label value after rest ih =>
    obtain ⟨byte, more, starts, _⟩ := value.text_head
    have shorter := ih (stop ⟨offset + before.val.length, label, value⟩ +
      after.val.length + rest.comma.length)
    rw [place_entry, length_cons]
    simp only [text, length_append, starts, length_cons]
    omega

/-- Behind an item the loop skips whitespace and the comma, if there is one. -/
theorem skipWhitespace_after {itemEnd : Nat} (arrayEnd : Nat)
    (after : Blank) (rest : Layout (.entries .array))
    (standsAt : content.drop itemEnd =
      after.val ++ (rest.comma ++ (rest.text ++ 0x5D :: behind)))
    (room : itemEnd + after.val.length + rest.comma.length < arrayEnd) :
    (if skipWhitespace content itemEnd < arrayEnd ∧
        content[skipWhitespace content itemEnd]? = some 0x2C
      then skipWhitespace content itemEnd + 1 else skipWhitespace content itemEnd) =
        itemEnd + after.val.length + rest.comma.length := by
  have next : content[itemEnd + after.val.length]? =
      (rest.comma ++ (rest.text ++ 0x5D :: behind)).head? := by
    rw [← head?_drop, drop_behind standsAt]
  cases rest with
  | done =>
    rw [skipWhitespace_blank _ standsAt rfl, next]
    exact if_neg fun isComma => absurd isComma.2 (by simp [comma, text])
  | entry =>
    rw [skipWhitespace_blank _ standsAt rfl, next]
    exact if_pos ⟨by omega, rfl⟩

/-- The loop over the text of an array finds its items. -/
theorem itemRangesFrom_place {arrayEnd fuel cursor : Nat}
    (entries : Layout (.entries .array)) (lead : Blank)
    (standsAt : content.drop cursor = lead.val ++ (entries.text ++ 0x5D :: behind))
    (ends : arrayEnd = cursor + lead.val.length + entries.text.length + 1)
    (enough : (entries.place (cursor + lead.val.length)).length < fuel) :
    itemRangesFrom content arrayEnd fuel cursor =
      (entries.place (cursor + lead.val.length)).map Placed.range := by
  induction fuel generalizing entries lead cursor with
  | zero => exact absurd enough (not_lt_zero _)
  | succ fuel ih =>
    have notDone : ¬ arrayEnd ≤ cursor := by omega
    cases entries with
    | done =>
      have skipped := skipWhitespace_blank _ standsAt rfl
      have closing : content[cursor + lead.val.length]? = some 0x5D := by
        rw [← head?_drop, drop_behind standsAt]
        rfl
      rw [itemRangesFrom, if_neg notDone, skipped, if_pos (.inr closing)]
      rfl
    | entry before label value after rest =>
      have labelText : label.text = [] := rfl
      simp only [text, labelText, nil_append, append_assoc, length_append]
        at standsAt ends
      obtain ⟨byte, more, starts, opening⟩ := value.text_head
      have skipped : skipWhitespace content cursor =
          cursor + lead.val.length + before.val.length := by
        have blanks : (lead.val ++ before.val).all isWhitespace = true := by
          simp [lead.property, before.property]
        have leads : content.drop cursor = (lead.val ++ before.val) ++ byte ::
            (more ++ (after.val ++ (rest.comma ++ (rest.text ++ 0x5D :: behind)))) := by
          rw [standsAt, starts]
          simp
        have passed := skipWhitespace_blank ⟨_, blanks⟩ leads (isWhitespace_of_opens opening)
        rw [passed, length_append]
        omega
      have valueAt := drop_behind (drop_behind standsAt)
      have endsValue : EndsScalar
          (after.val ++ (rest.comma ++ (rest.text ++ 0x5D :: behind))) := by
        refine EndsScalar.entry (fun first isFirst => ?_) _ _
        cases isFirst
        rfl
      have valueEnd := scanValueEnd_text _ valueAt endsValue
      have isItem : ¬ (arrayEnd ≤ cursor + lead.val.length + before.val.length ∨
          content[cursor + lead.val.length + before.val.length]? = some 0x5D) := by
        rw [← head?_drop, valueAt, starts]
        rintro (beyond | closing)
        · omega
        · exact ne_of_class opening 0x5D rfl (some.inj closing)
      -- The item is the placed one, and the loop goes on with the rest of the entries.
      have behindValue := drop_behind valueAt
      have next := skipWhitespace_after arrayEnd _ _ behindValue (by omega)
      have later := ih _ ⟨[], rfl⟩ (drop_behind (drop_behind behindValue))
        (by simp only [length_nil]; omega) (lt_of_succ_lt_succ enough)
      rw [itemRangesFrom, if_neg notDone, skipped]
      simp only [if_neg isItem]
      rw [valueEnd, Nat.min_eq_left (by omega), next, later]
      rfl

/-! ### Values and their ranges -/

/-- What stands between the start of the range of a value and the value. -/
inductive Lead where
  | blank (blank : Blank)
  | key (key : Label .object)

/-- The bytes in front of the value. -/
def Lead.text : Lead → Bytes
  | .blank bytes => bytes.val
  | .key label => label.text

/-- Whether they have a key. -/
def Lead.labelled : Lead → Bool
  | .blank _ => false
  | .key _ => true

/-- A value stands in the content with its lead, and its range ends behind the trail. -/
structure Site (content : Bytes) (lead : Lead) (value : Layout .value) (trail : Blank)
    (start stop : Nat) : Prop where
  text : lead.text ++ (value.text ++ trail.val) <+: content.drop start
  stop_eq : stop = start + lead.text.length + value.text.length + trail.val.length

namespace Site

variable {content : Bytes} {lead : Lead} {value : Layout .value} {trail : Blank} {start stop : Nat}
  (site : Site content lead value trail start stop)

include site

/-- A site lies in the content. -/
theorem bounded : stop ≤ content.length := by
  obtain ⟨byte, more, starts, _⟩ := value.text_head
  have fits := site.text.length_le
  have ends := site.stop_eq
  simp only [length_append, starts, length_cons, length_drop] at fits ends
  omega

/-- It is not empty. -/
theorem start_lt : start < stop := by
  obtain ⟨byte, more, starts, _⟩ := value.text_head
  have ends := site.stop_eq
  simp only [starts, length_cons] at ends
  omega

/-- The bytes of a site. -/
theorem slice : (content.take stop).drop start = lead.text ++ (value.text ++ trail.val) := by
  obtain ⟨behind, standsAt⟩ := site.text
  have length : stop - start = (lead.text ++ (value.text ++ trail.val)).length := by
    have ends := site.stop_eq
    simp only [length_append]
    omega
  rw [drop_take, ← standsAt, length, take_left]

/-- The value stands behind the lead. -/
theorem valueAt : ∃ behind, content.drop (start + lead.text.length) = value.text ++ behind := by
  obtain ⟨behind, standsAt⟩ := site.text
  refine ⟨trail.val ++ behind, ?_⟩
  rw [← drop_drop, ← standsAt]
  simp

/-- The search for the start of a value starts from a colon, or passes whitespace. -/
theorem findValueStart_eq :
    findValueStartInRange content start stop = some (match
      firstColon .outside (lead.text ++ (value.text ++ trail.val)) with
      | some colon => min (skipWhitespace content (start + colon + 1)) stop
      | none => min (skipWhitespace content start) stop) := by
  have bounded := site.bounded
  have nonempty := site.start_lt
  unfold findValueStartInRange
  rw [if_neg (by omega), site.slice]
  cases firstColon .outside (lead.text ++ (value.text ++ trail.val)) <;> rfl

/-- Behind a key, or where there is no member, the search finds the value. -/
theorem findValueStart (plain : lead.labelled = false → value.hasMember = false) :
    findValueStartInRange content start stop = some (start + lead.text.length) := by
  have ends := site.stop_eq
  obtain ⟨behind, standsAt⟩ := site.text
  obtain ⟨byte, more, starts, opening⟩ := value.text_head
  have solid := isWhitespace_of_opens opening
  rw [site.findValueStart_eq]
  cases lead with
  | blank blank =>
    have noColon : firstColon .outside (blank.val ++ (value.text ++ trail.val)) = none := by
      have passesTrail := piecewise_firstColon.blank trail []
      rw [append_nil] at passesTrail
      rw [piecewise_firstColon.blank, piecewise_firstColon.layout value
        (fun member => by rw [plain rfl] at member; cases member), passesTrail]
      rfl
    have leads : content.drop start = blank.val ++ byte :: (more ++ (trail.val ++ behind)) := by
      rw [← standsAt, starts]
      simp [Lead.text]
    have skipped := skipWhitespace_blank _ leads solid
    simp only [Lead.text] at noColon ends ⊢
    rw [noColon, skipped]
    simp only [some.injEq]
    omega
  | key key =>
    simp only [Lead.text] at ends standsAt ⊢
    rw [firstColon_key]
    have labelLength : key.text.length =
        (quoted key.body.val).length + key.middle.val.length + 1 + key.gap.val.length := by
      simp [Label.text]
      omega
    have keyAt : content.drop start = quoted key.body.val ++ (key.middle.val ++
        ([0x3A] ++ (key.gap.val ++ byte :: (more ++ (trail.val ++ behind))))) := by
      rw [← standsAt, starts]
      simp [Label.text]
    have skipped := skipWhitespace_blank key.gap (drop_behind (drop_behind (drop_behind keyAt)))
      solid
    rw [length_singleton, add_assoc start] at skipped
    simp only [skipped, some.injEq]
    omega

/-- The first item of an array that has members is searched for behind its start. -/
theorem findValueStart_misled {blank before after : Blank} {label : Label .array}
    {item : Layout .value} {rest : Layout (.entries .array)}
    (array : value = .container .array blank (.entry before label item after rest))
    (unlabelled : lead.labelled = false) (member : value.hasMember = true) :
    ∃ valueStart, findValueStartInRange content start stop = some valueStart ∧
      start + lead.text.length + 1 + blank.val.length + before.val.length < valueStart := by
  have ends := site.stop_eq
  have found := site.findValueStart_eq
  cases lead with
  | key key => cases unlabelled
  | blank leading =>
    simp only [Lead.text] at ends found ⊢
    -- The scan passes everything before the item.
    have text : value.text ++ trail.val = [0x5B] ++ (blank.val ++ (before.val ++ (item.text ++
        (after.val ++ (rest.comma ++ (rest.text ++ ([0x5D] ++ trail.val))))))) := by
      rw [array]
      simp [Layout.text, Shape.opening, Shape.closing, Label.text]
    have bracket : ∀ text, firstColon .outside ([0x5B] ++ text) =
      (firstColon .outside text).map (· + 1) := fun _ => rfl
    obtain ⟨colon, isColon⟩ : ∃ colon, firstColon .outside (item.text ++
        (after.val ++ (rest.comma ++ (rest.text ++ ([0x5D] ++ trail.val))))) = some colon := by
      have some := firstColon_isSome _ member trail.val
      rw [text] at some
      rw [bracket, piecewise_firstColon.blank, piecewise_firstColon.blank, isSome_map,
        isSome_map, isSome_map] at some
      exact isSome_iff_exists.mp some
    have first : firstColon .outside (leading.val ++ (value.text ++ trail.val)) =
        some (colon + before.val.length + blank.val.length + 1 + leading.val.length) := by
      rw [text, piecewise_firstColon.blank, bracket, piecewise_firstColon.blank,
        piecewise_firstColon.blank, isColon]
      rfl
    have length : value.text.length = 1 + blank.val.length + before.val.length +
        item.text.length + after.val.length + rest.comma.length + rest.text.length + 1 := by
      rw [array]
      simp [Layout.text, Label.text]
      omega
    simp only [first] at found
    refine ⟨_, found, Nat.lt_min.mpr ⟨Nat.lt_of_lt_of_le ?_ (Nat.le_add_right _ _), by omega⟩⟩
    omega

end Site

/-- The items of an array are found, where the search starts at the array. -/
theorem findArrayItemRanges_place {start stop valueStart : Nat}
    {blank : Blank} {entries : Layout (.entries .array)}
    (found : findValueStartInRange content start stop = some valueStart)
    (standsAt : content.drop valueStart =
      (Layout.container .array blank entries).text ++ behind)
    (after : start ≤ valueStart)
    (inside : valueStart + (Layout.container .array blank entries).text.length ≤ stop)
    (bounded : stop ≤ content.length) :
    findArrayItemRanges content (start, stop) =
      (entries.place (valueStart + 1 + blank.val.length)).map Placed.range := by
  have scanned : scanContainerEnd content valueStart 0x5B = _ := scanContainerEnd_text standsAt
  have length : (container .array blank entries).text.length =
      blank.val.length + entries.text.length + 2 := by
    simp [text]
    omega
  have opening : content[valueStart]? = some 0x5B := by
    rw [← head?_drop, standsAt]
    rfl
  have entriesAt : content.drop (valueStart + 1) =
      blank.val ++ (entries.text ++ 0x5D :: behind) := by
    rw [← drop_drop, standsAt]
    simp [text, Shape.closing]
  have few := length_place_le entries (valueStart + 1 + blank.val.length)
  unfold findArrayItemRanges
  simp only [min_eq_left bounded, found, if_neg (show ¬ stop ≤ start by omega), opening,
    scanned, min_eq_left inside]
  rw [if_neg (by simp only [ne_eq, not_true, or_false]; omega)]
  exact itemRangesFrom_place _ _ entriesAt (by omega) (by omega)

/-- The first item starts at the cursor or later. -/
theorem itemRangesFrom_head {arrayEnd fuel cursor : Nat} {range : Nat × Nat}
    (first : (itemRangesFrom content arrayEnd fuel cursor)[0]? = some range) :
    cursor ≤ range.1 := by
  cases fuel with
  | zero => cases first
  | succ fuel =>
    simp only [itemRangesFrom] at first
    split_ifs at first
    · cases first
    · cases first
    all_goals
      cases first
      exact le_add_right _ _

/-- No item is found before the place that the search starts from. -/
theorem findArrayItemRanges_head {start stop valueStart : Nat}
    (found : findValueStartInRange content start (min stop content.length) = some valueStart)
    {range : Nat × Nat} (first : (findArrayItemRanges content (start, stop))[0]? = some range) :
    valueStart < range.1 := by
  unfold findArrayItemRanges at first
  simp only [found] at first
  split at first
  · cases first
  split at first
  · cases first
  · exact itemRangesFrom_head first

end Symforge.Parsing.Json
