import Symforge.Parsing.TomlDocument

/-!
# Finding lines in TOML documents

When a search over the lines of a text finds the line that defines a key.
-/

namespace Symforge.Parsing.Toml

open List

variable {content : Bytes}

/-! ### Lines -/

/-- A line has its line feed at least. -/
theorem rawLines_ne_nil : ∀ line ∈ rawLines content, line ≠ [] := by
  fun_induction rawLines content with
  | case1 => simp
  | case2 rest ih => exact forall_mem_cons.mpr ⟨cons_ne_nil _ _, ih⟩
  | case3 => simp
  | case4 byte rest _ line lines same ih =>
    rw [same] at ih
    exact forall_mem_cons.mpr ⟨cons_ne_nil _ _, (forall_mem_cons.mp ih).2⟩

/-- Behind the first line are the other ones. -/
theorem rawLines_drop_line {line : Bytes} {rest : List Bytes}
    (starts : rawLines content = line :: rest) :
    rawLines (content.drop line.length) = rest := by
  fun_induction rawLines content generalizing line rest with
  | case1 => cases starts
  | case2 tail =>
    cases starts
    rfl
  | case3 byte tail _ none =>
    cases starts
    exact none
  | case4 byte tail _ first lines same ih =>
    cases starts
    exact ih same

/-- The lines behind a line. -/
theorem rawLines_drop (line : Nat) :
    rawLines (content.drop (lineOffset content line)) = (rawLines content).drop line := by
  induction line generalizing content with
  | zero => rfl
  | succ line ih =>
    cases starts : rawLines content with
    | nil => simp [lineOffset, starts]
    | cons first rest =>
      have tail := rawLines_drop_line starts
      have offset : lineOffset content (line + 1) =
          first.length + lineOffset (content.drop first.length) line := by
        simp [lineOffset, starts, tail]
      rw [offset, ← drop_drop, ih, tail, drop_succ_cons]

/-- A line starts behind the lines in between. -/
theorem lineOffset_add (first more : Nat) : lineOffset content (first + more) =
    lineOffset content first +
      (((rawLines content).drop first).take more).flatten.length := by
  rw [lineOffset, take_add, flatten_append, length_append]
  rfl

/-- Later lines start later. -/
theorem lineOffset_lt {first second : Nat} (before : first < second)
    (inside : first < (rawLines content).length) :
    lineOffset content first < lineOffset content second := by
  obtain ⟨more, rfl⟩ := Nat.exists_eq_add_of_lt before
  have line := getElem_cons_drop inside
  have nonempty : (rawLines content)[first] ≠ [] := rawLines_ne_nil _ (getElem_mem inside)
  have positive := length_pos_of_ne_nil nonempty
  rw [Nat.add_assoc, lineOffset_add, ← line, take_succ_cons, flatten_cons, length_append]
  omega

/-- Lines start at different places. -/
theorem lineOffset_injective {first second : Nat} (firstInside : first ≤ (rawLines content).length)
    (secondInside : second ≤ (rawLines content).length)
    (same : lineOffset content first = lineOffset content second) : first = second := by
  rcases Nat.lt_trichotomy _ _ with before | equal | after
  · have less : lineOffset content first < lineOffset content second :=
      lineOffset_lt before (by omega)
    omega
  · exact equal
  · have less : lineOffset content second < lineOffset content first :=
      lineOffset_lt after (by omega)
    omega

/-! ### Searching -/

/-- The search stops at the line with so many accepted lines before it. -/
theorem findLine_eq_some_iff {accepts : Bytes → Bool} {lines : List Bytes} {index offset : Nat}
    {range : Nat × Nat} :
    findLine accepts index offset lines = some range ↔
      ∃ number line, lines[number]? = some line ∧ accepts line = true ∧
        (lines.take number).countP accepts = index ∧
        range = (offset + (lines.take number).flatten.length,
          offset + (lines.take (number + 1)).flatten.length) := by
  induction lines generalizing index offset with
  | nil => simp [findLine]
  | cons first rest ih =>
    -- The line is the first one, or one of the others.
    rw [← Nat.or_exists_add_one]
    simp only [getElem?_cons_zero, getElem?_cons_succ, take_zero,
      take_succ_cons, flatten_cons, length_append, flatten_nil,
      length_nil, ← Nat.add_assoc, countP_nil, countP_cons]
    by_cases accepted : accepts first = true
    · cases index with
      | zero => simpa [findLine, accepted] using eq_comm
      | succ index => simp [findLine, accepted, ih]
    · simp [findLine, accepted, ih]

variable {own : Lines content}

/-- The search gives the lines of a definition exactly if it stands there. -/
theorem findLine_eq_range_iff (accepts : Bytes → Bool) (start index : Nat) :
    (findLine accepts index (lineOffset content start) ((rawLines content).drop start)).getD
      (0, 0) = own.range ↔ StandsAt accepts start index own := by
  have ordered := own.ordered
  have inside := own.inside
  constructor
  · intro same
    cases found : findLine accepts index (lineOffset content start)
        ((rawLines _).drop _) with
    | none =>
      -- The bytes of a definition do not end at the start of the text.
      rw [found] at same
      have ends : 0 = lineOffset content (own.last + 1) := congrArg Prod.snd same
      have positive : lineOffset content 0 < lineOffset content (own.last + 1) :=
        lineOffset_lt (Nat.succ_pos _) (by omega)
      omega
    | some range =>
      obtain ⟨number, line, isLine, accepted, count, rfl⟩ := findLine_eq_some_iff.mp found
      rw [found, Option.getD_some, ← lineOffset_add, ← lineOffset_add] at same
      rw [getElem?_drop] at isLine
      obtain ⟨bound, _⟩ := List.getElem?_eq_some_iff.mp isLine
      have first : start + number = own.first :=
        lineOffset_injective (by omega) (by omega) (congrArg Prod.fst same)
      have last : start + (number + 1) = own.last + 1 :=
        lineOffset_injective (by omega) (by omega) (congrArg Prod.snd same)
      refine ⟨by omega, by omega, ⟨_, ?_, accepted⟩, ?_⟩
      · rw [← first]
        exact isLine
      · rw [← first, drop_take, Nat.add_sub_cancel_left]
        exact count
  · rintro ⟨single, after, ⟨line, isLine, accepted⟩, count⟩
    obtain ⟨number, first⟩ := Nat.exists_eq_add_of_le after
    rw [first, drop_take, Nat.add_sub_cancel_left] at count
    have standsThere : ((rawLines content).drop start)[number]? = some line := by
      rw [getElem?_drop, ← first]
      exact isLine
    have found : findLine accepts index (lineOffset content start)
        ((rawLines content).drop start) = some _ :=
      findLine_eq_some_iff.mpr ⟨_, _, standsThere, accepted, count, rfl⟩
    rw [found, Option.getD_some, ← lineOffset_add, ← lineOffset_add, Lines.range, ← single, first]
    rfl

/-- A key's own line is found if it is the first. -/
theorem findKeyValueBytes_eq_range_iff {key : String} {start : Nat} :
    findKeyValueBytes content key (lineOffset content start) = own.range ↔
      StandsAt (isKeyLine key) start 0 own := by
  rw [findKeyValueBytes, rawLines_drop]
  exact findLine_eq_range_iff _ _ _

/-- So is a table's header. -/
theorem findTableHeaderBytes_eq_range_iff {keyPath : String} :
    findTableHeaderBytes content keyPath = own.range ↔
      StandsAt (isHeaderLine (headerPattern keyPath)) 0 0 own :=
  findLine_eq_range_iff _ 0 0

/-- An array's header is found if as many stand in front. -/
theorem findArrayTableHeaderBytes_eq_range_iff {keyPath : String} {index : Nat} :
    findArrayTableHeaderBytes content keyPath index = own.range ↔
      StandsAt (isHeaderLine (arrayHeaderPattern keyPath)) 0 index own :=
  findLine_eq_range_iff _ 0 _

end Symforge.Parsing.Toml
