import Symforge.Parsing.TomlSearch

/-!
# Spans of TOML symbols

The symbols of a TOML document have the lines that define their keys and tables exactly when no line
misleads the search for them.
-/

namespace Symforge.Parsing.Toml

open List

variable {content : Bytes}

/-! ### The number of symbols -/

/-- As many spans as the inline table has. -/
theorem length_walkInline {Place : Type} {keyPath : String}
    {walkChild : String → String → TomlValue Place → Nat → List KeySpan × Nat}
    {spans : String × Place × TomlValue Place → List DefinedSpan}
    {entries : List (String × Place × TomlValue Place)}
    (lengths : ∀ entry ∈ entries, ∀ searchFrom,
      (walkChild entry.1 (joinKeyPath keyPath entry.1) entry.2.2 searchFrom).1.length =
        (spans entry).length) (searchFrom : Nat) :
    (walkInline keyPath walkChild entries searchFrom).1.length =
      (entries.flatMap spans).length := by
  induction entries generalizing searchFrom with
  | nil => rfl
  | cons entry rest ih =>
    rw [forall_mem_cons] at lengths
    rw [flatMap_cons, length_append, ← lengths.1 _]
    exact (length_append).trans (congrArg _ (ih lengths.2 _))

variable (levels depth : Nat) (key keyPath : String) (own : Lines content) (start : Nat)
  (left right : List (String × Lines content)) (value : TomlValue (Lines content))

/-- As many spans as the value has. -/
theorem length_walkValue (searchFrom : Nat) :
    (walkValue content levels depth key keyPath value searchFrom).1.length =
      (valueSpans levels depth keyPath own value).length := by
  induction levels generalizing depth key keyPath own value searchFrom with
  | zero => rfl
  | succ levels ih =>
    simp only [walkValue, valueSpans, length_cons]
    rw [length_walkInline fun entry _ => ih (depth + 1) entry.1 (joinKeyPath keyPath entry.1)
      entry.2.1 entry.2.2]

/-! ### Keys -/

/-- Where the search goes on behind keys that are found. -/
def afterKeys : Nat → List (String × Lines content) → Nat
  | start, [] => start
  | _, (_, own) :: rest => afterKeys (own.first + 1) rest

/-- Where the search is after both lists. -/
theorem afterKeys_append :
    afterKeys start (left ++ right) = afterKeys (afterKeys start left) right := by
  induction left generalizing start with
  | nil => rfl
  | cons entry rest ih => exact ih _

/-- The keys of both lists come first. -/
theorem keysFirst_append :
    KeysFirst start (left ++ right) ↔
      KeysFirst start left ∧ KeysFirst (afterKeys start left) right := by
  induction left generalizing start with
  | nil => simp [KeysFirst, afterKeys]
  | cons entry rest ih =>
    simp [cons_append, KeysFirst, afterKeys, ih, and_assoc]

/-- A search from a line on gives the lines of keys exactly if every key is found there, and goes on
behind them. -/
structure ExactFrom (result : List KeySpan × Nat) (spans : List DefinedSpan) (start : Nat)
    (keys : List (String × Lines content)) : Prop where
  exact_iff : result.1.map definedSpan = spans ↔ KeysFirst start keys
  goesOn : KeysFirst start keys → result.2 = lineOffset content (afterKeys start keys)

/-- No spans are exact. -/
theorem exactFrom_nil :
    ExactFrom ([], lineOffset content start) [] start ([] : List (String × Lines content)) :=
  ⟨by simp [KeysFirst], fun _ => rfl⟩

/-- Two searches one after the other. -/
theorem ExactFrom.append {first : List KeySpan × Nat} {second : Nat → List KeySpan × Nat}
    {firstSpans secondSpans : List DefinedSpan} {start : Nat}
    {firstKeys secondKeys : List (String × Lines content)}
    (exactFirst : ExactFrom first firstSpans start firstKeys)
    (lengths : first.1.length = firstSpans.length)
    (exactSecond : ∀ line,
      ExactFrom (second (lineOffset content line)) secondSpans line secondKeys) :
    ExactFrom (first.1 ++ (second first.2).1, (second first.2).2) (firstSpans ++ secondSpans) start
      (firstKeys ++ secondKeys) where
  exact_iff := by
    rw [map_append, keysFirst_append,
      append_eq_append_iff_of_size_eq_left (by rw [length_map, lengths]),
      exactFirst.exact_iff]
    refine and_congr_right fun keys => ?_
    rw [exactFirst.goesOn keys, (exactSecond _).exact_iff]
  goesOn := by
    rw [keysFirst_append, afterKeys_append]
    rintro ⟨keys, others⟩
    rw [exactFirst.goesOn keys]
    exact (exactSecond _).goesOn others

/-- A key's span is exact if its line comes first. -/
theorem exactFrom_key (depth : Nat) (key keyPath : String) (own : Lines content) (start : Nat) :
    ExactFrom ([⟨keyPath, depth, findKeyValueBytes content key (lineOffset content start)⟩],
      max (findKeyValueBytes content key (lineOffset content start)).2 (lineOffset content start))
      [⟨keyPath, depth, some own.range⟩] start [(key, own)] where
  exact_iff := by
    simp [KeysFirst, definedSpan, findKeyValueBytes_eq_range_iff]
  goesOn := by
    rintro ⟨stands, _⟩
    have range := findKeyValueBytes_eq_range_iff.mpr stands
    obtain ⟨single, after, _⟩ := stands
    have inside := own.inside
    have behind : lineOffset content start < lineOffset content (own.first + 1) :=
      lineOffset_lt (by omega) (by omega)
    simp only [range, Lines.range, afterKeys, ← single]
    omega

/-- An inline table's spans are exact if its values' are. -/
theorem exactFrom_inline {keyPath : String}
    {walkChild : String → String → TomlValue (Lines content) → Nat → List KeySpan × Nat}
    {spans : String × Lines content × TomlValue (Lines content) → List DefinedSpan}
    {keys : String × Lines content × TomlValue (Lines content) → List (String × Lines content)}
    {entries : List (String × Lines content × TomlValue (Lines content))}
    (lengths : ∀ entry ∈ entries, ∀ searchFrom,
      (walkChild entry.1 (joinKeyPath keyPath entry.1) entry.2.2 searchFrom).1.length =
        (spans entry).length)
    (exact : ∀ entry ∈ entries, ∀ line,
      ExactFrom (walkChild entry.1 (joinKeyPath keyPath entry.1) entry.2.2
        (lineOffset content line)) (spans entry) line (keys entry)) (line : Nat) :
    ExactFrom (walkInline keyPath walkChild entries (lineOffset content line))
      (entries.flatMap spans) line (entries.flatMap keys) := by
  induction entries generalizing line with
  | nil => exact exactFrom_nil _
  | cons entry rest ih =>
    rw [forall_mem_cons] at lengths exact
    exact (exact.1 _).append (lengths.1 _) (ih lengths.2 exact.2)

/-- When a value's spans are exact. -/
theorem exactFrom_value (line : Nat) :
    ExactFrom (walkValue content levels depth key keyPath value (lineOffset content line))
      (valueSpans levels depth keyPath own value) line (valueKeys levels key own value) := by
  induction levels generalizing depth key keyPath own value line with
  | zero => exact exactFrom_nil _
  | succ levels ih =>
    refine (exactFrom_key _ _ _ _ _).append rfl ?_
    exact exactFrom_inline
      (fun entry _ searchFrom => length_walkValue _ (depth + 1) entry.1 _ entry.2.1 entry.2.2
        _)
      (fun entry _ => ih (depth + 1) entry.1 _ entry.2.1 entry.2.2)

/-! ### Tables -/

/-- The walk of a table gives as many symbols as the table has, and their lines exactly if a
condition holds. -/
structure ExactTables (walkChild : Table (Lines content) → String → List KeySpan)
    (inner : Table (Lines content) → String → List DefinedSpan)
    (condition : Table (Lines content) → String → Prop) : Prop where
  lengths : ∀ table path, (walkChild table path).length = (inner table path).length
  exact_iff : ∀ table path,
    (walkChild table path).map definedSpan = inner table path ↔ condition table path

section Tables

variable {walkChild : Table (Lines content) → String → List KeySpan}
  {inner : Table (Lines content) → String → List DefinedSpan}
  {condition : Table (Lines content) → String → Prop}
  (exact : ExactTables walkChild inner condition)

include exact

/-- The symbols of one table can be compared on their own. -/
theorem ExactTables.append_iff {table : Table (Lines content)} {span : KeySpan}
    {defined : DefinedSpan} {path : String} {rest : List KeySpan} {spans : List DefinedSpan} :
    (span :: (walkChild table path ++ rest)).map definedSpan =
      defined :: inner table path ++ spans ↔
        definedSpan span = defined ∧ condition table path ∧ rest.map definedSpan = spans := by
  rw [map_cons, map_append, cons_append, cons.injEq, ← exact.exact_iff,
    append_eq_append_iff_of_size_eq_left (by rw [length_map, exact.lengths])]

/-- As many spans as the tables have. -/
theorem length_walkTables (keyPath : String) (depth index : Nat)
    (tables : List (Lines content × Table (Lines content))) :
    (walkTables content keyPath depth walkChild index tables).length =
      ((tables.zipIdx index).flatMap fun table =>
        ⟨joinArrayIndex keyPath table.2, depth, some table.1.1.range⟩ ::
          inner table.1.2 (joinArrayIndex keyPath table.2)).length := by
  induction tables generalizing index with
  | nil => rfl
  | cons table rest ih =>
    simp only [walkTables, zipIdx_cons, flatMap_cons, length_cons, length_append, exact.lengths, ih]
    omega

/-- An array of tables is exact header by header. -/
theorem walkTables_eq_iff (keyPath : String) (depth index : Nat)
    (tables : List (Lines content × Table (Lines content))) :
    (walkTables content keyPath depth walkChild index tables).map definedSpan =
      (tables.zipIdx index).flatMap (fun table =>
        ⟨joinArrayIndex keyPath table.2, depth, some table.1.1.range⟩ ::
          inner table.1.2 (joinArrayIndex keyPath table.2)) ↔
      ∀ table ∈ tables.zipIdx index,
        StandsAt (isHeaderLine (arrayHeaderPattern keyPath)) 0 table.2 table.1.1 ∧
          condition table.1.2 (joinArrayIndex keyPath table.2) := by
  induction tables generalizing index with
  | nil => simp [walkTables]
  | cons table rest ih =>
    rw [zipIdx_cons, flatMap_cons, forall_mem_cons, ← ih (index + 1)]
    refine (exact.append_iff).trans ?_
    rw [← findArrayTableHeaderBytes_eq_range_iff]
    simp [definedSpan, and_assoc]

/-- As many spans as the items have. -/
theorem length_walkItems (levels depth : Nat) (parentPath : String) (searchFrom : Nat)
    (entries : Table (Lines content)) :
    (walkItems content levels depth parentPath walkChild searchFrom entries).length =
      (entries.flatMap fun entry =>
        itemSpans levels depth inner (joinKeyPath parentPath entry.1) entry.2).length := by
  induction entries generalizing searchFrom with
  | nil => rfl
  | cons entry rest ih =>
    obtain ⟨key, item⟩ := entry
    rw [flatMap_cons, length_append, ← ih searchFrom]
    cases item with
    | none => exact (Nat.zero_add _).symm
    | value own value =>
      simp [walkItems, itemSpans, length_append, ih, length_walkValue _ _ _ _ own]
    | table own entries =>
      simp only [walkItems, itemSpans, length_cons, length_append, exact.lengths]
      omega
    | arrayOfTables tables =>
      simp [walkItems, itemSpans, length_append, length_walkTables exact]

/-- The loop over a table gives the lines of its keys and tables exactly if the keys stand one
behind the other, and the headers where they are searched for. -/
theorem walkItems_eq_iff (levels depth : Nat) (parentPath : String) (line : Nat)
    (entries : Table (Lines content)) :
    (walkItems content levels depth parentPath walkChild (lineOffset content line) entries).map
        definedSpan =
      entries.flatMap (fun entry =>
        itemSpans levels depth inner (joinKeyPath parentPath entry.1) entry.2) ↔
      KeysFirst line (tableKeys levels entries) ∧ ∀ entry ∈ entries,
        HeadersStand condition (joinKeyPath parentPath entry.1) entry.2 := by
  induction entries generalizing line with
  | nil => simp [walkItems, tableKeys, KeysFirst]
  | cons entry rest ih =>
    obtain ⟨key, item⟩ := entry
    rw [flatMap_cons, forall_mem_cons]
    cases item with
    | none => exact (ih line).trans (and_congr_right fun _ => (true_and _).symm.to_iff)
    | value own value =>
      have exactValue :=
        exactFrom_value levels depth key (joinKeyPath parentPath key) own value line
      have keys : tableKeys levels ((key, .value own value) :: rest) =
        valueKeys levels key own value ++ tableKeys levels rest := rfl
      have spans : itemSpans levels depth inner (joinKeyPath parentPath key) (.value own value) =
        valueSpans levels depth (joinKeyPath parentPath key) own value := rfl
      have noHeader : HeadersStand condition (joinKeyPath parentPath key) (.value own value) :=
        trivial
      rw [keys, keysFirst_append, spans, walkItems, map_append, and_iff_right noHeader,
        append_eq_append_iff_of_size_eq_left
          (by rw [length_map, length_walkValue _ _ _ _ own]),
        exactValue.exact_iff, and_assoc]
      refine and_congr_right fun found => ?_
      rw [exactValue.goesOn found, ih]
    | table own entries =>
      have header : definedSpan ⟨joinKeyPath parentPath key, depth,
          findTableHeaderBytes content (joinKeyPath parentPath key)⟩ =
            ⟨joinKeyPath parentPath key, depth, own.map Lines.range⟩ ↔
              ∃ header ∈ own, StandsAt
                (isHeaderLine (headerPattern (joinKeyPath parentPath key))) 0 0 header := by
        cases own with
        | none => simp [definedSpan]
        | some own => simp [definedSpan, findTableHeaderBytes_eq_range_iff]
      refine (exact.append_iff).trans ?_
      rw [header, ih line, ← and_assoc]
      exact and_left_comm
    | arrayOfTables tables =>
      have arrays := walkTables_eq_iff exact (joinKeyPath parentPath key) depth 0 tables
      have lengths := length_walkTables exact (joinKeyPath parentPath key) depth 0 tables
      rw [walkItems, map_append, append_eq_append_iff_of_size_eq_left (by
        rw [length_map, lengths]
        rfl)]
      exact (and_congr arrays (ih _)).trans and_left_comm

end Tables

/-- The walk of a table gives the lines of its keys and tables exactly if no line misleads it. -/
theorem walkTable_exact (levels depth : Nat) :
    ExactTables (walkTable content levels depth : Table (Lines content) → _ → _)
      (tableSpans levels depth) (Searchable levels) := by
  induction levels generalizing depth with
  | zero => exact ⟨fun _ _ => rfl, fun _ _ => by simp [walkTable, tableSpans, Searchable]⟩
  | succ levels ih =>
    refine ⟨fun table path => ?_, fun table path => ?_⟩
    · exact length_walkItems (ih (depth + 1)) (levels + 1) _ _ 0 _
    · exact walkItems_eq_iff (ih (depth + 1)) (levels + 1) _ _ 0 _

/-! ### Documents -/

/-- The symbols of a document that the parser accepts are those of the walk. -/
theorem definedSpans_extract {env : Environment Lines} {document : Table (Lines content)}
    (valid : validUtf8 content = true) (accepted : env.parse content = .ok document)
    (noKeys : isBlank content = true → document = []) :
    (extract env content).symbols.map (fun symbol => definedSpan symbol.span) =
      (walkTable content maxDepth 0 document "").map definedSpan := by
  unfold extract
  rw [if_pos valid]
  split
  · rename_i blank
    rw [noKeys blank]
    rfl
  · rw [accepted]
    conv_rhs => rw [← zipIdx_map_fst 0 (walkTable content maxDepth 0 document "")]
    simp only [map_map]
    rfl

/-- The symbols of a TOML document are its keys and tables, each with the lines that define it, and
two have the same bytes only if they have the same lines, exactly if no line misleads the search for
the keys and headers. -/
theorem extract_lines_iff_searchable (env : Environment Lines) (content : Bytes)
    (document : Table (Lines content)) (valid : validUtf8 content = true)
    (accepted : env.parse content = .ok document)
    (noKeys : isBlank content = true → document = []) :
    ((extract env content).symbols.map (fun symbol => definedSpan symbol.span) =
        tableSpans maxDepth 0 document "" ∧
      ∀ one ∈ (extract env content).symbols.zip (tableSpans maxDepth 0 document ""),
        ∀ other ∈ (extract env content).symbols.zip (tableSpans maxDepth 0 document ""),
          one.1.byteRange = other.1.byteRange → one.2.range = other.2.range) ↔
      Searchable maxDepth document "" := by
  rw [← (walkTable_exact maxDepth 0).exact_iff _ "", ← definedSpans_extract valid accepted noKeys]
  refine ⟨And.left, fun same => ⟨same, ?_⟩⟩
  have own : ∀ pair ∈ (extract env content).symbols.zip (tableSpans maxDepth 0 document ""),
      pair.2.range = some pair.1.byteRange := by
    intro pair inside
    obtain ⟨position, isPair⟩ := mem_iff_getElem?.mp inside
    obtain ⟨symbolAt, spanAt⟩ := getElem?_zip_eq_some.mp isPair
    rw [← same, getElem?_map, symbolAt] at spanAt
    rw [← Option.some.inj spanAt]
    rfl
  intro one isOne other isOther bytes
  rw [own _ isOne, own _ isOther, bytes]

/-- A parser that reads one text. -/
def readsOnly (content : Bytes) (document : Table (Lines content)) : Environment Lines where
  utf8Message _ := ""
  parse text := if same : content = text then .ok (same ▸ document) else .error ⟨"", none⟩

/-- The sample parser reads its document. -/
theorem readsOnly_parse (document : Table (Lines content)) :
    (readsOnly content document).parse content = .ok document :=
  dif_pos rfl

/-- A key and a table with a key of its own: `a=1`, `[t]`, `b=2`. -/
def distinctNames : Bytes := utf8 "a=1\n[t]\nb=2\n"

/-- The tables and keys of `distinctNames` with their lines. -/
def distinctNamesDocument : Table (Lines distinctNames) :=
  [("a", .value ⟨0, 0, by decide, by decide +kernel⟩ .plain),
    ("t", .table (some ⟨1, 1, by decide, by decide +kernel⟩)
      [("b", .value ⟨2, 2, by decide, by decide +kernel⟩ .plain)])]

/-- Its names are found. -/
theorem distinctNames_searchable : Searchable maxDepth distinctNamesDocument "" :=
  (extract_lines_iff_searchable (readsOnly _ distinctNamesDocument) _
    distinctNamesDocument (by decide +kernel) (readsOnly_parse _)
    (fun blank => absurd blank (by decide +kernel))).mp
    ⟨by decide +kernel, by decide +kernel⟩

/-- Two tables with a key of the same name: `[a]`, `k=1`, `[b]`, `k=2`. -/
def sameName : Bytes := utf8 "[a]\nk=1\n[b]\nk=2\n"

/-- The tables and keys of `sameName` with their lines. -/
def sameNameDocument : Table (Lines sameName) :=
  [("a", .table (some ⟨0, 0, by decide, by decide +kernel⟩)
      [("k", .value ⟨1, 1, by decide, by decide +kernel⟩ .plain)]),
    ("b", .table (some ⟨2, 2, by decide, by decide +kernel⟩)
      [("k", .value ⟨3, 3, by decide, by decide +kernel⟩ .plain)])]

/-- The key of the second table gets the line of the first one. -/
theorem extract_sameName :
    (extract (readsOnly sameName sameNameDocument) sameName).symbols.map ConfigSymbol.span =
        [⟨"a", 0, (0, 4)⟩, ⟨"a.k", 1, (4, 8)⟩, ⟨"b", 0, (8, 12)⟩, ⟨"b.k", 1, (4, 8)⟩] ∧
      tableSpans maxDepth 0 sameNameDocument "" =
        [⟨"a", 0, some (0, 4)⟩, ⟨"a.k", 1, some (4, 8)⟩, ⟨"b", 0, some (8, 12)⟩,
          ⟨"b.k", 1, some (12, 16)⟩] :=
  ⟨by decide +kernel, by decide +kernel⟩

end Symforge.Parsing.Toml
