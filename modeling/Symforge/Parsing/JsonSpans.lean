import Symforge.Parsing.JsonPlaces

/-!
# Spans of JSON symbols

The symbols of a strict JSON document have the spans of their own members and items exactly when no
text misleads the search for the keys.
-/

namespace Symforge.Parsing.Json

open List Placed Nat Layout

variable {decode : Bytes → String} {content : Bytes} {stop start levels depth : Nat} {path : String}

/-! ### Items -/

/-- The symbols of an entry are as many as its spans, so those behind are compared on their own. -/
theorem walk_append_eq_iff {shape : Shape} (entry : Placed shape) {span : KeySpan}
    {name name' : String} {range : Nat × Nat} {rest rest' : List KeySpan} :
    span :: (walk content levels (depth + 1) (entry.value.denote decode) name range ++ rest) =
      entry.spans name' depth (ownSpans decode levels (depth + 1)) ++ rest' ↔
        span = ⟨name', depth, entry.range⟩ ∧
          walk content levels (depth + 1) (entry.value.denote decode) name range =
            ownSpans decode levels (depth + 1) entry.value name' entry.valueStart ∧
          rest = rest' := by
  rw [spans, cons_append, cons.injEq,
    append_eq_append_iff_of_size_eq_left (by rw [length_walk, length_ownSpans])]

/-- The walk of the value of an entry gives its spans exactly if a condition holds. -/
def ExactIff (decode : Bytes → String) (content : Bytes) (levels depth : Nat) {shape : Shape}
    (condition : Placed shape → Prop) (entry : Placed shape) : Prop :=
  ∀ name, walk content levels depth (entry.value.denote decode) name entry.range =
    ownSpans decode levels depth entry.value name entry.valueStart ↔ condition entry

/-- An array's spans are exact if its items' are. -/
theorem itemSpans_eq_iff {index : Nat} {range : Nat × Nat} {ranges : List (Nat × Nat)}
    {condition : Placed .array → Prop} (items : List (Placed .array))
    (exact : ∀ item ∈ items, ExactIff decode content levels (depth + 1) condition item)
    (found : ∀ offset item, items[offset]? = some item →
      ranges[index + offset]? = some item.range) :
    itemSpans ranges path range depth (walk content levels (depth + 1)) index
        (items.map fun item => item.value.denote decode) =
      (items.zipIdx index).flatMap (fun item => item.1.spans (joinArrayIndex path item.2) depth
        (ownSpans decode levels (depth + 1))) ↔
      ∀ item ∈ items, condition item := by
  induction items generalizing index with
  | nil => simp [itemSpans]
  | cons item rest ih =>
    have here : ranges[index]? = some item.range := found 0 _ rfl
    have later := @ih (index + 1)
      (fun other isLater => exact _ (mem_cons_of_mem _ isLater))
      (fun offset other isLater => by
        rw [add_assoc, add_comm 1]
        exact found (offset + 1) _ isLater)
    simp only [map_cons, itemSpans, zipIdx_cons, flatMap_cons, here, Option.getD_some]
    rw [walk_append_eq_iff, later, exact _ mem_cons_self, forall_mem_cons]
    simp

/-! ### Members -/

variable {members : List (Placed .object)}

/-- The walk of members in document order gives their spans exactly if every search finds its key.
-/
theorem memberSpans_eq_iff {cursor : Nat} (path : String) (offset : Placed .object → Nat)
    {condition : Placed .object → Prop}
    (bounded : stop ≤ content.length)
    (stands : ∀ member ∈ members, member.Stands content ∧ member.stop ≤ stop)
    (ordered : members.Pairwise (·.stop < ·.start))
    (behind : ∀ member ∈ members, cursor < member.start)
    (exact : ∀ member ∈ members, ExactIff decode content levels (depth + 1) condition member) :
    memberSpans content path stop depth (walk content levels (depth + 1)) cursor
        (members.map fun member =>
          ⟨offset member, member.key decode, member.value.denote decode⟩) =
      members.flatMap (fun member => member.spans (joinKeyPath path (member.key decode)) depth
        (ownSpans decode levels (depth + 1))) ↔
      KeysFirst decode content cursor members ∧ ∀ member ∈ members, condition member := by
  induction members generalizing cursor with
  | nil => simp [memberSpans, KeysFirst]
  | cons member rest ih =>
    obtain ⟨apart, ordered⟩ := pairwise_cons.mp ordered
    obtain ⟨memberStands, inside⟩ := stands _ mem_cons_self
    have later := @ih member.stop
      (fun other isLater => stands _ (mem_cons_of_mem _ isLater)) ordered apart
      (fun other isLater => exact _ (mem_cons_of_mem _ isLater))
    have isFirst := findKeyValueRange_eq_range_iff (member.key decode) memberStands
      (behind _ mem_cons_self) inside bounded
    have next : max member.range.2 cursor = member.stop := by
      have before := behind _ mem_cons_self
      simp only [Placed.range, Placed.stop, Placed.valueStart]
      omega
    simp only [map_cons, memberSpans, flatMap_cons, KeysFirst]
    rw [walk_append_eq_iff, forall_mem_cons, ← isFirst]
    constructor
    · rintro ⟨head, inner, tail⟩
      have range : findKeyValueRange content (member.key decode) cursor stop = member.range :=
        congrArg KeySpan.range head
      rw [range] at inner tail
      rw [next] at tail
      obtain ⟨keys, conditions⟩ := later.mp tail
      exact ⟨⟨range, keys⟩, (exact _ mem_cons_self _).mp inner, conditions⟩
    · rintro ⟨⟨range, keys⟩, here, conditions⟩
      rw [range, next]
      exact ⟨rfl, (exact _ mem_cons_self _).mpr here, later.mpr ⟨keys, conditions⟩⟩

/-- The names of the symbols give the members back. -/
theorem read_eq_of_memberSpans_eq {cursor : Nat} {entries : List Ordered}
    (values : ∀ entry ∈ entries, ∀ member ∈ members, entry.key = member.key decode →
      entry.value = member.value.denote decode)
    (same : memberSpans content path stop depth (walk content levels (depth + 1)) cursor entries =
      members.flatMap (fun member => member.spans (joinKeyPath path (member.key decode)) depth
        (ownSpans decode levels (depth + 1)))) :
    entries.map (fun entry => (entry.key, entry.value)) = members.map (Placed.read decode) := by
  induction entries generalizing members cursor with
  | nil =>
    cases members with
    | nil => rfl
    | cons member rest => cases same
  | cons entry others ih =>
    cases members with
    | nil => cases same
    | cons member rest =>
      obtain ⟨offset, key, value⟩ := entry
      have names : joinKeyPath path key = joinKeyPath path (member.key decode) :=
        congrArg KeySpan.name (cons.inj same).1
      have keys := joinKeyPath_injective names
      have heads : value = member.value.denote decode := values _ mem_cons_self _ mem_cons_self keys
      subst keys heads
      simp only [memberSpans, flatMap_cons] at same
      obtain ⟨_, _, tail⟩ := (walk_append_eq_iff _).mp same
      rw [map_cons, map_cons, ih (fun other isOther later isLater =>
        values _ (mem_cons_of_mem _ isOther) _ (mem_cons_of_mem _ isLater)) tail]
      rfl

/-- A key that stands somewhere behind the start is found. -/
theorem exists_findKeyOffset {key : String} {position : Nat}
    (stands : keyNeedle key <+: content.drop position) (behind : start ≤ position)
    (fits : position + (keyNeedle key).length ≤ stop) :
    ∃ first, findKeyOffset content key start stop = some first := by
  classical
  have occurs : ∃ place, start ≤ place ∧ keyNeedle key <+: content.drop place := ⟨_, behind, stands⟩
  obtain ⟨after, here⟩ := Nat.find_spec occurs
  have least := Nat.find_min' occurs ⟨behind, stands⟩
  refine ⟨Nat.find occurs, findKeyOffset_eq_some_iff.mpr ⟨after, by omega, here, ?_⟩⟩
  intro earlier afterStart before earlierStands
  exact Nat.find_min _ before ⟨afterStart, earlierStands⟩

/-- The order of two keys is that of the places where they are found. -/
theorem standsBefore_iff {left right : String} (different : left ≠ right)
    {leftPlace rightPlace : Nat}
    (leftFound : findKeyOffset content left start stop = some leftPlace)
    (rightFound : findKeyOffset content right start stop = some rightPlace) :
    StandsBefore content start (keyNeedle left) (keyNeedle right) ↔ leftPlace ≤ rightPlace := by
  obtain ⟨leftAfter, _, leftStands, leftFirst⟩ := findKeyOffset_eq_some_iff.mp leftFound
  obtain ⟨rightAfter, _, rightStands, rightFirst⟩ := findKeyOffset_eq_some_iff.mp rightFound
  constructor
  · rintro ⟨position, after, stands, none⟩
    have leftLe : leftPlace ≤ position :=
      Nat.le_of_not_lt fun earlier => leftFirst _ after earlier stands
    have rightGt : position < rightPlace :=
      Nat.lt_of_not_le fun earlier => none _ rightAfter earlier rightStands
    omega
  · intro inOrder
    refine ⟨leftPlace, leftAfter, leftStands, fun earlier after before stands => ?_⟩
    have rightLe : rightPlace ≤ earlier :=
      Nat.le_of_not_lt fun isEarlier => rightFirst _ after isEarlier stands
    have together : earlier = leftPlace := by omega
    exact different (keyNeedle_unique leftStands (together ▸ stands))

/-- Every key stands at its member. -/
theorem KeysFirst.stands
    (keys : KeysFirst decode content start members) :
    ∀ member ∈ members, keyNeedle (member.key decode) <+: content.drop member.start := by
  induction members generalizing start with
  | nil =>
    intro member inside
    cases inside
  | cons first rest ih =>
    rw [forall_mem_cons]
    exact ⟨keys.1.1, ih keys.2⟩

section Object

variable {levels depth start stop : Nat} {path : String} {condition : Placed .object → Prop}
  {entries : List (String × Value)} {members : List (Placed .object)}

/-- A member is known by its key. -/
theorem key_injective (distinct : members.Pairwise (·.key decode ≠ ·.key decode))
    {left right : Placed .object} (isLeft : left ∈ members) (isRight : right ∈ members)
    (keys : left.key decode = right.key decode) : left = right := by
  have nodup : (members.map (key decode)).Nodup := pairwise_map.mpr distinct
  exact inj_on_of_nodup_map nodup isLeft isRight keys

section
variable (same : entries.Perm (members.map (Placed.read decode)))
include same

/-- Ordering keeps the entries. -/
theorem orderEntries_perm :
    (orderEntries content start stop entries).Perm
      (members.map fun member => orderEntry content start stop (member.read decode)) := by
  refine (perm_insertionSort _ _).trans ((same.map _).trans ?_)
  rw [map_map]
  rfl

/-- Members with their keys in place are ordered by the search as in the document, exactly if their
keys stand in that order. -/
theorem orderEntries_eq_iff
    (distinct : members.Pairwise (·.key decode ≠ ·.key decode))
    (found : ∀ member ∈ members,
      ∃ first, findKeyOffset content (member.key decode) start stop = some first) :
    orderEntries content start stop entries =
      members.map (fun member => orderEntry content start stop (member.read decode)) ↔
        members.Pairwise fun earlier later => StandsBefore content start
          (keyNeedle (earlier.key decode)) (keyNeedle (later.key decode)) := by
  have sorted : (orderEntries content start stop entries).Pairwise (·.offset ≤ ·.offset) :=
    pairwise_insertionSort _ _
  have perm : (orderEntries content start stop entries).Perm _ := orderEntries_perm same
  -- Two members stand in order exactly if their offsets do.
  have inOrder : ∀ earlier ∈ members, ∀ later ∈ members, earlier.key decode ≠ later.key decode →
        (StandsBefore content start (keyNeedle (earlier.key decode))
          (keyNeedle (later.key decode)) ↔
            (orderEntry content start stop (earlier.read decode)).offset ≤
              (orderEntry content start stop (later.read decode)).offset) := by
    intro earlier isEarlier later isLater different
    obtain ⟨left, leftFound⟩ := found _ isEarlier
    obtain ⟨right, rightFound⟩ := found _ isLater
    simp only [orderEntry, Placed.read, leftFound, rightFound, Option.getD_some]
    exact standsBefore_iff different leftFound rightFound
  constructor
  · intro documentOrder
    rw [documentOrder, pairwise_map] at sorted
    exact (distinct.and sorted).imp_of_mem fun isEarlier isLater both =>
      (inOrder _ isEarlier _ isLater both.1).mpr both.2
  · intro stand
    have ordered : (members.map fun member =>
        orderEntry content start stop (member.read decode)).Pairwise (·.offset ≤ ·.offset) := by
      rw [pairwise_map]
      exact (distinct.and stand).imp_of_mem fun isEarlier isLater both =>
        (inOrder _ isEarlier _ isLater both.1).mp both.2
    refine List.Perm.eq_of_pairwise (fun one other isOne isOther le ge => ?_) sorted ordered perm
    obtain ⟨left, isLeft, rfl⟩ := mem_map.mp (perm.mem_iff.mp isOne)
    obtain ⟨right, isRight, rfl⟩ := mem_map.mp isOther
    obtain ⟨leftPlace, leftFound⟩ := found _ isLeft
    obtain ⟨rightPlace, rightFound⟩ := found _ isRight
    -- Keys that are found at one place are one key, and its member is one.
    have places : leftPlace = rightPlace := by
      simp only [orderEntry, Placed.read, leftFound, rightFound, Option.getD_some] at le ge
      omega
    have keys : left.key decode = right.key decode := by
      obtain ⟨_, _, leftStands, _⟩ := findKeyOffset_eq_some_iff.mp leftFound
      obtain ⟨_, _, rightStands, _⟩ := findKeyOffset_eq_some_iff.mp rightFound
      exact keyNeedle_unique leftStands (places ▸ rightStands)
    rw [key_injective distinct isLeft isRight keys]

/-- The walk of an object gives the spans of its members exactly if every search finds its member's
key, and the keys stand in order. -/
theorem objectSpans_eq_iff
    (distinct : members.Pairwise (·.key decode ≠ ·.key decode)) (bounded : stop ≤ content.length)
    (stands : ∀ member ∈ members, member.Stands content ∧ member.stop ≤ stop)
    (ordered : members.Pairwise (·.stop < ·.start))
    (behind : ∀ member ∈ members, start < member.start)
    (exact : ∀ member ∈ members, ExactIff decode content levels (depth + 1) condition member) :
    memberSpans content path stop depth (walk content levels (depth + 1)) start
        (orderEntries content start stop entries) =
      members.flatMap (fun member => member.spans (joinKeyPath path (member.key decode)) depth
        (ownSpans decode levels (depth + 1))) ↔
      KeysFirst decode content start members ∧
        (members.Pairwise fun earlier later => StandsBefore content start
          (keyNeedle (earlier.key decode)) (keyNeedle (later.key decode))) ∧
        ∀ member ∈ members, condition member := by
  have inDocumentOrder := memberSpans_eq_iff path (fun member =>
    (findKeyOffset content (member.key decode) start stop).getD start) bounded stands
    ordered behind exact
  have found : KeysFirst decode content start members → ∀ member ∈ members,
      ∃ first, findKeyOffset content (member.key decode) start stop = some first := by
    intro keys member isMember
    obtain ⟨memberStands, inside⟩ := stands _ isMember
    have needle := keys.stands _ isMember
    have fits := keyNeedle_fits memberStands needle
    exact exists_findKeyOffset needle (Nat.le_of_lt (behind _ isMember)) (by omega)
  have isOrdered : ∀ entry ∈ orderEntries content start stop entries,
      ∃ member ∈ members, orderEntry content start stop (member.read decode) = entry :=
    fun entry isEntry => mem_map.mp ((orderEntries_perm same).mem_iff.mp isEntry)
  constructor
  · intro spans
    have values : ∀ entry ∈ orderEntries content start stop entries, ∀ member ∈ members,
        entry.key = member.key decode → entry.value = member.value.denote decode := by
      intro entry isEntry member isMember keys
      obtain ⟨own, isOwn, rfl⟩ := isOrdered _ isEntry
      rw [← key_injective distinct isOwn isMember keys]
      rfl
    have reads := read_eq_of_memberSpans_eq values spans
    have documentOrder : orderEntries content start stop entries =
        members.map fun member => orderEntry content start stop (member.read decode) := by
      have rebuilt : (orderEntries content start stop entries).map (fun entry =>
          orderEntry content start stop (entry.key, entry.value)) =
            orderEntries content start stop entries := by
        refine (map_congr_left fun entry isEntry => ?_).trans (map_id _)
        obtain ⟨own, _, rfl⟩ := isOrdered _ isEntry
        rfl
      have mapped := congrArg (List.map (orderEntry content start stop)) reads
      rw [map_map, map_map] at mapped
      exact rebuilt.symm.trans mapped
    rw [documentOrder] at spans
    obtain ⟨keys, conditions⟩ := inDocumentOrder.mp spans
    exact ⟨keys, (orderEntries_eq_iff same distinct (found keys)).mp documentOrder, conditions⟩
  · rintro ⟨keys, stand, conditions⟩
    rw [(orderEntries_eq_iff same distinct (found keys)).mpr stand]
    exact inDocumentOrder.mpr ⟨keys, conditions⟩

end

end Object

/-! ### Values -/

/-- The walk of an array gives the spans of its items exactly if no colon of a member misleads the
search, and none inside the items. -/
theorem arraySpans_eq_iff {levels depth start stop : Nat} {path : String} {lead : Lead}
    {blank trail : Blank} {entries : Layout (.entries .array)} {condition : Placed .array → Prop}
    (site : Site content lead (.container .array blank entries) trail start stop)
    (exact : ∀ item ∈ entries.place (start + lead.text.length + 1 + blank.val.length),
      ExactIff decode content levels (depth + 1) condition item) :
    walk content (levels + 1) depth ((container .array blank entries).denote decode) path
        (start, stop) =
      ownSpans decode (levels + 1) depth (.container .array blank entries) path
        (start + lead.text.length) ↔
      (lead.labelled = false → entries.hasMember = false) ∧
        ∀ item ∈ (entries.place (start + lead.text.length + 1 + blank.val.length)).take
          maxArrayItems, condition item := by
  simp only [walk, denote, ownSpans,
    denote_items _ (start + lead.text.length + 1 + blank.val.length)]
  by_cases plain : lead.labelled = false → entries.hasMember = false
  · rw [and_iff_right plain]
    obtain ⟨behind, standsAt⟩ := site.valueAt
    have ranges := findArrayItemRanges_place (site.findValueStart plain) standsAt
      (le_add_right _ _) (by have ends := site.stop_eq; omega) site.bounded
    rw [ranges]
    refine itemSpans_eq_iff _ (fun item isItem => exact _ (mem_of_mem_take isItem)) ?_
    intro offset item isItem
    have isPlaced : (entries.place (start + lead.text.length + 1 + blank.val.length))[offset]? =
        some item := by
      rw [getElem?_take] at isItem
      split at isItem
      · exact isItem
      · cases isItem
    rw [zero_add, getElem?_map, isPlaced]
    rfl
  · refine iff_of_false ?_ fun both => plain both.1
    intro same
    obtain ⟨unlabelled, member⟩ := Classical.not_imp.mp plain
    rw [Bool.not_eq_false] at member
    cases entries with
    | done => cases member
    | entry before label value after rest =>
      -- The first item gets bytes that start behind it, or those of the whole array.
      obtain ⟨valueStart, found, misled⟩ := site.findValueStart_misled rfl unlabelled member
      rw [← min_eq_left site.bounded] at found
      rw [place_entry] at same
      have range : ((findArrayItemRanges content (start, stop))[0]?.getD (start, stop)).1 =
          start + lead.text.length + 1 + blank.val.length + before.val.length :=
        congrArg (fun span : KeySpan => span.range.1) (cons.inj same).1
      cases first : (findArrayItemRanges content (start, stop))[0]? with
      | none =>
        rw [first] at range
        simp only [Option.getD_none] at range
        omega
      | some other =>
        have later := findArrayItemRanges_head found first
        rw [first] at range
        simp only [Option.getD_some] at range
        omega

/-- An item stands without a lead. -/
theorem Placed.Stands.itemSite {item : Placed .array} (stands : item.Stands content) :
    Site content (.blank ⟨[], rfl⟩) item.value ⟨[], rfl⟩ item.start item.stop where
  text := by
    obtain ⟨behind, standsAt, _⟩ := stands
    refine ⟨behind, ?_⟩
    rw [standsAt]
    simp [Lead.text, Label.text]
  stop_eq := by simp [stop, valueStart, Lead.text, Label.text]

/-- A member stands behind its key. -/
theorem Placed.Stands.memberSite {member : Placed .object} (stands : member.Stands content) :
    Site content (.key member.label) member.value ⟨[], rfl⟩ member.start member.stop where
  text := by
    obtain ⟨behind, standsAt, _⟩ := stands
    refine ⟨behind, ?_⟩
    rw [standsAt]
    simp [Lead.text]
  stop_eq := by simp [stop, valueStart, Lead.text]

/-- The entries of a container stand inside its range. -/
theorem Site.entries {lead : Lead} {shape : Shape} {blank trail : Blank}
    {entries : Layout (.entries shape)} {start stop : Nat}
    (site : Site content lead (.container shape blank entries) trail start stop) :
    ∀ entry ∈ entries.place (start + lead.text.length + 1 + blank.val.length),
      entry.Stands content ∧ entry.stop ≤ stop := by
  obtain ⟨behind, standsAt⟩ := site.valueAt
  have entriesAt : content.drop (start + lead.text.length + 1 + blank.val.length) =
      entries.text ++ (shape.closing :: behind) := by
    rw [← drop_drop, ← drop_drop, standsAt]
    simp [Layout.text]
  have ends : EndsScalar (shape.closing :: behind) := by
    intro first isFirst
    cases isFirst
    cases shape <;> rfl
  intro entry isEntry
  refine ⟨place_stands entriesAt ends _ isEntry, ?_⟩
  have inside := (mem_place_bounds isEntry).2
  have stopEq := site.stop_eq
  simp only [Layout.text, length_append, length_cons] at stopEq
  omega

/-- The walk of a value gives the spans of its members and items exactly if no text misleads it. -/
theorem walk_eq_ownSpans_iff {levels depth : Nat} {value : Layout .value} {path : String}
    {lead : Lead} {trail : Blank} {start stop : Nat}
    (site : Site content lead value trail start stop) :
    walk content levels depth (value.denote decode) path (start, stop) =
      ownSpans decode levels depth value path (start + lead.text.length) ↔
        Searchable decode content levels value lead.labelled start
          (start + lead.text.length) := by
  induction levels generalizing depth value path lead trail start stop with
  | zero => cases value <;> simp [walk, ownSpans, Searchable]
  | succ levels ih =>
    cases value with
    | scalar text | string body => simp [walk, ownSpans, Searchable, denote]
    | container shape blank entries =>
      have stands := site.entries
      cases shape with
      | array =>
        have exact : ∀ item ∈ entries.place (start + lead.text.length + 1 + blank.val.length),
            ExactIff decode content levels (depth + 1) (fun item =>
              Searchable decode content levels item.value false item.start item.valueStart)
              item :=
          fun item isItem name => ih (stands _ isItem).1.itemSite
        exact arraySpans_eq_iff site exact
      | object =>
        have kept := (keptMembers_sublist decode (entries.place
          (start + lead.text.length + 1 + blank.val.length))).subset
        have exact : ∀ member ∈ keptMembers decode (entries.place
            (start + lead.text.length + 1 + blank.val.length)),
            ExactIff decode content levels (depth + 1) (fun member =>
              Searchable decode content levels member.value true member.start member.valueStart)
              member :=
          fun member isMember name => ih (stands _ (kept isMember)).1.memberSite
        have inRange : start ≤ content.length := (le_of_lt site.start_lt).trans site.bounded
        simp only [walk, denote, min_eq_left inRange, min_eq_left site.bounded]
        refine objectSpans_eq_iff (buildMap_perm _ _) (pairwise_pwFilter _) site.bounded
          (fun member isMember => stands _ (kept isMember))
          ((place_pairwise _ _).sublist (keptMembers_sublist _ _)) ?_ exact
        intro member isMember
        have after := (mem_place_bounds (kept isMember)).1
        omega

/-! ### Documents -/

/-- The root is a site of the document. -/
theorem Document.site (document : Document) :
    Site document.text (.blank document.before) document.root document.after 0
      document.text.length where
  text := by
    rw [drop_zero]
    exact prefix_refl _
  stop_eq := by
    simp only [Document.text, Lead.text, length_append]
    omega

/-- The symbols of a document that the parser reads are those of the walk. -/
theorem spans_extract {fromSlice : Bytes → Except SerdeError Value} {document : Document}
    (reads : fromSlice document.text = .ok (document.value decode)) :
    (extract fromSlice document.text).symbols.map ConfigSymbol.span =
      walk document.text maxDepth 0 (document.value decode) "" (0, document.text.length) := by
  unfold extract
  rw [normalizeJsonc_text, reads, map_map]
  exact zipIdx_map_fst 0 _

/-- The symbols of a strict JSON document are its members and items, each with its own bytes, those
of one depth disjoint and in order, exactly if no text misleads the search for the keys. -/
theorem extract_spans_iff_searchable (fromSlice : Bytes → Except SerdeError Value)
    (decode : Bytes → String) (document : Document)
    (reads : fromSlice document.text = .ok (document.value decode)) :
    ((extract fromSlice document.text).symbols.map ConfigSymbol.span = document.spans decode ∧
      (extract fromSlice document.text).symbols.Pairwise fun first second =>
        first.depth = second.depth → first.byteRange.2 ≤ second.byteRange.1) ↔
      document.Searchable decode := by
  have walked : walk document.text maxDepth 0 (document.value decode) ""
      (0, document.text.length) = document.spans decode ↔ document.Searchable decode := by
    have exact : walk document.text maxDepth 0 (document.root.denote decode) ""
        (0, document.text.length) = ownSpans decode maxDepth 0 document.root ""
          (0 + document.before.val.length) ↔ Searchable decode document.text maxDepth
            document.root false 0 (0 + document.before.val.length) :=
      walk_eq_ownSpans_iff document.site
    rw [zero_add] at exact
    exact exact
  rw [spans_extract reads, walked]
  refine ⟨And.left, fun searchable => ⟨searchable, ?_⟩⟩
  have within : SpansWithin 0 _ _ (ownSpans decode maxDepth 0 document.root ""
    document.before.val.length) := ownSpans_within maxDepth 0 document.root "" _
  have ordered := within.ordered
  have same : (extract fromSlice document.text).symbols.map ConfigSymbol.span =
      ownSpans decode maxDepth 0 document.root "" document.before.val.length :=
    (spans_extract reads).trans (walked.mpr searchable)
  rw [← same, pairwise_map] at ordered
  exact ordered

/-- No blank at all. -/
def noBlank : Blank := ⟨[], rfl⟩

/-- A key of one letter. -/
def letterKey (letter : UInt8) (closed : isStringBody [letter] = true) : Label .object :=
  ⟨⟨[letter], closed⟩, noBlank, noBlank⟩

/-- The value `1`. -/
def digit : Layout .value := .scalar ⟨[0x31], by decide⟩

/-- ASCII bytes as a text. -/
def asciiText (bytes : Bytes) : String :=
  String.ofList (bytes.map fun byte => Char.ofNat byte.toNat)

/-- A document whose keys differ. -/
def distinctKeys : Document where
  before := noBlank
  root := .container .object noBlank (.entry noBlank (letterKey 0x61 rfl)
    (.container .object noBlank (.entry noBlank (letterKey 0x62 rfl) digit noBlank .done)) noBlank
    (.entry noBlank (letterKey 0x63 rfl)
      (.container .array noBlank (.entry noBlank () digit noBlank .done)) noBlank .done))
  after := noBlank

/-- Its keys are found. -/
theorem distinctKeys_searchable :
    distinctKeys.text = utf8 "\x7b\"a\":\x7b\"b\":1\x7d,\"c\":[1]\x7d" ∧
      distinctKeys.Searchable asciiText :=
  ⟨by decide +kernel,
    (extract_spans_iff_searchable (fun _ => .ok (distinctKeys.value asciiText)) asciiText
      distinctKeys rfl).mp ⟨by decide +kernel, by decide +kernel⟩⟩

/-- A key inside the member with the same key. -/
def nestedKey : Document where
  before := noBlank
  root := .container .object noBlank (.entry noBlank (letterKey 0x61 rfl)
    (.container .object noBlank (.entry noBlank (letterKey 0x61 rfl) digit noBlank .done)) noBlank
    .done)
  after := noBlank

/-- A key inside the value of a member with the same key gets the bytes of the outer member. -/
theorem extract_nestedKey :
    nestedKey.text = utf8 "\x7b\"a\":\x7b\"a\":1\x7d\x7d" ∧
      (extract (fun _ => .ok (nestedKey.value asciiText)) nestedKey.text).symbols.map
        ConfigSymbol.span = [⟨"a", 0, (1, 12)⟩, ⟨"a.a", 1, (1, 12)⟩] ∧
      nestedKey.spans asciiText = [⟨"a", 0, (1, 12)⟩, ⟨"a.a", 1, (6, 11)⟩] :=
  ⟨by decide +kernel, by decide +kernel, by decide +kernel⟩

end Symforge.Parsing.Json
