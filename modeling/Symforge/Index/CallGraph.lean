import Mathlib.Data.List.Flatten
import Mathlib.Data.List.Sort
import Mathlib.Data.Prod.Lex
import Mathlib.Data.String.Basic
import Symforge.Index.Disambiguation

/-!
# The call graph

Model of `GraphProjection` in `live_index/graph.rs`: the callers of every definition and, for
every call edge, its call sites. Every edge has evidence, kept under its own edge; the structure
carries both facts. The maps of the source are lists of groups with distinct keys.
-/

namespace Symforge

open Library List

/-- `graph::SymbolId`. -/
structure SymbolId where
  path : String
  name : String
  kind : SymbolKind
  deriving DecidableEq, Repr

/-- What symbol ids are ordered by: path, name, and the discriminant of the kind. -/
def SymbolId.key (id : SymbolId) : String ×ₗ String ×ₗ Nat :=
  toLex (id.path, toLex (id.name, id.kind.ctorIdx))

/-- A symbol is known by its key. -/
theorem SymbolId.key_injective : Function.Injective SymbolId.key := by
  rintro ⟨path, name, kind⟩ ⟨path', name', kind'⟩ same
  have pathSame : path = path' := congrArg Prod.fst (toLex_inj.mp same)
  have rest := congrArg Prod.snd (toLex_inj.mp same)
  have nameSame : name = name' := congrArg Prod.fst (toLex_inj.mp rest)
  have kindSame : kind.ctorIdx = kind'.ctorIdx := congrArg Prod.snd (toLex_inj.mp rest)
  have kinds : kind = kind' := by
    cases kind <;> cases kind' <;> first | rfl | cases kindSame
  rw [pathSame, nameSame, kinds]

instance : LinearOrder SymbolId := LinearOrder.lift' SymbolId.key SymbolId.key_injective

/-- The pair of a caller and a callee that call sites are kept under. -/
structure CallEdge where
  caller : SymbolId
  callee : SymbolId
  deriving DecidableEq, Repr

/-- `graph::ResolutionReason`. -/
inductive ResolutionReason where
  | uniqueName | qualifiedModule | qualifiedOwner
  deriving DecidableEq, Repr

/-- `graph::CallEdgeEvidence`. -/
structure CallEdgeEvidence where
  caller : SymbolId
  callee : SymbolId
  callSitePath : String
  byteRange : Nat × Nat
  lineRange : Nat × Nat
  resolution : ResolutionReason
  deriving DecidableEq, Repr

/-- What the evidence of one edge is sorted by. -/
def CallEdgeEvidence.key (evidence : CallEdgeEvidence) :
    String ×ₗ (Nat ×ₗ Nat) ×ₗ (Nat ×ₗ Nat) ×ₗ Nat :=
  toLex (evidence.callSitePath, toLex (toLex evidence.byteRange,
    toLex (toLex evidence.lineRange, evidence.resolution.ctorIdx)))

/-- `graph::GraphProjection`; the counts of nodes and edges are left out. -/
structure GraphProjection where
  inEdges : List (SymbolId × List SymbolId)
  edgeEvidence : List (CallEdge × List CallEdgeEvidence)
  /-- Every edge has evidence. -/
  evidenced : ∀ callee callers, inEdges.lookup callee = some callers → ∀ caller ∈ callers,
    ∃ first rest, edgeEvidence.lookup ⟨caller, callee⟩ = some (first :: rest)
  /-- Evidence is kept under its own edge. -/
  labelled : ∀ caller callee kept, edgeEvidence.lookup ⟨caller, callee⟩ = some kept →
    ∀ evidence ∈ kept, evidence.caller = caller ∧ evidence.callee = callee

/-- A symbol with the place it was found at: `SymbolRecord` and its `sort_order`. -/
structure GraphSymbol extends SymbolRecord where
  sortOrder : Nat
  deriving DecidableEq, Repr

/-- A reference with its lines and the symbol around it. -/
structure GraphReference extends ReferenceRecord where
  lineRange : Nat × Nat
  enclosingSymbolIndex : Option Nat
  deriving DecidableEq, Repr

/-- What the graph reads of an indexed file. -/
structure GraphFile where
  language : LanguageId
  symbols : List GraphSymbol
  references : List GraphReference
  deriving DecidableEq, Repr

/-- The files of the index by path. -/
abbrev GraphFiles := List (String × GraphFile)

/-- `graph::graph_language_family`. -/
def graphLanguageFamily : LanguageId → LanguageId
  | .javaScript | .typeScript => .javaScript
  | .c | .cpp => .c
  | .java | .kotlin => .java
  | other => other

/-- The id of a symbol in a file. -/
def symbolIdIn (path : String) (symbol : GraphSymbol) : SymbolId := ⟨path, symbol.name, symbol.kind⟩

variable (files : GraphFiles)

/-- `defs_by_name`: the definitions of a name in a family of languages. -/
def definitionsOf (family : LanguageId) (name : String) : List SymbolId :=
  files.flatMap fun file => if graphLanguageFamily file.2.language = family then
      (file.2.symbols.filter (·.name = name)).map (symbolIdIn file.1)
    else []

/-- `Path::file_stem`. -/
def fileStem (path : Bytes) : Option Bytes :=
  let components := (splitAtBytes (· == 0x2F) path).filter fun part =>
    part ≠ [] ∧ part ≠ utf8 "."
  components.getLast?.bind fun name =>
    if name = utf8 ".." then none
    else match rfind name (utf8 ".") with
      | none | some 0 => some name
      | some dot => some (name.take dot)

/-- The hint names the file of the candidate or a directory it is in. -/
def pathMatches (hint : Bytes) (candidate : SymbolId) : Bool :=
  let path := utf8 candidate.path
  fileStem path == some hint ||
    (splitAtBytes (fun byte => byte == 0x2F || byte == 0x5C) path).any (· == hint)

/-- How many definitions like a candidate in its file are in an `impl` block of the hinted type. -/
def fileOwnerHits (hint : Bytes) (leaf : String) (candidate : SymbolId) : Nat :=
  match files.lookup candidate.path with
  | none => 0
  | some file => file.symbols.countP fun symbol =>
      symbol.name = leaf ∧ symbol.kind = candidate.kind ∧
        enclosingImplOwner (file.symbols.map (·.toSymbolRecord)) symbol.lineRange.1 = some hint

/-- The loop of the owner match: one hit in one file, or nothing. -/
def matchOwner (hits : SymbolId → Nat) : Option SymbolId → List SymbolId → Option SymbolId
  | matched, [] => matched
  | matched, candidate :: rest =>
    if hits candidate = 0 then matchOwner hits matched rest
    else if 1 < hits candidate ∨ matched.isSome then none
    else matchOwner hits (some candidate) rest

/-- The innermost qualifier of a qualified name: `a` in `crate::a::run`. -/
def qualifierHint (qualifiedName : Bytes) : Option Bytes :=
  (rfind qualifiedName (utf8 "::")).map fun leaf =>
    let head := qualifiedName.take leaf
    match rfind head (utf8 "::") with
    | some inner => head.drop (inner + 2)
    | none => head

/-- `graph::resolve_ambiguous_callee`. -/
def resolveAmbiguousCallee (candidates : List SymbolId)
    (qualifiedName : Option String) : Option (SymbolId × ResolutionReason) := do
  let name ← qualifiedName
  let hint ← qualifierHint (utf8 name)
  if hint = [] then none
  else match candidates.filter (pathMatches hint) with
    | _ :: _ :: _ => none
    | [matched] => some (matched, .qualifiedModule)
    | [] =>
      let leaf ← candidates.head?
      let owner ← matchOwner (fileOwnerHits files hint leaf.name) none candidates
      return (owner, .qualifiedOwner)

/-- `Iterator::min_by_key`: the first of the least. -/
def minByKey {Item Key : Type} [LinearOrder Key] (key : Item → Key) : List Item → Option Item
  | [] => none
  | first :: rest => match minByKey key rest with
    | some least => if key least < key first then some least else some first
    | none => some first

/-- The caller of a reference: the innermost symbol on the line of the enclosing one that holds the
call. -/
def callerSymbol (file : GraphFile) (reference : GraphReference) : Option GraphSymbol := do
  let index ← reference.enclosingSymbolIndex
  let enclosing ← file.symbols[index]?
  let candidates := file.symbols.filter fun symbol =>
    symbol.lineRange.1 = enclosing.lineRange.1 ∧ symbol.byteRange.1 ≤ reference.byteRange.1 ∧
      reference.byteRange.2 ≤ symbol.byteRange.2
  return (minByKey (fun symbol : GraphSymbol =>
    toLex (symbol.byteRange.2 - symbol.byteRange.1, symbol.sortOrder)) candidates).getD enclosing

/-- The callee of a reference and why it is that one. -/
def resolveCallee (file : GraphFile) (reference : GraphReference) :
    Option (SymbolId × ResolutionReason) :=
  match definitionsOf files (graphLanguageFamily file.language) reference.name with
  | [] => none
  | [only] => some (only, .uniqueName)
  | many => resolveAmbiguousCallee files many reference.qualifiedName

/-- The edge of a reference, if it is a call with a caller and a callee that differ. -/
def callEdge (path : String) (file : GraphFile) (reference : GraphReference) :
    Option CallEdgeEvidence := do
  if reference.kind ≠ .call then none
  let symbol ← callerSymbol file reference
  let caller := symbolIdIn path symbol
  let (callee, resolution) ← resolveCallee files file reference
  if callee = caller then none
  else some ⟨caller, callee, path, reference.byteRange, reference.lineRange, resolution⟩

/-- The call edges of the index, one for each call site. -/
def callEdges : List CallEdgeEvidence :=
  files.flatMap fun file => file.2.references.filterMap (callEdge files file.1 file.2)

variable (edges : List CallEdgeEvidence)

/-- The callers of every callee, sorted and without repetition. -/
def groupCallers : List (SymbolId × List SymbolId) :=
  (groupByKey (edges.map fun edge => (edge.callee, edge.caller))).map fun group =>
    (group.1, dedupAdjacent (group.2.insertionSort (· ≤ ·)))

/-- The evidence of every edge, sorted and without repetition. -/
def groupEvidence : List (CallEdge × List CallEdgeEvidence) :=
  (groupByKey (edges.map fun edge => (CallEdge.mk edge.caller edge.callee, edge))).map fun group =>
    (group.1, dedupAdjacent (group.2.insertionSort fun one other => one.key ≤ other.key))

/-- The groups of pairs, each rearranged by a function that keeps its members. -/
theorem lookup_groups {Key Item : Type} [DecidableEq Key] {pairs : List (Key × Item)}
    {arrange : List Item → List Item} (keeps : ∀ items item, item ∈ arrange items ↔ item ∈ items)
    {key : Key} {item : Item} :
    (∃ kept, ((groupByKey pairs).map fun group => (group.1, arrange group.2)).lookup key =
      some kept ∧ item ∈ kept) ↔ (key, item) ∈ pairs := by
  constructor
  · rintro ⟨kept, found, member⟩
    obtain ⟨before, after, split, -⟩ := lookup_eq_some_iff.mp found
    have listed : (key, kept) ∈ (groupByKey pairs).map fun group => (group.1, arrange group.2) := by
      rw [split]
      exact mem_append_right _ mem_cons_self
    obtain ⟨group, isGroup, same⟩ := mem_map.mp listed
    cases same
    exact (inGroup_groupByKey _ group.1 _).mp ⟨group.2, isGroup, (keeps _ _).mp member⟩
  · intro member
    obtain ⟨items, isGroup, inItems⟩ := (inGroup_groupByKey _ _ _).mpr member
    refine ⟨arrange _, lookup_of_mem ?_ (mem_map.mpr ⟨_, isGroup, rfl⟩), (keeps _ _).mpr inItems⟩
    rw [map_map]
    exact nodup_keys_groupByKey _

/-- Sorting keeps the callers. -/
theorem mem_sorted_callers (callers : List SymbolId) (caller : SymbolId) :
    caller ∈ dedupAdjacent (callers.insertionSort (· ≤ ·)) ↔ caller ∈ callers := by
  rw [mem_dedupAdjacent, mem_insertionSort]

/-- Sorting keeps the evidence. -/
theorem mem_sorted_evidence (kept : List CallEdgeEvidence) (evidence : CallEdgeEvidence) :
    evidence ∈ dedupAdjacent (kept.insertionSort fun one other => one.key ≤ other.key) ↔
      evidence ∈ kept := by
  rw [mem_dedupAdjacent, mem_insertionSort]

/-- The evidence of an edge. -/
theorem lookup_groupEvidence {edge : CallEdge} {evidence : CallEdgeEvidence} :
    (∃ kept, (groupEvidence edges).lookup edge = some kept ∧ evidence ∈ kept) ↔
      evidence ∈ edges ∧ CallEdge.mk evidence.caller evidence.callee = edge := by
  refine (lookup_groups mem_sorted_evidence).trans ?_
  simp [and_comm]

/-- The callers of a symbol. -/
theorem lookup_groupCallers {caller callee : SymbolId} :
    (∃ kept, (groupCallers edges).lookup callee = some kept ∧ caller ∈ kept) ↔
      ∃ evidence ∈ edges, evidence.callee = callee ∧ evidence.caller = caller := by
  refine (lookup_groups mem_sorted_callers).trans ?_
  simp

namespace GraphProjection

/-- `GraphProjection::from_index`. -/
def fromIndex (files : GraphFiles) : GraphProjection where
  inEdges := groupCallers (callEdges files)
  edgeEvidence := groupEvidence (callEdges files)
  evidenced callee callers found caller member := by
    obtain ⟨evidence, listed, rfl, rfl⟩ := (lookup_groupCallers _).mp ⟨_, found, member⟩
    obtain ⟨kept, isKept, inKept⟩ := (lookup_groupEvidence _).mpr ⟨listed, rfl⟩
    cases kept with
    | nil => cases inKept
    | cons first rest => exact ⟨first, rest, isKept⟩
  labelled caller callee kept found evidence member := by
    obtain ⟨-, same⟩ := (lookup_groupEvidence _).mp ⟨_, found, member⟩
    cases same
    exact ⟨rfl, rfl⟩

variable (graph : GraphProjection)

/-- The callers of a symbol. -/
def callers (symbol : SymbolId) : List SymbolId := (graph.inEdges.lookup symbol).getD []

/-- `canonical_edge_evidence`. -/
def canonicalEdgeEvidence (caller callee : SymbolId) : Option CallEdgeEvidence :=
  (graph.edgeEvidence.lookup ⟨caller, callee⟩).bind head?

/-- The evidence is that of an edge of the graph. -/
def HasEdge (evidence : CallEdgeEvidence) : Prop :=
  evidence.caller ∈ graph.callers evidence.callee ∧
    ∃ kept, graph.edgeEvidence.lookup ⟨evidence.caller, evidence.callee⟩ = some kept ∧
      evidence ∈ kept

/-- A caller has a call edge. -/
theorem mem_callers_fromIndex {files : GraphFiles} {caller callee : SymbolId} :
    caller ∈ (fromIndex files).callers callee ↔
      ∃ evidence ∈ callEdges files, evidence.callee = callee ∧ evidence.caller = caller := by
  rw [← lookup_groupCallers]
  show caller ∈ ((groupCallers (callEdges files)).lookup callee).getD [] ↔ _
  cases (groupCallers (callEdges files)).lookup callee <;> simp

/-- The edges of the projection are the calls of the index that have a caller and a callee. -/
theorem fromIndex_hasEdge_iff (files : GraphFiles) (evidence : CallEdgeEvidence) :
    (fromIndex files).HasEdge evidence ↔ ∃ file ∈ files, ∃ reference ∈ file.2.references,
      callEdge files file.1 file.2 reference = some evidence := by
  simp only [← mem_filterMap, ← mem_flatMap]
  constructor
  · intro edge
    exact ((lookup_groupEvidence _).mp edge.2).1
  · intro listed
    exact ⟨mem_callers_fromIndex.mpr ⟨_, listed, rfl, rfl⟩,
      (lookup_groupEvidence _).mpr ⟨listed, rfl⟩⟩

variable {graph : GraphProjection} {caller callee : SymbolId}

/-- Every edge has its canonical evidence. -/
theorem exists_canonicalEdgeEvidence (edge : caller ∈ graph.callers callee) :
    ∃ evidence, graph.canonicalEdgeEvidence caller callee = some evidence := by
  unfold callers at edge
  cases found : graph.inEdges.lookup callee with
  | none =>
    rw [found] at edge
    cases edge
  | some callers =>
    rw [found] at edge
    obtain ⟨first, rest, kept⟩ := graph.evidenced _ _ found _ edge
    refine ⟨first, ?_⟩
    rw [canonicalEdgeEvidence, kept]
    rfl

/-- The canonical evidence is of that edge. -/
theorem canonicalEdgeEvidence_spec {evidence : CallEdgeEvidence}
    (edge : caller ∈ graph.callers callee)
    (canonical : graph.canonicalEdgeEvidence caller callee = some evidence) :
    evidence.caller = caller ∧ evidence.callee = callee ∧ graph.HasEdge evidence := by
  obtain ⟨kept, found, first⟩ := Option.bind_eq_some_iff.mp canonical
  have member : evidence ∈ kept := mem_of_mem_head? first
  obtain ⟨isCaller, isCallee⟩ := graph.labelled _ _ _ found _ member
  refine ⟨isCaller, isCallee, ?_⟩
  rw [HasEdge, isCaller, isCallee]
  exact ⟨edge, _, found, member⟩

/-- All callers in the graph, edge by edge. -/
def allCallers : List SymbolId := graph.inEdges.flatMap Prod.snd

/-- Callers are among all callers. -/
theorem callers_subset (callee : SymbolId) :
    ∀ caller ∈ graph.callers callee, caller ∈ graph.allCallers := by
  intro caller member
  unfold callers at member
  cases found : graph.inEdges.lookup callee with
  | none =>
    rw [found] at member
    cases member
  | some callers =>
    rw [found] at member
    obtain ⟨before, after, split, -⟩ := lookup_eq_some_iff.mp found
    refine mem_flatMap.mpr ⟨(callee, callers), ?_, member⟩
    rw [split]
    exact mem_append_right _ mem_cons_self

end GraphProjection

/-! ### Owner-qualified calls -/

/-- The definitions of a name in an `impl` block of the hinted type, one entry for each. -/
def ownedDefinitions (family : LanguageId) (name : String) (hint : Bytes) (files : GraphFiles) :
    List SymbolId :=
  files.flatMap fun file => if graphLanguageFamily file.2.language = family then
      (file.2.symbols.filter fun symbol => symbol.name = name ∧
        enclosingImplOwner (file.2.symbols.map (·.toSymbolRecord)) symbol.lineRange.1 =
          some hint).map (symbolIdIn file.1)
    else []

/-- A call whose qualifier names no file of the index. -/
structure OwnerCall where
  files : GraphFiles
  distinct : (files.map Prod.fst).Nodup
  family : LanguageId
  name : String
  qualifiedName : String
  hint : Bytes
  qualified : qualifierHint (utf8 qualifiedName) = some hint
  named : hint ≠ []
  elsewhere : (definitionsOf files family name).filter (pathMatches hint) = []

namespace OwnerCall

variable (call : OwnerCall)

/-- The definitions of the name. -/
def candidates : List SymbolId := definitionsOf call.files call.family call.name

/-- Those with the hinted owner. -/
def owned : List SymbolId := ownedDefinitions call.family call.name call.hint call.files

/-- The call is linked to the only definition with the hinted owner, and else to none. -/
def LinksOnlyDefinition : Prop :=
  ∀ target, (∃ reason, resolveAmbiguousCallee call.files call.candidates
    (some call.qualifiedName) = some (target, reason)) ↔ call.owned = [target]

variable {target : SymbolId}

/-- One candidate is hit, and once. -/
theorem matchOwner_eq_some {hits : SymbolId → Nat} {candidates : List SymbolId}
    {matched : Option SymbolId} : matchOwner hits matched candidates = some target ↔
      matched.toList ++ candidates.filter (hits · ≠ 0) = [target] ∧
        ∀ candidate ∈ candidates, hits candidate ≤ 1 := by
  induction candidates generalizing matched with
  | nil => cases matched <;> simp [matchOwner]
  | cons candidate rest ih =>
    unfold matchOwner
    by_cases zero : hits candidate = 0
    · simp [zero, ih]
    by_cases many : 1 < hits candidate ∨ matched.isSome
    · rw [if_neg zero, if_pos many]
      refine iff_of_false nofun fun ⟨only, once⟩ => ?_
      rcases many with many | already
      · exact Nat.not_le_of_lt many (once _ mem_cons_self)
      obtain ⟨found, rfl⟩ := Option.isSome_iff_exists.mp already
      simp [zero] at only
    · obtain ⟨once, none⟩ := not_or.mp many
      obtain rfl := Option.not_isSome_iff_eq_none.mp none
      rw [if_neg zero, if_neg many, ih, forall_mem_cons, and_iff_right (Nat.not_lt.mp once)]
      simp [zero]

/-- Owned definitions are candidates. -/
theorem owned_sublist : call.owned <+ call.candidates := by
  refine Sublist.flatMap_right _ fun file _ => ?_
  split
  · exact (monotone_filter_right _ fun symbol => by simp +contextual).map _
  · exact .slnil

/-- The hits count the owned definitions. -/
theorem hits_eq {candidate : SymbolId} (listed : candidate ∈ call.candidates) :
    candidate.name = call.name ∧
      fileOwnerHits call.files call.hint call.name candidate = call.owned.count candidate := by
  obtain ⟨⟨path, file⟩, member, listed⟩ := mem_flatMap.mp listed
  split at listed
  · rename_i sameFamily
    obtain ⟨symbol, defined, rfl⟩ := mem_map.mp listed
    have named : symbol.name = call.name := of_decide_eq_true (mem_filter.mp defined).2
    have found := lookup_of_mem call.distinct member
    have distinct := call.distinct
    have absent {others : GraphFiles} (absent : path ∉ others.map Prod.fst) :
        (ownedDefinitions call.family call.name call.hint others).count (symbolIdIn path symbol) =
          0 := by
      refine count_eq_zero.mpr fun owned => ?_
      obtain ⟨file, listed, owned⟩ := mem_flatMap.mp owned
      split at owned
      · obtain ⟨other, -, same⟩ := mem_map.mp owned
        exact absent (mem_map.mpr ⟨_, listed, congrArg SymbolId.path same⟩)
      · cases owned
    obtain ⟨before, after, listing⟩ := append_of_mem member
    rw [listing, map_append, map_cons, nodup_middle, nodup_cons, mem_append, not_or] at distinct
    refine ⟨named, ?_⟩
    rw [owned, listing, ownedDefinitions, flatMap_append, flatMap_cons, count_append, count_append,
      ← ownedDefinitions, absent distinct.1.1, ← ownedDefinitions, absent distinct.1.2,
      if_pos sameFamily, count_eq_countP, countP_map, countP_filter, Nat.zero_add, Nat.add_zero,
      fileOwnerHits, ← listing, show call.files.lookup (symbolIdIn path symbol).path = _ from found]
    refine countP_congr fun other _ => ?_
    simp [symbolIdIn, named]
    tauto
  · cases listed

/-- The callee is the matched owner. -/
theorem resolve_eq_some : (∃ reason, resolveAmbiguousCallee call.files
      call.candidates (some call.qualifiedName) = some (target, reason)) ↔
    matchOwner (fileOwnerHits call.files call.hint call.name) none call.candidates =
      some target := by
  simp only [resolveAmbiguousCallee, Option.bind_eq_bind, Option.bind_some, call.qualified,
    if_neg call.named, show call.candidates.filter (pathMatches call.hint) = [] from call.elsewhere]
  cases listing : call.candidates with
  | nil => simp [matchOwner]
  | cons leaf rest =>
    have named := (call.hits_eq (listing ▸ mem_cons_self)).1
    simp [named, Option.bind_eq_some_iff]

/-- The loop visits the node of the definition once for every definition that shares it. -/
theorem matchOwner_iff :
    matchOwner (fileOwnerHits call.files call.hint call.name) none call.candidates = some target ↔
      call.owned = [target] ∧ call.candidates.count target = 1 := by
  have visited : call.candidates.filter (fileOwnerHits call.files call.hint call.name · ≠ 0) =
      call.candidates.filter (· ∈ call.owned) :=
    filter_congr fun candidate listed => by
      simp [(call.hits_eq listed).2, count_eq_zero]
  rw [matchOwner_eq_some, visited, Option.toList_none, nil_append]
  constructor
  · rintro ⟨only, -⟩
    have kept := call.owned_sublist.filter (· ∈ call.owned)
    rw [only, filter_eq_self.mpr (by simp), sublist_singleton] at kept
    rcases kept with none | one
    · simp [none] at only
    simp only [one, mem_singleton, filter_eq] at only
    exact ⟨one, by simpa using congrArg length only⟩
  · rintro ⟨one, once⟩
    refine ⟨by simp [one, filter_eq, once], fun candidate listed => ?_⟩
    rw [(call.hits_eq listed).2, one]
    exact count_le_length

/-- The only owned definition is listed once. -/
theorem linksOnlyDefinition_iff : call.LinksOnlyDefinition ↔
    ∀ target, call.owned = [target] → call.candidates.count target = 1 := by
  simp [LinksOnlyDefinition, resolve_eq_some, matchOwner_iff, and_iff_left_iff_imp]

/-- `impl A { fn f() {} }`, on three lines. -/
def implOfA : List GraphSymbol :=
  [⟨⟨"impl A", .impl, (0, 24), (0, 2), none⟩, 0⟩, ⟨⟨"f", .method, (13, 22), (1, 1), none⟩, 1⟩]

/-- A call of `A::f` beside a method `f` of `B` in another file. -/
def calledApart : OwnerCall where
  files := [("x.rs", ⟨.rust, implOfA, []⟩),
    ("y.rs", ⟨.rust, [⟨⟨"impl B", .impl, (0, 24), (0, 2), none⟩, 0⟩,
      ⟨⟨"f", .method, (13, 22), (1, 1), none⟩, 1⟩], []⟩)]
  distinct := by decide
  family := .rust
  name := "f"
  qualifiedName := "A::f"
  hint := utf8 "A"
  qualified := by decide
  named := by decide
  elsewhere := by decide

/-- The call is linked to the method of `A`. -/
theorem calledApart_linked : calledApart.owned = [⟨"x.rs", "f", .method⟩] ∧
    calledApart.LinksOnlyDefinition := by
  have owned : calledApart.owned = [⟨"x.rs", "f", .method⟩] := by decide
  refine ⟨owned, calledApart.linksOnlyDefinition_iff.mpr ?_⟩
  intro target only
  obtain rfl : _ = target := singleton_injective (owned.symm.trans only)
  decide

/-- The same call, with the blocks of `A` and `B` in one file. -/
def calledBesideTwin : OwnerCall where
  files := [("x.rs", ⟨.rust, implOfA ++ [⟨⟨"impl B", .impl, (25, 49), (3, 5), none⟩, 2⟩,
    ⟨⟨"f", .method, (38, 47), (4, 4), none⟩, 3⟩], []⟩)]
  distinct := by decide
  family := .rust
  name := "f"
  qualifiedName := "A::f"
  hint := utf8 "A"
  qualified := by decide
  named := by decide
  elsewhere := by decide

/-- One definition of `f` is owned by `A`, and the call of `A::f` is not linked. -/
theorem twin_call_dropped : calledBesideTwin.owned = [⟨"x.rs", "f", .method⟩] ∧
    resolveAmbiguousCallee calledBesideTwin.files calledBesideTwin.candidates (some "A::f") =
      none := by
  decide

end OwnerCall

end Symforge
