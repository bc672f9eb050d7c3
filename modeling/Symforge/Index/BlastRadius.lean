import Symforge.Index.CallGraph
import Symforge.Library.BreadthFirst
import Symforge.Library.SortedList
import Symforge.Library.Table

/-!
# The blast radius of changed symbols

Model of `compute_impact_with_evidence` and `inbound_bfs` in `live_index/graph.rs`. Both run the
breadth-first search of the library over the callers of a symbol: the first keeps the parent of
every symbol and its hop, the second the symbols in the order they leave the queue. The number of
seeds and call edges is enough for the loops to end.
-/

namespace Symforge

open Library Library.BreadthFirst List

/-- `graph::RiskTier`. -/
inductive RiskTier where
  | critical | high | medium | low
  deriving DecidableEq, Repr

/-- `RiskTier::for_hop`. -/
def RiskTier.forHop (hop : Nat) (isEntryPoint : Bool) : RiskTier :=
  if hop ≤ 1 then if hop = 1 ∧ isEntryPoint then .critical else .high
  else if hop = 2 then .medium
  else .low

/-- `graph::is_entry_point`. -/
def isEntryPoint (id : SymbolId) : Bool :=
  id.name == "main" && (id.kind == .function || id.kind == .method)

/-- `graph::BlastNode`. -/
structure BlastNode where
  symbol : SymbolId
  hop : Nat
  risk : RiskTier
  deriving DecidableEq, Repr

/-- `graph::BlastNodeEvidence`. -/
structure BlastNodeEvidence where
  node : BlastNode
  steps : List CallEdgeEvidence
  deriving DecidableEq, Repr

/-- The variables of the loop of `compute_impact_with_evidence`. -/
structure ImpactSearch where
  visited : List SymbolId
  queue : List (SymbolId × Nat)
  parent : Table SymbolId (SymbolId × CallEdgeEvidence)
  bestHop : Table SymbolId Nat

namespace GraphProjection

/-- One caller of the inner loop. -/
def visitCaller (graph : GraphProjection) (changed : List SymbolId) (node : SymbolId) (depth : Nat)
    (search : ImpactSearch) (caller : SymbolId) : ImpactSearch :=
  if caller ∈ search.visited then search
  else match graph.canonicalEdgeEvidence caller node with
    | none => search
    | some edge =>
      let hop := depth + 1
      { visited := search.visited ++ [caller]
        parent := search.parent.insert caller (node, edge)
        queue := search.queue ++ [(caller, hop)]
        bestHop := if caller ∈ changed then search.bestHop else search.bestHop.insert caller hop }

/-- The loop of `compute_impact_with_evidence`. -/
def impactLoop (graph : GraphProjection) (changed : List SymbolId) (maxDepth : Nat) :
    Nat → ImpactSearch → ImpactSearch
  | 0, search => search
  | fuel + 1, search => match search.queue with
    | [] => search
    | (node, depth) :: rest =>
      let popped := { search with queue := rest }
      if maxDepth ≤ depth then impactLoop graph changed maxDepth fuel popped
      else match graph.inEdges.lookup node with
        | none => impactLoop graph changed maxDepth fuel popped
        | some callers => impactLoop graph changed maxDepth fuel
            (callers.foldl (graph.visitCaller changed node depth) popped)

end GraphProjection

/-- The steps from a symbol back to a seed. -/
def parentSteps (parent : Table SymbolId (SymbolId × CallEdgeEvidence)) :
    Nat → SymbolId → List CallEdgeEvidence
  | 0, _ => []
  | fuel + 1, current => match parent.lookup current with
    | some (next, edge) => edge :: parentSteps parent fuel next
    | none => []

/-- What the entries are sorted by. -/
def BlastNodeEvidence.key (entry : BlastNodeEvidence) : Nat ×ₗ SymbolId :=
  toLex (entry.node.hop, entry.node.symbol)

/-- The sort at the end of `compute_impact_with_evidence`. -/
def sortEntries (entries : List BlastNodeEvidence) : List BlastNodeEvidence :=
  entries.insertionSort fun one other => one.key ≤ other.key

namespace GraphProjection

/-- `starts`: the changed symbols, sorted and without repetition. -/
def startsOf (changed : List SymbolId) : List SymbolId :=
  dedupAdjacent (changed.insertionSort (· ≤ ·))

variable (graph : GraphProjection)

/-- Enough rounds for a search from so many seeds. -/
def searchFuel (starts : List SymbolId) : Nat := starts.length + graph.allCallers.length

/-- The search of `compute_impact_with_evidence`. -/
def impactSearch (changed : List SymbolId) (maxDepth : Nat) : ImpactSearch :=
  let starts := startsOf changed
  graph.impactLoop changed maxDepth (graph.searchFuel starts)
    ⟨starts, starts.map (·, 0), ∅, ∅⟩

/-- The entry of a symbol; the chain of parents has at most `maxDepth` steps. -/
def blastEntry (search : ImpactSearch) (maxDepth : Nat) (symbol : SymbolId) (hop : Nat) :
    BlastNodeEvidence where
  node := ⟨symbol, hop, .forHop hop (isEntryPoint symbol)⟩
  steps := (parentSteps search.parent maxDepth symbol).reverse

/-- `graph::compute_impact_with_evidence`. -/
def computeImpactWithEvidence (changed : List SymbolId) (maxDepth : Nat) : List BlastNodeEvidence :=
  let search := graph.impactSearch changed maxDepth
  sortEntries (search.bestHop.entries.map fun row => blastEntry search maxDepth row.1 row.2)

/-- One caller of the inner loop of `inbound_bfs`. -/
def enqueueCaller (depth : Nat) (state : List SymbolId × List (SymbolId × Nat))
    (caller : SymbolId) : List SymbolId × List (SymbolId × Nat) :=
  if caller ∈ state.1 then state else (state.1 ++ [caller], state.2 ++ [(caller, depth + 1)])

/-- The loop of `inbound_bfs`. -/
def inboundLoop (graph : GraphProjection) (maxDepth maxNodes : Nat) :
    Nat → List SymbolId → List (SymbolId × Nat) → List (SymbolId × Nat) → List (SymbolId × Nat)
  | 0, _, _, results => results
  | _ + 1, _, [], results => results
  | fuel + 1, visited, (node, depth) :: rest, results =>
    if maxNodes ≤ results.length then results
    else
      let results := if 0 < depth then results ++ [(node, depth)] else results
      if maxDepth ≤ depth then inboundLoop graph maxDepth maxNodes fuel visited rest results
      else
        let (visited, queue) := (graph.callers node).foldl (enqueueCaller depth) (visited, rest)
        inboundLoop graph maxDepth maxNodes fuel visited queue results

/-- `GraphProjection::inbound_bfs`. -/
def inboundBfs (start : SymbolId) (maxDepth maxNodes : Nat) : List (SymbolId × Nat) :=
  graph.inboundLoop maxDepth maxNodes (graph.searchFuel [start]) [start] [(start, 0)] []

/-- The loop holds what the library's search has found: the parents with the evidence of their
edges, and the hops of the unchanged symbols. -/
structure Tracks (graph : GraphProjection) (changed : List SymbolId) (search : ImpactSearch)
    (state : Search SymbolId) : Prop where
  visited : search.visited = state.visited
  queue : search.queue = state.queue
  known : ∀ record ∈ state.found, record.node ∈ state.visited
  parent : ∀ symbol origin edge, search.parent.lookup symbol = some (origin, edge) ↔
    graph.canonicalEdgeEvidence symbol origin = some edge ∧
      ∃ record ∈ state.found, record.node = symbol ∧ record.origin = origin
  bestHop : ∀ symbol hop, search.bestHop.lookup symbol = some hop ↔
    symbol ∉ changed ∧ ∃ record ∈ state.found, record.node = symbol ∧ record.hop = hop

variable {graph : GraphProjection} {changed : List SymbolId} {search : ImpactSearch}
  {state : Search SymbolId}

/-- The walks start alike. -/
theorem tracks_start (starts : List SymbolId) :
    graph.Tracks changed ⟨starts, starts.map (·, 0), ∅, ∅⟩ (start starts) where
  visited := rfl
  queue := rfl
  known _ := nofun
  parent _ _ edge := by simp [start]
  bestHop _ hop := by simp [start]

section
variable (tracks : graph.Tracks changed search state)
include tracks

/-- A caller is looked at in the same way by both searches. -/
theorem Tracks.visitCaller {node caller : SymbolId}
    (depth : Nat) (called : caller ∈ graph.callers node) :
    graph.Tracks changed (graph.visitCaller changed node depth search caller)
      (visit node (depth + 1) state caller) := by
  unfold GraphProjection.visitCaller visit
  rw [tracks.visited]
  by_cases seen : caller ∈ state.visited
  · rw [if_pos seen, if_pos seen]
    exact tracks
  rw [if_neg seen, if_neg seen]
  obtain ⟨evidence, canonical⟩ := exists_canonicalEdgeEvidence called
  rw [canonical]
  have unknown : ∀ record ∈ state.found, record.node ≠ caller :=
    fun record member same => seen (same ▸ tracks.known _ member)
  refine ⟨rfl, ?_, ?_, ?_, ?_⟩
  · show search.queue ++ _ = state.queue ++ _
    rw [tracks.queue]
  · refine forall_mem_append.mpr ⟨fun record old => ?_, forall_mem_singleton.mpr ?_⟩
    · exact mem_append_left _ (tracks.known _ old)
    · exact mem_append_right _ (mem_singleton_self _)
  · intro symbol origin edge
    rw [Table.lookup_insert_iff, tracks.parent]
    simp only [mem_append, mem_singleton, or_and_right, exists_or, exists_eq_left]
    by_cases same : symbol = caller
    · subst same
      grind
    · grind
  · intro symbol hop
    simp only [mem_append, mem_singleton, or_and_right, exists_or, exists_eq_left]
    by_cases isChanged : caller ∈ changed
    · rw [if_pos isChanged, tracks.bestHop]
      grind
    · rw [if_neg isChanged, Table.lookup_insert_iff, tracks.bestHop]
      grind

/-- They stay alike over the callers. -/
theorem Tracks.foldl_visitCaller {node : SymbolId}
    (depth : Nat) {callers : List SymbolId} (called : ∀ caller ∈ callers,
      caller ∈ graph.callers node) :
    graph.Tracks changed (callers.foldl (graph.visitCaller changed node depth) search)
      (callers.foldl (visit node (depth + 1)) state) := by
  induction callers generalizing search state with
  | nil => exact tracks
  | cons caller rest ih =>
    obtain ⟨here, later⟩ := forall_mem_cons.mp called
    exact ih (tracks.visitCaller _ here) later

/-- The loop of the source runs the library's search over the callers. -/
theorem Tracks.impactLoop (maxDepth fuel : Nat) :
    graph.Tracks changed (graph.impactLoop changed maxDepth fuel search)
      (loop graph.callers maxDepth fuel state) := by
  induction fuel generalizing search state with
  | zero => exact tracks
  | succ fuel ih =>
    unfold GraphProjection.impactLoop loop
    rw [tracks.queue]
    cases waiting : state.queue with
    | nil => exact tracks
    | cons entry rest =>
      obtain ⟨node, depth⟩ := entry
      have popped : graph.Tracks changed { search with queue := rest }
          { state with queue := rest } :=
        { tracks with queue := rfl }
      simp only [expand]
      by_cases capped : maxDepth ≤ depth
      · rw [if_pos capped, if_pos capped]
        exact ih popped
      rw [if_neg capped, if_neg capped]
      cases found : graph.inEdges.lookup node with
      | none =>
        have none : graph.callers node = [] := by rw [callers, found]; rfl
        rw [none]
        exact ih popped
      | some known =>
        have same : graph.callers node = known := by rw [callers, found]; rfl
        rw [same]
        exact ih (popped.foldl_visitCaller _ fun caller member => same ▸ member)

end

/-- The search starts at the changed symbols. -/
theorem mem_startsOf {symbol : SymbolId} : symbol ∈ startsOf changed ↔ symbol ∈ changed := by
  rw [startsOf, mem_sorted_callers]

/-- It starts at each of them once. -/
theorem nodup_startsOf : (startsOf changed).Nodup := by
  have increasing := dedupAdjacent_sorted (pairwise_insertionSort (· ≤ ·) changed)
  have distinct := List.Pairwise.imp (fun less => less.ne) increasing
  unfold List.Nodup startsOf
  -- The two sides decide equality of ids in different ways.
  convert distinct

/-- The search of the source ends, and has found what the library's search finds. -/
theorem impactSearch_exact (maxDepth : Nat) :
    ∃ state, graph.Tracks changed (graph.impactSearch changed maxDepth) state ∧
      state.queue = [] ∧ Exact graph.callers (startsOf changed) maxDepth state.found := by
  refine ⟨_, (graph.tracks_start (startsOf changed)).impactLoop _ _, ?_⟩
  exact search_exact (nodup_startsOf) callers_subset le_rfl

/-- The steps lead from the first symbol to the last, each over an edge of the graph. -/
def Chain (graph : GraphProjection) : SymbolId → List CallEdgeEvidence → SymbolId → Prop
  | start, [], target => start = target
  | start, step :: rest, target =>
    step.callee = start ∧ graph.HasEdge step ∧ graph.Chain step.caller rest target

/-- One more edge at the end. -/
theorem Chain.snoc {start middle : SymbolId} {steps : List CallEdgeEvidence}
    (chain : graph.Chain start steps middle) {edge : CallEdgeEvidence}
    (meets : edge.callee = middle) (isEdge : graph.HasEdge edge) :
    graph.Chain start (steps ++ [edge]) edge.caller := by
  induction steps generalizing start with
  | nil =>
    have same : start = middle := chain
    exact ⟨meets.trans same.symm, isEdge, rfl⟩
  | cons step rest ih => exact ⟨chain.1, chain.2.1, ih chain.2.2⟩

variable {maxDepth : Nat}

/-- The parents of a found symbol lead back to a seed in as many steps as its hop. -/
theorem Tracks.exists_chain (tracks : graph.Tracks changed search state) {starts : List SymbolId}
    (exact : Exact graph.callers starts maxDepth state.found) (hop : Nat) :
    ∀ record ∈ state.found, record.hop = hop → ∃ start ∈ starts, ∃ steps,
      steps.length = hop ∧ graph.Chain start steps record.node ∧
        ∀ fuel, hop ≤ fuel → (parentSteps search.parent fuel record.node).reverse = steps := by
  induction hop with
  | zero =>
    intro record member zero
    have positive := ((exact.mem_iff record.node record.hop).mp ⟨record, member, rfl, rfl⟩).2.1
    omega
  | succ hop ih =>
    intro record member isHop
    obtain ⟨called, fromOrigin⟩ := exact.origin _ member
    obtain ⟨edge, canonical⟩ := exists_canonicalEdgeEvidence called
    obtain ⟨isCaller, isCallee, isEdge⟩ := canonicalEdgeEvidence_spec called canonical
    have parent : search.parent.lookup record.node = some (record.origin, edge) :=
      (tracks.parent _ _ _).mpr ⟨canonical, _, member, rfl, rfl⟩
    -- The chain of the origin, which is a seed or was found one hop earlier.
    have back : ∃ start ∈ starts, ∃ steps, steps.length = hop ∧
        graph.Chain start steps record.origin ∧ ∀ fuel, hop ≤ fuel →
          (parentSteps search.parent fuel record.origin).reverse = steps := by
      rcases fromOrigin with ⟨isSeed, first⟩ | ⟨earlier, isEarlier, same, later⟩
      · have orphan : search.parent.lookup record.origin = none := by
          refine Option.eq_none_iff_forall_not_mem.mpr fun ⟨origin, edge⟩ found => ?_
          obtain ⟨-, again, isFound, same⟩ := (tracks.parent _ _ _).mp found
          have apart := (nodup_append'.mp exact.distinct).2.2
          exact apart isSeed (mem_map.mpr ⟨again, isFound, same.1⟩)
        have zero : hop = 0 := by omega
        refine ⟨record.origin, isSeed, [], zero.symm, rfl, fun fuel _ => ?_⟩
        cases fuel with
        | zero => rfl
        | succ fuel => rw [parentSteps, orphan]; rfl
      · rw [← same]
        exact ih _ isEarlier (by omega)
    obtain ⟨start, isStart, steps, length, chain, followed⟩ := back
    refine ⟨_, isStart, steps ++ [edge], ?_, ?_, fun fuel enough => ?_⟩
    · rw [length_append, length]
      rfl
    · exact isCaller ▸ chain.snoc isCallee isEdge
    · cases fuel with
      | zero => omega
      | succ fuel =>
        rw [parentSteps, parent, reverse_cons, followed _ (by omega)]

/-- The entries before they are sorted. -/
theorem computeImpactWithEvidence_perm :
    (graph.computeImpactWithEvidence changed maxDepth).Perm
      ((graph.impactSearch changed maxDepth).bestHop.entries.map fun row =>
        blastEntry (graph.impactSearch changed maxDepth) maxDepth row.1 row.2) :=
  perm_insertionSort _ _

/-- An entry for every symbol with a hop. -/
theorem mem_computeImpactWithEvidence {entry : BlastNodeEvidence} :
    entry ∈ graph.computeImpactWithEvidence changed maxDepth ↔
      ∃ symbol hop, (graph.impactSearch changed maxDepth).bestHop.lookup symbol = some hop ∧
        blastEntry (graph.impactSearch changed maxDepth) maxDepth symbol hop = entry := by
  rw [(graph.computeImpactWithEvidence_perm).mem_iff, mem_map]
  constructor
  · rintro ⟨⟨symbol, hop⟩, member, rfl⟩
    exact ⟨symbol, hop, AList.mem_lookup_iff.mpr member, rfl⟩
  · rintro ⟨symbol, hop, found, rfl⟩
    exact ⟨⟨symbol, hop⟩, AList.mem_lookup_iff.mp found, rfl⟩

/-- No symbol has two entries. -/
theorem nodup_symbols (changed : List SymbolId) (maxDepth : Nat) :
    ((graph.computeImpactWithEvidence changed maxDepth).map (·.node.symbol)).Nodup := by
  refine ((graph.computeImpactWithEvidence_perm).map _).nodup_iff.mpr ?_
  rw [map_map]
  exact (graph.impactSearch _ maxDepth).bestHop.nodupKeys

/-- The symbols and hops of the entries. -/
theorem exists_entry_iff {symbol : SymbolId} {hop : Nat} :
    (∃ entry ∈ graph.computeImpactWithEvidence changed maxDepth,
        entry.node.symbol = symbol ∧ entry.node.hop = hop) ↔
      symbol ∉ changed ∧ AtDistance graph.callers changed hop symbol ∧
        1 ≤ hop ∧ hop ≤ maxDepth := by
  obtain ⟨state, tracks, -, exact⟩ := graph.impactSearch_exact _
  have listed : (∃ entry ∈ graph.computeImpactWithEvidence changed maxDepth,
      entry.node.symbol = symbol ∧ entry.node.hop = hop) ↔
        (graph.impactSearch changed maxDepth).bestHop.lookup symbol = some hop := by
    constructor
    · rintro ⟨entry, member, rfl, rfl⟩
      obtain ⟨symbol, hop, found, rfl⟩ := mem_computeImpactWithEvidence.mp member
      exact found
    · intro found
      exact ⟨_, mem_computeImpactWithEvidence.mpr ⟨symbol, hop, found, rfl⟩, rfl, rfl⟩
  rw [listed, tracks.bestHop, exact.mem_iff, atDistance_congr_seeds fun _ => mem_startsOf]

/-- The steps of an entry. -/
theorem steps_chain {entry : BlastNodeEvidence}
    (member : entry ∈ graph.computeImpactWithEvidence changed maxDepth) :
    entry.steps.length = entry.node.hop ∧
      ∃ start ∈ changed, graph.Chain start entry.steps entry.node.symbol := by
  obtain ⟨state, tracks, -, exact⟩ := graph.impactSearch_exact _
  obtain ⟨symbol, hop, found, rfl⟩ := mem_computeImpactWithEvidence.mp member
  obtain ⟨-, record, isFound, rfl, rfl⟩ := (tracks.bestHop _ _).mp found
  have within := ((exact.mem_iff _ _).mp ⟨record, isFound, rfl, rfl⟩).2.2
  obtain ⟨start, isStart, steps, length, chain, followed⟩ :=
    tracks.exists_chain exact record.hop _ isFound rfl
  have same : (blastEntry (graph.impactSearch changed maxDepth) maxDepth record.node
      record.hop).steps = steps := followed _ within
  rw [same]
  exact ⟨length, _, mem_startsOf.mp isStart, chain⟩

/-- The entries are in order. -/
theorem sortEntries_pairwise (entries : List BlastNodeEvidence) :
    (sortEntries entries).Pairwise fun one other => one.key ≤ other.key :=
  pairwise_insertionSort _ _

/-- A sorted list of entries with distinct symbols is the sort of any arrangement of it. -/
theorem sortEntries_eq {entries list : List BlastNodeEvidence}
    (distinct : (entries.map (·.node.symbol)).Nodup)
    (sorted : entries.Pairwise fun one other => one.key ≤ other.key) (same : list.Perm entries) :
    sortEntries list = entries := by
  have arranged : (sortEntries list).Perm entries := (perm_insertionSort _ _).trans same
  refine arranged.eq_of_pairwise ?_ (sortEntries_pairwise _) sorted
  intro one other isOne isOther below above
  have keys : one.key = other.key := le_antisymm below above
  have symbols : one.node.symbol = other.node.symbol := congrArg Prod.snd (toLex_inj.mp keys)
  exact inj_on_of_nodup_map distinct (arranged.subset isOne) isOther symbols

/-- A record without its origin, as `inbound_bfs` returns it. -/
def hopOf (record : Found SymbolId) : SymbolId × Nat := (record.node, record.hop)

/-- Enqueueing is visiting. -/
theorem foldl_enqueueCaller (node : SymbolId) (depth : Nat) (callers : List SymbolId)
    (state : Search SymbolId) :
    callers.foldl (enqueueCaller depth) (state.visited, state.queue) =
      ((callers.foldl (visit node (depth + 1)) state).visited,
        (callers.foldl (visit node (depth + 1)) state).queue) := by
  induction callers generalizing state with
  | nil => rfl
  | cons caller rest ih =>
    have step : enqueueCaller depth (state.visited, state.queue) caller =
        ((visit node (depth + 1) state caller).visited,
          (visit node (depth + 1) state caller).queue) := by
      unfold enqueueCaller visit
      by_cases seen : caller ∈ state.visited
      · rw [if_pos seen, if_pos seen]
      · rw [if_neg seen, if_neg seen]
    rw [foldl_cons, foldl_cons, step, ih]

/-- What was found are the entries of the queue, past and present, that are not seeds. -/
theorem filter_entries_eq {next : SymbolId → List SymbolId} {seeds : List SymbolId}
    {done : List (SymbolId × Nat)} (invariant : Invariant next seeds maxDepth done state) :
    (done ++ state.queue).filter (0 < ·.2) = state.found.map hopOf := by
  have seedless : (seeds.map (·, 0)).filter (0 < ·.2) = ([] : List (SymbolId × Nat)) := by
    exact filter_eq_nil_iff.mpr (forall_mem_map.mpr fun _ _ => Bool.false_ne_true)
  have whole : (state.found.map hopOf).filter (0 < ·.2) = state.found.map hopOf := by
    refine filter_eq_self.mpr (forall_mem_map.mpr fun record isFound => ?_)
    obtain ⟨-, hop, -, later⟩ := invariant.origin _ isFound
    exact decide_eq_true (by show 0 < record.hop; omega)
  rw [invariant.order, filter_append, seedless, nil_append]
  exact whole

section Inbound

variable {seeds : List SymbolId} {maxDepth maxNodes fuel : Nat} {done : List (SymbolId × Nat)}

/-- With an empty queue the results are all that was found. -/
theorem filter_done_eq (invariant : Invariant graph.callers seeds maxDepth done state)
    (room : (done.filter (0 < ·.2)).length ≤ maxNodes) (empty : state.queue = []) :
    done.filter (0 < ·.2) = (state.found.map hopOf).take maxNodes := by
  have entries := filter_entries_eq invariant
  rw [empty, append_nil] at entries
  rw [entries] at room ⊢
  exact (take_of_length_le room).symm

/-- The results after one more symbol was taken from the queue. -/
theorem filter_done_snoc (node : SymbolId) (depth : Nat) :
    (done ++ [(node, depth)]).filter (0 < ·.2) =
      if 0 < depth then done.filter (0 < ·.2) ++ [(node, depth)] else done.filter (0 < ·.2) := by
  rw [filter_append]
  by_cases positive : 0 < depth
  · simp [positive]
  · simp [positive]

/-- One round of `inbound_bfs` is one of the library's search. -/
theorem inboundLoop_expand {node : SymbolId} {depth : Nat} {rest : List (SymbolId × Nat)}
    (unfilled : ¬ maxNodes ≤ (done.filter (0 < ·.2)).length) :
    graph.inboundLoop maxDepth maxNodes (fuel + 1) state.visited ((node, depth) :: rest)
        (done.filter (0 < ·.2)) =
      graph.inboundLoop maxDepth maxNodes fuel
        (expand graph.callers maxDepth state node depth rest).visited
        (expand graph.callers maxDepth state node depth rest).queue
        ((done ++ [(node, depth)]).filter (0 < ·.2)) := by
  rw [filter_done_snoc, inboundLoop, if_neg unfilled]
  unfold expand
  by_cases capped : maxDepth ≤ depth
  · rw [if_pos capped, if_pos capped]
  · rw [if_neg capped, if_neg capped, foldl_enqueueCaller _ _ _ { state with queue := rest }]

/-- The loop of `inbound_bfs` returns the first symbols that the library's search finds. -/
theorem inboundLoop_eq (invariant : Invariant graph.callers seeds maxDepth done state)
    (enough : seeds.length + graph.allCallers.length ≤ fuel + done.length)
    (room : (done.filter (0 < ·.2)).length ≤ maxNodes) :
    graph.inboundLoop maxDepth maxNodes fuel state.visited state.queue (done.filter (0 < ·.2)) =
      ((loop graph.callers maxDepth fuel state).found.map hopOf).take maxNodes := by
  induction fuel generalizing done state with
  | zero =>
    have bounded := invariant.length_le callers_subset
    have empty : state.queue = [] := length_eq_zero_iff.mp (by omega)
    exact filter_done_eq invariant room empty
  | succ fuel ih =>
    cases waiting : state.queue with
    | nil =>
      unfold inboundLoop loop
      rw [waiting]
      exact filter_done_eq invariant room waiting
    | cons entry rest =>
      obtain ⟨node, depth⟩ := entry
      by_cases full : maxNodes ≤ (done.filter (0 < ·.2)).length
      · -- The loop breaks with the first `maxNodes` of what will be found.
        have early : done.filter (0 < ·.2) <+: state.found.map hopOf := by
          rw [← filter_entries_eq invariant, filter_append]
          exact prefix_append _ _
        have later := early.trans
          ((found_isPrefix_loop graph.callers maxDepth (fuel + 1) _).map hopOf)
        have first := prefix_iff_eq_take.mp later
        rw [Nat.le_antisymm room full] at first
        unfold inboundLoop
        rw [if_pos full]
        exact first
      · have longer : ((done ++ [(node, depth)]).filter (0 < ·.2)).length ≤ maxNodes := by
          rw [filter_done_snoc]
          split
          · rw [length_append, length_singleton]
            omega
          · exact room
        rw [inboundLoop_expand full, ih (invariant.expand waiting) ?_ longer, loop, waiting]
        rw [length_append, length_singleton]
        omega

end Inbound

/-- `inbound_bfs` returns the first of what an exact search finds. -/
theorem inboundBfs_eq (start : SymbolId) (maxDepth maxNodes : Nat) :
    ∃ found, Exact graph.callers [start] maxDepth found ∧
      graph.inboundBfs start maxDepth maxNodes = (found.map hopOf).take maxNodes := by
  have initial := invariant_start graph.callers maxDepth (nodup_singleton start)
  refine ⟨_, (search_exact (nodup_singleton _) callers_subset le_rfl).2, ?_⟩
  exact inboundLoop_eq initial le_rfl (Nat.zero_le _)

/-- The bounded walk finds the same symbols. -/
theorem inboundBfs_perm {start : SymbolId} {maxNodes : Nat}
    (room : (graph.computeImpactWithEvidence [start] maxDepth).length ≤ maxNodes) :
    (graph.inboundBfs start maxDepth maxNodes).Perm
      ((graph.computeImpactWithEvidence [start] maxDepth).map fun entry =>
        (entry.node.symbol, entry.node.hop)) := by
  obtain ⟨found, exact, returned⟩ := graph.inboundBfs_eq _ maxDepth maxNodes
  have apart := nodup_append'.mp exact.distinct
  have foundDistinct : (found.map hopOf).Nodup := by
    refine List.Nodup.of_map Prod.fst ?_
    rw [map_map]
    exact apart.2.1
  have entriesDistinct : ((graph.computeImpactWithEvidence [start] maxDepth).map fun entry =>
      (entry.node.symbol, entry.node.hop)).Nodup := by
    refine List.Nodup.of_map Prod.fst ?_
    rw [map_map]
    exact graph.nodup_symbols [start] maxDepth
  have same : (found.map hopOf).Perm ((graph.computeImpactWithEvidence [start] maxDepth).map
      fun entry => (entry.node.symbol, entry.node.hop)) := by
    refine (perm_ext_iff_of_nodup foundDistinct entriesDistinct).mpr fun ⟨symbol, hop⟩ => ?_
    constructor
    · intro member
      obtain ⟨record, isFound, same⟩ := mem_map.mp member
      cases same
      have unchanged : record.node ∉ [start] :=
        fun isStart => apart.2.2 isStart (mem_map_of_mem isFound)
      obtain ⟨entry, listed, symbol, hop⟩ := exists_entry_iff.mpr
        ⟨unchanged, (exact.mem_iff _ _).mp ⟨_, isFound, rfl, rfl⟩⟩
      exact mem_map.mpr ⟨_, listed, Prod.ext symbol hop⟩
    · intro member
      obtain ⟨entry, listed, same⟩ := mem_map.mp member
      cases same
      obtain ⟨record, isFound, node, hop⟩ :=
        (exact.mem_iff _ _).mpr (exists_entry_iff.mp ⟨_, listed, rfl, rfl⟩).2
      exact mem_map.mpr ⟨_, isFound, Prod.ext node hop⟩
  rw [returned, take_of_length_le]
  · exact same
  rw [same.length_eq, length_map]
  exact room

/-- The blast radius is exact: the entries are the unchanged symbols between one and `maxDepth`
calls away from the nearest changed one, each once and with its distance; the steps of an entry lead
to it from a changed symbol, one edge for each hop; the entries are sorted; and `inbound_bfs` from
one symbol, when it is not cut short, finds the same symbols at the same hops. -/
theorem computeImpactWithEvidence_exact (graph : GraphProjection) (changed : List SymbolId)
    (maxDepth : Nat) :
    (∀ symbol hop, (∃ entry ∈ graph.computeImpactWithEvidence changed maxDepth,
        entry.node.symbol = symbol ∧ entry.node.hop = hop) ↔
      symbol ∉ changed ∧ AtDistance graph.callers changed hop symbol ∧ 1 ≤ hop ∧ hop ≤ maxDepth) ∧
    ((graph.computeImpactWithEvidence changed maxDepth).map (·.node.symbol)).Nodup ∧
    (∀ entry ∈ graph.computeImpactWithEvidence changed maxDepth,
      entry.steps.length = entry.node.hop ∧
        ∃ start ∈ changed, graph.Chain start entry.steps entry.node.symbol) ∧
    (∀ list, list.Perm (graph.computeImpactWithEvidence changed maxDepth) →
      sortEntries list = graph.computeImpactWithEvidence changed maxDepth) ∧
    ∀ start maxNodes, changed = [start] →
      (graph.computeImpactWithEvidence changed maxDepth).length ≤ maxNodes →
      (graph.inboundBfs start maxDepth maxNodes).Perm
        ((graph.computeImpactWithEvidence changed maxDepth).map fun entry =>
          (entry.node.symbol, entry.node.hop)) := by
  refine ⟨fun _ _ => exists_entry_iff, graph.nodup_symbols _ _, fun _ => steps_chain, ?_, ?_⟩
  · exact fun list => sortEntries_eq (graph.nodup_symbols _ _) (sortEntries_pairwise _)
  · rintro start maxNodes rfl room
    exact inboundBfs_perm room

/-- The blast radius in the projection of an index is measured in calls of the index. -/
theorem exists_entry_fromIndex_iff (files : GraphFiles) (changed : List SymbolId)
    (maxDepth : Nat) (symbol : SymbolId) (hop : Nat) :
    (∃ entry ∈ (fromIndex files).computeImpactWithEvidence changed maxDepth,
        entry.node.symbol = symbol ∧ entry.node.hop = hop) ↔
      symbol ∉ changed ∧
        AtDistance (fun callee => ((callEdges files).filter (·.callee = callee)).map (·.caller))
          changed hop symbol ∧ 1 ≤ hop ∧ hop ≤ maxDepth := by
  rw [exists_entry_iff, atDistance_congr_next fun callee caller => ?_]
  rw [mem_callers_fromIndex]
  simp [and_assoc]

end GraphProjection

end Symforge
