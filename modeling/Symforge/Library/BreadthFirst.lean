import Mathlib.Data.List.Basic
import Mathlib.Data.List.Nodup
import Mathlib.Data.List.Perm.Subperm

/-!
# Breadth-first search with a depth cap

A search from several seeds over any successor function, with the nodes it visited, a queue of nodes
with their depths, and a record of which node was found from which. The queue holds at most two
depths in order, so every node is found at its shortest distance from the seeds; the nodes that were
found are exactly those within the cap.
-/

namespace Symforge.Library.BreadthFirst

open List Nat

variable {Node : Type}

/-- A walk of so many edges leads from a seed to the node. -/
inductive Walk (next : Node → List Node) (seeds : List Node) : Nat → Node → Prop where
  | seed {node : Node} (member : node ∈ seeds) : Walk next seeds 0 node
  | step {length : Nat} {node after : Node} (walk : Walk next seeds length node)
      (edge : after ∈ next node) : Walk next seeds (length + 1) after

/-- The shortest walk from a seed to the node has so many edges. -/
def AtDistance (next : Node → List Node) (seeds : List Node) (distance : Nat) (node : Node) :
    Prop :=
  Walk next seeds distance node ∧ ∀ shorter < distance, ¬ Walk next seeds shorter node

variable {node : Node}

/-- Only which nodes are seeds matters. -/
theorem Walk.congr_seeds {next : Node → List Node} {seeds others : List Node}
    (same : ∀ node, node ∈ seeds ↔ node ∈ others) {length : Nat}
    (walk : Walk next seeds length node) : Walk next others length node := by
  induction walk with
  | seed member => exact .seed ((same _).mp member)
  | step _ edge ih => exact .step ih edge

/-- The order of the seeds and their repetition do not matter. -/
theorem atDistance_congr_seeds {next : Node → List Node} {seeds others : List Node}
    (same : ∀ node, node ∈ seeds ↔ node ∈ others) {distance : Nat} :
    AtDistance next seeds distance node ↔ AtDistance next others distance node := by
  have walks : ∀ length, Walk next seeds length node ↔ Walk next others length node :=
    fun length => ⟨Walk.congr_seeds same, Walk.congr_seeds fun node => (same _).symm⟩
  simp [AtDistance, walks]

/-- With more edges a walk stays one. -/
theorem Walk.mono_next {next other : Node → List Node} {seeds : List Node}
    (more : ∀ node, next node ⊆ other node) {length : Nat} (walk : Walk next seeds length node) :
    Walk other seeds length node := by
  induction walk with
  | seed member => exact .seed member
  | step _ edge ih => exact .step ih (more _ edge)

/-- The order of the successors and their repetition do not matter. -/
theorem atDistance_congr_next {next other : Node → List Node} {seeds : List Node}
    (same : ∀ node after, after ∈ next node ↔ after ∈ other node) {distance : Nat} :
    AtDistance next seeds distance node ↔ AtDistance other seeds distance node := by
  have walks : ∀ length, Walk next seeds length node ↔ Walk other seeds length node :=
    fun length =>
      ⟨Walk.mono_next fun _ _ => (same _ _).mp, Walk.mono_next fun _ _ => (same _ _).mpr⟩
  simp [AtDistance, walks]

/-- A node, the depth it was found at and the node it was found from. -/
structure Found (Node : Type) where
  node : Node
  hop : Nat
  origin : Node

/-- The state of a search. -/
structure Search (Node : Type) where
  visited : List Node
  queue : List (Node × Nat)
  found : List (Found Node)

/-- The state before the search. -/
def start (seeds : List Node) : Search Node := ⟨seeds, seeds.map (·, 0), []⟩

/-- The state with these nodes found from one node. -/
def Search.grow (state : Search Node) (origin : Node) (hop : Nat) (fresh : List Node) :
    Search Node where
  visited := state.visited ++ fresh
  queue := state.queue ++ fresh.map (·, hop)
  found := state.found ++ fresh.map (⟨·, hop, origin⟩)

variable {next : Node → List Node} {seeds : List Node} {maxDepth : Nat}
  {done : List (Node × Nat)} {state : Search Node}

/-- What holds between two rounds; `done` are the nodes that were taken from the queue. -/
structure Invariant (next : Node → List Node) (seeds : List Node) (maxDepth : Nat)
    (done : List (Node × Nat)) (state : Search Node) : Prop where
  order : done ++ state.queue =
    seeds.map (·, 0) ++ state.found.map fun record => (record.node, record.hop)
  visited : state.visited = (done ++ state.queue).map Prod.fst
  distinct : state.visited.Nodup
  exact : ∀ entry ∈ done ++ state.queue, AtDistance next seeds entry.2 entry.1
  capped : ∀ entry ∈ done ++ state.queue, entry.2 ≤ maxDepth
  sorted : state.queue.Pairwise fun earlier later => earlier.2 ≤ later.2
  narrow : ∀ one ∈ state.queue, ∀ other ∈ state.queue, other.2 ≤ one.2 + 1
  closed : ∀ entry ∈ done, entry.2 < maxDepth → ∀ after ∈ next entry.1, after ∈ state.visited
  origin : ∀ record ∈ state.found, record.node ∈ next record.origin ∧
    ∃ hop, (record.origin, hop) ∈ done ++ state.queue ∧ record.hop = hop + 1

section
variable (invariant : Invariant next seeds maxDepth done state)
include invariant

/-- A node is visited if it is done or queued. -/
theorem Invariant.mem_visited :
    node ∈ state.visited ↔ ∃ hop, (node, hop) ∈ done ++ state.queue := by
  rw [invariant.visited, mem_map]
  constructor
  · rintro ⟨⟨_, hop⟩, member, rfl⟩
    exact ⟨hop, member⟩
  · rintro ⟨hop, member⟩
    exact ⟨(node, hop), member, rfl⟩

/-- Up to the depth of the queue every node that a walk leads to is visited. -/
theorem Invariant.walk_visited {depth : Nat}
    (front : ∀ entry ∈ state.queue, depth ≤ entry.2) (within : depth ≤ maxDepth)
    {length : Nat} (walk : Walk next seeds length node) (short : length ≤ depth) :
    node ∈ state.visited := by
  induction walk with
  | seed member =>
    refine invariant.mem_visited.mpr ⟨0, ?_⟩
    rw [invariant.order]
    exact mem_append_left _ (mem_map.mpr ⟨_, member, rfl⟩)
  | @step length node after walk edge ih =>
    obtain ⟨hop, member⟩ := invariant.mem_visited.mp (ih (le_of_succ_le short))
    have shortest : hop ≤ length :=
      Nat.le_of_not_lt fun longer => (invariant.exact _ member).2 _ longer walk
    rcases mem_append.mp member with processed | waiting
    · exact invariant.closed _ processed (by show hop < maxDepth; omega) _ edge
    have here : depth ≤ hop := front _ waiting
    omega

/-- The first node of the queue taken and these of its successors found. -/
theorem Invariant.grow
    {depth : Nat} {rest : List (Node × Nat)} (first : state.queue = (node, depth) :: rest)
    {fresh : List Node} (below : fresh ≠ [] → depth < maxDepth) (distinct : fresh.Nodup)
    (successor : ∀ after ∈ fresh, after ∈ next node)
    (unvisited : ∀ after ∈ fresh, after ∉ state.visited)
    (covers : depth < maxDepth → ∀ after ∈ next node, after ∈ state.visited ∨ after ∈ fresh) :
    Invariant next seeds maxDepth (done ++ [(node, depth)])
      (Search.grow { state with queue := rest } node (depth + 1) fresh) := by
  have entries : (done ++ [(node, depth)]) ++
      (Search.grow { state with queue := rest } node (depth + 1) fresh).queue =
        (done ++ state.queue) ++ fresh.map (·, depth + 1) := by
    simp [Search.grow, first]
  have headMember : (node, depth) ∈ state.queue := first ▸ mem_cons_self ..
  have head : (node, depth) ∈ done ++ state.queue := mem_append_right _ headMember
  have sorted := invariant.sorted
  rw [first, pairwise_cons] at sorted
  have front : ∀ entry ∈ state.queue, depth ≤ entry.2 := by
    rw [first]
    exact forall_mem_cons.mpr ⟨Nat.le_refl _, sorted.1⟩
  have back : ∀ entry ∈ rest, entry.2 ≤ depth + 1 := fun entry member =>
    invariant.narrow _ headMember _ (first ▸ mem_cons_of_mem _ member)
  refine ⟨?_, ?_, ?_, ?_, ?_, ?_, ?_, ?_, ?_⟩
  · rw [entries, invariant.order]
    simp [Search.grow]
  · rw [entries, map_append, ← invariant.visited]
    simp [Search.grow, Function.comp_def]
  · refine nodup_append'.mpr ⟨invariant.distinct, distinct, ?_⟩
    exact fun after visited isFresh => unvisited _ isFresh visited
  · rw [entries, forall_mem_append, forall_mem_map]
    refine ⟨invariant.exact, fun after isFresh => ⟨?_, fun shorter less walk => ?_⟩⟩
    · exact .step (invariant.exact _ head).1 (successor _ isFresh)
    exact unvisited _ isFresh (invariant.walk_visited front (invariant.capped _ head) walk
      (le_of_lt_succ less))
  · rw [entries, forall_mem_append, forall_mem_map]
    exact ⟨invariant.capped, fun after isFresh => below (ne_nil_of_mem isFresh)⟩
  · refine pairwise_append.mpr ⟨sorted.2, ?_, ?_⟩
    · exact pairwise_map.mpr (pairwise_of_forall fun _ _ => Nat.le_refl _)
    · exact fun one member => forall_mem_map.mpr fun _ _ => back _ member
  · have low : ∀ one ∈ rest ++ fresh.map (·, depth + 1), depth ≤ one.2 :=
      forall_mem_append.mpr ⟨sorted.1, forall_mem_map.mpr fun _ _ => le_succ _⟩
    have high : ∀ other ∈ rest ++ fresh.map (·, depth + 1), other.2 ≤ depth + 1 :=
      forall_mem_append.mpr ⟨back, forall_mem_map.mpr fun _ _ => Nat.le_refl _⟩
    exact fun one isOne other isOther =>
      Nat.le_trans (high _ isOther) (Nat.succ_le_succ (low _ isOne))
  · intro entry member room after edge
    rcases mem_append.mp member with earlier | last
    · exact mem_append_left _ (invariant.closed _ earlier room _ edge)
    rw [mem_singleton.mp last] at room edge
    exact mem_append.mpr (covers room _ edge)
  · rw [entries]
    refine forall_mem_append.mpr ⟨fun record old => ?_, forall_mem_map.mpr ?_⟩
    · obtain ⟨edge, hop, listed, next⟩ := invariant.origin _ old
      exact ⟨edge, hop, mem_append_left _ listed, next⟩
    · exact fun after isFresh =>
        ⟨successor _ isFresh, _, mem_append_left _ head, rfl⟩

end

/-- The invariant holds at the start. -/
theorem invariant_start (next : Node → List Node) (maxDepth : Nat) (distinct : seeds.Nodup) :
    Invariant next seeds maxDepth [] (start seeds) where
  order := by simp [start]
  visited := by simp [start, Function.comp_def]
  distinct := distinct
  exact := forall_mem_map.mpr fun node isSeed =>
    ⟨.seed isSeed, fun shorter less => absurd less (not_lt_zero _)⟩
  capped := forall_mem_map.mpr fun _ _ => zero_le _
  sorted := pairwise_map.mpr (pairwise_of_forall fun _ _ => Nat.le_refl _)
  narrow _ _ := forall_mem_map.mpr fun _ _ => zero_le _
  closed _ := nofun
  origin _ := nofun

/-- The nodes are the seeds and what was found. -/
theorem Invariant.visited_eq (invariant : Invariant next seeds maxDepth done state) :
    state.visited = seeds ++ state.found.map Found.node := by
  rw [invariant.visited, invariant.order]
  simp [Function.comp_def]

variable {nodes : List Node}

/-- The nodes are seeds or successors, each once, so there are only so many of them. -/
theorem Invariant.length_le (invariant : Invariant next seeds maxDepth done state)
    (within : ∀ node, ∀ after ∈ next node, after ∈ nodes) :
    done.length + state.queue.length ≤ seeds.length + nodes.length := by
  have subset : state.visited ⊆ seeds ++ nodes := by
    rw [invariant.visited_eq]
    refine append_subset.mpr ⟨subset_append_left _ _, forall_mem_map.mpr ?_⟩
    exact fun record listed =>
      mem_append_right _ (within _ _ (invariant.origin _ listed).1)
  have bounded := (subperm_of_subset invariant.distinct subset).length_le
  rwa [invariant.visited, length_map, length_append, length_append] at bounded

/-- The search has found exactly the nodes within the cap that are not seeds, each once, at its
distance, from a node one step nearer. -/
structure Exact (next : Node → List Node) (seeds : List Node) (maxDepth : Nat)
    (found : List (Found Node)) : Prop where
  distinct : (seeds ++ found.map Found.node).Nodup
  mem_iff : ∀ node hop, (∃ record ∈ found, record.node = node ∧ record.hop = hop) ↔
    AtDistance next seeds hop node ∧ 1 ≤ hop ∧ hop ≤ maxDepth
  origin : ∀ record ∈ found, record.node ∈ next record.origin ∧
    ((record.origin ∈ seeds ∧ record.hop = 1) ∨
      ∃ earlier ∈ found, earlier.node = record.origin ∧ record.hop = earlier.hop + 1)

/-- With an empty queue the search is exact. -/
theorem Invariant.finished (invariant : Invariant next seeds maxDepth done state)
    (empty : state.queue = []) : Exact next seeds maxDepth state.found := by
  have listed : ∀ {entry : Node × Nat}, entry ∈ done ++ state.queue ↔
      (entry.1 ∈ seeds ∧ entry.2 = 0) ∨
        ∃ record ∈ state.found, record.node = entry.1 ∧ record.hop = entry.2 := by
    intro entry
    simp [invariant.order, Prod.ext_iff, eq_comm]
  refine ⟨invariant.visited_eq ▸ invariant.distinct, ?_, ?_⟩
  · intro node hop
    constructor
    · rintro ⟨record, member, rfl, rfl⟩
      have entry : (record.node, record.hop) ∈ done ++ state.queue :=
        listed.mpr (.inr ⟨_, member, rfl, rfl⟩)
      obtain ⟨-, origin, -, isNext⟩ := invariant.origin _ member
      exact ⟨invariant.exact _ entry, by omega, invariant.capped _ entry⟩
    · rintro ⟨distance, positive, within⟩
      have nothing : ∀ entry ∈ state.queue, maxDepth ≤ entry.2 := by
        rw [empty]
        exact fun _ => nofun
      have visited := invariant.walk_visited nothing (Nat.le_refl _) distance.1 within
      obtain ⟨known, member⟩ := invariant.mem_visited.mp visited
      have same : known = hop := by
        have left := (invariant.exact _ member).2
        have right := distance.2
        by_contra apart
        rcases Nat.lt_or_gt_of_ne apart with less | more
        · exact right _ less (invariant.exact _ member).1
        · exact left _ more distance.1
      subst same
      rcases listed.mp member with ⟨-, zero⟩ | record
      · have none : known = 0 := zero
        omega
      · exact record
  · intro record member
    obtain ⟨edge, hop, entry, isNext⟩ := invariant.origin _ member
    refine ⟨edge, ?_⟩
    rcases listed.mp entry with ⟨isSeed, zero⟩ | ⟨earlier, isEarlier, node, same⟩
    · have none : hop = 0 := zero
      exact .inl ⟨isSeed, by omega⟩
    · have equal : earlier.hop = hop := same
      exact .inr ⟨_, isEarlier, node, by omega⟩

variable [DecidableEq Node]

/-- One successor looked at. -/
def visit (origin : Node) (hop : Nat) (state : Search Node) (after : Node) : Search Node :=
  if after ∈ state.visited then state
  else
    { visited := state.visited ++ [after]
      queue := state.queue ++ [(after, hop)]
      found := state.found ++ [⟨after, hop, origin⟩] }

/-- The first node of the queue taken from it and its successors looked at, below the cap. -/
def expand (next : Node → List Node) (maxDepth : Nat) (state : Search Node) (node : Node)
    (depth : Nat) (rest : List (Node × Nat)) : Search Node :=
  if maxDepth ≤ depth then { state with queue := rest }
  else (next node).foldl (visit node (depth + 1)) { state with queue := rest }

/-- At most so many nodes taken from the queue. -/
def loop (next : Node → List Node) (maxDepth : Nat) : Nat → Search Node → Search Node
  | 0, state => state
  | fuel + 1, state => match state.queue with
    | [] => state
    | (node, depth) :: rest => loop next maxDepth fuel (expand next maxDepth state node depth rest)

/-- The nodes that are found among the successors of a node. -/
structure Fresh (visited successors fresh : List Node) : Prop where
  distinct : fresh.Nodup
  successor : ∀ node ∈ fresh, node ∈ successors
  unvisited : ∀ node ∈ fresh, node ∉ visited
  covers : ∀ node ∈ successors, node ∈ visited ∨ node ∈ fresh

/-- A pass over the successors finds those that were not visited, each once. -/
theorem foldl_visit_eq (origin : Node) (hop : Nat) (successors : List Node) (state : Search Node) :
    ∃ fresh, successors.foldl (visit origin hop) state = state.grow origin hop fresh ∧
      Fresh state.visited successors fresh := by
  induction successors generalizing state with
  | nil =>
    refine ⟨[], ?_, nodup_nil, nofun, nofun, nofun⟩
    simp [Search.grow]
  | cons first rest ih =>
    rw [foldl_cons]
    by_cases seen : first ∈ state.visited
    · have skipped : visit origin hop state first = state := if_pos seen
      rw [skipped]
      obtain ⟨fresh, grown, isFresh⟩ := ih _
      refine ⟨_, grown, isFresh.distinct, ?_, isFresh.unvisited, ?_⟩
      · exact fun node member => mem_cons_of_mem _ (isFresh.successor _ member)
      · exact forall_mem_cons.mpr ⟨.inl seen, isFresh.covers⟩
    · have taken : visit origin hop state first = state.grow origin hop [first] := if_neg seen
      rw [taken]
      obtain ⟨fresh, grown, isFresh⟩ := ih (state.grow _ hop [first])
      refine ⟨first :: fresh, ?_, ?_, forall_mem_cons.mpr ⟨mem_cons_self, ?_⟩,
        forall_mem_cons.mpr ⟨seen, ?_⟩,
        forall_mem_cons.mpr ⟨.inr mem_cons_self, fun node later => ?_⟩⟩
      · rw [grown]
        simp [Search.grow]
      · refine nodup_cons.mpr ⟨fun again => ?_, isFresh.distinct⟩
        exact isFresh.unvisited _ again (mem_append_right _ (mem_singleton_self _))
      · exact fun node later => mem_cons_of_mem _ (isFresh.successor _ later)
      · exact fun node later visited =>
          isFresh.unvisited _ later (mem_append_left _ visited)
      · simpa [Search.grow, or_assoc] using isFresh.covers _ later

/-- It is kept by one expansion. -/
theorem Invariant.expand (invariant : Invariant next seeds maxDepth done state)
    {depth : Nat} {rest : List (Node × Nat)} (first : state.queue = (node, depth) :: rest) :
    Invariant next seeds maxDepth (done ++ [(node, depth)])
      (expand next maxDepth state node depth rest) := by
  unfold BreadthFirst.expand
  by_cases capped : maxDepth ≤ depth
  · rw [if_pos capped]
    have grown : Invariant next seeds maxDepth (done ++ [(node, depth)])
        (Search.grow { state with queue := rest } node (depth + 1) []) :=
      invariant.grow first (fun none => absurd rfl none) nodup_nil (fun _ => nofun)
        (fun _ => nofun) (fun room => absurd room (Nat.not_lt.mpr capped))
    simpa [Search.grow] using grown
  · rw [if_neg capped]
    obtain ⟨fresh, grown, isFresh⟩ := foldl_visit_eq _ (depth + 1) (next node)
      { state with queue := rest }
    rw [grown]
    exact invariant.grow first (fun _ => Nat.lt_of_not_le capped) isFresh.distinct
      isFresh.successor isFresh.unvisited fun _ => isFresh.covers

/-- What was found stays found, in its order. -/
theorem found_isPrefix_loop (next : Node → List Node) (maxDepth fuel : Nat)
    (state : Search Node) : state.found <+: (loop next maxDepth fuel state).found := by
  induction fuel generalizing state with
  | zero => exact prefix_rfl
  | succ fuel ih =>
    unfold BreadthFirst.loop
    cases state.queue with
    | nil => exact prefix_rfl
    | cons entry rest =>
      refine List.IsPrefix.trans ?_ (ih _)
      unfold BreadthFirst.expand
      split
      · exact prefix_rfl
      obtain ⟨fresh, grown, -⟩ := foldl_visit_eq entry.1 (entry.2 + 1) (next entry.1)
        { state with queue := rest }
      rw [grown]
      exact prefix_append _ _

/-- With fuel for every node the loop ends with an empty queue. -/
theorem Invariant.loop (invariant : Invariant next seeds maxDepth done state)
    (within : ∀ node, ∀ after ∈ next node, after ∈ nodes) {fuel : Nat}
    (enough : seeds.length + nodes.length ≤ fuel + done.length) :
    ∃ done, Invariant next seeds maxDepth done (loop next maxDepth fuel state) ∧
      (loop next maxDepth fuel state).queue = [] := by
  induction fuel generalizing done state with
  | zero =>
    refine ⟨done, invariant, ?_⟩
    have bounded := invariant.length_le within
    exact length_eq_zero_iff.mp (by show state.queue.length = 0; omega)
  | succ fuel ih =>
    unfold BreadthFirst.loop
    cases waiting : state.queue with
    | nil => exact ⟨done, invariant, waiting⟩
    | cons entry rest =>
      obtain ⟨node, depth⟩ := entry
      refine ih (invariant.expand waiting) ?_
      rw [length_append, length_singleton]
      omega

/-- The search is exact. -/
theorem search_exact (distinct : seeds.Nodup)
    (within : ∀ node, ∀ after ∈ next node, after ∈ nodes) {fuel : Nat}
    (enough : seeds.length + nodes.length ≤ fuel) :
    (loop next maxDepth fuel (start seeds)).queue = [] ∧
      Exact next seeds maxDepth (loop next maxDepth fuel (start seeds)).found := by
  obtain ⟨done, invariant, empty⟩ := (invariant_start _ _ distinct).loop within enough
  exact ⟨empty, invariant.finished empty⟩

end Symforge.Library.BreadthFirst
