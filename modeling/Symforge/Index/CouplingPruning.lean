import Mathlib.Data.List.TakeWhile
/-!
# Eviction of dead paths

`prune_dead_paths` of `live_index/coupling/store.rs`: the pairs and edges whose paths are gone
are deleted, and the commits that this leaves without edges. The rows hold texts of keys; the path
is cut out of a text between its first `:` and its first `#`. Counts and weights are left out.
-/

namespace Symforge.Coupling

open List

/-- An endpoint of a pair, of which `AnchorKey::file` or `AnchorKey::symbol` makes the key. -/
inductive Anchor where
  | file (path : List Char)
  | symbol (path name kind : List Char)
  deriving DecidableEq, Repr

/-- The path of an anchor. -/
def Anchor.path : Anchor → List Char
  | .file path | .symbol path _ _ => path

variable (path : List Char)

/-- `coupling::normalize_path`. -/
def normalizePath : List Char := path.map fun char => if char = '\\' then '/' else char

/-- The text of the `AnchorKey`. -/
def Anchor.key : Anchor → List Char
  | .file path => "file:".toList ++ normalizePath path
  | .symbol path name kind =>
    "symbol:".toList ++ (normalizePath path ++ ('#' :: (name ++ ('#' :: kind))))

/-- `instr` of SQLite: the place of the first occurrence, from one, or zero. -/
def instr (text : List Char) (char : Char) : Nat := if char ∈ text then text.idxOf char + 1 else 0

/-- `path_expr`. -/
def pathExpr (key : List Char) : List Char :=
  let rest := key.drop (instr key ':')
  if 0 < instr rest '#' then rest.take (instr rest '#' - 1) else rest

/-- A row of couplings: two anchors. -/
structure Pair where
  anchor : Anchor
  partner : Anchor
  deriving DecidableEq, Repr

/-- The tables `coupling`, `coupling_commit_edges` and `coupling_active_commits`. -/
structure CouplingStore where
  coupling : List Pair
  commitEdges : List (String × Pair)
  activeCommits : List String
  deriving DecidableEq, Repr

/-- How much a pruning deleted. -/
structure PruneStats where
  couplingRemoved : Nat := 0
  edgesRemoved : Nat := 0
  commitsRemoved : Nat := 0
  deriving DecidableEq, Repr

/-- `dead_clause` of the anchor or of the partner. -/
def Pair.dead (livePaths : List (List Char)) (pair : Pair) : Bool :=
  pathExpr pair.anchor.key ∉ livePaths || pathExpr pair.partner.key ∉ livePaths

variable (store : CouplingStore) (livePaths : List (List Char))

/-- `store::prune_dead_paths_in_tx`. -/
def pruneDeadPathsInTx :
    CouplingStore × PruneStats :=
  let coupling := store.coupling.filter (!·.dead livePaths)
  let commitEdges := store.commitEdges.filter (!·.2.dead livePaths)
  let activeCommits := store.activeCommits.filter (· ∈ commitEdges.map Prod.fst)
  (⟨coupling, commitEdges, activeCommits⟩,
    ⟨store.coupling.length - coupling.length, store.commitEdges.length - commitEdges.length,
      store.activeCommits.length - activeCommits.length⟩)

/-- An empty set of paths says nothing of what is live. -/
def pruneDeadPaths :
    CouplingStore × PruneStats :=
  if livePaths = [] then (store, {}) else pruneDeadPathsInTx store livePaths

/-- Both paths are alive. -/
def Pair.Live (pair : Pair) : Prop := pair.anchor.path ∈ livePaths ∧ pair.partner.path ∈ livePaths

/-- Of the rows exactly those between live paths survive, and every commit keeps an edge. -/
def PrunesExactly : Prop :=
  let pruned := (pruneDeadPaths store livePaths).1
  (∀ pair, pair ∈ pruned.coupling ↔ pair ∈ store.coupling ∧ pair.Live livePaths) ∧
  (∀ edge, edge ∈ pruned.commitEdges ↔ edge ∈ store.commitEdges ∧ edge.2.Live livePaths) ∧
  ∀ commit ∈ pruned.activeCommits, ∃ edge ∈ pruned.commitEdges, edge.1 = commit

/-- A path without the characters that the key of it does not keep. -/
def Plain : Prop := '#' ∉ path ∧ '\\' ∉ path

/-- The path that is read back from a key. -/
def cut : List Char := (normalizePath path).takeWhile (· != '#')

/-- `instr` finds the end of the path. -/
theorem take_instr (text : List Char) :
    (if 0 < instr text '#' then text.take (instr text '#' - 1) else text) =
      text.takeWhile (· != '#') := by
  have upTo : text.takeWhile (· != '#') = text.take (text.idxOf '#') := by
    simp only [takeWhile_eq_take_findIdx_not, bne, Bool.not_not]
    rfl
  rw [upTo, instr]
  by_cases member : '#' ∈ text
  · simp [member]
  · rw [idxOf_eq_length member]
    simp [member]

/-- The expression reads a path up to `#`. -/
theorem pathExpr_key (anchor : Anchor) : pathExpr anchor.key = cut anchor.path := by
  refine (take_instr _).trans ?_
  cases anchor with
  | file path => rfl
  | symbol path name kind =>
    show (normalizePath path ++ '#' :: _).takeWhile (· != '#') = cut path
    rw [takeWhile_append]
    split
    · rename_i whole
      rw [takeWhile_cons_of_neg (by decide), append_nil]
      have front : cut path <+: normalizePath path := takeWhile_prefix _
      exact (front.eq_of_length whole).symm
    · rfl

/-- A cut path has no `#`. -/
theorem plain_cut : Plain (cut path) := by
  constructor
  · intro member
    exact absurd (mem_takeWhile_imp member) (by decide)
  · intro member
    obtain ⟨char, -, made⟩ := mem_map.mp (takeWhile_subset _ member)
    split at made
    · exact absurd made (by decide)
    · contradiction

/-- A path without `#` is not cut. -/
theorem cut_of_plain {path : List Char} (plain : Plain path) : cut path = path := by
  have normal : normalizePath path = path := by
    refine (map_congr_left fun char member => ?_).trans (map_id _)
    rw [if_neg (ne_of_mem_of_not_mem member plain.2), id]
  rw [cut, normal, takeWhile_eq_self_iff]
  intro char member
  exact bne_iff_ne.mpr (ne_of_mem_of_not_mem member plain.1)

/-- A pair survives exactly while its paths are live if they are read back as they are. -/
theorem survives_exactly_iff (pair : Pair) :
    (∀ livePaths ≠ [], pair.dead livePaths = false ↔ pair.Live livePaths) ↔
      Plain pair.anchor.path ∧ Plain pair.partner.path := by
  simp only [Pair.dead, pathExpr_key, Bool.or_eq_false_iff, decide_eq_false_iff_not, not_not]
  constructor
  · intro exactly
    -- the paths as they are read back are the live ones
    have live := (exactly [cut pair.anchor.path, cut pair.partner.path] nofun).mp (by simp)
    have plain : ∀ path ∈ [cut pair.anchor.path, cut pair.partner.path], Plain path := by
      simp [plain_cut]
    exact ⟨plain _ live.1, plain _ live.2⟩
  · rintro ⟨anchor, partner⟩ livePaths -
    rw [cut_of_plain anchor, cut_of_plain partner]
    rfl

/-- The pruning is exact for every set of live paths if and only if every path of the store is read
back as it is. -/
theorem prunesExactly_iff (store : CouplingStore) :
    (∀ livePaths ≠ [], PrunesExactly store livePaths) ↔
      ∀ pair ∈ store.coupling ++ store.commitEdges.map Prod.snd,
        Plain pair.anchor.path ∧ Plain pair.partner.path := by
  simp only [← survives_exactly_iff]
  constructor
  · intro exactly pair member livePaths nonempty
    obtain ⟨pairs, edges, -⟩ := exactly _ nonempty
    rw [pruneDeadPaths, if_neg nonempty] at pairs edges
    rcases mem_append.mp member with here | here
    · simpa [pruneDeadPathsInTx, here] using pairs pair
    obtain ⟨edge, there, rfl⟩ := mem_map.mp here
    simpa [pruneDeadPathsInTx, there] using edges edge
  · intro exactly livePaths nonempty
    rw [PrunesExactly, pruneDeadPaths, if_neg nonempty]
    refine ⟨fun pair => ?_, fun edge => ?_, ?_⟩
    · simpa [pruneDeadPathsInTx] using
        fun here => exactly _ (mem_append_left _ here) _ nonempty
    · simpa [pruneDeadPathsInTx] using fun here =>
        exactly edge.2 (mem_append_right _ (mem_map_of_mem here)) _ nonempty
    · intro commit member
      exact mem_map.mp (of_decide_eq_true (mem_filter.mp member).2)

/-- A pair between two live paths is evicted. -/
theorem live_pair_evicted :
    let pair : Pair := ⟨.file "a#b.rs".toList, .file "c.rs".toList⟩
    let livePaths := [pair.anchor.path, pair.partner.path]
    pair.Live livePaths ∧ (pruneDeadPaths ⟨[pair], [], []⟩ livePaths).1.coupling = [] :=
  ⟨by simp [Pair.Live], by decide⟩

end Symforge.Coupling
