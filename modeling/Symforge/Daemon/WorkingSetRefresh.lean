import Symforge.Library.Run
/-!
# Refresh of a working set

Model of `refresh_working_set_bases` and of the cross-project read behind it, for the reads of one
session: every lock and every load of a published index is a step of its own. The projects are those
of the working set, an index is given by its number among the publications of its project, and a
base by its index.
-/

namespace Symforge.Daemon

open Library List Function

/-- How far a read is: the entries it has still to compare, the bases it has captured. -/
inductive ReadStage where
  | idle
  | begun
  | comparing (entries stale : List (String × Nat))
  | capturing (project : String) (entries stale : List (String × Nat))
  | swapping (fresh : List (String × Nat))
  | searching
  | served (used : List (String × Nat))
deriving DecidableEq

/-- A read, with what was published when its refresh began. -/
structure CrossRead where
  targets : List String := []
  since : String → Nat := fun _ => 0
  stage : ReadStage := .idle

/-- A session with at most `limit` reads at a time. -/
structure ReadSystem (limit : Nat) where
  published : String → Nat
  base : String → Nat
  reads : Fin limit → CrossRead := fun _ => {}

/-- A publication, or a move of the read. -/
inductive ReadAction (limit : Nat) where
  | publish (project : String)
  | start (read : Fin limit) (targets : List String)
  | advance (read : Fin limit)

namespace ReadStage

/-- The targets whose entries may still be of an earlier index. -/
def pending (targets : List String) : ReadStage → List String
  | .comparing entries stale => entries.map Prod.fst ++ stale.map Prod.fst
  | .capturing project entries stale => project :: (entries.map Prod.fst ++ stale.map Prod.fst)
  | .swapping fresh => fresh.map Prod.fst
  | .searching => []
  | _ => targets

/-- The versions the read has captured so far. -/
def captured : ReadStage → List (String × Nat)
  | .comparing _ stale | .capturing _ _ stale | .swapping stale | .served stale => stale
  | _ => []

/-- The versions left to compare. -/
def compared : ReadStage → List (String × Nat)
  | .comparing entries _ | .capturing _ entries _ => entries
  | _ => []

end ReadStage

/-- An index that was replaced before the read began is not served. -/
def CrossRead.Fresh (read : CrossRead) : Prop :=
  ∀ used, read.stage = .served used → ∀ entry ∈ used, read.since entry.1 ≤ entry.2

variable {limit : Nat}

/-- `WorkingSet::add`, for each of the fresh bases. -/
def addAll (base : String → Nat) (fresh : List (String × Nat)) : String → Nat :=
  fresh.foldl (fun base entry => update base entry.1 entry.2) base

/-- The next step of a read and what it leaves of the working set. -/
def advance (published base : String → Nat) (targets : List String) :
    ReadStage → (String → Nat) × ReadStage
  | .begun => (base, .comparing (targets.map fun project => (project, base project)) [])
  | .comparing [] [] => (base, .searching)
  | .comparing [] stale => (base, .swapping stale)
  | .comparing ((project, index) :: entries) stale =>
    (base, if published project = index then .comparing entries stale
      else .capturing project entries stale)
  | .capturing project entries stale =>
    (base, .comparing entries (stale ++ [(project, published project)]))
  | .swapping fresh => (addAll base fresh, .searching)
  | .searching => (base, .served (targets.map fun project => (project, base project)))
  | stage => (base, stage)

/-- One move, if the read is at it. -/
def step (system : ReadSystem limit) : ReadAction limit → Option (ReadSystem limit)
  | .publish project => some { system with
      published := update system.published project (system.published project + 1) }
  | .start read targets =>
    match (system.reads read).stage with
    | .idle | .served _ => some { system with
        reads := update system.reads read ⟨targets, system.published, .begun⟩ }
    | _ => none
  | .advance read =>
    let current := system.reads read
    let (base, stage) := advance system.published system.base current.targets current.stage
    some { system with
      base
      reads := update system.reads read { current with stage } }

/-- What a read that is alone keeps true. -/
structure Settles (published base : String → Nat) (read : CrossRead) : Prop where
  started : ∀ project, read.since project ≤ published project
  captured : ∀ entry ∈ read.stage.captured, read.since entry.1 ≤ entry.2
  compared : ∀ entry ∈ read.stage.compared, entry.2 = base entry.1
  settled : ∀ project ∈ read.targets, project ∈ read.stage.pending read.targets ∨
    read.since project ≤ base project

variable {published base since : String → Nat} {project : String}

/-- Adding what was captured later loses nothing. -/
theorem le_addAll {fresh : List (String × Nat)}
    (captured : ∀ entry ∈ fresh, since entry.1 ≤ entry.2)
    (settled : project ∈ fresh.map Prod.fst ∨ since project ≤ base project) :
    since project ≤ addAll base fresh project := by
  induction fresh generalizing base with
  | nil => exact settled.resolve_left not_mem_nil
  | cons entry rest ih =>
    refine ih (fun other member => captured _ (mem_cons_of_mem _ member)) ?_
    dsimp only
    by_cases here : project = entry.1
    · subst here
      rw [update_self]
      exact .inr (captured _ mem_cons_self)
    · rw [update_of_ne here]
      exact settled.imp_left fun member => (mem_cons.mp member).resolve_left here

open ReadStage

/-- The step of a read that is alone. -/
theorem Settles.advance {read : CrossRead} (settles : Settles published base read) :
    Settles published (advance published base read.targets read.stage).1
      { read with stage := (Daemon.advance published base read.targets read.stage).2 } := by
  obtain ⟨targets, since, stage⟩ := read
  obtain ⟨started, captured, compared, settled⟩ := settles
  cases stage with
  | idle | served => exact ⟨started, captured, nofun, fun _ member => .inl member⟩
  | begun =>
    refine ⟨started, nofun, ?_, fun project member => .inl ?_⟩
    · simp [Daemon.advance, ReadStage.compared]
    · simpa [Daemon.advance, pending] using member
  | swapping fresh =>
    exact ⟨started, nofun, nofun, fun project member => .inr
      (le_addAll captured (settled _ member))⟩
  | searching =>
    refine ⟨started, ?_, nofun, fun _ member => .inl member⟩
    intro entry member
    obtain ⟨project, target, rfl⟩ := mem_map.mp member
    exact (settled _ target).resolve_left not_mem_nil
  | capturing project entries stale =>
    refine ⟨started, ?_, compared, fun other member => ?_⟩
    · exact forall_mem_append.mpr
        ⟨captured, forall_mem_singleton.mpr (started _)⟩
    · refine (settled _ member).imp_left fun waiting => ?_
      simp only [Daemon.advance, pending, mem_cons, mem_append,
        map_append, map_cons, map_nil, not_mem_nil, or_false] at waiting ⊢
      tauto
  | comparing entries stale =>
    cases entries with
    | nil => cases stale with
      | nil => exact ⟨started, nofun, nofun, settled⟩
      | cons first rest => exact ⟨started, captured, nofun, settled⟩
    | cons entry entries =>
      obtain ⟨project, index⟩ := entry
      have rest := fun other member => compared other (mem_cons_of_mem _ member)
      unfold Daemon.advance
      dsimp only
      split
      · rename_i same
        refine ⟨started, captured, rest, fun other member => ?_⟩
        rcases settled other member with waiting | done
        · rcases mem_cons.mp waiting with rfl | later
          · have held : index = base other := compared _ mem_cons_self
            have now := started other
            rw [same, held] at now
            exact .inr now
          · exact .inl later
        · exact .inr done
      · exact ⟨started, captured, rest, settled⟩

/-- The step lemma, for one read at a time. -/
theorem settles_step {system next : ReadSystem limit} (alone : limit ≤ 1)
    {action : ReadAction limit}
    (settles : ∀ read, Settles system.published system.base (system.reads read))
    (taken : step system action = some next) (read : Fin limit) :
    Settles next.published next.base (next.reads read) := by
  have only : ∀ other : Fin limit, other = read := fun other => Fin.ext (by omega)
  have before := settles read
  cases action with
  | publish project =>
    cases taken
    refine { before with started := fun other => Nat.le_trans (before.started _) ?_ }
    by_cases here : other = project
    · subst here
      simp
    · simp [here]
  | start started targets =>
    cases only started
    unfold step at taken
    dsimp only at taken
    split at taken
    all_goals cases taken
    all_goals
      dsimp only
      rw [update_self]
      exact ⟨fun _ => Nat.le_refl _, nofun, nofun, fun _ member => .inl member⟩
  | advance advanced =>
    cases only advanced
    cases taken
    dsimp only
    rw [update_self]
    exact before.advance

/-- A read swaps the base it captured before a publication in over that of a later read. -/
def overtaking (slow quick : Fin limit) (project : String) : List (ReadAction limit) :=
  .start slow [project] :: replicate 3 (.advance slow) ++
    .publish project :: .start quick [project] :: replicate 5 (.advance quick) ++
    replicate 2 (.advance slow) ++ [.advance quick]

/-- No read of a session serves an index that was replaced before it began, exactly where the
session has at most one read at a time. -/
theorem reads_fresh_iff (limit : Nat) :
    (∀ (published base : String → Nat) (actions : List (ReadAction limit))
      (system : ReadSystem limit), run step { published, base } actions = some system →
        ∀ read, (system.reads read).Fresh) ↔ limit ≤ 1 := by
  constructor
  · intro fresh
    by_contra several
    let slow : Fin limit := ⟨0, by omega⟩
    let quick : Fin limit := ⟨1, by omega⟩
    have later := fresh (fun _ => 1) (fun _ => 0) (overtaking slow quick "project") _ rfl quick
      [("project", 1)] rfl _ mem_cons_self
    exact absurd later (Nat.lt_irrefl 1)
  · intro alone published base actions system reached read
    have settles := run_invariant
      (fun system : ReadSystem limit =>
        ∀ read, Settles system.published system.base (system.reads read))
      (fun _ _ _ settles taken => settles_step alone settles taken)
      (fun _ => ⟨fun _ => Nat.zero_le _, by simp [captured], by simp [ReadStage.compared],
        by simp⟩) reached
    intro used isServed entry member
    have captured := (settles read).captured entry
    rw [isServed] at captured
    exact captured member

/-- A run in which a read serves the index that was replaced before it began. -/
theorem overtaken_read_serves_replaced :
    (run step { published := fun _ => 1, base := fun _ => 0 }
      (overtaking (0 : Fin 2) 1 "project")).map (fun system =>
        ((system.reads 1).stage, (system.reads 1).since "project")) =
      some (.served [("project", 1)], 2) := by
  decide

end Symforge.Daemon
