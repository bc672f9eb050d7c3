import Mathlib.Data.List.Dedup
import Mathlib.Data.List.Induction
import Mathlib.Data.List.Perm.Subperm
import Symforge.Lifecycle.Observer

/-!
# No observation is lost between cuts

A history of operations on the accumulator is compared with the cut that ends it. As long as nothing
latched, every source observed since the last cut is pending with the stamp of its last observation.
What would break this (an unwinding derivation, a source beyond the bound, a gap, a dirty scope, a
handoff) latches, and a latched cut is a full baseline.
-/

namespace Symforge.Lifecycle

open List List.Pairwise

/-- One operation on a `CoalescingAccumulator`. -/
inductive ObserverOp where
  /-- `none` stands for a derivation that unwinds. -/
  | observe (source : Nat) (derived : Option Nat)
  | reportGap
  | latchHandoffBarrier
  | latchScopeDirty
  | cut
deriving DecidableEq, Repr

/-- The operations that report a gap, a dirty scope or a handoff. -/
def ObserverOp.latches : ObserverOp → Bool
  | .observe _ none => true
  | .observe _ (some _) => false
  | .reportGap => true
  | .latchHandoffBarrier => true
  | .latchScopeDirty => true
  | .cut => false

/-- The source an operation observes. -/
def ObserverOp.source : ObserverOp → Option Nat
  | .observe source _ => some source
  | _ => none

/-- The operations since the last cut. -/
def sinceCut (ops : List ObserverOp) : List ObserverOp := (ops.reverse.takeWhile (· ≠ .cut)).reverse

variable (history : List ObserverOp)

/-- The sources observed, in order. -/
def observedSources : List Nat := history.filterMap ObserverOp.source

/-- What the last observation of a source derived. -/
def lastObservation (source : Nat) : Option (Option Nat) :=
  history.reverse.findSome? fun op =>
    match op with
    | .observe observed derived => if observed = source then some derived else none
    | _ => none

namespace CoalescingAccumulator

/-- The accumulator after one operation. -/
def apply (accumulator : CoalescingAccumulator) : ObserverOp → CoalescingAccumulator
  | .observe source derived => accumulator.observe source derived
  | .reportGap => accumulator.reportGap
  | .latchHandoffBarrier => accumulator.latchHandoffBarrier
  | .latchScopeDirty => accumulator.latchScopeDirty
  | .cut => accumulator.cut.2

/-- The cuts a sequence of operations emits. -/
def cuts : CoalescingAccumulator → List ObserverOp → List ObservationCut
  | _, [] => []
  | accumulator, .cut :: rest => accumulator.cut.1 :: cuts accumulator.cut.2 rest
  | accumulator, op :: rest => cuts (accumulator.apply op) rest

end CoalescingAccumulator

/-- A cut starts over, other operations are added. -/
theorem sinceCut_append (ops : List ObserverOp) (op : ObserverOp) :
    sinceCut (ops ++ [op]) = if op = .cut then [] else sinceCut ops ++ [op] := by
  unfold sinceCut
  rw [reverse_append, reverse_singleton, singleton_append, takeWhile_cons]
  by_cases ends : op = .cut
  · simp [ends]
  · simp [ends]

variable {source : Nat}

/-- The newest observation of the source counts. -/
theorem lastObservation_append (op : ObserverOp) :
    lastObservation (history ++ [op]) source =
      match op with
      | .observe observed derived =>
        if observed = source then some derived else lastObservation history source
      | _ => lastObservation history source := by
  unfold lastObservation
  rw [reverse_append, reverse_singleton, singleton_append, findSome?_cons]
  cases op with
  | observe observed derived =>
    by_cases same : observed = source
    · simp [same]
    · simp [same]
  | reportGap | latchHandoffBarrier | latchScopeDirty | cut => rfl

/-- A source was observed exactly when it has a last observation. -/
theorem mem_observedSources_iff :
    source ∈ observedSources history ↔ lastObservation history source ≠ none := by
  unfold observedSources lastObservation
  rw [mem_filterMap, ne_eq, findSome?_eq_none_iff, not_forall]
  constructor
  · rintro ⟨op, listed, observes⟩
    cases op with
    | observe observed derived =>
      cases observes
      exact ⟨_, fun absent => by simpa using absent (mem_reverse.mpr listed)⟩
    | reportGap | latchHandoffBarrier | latchScopeDirty | cut => cases observes
  · rintro ⟨op, found⟩
    obtain ⟨listed, observes⟩ := Classical.not_imp.mp found
    refine ⟨op, mem_reverse.mp listed, ?_⟩
    cases op with
    | observe observed derived =>
      by_cases same : observed = source
      · rw [ObserverOp.source, same]
      · exact absurd (if_neg same) observes
    | reportGap | latchHandoffBarrier | latchScopeDirty | cut => exact absurd rfl observes

/-- Entries in ascending order of their sources. -/
def Ascending (pending : List (Nat × Nat)) : Prop :=
  pending.Pairwise fun left right => left.1 < right.1

/-- The first entry of the source counts. -/
theorem lookup_cons_eq (key value : Nat) (rest : List (Nat × Nat)) (source : Nat) :
    ((key, value) :: rest).lookup source =
      if source = key then some value else rest.lookup source := by
  rw [lookup_cons]
  by_cases same : source = key
  · simp [same]
  · rw [beq_false_of_ne same, if_neg same]

/-- One source gets the new stamp. -/
theorem lookup_insertPending (pending : List (Nat × Nat)) (stamp other : Nat) :
    (insertPending pending source stamp).lookup other =
      if other = source then some stamp else pending.lookup other := by
  induction pending with
  | nil => exact lookup_cons_eq _ _ [] _
  | cons entry rest ih =>
    obtain ⟨key, value⟩ := entry
    unfold insertPending
    split
    · exact lookup_cons_eq _ _ _ _
    split
    · rename_i same
      rw [lookup_cons_eq, lookup_cons_eq, same]
      split
      · rfl
      · rfl
    · rename_i apart
      rw [lookup_cons_eq, lookup_cons_eq, ih]
      by_cases here : other = key
      · rw [if_pos here, if_pos here, if_neg fun same => apart (same.symm.trans here)]
      · rw [if_neg here, if_neg here]

variable {pending : List (Nat × Nat)}

/-- The entries are old but for that one. -/
theorem mem_insertPending {stamp : Nat} {entry : Nat × Nat}
    (listed : entry ∈ insertPending pending source stamp) :
    entry = (source, stamp) ∨ entry ∈ pending := by
  induction pending with
  | nil => exact .inl (mem_singleton.mp listed)
  | cons first rest ih =>
    obtain ⟨key, value⟩ := first
    unfold insertPending at listed
    split at listed
    · exact mem_cons.mp listed
    split at listed
    · rcases mem_cons.mp listed with rfl | later
      · exact .inl rfl
      · exact .inr (mem_cons_of_mem _ later)
    · rcases mem_cons.mp listed with rfl | later
      · exact .inr mem_cons_self
      rcases ih later with new | old
      · exact .inl new
      · exact .inr (mem_cons_of_mem _ old)

/-- The entries stay in order. -/
theorem Ascending.insertPending (ascending : Ascending pending)
    (source stamp : Nat) : Ascending (insertPending pending source stamp) := by
  induction pending with
  | nil => exact pairwise_singleton ..
  | cons first rest ih =>
    obtain ⟨key, value⟩ := first
    obtain ⟨above, rest_ascending⟩ := pairwise_cons.mp ascending
    unfold Lifecycle.insertPending
    split
    · rename_i below
      exact pairwise_cons.mpr ⟨forall_mem_cons.mpr ⟨below, fun entry later =>
        Nat.lt_trans below (above _ later)⟩, ascending⟩
    split
    · rename_i same
      refine pairwise_cons.mpr ⟨?_, rest_ascending⟩
      intro entry later
      exact same ▸ above _ later
    · refine pairwise_cons.mpr ⟨?_, ih rest_ascending⟩
      intro entry listed
      rcases mem_insertPending listed with rfl | later
      · dsimp only
        omega
      · exact above _ later

/-- A source that is pending is replaced, another one is added. -/
theorem length_insertPending (ascending : Ascending pending) (source stamp : Nat) :
    (insertPending pending source stamp).length =
      if pending.all (·.1 ≠ source) then pending.length + 1 else pending.length := by
  induction pending with
  | nil => rfl
  | cons first rest ih =>
    obtain ⟨key, value⟩ := first
    obtain ⟨above, rest_ascending⟩ := pairwise_cons.mp ascending
    unfold insertPending
    split
    · rename_i below
      have absent : ((key, value) :: rest).all (·.1 ≠ source) = true := by
        refine all_eq_true.mpr (forall_mem_cons.mpr ⟨decide_eq_true (by omega), ?_⟩)
        intro entry later
        have := above _ later
        exact decide_eq_true (by omega)
      rw [if_pos absent]
      rfl
    split
    · rename_i same
      rw [if_neg (by simp [same])]
      rfl
    · rename_i apart
      rw [length_cons, ih rest_ascending]
      have head : decide (key ≠ source) = true := decide_eq_true (Ne.symm apart)
      rw [all_cons, head, Bool.true_and]
      split
      · rfl
      · rfl

namespace CoalescingAccumulator

variable {accumulator : CoalescingAccumulator} {history : List ObserverOp} {bound : Nat}

/-- The pending map is within the bound, and as long as nothing latched it is the history. -/
structure Retains (accumulator : CoalescingAccumulator) (bound : Nat)
    (history : List ObserverOp) : Prop where
  bounded : accumulator.bound = bound
  ascending : Ascending accumulator.pending
  within : accumulator.pending.length ≤ bound
  unlatched : accumulator.latch = none → ∀ op ∈ history, op.latches = false
  current : accumulator.latch = none → ∀ source,
    lastObservation history source = (accumulator.pending.lookup source).map some

/-- A new accumulator retains nothing. -/
theorem new_retains : (new bound).Retains bound [] where
  bounded := rfl
  ascending := nil
  within := Nat.zero_le _
  unlatched := fun _ _ listed => nomatch listed
  current := fun _ _ => rfl

section
variable (retains : accumulator.Retains bound history)
include retains

/-- A latched accumulator has nothing left to retain. -/
theorem Retains.latchCause (cause : LatchCause)
    (op : ObserverOp) : (accumulator.latchCause cause).Retains bound (history ++ [op]) where
  bounded := retains.bounded
  ascending := retains.ascending
  within := retains.within
  unlatched := nofun
  current := nofun

/-- Neither does one after a cut. -/
theorem Retains.cut :
    accumulator.cut.2.Retains bound [] where
  bounded := retains.bounded
  ascending := nil
  within := Nat.zero_le _
  unlatched := fun _ _ listed => nomatch listed
  current := fun _ _ => rfl

/-- A derived stamp becomes the newest of its source, or its observation latches. -/
theorem Retains.observe (source : Nat)
    (derived : Option Nat) :
    (accumulator.observe source derived).Retains bound (history ++ [.observe source derived]) := by
  unfold CoalescingAccumulator.observe
  split
  · exact retains.latchCause ..
  rename_i room
  cases derived with
  | none => exact retains.latchCause ..
  | some stamp =>
    refine ⟨retains.bounded, retains.ascending.insertPending _ _, ?_, ?_, ?_⟩
    · have length := length_insertPending retains.ascending source stamp
      have within := retains.within
      have bounded := retains.bounded
      dsimp only
      split at length
      · rename_i absent
        have below : ¬ accumulator.bound ≤ accumulator.pending.length :=
          fun full => room ⟨absent, full⟩
        omega
      · omega
    · intro open_latch
      exact forall_mem_append.mpr
        ⟨retains.unlatched open_latch, forall_mem_singleton.mpr rfl⟩
    · intro open_latch other
      rw [lastObservation_append, retains.current open_latch, lookup_insertPending]
      by_cases same : source = other
      · simp [same]
      · simp [same, Ne.symm same]

end

variable {ops : List ObserverOp}

/-- One operation keeps what the accumulator retains of the operations since the last cut. -/
theorem Retains.apply
    (retains : accumulator.Retains bound (sinceCut ops)) (op : ObserverOp) :
    (accumulator.apply op).Retains bound (sinceCut (ops ++ [op])) := by
  rw [sinceCut_append]
  cases op with
  | observe source derived => exact retains.observe _ _
  | reportGap | latchHandoffBarrier | latchScopeDirty => exact retains.latchCause ..
  | cut => exact retains.cut

/-- Over a whole run the accumulator retains the operations since the last cut. -/
theorem retains_foldl (bound : Nat) (ops : List ObserverOp) :
    (ops.foldl apply (new bound)).Retains bound (sinceCut ops) := by
  induction ops using reverseRecOn with
  | nil => exact new_retains
  | append_singleton ops op ih =>
    rw [foldl_append]
    exact ih.apply _

/-- The cut at the end of a run is the last one emitted. -/
theorem cuts_append_cut (accumulator : CoalescingAccumulator) :
    cuts accumulator (ops ++ [.cut]) =
      cuts accumulator ops ++ [(ops.foldl apply accumulator).cut.1] := by
  induction ops generalizing accumulator with
  | nil => rfl
  | cons op rest ih =>
    cases op with
    | cut =>
      rw [cons_append, cuts, ih]
      rfl
    | observe source derived | reportGap | latchHandoffBarrier | latchScopeDirty => exact ih _

/-- Only a cut uses a token. -/
theorem apply_nextToken (op : ObserverOp) :
    (accumulator.apply op).nextToken =
      if op = .cut then accumulator.nextToken + 1 else accumulator.nextToken := by
  cases op with
  | observe source derived =>
    simp only [apply, CoalescingAccumulator.observe]
    split
    · rfl
    cases derived with
    | none => rfl
    | some stamp => rfl
  | reportGap | latchHandoffBarrier | latchScopeDirty | cut => rfl

/-- Cut tokens increase from the next token on. -/
theorem cuts_tokens (accumulator : CoalescingAccumulator) :
    ((cuts accumulator ops).map ObservationCut.token).Pairwise (· < ·) ∧
      ∀ cut ∈ cuts accumulator ops, accumulator.nextToken ≤ cut.token := by
  induction ops generalizing accumulator with
  | nil => exact ⟨nil, fun _ listed => nomatch listed⟩
  | cons op rest ih =>
    obtain ⟨increasing, above⟩ := ih (accumulator.apply op)
    rw [apply_nextToken] at above
    cases op with
    | cut =>
      constructor
      · rw [cuts, map_cons, pairwise_cons]
        refine ⟨?_, increasing⟩
        intro token listed
        obtain ⟨cut, member, rfl⟩ := mem_map.mp listed
        exact above _ member
      · exact forall_mem_cons.mpr ⟨Nat.le_refl _, fun cut later =>
          Nat.le_of_succ_le (above _ later)⟩
    | observe source derived | reportGap | latchHandoffBarrier | latchScopeDirty =>
      exact ⟨increasing, above⟩

/-- As long as nothing latched, the sources observed are pending, within the bound. -/
theorem Retains.sources_le (retains : accumulator.Retains bound history)
    (open_latch : accumulator.latch = none) :
    (observedSources history).dedup.length ≤ bound := by
  have pending : (observedSources history).dedup ⊆ accumulator.pending.map Prod.fst := by
    intro source listed
    have observed := (mem_observedSources_iff _).mp (mem_dedup.mp listed)
    rw [retains.current open_latch, ne_eq, Option.map_eq_none_iff, ← ne_eq,
      Option.ne_none_iff_exists'] at observed
    obtain ⟨stamp, found⟩ := observed
    obtain ⟨before, after, split, -⟩ := lookup_eq_some_iff.mp found
    rw [split]
    simp
  calc (observedSources _).dedup.length
      ≤ (accumulator.pending.map Prod.fst).length :=
        (subperm_of_subset (nodup_dedup _) pending).length_le
    _ = accumulator.pending.length := length_map ..
    _ ≤ bound := retains.within

/-- A cut demands everything observed since the one before: it names every source with its newest
stamp, or is a full baseline, as it must be after a gap, a dirty scope, a handoff or too many
sources. -/
theorem cut_retains_observations (bound : Nat) (ops : List ObserverOp) :
    ∃ cut, cuts (new bound) (ops ++ [.cut]) = cuts (new bound) ops ++ [cut] ∧
      (∀ source ∈ observedSources (sinceCut ops), (∃ cause, cut.kind = .fullBaseline cause) ∨
        ∃ invalidations stamp, cut.kind = .incremental invalidations ∧
          lastObservation (sinceCut ops) source = some (some stamp) ∧
          invalidations.lookup source = some stamp) ∧
      ((∃ op ∈ sinceCut ops, op.latches = true) ∨
          bound < (observedSources (sinceCut ops)).dedup.length →
        ∃ cause, cut.kind = .fullBaseline cause) ∧
      (∀ invalidations, cut.kind = .incremental invalidations →
        invalidations.length ≤ bound) ∧
      ((cuts (new bound) (ops ++ [.cut])).map ObservationCut.token).Pairwise (· < ·) := by
  have retains := retains_foldl bound ops
  refine ⟨_, cuts_append_cut (new bound), ?_, ?_, ?_, (cuts_tokens (new bound)).1⟩
  all_goals generalize ops.foldl apply (new bound) = accumulator at retains ⊢
  · intro source observed
    cases latched : accumulator.latch with
    | some cause => exact .inl ⟨cause, by rw [cut, latched]⟩
    | none =>
      have newest := retains.current latched source
      rw [mem_observedSources_iff, newest, ne_eq, Option.map_eq_none_iff, ← ne_eq,
        Option.ne_none_iff_exists'] at observed
      obtain ⟨stamp, found⟩ := observed
      rw [found] at newest
      exact .inr ⟨accumulator.pending, _, by rw [cut, latched], newest, found⟩
  · intro forced
    cases latched : accumulator.latch with
    | some cause => exact ⟨cause, by rw [cut, latched]⟩
    | none =>
      rcases forced with ⟨op, listed, latches⟩ | overflow
      · rw [retains.unlatched latched op listed] at latches
        cases latches
      · exact absurd (retains.sources_le latched) (Nat.not_le.mpr overflow)
  · intro invalidations incremental
    cases latched : accumulator.latch with
    | some cause =>
      rw [cut, latched] at incremental
      cases incremental
    | none =>
      rw [cut, latched] at incremental
      cases incremental
      exact retains.within

end CoalescingAccumulator

end Symforge.Lifecycle
