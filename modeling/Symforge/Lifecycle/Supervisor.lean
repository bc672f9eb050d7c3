import Mathlib.Data.List.Basic
import Mathlib.Data.List.Nodup

/-!
# The per-source supervisor

Model of `index_lifecycle/supervisor.rs`: attempts are minted in order, end at most once in the
diagnostics ledger, and a retry supersedes every attempt that is still live. The ledger keeps the
newest rows only; a history field keeps all of them.
-/

namespace Symforge.Lifecycle

open List

/-- `supervisor::ClassifiedFailure`. -/
inductive ClassifiedFailure where
  | unreadable
  | unstableDuringRead
  | abortedCircuitBreaker
  | parseFailed
  | unknownOrdering
  | truncatedRequiredDerivation
  | partialParse
deriving DecidableEq, Repr

/-- `supervisor::AttemptDisposition`. -/
inductive AttemptDisposition where
  | committed
  | discarded (cause : ClassifiedFailure)
  | cancelled
  | superseded
  | panicked
deriving DecidableEq, Repr

/-- `supervisor::AttemptId`. -/
structure AttemptId where
  raw : Nat
deriving DecidableEq, Repr

/-- `supervisor::AttemptRecord`. -/
structure AttemptRecord where
  id : AttemptId
  disposition : AttemptDisposition
deriving DecidableEq, Repr

/-- `MAX_ATTEMPT_RECORDS`. -/
def maxAttemptRecords : Nat := 64

/-- `supervisor::SupervisorState`. -/
structure SupervisorState where
  nextAttempt : Nat := 0
  /-- Attempts that have not ended, in the order they were minted. -/
  live : List AttemptId := []
  superseded : List AttemptId := []
  terminal : List AttemptId := []
  records : List AttemptRecord := []
  committed : Nat := 0
  /-- History: every row recorded, also those the ledger has dropped. -/
  history : List AttemptRecord := []
deriving DecidableEq, Repr

namespace SupervisorState

variable {state : SupervisorState}

/-- `SupervisorState::mint`. -/
def mint (state : SupervisorState) : AttemptId × SupervisorState :=
  let id : AttemptId := ⟨state.nextAttempt⟩
  (id, { state with nextAttempt := state.nextAttempt + 1, live := state.live ++ [id] })

/-- `Vec::push` on the records, dropping the oldest beyond the limit. -/
def pushRecord (records : List AttemptRecord) (row : AttemptRecord) : List AttemptRecord :=
  let pushed := records ++ [row]
  if maxAttemptRecords < pushed.length then pushed.tail else pushed

/-- `SupervisorState::terminal_row` — whether this call ended the attempt. -/
def terminalRow (state : SupervisorState) (id : AttemptId) (disposition : AttemptDisposition) :
    Bool × SupervisorState :=
  if id ∈ state.terminal then (false, state)
  else (true, { state with
    terminal := id :: state.terminal
    live := state.live.filter (· ≠ id)
    records := pushRecord state.records ⟨id, disposition⟩
    history := state.history ++ [⟨id, disposition⟩] })

/-- `SupervisorState::is_superseded`. -/
def isSuperseded (state : SupervisorState) (id : AttemptId) : Bool := id ∈ state.superseded

/-- `SupervisorState::is_terminal`. -/
def isTerminal (state : SupervisorState) (id : AttemptId) : Bool := id ∈ state.terminal

/-- `SupervisorState::record_commit`. -/
def recordCommit (state : SupervisorState) (id : AttemptId) : SupervisorState :=
  match state.terminalRow id .committed with
  | (true, ended) => { ended with committed := ended.committed + 1 }
  | (false, ended) => ended

/-- `SupervisorState::record_discard`. -/
def recordDiscard (state : SupervisorState) (id : AttemptId) (cause : ClassifiedFailure) :
    SupervisorState :=
  (state.terminalRow id (.discarded cause)).2

/-- `SupervisorState::record_panic`. -/
def recordPanic (state : SupervisorState) (id : AttemptId) : SupervisorState :=
  (state.terminalRow id .panicked).2

/-- `BTreeSet::insert` on the superseded attempts. -/
def supersede (state : SupervisorState) (id : AttemptId) : SupervisorState :=
  { state with superseded := state.superseded.insert id }

/-- `SourceSupervisor::begin_attempt`. -/
def beginAttempt (state : SupervisorState) : AttemptId × SupervisorState := state.mint

/-- The part of `SourceSupervisor::retry_trigger` that ends the newest live attempt. -/
def discardNewest (state : SupervisorState) (cause : ClassifiedFailure) : SupervisorState :=
  match state.live.getLast? with
  | some newest => (state.supersede newest).recordDiscard newest cause
  | none => state

/-- The loop of `SourceSupervisor::retry_trigger` over the attempts that were live. -/
def sweep (state : SupervisorState) (stale : List AttemptId) : SupervisorState :=
  stale.foldl (fun state id => ((state.supersede id).terminalRow id .superseded).2) state

/-- `SourceSupervisor::retry_trigger`. -/
def retryTrigger (state : SupervisorState) (cause : ClassifiedFailure) :
    AttemptId × SupervisorState :=
  let state := state.discardNewest cause
  ({ state with live := [] }.sweep state.live).mint

/-- `LoadAttempt::cancel`. -/
def cancel (state : SupervisorState) (id : AttemptId) : SupervisorState :=
  (state.terminalRow id .cancelled).2

/-- Every row of the history is of another attempt, and the two ledgers agree with it. -/
structure Inv (state : SupervisorState) : Prop where
  once : (state.history.map AttemptRecord.id).Nodup
  ended : ∀ id, id ∈ state.terminal ↔ id ∈ state.history.map AttemptRecord.id
  counted : state.committed = state.history.countP (·.disposition = .committed)
  newest : state.records = state.history.drop (state.history.length - maxAttemptRecords)

/-- The invariant holds without attempts. -/
theorem new_inv : Inv {} := by
  refine ⟨nodup_nil, ?_, rfl, rfl⟩
  intro id
  exact .rfl

/-- The ledger is a window on the history. -/
theorem pushRecord_newest (history : List AttemptRecord) (row : AttemptRecord) :
    pushRecord (history.drop (history.length - maxAttemptRecords)) row =
      (history ++ [row]).drop ((history ++ [row]).length - maxAttemptRecords) := by
  unfold pushRecord
  simp only [length_append, length_drop, length_singleton]
  by_cases full : maxAttemptRecords ≤ history.length
  · have kept : 1 ≤ (history.drop (history.length - maxAttemptRecords)).length := by
      rw [length_drop, maxAttemptRecords] at *
      omega
    rw [if_pos (by omega), ← drop_one, drop_append_of_le_length kept, drop_drop,
      drop_append_of_le_length (by rw [maxAttemptRecords]; omega)]
    congr 2
    omega
  · rw [if_neg (by omega), show history.length - maxAttemptRecords = 0 by omega,
      show history.length + 1 - maxAttemptRecords = 0 by omega]
    rfl

section
variable (inv : state.Inv)
include inv

variable (id : AttemptId)

/-- Ending an attempt that has ended changes nothing, so every attempt ends once. -/
theorem Inv.end_once (disposition : AttemptDisposition) :
    ((state.terminalRow id disposition).2.history.map AttemptRecord.id).Nodup ∧
      (∀ other, other ∈ (state.terminalRow id disposition).2.terminal ↔
        other ∈ (state.terminalRow id disposition).2.history.map AttemptRecord.id) ∧
      (state.terminalRow id disposition).2.records =
        (state.terminalRow id disposition).2.history.drop
          ((state.terminalRow id disposition).2.history.length - maxAttemptRecords) := by
  unfold terminalRow
  split
  · exact ⟨inv.once, inv.ended, inv.newest⟩
  rename_i alive
  rw [inv.ended] at alive
  refine ⟨?_, ?_, ?_⟩
  · rw [map_append, map_singleton, nodup_append]
    refine ⟨inv.once, nodup_singleton _, ?_⟩
    rintro other listed _ ended rfl
    have same : other = id := mem_singleton.mp ended
    exact alive (same ▸ listed)
  · intro other
    rw [mem_cons, inv.ended, map_append, mem_append, map_singleton, mem_singleton, or_comm]
  · rw [inv.newest]
    exact pushRecord_newest state.history ⟨id, _⟩

/-- An attempt may end without a commit. -/
theorem Inv.terminalRow {disposition : AttemptDisposition}
    (other : disposition ≠ .committed) :
    (state.terminalRow id disposition).2.Inv := by
  obtain ⟨once, ended, newest⟩ := inv.end_once _ _
  refine ⟨once, ended, ?_, newest⟩
  unfold SupervisorState.terminalRow
  split
  · exact inv.counted
  rw [countP_append, countP_singleton, if_neg (by simp [other])]
  exact inv.counted

/-- An attempt may commit. -/
theorem Inv.recordCommit : (state.recordCommit id).Inv := by
  have ends := inv.end_once id .committed
  unfold SupervisorState.recordCommit
  by_cases terminal : id ∈ state.terminal
  · simp only [SupervisorState.terminalRow, if_pos terminal]
    exact inv
  simp only [SupervisorState.terminalRow, if_neg terminal] at ends ⊢
  obtain ⟨once, ended, newest⟩ := ends
  refine ⟨once, ended, ?_, newest⟩
  rw [countP_append, countP_singleton, if_pos (by simp), inv.counted]

/-- A new attempt may be minted. -/
theorem Inv.mint : state.mint.2.Inv := { inv with }

/-- An attempt may be superseded. -/
theorem Inv.supersede : (state.supersede id).Inv := { inv with }

end

section Retry

variable {P : SupervisorState → Prop}
  (ends : ∀ state id disposition, disposition ≠ .committed → P state →
    P ((state.supersede id).terminalRow id disposition).2)
include ends

/-- Superseding and ending attempts one by one keeps what each of them keeps. -/
theorem sweep_keeps (stale : List AttemptId) (holds : P state) : P (state.sweep stale) := by
  induction stale generalizing state with
  | nil => exact holds
  | cons id rest ih => exact ih (ends _ _ .superseded nofun holds)

/-- A retry keeps what superseding and ending one attempt and minting one keep. -/
theorem retryTrigger_keeps (cause : ClassifiedFailure)
    (mints : ∀ state next live, P state → P { state with nextAttempt := next, live })
    (holds : P state) : P (state.retryTrigger cause).2 := by
  have discarded : P (state.discardNewest cause) := by
    unfold discardNewest
    split
    · exact ends _ _ _ nofun holds
    · exact holds
  exact mints _ _ _ (sweep_keeps ends _ (mints _ _ _ discarded))

end Retry

/-- A failure may trigger a retry. -/
theorem Inv.retryTrigger (inv : state.Inv) (cause : ClassifiedFailure) :
    (state.retryTrigger cause).2.Inv :=
  retryTrigger_keeps (fun _ _ _ other inv => (inv.supersede _).terminalRow _ other) _
    (fun _ _ _ inv => { inv with }) inv

/-- Ending an attempt otherwise counts no commit. -/
theorem terminalRow_committed (id : AttemptId)
    (disposition : AttemptDisposition) :
    (state.terminalRow id disposition).2.committed = state.committed := by
  unfold terminalRow
  split
  · rfl
  · rfl

/-- A retry leaves the commits. -/
theorem retryTrigger_committed (cause : ClassifiedFailure) :
    (state.retryTrigger cause).2.committed = state.committed :=
  retryTrigger_keeps (P := fun reached => reached.committed = state.committed)
    (fun _ _ _ _ same => (terminalRow_committed _ _).trans same) _ (fun _ _ _ same => same) rfl

/-- A commit that is recorded first ends its attempt and is counted. -/
theorem recordCommit_committed {id : AttemptId} (alive : state.isTerminal id = false) :
    (state.recordCommit id).committed = state.committed + 1 := by
  have absent : id ∉ state.terminal := of_decide_eq_false alive
  simp [recordCommit, terminalRow, if_neg absent]

/-! ### What a supervisor never takes back -/

/-- Rows are only ever added, and an attempt stays superseded and stays ended. -/
structure Grows (before after : SupervisorState) : Prop where
  history : before.history <+: after.history
  superseded : before.superseded ⊆ after.superseded
  terminal : before.terminal ⊆ after.terminal

/-- What grows, and an attempt is live until it has ended. -/
structure Ages (before after : SupervisorState) : Prop extends Grows before after where
  live : ∀ id ∈ before.live, id ∈ after.live ∨ id ∈ after.terminal

/-- Nothing done, nothing lost. -/
theorem Grows.refl (state : SupervisorState) : state.Grows state :=
  ⟨prefix_rfl, Subset.refl _, Subset.refl _⟩

/-- A state is as old as itself. -/
theorem Ages.refl (state : SupervisorState) : state.Ages state :=
  ⟨.refl _, fun _ => .inl⟩

/-- Growing twice is growing. -/
theorem Grows.trans {middle after : SupervisorState} (first : state.Grows middle)
    (second : middle.Grows after) : state.Grows after :=
  ⟨first.history.trans second.history, List.Subset.trans first.superseded second.superseded,
    List.Subset.trans first.terminal second.terminal⟩

/-- Minting only adds to the history. -/
theorem mint_ages (state : SupervisorState) : state.Ages state.mint.2 :=
  ⟨⟨prefix_rfl, Subset.refl _, Subset.refl _⟩, fun _ live => .inl (mem_append_left _ live)⟩

/-- Ending an attempt leaves the others live. -/
theorem mem_live_terminalRow {id other : AttemptId} {disposition : AttemptDisposition}
    (live : other ∈ state.live) (apart : other ≠ id) :
    other ∈ (state.terminalRow id disposition).2.live := by
  unfold terminalRow
  split
  · exact live
  · exact mem_filter.mpr ⟨live, by simpa using apart⟩

/-- An attempt that ends has ended. -/
theorem mem_terminal_terminalRow (id : AttemptId) (disposition : AttemptDisposition) :
    id ∈ (state.terminalRow id disposition).2.terminal := by
  unfold terminalRow
  split
  · assumption
  · exact mem_cons_self

/-- So does the end of an attempt. -/
theorem terminalRow_ages (id : AttemptId) (disposition : AttemptDisposition) :
    state.Ages (state.terminalRow id disposition).2 where
  toGrows := by
    unfold terminalRow
    split
    · exact .refl _
    · exact ⟨prefix_append .., Subset.refl _, subset_cons_self ..⟩
  live other live := by
    by_cases same : other = id
    · exact .inr (same ▸ mem_terminal_terminalRow _ _)
    · exact .inl (mem_live_terminalRow live same)

/-- So does a commit. -/
theorem recordCommit_ages (id : AttemptId) : state.Ages (state.recordCommit id) := by
  have ages := state.terminalRow_ages id .committed
  unfold recordCommit
  split
  · rename_i ended recorded
    rw [recorded] at ages
    exact { ages with }
  · rename_i ended recorded
    rw [recorded] at ages
    exact ages

/-- One attempt that a retry supersedes and ends. -/
theorem superseded_grows (state : SupervisorState) (id : AttemptId)
    (disposition : AttemptDisposition) :
    let ended := ((state.supersede id).terminalRow id disposition).2
    state.Grows ended ∧ id ∈ ended.superseded ∧ id ∈ ended.terminal := by
  have ages := (state.supersede id).terminalRow_ages id disposition
  have grows : state.Grows (state.supersede id) :=
    ⟨prefix_rfl, fun _ => mem_insert_of_mem, Subset.refl _⟩
  exact ⟨grows.trans ages.toGrows, ages.superseded mem_insert_self,
    mem_terminal_terminalRow _ _⟩

/-- What is superseded and has ended stays so while a retry sweeps. -/
theorem sweep_kept (stale : List AttemptId) {id : AttemptId}
    (kept : id ∈ state.superseded ∧ id ∈ state.terminal) :
    id ∈ (state.sweep stale).superseded ∧ id ∈ (state.sweep stale).terminal := by
  apply sweep_keeps (P := fun state => id ∈ state.superseded ∧ id ∈ state.terminal) _ _ kept
  intro before other disposition _ kept
  have grows := (before.superseded_grows other disposition).1
  exact ⟨grows.superseded kept.1, grows.terminal kept.2⟩

/-- The sweep of a retry supersedes and ends every attempt it comes to. -/
theorem sweep_ends {stale : List AttemptId} {id : AttemptId} (member : id ∈ stale) :
    id ∈ (state.sweep stale).superseded ∧ id ∈ (state.sweep stale).terminal := by
  induction stale generalizing state with
  | nil => cases member
  | cons first rest ih =>
    rcases mem_cons.mp member with rfl | later
    · exact sweep_kept rest (state.superseded_grows id .superseded).2
    · exact ih later

/-- A retry supersedes and ends every attempt that is live. -/
theorem retryTrigger_ends (cause : ClassifiedFailure) {id : AttemptId} (live : id ∈ state.live) :
    id ∈ (state.retryTrigger cause).2.superseded ∧
      id ∈ (state.retryTrigger cause).2.terminal := by
  simp only [retryTrigger, mint]
  cases last : state.live.getLast? with
  | none =>
    rw [getLast?_eq_none_iff.mp last] at live
    cases live
  | some newest =>
    have discarded : state.discardNewest cause =
        ((state.supersede newest).terminalRow newest (.discarded cause)).2 := by
      simp [discardNewest, last, recordDiscard]
    rw [discarded]
    by_cases same : id = newest
    · subst same
      exact sweep_kept _ (state.superseded_grows id (.discarded cause)).2
    · exact sweep_ends (mem_live_terminalRow live same)

/-- So does a retry. -/
theorem retryTrigger_ages (cause : ClassifiedFailure) :
    state.Ages (state.retryTrigger cause).2 where
  toGrows := retryTrigger_keeps (P := state.Grows)
    (fun before id disposition _ grown => grown.trans (before.superseded_grows id disposition).1) _
    (fun _ _ _ grown => { grown with }) (.refl _)
  live _ live := .inr (retryTrigger_ends _ live).2

end SupervisorState

end Symforge.Lifecycle
