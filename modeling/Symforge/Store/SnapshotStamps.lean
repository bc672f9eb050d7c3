import Symforge.Library.Run
import Symforge.Text

/-!
# Modification times in snapshots

What `build_snapshot`, `refuse_unverified_seed` and `stat_check_files_from_view_with` of
`live_index/persist.rs` do with one path. A checkpoint takes the bytes of a row from the index and
its modification second from the disk, and the stat pass after a restore trusts a row if the file
has this size and second. A row holds bytes that the file had at some time. An edit that only sets
the time back to an old second is not among the steps: it would defeat any comparison of stats.
-/

namespace Symforge.Store

open Library List

/-- A file on disk. -/
structure DiskFile where
  content : Bytes
  mtimeSecs : Nat
  deriving DecidableEq, Repr

/-- The modification second or the size of the file is none that these had. -/
def FreshStamp (past : List DiskFile) (file : DiskFile) : Prop :=
  (∀ old ∈ past, old.mtimeSecs ≠ file.mtimeSecs) ∨
    ∀ old ∈ past, old.content.length ≠ file.content.length

instance (past : List DiskFile) (file : DiskFile) : Decidable (FreshStamp past file) :=
  inferInstanceAs (Decidable (_ ∨ _))

/-- `IndexedFileSnapshot`; its `byte_len` is the length of the content. -/
structure IndexedFileSnapshot where
  content : Bytes
  mtimeSecs : Nat
  deriving DecidableEq, Repr

/-- How far a checkpoint is with the path: its row captured, and stamped by `build_snapshot`. -/
inductive Checkpoint where
  | idle
  | captured (row : Option Bytes)
  | built (row : Option IndexedFileSnapshot)
  deriving DecidableEq, Repr

/-- A path in a history: the files that were there, the newest first, and whether this one still is;
the rows in the index, in the saved snapshot and put in the index by a restore. -/
structure PathState where
  past : List DiskFile
  present : Bool
  row : Option Bytes
  checkpoint : Checkpoint
  saved : Option IndexedFileSnapshot
  restored : Option IndexedFileSnapshot
  unverified : Bool
  deriving DecidableEq, Repr

/-- What happens to a path. -/
inductive PathAction where
  | edit (file : DiskFile)
  | delete
  | index (content : Bytes)
  | unindex
  | capture
  | build
  | persist
  | coldStart
  | restore
  | resolveVerify
  deriving DecidableEq, Repr

/-- The row of `build_snapshot`. -/
def snapshotRow (onDisk : Option DiskFile) (content : Bytes) : IndexedFileSnapshot :=
  ⟨content, (onDisk.map DiskFile.mtimeSecs).getD 0⟩

/-- The comparison of `stat_check_files_from_view_with`: neither changed nor deleted. -/
def statClears (row : IndexedFileSnapshot) : Option DiskFile → Bool
  | none => false
  | some file => file.content.length == row.content.length && file.mtimeSecs == row.mtimeSecs

namespace PathState

variable (state : PathState)

/-- The file that is there. -/
def onDisk : Option DiskFile := if state.present then state.past.head? else none

/-- No file, no row and no snapshot. -/
def initial : PathState := ⟨[], false, none, .idle, none, none, false⟩

/-- A step at the path. An edit gives the file a second or a size that it never had, so one that
sets the time alone back to an old second is left out. -/
def step : PathAction → Option PathState
  | .edit file =>
    if FreshStamp state.past file then
      some { state with past := file :: state.past, present := true }
    else none
  | .delete => some { state with present := false }
  | .index content =>
    if ∃ old ∈ state.past, old.content = content then
      some { state with row := some content, restored := none }
    else none
  | .unindex => some { state with row := none, restored := none }
  | .capture =>
    -- `refuse_unverified_seed`
    if state.unverified then none else some { state with checkpoint := .captured state.row }
  | .build =>
    match state.checkpoint with
    | .captured row => some { state with checkpoint := .built (row.map (snapshotRow state.onDisk)) }
    | _ => none
  | .persist =>
    match state.checkpoint with
    | .built row => some { state with checkpoint := .idle, saved := row }
    | _ => none
  | .coldStart => some { state with
      row := none, checkpoint := .idle, restored := none, unverified := false }
  | .restore => some { state with
      row := state.saved.map IndexedFileSnapshot.content
      checkpoint := .idle
      restored := state.saved
      unverified := true }
  | .resolveVerify => some { state with restored := none, unverified := false }

/-- A restored row that the stat pass clears holds the bytes of the file. -/
def Vouches : Prop :=
  ∀ row file, state.restored = some row → state.onDisk = some file →
    statClears row (some file) = true → row.content = file.content

/-- The bytes that the file had at some time. -/
def Held (content : Bytes) : Prop := ∃ old ∈ state.past, old.content = content

/-- The bytes of a row in the index, in a checkpoint or in the saved snapshot. -/
def Keeps (content : Bytes) : Prop :=
  state.row = some content ∨ state.checkpoint = .captured (some content) ∨
    (∃ row, state.checkpoint = .built (some row) ∧ row.content = content) ∨
    ∃ row, state.saved = some row ∧ row.content = content

variable {state next final : PathState}

/-- Files are only added, with a stamp of their own, and one that is gone comes back by an edit; the
rows hold bytes that were kept or that the file had. -/
structure Steps (state next : PathState) : Prop where
  files : (next.past = state.past ∧ (next.present = true → state.present = true)) ∨
    ∃ file, FreshStamp state.past file ∧ next.past = file :: state.past
  rows : ∀ content, next.Keeps content → state.Keeps content ∨ state.Held content

variable {action : PathAction}

/-- What one action may do. -/
theorem steps_of_step (moved : state.step action = some next) : state.Steps next := by
  cases action with
  | edit file =>
    simp only [step] at moved
    split at moved
    · rename_i fresh
      cases moved
      exact ⟨.inr ⟨_, fresh, rfl⟩, fun content kept => .inl kept⟩
    · cases moved
  | index content =>
    simp only [step] at moved
    split at moved
    · rename_i held
      cases moved
      refine ⟨.inl ⟨rfl, id⟩, fun other kept => ?_⟩
      rcases kept with same | kept
      · cases same
        exact .inr held
      · exact .inl (.inr kept)
    · cases moved
  -- The other steps leave the files, and rows only move between the index and the snapshots.
  | delete | unindex | capture | build | persist | coldStart | restore | resolveVerify =>
    constructor
    · grind [step]
    · grind [step, Keeps, snapshotRow, Option.map_eq_some_iff]

/-- The newest file has a stamp of its own, and every row holds bytes that the file had. -/
structure Inv (state : PathState) : Prop where
  fresh : ∀ newest rest, state.past = newest :: rest → FreshStamp rest newest
  held : ∀ content, state.Keeps content → state.Held content

/-- Every action keeps the invariant. -/
theorem step_inv (inv : state.Inv) (moved : state.step action = some next) : next.Inv := by
  obtain ⟨files, rows⟩ := steps_of_step moved
  have held : ∀ content, next.Keeps content → state.Held content := fun content kept =>
    (rows _ kept).elim (inv.held _) id
  rcases files with ⟨same, -⟩ | ⟨file, fresh, grown⟩
  · exact ⟨by rw [same]; exact inv.fresh, by unfold Held; rwa [same]⟩
  refine ⟨fun newest rest split => ?_, fun content kept => ?_⟩
  · cases grown.symm.trans split
    exact fresh
  · obtain ⟨old, member, same⟩ := held _ kept
    exact ⟨old, by rw [grown]; exact mem_cons_of_mem _ member, same⟩

/-- Files were only added since, and a file that was gone is there again by an edit only. -/
def Follows (state final : PathState) : Prop :=
  ∃ newer, final.past = newer ++ state.past ∧
    (newer = [] → final.present = true → state.present = true)

/-- Every action goes on from the state. -/
theorem step_follows (before : state.Follows next)
    (moved : next.step action = some final) : state.Follows final := by
  obtain ⟨newer, past, back⟩ := before
  rcases (steps_of_step moved).files with ⟨same, present⟩ | ⟨file, -, grown⟩
  · exact ⟨newer, same.trans past, fun none there => back none (present there)⟩
  · exact ⟨file :: newer, grown.trans (congrArg (file :: ·) past), nofun⟩

/-- Whether the saved row can vouch for other bytes, when the checkpoint asks the disk: a file of
the row's length must hold its bytes; without a file the second is 0, which must be no news to the
path. -/
def StampFits (content : Bytes) : Prop :=
  match state.onDisk with
  | some file => file.content.length = content.length → file.content = content
  | none => content = [] ∨ ∃ old ∈ state.past, old.mtimeSecs = 0

variable {content : Bytes}

/-- A file that comes to have the size and the second of the row holds its bytes. -/
theorem content_of_statClears (inv : final.Inv) (follows : state.Follows final)
    (held : state.Held content) (fits : state.StampFits content) {file : DiskFile}
    (there : final.onDisk = some file)
    (clears : statClears (snapshotRow state.onDisk content) (some file) = true) :
    content = file.content := by
  obtain ⟨newer, past, back⟩ := follows
  unfold onDisk at there
  split at there
  swap
  · cases there
  rename_i present
  obtain ⟨rest, newest⟩ := head?_eq_some_iff.mp there
  have fresh := inv.fresh _ _ newest
  simp only [statClears, snapshotRow, Bool.and_eq_true, beq_iff_eq] at clears
  obtain ⟨size, second⟩ := clears
  by_contra differs
  have older : ∀ old ∈ state.past, old ≠ file → old ∈ rest := by
    intro old member other
    have among : old ∈ final.past := past ▸ mem_append_right _ member
    rw [newest] at among
    exact (mem_cons.mp among).resolve_left other
  -- The size of the row is not new, so the second of the file is.
  obtain ⟨source, inPast, rfl⟩ := held
  have sourceOlder := older _ inPast fun same => differs (congrArg DiskFile.content same)
  have newSecond : ∀ old ∈ rest, old.mtimeSecs ≠ file.mtimeSecs :=
    fresh.resolve_right fun newSize => newSize _ sourceOlder size.symm
  unfold StampFits at fits
  cases seen : state.onDisk with
  | some stamped =>
    rw [seen] at fits second
    have inState : stamped ∈ state.past := by
      unfold onDisk at seen
      split at seen
      · exact mem_of_head? seen
      · cases seen
    have other : stamped ≠ file := by
      intro same
      rw [same] at fits
      exact differs (fits size).symm
    exact newSecond _ (older _ inState other) second.symm
  | none =>
    rw [seen] at fits second
    rcases fits with empty | ⟨old, member, zero⟩
    · rw [empty, length_nil, length_eq_zero_iff] at size
      exact differs (empty.trans size.symm)
    cases newer with
    | nil =>
      have same : state.onDisk = some file := by
        rw [onDisk, if_pos (back rfl present), ← there, past, nil_append]
      rw [seen] at same
      cases same
    | cons first others =>
      obtain ⟨-, tail⟩ := cons.inj (newest.symm.trans past)
      refine newSecond _ ?_ (zero.trans second.symm)
      rw [tail]
      exact mem_append_right _ member

/-- A state in which a checkpoint has captured a row. -/
structure Capturing (state : PathState) (content : Bytes) : Prop where
  reached : ∃ actions, run step initial actions = some state
  captured : state.checkpoint = .captured (some content)

/-- A capture in progress has the invariant. -/
theorem Capturing.inv (capturing : state.Capturing content) : state.Inv := by
  obtain ⟨actions, reached⟩ := capturing.reached
  exact run_invariant Inv (fun _ _ _ => step_inv)
    ⟨by simp [initial], by simp [Keeps, initial]⟩ reached

/-- The state once the checkpoint is saved and restored. -/
def afterRestore (content : Bytes) : PathState where
  past := state.past
  present := state.present
  row := some content
  checkpoint := .idle
  saved := some (snapshotRow state.onDisk content)
  restored := some (snapshotRow state.onDisk content)
  unverified := true

/-- The run that builds, persists and restores. -/
theorem Capturing.run_afterRestore (capturing : state.Capturing content) :
    run step state [.build, .persist, .restore] = some (state.afterRestore content) := by
  simp [run, step, capturing.captured, afterRestore, snapshotRow]

/-- Other bytes of the same number. -/
def otherBytes (content : Bytes) : Bytes := content.map fun byte => if byte = 0 then 1 else 0

/-- Other bytes differ. -/
theorem ne_otherBytes (nonempty : content ≠ []) : content ≠ otherBytes content := by
  cases content with
  | nil => exact absurd rfl nonempty
  | cons byte rest =>
    intro same
    have first : byte = if byte = 0 then 1 else 0 := (cons.inj same).1
    split at first
    · rename_i zero
      rw [zero] at first
      cases first
    · contradiction

/-- Whatever happens after a checkpoint has asked the disk about a row, the saved row is cleared
only with the bytes of the file, exactly if its bytes and second fit together. -/
theorem snapshot_vouches_iff {content : Bytes} (capturing : state.Capturing content) :
    (∀ actions final, run step state (.build :: actions) = some final →
      final.restored = some (snapshotRow state.onDisk content) → final.Vouches) ↔
    state.StampFits content := by
  constructor
  · intro vouches
    have restored := vouches _ _ capturing.run_afterRestore rfl
    unfold StampFits
    cases seen : state.onDisk with
    | some file =>
      intro size
      have same := restored (snapshotRow state.onDisk content) _ rfl seen
      rw [seen] at same
      exact (same (by simp [statClears, snapshotRow, size])).symm
    | none =>
      by_contra unfit
      obtain ⟨nonempty, unused⟩ := not_or.mp unfit
      -- The path gets a file of the second 0 with other bytes.
      have fresh : FreshStamp state.past ⟨otherBytes content, 0⟩ :=
        .inl fun old member zero => unused ⟨old, member, zero⟩
      have reached : run step state [.build, .persist, .restore, .edit ⟨otherBytes content, 0⟩] =
          some { state.afterRestore content with
            past := ⟨otherBytes content, 0⟩ :: state.past, present := true } := by
        simp [run, step, capturing.captured, afterRestore, snapshotRow, fresh]
      have same := vouches _ _ reached rfl (snapshotRow state.onDisk content)
        ⟨otherBytes _, 0⟩ rfl rfl (by simp [statClears, snapshotRow, seen, otherBytes])
      exact ne_otherBytes nonempty same
  · intro fits actions final reached restored row file same there clears
    have inv : final.Inv := run_invariant Inv (fun _ _ _ => step_inv) capturing.inv reached
    have follows : state.Follows final :=
      run_invariant state.Follows (fun _ _ _ => step_follows)
        ⟨[], rfl, fun _ present => present⟩ reached
    cases restored.symm.trans same
    have held := capturing.inv.held _ (.inr (.inl capturing.captured))
    exact content_of_statClears inv follows held fits there clears

/-- A checkpoint has captured the row of a file that was read and not edited since. -/
def currentCapture : PathState :=
  ⟨[⟨[0x61], 1⟩], true, some [0x61], .captured (some [0x61]), none, none, false⟩

/-- A capture that is current vouches for its content. -/
theorem currentCapture_vouches :
    currentCapture.Capturing [0x61] ∧
      ∀ actions final, run step currentCapture (.build :: actions) = some final →
        final.restored = some ⟨[0x61], 1⟩ → final.Vouches := by
  have capturing : currentCapture.Capturing [0x61] :=
    ⟨⟨[.edit ⟨[0x61], 1⟩, .index [0x61], .capture], by decide⟩, rfl⟩
  exact ⟨capturing, (snapshot_vouches_iff capturing).mpr fun _ => rfl⟩

/-- The file is edited before the checkpoint and not read again: the saved row has the old bytes and
the new second, and the stat pass clears it. -/
theorem uncapturedEdit_cleared :
    ∃ final, run step initial [.edit ⟨[0x61], 1⟩, .index [0x61], .edit ⟨[0x62], 2⟩, .capture,
        .build, .persist, .restore] = some final ∧
      final.restored = some ⟨[0x61], 2⟩ ∧ final.onDisk = some ⟨[0x62], 2⟩ ∧
      statClears ⟨[0x61], 2⟩ final.onDisk = true ∧ ¬final.Vouches := by
  refine ⟨⟨[⟨[0x62], 2⟩, ⟨[0x61], 1⟩], true, some [0x61], .idle, some ⟨[0x61], 2⟩,
    some ⟨[0x61], 2⟩, true⟩, by decide, rfl, rfl, rfl, fun vouches => ?_⟩
  exact absurd (vouches ⟨[0x61], 2⟩ ⟨[0x62], 2⟩ rfl rfl rfl) (by decide)

end PathState

end Symforge.Store
