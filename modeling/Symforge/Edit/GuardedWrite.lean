import Symforge.Library.Locks
import Symforge.Library.Run
import Symforge.Edit.BatchCommit
import Symforge.Text
/-!
# Guarded writes and the other writers of a file

`edit_safety/atomic_write.rs`: a guarded write holds the lock of its path while it compares the
file with the bytes it was spliced from and replaces it. The batch executors hold the locks of all
their paths while they write. `insert_symbol`, `delete_symbol` and `edit_within_symbol`
(`protocol/edit_tools.rs`) take no lock, so one can come between the comparison and the replacement.

Files are named by the key of their lock. The calls take their steps in any order.
-/

namespace Symforge.Edit

open Library List Option Function

/-- The tools that write without a lock. -/
inductive UnlockedTool where
  | insertSymbol
  | deleteSymbol
  | editWithinSymbol
  deriving DecidableEq, Repr

/-- A call that has computed what it writes. `ifMatch` is given for a guarded replacement. -/
inductive WriteCall {Key : Type} (canonicalLockKey : String → Option Key) where
  | replaceSymbolBody (file : Key) (base newContent : Bytes) (ifMatch : Option String)
  | unlocked (tool : UnlockedTool) (file : Key) (newContent : Bytes)
  | batch (images : List StagedImage) (order : LockedOrder canonicalLockKey images)

/-- How a call ended. -/
inductive WriteOutcome where
  | written
  | rejected
  | failed
  deriving DecidableEq, Repr

/-- How `atomic_write_file` can end: written, or refused before or after the bytes are in place. -/
inductive ReplaceResult where
  | written
  | refused
  | unpublished
  deriving DecidableEq, Repr

/-- Whether the new bytes are in place. -/
def ReplaceResult.lands : ReplaceResult → Bool
  | .written | .unpublished => true
  | .refused => false

/-- How a replacement ended. -/
def ReplaceResult.outcome : ReplaceResult → WriteOutcome
  | .written => .written
  | .refused | .unpublished => .failed

/-- Where a call is: taking the locks that remain, past its comparison, or at its end. -/
inductive WritePhase (Key : Type) where
  | locking (remaining : List Key)
  | checked
  | finished (outcome : WriteOutcome)
  deriving DecidableEq, Repr

/-- The files and the calls of the process. -/
structure WriteState (Key : Type) where
  disk : Key → Option Bytes
  holders : Key → Option Nat
  phase : Nat → WritePhase Key
  /-- The replacements of single files that returned `Written`: the call, and what the file held
  when it was replaced. -/
  replacements : List (Nat × Option Bytes)

/-- One step of the call with the given number. -/
inductive WriteAction where
  | lock (call : Nat)
  | reread (call : Nat) (readable : Bool)
  | replace (call : Nat) (result : ReplaceResult)
  | writeImage (call : Nat) (position : Nat) (restores : Bool)
  | finishBatch (call : Nat) (outcome : WriteOutcome)
  deriving DecidableEq, Repr

section

variable {Key : Type} {canonicalLockKey : String → Option Key}

/-- What the batch kernel puts in a file: the replacement or, in the rollback, the original. -/
def StagedImage.bytes (image : StagedImage) (restores : Bool) : Option Bytes :=
  if restores then image.original else some image.replacement

/-- The locks a call takes, in order. -/
def WriteCall.lockOrder : WriteCall canonicalLockKey → List Key
  | .replaceSymbolBody file _ _ _ => [file]
  | .unlocked _ _ _ => []
  | .batch _ order => order.entries.map Prod.fst

namespace WriteState

/-- The state before any call has begun. -/
def start (calls : Nat → WriteCall canonicalLockKey) (disk : Key → Option Bytes) : WriteState Key :=
  ⟨disk, fun _ => none, fun call => .locking (calls call).lockOrder, []⟩

/-- A call returns and its guards are dropped. -/
def finish (state : WriteState Key) (call : Nat) (outcome : WriteOutcome) : WriteState Key :=
  { state with
    holders := release state.holders call
    phase := update state.phase call (.finished outcome) }

variable [DecidableEq Key]

/-- The file gets the bytes. -/
def store (state : WriteState Key) (file : Key) (bytes : Bytes) : WriteState Key :=
  { state with disk := update state.disk file (some bytes) }

/-- The file has the new bytes. -/
@[simp] theorem store_disk_self (state : WriteState Key) (file : Key) (bytes : Bytes) :
    (state.store file bytes).disk file = some bytes :=
  update_self ..

/-- The other files keep theirs. -/
theorem store_disk_of_ne (state : WriteState Key) {file other : Key} (bytes : Bytes)
    (apart : other ≠ file) : (state.store file bytes).disk other = state.disk other :=
  update_of_ne apart ..

/-- `atomic_write::atomic_write_file`, and the return of the call behind it. -/
def atomicWriteFile (state : WriteState Key) (call : Nat) (file : Key) (content : Bytes)
    (result : ReplaceResult) : WriteState Key :=
  let written := if result.lands then state.store file content else state
  let logged := if result = .written then [(call, state.disk file)] else []
  { written with replacements := state.replacements ++ logged }.finish call result.outcome

/-- The comparison of `guarded_atomic_write_file_expected`, under the lock. -/
def rereadFile (state : WriteState Key) (call : Nat) (file : Key) (base : Bytes)
    (ifMatch : Option String) (readable : Bool) : WriteState Key :=
  let checked := { state with phase := update state.phase call .checked }
  match ifMatch with
  | none => checked
  | some _ =>
    match state.disk file, readable with
    | some onDisk, true => if onDisk = base then checked else state.finish call .rejected
    | _, _ => state.finish call .failed

variable (calls : Nat → WriteCall canonicalLockKey)

/-- The steps of the calls. Of the batch kernel it is only said that it writes images of its own
files while it holds all their locks. -/
def step (state : WriteState Key) : WriteAction → Option (WriteState Key)
  | .lock call =>
    match state.phase call with
    | .locking (key :: remaining) => do
      let holders ← acquire state.holders key call
      some { state with
        holders := holders
        phase := update state.phase call (.locking remaining) }
    | _ => none
  | .reread call readable =>
    match calls call, state.phase call with
    | .replaceSymbolBody file base _ ifMatch, .locking [] =>
      some (state.rereadFile call file base ifMatch readable)
    | _, _ => none
  | .replace call result =>
    match calls call, state.phase call with
    | .replaceSymbolBody file _ newContent _, .checked =>
      some (state.atomicWriteFile call file newContent result)
    | .unlocked _ file newContent, .locking [] =>
      some (state.atomicWriteFile call file newContent result)
    | _, _ => none
  | .writeImage call position restores =>
    match calls call, state.phase call with
    | .batch images order, .locking [] => do
      let (file, index) ← order.entries[position]?
      let bytes ← (images.get index).bytes restores
      some (state.store file bytes)
    | _, _ => none
  | .finishBatch call outcome =>
    match calls call, state.phase call with
    | .batch _ _, .locking [] => some (state.finish call outcome)
    | _, _ => none

end WriteState

/-! ### What a guarded write relies on -/

/-- The call is a guarded replacement of `file`, spliced from `base`. -/
def WriteCall.GuardedOn (call : WriteCall canonicalLockKey) (file : Key) (base : Bytes) : Prop :=
  ∃ newContent tag, call = .replaceSymbolBody file base newContent (some tag)

variable (calls : Nat → WriteCall canonicalLockKey)

/-- A replacement in the log that was guarded found its base. -/
def FoundBase (entry : Nat × Option Bytes) : Prop :=
  ∀ file base, (calls entry.1).GuardedOn file base → entry.2 = some base

/-- No unlocked tool puts other bytes in a file while a guarded write of it is past its comparison
and has not replaced it yet. -/
def UnlockedApart (state : WriteState Key) (action : WriteAction) : Prop :=
  ∀ call result tool file newContent, action = .replace call result → result.lands = true →
    calls call = .unlocked tool file newContent →
      ∀ other base, (calls other).GuardedOn file base → state.phase other = .checked →
        state.disk file = some newContent

namespace WriteState

/-- A call past its comparison finds its base in its file. -/
def BaseInPlace (state : WriteState Key) : Prop :=
  ∀ call file base, (calls call).GuardedOn file base → state.phase call = .checked →
    state.disk file = some base

/-- What every step keeps. -/
structure Invariant (state : WriteState Key) : Prop where
  /-- A call has taken its locks up to the ones that remain, and holds them. -/
  locking : ∀ call remaining, state.phase call = .locking remaining → ∃ taken,
    (calls call).lockOrder = taken ++ remaining ∧ Holds state.holders call taken
  checked : ∀ call, state.phase call = .checked → Holds state.holders call (calls call).lockOrder
  base : state.BaseInPlace calls
  log : ∀ entry ∈ state.replacements, FoundBase calls entry

variable {calls} {state : WriteState Key} {call other : Nat} {file : Key}

/-- The invariant holds at the start. -/
theorem start_invariant (disk : Key → Option Bytes) : Invariant calls (start calls disk) where
  locking call remaining phase := by
    cases phase
    exact ⟨[], rfl, fun _ member => by cases member⟩
  checked _ phase := by cases phase
  base _ _ _ _ phase := by cases phase
  log _ member := by cases member

/-- After a step of `call` it is in the phase the step leads to, every other call where it was. -/
theorem phase_update_cases {next phase : WritePhase Key}
    (now : update state.phase call next other = phase) :
    (other = call ∧ next = phase) ∨ (other ≠ call ∧ state.phase other = phase) := by
  by_cases same : other = call
  · subst same
    rw [update_self] at now
    exact .inl ⟨rfl, now⟩
  · rw [update_of_ne same] at now
    exact .inr ⟨same, now⟩

/-- Another phase is of another call. -/
theorem ne_of_phase_update {next phase : WritePhase Key}
    (now : update state.phase call next other = phase) (apart : next ≠ phase) :
    other ≠ call ∧ state.phase other = phase :=
  (phase_update_cases now).resolve_left fun stepped => apart stepped.2

section Kept

variable (invariant : Invariant calls state)

include invariant

/-- A call ends harmlessly, also after it has put bytes in a file that no other call relies on. -/
theorem Invariant.finish_with (outcome : WriteOutcome) {disk : Key → Option Bytes}
    {log : List (Nat × Option Bytes)}
    (inPlace : ∀ other file base, other ≠ call → (calls other).GuardedOn file base →
      state.phase other = .checked → disk file = some base)
    (found : ∀ entry ∈ log, FoundBase calls entry) :
    Invariant calls ({ state with disk := disk, replacements := log }.finish call outcome) where
  locking other remaining phase := by
    obtain ⟨apart, before⟩ := ne_of_phase_update phase (by simp)
    obtain ⟨taken, order, held⟩ := invariant.locking _ _ before
    exact ⟨taken, order, held.release apart⟩
  checked other phase := by
    obtain ⟨apart, before⟩ := ne_of_phase_update phase (by simp)
    exact (invariant.checked _ before).release apart
  base other file base guarded phase := by
    obtain ⟨apart, before⟩ := ne_of_phase_update phase (by simp)
    exact inPlace _ _ _ apart guarded before
  log := found

/-- A call may end. -/
theorem Invariant.finish (call : Nat) (outcome : WriteOutcome) :
    Invariant calls (state.finish call outcome) :=
  invariant.finish_with _
    (fun _ _ _ _ guarded phase => invariant.base _ _ _ guarded phase)
    invariant.log

/-- A call may take its next lock. -/
theorem Invariant.lock [DecidableEq Key] {key : Key} {remaining : List Key}
    {holders : Key → Option Nat} (upNext : state.phase call = .locking (key :: remaining))
    (taken : acquire state.holders key call = some holders) :
    Invariant calls { state with
      holders := holders
      phase := update state.phase call (.locking remaining) } where
  locking other remaining' phase := by
    rcases phase_update_cases phase with ⟨rfl, now⟩ | ⟨-, phase⟩
    · cases now
      obtain ⟨before, order, held⟩ := invariant.locking _ _ upNext
      refine ⟨before ++ [key], ?_, held.acquired taken⟩
      rw [order, append_assoc, singleton_append]
    · obtain ⟨before, order, held⟩ := invariant.locking _ _ phase
      exact ⟨_, order, held.acquire taken⟩
  checked other phase := by
    obtain ⟨-, before⟩ := ne_of_phase_update phase (by simp)
    exact (invariant.checked _ before).acquire taken
  base other file base guarded phase := by
    obtain ⟨-, before⟩ := ne_of_phase_update phase (by simp)
    exact invariant.base _ _ _ guarded before
  log := invariant.log

/-- A call that has all its locks holds them. -/
theorem Invariant.holds_all (locked : state.phase call = .locking []) :
    Holds state.holders call (calls call).lockOrder := by
  obtain ⟨taken, order, held⟩ := invariant.locking _ [] locked
  rw [order, append_nil]
  exact held

/-- A locked call may check. -/
theorem Invariant.check (locked : state.phase call = .locking [])
    (matching : ∀ file base, (calls call).GuardedOn file base → state.disk file = some base) :
    Invariant calls { state with phase := update state.phase call .checked } where
  locking other remaining phase := by
    obtain ⟨-, before⟩ := ne_of_phase_update phase (by simp)
    exact invariant.locking _ _ before
  checked other phase := by
    rcases phase_update_cases phase with ⟨rfl, -⟩ | ⟨-, before⟩
    · exact invariant.holds_all locked
    · exact invariant.checked _ before
  base other file base guarded phase := by
    rcases phase_update_cases phase with ⟨rfl, -⟩ | ⟨-, before⟩
    · exact matching _ _ guarded
    · exact invariant.base _ _ _ guarded before
  log := invariant.log

/-- A replacement may read again. -/
theorem Invariant.reread {base newContent : Bytes} {ifMatch : Option String}
    (isReplace : calls call = .replaceSymbolBody file base newContent ifMatch)
    (locked : state.phase call = .locking []) (readable : Bool) :
    Invariant calls (state.rereadFile call file base ifMatch readable) := by
  unfold rereadFile
  cases ifMatch with
  | none =>
    refine invariant.check locked ?_
    rintro other base' ⟨newContent', tag, guarded⟩
    rw [isReplace] at guarded
    cases guarded
  | some tag =>
    dsimp only
    split
    · rename_i onDisk found
      split
      · rename_i matching
        refine invariant.check locked ?_
        rintro other base' ⟨newContent', tag', guarded⟩
        rw [isReplace] at guarded
        cases guarded
        rw [found, matching]
      · exact invariant.finish _ .rejected
    · exact invariant.finish _ .failed

/-- Two calls of which one is past its comparison do not hold the lock of its file both. -/
theorem Invariant.holder_eq {base : Bytes} (guarded : (calls other).GuardedOn file base)
    (phase : state.phase other = .checked) {keys : List Key}
    (held : Holds state.holders call keys) (member : file ∈ keys) : other = call := by
  obtain ⟨newContent, tag, isReplace⟩ := guarded
  have heldByOther := invariant.checked _ phase
  rw [isReplace] at heldByOther
  exact heldByOther.owner_eq held mem_cons_self member

end Kept

variable [DecidableEq Key]

/-- A replacement keeps the invariant when its call found its base, and the other calls past their
comparison have found the bytes it puts there. -/
theorem Invariant.atomicWriteFile (invariant : Invariant calls state) {content : Bytes}
    {result : ReplaceResult} (found : FoundBase calls (call, state.disk file))
    (others : result.lands = true → ∀ other base, other ≠ call →
      (calls other).GuardedOn file base → state.phase other = .checked → content = base) :
    Invariant calls (state.atomicWriteFile call file content result) := by
  have logged : ∀ entry ∈ state.replacements ++
      (if result = .written then [(call, state.disk file)] else []), FoundBase calls entry := by
    refine forall_mem_append.mpr ⟨invariant.log, ?_⟩
    split
    · exact forall_mem_singleton.mpr found
    · exact nofun
  unfold WriteState.atomicWriteFile
  split
  · rename_i lands
    refine invariant.finish_with result.outcome ?_ logged
    intro other target base apart guarded phase
    by_cases same : target = file
    · subst same
      rw [store_disk_self, others lands _ _ apart guarded phase]
    · rw [store_disk_of_ne _ _ same]
      exact invariant.base _ _ _ guarded phase
  · refine invariant.finish_with result.outcome ?_ logged
    exact fun other target base _ guarded phase => invariant.base _ _ _ guarded phase

/-- A batch may write an image. -/
theorem Invariant.writeImage (invariant : Invariant calls state) {images : List StagedImage}
    {order : LockedOrder canonicalLockKey images} (isBatch : calls call = .batch images order)
    (locked : state.phase call = .locking []) {entry : Key × Fin images.length}
    (member : entry ∈ order.entries) (bytes : Bytes) :
    Invariant calls (state.store entry.1 bytes) where
  locking := invariant.locking
  checked := invariant.checked
  base other file base guarded phase := by
    have held := invariant.holds_all locked
    rw [isBatch] at held
    have apart : file ≠ entry.1 := by
      rintro rfl
      have same := invariant.holder_eq guarded phase held (mem_map_of_mem member)
      subst same
      cases locked.symm.trans phase
    rw [store_disk_of_ne _ _ apart]
    exact invariant.base _ _ _ guarded phase
  log := invariant.log

/-- Every move keeps the invariant. -/
theorem step_invariant {next : WriteState Key} {action : WriteAction}
    (invariant : Invariant calls state) (apart : UnlockedApart calls state action)
    (taken : step calls state action = some next) : Invariant calls next := by
  unfold step at taken
  cases action with
  | lock call =>
    dsimp only at taken
    split at taken
    · rename_i key remaining upNext
      obtain ⟨holders, acquired, taken⟩ := bind_eq_some_iff.mp taken
      cases taken
      exact invariant.lock upNext acquired
    · cases taken
  | reread call readable =>
    dsimp only at taken
    split at taken
    · rename_i file base newContent ifMatch isReplace locked
      cases taken
      exact invariant.reread isReplace locked _
    · cases taken
  | replace call result =>
    dsimp only at taken
    split at taken
    · rename_i file base newContent ifMatch isReplace checked
      cases taken
      refine invariant.atomicWriteFile ?_ ?_
      · rintro target base' ⟨newContent', tag, isGuarded⟩
        have found := invariant.base _ _ _ ⟨newContent', tag, isGuarded⟩ checked
        cases isReplace.symm.trans isGuarded
        exact found
      · intro _ other base' different guarded phase
        have held := invariant.checked _ checked
        rw [isReplace] at held
        exact absurd (invariant.holder_eq guarded phase held mem_cons_self) different
    · rename_i tool file newContent isUnlocked locked
      cases taken
      refine invariant.atomicWriteFile ?_ ?_
      · rintro target base ⟨newContent', tag, guarded⟩
        rw [isUnlocked] at guarded
        cases guarded
      · intro lands other base _ guarded phase
        have present := apart _ _ _ _ _ rfl lands isUnlocked _ _
          guarded phase
        exact some.inj (present.symm.trans (invariant.base _ _ _ guarded phase))
    · cases taken
  | writeImage call position restores =>
    dsimp only at taken
    split at taken
    · rename_i images order isBatch locked
      obtain ⟨entry, listed, taken⟩ := bind_eq_some_iff.mp taken
      obtain ⟨bytes, -, taken⟩ := bind_eq_some_iff.mp taken
      cases taken
      exact invariant.writeImage isBatch locked (mem_of_getElem? listed) _
    · cases taken
  | finishBatch call outcome =>
    dsimp only at taken
    split at taken
    · cases taken
      exact invariant.finish _ _
    · cases taken

/-- In every run in which the unlocked tools stay apart from the guarded writes, every guarded
replacement returned as `Written` found its base when it replaced it. -/
theorem replacements_found_base {disk : Key → Option Bytes} {final : WriteState Key}
    {actions : List WriteAction}
    (apart : RunMeets (step calls) (UnlockedApart calls) (start calls disk) actions)
    (reached : run (step calls) (start calls disk) actions = some final) :
    ∀ entry ∈ final.replacements, FoundBase calls entry :=
  (run_invariant_meets (Invariant _)
    (fun _ _ _ invariant meets taken => step_invariant invariant meets taken)
    (start_invariant _) apart reached).log

/-- Wherever an unlocked tool can put other bytes in the file of a guarded write that is past its
comparison, the two writes are a loss: the second is returned as `Written` and has not found its
base. -/
theorem loses_write_of_intrusion {tool : UnlockedTool} {base newContent : Bytes}
    (isUnlocked : calls call = .unlocked tool file newContent)
    (ready : state.phase call = .locking []) (guarded : (calls other).GuardedOn file base)
    (checked : state.phase other = .checked) (different : newContent ≠ base) :
    ∃ final, run (step calls) state [.replace call .written, .replace other .written] =
        some final ∧ final.phase other = .finished .written ∧
      (other, some newContent) ∈ final.replacements ∧
      ¬ FoundBase calls (other, some newContent) := by
  obtain ⟨replacement, tag, isReplace⟩ := guarded
  have apart : other ≠ call := by
    rintro rfl
    cases ready.symm.trans checked
  let intruded := state.atomicWriteFile call file newContent .written
  have stillChecked : intruded.phase other = .checked := (update_of_ne apart _ _).trans checked
  have holds : intruded.disk file = some newContent := store_disk_self _ _ _
  have first : step calls state (.replace call .written) = some intruded := by
    simp [step, isUnlocked, ready, intruded]
  have second : step calls intruded (.replace other .written) =
      some (intruded.atomicWriteFile other file replacement .written) := by
    simp [step, isReplace, stillChecked]
  refine ⟨_, run_cons.mpr ⟨_, first, run_cons.mpr ⟨_, second, rfl⟩⟩, update_self .., ?_, ?_⟩
  · rw [← holds]
    exact mem_append_right _ mem_cons_self
  · intro found
    exact different (some.inj (found _ _ ⟨replacement, tag, isReplace⟩))

end WriteState

end

/-! ### The batch kernel behind its writes -/

section

variable {State Report Key : Type} {canonicalLockKey : String → Option Key}
  {io : BatchIo State Report} (images : List StagedImage)

namespace HonestIo

/-- Between two states the kernel has only put images of its own files in place. -/
def WritesImages (honest : HonestIo canonicalLockKey io) (earlier later : State) : Prop :=
  ∃ issued, honest.writes later = honest.writes earlier ++ issued ∧
    ∀ call ∈ issued, ∃ index restores, call.1 = images.get index ∧
      (images.get index).bytes restores = some call.2

variable {images} {honest : HonestIo canonicalLockKey io}

/-- Where nothing is written only images are. -/
theorem WritesImages.of_writes {earlier later : State}
    (same : honest.writes later = honest.writes earlier) :
    honest.WritesImages images earlier later :=
  ⟨[], by rw [same, append_nil], fun _ member => by cases member⟩

/-- Both parts write images only. -/
theorem WritesImages.trans {first second third : State}
    (earlier : honest.WritesImages images first second)
    (later : honest.WritesImages images second third) :
    honest.WritesImages images first third := by
  obtain ⟨issued, logged, own⟩ := earlier
  obtain ⟨issued', logged', own'⟩ := later
  exact ⟨issued ++ issued', by rw [logged', logged, append_assoc],
    forall_mem_append.mpr ⟨own, own'⟩⟩

variable (honest)

/-- A comparison writes nothing. -/
theorem writesImages_compared {state next : State} {image : StagedImage}
    {expected : Option (List UInt8)} {answer : Except String Bool}
    (answered : io.matchesImage state image expected = (answer, next)) :
    honest.WritesImages images state next := by
  have same := honest.matches_writes state image expected
  rw [answered] at same
  exact .of_writes same

variable (indexes order : List (Fin images.length)) (state : State)

/-- A write of an image. -/
theorem writesImages_write (index : Fin images.length) {bytes : Bytes} (restores : Bool)
    (own : (images.get index).bytes restores = some bytes) :
    honest.WritesImages images state (io.write state (images.get index) bytes).2 := by
  refine ⟨[(images.get index, bytes)], honest.write_writes .., ?_⟩
  intro call member
  rw [mem_singleton.mp member]
  exact ⟨_, restores, rfl, own⟩

/-- The preflight writes nothing. -/
theorem writesImages_preflight :
    honest.WritesImages images state (preflight io images indexes state).2 := by
  induction indexes generalizing state with
  | nil => exact .of_writes rfl
  | cons index rest ih =>
    unfold preflight
    dsimp only
    split <;> rename_i answered
    · exact (honest.writesImages_compared answered).trans (ih _)
    · exact honest.writesImages_compared answered
    · exact honest.writesImages_compared answered

/-- Nor does the attestation. -/
theorem writesImages_attest :
    honest.WritesImages images state (attest io images indexes state).2 := by
  induction indexes generalizing state with
  | nil => exact .of_writes rfl
  | cons index rest ih =>
    unfold attest
    dsimp only
    split <;> rename_i answered
    · exact (honest.writesImages_compared answered).trans (ih _)
    · exact honest.writesImages_compared answered

variable (cancel : Option (Nat → Bool))

/-- The writes are of images. -/
theorem writesImages_writeImages (attempted : List (Fin images.length))
    (reports : List (Fin images.length × Report)) :
    honest.WritesImages images state
      (writeImages io images cancel attempted reports indexes state).2 := by
  induction indexes generalizing attempted reports state with
  | nil => exact .of_writes rfl
  | cons index rest ih =>
    have wrote := honest.writesImages_write state index false rfl
    unfold writeImages
    split
    · exact .of_writes rfl
    dsimp only
    split <;> rename_i ended <;> rw [ended] at wrote
    · exact wrote
    · split <;> rename_i answered
      · exact wrote.trans ((honest.writesImages_compared answered).trans (ih _ _ _))
      · exact wrote.trans (honest.writesImages_compared answered)

variable {index : Fin images.length}

/-- So is a rollback. -/
theorem writesImages_rollbackImage :
    honest.WritesImages images state (rollbackImage io state (images.get index)).2 := by
  unfold rollbackImage
  split <;> rename_i first
  · exact honest.writesImages_compared first
  · refine (honest.writesImages_compared first).trans ?_
    split <;> rename_i second
    · refine (honest.writesImages_compared second).trans ?_
      split
      · exact .of_writes rfl
      rename_i original hasOriginal
      refine (honest.writesImages_write _ _ true hasOriginal).trans ?_
      dsimp only
      split <;> rename_i third <;> exact honest.writesImages_compared third
    · exact honest.writesImages_compared second

/-- So are all rollbacks. -/
theorem writesImages_rollbackEach :
    honest.WritesImages images state (rollbackEach io images indexes state).2.2 := by
  induction indexes generalizing state with
  | nil => exact .of_writes rfl
  | cons index rest ih =>
    rw [rollbackEach_state]
    exact (honest.writesImages_rollbackImage _).trans (ih _)

/-- So is the whole commit. -/
theorem writesImages_advance :
    honest.WritesImages images state (advance io images order cancel state).2 := by
  have looked := honest.writesImages_preflight order state
  unfold advance
  split <;> rename_i checked <;> rw [checked] at looked
  · exact looked
  · rename_i ready
    refine looked.trans ?_
    have wrote := honest.writesImages_writeImages order ready cancel [] []
    split
    · rename_i reports written done
      rw [done] at wrote
      refine wrote.trans ?_
      have attested := honest.writesImages_attest order written
      split <;> rename_i last <;> rw [last] at attested <;> exact attested
    · exact wrote

/-- Every write of a commit puts an image of the batch in place. -/
theorem writesImages_commitStagedLocked :
    honest.WritesImages images state (commitStagedLocked io images order cancel state).2 := by
  have advanced := honest.writesImages_advance order state cancel
  unfold commitStagedLocked
  split <;> rename_i stopped <;> rw [stopped] at advanced
  · exact advanced
  · exact advanced
  · rename_i halt attempted halted
    have rolledBack := advanced.trans (honest.writesImages_rollbackEach attempted.reverse halted)
    cases halt <;> exact rolledBack

/-- Every write of a commit, in its loop or in its rollback, is a step of any state in which the
batch holds its locks. -/
theorem exists_writeImage [DecidableEq Key]
    (locks : LockedOrder canonicalLockKey images) :
    ∃ issued, honest.writes
          (commitStagedLocked io images (locks.entries.map Prod.snd) cancel state).2 =
        honest.writes state ++ issued ∧
      ∀ write ∈ issued, ∀ (calls : Nat → WriteCall canonicalLockKey) (before : WriteState Key) call,
        calls call = .batch images locks → before.phase call = .locking [] →
          ∃ file position restores, canonicalLockKey write.1.absolute = some file ∧
            before.step calls (.writeImage call position restores) =
              some (before.store file write.2) := by
  obtain ⟨issued, logged, own⟩ := honest.writesImages_commitStagedLocked _ state cancel
  refine ⟨issued, logged, ?_⟩
  rintro ⟨image, bytes⟩ member calls before call isBatch locked
  obtain ⟨index, restores, rfl, isImage⟩ := own _ member
  obtain ⟨file, listed, keyed⟩ := locks.exists_key index
  obtain ⟨position, found⟩ := mem_iff_getElem?.mp listed
  refine ⟨file, position, restores, keyed, ?_⟩
  simp only [WriteState.step, isBatch, locked, found, isImage, bind_eq_bind, bind_some]

end HonestIo

end

/-! ### A deletion beside a guarded replacement -/

/-- Call 0 replaces a body under `if_match`; every other call deletes the symbol. -/
def guardedBesideDelete (call : Nat) : WriteCall (fun path : String => some path) :=
  if call = 0 then
    .replaceSymbolBody "lib.rs" (utf8 "fn a();\n") (utf8 "fn a() \x7b\x7d\n") (some "tag")
  else .unlocked .deleteSymbol "lib.rs" (utf8 "\n")

/-- A disk with one source file. -/
def oneFunctionDisk (path : String) : Option Bytes :=
  if path = "lib.rs" then some (utf8 "fn a();\n") else none

open WriteState

/-- The deletion lands between comparison and replacement: the guarded write is returned as
`Written` over bytes it never compared. -/
theorem deletion_between_check_and_replace :
    ∃ final, run (WriteState.step guardedBesideDelete)
        (start guardedBesideDelete oneFunctionDisk)
        [.lock 0, .reread 0 true, .replace 1 .written, .replace 0 .written] = some final ∧
      final.phase 0 = .finished .written ∧
        ∃ entry ∈ final.replacements, ¬ FoundBase guardedBesideDelete entry := by
  refine ⟨_, rfl, rfl, (0, some (utf8 "\n")), ?_, ?_⟩
  · decide
  intro found
  have base := found "lib.rs" (utf8 "fn a();\n") ⟨_, _, rfl⟩
  revert base
  decide

/-- A deletion after the replacement leaves it alone. -/
theorem deletion_after_replace :
    ∃ final, run (WriteState.step guardedBesideDelete)
        (start guardedBesideDelete oneFunctionDisk)
        [.lock 0, .reread 0 true, .replace 0 .written, .replace 1 .written] = some final ∧
      final.replacements.length = 2 ∧
        ∀ entry ∈ final.replacements, FoundBase guardedBesideDelete entry := by
  have onlyFirst : ∀ call file base, (guardedBesideDelete call).GuardedOn file base →
      call = 0 := by
    rintro call file base ⟨newContent, tag, isReplace⟩
    unfold guardedBesideDelete at isReplace
    split at isReplace
    · assumption
    · cases isReplace
  have reached : run (WriteState.step guardedBesideDelete)
      (start guardedBesideDelete oneFunctionDisk)
      [.lock 0, .reread 0 true, .replace 0 .written, .replace 1 .written] = some _ := rfl
  refine ⟨_, reached, rfl, replacements_found_base ?_ reached⟩
  refine ⟨fun _ _ _ _ _ isReplace => (by cases isReplace), ?_⟩
  rintro _ ⟨⟩
  refine ⟨fun _ _ _ _ _ isReplace => (by cases isReplace), ?_⟩
  rintro _ ⟨⟩
  constructor
  · intro call result tool file newContent isReplace _ isUnlocked
    cases isReplace
    cases isUnlocked
  rintro _ ⟨⟩
  refine ⟨?_, fun _ _ => trivial⟩
  intro call result tool file newContent isReplace _ isUnlocked other base guarded phase
  cases onlyFirst _ _ _ guarded
  cases phase

end Symforge.Edit
