import Symforge.Idempotency.ReplayRecord
import Symforge.Library.Run
import Symforge.Library.Table

/-!
# The file replay store, step by step

Any number of calls of `FileReplayStore` work on one key, in any number of processes. Their system
calls come in any order; a system call may fail, and a call may stop for good after any of them.
Creating the claim file and renaming the staged directory are atomic; the staged directory has a
fresh name, so staging is one step that nobody sees. `Path::exists` answers truthfully.
-/

namespace Symforge.Idempotency

open Library

/-- The files of one key. -/
structure KeyFiles (Contents : Type) where
  /-- The key directory, with its record file. -/
  directory : Option (Option Contents)
  /-- The `.claim` file exists. -/
  claim : Bool
  quarantine : List (String × Contents)

/-- A call of the store. -/
inductive StoreCall where
  | checkOrReserve (request : RequestHash)
  | replayIfPresent (request : RequestHash)
  /-- `update_status_with_response` and `update_status_with_receipt`. -/
  | update (request : RequestHash) (change : RecordChange)
deriving DecidableEq, Repr

/-- The request hash that a call presents. -/
def StoreCall.request : StoreCall → RequestHash
  | .checkOrReserve request => request
  | .replayIfPresent request => request
  | .update request _ => request

/-- What a call returns when it does not fail. -/
inductive StoreAnswer where
  | decision (decision : ReplayDecision)
  | probed (record : Option ReplayRecord)
  | updated (record : ReplayRecord)
deriving DecidableEq, Repr

/-- What the store returns. -/
abbrev StoreResult := Except IdempotencyError StoreAnswer

/-- The next system call of a call; `claimed` says that it holds the claim. -/
inductive CallPhase where
  /-- The first `key_dir.exists()` of `check_or_reserve`. -/
  | checking
  | staging
  /-- `create_new` of the claim. -/
  | claiming (record : ReplayRecord)
  | writingClaim (record : ReplayRecord)
  /-- The second `key_dir.exists()`. -/
  | claimed (record : ReplayRecord)
  /-- The rename of the staged directory. -/
  | publishing (record : ReplayRecord)
  | renameFailed (message : String)
  /-- The read of `load_existing`. -/
  | loading (claimed : Bool)
  /-- The name and the directory of `quarantine_record`. -/
  | quarantining (reason : String) (claimed : Bool)
  /-- The rename of `quarantine_record`. -/
  | moving (reason path : String) (claimed : Bool)
  /-- The removal of the claim. -/
  | releasing (result : StoreResult)
  /-- `key_dir.exists()` in the loop of `wait_for_publication`. -/
  | waiting (deadline : Nat)
  /-- `marker.exists()` and the clock in that loop. -/
  | watching (deadline : Nat)
  /-- `key_dir.exists()` of `replay_if_present`. -/
  | probing
  /-- `marker.exists()` of `replay_if_present`. -/
  | probingClaim
  /-- `write_bytes_atomic` up to the rename. -/
  | writing (updated : ReplayRecord)
  /-- The sync of the parent directory. -/
  | syncing (updated : ReplayRecord)
  | returned (result : StoreResult)
  | crashed

/-- The call created the claim and has not removed it. -/
def CallPhase.holding : CallPhase → Bool
  | .writingClaim _ | .claimed _ | .publishing _ | .renameFailed _ | .releasing _ => true
  | .loading held | .quarantining _ held | .moving _ _ held => held
  | _ => false

/-- The result is returned at once, or after the removal of the claim. -/
def CallPhase.finish (claimed : Bool) (result : StoreResult) : CallPhase :=
  if claimed then .releasing result else .returned result

/-- The phase after `load_existing` has returned a record. -/
def StoreCall.answer (call : StoreCall) (claimed : Bool) (now : UInt64) (record : ReplayRecord) :
    CallPhase :=
  match record.ensureSameHash call.request with
  | .error conflict => .finish claimed (.error conflict)
  | .ok () =>
    match call with
    | .checkOrReserve _ => .finish claimed (.ok (.decision (.replay record)))
    | .replayIfPresent _ => .finish claimed (.ok (.probed (some record)))
    | .update _ change =>
      if change.allows record.status then .writing (change.apply record now)
      else .finish claimed (.error .invalidTransition)

/-- The wait of `wait_for_publication`, in milliseconds. -/
def publicationWait : Nat := 2000

namespace ReplayContext

variable {Contents : Type} (context : ReplayContext Contents)

/-- A file of the quarantine directory. -/
def quarantineFile (stamp : UInt64) (suffix : String) : String :=
  context.quarantineDir ++ "/" ++ context.keyHash ++ "-" ++ toString stamp ++ suffix ++ ".json"

/-- `FileReplayStore::next_quarantine_path`. -/
def nextQuarantinePath (files : KeyFiles Contents) (stamp : UInt64) : String :=
  let attempts := (List.range 100).map fun attempt =>
    context.quarantineFile stamp (if attempt = 0 then "" else "-" ++ toString attempt)
  (attempts.find? fun path => path ∉ files.quarantine.map Prod.fst).getD
    (context.quarantineFile stamp "-overflow")

/-- Where a call begins. -/
def firstPhase : StoreCall → CallPhase
  | .checkOrReserve _ => .checking
  | .replayIfPresent _ => .probing
  | .update _ change =>
    match context.validateChange change with
    | .error refusal => .returned (.error refusal)
    | .ok () => .loading false

/-- The next system call of a call; `fault` is the error it fails with, `now` the time of day and
`clock` the monotonic clock. -/
def advance (call : StoreCall) (files : KeyFiles Contents) (now : UInt64) (clock : Nat)
    (fault : Option String) : CallPhase → Option (CallPhase × KeyFiles Contents)
  | .checking => some (if files.directory.isSome then .loading false else .staging, files)
  | .staging =>
    match fault with
    | some message => some (.returned (.error (.io message)), files)
    | none => some (.claiming (.reserved context.keyHash call.request now), files)
  | .claiming record =>
    match fault with
    | some message => some (.returned (.error (.io message)), files)
    | none =>
      if files.claim then some (.waiting (clock + publicationWait), files)
      else some (.writingClaim record, { files with claim := true })
  | .writingClaim record =>
    match fault with
    -- the claim stays
    | some message => some (.returned (.error (.io message)), files)
    | none => some (.claimed record, files)
  | .claimed record =>
    some (if files.directory.isSome then .loading true else .publishing record, files)
  | .publishing record =>
    match fault, files.directory with
    | some message, _ => some (.renameFailed message, files)
    | none, some (some _) => some (.renameFailed "Directory not empty (os error 39)", files)
    -- a directory may replace an empty one
    | none, _ => some (.releasing (.ok (.decision (.firstExecution record))),
        { files with directory := some (some (context.encode record)) })
  | .renameFailed message =>
    some (if files.directory.isSome then .loading true else .releasing (.error (.io message)),
      files)
  | .loading claimed =>
    match fault, files.directory with
    | some message, _ => some (.finish claimed (.error (.io message)), files)
    | none, some (some contents) =>
      match context.decodeRecord contents with
      | .error reason => some (.quarantining reason claimed, files)
      | .ok record => some (call.answer claimed now record, files)
    | none, _ => some (.finish claimed
        (.error (.incompleteReservation context.keyHash context.recordPath)), files)
  | .quarantining reason claimed =>
    match fault with
    | some message =>
      some (.finish claimed (.error (.corruptRecord context.recordPath reason message)), files)
    | none => some (.moving reason (context.nextQuarantinePath files now) claimed, files)
  | .moving reason path claimed =>
    match fault, files.directory with
    | some message, _ =>
      some (.finish claimed (.error (.corruptRecord context.recordPath reason message)), files)
    | none, some (some contents) =>
      some (.finish claimed (.error (.corruptRecordQuarantined context.recordPath path reason)),
        { files with
          directory := some none
          quarantine := (path, contents) :: files.quarantine.filter (·.1 ≠ path) })
    | none, _ => some (.finish claimed (.error (.corruptRecord context.recordPath reason
        "No such file or directory (os error 2)")), files)
  | .releasing result =>
    some (.returned result, if fault.isSome then files else { files with claim := false })
  | .waiting deadline =>
    some (if files.directory.isSome then .loading false else .watching deadline, files)
  | .watching deadline =>
    some (if !files.claim || deadline ≤ clock then
      .returned (.error (.publishing context.keyHash)) else .waiting deadline, files)
  | .probing => some (if files.directory.isSome then .loading false else .probingClaim, files)
  | .probingClaim =>
    some (.returned (if files.claim then .error (.publishing context.keyHash)
      else .ok (.probed none)), files)
  | .writing updated =>
    match fault with
    | some message => some (.returned (.error (.io message)), files)
    | none => some (.syncing updated,
        { files with directory := some (some (context.encode updated)) })
  | .syncing updated =>
    match fault with
    | some message => some (.returned (.error (.io message)), files)
    | none => some (.returned (.ok (.updated updated)), files)
  | .returned _ => none
  | .crashed => none

end ReplayContext

/-- The files of the key and every call that was made on it. -/
structure ReplaySystem (Contents : Type) where
  files : KeyFiles Contents
  /-- `SystemTime`, in milliseconds; it may be set back. -/
  now : UInt64
  /-- `Instant`, in milliseconds. -/
  clock : Nat
  calls : Nat → Option (StoreCall × CallPhase)
  /-- History: every call whose rename published its record. -/
  published : List (Nat × ReplayRecord)

/-- A call begins, makes its next system call or stops; the clocks go on; the record is damaged. -/
inductive ReplayAction (Contents : Type) where
  | start (number : Nat) (call : StoreCall)
  | act (number : Nat) (fault : Option String)
  | crash (number : Nat)
  | setNow (now : UInt64)
  | tick (millis : Nat)
  | damage (contents : Contents)

namespace ReplaySystem

variable {Contents : Type} (context : ReplayContext Contents)

/-- Nothing reserved yet; a claim may be left from earlier. -/
def initial (claim : Bool) (quarantine : List (String × Contents)) (now : UInt64) :
    ReplaySystem Contents where
  files := ⟨none, claim, quarantine⟩
  now := now
  clock := 0
  calls := fun _ => none
  published := []

variable (system : ReplaySystem Contents)

/-- A call goes on to another phase. -/
def setPhase (number : Nat) (call : StoreCall)
    (phase : CallPhase) : ReplaySystem Contents :=
  { system with calls := Function.update system.calls number (some (call, phase)) }

/-- What the history gains when a call goes from one phase to the next. -/
def newlyPublished (number : Nat) : CallPhase → CallPhase → List (Nat × ReplayRecord)
  | .publishing record, .releasing _ => [(number, record)]
  | _, _ => []

/-- One step. -/
def step : ReplayAction Contents → Option (ReplaySystem Contents)
  | .start number call =>
    match system.calls number with
    | some _ => none
    | none => some (system.setPhase number call (context.firstPhase call))
  | .act number fault =>
    match system.calls number with
    | none => none
    | some (call, phase) =>
      (context.advance call system.files system.now system.clock fault phase).map
        fun (next, files) =>
          { system.setPhase number call next with
            files
            published := newlyPublished number phase next ++ system.published }
  | .crash number =>
    match system.calls number with
    | none => none
    | some (_, .returned _) => none
    | some (call, _) => some (system.setPhase number call .crashed)
  | .setNow now => some { system with now }
  | .tick millis => some { system with clock := system.clock + millis }
  | .damage contents =>
    match system.files.directory, context.decodeRecord contents with
    | some (some _), .error _ =>
      some { system with files := { system.files with directory := some (some contents) } }
    | _, _ => none

end ReplaySystem

end Symforge.Idempotency
