import Mathlib.Logic.Function.Basic

/-!
# Replay records

Model of the records of `idempotency.rs`: their fields, the two tables of status changes, and the
checks a stored record passes before it is used. What `serde_json` writes and reads, and the secret
scan, are given by a context; the codec carries its round trip.
-/

namespace Symforge.Idempotency

/-- `idempotency::RequestHash`. -/
structure RequestHash where
  raw : String
deriving DecidableEq, Repr

/-- `idempotency::ReplayStatus`. -/
inductive ReplayStatus where
  | reserved
  | started
  | uncertain
  | completed
  | failed
deriving DecidableEq, Repr

/-- `idempotency::PostImageTarget` — a target without a digest is recorded as absent. -/
structure PostImageTarget where
  path : String
  contentDigest : Option String
deriving DecidableEq, Repr

/-- `idempotency::PostImageSourceBinding`. -/
structure PostImageSourceBinding where
  projectId : String
  physicalRootKey : Vector UInt8 16
deriving DecidableEq, Repr

/-- `idempotency::LinkedPostImageSource`. -/
structure LinkedPostImageSource where
  root : String
  binding : PostImageSourceBinding
deriving DecidableEq, Repr

/-- `idempotency::PostImageReceipt`. -/
structure PostImageReceipt where
  targets : List PostImageTarget
  source : Option PostImageSourceBinding
  linkedSources : List LinkedPostImageSource
deriving DecidableEq, Repr

/-- `REPLAY_RECORD_SCHEMA_VERSION`. -/
def replayRecordSchemaVersion : UInt8 := 1

/-- `MAX_REPLAY_RESPONSE_BYTES`. -/
def maxReplayResponseBytes : Nat := 1024 * 1024

/-- `idempotency::ReplayRecord`. -/
structure ReplayRecord where
  schemaVersion : UInt8
  keyHash : String
  requestHash : RequestHash
  status : ReplayStatus
  createdUnixMillis : UInt64
  updatedUnixMillis : UInt64
  responseText : Option String
  postImage : Option PostImageReceipt
deriving DecidableEq, Repr

/-- `idempotency::IdempotencyError` — `json` is left out: the record always serialises. -/
inductive IdempotencyError where
  | emptyKey
  | emptyToolName
  | responseTooLarge
  | unsafeResponse
  | receiptRequired
  | invalidTransition
  | conflict (keyHash : String) (existing incoming : RequestHash)
  | incompleteReservation (keyHash path : String)
  | publishing (keyHash : String)
  | corruptRecordQuarantined (path quarantinePath reason : String)
  | corruptRecord (path reason quarantineError : String)
  | io (message : String)
deriving DecidableEq, Repr

/-- `idempotency::ReplayDecision`. -/
inductive ReplayDecision where
  | firstExecution (record : ReplayRecord)
  | replay (record : ReplayRecord)
deriving DecidableEq, Repr

/-- One key of a `FileReplayStore`, with what the libraries it calls do. -/
structure ReplayContext (Contents : Type) where
  recordsDir : String
  quarantineDir : String
  keyHash : String
  /-- `serde_json::to_vec_pretty`. -/
  encode : ReplayRecord → Contents
  /-- `serde_json::from_slice`. -/
  decode : Contents → Except String ReplayRecord
  /-- What was written is read back. -/
  decode_encode : ∀ record, decode (encode record) = .ok record
  /-- `knowledge::scan_secret_bytes` finds the text clean. -/
  scanClean : String → Bool

namespace ReplayRecord

/-- `ReplayRecord::reserved`. -/
def reserved (keyHash : String) (requestHash : RequestHash) (now : UInt64) : ReplayRecord where
  schemaVersion := replayRecordSchemaVersion
  keyHash := keyHash
  requestHash := requestHash
  status := .reserved
  createdUnixMillis := now
  updatedUnixMillis := now
  responseText := none
  postImage := none

variable (record : ReplayRecord)

/-- `ReplayRecord::with_status_and_response`. -/
def withStatusAndResponse (status : ReplayStatus)
    (responseText : Option String) (now : UInt64) : ReplayRecord :=
  { record with status, responseText, updatedUnixMillis := now }

/-- The records are of one reservation. -/
def SameReservation (record other : ReplayRecord) : Prop :=
  record.schemaVersion = other.schemaVersion ∧ record.keyHash = other.keyHash ∧
    record.requestHash = other.requestHash ∧ record.createdUnixMillis = other.createdUnixMillis

/-- A record has its own reservation. -/
theorem SameReservation.refl : record.SameReservation record := ⟨rfl, rfl, rfl, rfl⟩

/-- Reservations are compared field by field. -/
theorem SameReservation.trans {first second third : ReplayRecord}
    (left : first.SameReservation second) (right : second.SameReservation third) :
    first.SameReservation third :=
  ⟨left.1.trans right.1, left.2.1.trans right.2.1, left.2.2.1.trans right.2.2.1,
    left.2.2.2.trans right.2.2.2⟩

/-- `FileReplayStore::ensure_same_hash`. -/
def ensureSameHash (incoming : RequestHash) :
    Except IdempotencyError Unit :=
  if record.requestHash = incoming then .ok ()
  else .error (.conflict record.keyHash record.requestHash incoming)

end ReplayRecord

/-- The pairs that `update_status_with_response` lets through. -/
def validTransition : ReplayStatus → ReplayStatus → Bool
  | .reserved, .started | .reserved, .completed | .reserved, .failed => true
  | .started, .completed | .started, .uncertain => true
  | _, _ => false

/-- The arguments of `update_status_with_response` or `update_status_with_receipt`. -/
inductive RecordChange where
  | response (status : ReplayStatus) (responseText : Option String)
  | receipt (responseText : String) (postImage : PostImageReceipt)
deriving DecidableEq, Repr

/-- The table of `update_status_with_response`, and that of `update_status_with_receipt`. -/
def RecordChange.allows : RecordChange → ReplayStatus → Bool
  | .response status _, current => validTransition current status
  | .receipt _ _, current => current = .reserved || current = .started

/-- The record that a change writes. -/
def RecordChange.apply (record : ReplayRecord) (now : UInt64) : RecordChange → ReplayRecord
  | .response status responseText => record.withStatusAndResponse status responseText now
  | .receipt responseText postImage =>
    { record.withStatusAndResponse .completed (some responseText) now with
      postImage := some postImage }

/-- A change keeps the reservation. -/
theorem RecordChange.apply_sameReservation (change : RecordChange) (record : ReplayRecord)
    (now : UInt64) : (change.apply record now).SameReservation record := by
  cases change with
  | response | receipt => exact ⟨rfl, rfl, rfl, rfl⟩

namespace ReplayContext

variable {Contents : Type} (context : ReplayContext Contents)

/-- `FileReplayStore::record_path_for_hash`. -/
def recordPath : String := context.recordsDir ++ "/" ++ context.keyHash ++ "/record.json"

/-- `idempotency::validate_replay_response`. -/
def validateReplayResponse (response : String) : Except IdempotencyError Unit :=
  if maxReplayResponseBytes < response.utf8ByteSize then .error .responseTooLarge
  else if !context.scanClean response then .error .unsafeResponse
  else .ok ()

/-- The response that a change would store is checked before anything is read. -/
def validateChange : RecordChange → Except IdempotencyError Unit
  | .response _ none => .ok ()
  | .response _ (some responseText) => context.validateReplayResponse responseText
  | .receipt responseText _ => context.validateReplayResponse responseText

/-- A change is refused for its response only. -/
theorem validateChange_error {change : RecordChange} {refusal : IdempotencyError}
    (refused : context.validateChange change = .error refusal) :
    refusal = .responseTooLarge ∨ refusal = .unsafeResponse := by
  have response : ∀ text, context.validateReplayResponse text = .error refusal →
      refusal = .responseTooLarge ∨ refusal = .unsafeResponse := by
    intro text refused
    unfold validateReplayResponse at refused
    split at refused
    · cases refused
      exact .inl rfl
    split at refused
    · cases refused
      exact .inr rfl
    · cases refused
  cases change with
  | response status responseText =>
    cases responseText with
    | none => cases refused
    | some text => exact response _ refused
  | receipt text postImage => exact response _ refused

/-- What `load_existing` checks of the contents; a refusal is the reason of the quarantine. -/
def decodeRecord (contents : Contents) : Except String ReplayRecord :=
  match context.decode contents with
  | .error reason => .error reason
  | .ok record =>
    if record.schemaVersion ≠ replayRecordSchemaVersion then
      .error ("unsupported schema version " ++ toString record.schemaVersion)
    else if record.keyHash ≠ context.keyHash then
      .error ("record key hash " ++ record.keyHash ++ " does not match path key hash " ++
        context.keyHash)
    else .ok record

/-- A decoded record is of this schema and key. -/
theorem decodeRecord_ok {contents : Contents} {record : ReplayRecord}
    (decoded : context.decodeRecord contents = .ok record) :
    context.decode contents = .ok record ∧ record.schemaVersion = replayRecordSchemaVersion ∧
      record.keyHash = context.keyHash := by
  unfold decodeRecord at decoded
  split at decoded
  · cases decoded
  split at decoded
  · cases decoded
  rename_i version
  split at decoded
  · cases decoded
  rename_i key
  cases decoded
  exact ⟨by assumption, not_not.mp version, not_not.mp key⟩

/-- A record of the key is accepted as it was written. -/
theorem decodeRecord_encode {record : ReplayRecord}
    (version : record.schemaVersion = replayRecordSchemaVersion)
    (key : record.keyHash = context.keyHash) :
    context.decodeRecord (context.encode record) = .ok record := by
  simp [decodeRecord, context.decode_encode, version, key]

end ReplayContext

/-- A store whose files hold records, or the reason why they cannot be read. -/
def sampleContext : ReplayContext (Except String ReplayRecord) where
  recordsDir := "records"
  quarantineDir := "quarantine"
  keyHash := "key"
  encode := .ok
  decode := id
  decode_encode := fun _ => rfl
  scanClean := fun _ => true

end Symforge.Idempotency
