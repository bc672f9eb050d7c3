import Symforge.Idempotency.ReplayStore

/-!
# Records only move forward

Operations of the store made one after the other, each with any failures of its system calls and
stopping anywhere. A call that is alone changes a stored record only by a change that its table
allows, and a refusal leaves every file as it was.
-/

namespace Symforge.Idempotency

open Option ReplayContext

variable {Contents : Type} (context : ReplayContext Contents)

/-- A call goes on alone from a phase, to its result or to where it stops. -/
inductive Executes (call : StoreCall) :
    CallPhase → KeyFiles Contents → Option StoreResult → KeyFiles Contents → Prop
  | returned (result : StoreResult) (files : KeyFiles Contents) :
      Executes call (.returned result) files (some result) files
  | stopped (phase : CallPhase) (files : KeyFiles Contents) :
      Executes call phase files none files
  | next {phase after : CallPhase} {files middle last : KeyFiles Contents}
      {outcome : Option StoreResult} (now : UInt64) (clock : Nat) (fault : Option String)
      (advanced : context.advance call files now clock fault phase = some (after, middle))
      (rest : Executes call after middle outcome last) :
      Executes call phase files outcome last

/-- The methods of `ActiveReplay`. -/
inductive ActiveOperation where
  | markStarted
  | markUncertain
  | complete (responseText : String)
  | completeWithPostImage (responseText : String) (postImage : Option PostImageReceipt)
  | fail (responseText : String)
deriving DecidableEq, Repr

/-- The call of the store that a method makes, or its refusal. -/
def ActiveOperation.call (request : RequestHash) :
    ActiveOperation → Except IdempotencyError StoreCall
  | .markStarted => .ok (.update request (.response .started none))
  | .markUncertain => .ok (.update request (.response .uncertain none))
  | .complete responseText => .ok (.update request (.response .completed (some responseText)))
  | .completeWithPostImage responseText postImage =>
    match postImage.filter fun receipt => !receipt.targets.isEmpty with
    | none => .error .receiptRequired
    | some receipt => .ok (.update request (.receipt responseText receipt))
  | .fail responseText => .ok (.update request (.response .failed (some responseText)))

/-- An operation on the key: a call of the store, or a method of an `ActiveReplay`. -/
inductive StoreOperation where
  | store (call : StoreCall)
  | active (request : RequestHash) (operation : ActiveOperation)
deriving DecidableEq, Repr

/-- The call that an operation makes. -/
def StoreOperation.call : StoreOperation → Except IdempotencyError StoreCall
  | .store call => .ok call
  | .active request operation => operation.call request

/-- An operation is refused before it calls the store, or its call goes on alone. -/
inductive Operates (operation : StoreOperation) :
    KeyFiles Contents → Option StoreResult → KeyFiles Contents → Prop
  | refused {refusal : IdempotencyError} (files : KeyFiles Contents)
      (refused : operation.call = .error refusal) :
      Operates operation files (some (.error refusal)) files
  | called {call : StoreCall} {files last : KeyFiles Contents} {outcome : Option StoreResult}
      (made : operation.call = .ok call)
      (executed : Executes context call (context.firstPhase call) files outcome last) :
      Operates operation files outcome last

/-- Operations one after the other, with what they returned. -/
inductive Sequentially :
    KeyFiles Contents → List (StoreOperation × Option StoreResult) → KeyFiles Contents → Prop
  | nil (files : KeyFiles Contents) : Sequentially files [] files
  | cons {files middle last : KeyFiles Contents} {operation : StoreOperation}
      {outcome : Option StoreResult} {rest : List (StoreOperation × Option StoreResult)}
      (first : Operates context operation files outcome middle)
      (later : Sequentially middle rest last) :
      Sequentially files ((operation, outcome) :: rest) last

/-- The record file holds this record. -/
def Stored (files : KeyFiles Contents) (record : ReplayRecord) : Prop :=
  ∃ contents, files.directory = some (some contents) ∧
    context.decodeRecord contents = .ok record

/-- The refusals of a change. -/
def IdempotencyError.isRefusal : IdempotencyError → Bool
  | .responseTooLarge | .unsafeResponse | .receiptRequired | .invalidTransition => true
  | .conflict _ _ _ => true
  | _ => false

/-- The call may write this record over the one that was stored. -/
def Changes (files : KeyFiles Contents) (call : StoreCall) (updated : ReplayRecord) : Prop :=
  ∃ request change old now, call = .update request change ∧ Stored context files old ∧
    old.requestHash = request ∧ change.allows old.status = true ∧
    updated = change.apply old now ∧ context.validateChange change = .ok ()

variable (before : KeyFiles Contents) (call : StoreCall) (files : KeyFiles Contents)

/-- What the call returned says about the files it found and left. -/
def Reported : StoreResult → Prop
  | .ok (.decision (.firstExecution _)) => before.directory = none
  | .ok (.decision (.replay record)) => files = before ∧ Stored context before record ∧
      record.requestHash = call.request
  | .ok (.probed (some record)) => files = before ∧ Stored context before record ∧
      record.requestHash = call.request
  | .ok (.probed none) => files = before
  | .ok (.updated record) => Changes context before call record ∧
      files.directory = some (some (context.encode record))
  | .error refusal => refusal.isRefusal = true → files = before

/-- The record file is as it was, or was absent or unreadable, or has been written over. -/
def Kept : Prop :=
  files.directory = before.directory ∨ (∀ record, ¬ Stored context before record) ∨
    ∃ updated, Changes context before call updated ∧
      files.directory = some (some (context.encode updated))

/-- What holds in a phase of a call that is alone since it found the files `before`. -/
def Alone : CallPhase → Prop
  | .checking => files = before ∧ ∃ request, call = .checkOrReserve request
  | .probing => files = before ∧ ∃ request, call = .replayIfPresent request
  | .staging | .claiming _ | .writingClaim _ | .claimed _ | .publishing _ | .renameFailed _
  | .waiting _ | .watching _ => before.directory = none ∧ files.directory = none
  | .probingClaim => files = before ∧ before.directory = none
  | .loading held => held = false ∧ files = before ∧
      ∀ request change, call = .update request change → context.validateChange change = .ok ()
  | .quarantining _ held | .moving _ _ held => held = false ∧ files = before ∧
      ∀ record, ¬ Stored context before record
  | .writing updated => files = before ∧ Changes context before call updated
  | .syncing updated => Changes context before call updated ∧
      files.directory = some (some (context.encode updated))
  | .releasing result => before.directory = none ∧
      ((∃ record, result = .ok (.decision (.firstExecution record))) ∨
        ∃ message, result = .error (.io message))
  | .returned result =>
    Reported context before call files result ∧ Kept context before call files
  | .crashed => False

variable {context} {before files after : KeyFiles Contents} {call : StoreCall}
  {phase next : CallPhase}

/-- Without a directory there is nothing to keep. -/
theorem kept_of_absent (absent : before.directory = none) : Kept context before call files := by
  refine .inr (.inl ?_)
  rintro record ⟨contents, there, -⟩
  rw [absent] at there
  cases there

/-- A call that found no directory fails with an error of the system. -/
theorem alone_io (absent : before.directory = none) (message : String) :
    Alone context before call files (.returned (.error (.io message))) :=
  ⟨nofun, kept_of_absent absent⟩

/-- A call that found the files as they are returns an error. -/
theorem alone_error (same : files = before) (refusal : IdempotencyError) :
    Alone context before call files (.returned (.error refusal)) := by
  subst same
  exact ⟨fun _ => rfl, .inl rfl⟩

variable {record : ReplayRecord}

/-- The answer to the stored record. -/
theorem answer_alone (now : UInt64) (stored : Stored context files record)
    (valid : ∀ request change, call = .update request change →
      context.validateChange change = .ok ()) :
    Alone context files call files (call.answer false now record) := by
  unfold StoreCall.answer ReplayRecord.ensureSameHash
  by_cases mine : record.requestHash = call.request
  · rw [if_pos mine]
    cases call with
    | checkOrReserve request | replayIfPresent request => exact ⟨⟨rfl, stored, mine⟩, .inl rfl⟩
    | update request change =>
      dsimp only
      split
      · rename_i allowed
        exact ⟨rfl, _, change, record, now, rfl, stored, mine, allowed, rfl, valid _ _ rfl⟩
      · exact alone_error rfl _
  · rw [if_neg mine]
    exact alone_error rfl _

/-- Every system call of a call that is alone keeps what holds of it. -/
theorem advance_alone {now : UInt64} {clock : Nat} {fault : Option String}
    (alone : Alone context before call files phase)
    (advanced : context.advance call files now clock fault phase = some (next, after)) :
    Alone context before call after next := by
  cases phase with
  | checking =>
    obtain ⟨rfl, request, rfl⟩ := alone
    cases advanced
    split
    · exact ⟨rfl, rfl, nofun⟩
    rename_i absent
    have none := not_isSome_iff_eq_none.mp absent
    exact ⟨none, none⟩
  | staging | writingClaim record =>
    cases fault with
    | some message =>
      cases advanced
      exact alone_io alone.1 _
    | none =>
      cases advanced
      exact alone
  | claiming record =>
    cases fault with
    | some message =>
      cases advanced
      exact alone_io alone.1 _
    | none =>
      simp only [advance] at advanced
      split at advanced
      · cases advanced
        exact alone
      · cases advanced
        exact alone
  | claimed record | waiting deadline =>
    obtain ⟨absent, none⟩ := alone
    simp only [advance, none] at advanced
    cases advanced
    exact ⟨absent, none⟩
  | publishing record =>
    obtain ⟨absent, none⟩ := alone
    cases fault with
    | some message =>
      cases advanced
      exact ⟨absent, none⟩
    | none =>
      simp only [advance, none] at advanced
      cases advanced
      exact ⟨absent, .inl ⟨_, rfl⟩⟩
  | renameFailed message =>
    obtain ⟨absent, none⟩ := alone
    simp only [advance, none] at advanced
    cases advanced
    exact ⟨absent, .inr ⟨message, rfl⟩⟩
  | loading held =>
    obtain ⟨rfl, rfl, valid⟩ := alone
    simp only [advance] at advanced
    split at advanced
    · cases advanced
      exact alone_error rfl _
    · rename_i contents there
      split at advanced
      · rename_i reason broken
        cases advanced
        refine ⟨rfl, rfl, ?_⟩
        rintro record ⟨others, here, decoded⟩
        rw [there] at here
        cases here
        rw [broken] at decoded
        cases decoded
      · rename_i record decoded
        cases advanced
        exact answer_alone _ ⟨_, there, decoded⟩ valid
    · cases advanced
      exact alone_error rfl _
  | quarantining reason held =>
    obtain ⟨rfl, rfl, unreadable⟩ := alone
    cases fault with
    | some message =>
      cases advanced
      exact alone_error rfl _
    | none =>
      cases advanced
      exact ⟨rfl, rfl, unreadable⟩
  | moving reason path held =>
    obtain ⟨rfl, rfl, unreadable⟩ := alone
    simp only [advance] at advanced
    split at advanced
    · cases advanced
      exact alone_error rfl _
    · cases advanced
      exact ⟨nofun, .inr (.inl unreadable)⟩
    · cases advanced
      exact alone_error rfl _
  | releasing result =>
    cases advanced
    obtain ⟨absent, ⟨record, rfl⟩ | ⟨message, rfl⟩⟩ := alone
    · exact ⟨absent, kept_of_absent absent⟩
    · exact alone_io absent _
  | watching deadline =>
    cases advanced
    split
    · exact ⟨nofun, kept_of_absent alone.1⟩
    · exact alone
  | probing =>
    obtain ⟨rfl, request, rfl⟩ := alone
    cases advanced
    split
    · exact ⟨rfl, rfl, nofun⟩
    rename_i absent
    exact ⟨rfl, not_isSome_iff_eq_none.mp absent⟩
  | probingClaim =>
    obtain ⟨rfl, -⟩ := alone
    cases advanced
    split
    · exact alone_error rfl _
    · exact ⟨rfl, .inl rfl⟩
  | writing updated =>
    obtain ⟨rfl, changes⟩ := alone
    cases fault with
    | some message =>
      cases advanced
      exact alone_error rfl _
    | none =>
      cases advanced
      exact ⟨changes, rfl⟩
  | syncing updated =>
    obtain ⟨changes, written⟩ := alone
    cases fault with
    | some message =>
      cases advanced
      exact ⟨nofun, .inr (.inr ⟨updated, changes, written⟩)⟩
    | none =>
      cases advanced
      exact ⟨⟨changes, written⟩, .inr (.inr ⟨updated, changes, written⟩)⟩
  | returned result | crashed => cases advanced

/-- A call begins with the files it finds. -/
theorem firstPhase_alone : Alone context files call files (context.firstPhase call) := by
  cases call with
  | checkOrReserve request | replayIfPresent request => exact ⟨rfl, _, rfl⟩
  | update request change =>
    unfold firstPhase
    dsimp only
    split
    · exact alone_error rfl _
    rename_i valid
    refine ⟨rfl, rfl, ?_⟩
    intro otherRequest otherChange same
    cases same
    exact valid

/-- In every phase the record file is as the call found it or has been written over. -/
theorem Alone.kept (alone : Alone context before call files phase) :
    Kept context before call files := by
  cases phase with
  | checking | probing | probingClaim | writing updated => exact .inl (alone.1 ▸ rfl)
  | staging | claiming record | writingClaim record | claimed record | publishing record
  | renameFailed message | waiting deadline | watching deadline | releasing result =>
    exact kept_of_absent alone.1
  | loading held | quarantining reason held | moving reason path held =>
    exact .inl (alone.2.1 ▸ rfl)
  | syncing updated => exact .inr (.inr ⟨updated, alone⟩)
  | returned result => exact alone.2
  | crashed => exact alone.elim

/-- What a call that was alone has done, to its result or to where it stopped. -/
theorem Executes.spec {outcome : Option StoreResult}
    (executed : Executes context call phase files outcome after)
    (alone : Alone context before call files phase) :
    Kept context before call after ∧
      ∀ result, outcome = some result → Reported context before call after result := by
  induction executed with
  | returned result files =>
    refine ⟨alone.2, fun other same => ?_⟩
    cases same
    exact alone.1
  | stopped phase files => exact ⟨alone.kept, nofun⟩
  | next now clock fault advanced _ ih => exact ih (advance_alone alone advanced)

/-- A status that nothing changes. -/
def ReplayStatus.isFinal : ReplayStatus → Bool
  | .completed | .failed | .uncertain => true
  | .reserved | .started => false

/-- The statuses that a record of a status can have later. -/
def ReplayStatus.leadsTo : ReplayStatus → ReplayStatus → Bool
  | .reserved, _ => true
  | .started, later => later = .started || later = .completed || later = .uncertain
  | status, later => later = status

/-- A status may stay. -/
@[simp]
theorem ReplayStatus.leadsTo_refl (status : ReplayStatus) : status.leadsTo status = true := by
  cases status <;> rfl

/-- Two changes are a change. -/
theorem ReplayStatus.leadsTo_trans {first second third : ReplayStatus}
    (left : first.leadsTo second = true) (right : second.leadsTo third = true) :
    first.leadsTo third = true := by
  cases first with
  | reserved => rfl
  | started =>
    cases second with
    | reserved | failed => cases left
    | started => exact right
    | uncertain | completed =>
      cases of_decide_eq_true right
      rfl
  | uncertain | completed | failed =>
    cases of_decide_eq_true left
    exact right

/-- Both tables of changes move a status forward, and none of them a final one. -/
theorem RecordChange.apply_forward {change : RecordChange} (now : UInt64)
    (allowed : change.allows record.status = true) :
    record.status.leadsTo (change.apply record now).status = true ∧
      record.status.isFinal = false := by
  cases change with
  | response status responseText =>
    have table : ∀ first second, validTransition first second = true →
        first.leadsTo second = true ∧ first.isFinal = false := by
      intro first second valid
      cases first <;> cases second <;> first | exact ⟨rfl, rfl⟩ | cases valid
    exact table record.status _ allowed
  | receipt responseText postImage =>
    have table : ∀ first : ReplayStatus, (first = .reserved || first = .started) = true →
        first.leadsTo .completed = true ∧ first.isFinal = false := by
      intro first valid
      cases first <;> first | exact ⟨rfl, rfl⟩ | cases valid
    exact table record.status allowed

/-- No two records are stored. -/
theorem Stored.unique {other : ReplayRecord} (stored : Stored context files record)
    (otherStored : Stored context files other) : record = other := by
  obtain ⟨contents, there, decoded⟩ := stored
  obtain ⟨others, here, otherDecoded⟩ := otherStored
  rw [there] at here
  cases here
  rw [decoded] at otherDecoded
  cases otherDecoded
  rfl

/-- A stored record stays stored, of the same reservation and with a status that its status leads
to; a final one is not written again. -/
abbrev Forward (context : ReplayContext Contents) (before files : KeyFiles Contents)
    (record : ReplayRecord) : Prop :=
  ∃ later, Stored context files later ∧ later.SameReservation record ∧
    record.status.leadsTo later.status = true ∧
    (record.status.isFinal = true → files.directory = before.directory)

/-- A kept record goes forward. -/
theorem Kept.forward (kept : Kept context before call files)
    (stored : Stored context before record) : Forward context before files record := by
  rcases kept with same | unreadable | ⟨updated, changes, written⟩
  · refine ⟨record, ?_, .refl record, record.status.leadsTo_refl, fun _ => same⟩
    obtain ⟨contents, there, decoded⟩ := stored
    exact ⟨_, same.trans there, decoded⟩
  · exact absurd stored (unreadable _)
  obtain ⟨request, change, old, now, -, oldStored, -, allowed, rfl, -⟩ := changes
  obtain rfl : old = record := oldStored.unique stored
  obtain ⟨forward, unfinished⟩ := change.apply_forward _ allowed
  have same := change.apply_sameReservation old now
  refine ⟨_, ⟨_, written, ?_⟩, same, forward, fun final => ?_⟩
  · obtain ⟨contents, -, decoded⟩ := stored
    obtain ⟨-, version, key⟩ := context.decodeRecord_ok decoded
    exact context.decodeRecord_encode (same.1.trans version) (same.2.1.trans key)
  · rw [unfinished] at final
    cases final

/-- Every operation moves records forward. -/
theorem Operates.forward {operation : StoreOperation}
    {outcome : Option StoreResult} (operated : Operates context operation before outcome files)
    (stored : Stored context before record) : Forward context before files record := by
  cases operated with
  | refused => exact ⟨_, stored, .refl _, record.status.leadsTo_refl, fun _ => rfl⟩
  | called made executed =>
    exact (executed.spec (firstPhase_alone)).1.forward stored

/-- A refusal leaves every file as it was. -/
theorem Operates.refusal {operation : StoreOperation} {refusal : IdempotencyError}
    (operated : Operates context operation before (some (.error refusal)) files)
    (refused : refusal.isRefusal = true) : files = before := by
  cases operated with
  | refused => rfl
  | called made executed =>
    exact (executed.spec (firstPhase_alone)).2 _ rfl refused

/-- So it is over any sequence of operations. -/
theorem Sequentially.forward {operations : List (StoreOperation × Option StoreResult)}
    (operated : Sequentially context before operations files)
    (stored : Stored context before record) : Forward context before files record := by
  induction operated generalizing record with
  | nil files => exact ⟨_, stored, .refl _, record.status.leadsTo_refl, fun _ => rfl⟩
  | cons first later ih =>
    obtain ⟨middle, middleStored, middleSame, middleLeads, middleFinal⟩ := first.forward stored
    obtain ⟨last, lastStored, lastSame, lastLeads, lastFinal⟩ := ih middleStored
    refine ⟨_, lastStored, lastSame.trans middleSame,
      ReplayStatus.leadsTo_trans middleLeads lastLeads, fun final => ?_⟩
    -- a final record is the record it finds later
    have still := middleFinal final
    have same : middle = record := by
      obtain ⟨contents, there, decoded⟩ := stored
      exact middleStored.unique ⟨_, still.trans there, decoded⟩
    rw [same] at lastFinal
    exact (lastFinal final).trans still

end Symforge.Idempotency
