import Symforge.Idempotency.ReplayStore

/-!
# A key is executed at most once

The claim file admits one call at a time to the rename that publishes a reservation, and the key
directory never goes away once it is there. So at most one call of `check_or_reserve` returns
`FirstExecution`, whatever the others do and wherever a call stops; every record that is read later
is of that reservation.
-/

namespace Symforge.Idempotency

open Library Option CallPhase ReplayContext Nat

variable {Contents : Type} {context : ReplayContext Contents}
  {files : KeyFiles Contents} {number : Nat} {call : StoreCall} {phase : CallPhase}
  {record : ReplayRecord} {held : Bool} {result : StoreResult} {now : UInt64}
  {published : List (Nat × ReplayRecord)}

/-- The record is of the published reservation, for this request. -/
def OfWinner (published : List (Nat × ReplayRecord)) (request : RequestHash)
    (record : ReplayRecord) : Prop :=
  ∃ winner first, published = [(winner, first)] ∧ record.SameReservation first ∧
    record.requestHash = request

/-- What a call may return without an error: its own publication as the first execution, or
something of what was published. -/
def AnsweredOk (published : List (Nat × ReplayRecord)) (number : Nat) :
    StoreCall → StoreAnswer → Prop
  | .checkOrReserve request, .decision (.firstExecution record) =>
    published = [(number, record)] ∧ record.requestHash = request
  | .checkOrReserve request, .decision (.replay record) => OfWinner published request record
  | .replayIfPresent request, .probed (some record) => OfWinner published request record
  | .replayIfPresent _, .probed none => True
  | .update request _, .updated record => OfWinner published request record
  | _, _ => False

/-- What a call may return: a conflict shows the published request and another one. -/
def Answered (published : List (Nat × ReplayRecord)) (number : Nat) (call : StoreCall) :
    StoreResult → Prop
  | .ok answer => AnsweredOk published number call answer
  | .error (.conflict _ existing incoming) =>
    ∃ winner first, published = [(winner, first)] ∧ existing = first.requestHash ∧
      incoming = call.request ∧ existing ≠ incoming
  | .error _ => True

/-- What holds of a call in a phase. -/
def CallPhase.Sound (context : ReplayContext Contents) (published : List (Nat × ReplayRecord))
    (number : Nat) (call : StoreCall) : CallPhase → Prop
  | .checking | .staging => ∃ request, call = .checkOrReserve request
  | .claiming record | .writingClaim record | .claimed record | .publishing record =>
    (∃ request, call = .checkOrReserve request) ∧ record.requestHash = call.request ∧
      record.schemaVersion = replayRecordSchemaVersion ∧ record.keyHash = context.keyHash
  | .probing | .probingClaim => ∃ request, call = .replayIfPresent request
  | .writing updated | .syncing updated =>
    (∃ request change, call = .update request change) ∧ OfWinner published call.request updated
  | .releasing result | .returned result => Answered published number call result
  | _ => True

/-- The files hold nothing and nobody published, or records of one publication only. -/
structure FilesSound (context : ReplayContext Contents) (published : List (Nat × ReplayRecord))
    (files : KeyFiles Contents) : Prop where
  origin : (files.directory = none ∧ published = []) ∨
    ∃ winner first, files.directory ≠ none ∧ published = [(winner, first)]
  stored : ∀ contents record, files.directory = some (some contents) →
    context.decodeRecord contents = .ok record → ∃ winner first,
      published = [(winner, first)] ∧ record.SameReservation first

/-- Nothing is published while there is no directory. -/
theorem FilesSound.empty
    (sound : FilesSound context published files) (absent : files.directory = none) :
    published = [] := by
  rcases sound.origin with ⟨-, empty⟩ | ⟨winner, first, there, -⟩
  · exact empty
  · exact absurd absent there

/-- Other contents of a directory that is there keep the publication. -/
theorem FilesSound.replace (sound : FilesSound context published files) {contents : Option Contents}
    {quarantine : List (String × Contents)} (there : files.directory ≠ none)
    (stored : ∀ bytes record, contents = some bytes → context.decodeRecord bytes = .ok record →
      ∃ winner first, published = [(winner, first)] ∧ record.SameReservation first) :
    FilesSound context published { files with directory := some contents, quarantine } := by
  refine ⟨.inr ?_, ?_⟩
  · rcases sound.origin with ⟨absent, -⟩ | ⟨winner, first, -, only⟩
    · exact absurd absent there
    · exact ⟨winner, first, nofun, only⟩
  · intro bytes record here
    exact stored _ _ (some.inj here)

/-- A call that ends with an answer is sound. -/
theorem Answered.finish (answered : Answered published number call result) :
    (CallPhase.finish held result).Sound context published number call := by
  unfold CallPhase.finish
  split
  · exact answered
  · exact answered

open Answered

/-- The answer to a record of the published reservation. -/
theorem answer_sound {winner : Nat} {first : ReplayRecord}
    (only : published = [(winner, first)]) (same : record.SameReservation first) :
    (call.answer held now record).Sound context published number call := by
  unfold StoreCall.answer ReplayRecord.ensureSameHash
  by_cases mine : record.requestHash = call.request
  · rw [if_pos mine]
    cases call with
    | checkOrReserve request | replayIfPresent request =>
      exact finish ⟨winner, first, only, same, mine⟩
    | update request change =>
      dsimp only
      split
      · have kept := change.apply_sameReservation record now
        exact ⟨⟨_, change, rfl⟩, winner, first, only, kept.trans same, kept.2.2.1.trans mine⟩
      · exact finish trivial
  · rw [if_neg mine]
    exact finish ⟨winner, first, only, same.2.2.1, rfl, mine⟩

/-- A phase that was sound before anything was published stays sound. -/
theorem CallPhase.Sound.publish {other : Nat} (sound : phase.Sound context [] number call) :
    phase.Sound context [(other, record)] number call := by
  have empty : ∀ {request record}, ¬ OfWinner [] request record := by
    rintro request record ⟨winner, first, only, -⟩
    cases only
  have answered : ∀ result, Answered [] number call result →
      Answered [(other, record)] number call result := by
    intro result answered
    cases result with
    | ok answer =>
      simp only [Answered, AnsweredOk] at answered ⊢
      split at answered
      · cases answered.1
      · exact (empty answered).elim
      · exact (empty answered).elim
      · trivial
      · exact (empty answered).elim
      · exact answered.elim
    | error refusal =>
      cases refusal with
      | conflict key existing incoming =>
        obtain ⟨_, _, only, -⟩ := answered
        cases only
      | _ => trivial
  cases phase with
  | writing updated | syncing updated => exact (empty sound.2).elim
  | releasing result | returned result => exact answered _ sound
  | _ => exact sound

/-- It still holds what it held. -/
@[simp]
theorem CallPhase.finish_holding : (CallPhase.finish held result).holding = held := by
  cases held with
  | true => rfl
  | false => rfl

/-- It does not publish. -/
theorem CallPhase.finish_ne_publishing : CallPhase.finish held result ≠ .publishing record := by
  cases held with
  | true => nofun
  | false => nofun

/-- An answer ends the call or goes on to write. -/
theorem answer_cases :
    (∃ result, call.answer held now record = .finish held result) ∨
      ∃ updated, call.answer held now record = .writing updated := by
  unfold StoreCall.answer
  split
  · exact .inl ⟨_, rfl⟩
  split
  · exact .inl ⟨_, rfl⟩
  · exact .inl ⟨_, rfl⟩
  split
  · exact .inr ⟨_, rfl⟩
  · exact .inl ⟨_, rfl⟩

/-- What a system call does to the files. -/
inductive Effect (context : ReplayContext Contents) (files : KeyFiles Contents) :
    CallPhase → CallPhase → KeyFiles Contents → Prop
  | quiet (phase next : CallPhase) (kept : next.holding = true → phase.holding = true)
      (unpublished : ∀ number, ReplaySystem.newlyPublished number phase next = [])
      (absent : ∀ record, next = .publishing record → files.directory = none) :
      Effect context files phase next files
  | claims (record : ReplayRecord) (free : files.claim = false) :
      Effect context files (.claiming record) (.writingClaim record) { files with claim := true }
  | publishes (record : ReplayRecord) :
      Effect context files (.publishing record)
        (.releasing (.ok (.decision (.firstExecution record))))
        { files with directory := some (some (context.encode record)) }
  | quarantines (reason path : String) (held : Bool) (contents : Contents)
      (quarantine : List (String × Contents)) (result : StoreResult)
      (found : files.directory = some (some contents)) :
      Effect context files (.moving reason path held) (.finish held result)
        { files with directory := some none, quarantine }
  | releases (result : StoreResult) :
      Effect context files (.releasing result) (.returned result) { files with claim := false }
  | writes (updated : ReplayRecord) :
      Effect context files (.writing updated) (.syncing updated)
        { files with directory := some (some (context.encode updated)) }

/-- A call that goes on without the claim changes nothing and is not about to publish. -/
theorem Effect.unclaimed {next : CallPhase} (free : next.holding = false := by rfl)
    (unpublished : ∀ number, ReplaySystem.newlyPublished number phase next = [] := by
      exact fun _ => rfl) :
    Effect context files phase next files := by
  refine .quiet _ _ (fun held => ?_) unpublished (fun record same => ?_)
  · rw [free] at held
    cases held
  · rw [same] at free
    cases free

/-- Ending has no effect on the files. -/
theorem Effect.finishes (same : phase.holding = held)
    (before : ∀ record, phase ≠ .publishing record) :
    Effect context files phase (.finish held result) files := by
  refine .quiet _ _ (fun holding => ?_) (fun number => ?_)
    (fun _ same => (finish_ne_publishing same).elim)
  · rwa [finish_holding, ← same] at holding
  cases phase with
  | publishing record => exact absurd rfl (before _)
  | _ => rfl

/-- Neither has answering. -/
theorem Effect.answers :
    Effect context files (.loading held) (call.answer held now record) files := by
  rcases answer_cases with ⟨result, ends⟩ | ⟨updated, writes⟩
  · rw [ends]
    exact .finishes rfl nofun
  · rw [writes]
    exact .unclaimed

/-- A call begins without a claim. -/
theorem firstPhase_spec :
    (context.firstPhase call).Sound context published number call ∧
      (context.firstPhase call).holding = false := by
  cases call with
  | checkOrReserve request | replayIfPresent request => exact ⟨⟨_, rfl⟩, rfl⟩
  | update request change =>
    unfold firstPhase
    dsimp only
    split
    · rename_i refusal refused
      refine ⟨?_, rfl⟩
      have plain := context.validateChange_error refused
      rcases plain with rfl | rfl
      · trivial
      · trivial
    · exact ⟨trivial, rfl⟩

/-- A system call has one of the effects and reaches its next phase with what that needs. -/
theorem advance_spec {after : KeyFiles Contents} {clock : Nat} {fault : Option String}
    {next : CallPhase}
    (filesSound : FilesSound context published files)
    (sound : phase.Sound context published number call)
    (first : ∀ record, phase = .publishing record → published = [])
    (advanced : context.advance call files now clock fault phase = some (next, after)) :
    Effect context files phase next after ∧
      next.Sound context (ReplaySystem.newlyPublished number phase next ++ published) number
        call := by
  cases phase with
  | checking | probing =>
    cases advanced
    split
    · exact ⟨.unclaimed, trivial⟩
    · exact ⟨.unclaimed, sound⟩
  | staging =>
    cases fault with
    | some message =>
      cases advanced
      exact ⟨.unclaimed, trivial⟩
    | none =>
      cases advanced
      exact ⟨.unclaimed, sound, rfl, rfl, rfl⟩
  | claiming record =>
    cases fault with
    | some message =>
      cases advanced
      exact ⟨.unclaimed, trivial⟩
    | none =>
      simp only [advance] at advanced
      split at advanced
      · cases advanced
        exact ⟨.unclaimed, trivial⟩
      rename_i free
      cases advanced
      exact ⟨.claims _ (Bool.eq_false_iff.mpr free), sound⟩
  | writingClaim record =>
    cases fault with
    | some message =>
      cases advanced
      exact ⟨.unclaimed, trivial⟩
    | none =>
      cases advanced
      exact ⟨.quiet _ _ (fun _ => rfl) (fun _ => rfl) nofun, sound⟩
  | claimed record =>
    cases advanced
    split
    · exact ⟨.quiet _ _ (fun _ => rfl) (fun _ => rfl) nofun, trivial⟩
    rename_i absent
    have none : files.directory = none := not_isSome_iff_eq_none.mp absent
    exact ⟨.quiet _ _ (fun _ => rfl) (fun _ => rfl) (fun _ _ => none), sound⟩
  | publishing record =>
    simp only [advance] at advanced
    split at advanced
    · cases advanced
      exact ⟨.quiet _ _ (fun _ => rfl) (fun _ => rfl) nofun, trivial⟩
    · cases advanced
      exact ⟨.quiet _ _ (fun _ => rfl) (fun _ => rfl) nofun, trivial⟩
    cases advanced
    obtain ⟨⟨request, rfl⟩, hash, -, -⟩ := sound
    rw [first _ rfl]
    exact ⟨.publishes _, rfl, hash⟩
  | renameFailed message =>
    cases advanced
    split
    · exact ⟨.quiet _ _ (fun _ => rfl) (fun _ => rfl) nofun, trivial⟩
    · exact ⟨.quiet _ _ (fun _ => rfl) (fun _ => rfl) nofun, trivial⟩
  | loading held =>
    simp only [advance] at advanced
    split at advanced
    · cases advanced
      exact ⟨.finishes rfl nofun, finish trivial⟩
    · rename_i contents found
      split at advanced
      · cases advanced
        exact ⟨.quiet _ _ id (fun _ => rfl) nofun, trivial⟩
      rename_i record decoded
      cases advanced
      obtain ⟨winner, first, only, same⟩ := filesSound.stored _ _ found decoded
      exact ⟨.answers, answer_sound only same⟩
    · cases advanced
      exact ⟨.finishes rfl nofun, finish trivial⟩
  | quarantining reason held =>
    cases fault with
    | some message =>
      cases advanced
      exact ⟨.finishes rfl nofun, finish trivial⟩
    | none =>
      cases advanced
      exact ⟨.quiet _ _ id (fun _ => rfl) nofun, trivial⟩
  | moving reason path held =>
    simp only [advance] at advanced
    split at advanced
    · cases advanced
      exact ⟨.finishes rfl nofun, finish trivial⟩
    · rename_i contents found
      cases advanced
      exact ⟨.quarantines _ _ _ _ _ _ found, finish trivial⟩
    · cases advanced
      exact ⟨.finishes rfl nofun, finish trivial⟩
  | releasing result =>
    cases advanced
    split
    · exact ⟨.unclaimed, sound⟩
    · exact ⟨.releases _, sound⟩
  | waiting deadline | watching deadline =>
    cases advanced
    split
    · exact ⟨.unclaimed, trivial⟩
    · exact ⟨.unclaimed, trivial⟩
  | probingClaim =>
    obtain ⟨request, rfl⟩ := sound
    cases advanced
    split
    · exact ⟨.unclaimed, trivial⟩
    · exact ⟨.unclaimed, trivial⟩
  | writing updated =>
    cases fault with
    | some message =>
      cases advanced
      exact ⟨.unclaimed, trivial⟩
    | none =>
      cases advanced
      exact ⟨.writes _, sound⟩
  | syncing updated =>
    cases fault with
    | some message =>
      cases advanced
      exact ⟨.unclaimed, trivial⟩
    | none =>
      cases advanced
      obtain ⟨⟨request, change, rfl⟩, winner⟩ := sound
      exact ⟨.unclaimed, winner⟩
  | returned result | crashed => cases advanced

/-- How far a call is from its return at most, but for the rounds of the wait. -/
def CallPhase.rank : CallPhase → Nat
  | .checking => 11
  | .staging => 10
  | .claiming _ => 9
  | .writingClaim _ => 8
  | .claimed _ => 7
  | .publishing _ | .waiting _ | .probing => 6
  | .renameFailed _ | .watching _ | .probingClaim => 5
  | .loading _ => 4
  | .quarantining _ _ | .writing _ => 3
  | .moving _ _ _ | .syncing _ => 2
  | .releasing _ => 1
  | .returned _ | .crashed => 0

/-- An ending call has a move left at most. -/
theorem CallPhase.finish_rank : (CallPhase.finish held result).rank ≤ 1 := by
  cases held with
  | true => exact le_refl 1
  | false => exact zero_le 1

/-- An answering call has three at most. -/
theorem answer_rank : (call.answer held now record).rank ≤ 3 := by
  rcases answer_cases with ⟨result, ends⟩ | ⟨updated, writes⟩
  · rw [ends]
    exact (finish_rank).trans (by omega)
  · rw [writes]
    exact le_refl 3

/-- A call comes nearer to its return with every system call, but for the wait before its deadline.
-/
theorem advance_rank (context : ReplayContext Contents) (call : StoreCall)
    (files : KeyFiles Contents) (now : UInt64) (clock : Nat) (fault : Option String)
    (running : phase.rank ≠ 0) :
    ∃ next after, context.advance call files now clock fault phase = some (next, after) ∧
      (next.rank < phase.rank ∨ ∃ deadline, phase = .watching deadline ∧ clock < deadline) := by
  have finishes : ∀ held result, (finish held result).rank < 2 :=
    fun held result => lt_succ_of_le (finish_rank)
  cases phase with
  | watching deadline =>
    refine ⟨_, _, rfl, ?_⟩
    split
    · exact .inl (zero_lt_succ 4)
    rename_i early
    simp only [Bool.or_eq_true, decide_eq_true_eq, not_or] at early
    exact .inr ⟨deadline, rfl, by omega⟩
  | checking | claimed record | renameFailed message | waiting deadline | probing =>
    refine ⟨_, _, rfl, .inl ?_⟩
    split
    · simp [rank]
    · simp [rank]
  | staging | writingClaim record | writing updated | syncing updated =>
    cases fault with
    | some message | none => exact ⟨_, _, rfl, .inl (by simp [rank])⟩
  | claiming record =>
    simp only [advance]
    split
    · exact ⟨_, _, rfl, .inl (by simp [rank])⟩
    split
    · exact ⟨_, _, rfl, .inl (by simp [rank])⟩
    · exact ⟨_, _, rfl, .inl (by simp [rank])⟩
  | publishing record =>
    simp only [advance]
    split
    · exact ⟨_, _, rfl, .inl (by simp [rank])⟩
    · exact ⟨_, _, rfl, .inl (by simp [rank])⟩
    · exact ⟨_, _, rfl, .inl (by simp [rank])⟩
  | loading held =>
    simp only [advance]
    split
    · exact ⟨_, _, rfl, .inl ((finishes _ _).trans (by simp [rank]))⟩
    · split
      · exact ⟨_, _, rfl, .inl (by simp [rank])⟩
      · exact ⟨_, _, rfl, .inl (lt_succ_of_le (answer_rank))⟩
    · exact ⟨_, _, rfl, .inl ((finishes _ _).trans (by simp [rank]))⟩
  | quarantining reason held =>
    cases fault with
    | some message => exact ⟨_, _, rfl, .inl ((finishes _ _).trans (by simp [rank]))⟩
    | none => exact ⟨_, _, rfl, .inl (by simp [rank])⟩
  | moving reason path held =>
    simp only [advance]
    split
    · exact ⟨_, _, rfl, .inl (finishes _ _)⟩
    · exact ⟨_, _, rfl, .inl (finishes _ _)⟩
    · exact ⟨_, _, rfl, .inl (finishes _ _)⟩
  | releasing result => exact ⟨_, _, rfl, .inl Nat.zero_lt_one⟩
  | probingClaim => exact ⟨_, _, rfl, .inl (zero_lt_succ 4)⟩
  | returned result | crashed => exact absurd rfl running

namespace ReplaySystem

/-- The files and the calls agree with what was published; one call holds the claim, and nothing is
published while one is about to publish. -/
structure Inv (context : ReplayContext Contents) (system : ReplaySystem Contents) : Prop where
  files : FilesSound context system.published system.files
  sound : ∀ number call phase, system.calls number = some (call, phase) →
    phase.Sound context system.published number call
  claimed : ∀ number call phase, system.calls number = some (call, phase) →
    phase.holding = true → system.files.claim = true
  exclusive : ∀ number call phase other otherCall otherPhase,
    system.calls number = some (call, phase) → phase.holding = true →
      system.calls other = some (otherCall, otherPhase) → otherPhase.holding = true →
        other = number
  absent : ∀ number call record, system.calls number = some (call, .publishing record) →
    system.files.directory = none

/-- The invariant holds at the start. -/
theorem initial_inv (claim : Bool) (quarantine : List (String × Contents)) (now : UInt64) :
    (initial claim quarantine now).Inv context where
  files := ⟨.inl ⟨rfl, rfl⟩, fun _ _ found => nomatch found⟩
  sound := fun _ _ _ found => nomatch found
  claimed := fun _ _ _ found => nomatch found
  exclusive := fun _ _ _ _ _ _ found => nomatch found
  absent := fun _ _ _ found => nomatch found

variable {system next : ReplaySystem Contents} {number : Nat} {call : StoreCall}
  {phase : CallPhase} {action : ReplayAction Contents}

/-- A call goes on and leaves the others what they had. -/
theorem Inv.act (inv : system.Inv context) {files : KeyFiles Contents}
    (filesSound : FilesSound context published files)
    (sound : phase.Sound context published number call)
    (grown : published = system.published ∨
      system.published = [] ∧ ∃ record, published = [(number, record)])
    (alone : phase.holding = true → files.claim = true ∧
      ∀ other otherCall otherPhase, system.calls other = some (otherCall, otherPhase) →
        otherPhase.holding = true → other = number)
    (others : ∀ other otherCall otherPhase, other ≠ number →
      system.calls other = some (otherCall, otherPhase) → otherPhase.holding = true →
        files.claim = true)
    (absent : ∀ record, phase = .publishing record → files.directory = none)
    (otherAbsent : ∀ other otherCall record, other ≠ number →
      system.calls other = some (otherCall, .publishing record) → files.directory = none) :
    Inv context { system.setPhase number call phase with files, published } := by
  refine ⟨filesSound, ?_, ?_, ?_, ?_⟩
  · intro other otherCall otherPhase found
    rcases update_some_eq_some.mp found with ⟨here, same⟩ | ⟨-, before⟩
    · cases same
      exact here ▸ sound
    have soundBefore := inv.sound _ _ _ before
    rcases grown with same | ⟨empty, record, same⟩
    · rw [same]
      exact soundBefore
    rw [same]
    rw [empty] at soundBefore
    exact soundBefore.publish
  · intro other otherCall otherPhase found holding
    rcases update_some_eq_some.mp found with ⟨-, same⟩ | ⟨apart, before⟩
    · cases same
      exact (alone holding).1
    · exact others _ _ _ apart before holding
  · intro one oneCall onePhase other otherCall otherPhase found holding otherFound otherHolding
    rcases update_some_eq_some.mp found with ⟨here, same⟩ | ⟨apart, before⟩
    · rcases update_some_eq_some.mp otherFound with ⟨otherHere, -⟩ | ⟨otherApart, otherBefore⟩
      · exact otherHere.trans here.symm
      cases same
      exact absurd ((alone holding).2 _ _ _ otherBefore otherHolding)
        otherApart
    · rcases update_some_eq_some.mp otherFound with ⟨-, same⟩ | ⟨-, otherBefore⟩
      · cases same
        exact absurd ((alone otherHolding).2 _ _ _ before holding) apart
      · exact inv.exclusive _ _ _ _ _ _ before holding
          otherBefore otherHolding
  · intro other otherCall record found
    rcases update_some_eq_some.mp found with ⟨-, same⟩ | ⟨apart, before⟩
    · cases same
      exact absent _ rfl
    · exact otherAbsent _ _ _ apart before

/-- A call goes on with the files as they are and takes no claim. -/
theorem Inv.quiet (inv : system.Inv context)
    (sound : phase.Sound context system.published number call)
    (kept : phase.holding = true →
      ∃ before, system.calls number = some (call, before) ∧ before.holding = true)
    (absent : ∀ record, phase = .publishing record → system.files.directory = none) :
    Inv context (system.setPhase number call phase) := by
  refine inv.act inv.files sound (.inl rfl) ?_ ?_ absent ?_
  · intro holding
    obtain ⟨before, found, held⟩ := kept holding
    exact ⟨inv.claimed _ _ _ found held, fun other otherCall otherPhase =>
      inv.exclusive _ _ _ _ _ _ found held⟩
  · exact fun other otherCall otherPhase _ => inv.claimed _ _ _
  · exact fun other otherCall record _ => inv.absent _ _ _

/-- Every effect keeps the invariant. -/
theorem Inv.effect (inv : system.Inv context) {before : CallPhase} {files : KeyFiles Contents}
    (found : system.calls number = some (call, before))
    (effect : Effect context system.files before phase files)
    (sound : phase.Sound context (newlyPublished number before phase ++ system.published) number
      call) :
    Inv context { system.setPhase number call phase with
      files
      published := newlyPublished number before phase ++ system.published } := by
  have alone (held : before.holding = true) other otherCall otherPhase :=
    inv.exclusive _ _ _ other otherCall otherPhase found held
  cases effect with
  | quiet _ _ kept unpublished absent =>
    rw [unpublished number] at sound ⊢
    exact inv.quiet sound (fun holding => ⟨_, found, kept holding⟩) absent
  | claims record free =>
    have nobody : ∀ other otherCall otherPhase,
        system.calls other = some (otherCall, otherPhase) → otherPhase.holding ≠ true := by
      intro other otherCall otherPhase looked holding
      have taken := inv.claimed _ _ _ looked holding
      rw [free] at taken
      cases taken
    refine inv.act ⟨inv.files.origin, inv.files.stored⟩ sound (.inl rfl) ?_ (fun _ _ _ _ _ _ => rfl)
      nofun ?_
    · exact fun _ => ⟨rfl, fun other otherCall otherPhase looked holding =>
        absurd holding (nobody _ _ _ looked)⟩
    · exact fun other otherCall record _ => inv.absent _ _ _
  | publishes record =>
    have absent := inv.absent number call record found
    have empty := inv.files.empty absent
    obtain ⟨-, -, version, key⟩ := inv.sound number call _ found
    rw [empty] at sound ⊢
    refine inv.act ⟨.inr ⟨_, _, nofun, rfl⟩, ?_⟩ sound (.inr ⟨empty, _, rfl⟩) ?_ ?_
      nofun ?_
    · intro contents stored here decoded
      cases here
      rw [context.decodeRecord_encode version key] at decoded
      cases decoded
      exact ⟨_, _, rfl, .refl _⟩
    · exact fun _ => ⟨inv.claimed _ _ _ found rfl, alone rfl⟩
    · intro other otherCall otherPhase apart looked holding
      exact absurd (alone rfl other _ _ looked holding) apart
    · intro other otherCall otherRecord apart looked
      exact absurd (alone rfl other otherCall _ looked rfl) apart
  | quarantines reason path held contents quarantine result there =>
    have present : system.files.directory ≠ none := by
      rw [there]
      nofun
    refine inv.act (inv.files.replace present fun _ _ here => nomatch here) sound (.inl rfl) ?_
      (fun other otherCall otherPhase _ => inv.claimed other otherCall otherPhase) ?_ ?_
    · intro holding
      rw [finish_holding] at holding
      exact ⟨inv.claimed number call _ found holding, alone holding⟩
    · exact fun record same => (finish_ne_publishing same).elim
    · exact fun other otherCall record _ looked =>
        absurd (inv.absent other otherCall record looked) present
  | releases result =>
    refine inv.act ⟨inv.files.origin, inv.files.stored⟩ sound (.inl rfl) nofun ?_ nofun
      (fun other otherCall record _ => inv.absent other otherCall record)
    intro other otherCall otherPhase apart looked holding
    exact absurd (alone rfl other otherCall otherPhase looked holding) apart
  | writes updated =>
    obtain ⟨-, winner, first, only, same, -⟩ := inv.sound number call _ found
    have present : system.files.directory ≠ none := by
      intro absent
      rw [inv.files.empty absent] at only
      cases only
    refine inv.act (inv.files.replace present ?_) sound (.inl rfl) nofun
      (fun other otherCall otherPhase _ => inv.claimed other otherCall otherPhase) nofun ?_
    · intro bytes record here decoded
      cases here
      have read := (context.decodeRecord_ok decoded).1
      rw [context.decode_encode] at read
      cases read
      exact ⟨winner, first, only, same⟩
    · exact fun other otherCall record _ looked =>
        absurd (inv.absent other otherCall record looked) present

/-- A call starts or stops without the claim or goes on, the clocks move, or the record is damaged.
-/
inductive Stepped (context : ReplayContext Contents) (system : ReplaySystem Contents) :
    ReplaySystem Contents → Prop
  | sets {number : Nat} {call : StoreCall} {phase : CallPhase}
      (sound : phase.Sound context system.published number call)
      (idle : phase.holding = false) :
      Stepped context system (system.setPhase number call phase)
  | acts {number : Nat} {call : StoreCall} {before phase : CallPhase} {files : KeyFiles Contents}
      (found : system.calls number = some (call, before))
      (effect : Effect context system.files before phase files)
      (sound : phase.Sound context (newlyPublished number before phase ++ system.published) number
        call) :
      Stepped context system { system.setPhase number call phase with
        files
        published := newlyPublished number before phase ++ system.published }
  | passes (now : UInt64) (clock : Nat) : Stepped context system { system with now, clock }
  | damages {before contents : Contents} {reason : String}
      (there : system.files.directory = some (some before))
      (broken : context.decodeRecord contents = .error reason) :
      Stepped context system
        { system with files := { system.files with directory := some (some contents) } }

/-- What one move does. -/
theorem step_spec (inv : system.Inv context) (moved : step context system action = some next) :
    Stepped context system next := by
  cases action with
  | start number call =>
    simp only [step] at moved
    split at moved
    · cases moved
    cases moved
    obtain ⟨sound, idle⟩ := firstPhase_spec
    exact .sets sound idle
  | act number fault =>
    simp only [step] at moved
    split at moved
    · cases moved
    rename_i call phase found
    obtain ⟨⟨after, files⟩, advanced, same⟩ := map_eq_some_iff.mp moved
    cases same
    obtain ⟨effect, sound⟩ := advance_spec inv.files (inv.sound _ _ _ found)
      (fun record here => inv.files.empty (inv.absent _ _ _ (here ▸ found)))
      advanced
    exact .acts found effect sound
  | crash number =>
    simp only [step] at moved
    split at moved
    · cases moved
    · cases moved
    cases moved
    exact .sets trivial rfl
  | setNow now =>
    cases moved
    exact .passes _ system.clock
  | tick millis =>
    cases moved
    exact .passes system.now _
  | damage contents =>
    simp only [step] at moved
    split at moved
    · rename_i before reason there broken
      cases moved
      exact .damages there broken
    · cases moved

/-- Every step keeps the invariant. -/
theorem step_inv (inv : system.Inv context) (moved : step context system action = some next) :
    next.Inv context := by
  cases step_spec inv moved with
  | sets sound idle =>
    exact inv.quiet sound (fun holding => by rw [idle] at holding; cases holding)
      (fun record same => by rw [same] at idle; cases idle)
  | acts found effect sound => exact inv.effect found effect sound
  | passes now clock => exact { inv with }
  | damages there broken =>
    have present : system.files.directory ≠ none := by
      rw [there]
      nofun
    refine { inv with files := inv.files.replace present ?_, absent := ?_ }
    · intro bytes record here decoded
      cases here
      rw [broken] at decoded
      cases decoded
    · exact fun other otherCall record looked =>
        absurd (inv.absent _ _ _ looked) present

/-- The invariant holds along every run. -/
theorem run_inv {claim : Bool} {quarantine : List (String × Contents)} {now : UInt64}
    {actions : List (ReplayAction Contents)}
    (reached : run (step context) (initial claim quarantine now) actions = some system) :
    system.Inv context :=
  run_invariant (Inv _) (fun _ _ _ => step_inv)
    (initial_inv _ _ _) reached

/-- The claim is there and nobody will remove it. -/
def Abandoned (system : ReplaySystem Contents) : Prop :=
  system.files.claim = true ∧
    ∀ number call phase, system.calls number = some (call, phase) → phase.holding = false

section
variable (inv : system.Inv context)
include inv

/-- A call that stops while it holds the claim abandons it. -/
theorem crash_abandons
    (found : system.calls number = some (call, phase)) (holding : phase.holding = true)
    (moved : step context system (.crash number) = some next) : next.Abandoned := by
  have crashed : next = system.setPhase number call .crashed := by
    simp only [step, found] at moved
    split at moved
    · cases moved
    · rename_i same
      cases same
      cases holding
    · rename_i same
      cases same
      exact (some.inj moved).symm
  subst crashed
  refine ⟨inv.claimed _ _ _ found holding, fun other otherCall otherPhase looked => ?_⟩
  rcases update_some_eq_some.mp looked with ⟨-, same⟩ | ⟨apart, before⟩
  · cases same
    rfl
  refine Bool.eq_false_iff.mpr fun otherHolding => apart ?_
  exact inv.exclusive _ _ _ _ _ _ found holding before
    otherHolding

variable (moved : step context system action = some next)
include moved

/-- The history only grows. -/
theorem step_published : ∃ newly, next.published = newly ++ system.published := by
  cases step_spec inv moved with
  | acts found effect sound => exact ⟨_, rfl⟩
  | _ => exact ⟨[], rfl⟩

/-- A published key stays so: the directory is there, and nothing more is published. -/
theorem published_kept (there : system.files.directory ≠ none) :
    next.files.directory ≠ none ∧ next.published = system.published := by
  obtain ⟨newly, grown⟩ := step_published inv moved
  rcases inv.files.origin with ⟨absent, -⟩ | ⟨winner, first, -, only⟩
  · exact absurd absent there
  rcases (step_inv inv moved).files.origin with ⟨-, empty⟩ | ⟨later, record, present, single⟩
  · rw [grown, only] at empty
    exact absurd (List.append_eq_nil_iff.mp empty).2 nofun
  refine ⟨present, ?_⟩
  rw [grown, only] at single
  have length := congrArg List.length single
  rw [List.length_append] at length
  have none : newly = [] := List.length_eq_zero_iff.mp (by simpa using length)
  rw [grown, none]
  rfl

/-- An abandoned claim stays: whoever comes later neither gets it nor publishes. -/
theorem abandoned_kept (abandoned : system.Abandoned) :
    next.Abandoned ∧ next.published = system.published := by
  obtain ⟨claimed, idle⟩ := abandoned
  -- a call that goes on to a phase without the claim leaves everything as it is
  have goesOn : ∀ {number call phase}, phase.holding = false →
      (system.setPhase number call phase).Abandoned := by
    intro number call phase free
    refine ⟨claimed, fun other otherCall otherPhase found => ?_⟩
    rcases update_some_eq_some.mp found with ⟨-, same⟩ | ⟨-, before⟩
    · cases same
      exact free
    · exact idle _ _ _ before
  cases step_spec inv moved with
  | sets sound free => exact ⟨goesOn free, rfl⟩
  | @acts number call phase next files found effect sound =>
    have free := idle _ _ _ found
    cases effect with
    | quiet _ _ kept unpublished _ =>
      refine ⟨goesOn ?_, by rw [unpublished]; rfl⟩
      exact Bool.eq_false_iff.mpr fun holding => by
        rw [kept holding] at free
        cases free
    | claims record unclaimed =>
      rw [claimed] at unclaimed
      cases unclaimed
    | publishes record | releases result => cases free
    | quarantines reason path held contents quarantine result there =>
      obtain ⟨-, idle⟩ := goesOn ((finish_holding).trans free)
      exact ⟨⟨claimed, idle⟩, rfl⟩
    | writes updated =>
      have wrote : (system.setPhase number call (.syncing updated)).Abandoned := goesOn rfl
      exact ⟨⟨claimed, wrote.2⟩, rfl⟩
  | passes now clock | damages there broken => exact ⟨⟨claimed, idle⟩, rfl⟩

end

/-- Whatever calls are made on a key, however their system calls interleave and wherever they stop:
one call at most returns the first execution; every call returns that, the record of that
reservation, a conflict with it or an error; nothing is executed once there is a directory or an
abandoned claim; and no call is stuck. -/
theorem executed_at_most_once (context : ReplayContext Contents) (claim : Bool)
    (quarantine : List (String × Contents)) (now : UInt64) (actions : List (ReplayAction Contents))
    (reached : run (step context) (initial claim quarantine now) actions = some system) :
    (∀ number request record other otherRequest otherRecord,
      system.calls number = some (.checkOrReserve request,
        .returned (.ok (.decision (.firstExecution record)))) →
      system.calls other = some (.checkOrReserve otherRequest,
        .returned (.ok (.decision (.firstExecution otherRecord)))) →
        number = other ∧ record = otherRecord) ∧
    (∀ number call result, system.calls number = some (call, .returned result) →
      Answered system.published number call result) ∧
    (system.files.directory ≠ none ∨ system.Abandoned → ∀ later final,
      run (step context) system later = some final → final.published = system.published) ∧
    (∀ number call phase crashed, system.calls number = some (call, phase) →
      phase.holding = true → step context system (.crash number) = some crashed →
        crashed.Abandoned) ∧
    (∀ number call phase fault, system.calls number = some (call, phase) → phase.rank ≠ 0 →
      ∃ next after, step context system (.act number fault) = some next ∧
        next.calls number = some (call, after) ∧
        (after.rank < phase.rank ∨
          ∃ deadline, phase = .watching deadline ∧ system.clock < deadline)) := by
  have inv : system.Inv context := run_inv reached
  refine ⟨?_, fun number call result found => inv.sound _ _ _ found, ?_,
    fun _ _ _ _ found holding moved => crash_abandons inv found holding moved, ?_⟩
  · intro number request record other otherRequest otherRecord found otherFound
    obtain ⟨only, -⟩ := inv.sound _ _ _ found
    obtain ⟨otherOnly, -⟩ := inv.sound _ _ _ otherFound
    rw [only] at otherOnly
    cases otherOnly
    exact ⟨rfl, rfl⟩
  · rintro (there | abandoned) later final moved
    · have kept := run_invariant
        (fun later => later.Inv context ∧ later.files.directory ≠ none ∧
          later.published = system.published)
        (fun _ _ _ ⟨inv, there, same⟩ moved =>
          have kept := published_kept inv moved there
          ⟨step_inv inv moved, kept.1, kept.2.trans same⟩)
        ⟨inv, there, rfl⟩ moved
      exact kept.2.2
    · have kept := run_invariant
        (fun later => later.Inv context ∧ later.Abandoned ∧ later.published = system.published)
        (fun _ _ _ ⟨inv, abandoned, same⟩ moved =>
          have kept := abandoned_kept inv moved abandoned
          ⟨step_inv inv moved, kept.1, kept.2.trans same⟩)
        ⟨inv, abandoned, rfl⟩ moved
      exact kept.2.2
  · intro number call phase fault found running
    obtain ⟨after, files, advanced, nearer⟩ :=
      advance_rank context call system.files system.now system.clock fault running
    have moved : step context system (.act number fault) =
        some { system.setPhase number call after with
          files
          published := newlyPublished number phase after ++ system.published } := by
      simp [step, found, advanced, map_some]
    exact ⟨_, _, moved, Function.update_self .., nearer⟩

/-- Two calls race for one request: the first publishes, the second replays. A third has another
request; the record is damaged, and a fourth call quarantines it. -/
def race : List (ReplayAction (Except String ReplayRecord)) :=
  [.start 0 (.checkOrReserve ⟨"a"⟩), .start 1 (.checkOrReserve ⟨"a"⟩), .act 0 none, .act 1 none,
    .act 0 none, .act 1 none, .act 0 none, .act 1 none, .act 0 none, .act 0 none, .act 0 none,
    .act 1 none, .act 1 none, .act 0 none, .start 2 (.checkOrReserve ⟨"b"⟩), .act 2 none,
    .act 2 none, .damage (.error "trailing characters"), .start 3 (.checkOrReserve ⟨"a"⟩),
    .act 3 none, .act 3 none, .act 3 none, .act 3 none]

/-- Of two racing calls one executes. -/
theorem race_executed_once :
    ∃ system, run (step sampleContext) (initial false [] 5) race = some system ∧
      system.files.directory = some none ∧
      (∀ number call result, system.calls number = some (call, .returned result) →
        Answered system.published number call result) ∧
      system.published = [(0, .reserved "key" ⟨"a"⟩ 5)] ∧
      system.calls 1 = some (.checkOrReserve ⟨"a"⟩,
        .returned (.ok (.decision (.replay (.reserved "key" ⟨"a"⟩ 5))))) ∧
      system.calls 2 = some (.checkOrReserve ⟨"b"⟩,
        .returned (.error (.conflict "key" ⟨"a"⟩ ⟨"b"⟩))) :=
  ⟨_, rfl, rfl, (executed_at_most_once sampleContext false [] 5 race rfl).2.1, rfl, rfl, rfl⟩

end ReplaySystem

end Symforge.Idempotency
