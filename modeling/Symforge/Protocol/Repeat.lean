import Symforge.Idempotency.ReplayRecord
import Symforge.Library.Table
/-!
# Repeat notices

Model of the tracker of `protocol/repeat.rs`, which counts equal observations of one request, and
of the notice it gives. The digest of a body is a parameter.
-/

namespace Symforge.Protocol

open Library Idempotency Function List

/-- `result_status::ProjectEvidence`. -/
structure ProjectEvidence where
  projectId : String
  projectName : String
  canonicalRoot : Option String
  generation : UInt64
  indexState : String
  loadSource : String
  indexFiles : Nat
  indexSymbols : Nat
deriving DecidableEq

/-- `ObservedServe`, with the digest of the body or with the body. -/
structure ObservedServe (Body : Type) where
  evidence : ProjectEvidence
  body : Body
deriving DecidableEq

/-- How the sessions of a process are told apart. -/
inductive SessionDiscriminator where
  | stdio
  | httpInert
deriving DecidableEq

/-- What makes two serves the same. -/
structure RepeatKey where
  session : SessionDiscriminator
  epoch : UInt64
  tool : String
  requestHash : RequestHash
deriving DecidableEq

/-- What the caller is told about a repetition. -/
structure RepeatNotice where
  generation : UInt64
  repeatCount : Nat
  tool : String
  requestHash : RequestHash

/-- The serves of a key in a row with the same body. -/
structure RepeatRun (Digest : Type) where
  count : Nat
  observed : ObservedServe Digest

/-- The runs of a session, under a key each. -/
structure RepeatTracker (Digest : Type) where
  runs : Table RepeatKey (RepeatRun Digest) := ∅
  epoch : UInt64 := 0

/-- The serve from which on a notice is given. -/
def noticeThreshold : Nat := 3

/-- `REPEAT_TRACKER_MAX_ENTRIES`. -/
def maxEntries : Nat := 512

/-- `RepeatNotice::new`, on the generation of the witness. -/
def RepeatNotice.new (generation : UInt64) (count : Nat) (key : RepeatKey) : Option RepeatNotice :=
  if noticeThreshold ≤ count then some ⟨generation, count, key.tool, key.requestHash⟩ else none

/-- `RepeatTracker::record_serve`, of no observation where it is an unobserved one. -/
def RepeatTracker.recordServe {Digest : Type} [DecidableEq Digest] (tracker : RepeatTracker Digest)
    (key : RepeatKey) (observation : Option (ObservedServe Digest)) :
    Option RepeatNotice × RepeatTracker Digest :=
  if key.epoch ≠ tracker.epoch then (none, tracker)
  else match observation with
    | none => (none, { tracker with runs := tracker.runs.erase key })
    | some current =>
      match tracker.runs.lookup key with
      | some run =>
        if run.observed = current then
          let count := min (run.count + 1) (2 ^ 32 - 1)
          (RepeatNotice.new current.evidence.generation count key,
            { tracker with runs := tracker.runs.insert key ⟨count, current⟩ })
        else (none, { tracker with runs := tracker.runs.insert key ⟨1, current⟩ })
      | none =>
        let runs := if maxEntries ≤ tracker.runs.keys.length then ∅ else tracker.runs
        (none, { tracker with runs := runs.insert key ⟨1, current⟩ })

/-- `RepeatTracker::clear`. -/
def RepeatTracker.clear {Digest : Type} (tracker : RepeatTracker Digest) : RepeatTracker Digest :=
  { epoch := tracker.epoch + 1 }

/-- A call of the tracker, with the body of a serve that is observed. -/
inductive RepeatEvent (Body : Type) where
  | serve (key : RepeatKey) (observation : Option (ObservedServe Body))
  | clear

/-- A tracker with the serves of each key that it recorded since the last clear, capacity clear or
unobserved serve of the key, the latest first. -/
structure RepeatHistory (Body Digest : Type) where
  tracker : RepeatTracker Digest := {}
  recorded : RepeatKey → List (ObservedServe Body) := fun _ => []

variable {Body Digest : Type} (digest : Body → Digest)

/-- A serve with the digest for its body. -/
def digested (serve : ObservedServe Body) : ObservedServe Digest :=
  ⟨serve.evidence, digest serve.body⟩

namespace RepeatHistory

/-- One event of a session. -/
def step [DecidableEq Digest] (history : RepeatHistory Body Digest) :
    RepeatEvent Body → RepeatHistory Body Digest
  | .clear => { tracker := history.tracker.clear }
  | .serve key observation =>
    let before := history.tracker
    ⟨(before.recordServe key (observation.map (digested digest))).2,
      if key.epoch ≠ before.epoch then history.recorded
      else match observation with
        | none => update history.recorded key []
        | some serve =>
          let full := before.runs.lookup key = none ∧ maxEntries ≤ before.runs.keys.length
          let kept := if full then fun _ => [] else history.recorded
          update kept key (serve :: kept key)⟩

/-- The runs are few, and each counts the latest serves, all observed alike. -/
structure Sound (history : RepeatHistory Body Digest) : Prop where
  bounded : history.tracker.runs.keys.length ≤ maxEntries
  counted : ∀ key run, history.tracker.runs.lookup key = some run →
    run.count ≤ (history.recorded key).length ∧
      ∀ serve ∈ (history.recorded key).take run.count, digested digest serve = run.observed

variable {digest}

/-- An empty tracker is sound. -/
theorem Sound.empty (epoch : UInt64) : Sound digest { tracker := { epoch } } where
  bounded := Nat.zero_le _
  counted _ _ found := by cases found

variable {history : RepeatHistory Body Digest} {key : RepeatKey} {serve : ObservedServe Body}

/-- A serve that begins a run, or adds to one. -/
theorem Sound.insert {count : Nat} (sound : Sound digest history)
    (room : history.tracker.runs.lookup key = none →
      history.tracker.runs.keys.length < maxEntries)
    (counted : count ≤ 1 ∨ ∃ run, history.tracker.runs.lookup key = some run ∧
      run.observed = digested digest serve ∧ count ≤ run.count + 1) :
    Sound digest ⟨{ history.tracker with
        runs := history.tracker.runs.insert key ⟨count, digested digest serve⟩ },
      update history.recorded key (serve :: history.recorded key)⟩ where
  bounded := by
    have size := sound.bounded
    rw [AList.keys_insert, length_cons]
    by_cases held : key ∈ history.tracker.runs.keys
    · have shorter := length_erase_of_mem held
      have filled := length_pos_of_mem held
      omega
    · have fits := room (AList.lookup_eq_none.mpr held)
      rw [erase_of_not_mem held]
      exact fits
  counted other kept found := by
    dsimp only
    obtain ⟨rfl, rfl⟩ | ⟨apart, before⟩ := Table.lookup_insert_iff.mp found
    · rw [update_self, length_cons]
      obtain ⟨enough, alike⟩ : count - 1 ≤ (history.recorded other).length ∧
          ∀ earlier ∈ (history.recorded other).take (count - 1),
            digested digest earlier = digested digest serve := by
        obtain one | ⟨run, found, same, more⟩ := counted
        · simp [Nat.sub_eq_zero_of_le one]
        obtain ⟨enough, alike⟩ := sound.counted _ _ found
        rw [same] at alike
        exact ⟨by omega, fun earlier member =>
          alike _ (take_subset_take_left _ (by omega) member)⟩
      refine ⟨by dsimp only; omega, ?_⟩
      cases count with
      | zero => nofun
      | succ count => simpa using alike
    · rw [update_of_ne apart]
      exact sound.counted _ _ before

variable [DecidableEq Digest]

/-- The step lemma. -/
theorem Sound.step (sound : Sound digest history) (event : RepeatEvent Body) :
    Sound digest (history.step digest event) := by
  cases event with
  | clear => exact .empty _
  | serve key observation =>
    simp only [RepeatHistory.step, RepeatTracker.recordServe]
    split
    · exact sound
    cases observation with
    | none =>
      refine ⟨?_, fun other run found => ?_⟩
      · refine Nat.le_trans ?_ sound.bounded
        rw [Option.map_none, AList.keys_erase]
        exact length_erase_le
      · obtain ⟨apart, before⟩ := Table.lookup_erase_iff.mp found
        dsimp only
        rw [update_of_ne apart]
        exact sound.counted _ _ before
    | some serve =>
      simp only [Option.map_some]
      cases held : history.tracker.runs.lookup key with
      | some run =>
        have known : history.tracker.runs.lookup key ≠ none := by simp [held]
        simp only [reduceCtorEq, false_and, if_false]
        split
        · rename_i same
          exact sound.insert (fun none => absurd none known)
            (.inr ⟨_, held, same, Nat.min_le_left _ _⟩)
        · exact sound.insert (fun none => absurd none known) (.inl (Nat.le_refl 1))
      | none =>
        by_cases full : maxEntries ≤ history.tracker.runs.keys.length
        · simp only [full, and_self, if_true]
          exact (Sound.empty _).insert (fun _ => Nat.zero_lt_succ 511) (.inl (Nat.le_refl 1))
        · simp only [full, and_false, if_false]
          exact sound.insert (fun _ => Nat.lt_of_not_le full) (.inl (Nat.le_refl 1))

end RepeatHistory

variable [DecidableEq Digest]

/-- A notice is given in the current epoch, with the count of the run it leaves. -/
theorem recordServe_notice {tracker : RepeatTracker Digest} {key : RepeatKey}
    {observation : Option (ObservedServe Digest)} {notice : RepeatNotice}
    (given : (tracker.recordServe key observation).1 = some notice) :
    key.epoch = tracker.epoch ∧ ∃ current, (tracker.recordServe key observation).2.runs.lookup key =
        some ⟨notice.repeatCount, current⟩ := by
  unfold RepeatTracker.recordServe at given ⊢
  split at given
  · cases given
  rename_i epoch
  refine ⟨not_not.mp epoch, ?_⟩
  rw [if_neg epoch]
  cases observation with
  | none => cases given
  | some current =>
    cases held : tracker.runs.lookup key with
    | none =>
      simp only [held] at given
      cases given
    | some run =>
      simp only [held] at given ⊢
      split at given
      · rename_i same
        rw [if_pos same]
        unfold RepeatNotice.new at given
        split at given
        · cases given
          exact ⟨_, AList.lookup_insert _⟩
        · cases given
      · cases given

/-- Whatever was served and cleared before: the runs are few, a stale serve does nothing, and a
notice counts the latest recorded serves, all with the same evidence and, but for a collision of
digests, the same body. -/
theorem notice_truthful (digest : Body → Digest) (events : List (RepeatEvent Body))
    (key : RepeatKey) (observation : Option (ObservedServe Body)) :
    let before := events.foldl (RepeatHistory.step digest) {}
    let after := before.step digest (.serve key observation)
    before.tracker.runs.keys.length ≤ maxEntries ∧
      (key.epoch ≠ before.tracker.epoch →
        before.tracker.recordServe key (observation.map (digested digest)) =
          (none, before.tracker)) ∧
      ∀ notice,
        (before.tracker.recordServe key (observation.map (digested digest))).1 = some notice →
        key.epoch = before.tracker.epoch ∧
          notice.repeatCount ≤ (after.recorded key).length ∧
          ∀ one ∈ (after.recorded key).take notice.repeatCount,
            ∀ other ∈ (after.recorded key).take notice.repeatCount, one.evidence = other.evidence ∧
                (one.body = other.body ∨
                  one.body ≠ other.body ∧ digest one.body = digest other.body) := by
  have sound : (events.foldl (RepeatHistory.step digest) {}).Sound digest :=
    foldlRecOn _ _ (.empty 0) fun _ held event _ => held.step _
  refine ⟨sound.bounded, fun stale => if_pos stale, fun notice given => ?_⟩
  obtain ⟨epoch, current, found⟩ := recordServe_notice given
  obtain ⟨enough, alike⟩ := (sound.step (.serve _ observation)).counted _ _ found
  refine ⟨epoch, enough, fun one isOne other isOther => ?_⟩
  have same := (alike _ isOne).trans (alike _ isOther).symm
  obtain ⟨evidence, body⟩ := ObservedServe.mk.inj same
  exact ⟨evidence, (em (one.body = other.body)).imp_right fun apart => ⟨apart, body⟩⟩

/-- A request of the first epoch. -/
def sampleKey : RepeatKey := ⟨.stdio, 0, "get_symbol", ⟨"a"⟩⟩

/-- What is observed when it is served. -/
def sampleServe : ObservedServe String := ⟨⟨"p", "p", none, 1, "ready", "fresh", 1, 1⟩, "fn a"⟩

/-- The request is served twice. -/
def servedTwice : RepeatHistory String String :=
  [.serve sampleKey (some sampleServe), .serve sampleKey (some sampleServe)].foldl
    (RepeatHistory.step id) {}

/-- The third serve is noticed as the third. -/
theorem third_serve_noticed :
    (servedTwice.tracker.recordServe sampleKey (some sampleServe)).1 =
        some ⟨1, 3, "get_symbol", ⟨"a"⟩⟩ ∧
      3 ≤ ((servedTwice.step id (.serve sampleKey (some sampleServe))).recorded
        sampleKey).length := by
  have noticed : (servedTwice.tracker.recordServe sampleKey (some sampleServe)).1 =
    some ⟨1, 3, "get_symbol", ⟨"a"⟩⟩ := rfl
  exact ⟨noticed, ((notice_truthful id _ sampleKey (some sampleServe)).2.2 _ noticed).2.1⟩

end Symforge.Protocol
