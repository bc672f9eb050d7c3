import Mathlib.Data.List.Sort
import Mathlib.Data.List.FinRange
/-!
# The staged multi-file commit kernel

`edit_safety/batch_commit.rs`: every target is locked in the order of its canonical path, every
base image is checked, the replacements are written one after another, and a later failure rolls the
attempted targets back after looking at each. What the outcome says about the files holds for every
`BatchIo` whose comparisons are truthful and whose writes stay in their own file.
-/

namespace Symforge.Edit

open List

/-- `batch_commit::StagedImage`: an `original` of `none` has to be absent. -/
structure StagedImage where
  relative : String
  absolute : String
  original : Option (List UInt8)
  replacement : List UInt8
  ownerOnly : Bool
  deriving DecidableEq, Repr

/-- `batch_commit::BatchIo`, with its state passed along. -/
structure BatchIo (State Report : Type) where
  matchesImage : State → StagedImage → Option (List UInt8) → Except String Bool × State
  write : State → StagedImage → List UInt8 → Except String Report × State

/-- `batch_commit::BatchAbort`; indexes are positions in the staged list. -/
inductive BatchAbort (count : Nat) where
  | conflict (index : Fin count)
  | preflightUnavailable (index : Fin count)
  | cancelled (attempted restored : Nat) (uncertain : List (Fin count))
  | writeFailed (index : Fin count) (reason : String) (restored : Nat)
      (uncertain : List (Fin count))
  deriving DecidableEq, Repr

/-- The targets an abort reports as left in an unattested state. -/
def BatchAbort.uncertain {count : Nat} : BatchAbort count → List (Fin count)
  | .conflict _ | .preflightUnavailable _ => []
  | .cancelled _ _ uncertain | .writeFailed _ _ _ uncertain => uncertain

/-! ### Locking the targets -/

section Locks

variable {Key : Type} (canonicalLockKey : String → Option Key)

/-- A lock order for `images`, as `with_staged_locks` makes it: each index once, no key twice. -/
structure LockedOrder (images : List StagedImage) where
  entries : List (Key × Fin images.length)
  keyed : ∀ entry ∈ entries, canonicalLockKey (images.get entry.2).absolute = some entry.1
  complete : ∀ index, index ∈ entries.map Prod.snd
  distinct : (entries.map Prod.fst).Nodup

/-- The canonical keys of the images; the first path without one is unavailable. -/
def lockTargets (images : List StagedImage) :
    List (Fin images.length) → Except (BatchAbort images.length) (List (Key × Fin images.length))
  | [] => .ok []
  | index :: rest =>
    match canonicalLockKey (images.get index).absolute with
    | none => .error (.preflightUnavailable index)
    | some key =>
      match lockTargets images rest with
      | .error abort => .error abort
      | .ok entries => .ok ((key, index) :: entries)

/-- `order.windows(2).find(..)`: the second index of the first adjacent pair with one key. -/
def adjacentDuplicate {Index : Type} [DecidableEq Key] : List (Key × Index) → Option Index
  | [] => none
  | [_] => none
  | first :: second :: rest =>
    if first.1 = second.1 then some second.2 else adjacentDuplicate (second :: rest)

variable {canonicalLockKey}

/-- Every image gets its key. -/
theorem lockTargets_ok {images : List StagedImage} {indexes : List (Fin images.length)}
    {entries : List (Key × Fin images.length)}
    (collected : lockTargets canonicalLockKey images indexes = .ok entries) :
    entries.map Prod.snd = indexes ∧
      ∀ entry ∈ entries, canonicalLockKey (images.get entry.2).absolute = some entry.1 := by
  induction indexes generalizing entries with
  | nil =>
    cases collected
    exact ⟨rfl, by simp⟩
  | cons index rest ih =>
    unfold lockTargets at collected
    split at collected
    · cases collected
    rename_i key found
    split at collected
    · cases collected
    rename_i tail tailOk
    cases collected
    obtain ⟨indexed, keyed⟩ := ih tailOk
    refine ⟨by simp [indexed], ?_⟩
    exact forall_mem_cons.mpr ⟨found, keyed⟩

/-- In a list sorted by key the adjacent pairs decide whether any two keys are equal. -/
theorem adjacentDuplicate_none {Index : Type} [LinearOrder Key] {entries : List (Key × Index)}
    (sorted : entries.Pairwise fun left right => left.1 ≤ right.1)
    (none_found : adjacentDuplicate entries = none) : (entries.map Prod.fst).Nodup := by
  induction entries with
  | nil => simp
  | cons first rest ih =>
    cases rest with
    | nil => simp
    | cons second rest =>
      unfold adjacentDuplicate at none_found
      split at none_found
      · cases none_found
      rename_i differ
      rw [pairwise_cons] at sorted
      have tail := ih sorted.2 none_found
      have below : first.1 < second.1 := lt_of_le_of_ne (sorted.1 _ mem_cons_self) differ
      rw [map_cons, nodup_cons]
      refine ⟨?_, tail⟩
      intro member
      obtain ⟨entry, inRest, same⟩ := mem_map.mp member
      have reaches : second.1 ≤ entry.1 := by
        rcases mem_cons.mp inRest with rfl | later
        · exact le_rfl
        · exact (pairwise_cons.mp sorted.2).1 _ later
      exact absurd same (ne_of_gt (below.trans_le reaches))

variable (canonicalLockKey) in
/-- `batch_commit::with_staged_locks`, up to the call of its operation: the keys are sorted, and
refused when two are equal. -/
def withStagedLocks [LinearOrder Key] (images : List StagedImage) :
    Except (BatchAbort images.length) (LockedOrder canonicalLockKey images) :=
  match collected : lockTargets canonicalLockKey images (finRange images.length) with
  | .error abort => .error abort
  | .ok entries =>
    let order := entries.insertionSort fun left right => left.1 ≤ right.1
    match unique : adjacentDuplicate order with
    | some index => .error (.conflict index)
    | none => .ok
      { entries := order
        keyed := fun entry member =>
          (lockTargets_ok collected).2 entry ((mem_insertionSort _).mp member)
        complete := fun index => by
          have listed : index ∈ entries.map Prod.snd := by
            rw [(lockTargets_ok collected).1]
            exact mem_finRange index
          exact ((perm_insertionSort _ entries).map Prod.snd).mem_iff.mpr listed
        distinct :=
          haveI : IsTrans (Key × Fin images.length) fun left right => left.1 ≤ right.1 :=
            ⟨fun _ _ _ => le_trans⟩
          haveI : Std.Total fun left right : Key × Fin images.length => left.1 ≤ right.1 :=
            ⟨fun left right => le_total left.1 right.1⟩
          adjacentDuplicate_none (pairwise_insertionSort _ entries) unique }

end Locks

/-! ### Commit and rollback -/

section Commit

variable {State Report : Type} (io : BatchIo State Report) (images : List StagedImage)

/-- Why the write loop or the final attestation stopped. -/
inductive Halt (count : Nat) where
  | cancelled
  | failed (index : Fin count) (reason : String)
  deriving DecidableEq, Repr

/-- The state of a commit before any rollback. -/
inductive Progress (Report : Type) (count : Nat) where
  | refused (abort : BatchAbort count)
  | halted (halt : Halt count) (attempted : List (Fin count))
  | written (reports : List (Fin count × Report))
  deriving DecidableEq, Repr

/-- The first loop of `commit_staged_locked`: every target still holds its original image. -/
def preflight : List (Fin images.length) → State → Option (BatchAbort images.length) × State
  | [], state => (none, state)
  | index :: rest, state =>
    let image := images.get index
    match io.matchesImage state image image.original with
    | (.ok true, state) => preflight rest state
    | (.ok false, state) => (some (.conflict index), state)
    | (.error _, state) => (some (.preflightUnavailable index), state)

/-- The last loop of `commit_staged_locked`: every target holds its replacement. -/
def attest : List (Fin images.length) → State → Option (Fin images.length) × State
  | [], state => (none, state)
  | index :: rest, state =>
    let image := images.get index
    match io.matchesImage state image (some image.replacement) with
    | (.ok true, state) => attest rest state
    | (_, state) => (some index, state)

/-- The write loop of `commit_staged_locked`; `cancel` gives the loads of the signal. -/
def writeImages (cancel : Option (Nat → Bool)) (attempted : List (Fin images.length))
    (reports : List (Fin images.length × Report)) :
    List (Fin images.length) → State → Progress Report images.length × State
  | [], state => (.written reports, state)
  | index :: rest, state =>
    if cancel.any (fun signal => signal attempted.length) then
      (.halted .cancelled attempted, state)
    else
      let image := images.get index
      match io.write state image image.replacement with
      | (.error reason, state) => (.halted (.failed index reason) (attempted ++ [index]), state)
      | (.ok report, state) =>
        match io.matchesImage state image (some image.replacement) with
        | (.ok true, state) =>
          writeImages cancel (attempted ++ [index]) (reports ++ [(index, report)]) rest state
        | (_, state) =>
          (.halted (.failed index "post_image_unverified") (attempted ++ [index]), state)

variable (order : List (Fin images.length)) (cancel : Option (Nat → Bool)) (state : State)

/-- `commit_staged_locked` up to its rollback: the three loops in order. -/
def advance :
    Progress Report images.length × State :=
  match preflight io images order state with
  | (some abort, state) => (.refused abort, state)
  | (none, state) =>
    match writeImages io images cancel [] [] order state with
    | (.written reports, state) =>
      match attest io images order state with
      | (none, state) => (.written reports, state)
      | (some index, state) => (.halted (.failed index "batch_post_image_unverified") order, state)
    | stopped => stopped

/-- What the rollback found out about one attempted target. -/
inductive Recovery where
  | intact
  | restored
  | uncertain
  deriving DecidableEq, Repr

/-- The loop body of `rollback`. Of the restoring write only the comparison after it counts. -/
def rollbackImage (image : StagedImage) : Recovery × State :=
  match io.matchesImage state image image.original with
  | (.ok true, state) => (.intact, state)
  | (_, state) =>
    match io.matchesImage state image (some image.replacement) with
    | (.ok true, state) =>
      match image.original with
      | none => (.uncertain, state)
      | some original =>
        let (_, state) := io.write state image original
        match io.matchesImage state image (some original) with
        | (.ok true, state) => (.restored, state)
        | (_, state) => (.uncertain, state)
    | (_, state) => (.uncertain, state)

/-- The loop of `rollback`: the number restored, the uncertain ones, and the state. -/
def rollbackEach : List (Fin images.length) → State → Nat × List (Fin images.length) × State
  | [], state => (0, [], state)
  | index :: rest, state =>
    match rollbackImage io state (images.get index) with
    | (.intact, state) => rollbackEach rest state
    | (.restored, state) =>
      let (restored, uncertain, state) := rollbackEach rest state
      (restored + 1, uncertain, state)
    | (.uncertain, state) =>
      let (restored, uncertain, state) := rollbackEach rest state
      (restored, index :: uncertain, state)

/-- `batch_commit::rollback`: the last attempted target first. -/
def rollback (attempted : List (Fin images.length)) :
    Nat × List (Fin images.length) × State :=
  rollbackEach io images attempted.reverse state

/-- `batch_commit::commit_staged_locked`: wherever the loops stop once a write was due, the
attempted targets are rolled back. -/
def commitStagedLocked :
    Except (BatchAbort images.length) (List (Fin images.length × Report)) × State :=
  match advance io images order cancel state with
  | (.refused abort, state) => (.error abort, state)
  | (.written reports, state) => (.ok reports, state)
  | (.halted halt attempted, state) =>
    let (restored, uncertain, state) := rollback io images state attempted
    match halt with
    | .cancelled => (.error (.cancelled attempted.length restored uncertain), state)
    | .failed index reason => (.error (.writeFailed index reason restored uncertain), state)

/-- `batch_commit::commit_staged`. -/
def commitStaged {Key : Type} [LinearOrder Key] (canonicalLockKey : String → Option Key)
    (cancel : Option (Nat → Bool)) (state : State) :
    Except (BatchAbort images.length) (List (Fin images.length × Report)) × State :=
  match withStagedLocks canonicalLockKey images with
  | .error abort => (.error abort, state)
  | .ok order => commitStagedLocked io images (order.entries.map Prod.snd) cancel state

end Commit

/-! ### File systems the kernel can rely on -/

/-- A `BatchIo` over files named by their lock key: a comparison that answers is right and leaves
the files alone, a write leaves the other files alone. `writes` is the log of the write calls. -/
structure HonestIo {State Report Key : Type} (canonicalLockKey : String → Option Key)
    (io : BatchIo State Report) where
  file : State → Key → Option (List UInt8)
  writes : State → List (StagedImage × List UInt8)
  matches_file : ∀ state image expected, file (io.matchesImage state image expected).2 = file state
  matches_writes : ∀ state image expected,
    writes (io.matchesImage state image expected).2 = writes state
  matches_truthful : ∀ state image expected key answer, canonicalLockKey image.absolute = some key →
    (io.matchesImage state image expected).1 = .ok answer →
    (answer = true ↔ file state key = expected)
  write_elsewhere : ∀ state image bytes key, canonicalLockKey image.absolute ≠ some key →
    file (io.write state image bytes).2 key = file state key
  write_writes : ∀ state image bytes,
    writes (io.write state image bytes).2 = writes state ++ [(image, bytes)]

section Honest

variable {State Report Key : Type} {canonicalLockKey : String → Option Key}
  {io : BatchIo State Report} {images : List StagedImage}

/-- What the target of an image holds: its bytes, or `none` when it is absent. -/
def HonestIo.target (honest : HonestIo canonicalLockKey io) (state : State) (image : StagedImage) :
    Option (List UInt8) :=
  (canonicalLockKey image.absolute).bind (honest.file state)

/-- Every image is among the locked ones. -/
theorem LockedOrder.exists_key (order : LockedOrder canonicalLockKey images)
    (index : Fin images.length) :
    ∃ key, (key, index) ∈ order.entries ∧
      canonicalLockKey (images.get index).absolute = some key := by
  obtain ⟨entry, member, rfl⟩ := mem_map.mp (order.complete index)
  exact ⟨entry.1, member, order.keyed _ member⟩

/-- Two staged images with one target are the same entry of the batch. -/
theorem LockedOrder.index_eq (order : LockedOrder canonicalLockKey images)
    {left right : Fin images.length}
    (same : canonicalLockKey (images.get left).absolute =
      canonicalLockKey (images.get right).absolute) : left = right := by
  obtain ⟨leftKey, leftIn, leftKeyed⟩ := order.exists_key _
  obtain ⟨rightKey, rightIn, rightKeyed⟩ := order.exists_key _
  rw [leftKeyed, rightKeyed, Option.some.injEq] at same
  subst same
  have entries_eq := inj_on_of_nodup_map order.distinct leftIn rightIn rfl
  exact congrArg Prod.snd entries_eq

variable {index : Fin images.length} {state : State} {attempted : List (Fin images.length)}
  {expected : Option (List UInt8)}

/-- The base check refuses with a conflict or an unreadable target, nothing else. -/
theorem preflight_refusal (indexes : List (Fin images.length)) (state : State)
    {abort : BatchAbort images.length}
    (refused : (preflight io images indexes state).1 = some abort) :
    ∃ index, abort = .conflict index ∨ abort = .preflightUnavailable index := by
  induction indexes generalizing state with
  | nil => cases refused
  | cons index rest ih =>
    rcases called : io.matchesImage state (images.get index) (images.get index).original with
      ⟨_ | _ | _, next⟩ <;> simp only [preflight, called, Option.some.injEq] at refused
    · exact ⟨index, .inr refused.symm⟩
    · exact ⟨index, .inl refused.symm⟩
    · exact ih _ refused

/-- The rollback goes on from the next state. -/
theorem rollbackEach_state (rest : List (Fin images.length)) :
    (rollbackEach io images (index :: rest) state).2.2 =
      (rollbackEach io images rest (rollbackImage io state (images.get index)).2).2.2 := by
  rcases looked : rollbackImage io state (images.get index) with ⟨_ | _ | _, next⟩ <;>
    simp only [rollbackEach, looked]

/-- The uncertain images, one by one. -/
theorem mem_rollbackEach_uncertain (other : Fin images.length)
    (rest : List (Fin images.length)) :
    other ∈ (rollbackEach io images (index :: rest) state).2.1 ↔
      ((rollbackImage io state (images.get index)).1 = .uncertain ∧ other = index) ∨
        other ∈
          (rollbackEach io images rest (rollbackImage io state (images.get index)).2).2.1 := by
  rcases looked : rollbackImage io state (images.get index) with ⟨_ | _ | _, next⟩ <;>
    simp only [rollbackEach, looked, mem_cons, reduceCtorEq, true_and, false_and, false_or]

/-- The rollback in two parts: the targets before `index` and those from it on. -/
theorem rollbackEach_append (before after : List (Fin images.length))
    (state : State) :
    let seen := (rollbackEach io _ before state).2.2
    (rollbackEach io images (before ++ after) state).2.2 =
        (rollbackEach io images after seen).2.2 ∧
      ∀ other ∈ (rollbackEach io images after seen).2.1,
        other ∈ (rollbackEach io _ (before ++ after) state).2.1 := by
  induction before generalizing state with
  | nil => exact ⟨rfl, fun _ member => member⟩
  | cons index rest ih =>
    obtain ⟨sameState, uncertain⟩ := ih (rollbackImage io _ (images.get index)).2
    rw [cons_append, rollbackEach_state, rollbackEach_state]
    refine ⟨sameState, ?_⟩
    intro other member
    exact (mem_rollbackEach_uncertain _ _).mpr (.inr (uncertain _ member))

namespace HonestIo

variable (honest : HonestIo canonicalLockKey io)

/-- `later` is `earlier` with some more writes, none of them for `image`. -/
def Spared (earlier later : State) (image : StagedImage) : Prop :=
  honest.target later image = honest.target earlier image ∧
    ∃ issued, honest.writes later = honest.writes earlier ++ issued ∧
      ∀ call ∈ issued, canonicalLockKey call.1.absolute ≠ canonicalLockKey image.absolute

/-- Every target that is not in `attempted` still holds its original image. -/
def UntouchedOutside (attempted : List (Fin images.length)) (state : State) : Prop :=
  ∀ index, index ∉ attempted →
    honest.target state (images.get index) = (images.get index).original

/-- The write loop touched only what it attempted, or all of `targets` at its end. -/
def TouchedOnly (targets : List (Fin images.length)) : Progress Report images.length × State → Prop
  | (.refused _, _) => False
  | (.halted _ attempted, next) => honest.UntouchedOutside attempted next
  | (.written _, next) => honest.UntouchedOutside targets next

/-- The rollback of a target spares the others; it holds its original unless reported uncertain; a
third image found there is reported and spared. -/
structure RolledBack (honest : HonestIo canonicalLockKey io)
    (index : Fin images.length) (state : State) (recovery : Recovery) (next : State) : Prop where
  others : ∀ other, other ≠ index → honest.Spared state next (images.get other)
  original : recovery ≠ .uncertain →
    honest.target next (images.get index) = (images.get index).original
  third : honest.target state (images.get index) ≠ (images.get index).original →
    honest.target state (images.get index) ≠ some (images.get index).replacement →
    recovery = .uncertain ∧ honest.Spared state next (images.get index)

/-- What is known when the loops of a commit have stopped and no rollback has begun. -/
def Reached (state : State) : Progress Report images.length × State → Prop
  | (.refused abort, next) => honest.writes next = honest.writes state ∧
    ∃ index, abort = .conflict index ∨ abort = .preflightUnavailable index
  | (.halted _ attempted, next) => honest.UntouchedOutside attempted next
  | (.written _, next) => ∀ index,
    honest.target next (images.get index) = some (images.get index).replacement

/-- What an outcome of `commit_staged_locked` says about the files. -/
structure Settled (honest : HonestIo canonicalLockKey io)
    (order : LockedOrder canonicalLockKey images) (cancel : Option (Nat → Bool)) (state : State)
    (result : Except (BatchAbort images.length) (List (Fin images.length × Report)))
    (final : State) : Prop where
  /-- Success means every target holds its replacement. -/
  committed : ∀ reports, result = .ok reports → ∀ index,
    honest.target final (images.get index) = some (images.get index).replacement
  /-- A refusal issued no write. -/
  refused : ∀ index, result = .error (.conflict index) ∨
    result = .error (.preflightUnavailable index) → honest.writes final = honest.writes state
  cancelled : ∀ attempted restored, result = .error (.cancelled attempted restored []) →
    ∀ index, honest.target final (images.get index) = (images.get index).original
  writeFailed : ∀ failed reason restored, result = .error (.writeFailed failed reason restored []) →
    ∀ index, honest.target final (images.get index) = (images.get index).original
  /-- When the loops halt in `start` the rollback visits `attempted` backwards; a target that holds
  neither image in the state in which it is inspected is reported and spared from there on. -/
  third : ∀ halt attempted start, advance io images (order.entries.map Prod.snd) cancel state =
      (.halted halt attempted, start) →
    ∀ before index after, attempted.reverse = before ++ index :: after →
    honest.target (rollbackEach io images before start).2.2 (images.get index) ≠
      (images.get index).original →
    honest.target (rollbackEach io images before start).2.2 (images.get index) ≠
      some (images.get index).replacement →
    (∃ abort, result = .error abort ∧ index ∈ abort.uncertain) ∧
      honest.Spared (rollbackEach io images before start).2.2 final (images.get index)

variable {honest : HonestIo canonicalLockKey io}

/-- Nothing done, nothing touched. -/
theorem Spared.refl (state : State) (image : StagedImage) : honest.Spared state state image :=
  ⟨rfl, [], by simp, by simp⟩

/-- Spared twice is spared. -/
theorem Spared.trans {first second third : State} {image : StagedImage}
    (earlier : honest.Spared first second image) (later : honest.Spared second third image) :
    honest.Spared first third image := by
  obtain ⟨sameEarlier, issued, logged, other⟩ := earlier
  obtain ⟨sameLater, issued', logged', other'⟩ := later
  refine ⟨sameLater.trans sameEarlier, issued ++ issued', ?_, ?_⟩
  · rw [logged', logged, append_assoc]
  · exact forall_mem_append.mpr ⟨other, other'⟩

variable {next : State}

/-- Only the files matter. -/
theorem UntouchedOutside.of_file (untouched : honest.UntouchedOutside attempted state)
    (sameFile : honest.file next = honest.file state) :
    honest.UntouchedOutside attempted next := by
  intro other outside
  rw [target, sameFile]
  exact untouched _ outside

/-- An uncertain rollback may leave all. -/
theorem RolledBack.uncertain_of_spared (spared : ∀ image, honest.Spared state next image) :
    honest.RolledBack index state .uncertain next where
  others := fun _ _ => spared (images.get _)
  original := fun certain => absurd rfl certain
  third := fun _ _ => ⟨rfl, spared (images.get _)⟩

/-! ### What the loops leave behind -/

variable (honest) (order : LockedOrder canonicalLockKey images)
include order

/-- A comparison that answers decides what the target holds. -/
theorem target_of_answer {answer : Bool}
    (answered : (io.matchesImage state (images.get index) expected).1 = .ok answer) :
    answer = true ↔ honest.target state (images.get index) = expected := by
  obtain ⟨key, -, keyed⟩ := order.exists_key _
  have truthful := honest.matches_truthful _ _ _ _ _ keyed answered
  rw [target, keyed, Option.bind_some]
  exact truthful

variable {bytes : List UInt8}

/-- A write to one target leaves the others of the batch as they were. -/
theorem target_write_of_ne {other : Fin images.length}
    (differ : other ≠ index) :
    honest.target (io.write state (images.get index) bytes).2 (images.get other) =
      honest.target state (images.get other) := by
  obtain ⟨key, -, keyed⟩ := order.exists_key _
  have elsewhere : canonicalLockKey (images.get index).absolute ≠ some key := by
    intro same
    exact differ (order.index_eq (keyed.trans same.symm))
  simp only [target, keyed, Option.bind_some]
  exact honest.write_elsewhere _ _ _ _ elsewhere

/-- A write spares the other images. -/
theorem spared_write {other : Fin images.length} (differ : other ≠ index) :
    honest.Spared state (io.write state (images.get index) bytes).2 (images.get other) := by
  refine ⟨honest.target_write_of_ne order differ, [(images.get index, bytes)],
    honest.write_writes _ _ bytes, forall_mem_singleton.mpr ?_⟩
  exact fun same => differ (order.index_eq same).symm

/-- One comparison: files and log are as before, and an answer is right. -/
theorem compared {answer : Except String Bool}
    (called : io.matchesImage state (images.get index) expected = (answer, next)) :
    honest.file next = honest.file state ∧ honest.writes next = honest.writes state ∧
      ∀ verdict, answer = .ok verdict →
        (verdict = true ↔ honest.target state (images.get index) = expected) := by
  have sameFile := honest.matches_file state (images.get index) expected
  have sameWrites := honest.matches_writes state (images.get index) expected
  rw [called] at sameFile sameWrites
  refine ⟨sameFile, sameWrites, ?_⟩
  intro verdict answered
  apply honest.target_of_answer order
  rw [called]
  exact answered

variable (indexes : List (Fin images.length))

/-- The base check writes nothing; when it passes, every target holds its original. -/
theorem preflight_spec (state : State) :
    let (refusal, next) := preflight io _ indexes state
    honest.file next = honest.file state ∧ honest.writes next = honest.writes state ∧
      (refusal = none → ∀ index ∈ indexes,
        honest.target state (images.get index) = (images.get index).original) := by
  induction indexes generalizing state with
  | nil => exact ⟨rfl, rfl, by simp⟩
  | cons index rest ih =>
    rcases called : io.matchesImage state (images.get index) (images.get index).original with
      ⟨_ | _ | _, next⟩ <;>
      obtain ⟨sameFile, sameWrites, decided⟩ := honest.compared order called <;>
      simp only [preflight, called]
    · exact ⟨sameFile, sameWrites, by simp⟩
    · exact ⟨sameFile, sameWrites, by simp⟩
    obtain ⟨restFile, restWrites, restHeld⟩ := ih next
    simp only [target, sameFile] at restHeld
    exact ⟨restFile.trans sameFile, restWrites.trans sameWrites, fun passed =>
      forall_mem_cons.mpr ⟨(decided true rfl).mp rfl, restHeld passed⟩⟩

/-- The attestation changes no file; when it passes, every target holds its replacement. -/
theorem attest_spec (state : State) :
    let (failure, next) := attest io _ indexes state
    honest.file next = honest.file state ∧
      (failure = none → ∀ index ∈ indexes,
        honest.target state (images.get index) = some (images.get index).replacement) := by
  induction indexes generalizing state with
  | nil => exact ⟨rfl, by simp⟩
  | cons index rest ih =>
    rcases called : io.matchesImage state (images.get index)
        (some (images.get index).replacement) with ⟨_ | _ | _, next⟩ <;>
      obtain ⟨sameFile, -, decided⟩ := honest.compared order called <;>
      simp only [attest, called]
    · exact ⟨sameFile, by simp⟩
    · exact ⟨sameFile, by simp⟩
    obtain ⟨restFile, restHeld⟩ := ih next
    simp only [target, sameFile] at restHeld
    exact ⟨restFile.trans sameFile, fun passed =>
      forall_mem_cons.mpr ⟨(decided true rfl).mp rfl, restHeld passed⟩⟩

/-- A write touches its own image only. -/
theorem UntouchedOutside.write {honest : HonestIo canonicalLockKey io}
    (untouched : honest.UntouchedOutside attempted state) (index : Fin images.length)
    (bytes : List UInt8) :
    honest.UntouchedOutside (attempted ++ [index])
      (io.write state (images.get index) bytes).2 := by
  intro other outside
  rw [mem_append, mem_singleton, not_or] at outside
  rw [honest.target_write_of_ne order outside.2]
  exact untouched _ outside.1

variable (cancel : Option (Nat → Bool))

/-- The writes touch the images they attempt. -/
theorem writeImages_touchedOnly
    (remaining attempted : List (Fin images.length)) (reports : List (Fin images.length × Report))
    (state : State) (untouched : honest.UntouchedOutside attempted state) :
    honest.TouchedOnly (attempted ++ remaining)
      (writeImages io images cancel attempted reports remaining state) := by
  induction remaining generalizing attempted reports state with
  | nil =>
    rw [append_nil]
    exact untouched
  | cons index rest ih =>
    have afterWrite := untouched.write order index (images.get index).replacement
    unfold writeImages
    split
    · exact untouched
    dsimp only
    rcases wrote : io.write state (images.get index) (images.get index).replacement with
      ⟨_ | report, written⟩ <;> rw [wrote] at afterWrite
    · exact afterWrite
    rcases called : io.matchesImage written (images.get index)
      (some (images.get index).replacement) with ⟨_ | _ | _, next⟩ <;>
      have kept := afterWrite.of_file (honest.compared order called).1
    · simp only [called]
      exact kept
    · simp only [called]
      exact kept
    · have after := ih (attempted ++ [index]) (reports ++ [(index, report)]) next kept
      simpa only [called, append_assoc, singleton_append] using after

/-- A comparison spares all images. -/
theorem spared_compared {answer : Except String Bool}
    (called : io.matchesImage state (images.get index) expected = (answer, next))
    (image : StagedImage) : honest.Spared state next image := by
  obtain ⟨sameFile, sameWrites, -⟩ := honest.compared order called
  exact ⟨by rw [target, sameFile, target], [], by simp [sameWrites], by simp⟩

/-- What one rollback does. -/
theorem rollbackImage_rolledBack (index : Fin images.length) (state : State) :
    honest.RolledBack index state (rollbackImage io state (images.get index)).1
      (rollbackImage io state (images.get index)).2 := by
  unfold rollbackImage
  split
  · rename_i looked first
    have spared := honest.spared_compared order first
    have held := ((honest.compared order first).2.2 true rfl).mp rfl
    exact ⟨fun other _ => spared _, fun _ => (spared _).1.trans held,
      fun third => absurd held third⟩
  rename_i looked _ first
  have sparedFirst := honest.spared_compared order first
  split
  · rename_i matched second
    have sparedSecond := fun image =>
      (sparedFirst image).trans (honest.spared_compared order second image)
    have replaced : honest.target state (images.get index) =
        some (images.get index).replacement :=
      (sparedFirst _).1.symm.trans (((honest.compared order second).2.2 true rfl).mp rfl)
    split
    · exact .uncertain_of_spared sparedSecond
    rename_i bytes hasOriginal
    have wrote : ∀ other, other ≠ index → honest.Spared state
        (io.write matched (images.get index) bytes).2 (images.get other) := fun other differ =>
      (sparedSecond _).trans (honest.spared_write order differ)
    dsimp only
    split
    · rename_i last third
      refine ⟨?_, ?_, fun _ notReplaced => absurd replaced notReplaced⟩
      · intro other differ
        exact (wrote _ differ).trans (honest.spared_compared order third _)
      · intro _
        rw [hasOriginal, (honest.spared_compared order third _).1]
        exact ((honest.compared order third).2.2 true rfl).mp rfl
    · rename_i last _ third
      refine ⟨?_, fun certain => absurd rfl certain,
        fun _ notReplaced => absurd replaced notReplaced⟩
      intro other differ
      exact (wrote _ differ).trans (honest.spared_compared order third _)
  · rename_i matched _ second
    exact .uncertain_of_spared fun image =>
      (sparedFirst image).trans (honest.spared_compared order second image)

variable (visited : List (Fin images.length))

/-- A rollback spares every target it does not visit. -/
theorem rollbackEach_spared (state : State) (outside : index ∉ visited) :
    honest.Spared state (rollbackEach io images visited state).2.2 (images.get index) := by
  induction visited generalizing state with
  | nil => exact .refl _ _
  | cons head rest ih =>
    rw [mem_cons, not_or] at outside
    rw [rollbackEach_state]
    have first := (honest.rollbackImage_rolledBack order _ state).others _ outside.1
    exact first.trans (ih _ outside.2)

/-- A visited target that the rollback does not report holds its original image. -/
theorem rollbackEach_original (state : State)
    (member : index ∈ visited) (certain : index ∉ (rollbackEach io images visited state).2.1) :
    honest.target (rollbackEach io images visited state).2.2 (images.get index) =
      (images.get index).original := by
  induction visited generalizing state with
  | nil => cases member
  | cons head rest ih =>
    rw [mem_rollbackEach_uncertain, not_or] at certain
    rw [rollbackEach_state]
    by_cases later : index ∈ rest
    · exact ih _ later certain.2
    have isHead : index = head := (mem_cons.mp member).resolve_right later
    subst isHead
    have recovered := (honest.rollbackImage_rolledBack order _ _).original
      fun reported => certain.1 ⟨reported, rfl⟩
    exact ((honest.rollbackEach_spared order _ _ later).1).trans recovered

/-- A target with a third image keeps it, and is reported if it is visited. -/
theorem rollbackEach_third (state : State)
    (notOriginal : honest.target state (images.get index) ≠ (images.get index).original)
    (notReplacement :
      honest.target state (images.get index) ≠ some (images.get index).replacement) :
    honest.Spared state (rollbackEach io images visited state).2.2 (images.get index) ∧
      (index ∈ visited → index ∈ (rollbackEach io images visited state).2.1) := by
  induction visited generalizing state with
  | nil => exact ⟨.refl _ _, fun member => by cases member⟩
  | cons head rest ih =>
    have rolled := honest.rollbackImage_rolledBack order head state
    have spared : honest.Spared state (rollbackImage io state (images.get head)).2
        (images.get index) := by
      by_cases isHead : index = head
      · subst isHead
        exact (rolled.third notOriginal notReplacement).2
      · exact rolled.others _ isHead
    obtain ⟨sparedRest, reportedRest⟩ := ih _ (by rwa [spared.1]) (by rwa [spared.1])
    rw [rollbackEach_state, mem_rollbackEach_uncertain]
    refine ⟨spared.trans sparedRest, ?_⟩
    intro member
    rcases mem_cons.mp member with rfl | later
    · exact .inl ⟨(rolled.third notOriginal notReplacement).1, rfl⟩
    · exact .inr (reportedRest later)

/-- A refusal wrote nothing, a halt touched only what it lists, and a full pass left every target
with its replacement. -/
theorem advance_reached (state : State) :
    honest.Reached state (advance io images (order.entries.map Prod.snd) cancel state) := by
  have base := honest.preflight_spec order (order.entries.map Prod.snd) state
  unfold advance
  rcases checked : preflight io images (order.entries.map Prod.snd) state with ⟨_ | abort, start⟩
  · rw [checked] at base
    have untouched : honest.UntouchedOutside ([] : List (Fin images.length)) start := by
      intro index _
      rw [target, base.1]
      exact base.2.2 rfl index (order.complete _)
    have touched := honest.writeImages_touchedOnly order cancel (order.entries.map Prod.snd) [] []
      start untouched
    dsimp only
    rcases wrote : writeImages io images cancel [] [] (order.entries.map Prod.snd) start with
      ⟨abort | ⟨halt, attempted⟩ | reports, written⟩ <;> rw [wrote] at touched
    · exact touched.elim
    · exact touched
    have attested := honest.attest_spec order (order.entries.map Prod.snd) written
    dsimp only
    rcases checkedAll : attest io images (order.entries.map Prod.snd) written with
      ⟨_ | failed, last⟩ <;> rw [checkedAll] at attested
    · intro index
      rw [target, attested.1]
      exact attested.2 rfl index (order.complete index)
    · exact UntouchedOutside.of_file touched attested.1
  · rw [checked] at base
    exact ⟨base.2.1, preflight_refusal _ state (by rw [checked])⟩

/-- A rollback that reports nothing left every target of the batch with its original image. -/
theorem rollback_original (untouched : honest.UntouchedOutside attempted state)
    (clean : (rollback io images state attempted).2.1 = []) (index : Fin images.length) :
    honest.target (rollback io images state attempted).2.2 (images.get index) =
      (images.get index).original := by
  by_cases visited : index ∈ attempted.reverse
  · apply honest.rollbackEach_original order _ _ visited
    rw [rollback] at clean
    rw [clean]
    exact not_mem_nil
  · have spared := honest.rollbackEach_spared order attempted.reverse state visited
    rw [rollback, spared.1]
    exact untouched index fun member => visited (mem_reverse.mpr member)

/-- A target that holds a third image when the rollback comes to it is reported and spared. -/
theorem rollback_third {before after : List (Fin images.length)} (start : State)
    (visits : attempted.reverse = before ++ index :: after)
    (notOriginal : honest.target (rollbackEach io images before start).2.2 (images.get index) ≠
      (images.get index).original)
    (notReplacement : honest.target (rollbackEach io images before start).2.2
      (images.get index) ≠ some (images.get index).replacement) :
    index ∈ (rollback io images start attempted).2.1 ∧
      honest.Spared (rollbackEach io images before start).2.2
        (rollback io images start attempted).2.2 (images.get index) := by
  obtain ⟨spared, reported⟩ := honest.rollbackEach_third order (index :: after) _
    notOriginal notReplacement
  obtain ⟨sameState, uncertain⟩ := rollbackEach_append _ (index :: after) _
  rw [rollback, visits, sameState]
  exact ⟨uncertain _ (reported mem_cons_self), spared⟩

/-- For every batch with distinct lock keys, every state, cancellation and honest `BatchIo`, the
outcome of the staged commit is what the files show. -/
theorem commitStagedLocked_settled (cancel : Option (Nat → Bool)) (state : State) :
    honest.Settled order cancel state
      (commitStagedLocked io images (order.entries.map Prod.snd) cancel state).1
      (commitStagedLocked io images (order.entries.map Prod.snd) cancel state).2 := by
  have reached := honest.advance_reached order cancel state
  unfold commitStagedLocked
  rcases stop : advance io images (order.entries.map Prod.snd) cancel state with
    ⟨abort | ⟨halt, attempted⟩ | reports, start⟩ <;> rw [stop] at reached
  · obtain ⟨unwritten, index, rfl | rfl⟩ := reached
    all_goals
      exact ⟨by simp, fun _ _ => unwritten, by simp, by simp, by simp [stop]⟩
  · have original := fun clean => honest.rollback_original order reached clean
    cases halt with
    | cancelled | failed =>
      refine ⟨by simp, by simp, ?_, ?_, ?_⟩
      · intro count restored aborted
        simp only [Except.error.injEq, BatchAbort.cancelled.injEq, reduceCtorEq] at aborted
        try exact original aborted.2.2
      · intro failed reason restored aborted
        simp only [Except.error.injEq, BatchAbort.writeFailed.injEq, reduceCtorEq] at aborted
        try exact original aborted.2.2.2
      · intro halt listed begun stopped before index after visits notOriginal notReplacement
        rw [stop] at stopped
        cases stopped
        obtain ⟨reported, spared⟩ := honest.rollback_third order _ visits notOriginal notReplacement
        exact ⟨⟨_, rfl, reported⟩, spared⟩
  · refine ⟨fun _ _ => reached, by simp, by simp, by simp, by simp [stop]⟩

end HonestIo

end Honest

/-! ### A file system with one failing target -/

/-- Files by path, and the log of the writes. -/
abbrev MemoryFiles := (String → Option (List UInt8)) × List (StagedImage × List UInt8)

/-- Files in memory; a write to `torn` fails and leaves that file empty. -/
def memoryIo (torn : String) : BatchIo MemoryFiles Unit where
  matchesImage state image expected := (.ok (decide (state.1 image.absolute = expected)), state)
  write state image bytes :=
    let log := state.2 ++ [(image, bytes)]
    if image.absolute = torn then
      (.error "write_failed", Function.update state.1 image.absolute (some []), log)
    else (.ok (), Function.update state.1 image.absolute (some bytes), log)

/-- The files in memory keep to the contract. -/
def memoryHonest (torn : String) : HonestIo some (memoryIo torn) where
  file := Prod.fst
  writes := Prod.snd
  matches_file := fun _ _ _ => rfl
  matches_writes := fun _ _ _ => rfl
  matches_truthful := by
    intro state image expected key answer keyed answered
    cases keyed
    cases answered
    exact decide_eq_true_iff
  write_elsewhere := by
    intro state image bytes key elsewhere
    have differ : key ≠ image.absolute := fun same => elsewhere (congrArg some same.symm)
    unfold memoryIo
    dsimp only
    split <;> exact Function.update_of_ne differ _ _
  write_writes := by
    intro state image bytes
    unfold memoryIo
    dsimp only
    split <;> rfl

/-- Two images to write. -/
def twoFiles : List StagedImage :=
  [⟨"a", "a", some [1], [2], false⟩, ⟨"b", "b", some [3], [4], false⟩]

/-- The first of them. -/
def fileA : Fin twoFiles.length := ⟨0, by decide⟩

/-- The second of them. -/
def fileB : Fin twoFiles.length := ⟨1, by decide⟩

/-- Their order under the locks. -/
def twoFilesOrder : LockedOrder some twoFiles where
  entries := [("a", fileA), ("b", fileB)]
  keyed := by decide
  complete := by decide
  distinct := by decide

/-- Both files as they were read. -/
def twoFilesStart : MemoryFiles :=
  (fun path => if path = "a" then some [1] else if path = "b" then some [3] else none, [])

/-- The second write tears its file: the first is restored, the torn one reported. -/
theorem torn_write_settled :
    (commitStagedLocked (memoryIo "b") twoFiles [fileA, fileB] none twoFilesStart).1 =
        .error (.writeFailed fileB "write_failed" 1 [fileB]) ∧
      (memoryHonest "b").Settled twoFilesOrder none twoFilesStart
        (commitStagedLocked (memoryIo "b") twoFiles [fileA, fileB] none twoFilesStart).1
        (commitStagedLocked (memoryIo "b") twoFiles [fileA, fileB] none twoFilesStart).2 :=
  ⟨rfl, (memoryHonest "b").commitStagedLocked_settled twoFilesOrder none twoFilesStart⟩

end Symforge.Edit
