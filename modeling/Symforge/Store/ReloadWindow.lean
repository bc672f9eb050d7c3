import Symforge.Library.Sequence
import Symforge.Store.Freshness

/-!
# What a reload makes of the changes in its window

The merge of a reload carries the rows of the live index that changed since its watermark into the
candidate read from disk, where it lacks them, and refuses when it holds other content of them. It
looks at rows that are there and at hashes alone: a row that was removed is not looked at, nor is
one whose content is again that of the watermark.
-/

namespace Symforge.Store

open Library Symforge.Store.LiveIndex List Follows Option Store.System

section Merge

variable {env : Environment} {watermark candidate live : LiveIndex} {carryPanics : String → Bool}

/-- What a merge of these rows has done when it returns. -/
structure Merges (watermark : LiveIndex) (current : List (Sigma fun _ : String => IndexedFile))
    (candidate live : LiveIndex) : Prop where
  rows : ∀ path, live.row path = (candidate.row path).or ((current.dlookup path).filter
    fun file => livePathChangedSinceReloadWatermark watermark file path)
  root : live.indexedRoot = candidate.indexedRoot

variable {file : IndexedFile}

/-- An update puts one row. -/
theorem updateFile_row (index : LiveIndex) (path : String) :
    (index.updateFile env path file).row = Function.update index.row path (some file) := by
  funext other
  rw [row, updateFile, (index.updateFileWithManifest_parts _ _ _ true).1]
  by_cases here : other = path
  · subst here
    simp
  · simp [here, row]

/-- A row is left to the candidate, which holds it where it changed, or it is carried. -/
theorem mergeRow_cases {path : String}
    (merged : mergeRow env watermark carryPanics candidate ⟨path, file⟩ = .ok live) :
    (live = candidate ∧ (livePathChangedSinceReloadWatermark watermark file path = true →
      ∃ existing, candidate.row path = some existing)) ∨
    (livePathChangedSinceReloadWatermark watermark file path = true ∧
      candidate.row path = none ∧ live = candidate.updateFile env path file) := by
  unfold mergeRow at merged
  split at merged
  · rename_i unchanged
    cases merged
    refine .inl ⟨rfl, fun changed => ?_⟩
    rw [changed] at unchanged
    cases unchanged
  rename_i changed
  split at merged
  · rename_i existing held
    split at merged
    · cases merged
    cases merged
    exact .inl ⟨rfl, fun _ => ⟨existing, held⟩⟩
  · rename_i absent
    split at merged
    · cases merged
    cases merged
    exact .inr ⟨by simpa using changed, absent, rfl⟩

/-- The first row merged, and then the others. -/
theorem Merges.cons {path : String} {next : LiveIndex}
    {rest : List (Sigma fun _ : String => IndexedFile)} (fresh : rest.dlookup path = none)
    (merged : mergeRow env watermark carryPanics candidate ⟨path, file⟩ = .ok next)
    (tail : Merges watermark rest next live) :
    Merges watermark (⟨path, file⟩ :: rest) candidate live := by
  rcases mergeRow_cases merged with ⟨rfl, holds⟩ | ⟨changed, absent, rfl⟩
  · refine ⟨fun other => ?_, tail.root⟩
    by_cases here : other = path
    · subst here
      rw [tail.rows, fresh, dlookup_cons_eq]
      by_cases changed : livePathChangedSinceReloadWatermark watermark file other = true
      · obtain ⟨existing, held⟩ := holds changed
        simp [held]
      · simp [Option.filter, changed]
    · rw [tail.rows, dlookup_cons_ne _ _ here]
  · refine ⟨fun other => ?_, ?_⟩
    · by_cases here : other = path
      · subst here
        rw [tail.rows, fresh, updateFile_row, absent, dlookup_cons_eq]
        simp [Option.filter, changed]
      · rw [tail.rows, updateFile_row, dlookup_cons_ne _ _ here]
        simp [here]
    · exact tail.root.trans (candidate.updateFileWithManifest_root _ _ _ true)

/-- A merge that returns has gone through its rows one by one. -/
theorem foldlM_merges {current : List (Sigma fun _ : String => IndexedFile)}
    (distinct : current.NodupKeys)
    (merged : current.foldlM (mergeRow env watermark carryPanics) candidate = .ok live) :
    Merges watermark current candidate live := by
  induction current generalizing candidate with
  | nil =>
    cases merged
    exact ⟨fun path => by simp, rfl⟩
  | cons first rest ih =>
    obtain ⟨path, file⟩ := first
    obtain ⟨fresh, distinctRest⟩ := nodupKeys_cons.mp distinct
    rw [foldlM_cons] at merged
    obtain ⟨next, step, others⟩ := bind_eq_ok merged
    exact (ih distinctRest others).cons (dlookup_eq_none.mpr fresh) step

/-- What a reload publishes, row by row. -/
theorem commitReload_merges {handle after : SharedIndexHandle} {reload : PreparedReload}
    {cancelled : Bool} {captured : Option CapturedManifest}
    (committed : handle.commitReload env reload cancelled carryPanics captured = .ok after) :
    Merges reload.watermark handle.live.files.entries
      (LiveIndex.fromReloadData reload.root reload.data) after.published.live := by
  obtain ⟨live, merged, rfl⟩ := SharedIndexHandle.commitReload_ok committed
  exact foldlM_merges handle.live.files.nodupKeys merged

end Merge

section Window

variable {env : Environment} {before after : SharedIndexHandle}

/-- The path of a change. -/
def RowChange.path : RowChange → String
  | .put path _ => path
  | .drop path => path

variable (changes : List RowChange)

/-- The last change of a path. -/
def lastChange (path : String) : Option RowChange := changes.reverse.find? (·.path == path)

/-- The row of a path is what its last change made it. -/
theorem followChanges_eq (rows : String → Option IndexedFile) (path : String) :
    followChanges changes rows path = match lastChange changes path with
      | none => rows path
      | some (.put _ file) => some file
      | some (.drop _) => none := by
  induction changes using reverseRecOn with
  | nil => rfl
  | append_singleton earlier last ih =>
    have followed : followChanges (earlier ++ [last]) rows =
        last.follow (followChanges earlier rows) := by
      rw [followChanges, foldl_append]
      rfl
    have found : lastChange (earlier ++ [last]) path =
        if last.path = path then some last else lastChange earlier path := by
      rw [lastChange, reverse_append, reverse_singleton, singleton_append, find?_cons, ← lastChange]
      split <;> simp_all
    rw [followed, found]
    cases last with
    | put changed file | drop changed =>
      by_cases here : changed = path
      · subst here
        simp [RowChange.follow, RowChange.path]
      · simp [RowChange.follow, RowChange.path, here, Ne.symm here, ih]

open SharedIndexHandle

/-- What an operation publishes follows its changes of rows. -/
theorem SharedIndexHandle.Effect.follows {intended : List RowChange} {basis : Option Basis}
    (effect : Effect before intended basis after) :
    before.live.Follows (if after.publications.length = before.publications.length then []
      else intended) after.live := by
  cases effect with
  | quiet rejected =>
    rw [if_pos rfl]
    exact refl _
  | republish nothing bridgeLoading =>
    rw [nothing, ite_self]
    exact refl _
  | publish plan status rejected live contentChanged captured moved follows retains =>
    rw [if_neg]
    · exact follows
    show (before.publications ++ [_]).length ≠ before.publications.length
    simp

/-- Every operation but the reset follows its changes of rows. -/
theorem SharedIndexHandle.apply_follows {operation : Operation}
    {captured : Option CapturedManifest} (kept : operation ≠ .resetToEmpty) :
    before.live.Follows (before.rowChanges env captured operation)
      (before.apply env captured operation).live := by
  by_cases ordinary : operation.setsFreshness = false
  · exact (apply_effect ordinary).follows
  cases operation with
  | setFreshnessStatus status =>
    have nothing : before.intendedChanges env (.setFreshnessStatus status) = [] := rfl
    rw [rowChanges, nothing, ite_self]
    exact refl _
  | resetToEmpty => exact absurd rfl kept
  | _ => exact absurd rfl ordinary

/-- The step neither commits a reload nor resets the index. -/
def Action.inWindow : Action → Bool
  | .operate .resetToEmpty _ | .commitReload .. => false
  | _ => true

namespace System

/-- The changes of rows that a step publishes. -/
def rowChanges (env : Environment) (state : System) : Action → List RowChange
  | .operate operation captured => state.handle.rowChanges env captured operation
  | _ => []

/-- The changes of rows that a run publishes. -/
def windowChanges (env : Environment) : System → List Action → List RowChange
  | _, [] => []
  | state, action :: rest => state.rowChanges env action ++
      ((state.step env action).map fun next => windowChanges env next rest).getD []

/-- Inside the window the rows follow the changes. -/
theorem step_follows {state next : System} {action : Action} (inside : action.inWindow = true)
    (moved : state.step env action = some next) :
    state.handle.live.Follows (state.rowChanges env action) next.handle.live := by
  cases action with
  | operate operation captured =>
    cases moved
    refine apply_follows ?_
    rintro rfl
    cases inside
  | commitReload => cases inside
  | startReload id root | prepareReload id data seen =>
    simp only [step] at moved
    split at moved
    · cases moved
      exact refl _
    · cases moved

/-- The rows at the end of a window are those at its start with its changes made. -/
theorem run_follows {state final : System} {actions : List Action}
    (inside : ∀ action ∈ actions, action.inWindow = true)
    (ran : run (step env) state actions = some final) :
    state.handle.live.Follows (windowChanges env state actions) final.handle.live := by
  induction actions generalizing state with
  | nil =>
    cases ran
    exact refl _
  | cons action rest ih =>
    obtain ⟨next, taken, after⟩ := run_cons.mp ran
    obtain ⟨here, later⟩ := forall_mem_cons.mp inside
    have tail := (step_follows here taken).trans (ih later after)
    rw [windowChanges, taken]
    exact tail

end System

/-- A path whose last change removed it is absent after the reload, a path whose last change
published it has that content. -/
def KeepsChanges (live : LiveIndex) : Prop :=
  ∀ path, (lastChange changes path = some (.drop path) → live.row path = none) ∧
    ∀ file, lastChange changes path = some (.put path file) →
      (live.row path).map (·.content) = some file.content

/-- The candidate lacks the removed paths, and has the published content of the paths that it holds
and of those whose content is again the watermark's. -/
def CandidateFollows (watermark : LiveIndex) (candidate : Rows) (changes : List RowChange) : Prop :=
  ∀ path, (lastChange changes path = some (.drop path) → candidate.lookup path = none) ∧
    ∀ file, lastChange changes path = some (.put path file) →
      (candidate.lookup path).isSome = true ∨
        livePathChangedSinceReloadWatermark watermark file path = false →
      (candidate.lookup path).map (·.content) = some file.content

/-- A removed row is absent where the candidate lacks it. -/
theorem removed_row_iff {watermark current candidate live : LiveIndex} {path : String}
    (merges : Merges watermark current.files.entries candidate live)
    (gone : current.row path = none) : live.row path = none ↔ candidate.row path = none := by
  have absent : current.files.entries.dlookup path = none := gone
  rw [merges.rows _, absent, filter_none, or_none]

/-- A published row has its content unless the merge leaves it to another candidate row. -/
theorem published_row_iff {watermark current candidate live : LiveIndex} {path : String}
    {held file : IndexedFile} (merges : Merges watermark current.files.entries candidate live)
    (holds : current.row path = some held) (same : held.untimed = file.untimed) :
    (live.row path).map (·.content) = some file.content ↔
      ((candidate.row path).isSome = true ∨
        livePathChangedSinceReloadWatermark watermark file path = false →
      (candidate.row path).map (·.content) = some file.content) := by
  have present : current.files.entries.dlookup path = some held := holds
  have content : held.content = file.content := congrArg (·.content) same
  -- the time of a row is not looked at
  have hashes : held.contentHash = file.contentHash := congrArg (·.contentHash) same
  have changedAlike : livePathChangedSinceReloadWatermark watermark held path =
      livePathChangedSinceReloadWatermark watermark file path := by
    unfold livePathChangedSinceReloadWatermark
    rw [hashes]
  rw [merges.rows _, present]
  cases candidate.row path with
  | some existing => simp
  | none =>
    cases changed : livePathChangedSinceReloadWatermark watermark file path with
    | false => simp [changedAlike, changed]
    | true => simp [changedAlike, changed, content]

/-- For a reload that took its watermark before a window of operations and returns after it, the
changes are kept exactly where its candidate follows them. -/
theorem reload_keeps_changes_iff (env : Environment) {opened closing : System}
    {actions : List Action} {reload : PreparedReload} {cancelled : Bool}
    {carryPanics : String → Bool} {captured : Option CapturedManifest} {after : SharedIndexHandle}
    (watermark : reload.watermark = opened.handle.live)
    (inside : ∀ action ∈ actions, action.inWindow = true)
    (ran : run (step env) opened actions = some closing)
    (committed : closing.handle.commitReload env reload cancelled carryPanics captured =
      .ok after) :
    KeepsChanges (windowChanges env opened actions) after.published.live ↔
      CandidateFollows opened.handle.live reload.data.files
        (windowChanges env opened actions) := by
  have follows := run_follows inside ran
  have merges := commitReload_merges committed
  rw [watermark] at merges
  refine forall_congr' fun path => and_congr ?_ (forall_congr' fun file => ?_)
  · refine imp_congr_right fun removed => removed_row_iff merges ?_
    have rows := follows.rows path
    rw [followChanges_eq, removed] at rows
    exact map_eq_none_iff.mp rows
  · refine imp_congr_right fun published => ?_
    have rows := follows.rows path
    rw [followChanges_eq, published] at rows
    obtain ⟨held, holds, same⟩ := map_eq_some_iff.mp rows
    exact published_row_iff merges holds same

end Window

section Sample

/-- A reload that found nothing under the root. -/
def emptyReload : PreparedReload := ⟨⟨"/work", sampleLive⟩, ⟨∅, samplePlan, []⟩, false⟩

/-- A file published in its window is in the index that it publishes. -/
theorem published_in_window_kept :
    ∃ closing after, run (step sampleEnv) ⟨sampleHandle, fun _ => none⟩
        [.operate (.updateFile "a.rs" sampleFile false) (some firstCommit)] = some closing ∧
      closing.handle.commitReload sampleEnv emptyReload false (fun _ => false)
        (some firstCommit) = .ok after ∧
      KeepsChanges [.put "a.rs" sampleFile] after.published.live := by
  have inside : ∀ action ∈ [Action.operate (.updateFile "a.rs" sampleFile false)
      (some firstCommit)], action.inWindow = true := by
    simp [Action.inWindow]
  have candidate : CandidateFollows sampleLive (∅ : Rows) [.put "a.rs" sampleFile] := by
    intro path
    refine ⟨fun _ => AList.lookup_empty _, fun file _ either => ?_⟩
    rcases either with held | unchanged
    · simp at held
    · cases unchanged
  obtain ⟨closing, ran, after, committed⟩ : ∃ closing,
      run (step sampleEnv) ⟨sampleHandle, fun _ => none⟩
        [.operate (.updateFile "a.rs" sampleFile false) (some firstCommit)] = some closing ∧
      ∃ after, closing.handle.commitReload sampleEnv emptyReload false (fun _ => false)
        (some firstCommit) = .ok after := ⟨_, rfl, _, rfl⟩
  exact ⟨closing, _, ran, committed,
    (reload_keeps_changes_iff sampleEnv rfl inside ran committed).mpr candidate⟩

/-- Another content of the file. -/
def sampleEdited : IndexedFile :=
  { sampleFile with content := utf8 "fn b() {}", contentHash := "h2" }

/-- A candidate that holds one file. -/
def candidateOf (file : IndexedFile) : ReloadData := ⟨(∅ : Rows).insert "a.rs" file, samplePlan, []⟩

/-- The file is loaded; a reload reads it in one state, the window leaves it in another. -/
def reloadAround (read : IndexedFile) (window : List Operation) : List Action :=
  [.operate (.updateFile "a.rs" sampleFile false) (some firstCommit), .startReload 0 "/work",
    .prepareReload 0 (candidateOf read) admittedRoot] ++
  window.map (.operate · (some firstCommit)) ++
  [.commitReload 0 false (fun _ => false) (some firstCommit)]

/-- The content that the publications of a run show of the file. -/
def shownContents (actions : List Action) : Option (List (Option Bytes)) :=
  (run (System.step sampleEnv) ⟨sampleHandle, fun _ => none⟩ actions).map fun final =>
    final.handle.publications.map fun generation =>
      (generation.live.row "a.rs").map (·.content)

/-- A removed file is back after the reload, and a file that was edited and restored is edited
again. -/
theorem reload_undoes_changes :
    shownContents (reloadAround sampleFile [.removeFile "a.rs" false]) =
      some [none, some sampleFile.content, none, some sampleFile.content] ∧
    shownContents (reloadAround sampleEdited [.updateFile "a.rs" sampleEdited false,
        .updateFile "a.rs" sampleFile false]) =
      some [none, some sampleFile.content, some sampleEdited.content, some sampleFile.content,
        some sampleEdited.content] :=
  ⟨rfl, rfl⟩

end Sample

end Symforge.Store
