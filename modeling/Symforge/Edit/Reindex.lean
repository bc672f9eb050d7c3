import Symforge.Edit.BatchCommit
import Symforge.Edit.StaleOffsets
import Symforge.Library.Table
/-!
# Reindexing after a write

Every edit tool ends with a write and a reindex (`protocol/edit.rs`,
`protocol/edit_tools.rs`). A rerouted write goes to another worktree, whose bytes are not the
ones the index is about. The tools for single symbols leave the index alone then. The batch
executors do not look at the reroute.
-/

namespace Symforge.Edit

open Library List Function StagedFile

/-- The content policy and the parser, as `reindex_after_write` calls them. -/
structure ReindexEnvironment where
  /-- `classify_stable_content_for_root` gives `MetadataOnly`. -/
  withheld : String → LanguageId → Bytes → Bool
  /-- `process_file`, then `IndexedFile::from_parse_result` with the same bytes. -/
  processFile : String → Bytes → LanguageId → IndexedFile
  keepsContent : ∀ path bytes language, (processFile path bytes language).content = bytes
  keepsLanguage : ∀ path bytes language, (processFile path bytes language).language = language

/-- What is found at a path; the modification second is zero where it cannot be had. -/
structure DiskFile where
  bytes : Bytes
  mtimeSecs : Nat
  deriving DecidableEq, Repr

/-- An `IndexedFile` with its `mtime_secs`. -/
structure IndexEntry where
  file : IndexedFile
  mtimeSecs : Nat
  deriving DecidableEq, Repr

/-- The entries of the index: each of them is what the parser makes of its own bytes. -/
structure ParsedIndex (env : ReindexEnvironment) where
  entry : String → Option IndexEntry
  parsed : ∀ path found, entry path = some found →
    found.file = env.processFile path found.file.content found.file.language

namespace ParsedIndex

variable {env : ReindexEnvironment} (index : ParsedIndex env) (path : String)

/-- `SharedIndex::remove_file`, on the entries. -/
def removeFile : ParsedIndex env where
  entry := update index.entry path none
  parsed := by
    intro other entry found
    exact index.parsed other entry (update_none_eq_some.mp found).2

/-- `SharedIndex::update_file` with what is found on disk, parsed, on the entries. -/
def updateFile (onDisk : DiskFile) (language : LanguageId) : ParsedIndex env where
  entry := update index.entry path
    (some ⟨env.processFile path onDisk.bytes language, onDisk.mtimeSecs⟩)
  parsed := by
    refine forall_update_some ?_ index.parsed
    rw [env.keepsContent, env.keepsLanguage]

variable (index : ParsedIndex env) (onDisk : Option DiskFile) (path : String)
  (language : LanguageId)

/-- A removed file has no entry. -/
@[simp] theorem removeFile_self : (index.removeFile path).entry path = none := update_self ..

/-- An updated file has the entry of the disk. -/
@[simp] theorem updateFile_self (onDisk : DiskFile) (language : LanguageId) :
    (index.updateFile path onDisk language).entry path =
      some ⟨env.processFile path onDisk.bytes language, onDisk.mtimeSecs⟩ :=
  update_self ..

/-- `edit::reindex_after_write`, `onDisk` being what it reads. -/
def reindexAfterWrite (onDisk : Option DiskFile)
    (relativePath : String) (language : LanguageId) : ParsedIndex env :=
  match onDisk with
  | none => index
  | some found =>
    if env.withheld relativePath language found.bytes then index.removeFile relativePath
    else index.updateFile relativePath found language

/-- What is found is what the index has already, or is withheld and absent from it. -/
def AsIndexed (language : LanguageId) (found : DiskFile) : Prop :=
  if env.withheld path language found.bytes then index.entry path = none
  else ∃ entry, index.entry path = some entry ∧ entry.file.content = found.bytes ∧
    entry.file.language = language ∧ entry.mtimeSecs = found.mtimeSecs

/-- Other paths keep their entry. -/
theorem reindexAfterWrite_of_ne {path relativePath : String} (other : path ≠ relativePath) :
    (index.reindexAfterWrite onDisk relativePath language).entry path = index.entry path := by
  unfold reindexAfterWrite
  split
  · rfl
  · split <;> exact update_of_ne other _ _

/-- The new entry of a path depends on the bytes read and the old entry. -/
theorem reindexAfterWrite_self_congr {index other : ParsedIndex env} {path : String}
    (same : index.entry path = other.entry path) :
    (index.reindexAfterWrite onDisk path language).entry path =
      (other.reindexAfterWrite onDisk path language).entry path := by
  unfold reindexAfterWrite
  cases onDisk with
  | none => exact same
  | some found => dsimp only; split <;> simp

/-- Reindexing a path keeps its entry exactly when what is read is as indexed. -/
theorem reindexAfterWrite_self_iff :
    (index.reindexAfterWrite onDisk path language).entry path = index.entry path ↔
      ∀ found ∈ onDisk, index.AsIndexed path language found := by
  unfold reindexAfterWrite AsIndexed
  cases onDisk with
  | none => simp
  | some found =>
    simp only [Option.mem_some_iff, forall_eq']
    by_cases held : env.withheld path language found.bytes = true
    · rw [if_pos held, if_pos held, removeFile_self]
      exact eq_comm
    rw [if_neg held, if_neg held, updateFile_self]
    constructor
    · intro same
      exact ⟨_, same.symm, env.keepsContent _ _ _, env.keepsLanguage _ _ _, rfl⟩
    · rintro ⟨entry, present, sameBytes, rfl, sameTime⟩
      rw [present, ← sameBytes, ← sameTime, ← index.parsed _ _ present]

end ParsedIndex

/-! ### The ends of the edit tools -/

/-- The tools by how they end; the four tools on a single symbol end alike. -/
inductive EditTool where
  | singleSymbol
  | batchEdit
  | batchInsert
  | batchRename
  deriving DecidableEq, Repr

/-- How the write of a tool ended: with the new content at every target, or with any files. -/
inductive CommitOutcome where
  | committed (mtimeSecs : String → Nat)
  | failed (left : String → Option DiskFile)

/-- What the reindex reads at the target of a file. -/
def CommitOutcome.reads (outcome : CommitOutcome) (file : StagedFile) : Option DiskFile :=
  match outcome with
  | .committed mtimeSecs => some ⟨file.newContent, mtimeSecs file.target.targetPath⟩
  | .failed left => left file.target.targetPath

/-- Whether a tool reindexes a file at its end. After a failed commit a batch insert or rename still
reindexes what it can read. -/
def EditTool.reindexes (tool : EditTool) (outcome : CommitOutcome) (target : ResolvedTarget) :
    Bool :=
  match tool, outcome with
  | .singleSymbol, .committed _ => !target.rerouted
  | .batchEdit, .committed _ => true
  | .singleSymbol, .failed _ | .batchEdit, .failed _ => false
  | .batchInsert, _ | .batchRename, _ => true

/-- The files of one call, each path once. -/
structure StagedSet where
  files : List StagedFile
  distinct : (files.map StagedFile.path).Nodup

section

variable {env : ReindexEnvironment} (tool : EditTool) (outcome : CommitOutcome)

/-- One round of the reindexing loop. -/
def reindexStaged (index : ParsedIndex env)
    (file : StagedFile) : ParsedIndex env :=
  if tool.reindexes outcome file.target then
    index.reindexAfterWrite (outcome.reads file) file.path file.language
  else index

/-- The index after a call, from the index as it is when the write has ended. -/
def finishEdit (files : List StagedFile)
    (index : ParsedIndex env) : ParsedIndex env :=
  files.foldl (reindexStaged tool outcome) index

/-- The index says of every rerouted file what it said before. -/
def RoutedEntriesKept (staged : StagedSet)
    (index : ParsedIndex env) : Prop :=
  ∀ file ∈ staged.files, file.target.rerouted = true →
    (finishEdit tool outcome staged.files index).entry file.path = index.entry file.path

variable {tool : EditTool} {outcome : CommitOutcome} {index : ParsedIndex env}

/-- Other paths keep theirs here too. -/
theorem reindexStaged_of_ne {file : StagedFile} {path : String} (other : path ≠ file.path) :
    (reindexStaged tool outcome index file).entry path = index.entry path := by
  unfold reindexStaged
  split
  · exact index.reindexAfterWrite_of_ne _ _ other
  · rfl

/-- Paths outside the batch keep theirs. -/
theorem finishEdit_of_not_mem {files : List StagedFile} {path : String}
    (absent : path ∉ files.map StagedFile.path) :
    (finishEdit tool outcome files index).entry path = index.entry path := by
  induction files generalizing index with
  | nil => rfl
  | cons first rest ih =>
    obtain ⟨other, absentRest⟩ := not_or.mp (mt mem_cons.mpr absent)
    calc (finishEdit _ _ (first :: rest) _).entry path
        = (reindexStaged tool outcome index first).entry path := ih absentRest
      _ = index.entry path := reindexStaged_of_ne other

/-- The entry of a path is up to the one file of the call that has it. -/
theorem finishEdit_of_mem {files : List StagedFile}
    (distinct : (files.map StagedFile.path).Nodup) {file : StagedFile} (member : file ∈ files) :
    (finishEdit tool outcome files index).entry file.path =
      (reindexStaged tool outcome index file).entry file.path := by
  obtain ⟨before, after, rfl⟩ := append_of_mem member
  rw [map_append, map_cons, nodup_middle, nodup_cons, mem_append, not_or] at distinct
  obtain ⟨⟨notBefore, notAfter⟩, -⟩ := distinct
  have untilThen : (finishEdit tool outcome before index).entry file.path =
      index.entry file.path := finishEdit_of_not_mem notBefore
  calc (finishEdit _ _ (before ++ file :: after) _).entry file.path
      = (finishEdit tool outcome after (reindexStaged tool outcome
          (finishEdit _ _ _ index) file)).entry file.path := by
        unfold finishEdit
        rw [foldl_append, foldl_cons]
    _ = (reindexStaged tool outcome (finishEdit tool outcome before index) file).entry file.path :=
        finishEdit_of_not_mem notAfter
    _ = (reindexStaged tool outcome index file).entry file.path := by
        unfold reindexStaged
        split
        · exact ParsedIndex.reindexAfterWrite_self_congr _ _ untilThen
        · exact untilThen

/-- The entries of the rerouted files are kept exactly when the tool leaves them out, or finds each
as it is indexed. -/
theorem routedEntriesKept_iff (tool : EditTool) (outcome : CommitOutcome) (staged : StagedSet)
    (index : ParsedIndex env) :
    RoutedEntriesKept tool outcome staged index ↔
      ∀ file ∈ staged.files, file.target.rerouted = true →
        tool.reindexes outcome file.target = true →
          ∀ found ∈ outcome.reads file, index.AsIndexed file.path file.language found := by
  refine forall₃_congr fun file member _ => ?_
  rw [finishEdit_of_mem staged.distinct member]
  unfold reindexStaged
  split
  · rename_i reindexed
    rw [index.reindexAfterWrite_self_iff]
    exact ⟨fun asIndexed _ => asIndexed, fun asIndexed => asIndexed reindexed⟩
  · rename_i leftOut
    simp [leftOut]

end

/-! ### Where the staged files and the outcome come from -/

/-- `StagedImage` of a staged file, the same for the three executors. -/
def StagedFile.image (file : StagedFile) : StagedImage :=
  ⟨file.path, file.target.targetPath, some file.original, file.newContent, false⟩

section

variable {State Report Key : Type} [LinearOrder Key] {canonicalLockKey : String → Option Key}
  {io : BatchIo State Report} (honest : HonestIo canonicalLockKey io)
  (mtimeSecs : State → String → Nat)

/-- The outcome a batch executor goes on with, given what `commit_staged` returns. -/
def commitOutcome
    (files : List StagedFile) (state : State) : CommitOutcome :=
  match commitStaged io (files.map StagedFile.image) canonicalLockKey none state with
  | (.ok _, final) => .committed (mtimeSecs final)
  | (.error _, final) => .failed fun path =>
    ((canonicalLockKey path).bind (honest.file final)).map (⟨·, mtimeSecs final path⟩)

/-- A commit that succeeds leaves every target with its replacement. -/
theorem HonestIo.target_of_commitStaged
    {images : List StagedImage} {state final : State} {reports : List (Fin images.length × Report)}
    (succeeded : commitStaged io images canonicalLockKey none state = (.ok reports, final))
    (index : Fin images.length) :
    honest.target final (images.get index) = some (images.get index).replacement := by
  unfold commitStaged at succeeded
  split at succeeded
  · cases succeeded
  rename_i order _
  have reached := honest.advance_reached order none state
  unfold commitStagedLocked at succeeded
  split at succeeded
  · cases succeeded
  · rename_i done
    cases succeeded
    rw [done] at reached
    exact reached _
  · rename_i halt _ _ _
    cases halt <;> cases succeeded

/-- What is found at the target of a file. -/
def foundAt (state : State) (file : StagedFile) : Option DiskFile :=
  (honest.target state file.image).map (⟨·, mtimeSecs state file.target.targetPath⟩)

variable (state : State)

/-- A file is read as the commit left it. -/
theorem reads_commitOutcome {files : List StagedFile} {file : StagedFile} (member : file ∈ files) :
    (commitOutcome honest mtimeSecs files state).reads file = foundAt honest mtimeSecs
      (commitStaged io (files.map image) canonicalLockKey none state).2 file := by
  obtain ⟨position, inImages, found⟩ := getElem_of_mem (mem_map_of_mem (f := image) member)
  unfold commitOutcome foundAt
  rcases ended : commitStaged io (files.map image) canonicalLockKey none state with
    ⟨abort | reports, final⟩
  · rfl
  have holds := honest.target_of_commitStaged ended ⟨position, inImages⟩
  rw [get_eq_getElem, found] at holds
  dsimp only
  rw [holds]
  rfl

/-- However the commit ended, the entry of a reindexed file is made of what is found at its target
then, and every other path keeps its entry. -/
theorem entry_finishEdit {env : ReindexEnvironment} (tool : EditTool) (staged : StagedSet)
    (entries : ParsedIndex env) :
    let outcome := commitOutcome honest mtimeSecs staged.files state
    let final := (commitStaged io (staged.files.map image) canonicalLockKey none state).2
    let after := finishEdit tool outcome staged.files entries
    (∀ index : Fin staged.files.length,
      let file := staged.files.get index
      after.entry file.path =
        if tool.reindexes outcome file.target then
          (entries.reindexAfterWrite (foundAt honest mtimeSecs final file) file.path
            file.language).entry file.path
        else entries.entry file.path) ∧
    ∀ path, path ∉ staged.files.map StagedFile.path → after.entry path = entries.entry path := by
  intro outcome final after
  refine ⟨fun index => ?_, fun path absent => finishEdit_of_not_mem absent⟩
  have member := get_mem staged.files index
  dsimp only
  rw [finishEdit_of_mem staged.distinct member, reindexStaged, reads_commitOutcome _ _ _ member]
  split <;> rfl

end

section

variable {env : EditEnvironment} {index : LiveIndex}

/-- Sorting keeps paths apart. -/
theorem nodup_inPathOrder {Work : Type} {groups : List (String × Work)}
    (distinct : (groups.map Prod.fst).Nodup) : ((inPathOrder groups).map Prod.fst).Nodup :=
  ((perm_insertionSort _ _).map Prod.fst).nodup_iff.mpr distinct

/-- Checked edits keep their path. -/
theorem checkEdits_path {footer : String} {workingDirectory : Option String}
    {group : String × List (IndexedFile × SingleEdit × SymbolRecord)} {work : String × BatchWork}
    (ok : checkEdits env footer workingDirectory group = .ok work) : work.1 = group.1 := by
  unfold checkEdits at ok
  split at ok
  · cases ok
  obtain ⟨placed, -, ok⟩ := bind_eq_ok ok
  cases ok
  rfl

/-- So do ordered anchors. -/
theorem orderAnchors_path {input : BatchInsertInput}
    {group : String × List (LanguageId × (InsertTarget × Nat) × SymbolRecord)}
    {work : String × BatchWork} (ok : orderAnchors input group = .ok work) :
    work.1 = group.1 := by
  unfold orderAnchors at ok
  split at ok
  · cases ok
  cases ok
  rfl

/-- So does a validated file. -/
theorem validateFile_path {name : Bytes} {group validated : String × List (Nat × Nat)}
    (ok : validateFile index name group = .ok validated) : validated.1 = group.1 := by
  unfold validateFile at ok
  dsimp only at ok
  split at ok
  · cases ok
  obtain ⟨ranges, -, ok⟩ := bind_eq_ok ok
  cases ok
  rfl

/-- Groups of distinct paths whose entries are worked on path by path keep distinct paths. -/
theorem nodup_paths_of_mapM {Item Value : Type} {step : String × Item → Except EditFault Value}
    {path : Value → String} {pairs : List (String × Item)} {values : List Value}
    (distinct : (pairs.map Prod.fst).Nodup)
    (keeps : ∀ pair value, step pair = .ok value → path value = pair.1)
    (succeeded : pairs.mapM step = .ok values) : (values.map path).Nodup := by
  rw [map_eq_of_mapM keeps succeeded]
  exact distinct

/-- A plan has each path once. -/
theorem buildRenamePlan_paths {fromUtf8Lossy : Bytes → Bytes} {file : IndexedFile}
    {sym : SymbolRecord} {input : RenamePlanInput} {plan : RenamePlan}
    (planned : buildRenamePlan fromUtf8Lossy index file sym input = .ok plan) :
    (plan.byFile.map Prod.fst).Nodup := by
  obtain ⟨definition, -, planned⟩ := bind_eq_ok planned
  obtain ⟨usages, -, planned⟩ := bind_eq_ok planned
  obtain ⟨demotedReferences, -, planned⟩ := bind_eq_ok planned
  obtain ⟨demotedUsages, -, planned⟩ := bind_eq_ok planned
  obtain ⟨byFile, validated, planned⟩ := bind_eq_ok planned
  cases planned
  exact nodup_paths_of_mapM (nodup_keys_groupByKey _) (fun _ _ => validateFile_path) validated

/-- A call resolves its work file by file. -/
theorem resolveBatch_paths {request : BatchRequest} {resolved : List (String × BatchWork)}
    (ok : resolveBatch env index request = .ok resolved) : (resolved.map Prod.fst).Nodup := by
  cases request with
  | edit edits workingDirectory =>
    obtain ⟨symbols, -, ok⟩ := bind_eq_ok ok
    obtain ⟨works, checked, ok⟩ := bind_eq_ok ok
    cases ok
    exact nodup_inPathOrder
      (nodup_paths_of_mapM (nodup_keys_groupByKey _) (fun _ _ => checkEdits_path) checked)
  | insert input =>
    obtain ⟨symbols, -, ok⟩ := bind_eq_ok ok
    obtain ⟨works, ordered, ok⟩ := bind_eq_ok ok
    cases ok
    exact nodup_inPathOrder
      (nodup_paths_of_mapM (nodup_keys_groupByKey _) (fun _ _ => orderAnchors_path) ordered)
  | rename input =>
    unfold resolveBatch resolveBatchRename at ok
    dsimp only at ok
    split at ok
    · cases ok
    obtain ⟨sym, -, ok⟩ := bind_eq_ok ok
    obtain ⟨plan, planned, ok⟩ := bind_eq_ok ok
    cases ok
    apply nodup_inPathOrder
    rw [map_map]
    exact buildRenamePlan_paths planned

end

namespace BatchCall

variable {env : EditEnvironment}

/-- The paths of a call, staged or still to be staged. -/
def paths (call : BatchCall) : List String :=
  call.staged.map StagedFile.path ++ call.pending.map Prod.fst

/-- A move keeps the paths apart. -/
theorem step_paths {call next : BatchCall} {event : CallEvent} (distinct : call.paths.Nodup)
    (taken : step env call event = some next) : next.paths.Nodup := by
  cases event with
  | publish index =>
    cases taken
    exact distinct
  | stageNext =>
    unfold step at taken
    dsimp only at taken
    split at taken
    swap
    · cases taken
    rename_i path work rest running upNext
    unfold paths at distinct ⊢
    rw [upNext, map_cons] at distinct
    split at taken
    · rename_i file ok
      cases taken
      have samePath := (stageWork_ok ok).1
      simpa [samePath] using distinct
    · cases taken
      rw [upNext, map_cons]
      exact (nodup_append.mp distinct).2.1

/-- The staged files of a call at any moment, each path once. -/
def stagedSet {index : LiveIndex} {request : BatchRequest} {call final : BatchCall}
    {events : List CallEvent} (started : start env index request = .ok call)
    (reached : run (step env) call events = some final) : StagedSet where
  files := final.staged
  distinct := by
    have atStart : call.paths.Nodup := by
      unfold start at started
      obtain ⟨resolved, ok, started⟩ := bind_eq_ok started
      cases started
      exact resolveBatch_paths ok
    have atEnd : final.paths.Nodup :=
      run_invariant (fun call => call.paths.Nodup) (fun _ _ _ => step_paths) atStart reached
    exact (nodup_append.mp atEnd).1

end BatchCall

/-! ### An insertion into another worktree -/

/-- Every write goes to the worktree `wt`, whose copy is still the indexed one. -/
def reroutedEnvironment : EditEnvironment :=
  { plainEnvironment with
    resolveTarget := fun path _ => .ok ⟨"wt/" ++ path, path, true⟩
    readTarget := fun _ => .ok (utf8 "fn a();\n") }

/-- A parser for files that begin with the seven bytes of `a`. -/
def functionParser : ReindexEnvironment where
  withheld _ _ _ := false
  processFile _ bytes language :=
    ⟨bytes, language, [⟨"a", .function, (0, 7), (0, 0), none⟩], [], []⟩
  keepsContent _ _ _ := rfl
  keepsLanguage _ _ _ := rfl

/-- The entries of `functionIndex`. -/
def functionEntries : ParsedIndex functionParser where
  entry path := (functionIndex.captureSharedFile path).map (⟨·, 0⟩)
  parsed := by
    intro path entry found
    obtain ⟨file, captured, rfl⟩ := Option.map_eq_some_iff.mp found
    cases mem_singleton.mp (LiveIndex.mem_of_captureSharedFile captured)
    rfl

/-- After a routed insertion the index holds the code that only the worktree has. -/
theorem routed_insert_reindexed :
    ∃ (call final : BatchCall)
      (started : BatchCall.start reroutedEnvironment functionIndex insertAfterA = .ok call)
      (reached : run (BatchCall.step reroutedEnvironment) call [.stageNext] = some final),
      final.pending = [] ∧ final.failure = none ∧
        ¬ RoutedEntriesKept .batchInsert (.committed fun _ => 0)
          (BatchCall.stagedSet started reached) functionEntries := by
  refine ⟨_, _, rfl, rfl, rfl, rfl, ?_⟩
  intro kept
  have same := kept _ mem_cons_self rfl
  revert same
  decide

/-- An insertion that failed and left the worktree as it was indexed keeps the entries. -/
theorem failed_insert_kept :
    ∃ (call final : BatchCall)
      (started : BatchCall.start reroutedEnvironment functionIndex insertAfterA = .ok call)
      (reached : run (BatchCall.step reroutedEnvironment) call [.stageNext] = some final),
      RoutedEntriesKept .batchInsert (.failed fun _ => some ⟨utf8 "fn a();\n", 0⟩)
        (BatchCall.stagedSet started reached) functionEntries := by
  refine ⟨_, _, rfl, rfl, (routedEntriesKept_iff ..).mpr ?_⟩
  intro file member _ _ found isFound
  cases mem_singleton.mp member
  cases isFound
  exact ⟨_, rfl, rfl, rfl, rfl⟩

end Symforge.Edit
