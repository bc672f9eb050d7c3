import Symforge.Library.Run
import Symforge.Edit.BatchExecutors
import Symforge.Edit.ReplaceAgreement
/-!
# Offsets and the content they belong to

Between resolving and staging the shared index may change. What a batch edit stages is always
spliced from the content its offsets were resolved against. A batch insert and a batch rename splice
whatever content the index holds when a file is staged, so that the same is true of them only while
nobody publishes another content of that file.
-/

namespace Symforge.Edit

open Library List BatchCall

/-- The staged bytes are what was resolved, on the content it was resolved against. -/
def SplicedFromBase (env : EditEnvironment) (call : BatchCall) (file : StagedFile) : Prop :=
  ∃ work base, (file.path, work) ∈ call.resolved ∧
    call.atResolution.captureSharedFile file.path = some base ∧
      spliceWork env file.path work base = .ok file.newContent

/-- A step stages no batch insert or rename on another content than it was resolved against, nor an
insertion in another language. -/
def ContentKept (call : BatchCall) (event : CallEvent) : Prop :=
  match event, call.pending with
  | .stageNext, (path, .insert _) :: _ => ∀ current,
    call.index.captureSharedFile path = some current → ∃ base,
      call.atResolution.captureSharedFile path = some base ∧
        base.content = current.content ∧ base.language = current.language
  | .stageNext, (path, .rename _) :: _ => ∀ current,
    call.index.captureSharedFile path = some current → ∃ base,
      call.atResolution.captureSharedFile path = some base ∧ base.content = current.content
  | _, _ => True

section

variable {env : EditEnvironment} {index : LiveIndex}

/-! ### What is captured during resolution -/

/-- An edit is resolved on the file of the index. -/
theorem resolveEdit_captured {footer : String} {entry : SingleEdit × Nat}
    {resolved : String × IndexedFile × SingleEdit × SymbolRecord}
    (ok : resolveEdit env index footer entry = .ok resolved) :
    index.captureSharedFile resolved.1 = some resolved.2.1 := by
  unfold resolveEdit at ok
  dsimp only at ok
  split at ok
  · cases ok
  rename_i file captured
  split at ok
  · cases ok
    exact captured
  · cases ok

variable {path : String}

/-- The checked work has that file's content. -/
theorem checkEdits_captured {footer : String} {workingDirectory : Option String}
    {group : String × List (IndexedFile × SingleEdit × SymbolRecord)} {work : EditWork}
    (captured : ∀ entry ∈ group.2, index.captureSharedFile group.1 = some entry.1)
    (ok : checkEdits env footer workingDirectory group = .ok (path, .edit work)) :
    index.captureSharedFile path = some work.file := by
  obtain ⟨groupPath, entries⟩ := group
  cases entries with
  | nil => cases ok
  | cons entry rest =>
    obtain ⟨placed, -, ok⟩ := bind_eq_ok ok
    cases ok
    exact captured _ mem_cons_self

/-- Sorting keeps the groups. -/
theorem mem_inPathOrder {Work : Type} {groups : List (String × Work)} {group : String × Work} :
    group ∈ inPathOrder groups ↔ group ∈ groups :=
  mem_insertionSort _

/-- The files of a batch edit are the ones the index held when it was resolved. -/
theorem resolveBatch_captured {request : BatchRequest} {resolved : List (String × BatchWork)}
    (ok : resolveBatch env index request = .ok resolved) {work : EditWork}
    (member : (path, .edit work) ∈ resolved) : index.captureSharedFile path = some work.file := by
  cases request with
  | edit edits workingDirectory =>
    obtain ⟨symbols, found, ok⟩ := bind_eq_ok ok
    obtain ⟨works, checked, ok⟩ := bind_eq_ok ok
    cases ok
    obtain ⟨group, inGroups, accepted⟩ := exists_of_mem_mapM checked (mem_inPathOrder.mp member)
    refine checkEdits_captured ?_ accepted
    intro entry inGroup
    have inSymbols := (inGroup_groupByKey _ group.1 _).mp ⟨group.2, inGroups, inGroup⟩
    obtain ⟨edit, -, resolvedEdit⟩ := exists_of_mem_mapM found inSymbols
    exact resolveEdit_captured resolvedEdit
  | insert input =>
    obtain ⟨symbols, -, ok⟩ := bind_eq_ok ok
    obtain ⟨works, ordered, ok⟩ := bind_eq_ok ok
    cases ok
    obtain ⟨group, -, accepted⟩ := exists_of_mem_mapM ordered (mem_inPathOrder.mp member)
    unfold orderAnchors at accepted
    split at accepted <;> cases accepted
  | rename input =>
    unfold resolveBatch resolveBatchRename at ok
    dsimp only at ok
    split at ok
    · cases ok
    obtain ⟨sym, -, ok⟩ := bind_eq_ok ok
    obtain ⟨plan, -, ok⟩ := bind_eq_ok ok
    cases ok
    obtain ⟨group, -, same⟩ := mem_map.mp (mem_inPathOrder.mp member)
    cases same

/-! ### What is staged -/

/-- A routed file keeps its path and content. -/
theorem routeStaged_ok {workingDirectory : Option String}
    {indexedContent newContent : Bytes} {language : LanguageId} {file : StagedFile}
    (ok : routeStaged env path workingDirectory indexedContent newContent language = .ok file) :
    file.path = path ∧ file.newContent = newContent := by
  obtain ⟨target, -, ok⟩ := bind_eq_ok ok
  obtain ⟨original, -, ok⟩ := bind_eq_ok ok
  cases ok
  exact ⟨rfl, rfl⟩

/-- What a successful staging splices: the captured content for a batch edit, the one in the index
for the others. -/
theorem stageWork_ok {work : BatchWork} {file : StagedFile}
    (ok : stageWork env index path work = .ok file) :
    file.path = path ∧ ∃ source, spliceWork env path work source = .ok file.newContent ∧
      match work with
      | .edit edit => source = edit.file
      | .insert _ | .rename _ => index.captureSharedFile path = some source := by
  unfold stageWork at ok
  cases work with
  | edit edit =>
    dsimp only at ok ⊢
    split at ok
    · cases ok
    split at ok
    · cases ok
    obtain ⟨newContent, spliced, ok⟩ := bind_eq_ok ok
    obtain ⟨samePath, sameContent⟩ := routeStaged_ok ok
    rw [sameContent]
    exact ⟨samePath, edit.file, spliced, rfl⟩
  | insert insert | rename rename =>
    dsimp only at ok ⊢
    split at ok
    · cases ok
    rename_i source captured
    obtain ⟨newContent, spliced, ok⟩ := bind_eq_ok ok
    obtain ⟨samePath, sameContent⟩ := routeStaged_ok ok
    rw [sameContent]
    exact ⟨samePath, _, spliced, captured⟩

/-- An insertion reads the content and the language of a file, nothing else. -/
theorem spliceInserts_congr {work : InsertWork} {base current : IndexedFile}
    (sameContent : base.content = current.content)
    (sameLanguage : base.language = current.language) :
    spliceInserts env path work base = spliceInserts env path work current := by
  have samePlace : insertPlace env base work.position = insertPlace env current work.position := by
    funext sym
    unfold insertPlace
    rw [sameContent, sameLanguage]
  unfold spliceInserts
  rw [sameContent, samePlace]

end

/-! ### Every interleaving -/

namespace BatchCall

variable {env : EditEnvironment}

/-- What holds from resolution on. -/
structure Invariant (env : EditEnvironment) (call : BatchCall) : Prop where
  pending : ∀ entry ∈ call.pending, entry ∈ call.resolved
  captured : ∀ path work, (path, .edit work) ∈ call.resolved →
    call.atResolution.captureSharedFile path = some work.file
  staged : ∀ file ∈ call.staged, SplicedFromBase env call file

variable {call : BatchCall}

/-- A started call has the content of the index. -/
theorem start_invariant {index : LiveIndex} {request : BatchRequest}
    (started : start env index request = .ok call) : Invariant env call := by
  obtain ⟨resolved, ok, started⟩ := bind_eq_ok started
  cases started
  refine ⟨fun _ member => member, ?_, ?_⟩
  · intro path work member
    exact resolveBatch_captured ok member
  · intro file member
    cases member

/-- The file that is staged next is spliced from the content it was resolved against. -/
theorem Invariant.stages (invariant : Invariant env call) {path : String}
    {work : BatchWork} {rest : List (String × BatchWork)}
    (next : call.pending = (path, work) :: rest)
    (kept : ContentKept call .stageNext) {file : StagedFile}
    (ok : stageWork env call.index path work = .ok file) : SplicedFromBase env call file := by
  obtain ⟨rfl, source, spliced, origin⟩ := stageWork_ok ok
  have member : (file.path, work) ∈ call.resolved := by
    apply invariant.pending
    rw [next]
    exact mem_cons_self
  unfold ContentKept at kept
  rw [next] at kept
  cases work with
  | edit edit =>
    subst origin
    exact ⟨_, edit.file, member, invariant.captured _ _ member, spliced⟩
  | insert insert =>
    obtain ⟨base, captured, sameContent, sameLanguage⟩ := kept _ origin
    refine ⟨_, _, member, captured, ?_⟩
    exact (spliceInserts_congr sameContent sameLanguage).trans spliced
  | rename rename =>
    obtain ⟨base, captured, sameContent⟩ := kept _ origin
    refine ⟨_, _, member, captured, ?_⟩
    unfold spliceWork at spliced ⊢
    rw [sameContent]
    exact spliced

/-- A move with the content kept keeps the invariant. -/
theorem step_invariant {next : BatchCall} {event : CallEvent}
    (invariant : Invariant env call) (kept : ContentKept call event)
    (taken : step env call event = some next) : Invariant env next := by
  obtain ⟨pending, captured, staged⟩ := invariant
  cases event with
  | publish index =>
    cases taken
    exact ⟨pending, captured, staged⟩
  | stageNext =>
    unfold step at taken
    dsimp only at taken
    split at taken
    swap
    · cases taken
    rename_i path work rest running upNext
    have later : ∀ entry ∈ rest, entry ∈ call.resolved := by
      intro entry member
      apply pending
      rw [upNext]
      exact mem_cons_of_mem _ member
    split at taken
    · rename_i file ok
      cases taken
      refine ⟨later, captured, forall_mem_append.mpr ⟨staged, ?_⟩⟩
      exact forall_mem_singleton.mpr
        (Invariant.stages ⟨pending, captured, staged⟩ upNext kept ok)
    · cases taken
      refine ⟨pending, captured, ?_⟩
      intro file member
      cases member

/-- In every run in which no batch insert or rename meets another content than it was resolved
against, every file is spliced from the content its offsets belong to. -/
theorem staged_from_base {index : LiveIndex} {request : BatchRequest} {call final : BatchCall}
    {events : List CallEvent} (started : start env index request = .ok call)
    (kept : RunMeets (step env) ContentKept call events)
    (reached : run (step env) call events = some final) :
    ∀ file ∈ final.staged, SplicedFromBase env final file :=
  (run_invariant_meets (Invariant env)
    (fun _ _ _ invariant meets taken => step_invariant invariant meets taken)
    (start_invariant started) kept reached).staged

end BatchCall

/-! ### One function -/

/-- An environment without reroutes, in which a selector is a name. -/
def plainEnvironment : EditEnvironment where
  resolveOrError file selector :=
    match file.symbols.find? fun sym => sym.name == selector.name with
    | some sym => .ok sym
    | none => .error "Symbol not found"
  rustInsertionPrefixStart := bareItemStart
  fromUtf8Lossy := id
  resolveTarget path _ := .ok ⟨path, path, false⟩
  readTarget _ := .error "not a rerouted target"

/-- An index of one Rust file with one function `a` that ends where its line does. -/
def oneFunctionIndex (content : Bytes) (start stop : Nat) : LiveIndex where
  files := [("lib.rs", ⟨content, .rust, [⟨"a", .function, (start, stop), (0, 0), none⟩], [], []⟩)]
  distinct := show (["lib.rs"] : List String).Nodup by decide
  reverseIndex := []
  unverifiedSeed := false

/-- An insertion behind `a`. -/
def insertAfterA : BatchRequest :=
  .insert ⟨"fn b();", .after, [⟨"lib.rs", ⟨"a", none, none⟩, none⟩], none⟩

/-- An index of one declaration. -/
def functionIndex : LiveIndex := oneFunctionIndex (utf8 "fn a();\n") 0 7

/-- The work of that insertion. -/
def insertWork : String × BatchWork :=
  ("lib.rs", .insert ⟨"fn b();", .after, [⟨"a", .function, (0, 7), (0, 0), none⟩], .rust, none⟩)

/-- The insertion after `a`, resolved. -/
def insertCall : BatchCall := ⟨functionIndex, functionIndex, [insertWork], [insertWork], [], none⟩

/-- The insertion, staged on what `index` holds. -/
def insertStaged (index : LiveIndex) (original newContent : Bytes) : BatchCall :=
  ⟨index, functionIndex, [insertWork], [],
    [⟨"lib.rs", ⟨"lib.rs", "lib.rs", false⟩, original, newContent, .rust⟩], none⟩

/-- A comment is published above the function between resolving and staging: the code is inserted in
the middle of the moved function. -/
theorem insert_splits_moved_function :
    let moved := oneFunctionIndex (utf8 "// x\nfn a();\n") 5 12
    let final := insertStaged moved (utf8 "// x\nfn a();\n") (utf8 "// x\nfn\n\nfn b(); a();\n")
    start plainEnvironment functionIndex insertAfterA = .ok insertCall ∧
      run (step plainEnvironment) insertCall [.publish moved, .stageNext] =
        some final ∧
      ∃ file ∈ final.staged, ¬ SplicedFromBase plainEnvironment final file := by
  refine ⟨rfl, rfl, _, mem_cons_self, ?_⟩
  rintro ⟨work, base, member, captured, spliced⟩
  cases mem_singleton.mp member
  cases captured
  revert spliced
  decide

/-- Publishing the same file again does no harm. -/
theorem insert_after_republished :
    let final := insertStaged functionIndex (utf8 "fn a();\n") (utf8 "fn a();\n\nfn b();\n")
    run (step plainEnvironment) insertCall [.publish functionIndex, .stageNext] =
        some final ∧
      ∀ file ∈ final.staged, SplicedFromBase plainEnvironment final file := by
  have started : start plainEnvironment functionIndex insertAfterA = .ok insertCall := rfl
  have reached : run (step plainEnvironment) insertCall
      [.publish functionIndex, .stageNext] = some (insertStaged functionIndex (utf8 "fn a();\n")
        (utf8 "fn a();\n\nfn b();\n")) := rfl
  have kept : RunMeets (step plainEnvironment) ContentKept insertCall
      [.publish functionIndex, .stageNext] := by
    refine .cons trivial rfl (.cons (fun current captured => ?_) rfl trivial)
    cases captured
    exact ⟨_, rfl, rfl, rfl⟩
  exact ⟨reached, staged_from_base started kept reached⟩

end Symforge.Edit
