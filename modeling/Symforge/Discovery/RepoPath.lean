import Symforge.Knowledge.SensitivePath
import Symforge.Library.FileTree
import Symforge.Utf8

/-!
# Paths that callers name

Model of `resolve_repo_path` of `discovery/mod.rs` on Unix: a path is resolved only under its
own name. The disk is a directory tree that does not change during the call. Paths are their bytes
or their components; the caller's path is text, so `to_string_lossy` keeps its names.
-/

namespace Symforge.Discovery

open Library Knowledge List

/-- The component of a segment of a path behind its start. -/
def segmentComponent (segment : Bytes) : Option (PathStep Bytes) :=
  if segment = [] ∨ segment = [0x2E] then none
  else if segment = [0x2E, 0x2E] then some .parent
  else some (.name segment)

/-- The segments between the separators of a path. -/
def segments (path : Bytes) : List Bytes := path.splitOn 0x2F

/-- `Path::components`. -/
def components (path : Bytes) : List (PathStep Bytes) :=
  let start := match segments path with
    | [] :: _ :: _ => [.root]
    | [0x2E] :: _ => [.here]
    | _ => []
  start ++ (segments path).filterMap segmentComponent

/-- The normal components. -/
def normalNames (path : List (PathStep Bytes)) : List Bytes :=
  path.filterMap fun
    | .name name => some name
    | _ => none

/-- `clean_spelling` of these normal components. -/
def cleanSpelling (names : List Bytes) : Bytes := intercalate [0x2F] names

/-- What the call reads: the disk, and tables and texts of the standard library. -/
structure Environment where
  tree : FileTree Bytes
  sameName : Bytes → Bytes → Bool
  maxLinks : Nat
  workingDirectory : List Bytes
  workingDirectory_plain : tree.Plain sameName workingDirectory
  foldCase : Bytes → Bytes
  describe : PathFault → Bytes

/-- `path_is_hard_scope_excluded`. -/
def pathIsHardScopeExcluded (foldCase : Bytes → Bytes) (path : Bytes) : Bool :=
  (normalNames (components path)).any fun name =>
    foldCase name == utf8 ".git" || foldCase name == utf8 ".symforge"

/-- `PathRefusal`, without the refusal of Windows. -/
inductive PathRefusal where
  | outsideRoot
  | unresolvable (reason : Bytes)
  | credentialAlias (ruleId : String)
  | spellingDiffers (name : Option Bytes)
  deriving DecidableEq, Repr

/-- `refuse_as_spelling_of`. -/
def refuseAsSpellingOf (foldCase : Bytes → Bytes) (name : Bytes) : PathRefusal :=
  match sensitivePathRule foldCase name with
  | some ruleId => .credentialAlias ruleId
  | none =>
    if pathIsHardScopeExcluded foldCase name then .spellingDiffers none
    else .spellingDiffers (some name)

namespace Environment

variable (env : Environment) (path : List (PathStep Bytes))

/-- `fs::canonicalize`. -/
def canonicalize : Except PathFault (List Bytes) :=
  env.tree.realpath env.sameName env.maxLinks path env.workingDirectory

/-- `fs::symlink_metadata`. -/
def symlinkMetadata : Except PathFault (FileTree Bytes) :=
  env.tree.lstat env.sameName env.maxLinks path env.workingDirectory

/-- The names that `fs::read_dir` lists. -/
def readDir (path : List Bytes) : Option (List Bytes) := do
  let resolved ← (env.canonicalize (.root :: path.map .name)).toOption
  (← (env.tree.lookup env.sameName resolved).toOption).listing

/-- The name of a listing that is a name or, if it is not listed, folds to it. -/
def listedName (entries : List Bytes) (name : Bytes) : Option Bytes :=
  let folded := env.foldCase (fromUtf8Lossy name)
  if name ∈ entries then some name
  else entries.find? fun entry => env.foldCase (fromUtf8Lossy entry) = folded

/-- `listed_spelling`. -/
def listedSpelling : (parent relative : List Bytes) → Option (List Bytes)
  | _, [] => some []
  | parent, name :: rest => do
    let listed ← env.listedName (← env.readDir parent) name
    let others ← listedSpelling (parent ++ [listed]) rest
    some (listed :: others)

variable (root requested : List (PathStep Bytes))

/-- `absolute_beneath_root`. -/
def absoluteBeneathRoot : Option Bytes := do
  let relative ← root.isPrefixOf? requested <|> do
    let canonRoot ← (env.canonicalize root).toOption
    let canonPath ← (env.canonicalize requested).toOption
    (canonRoot.isPrefixOf? canonPath).map (map .name)
  let clean := cleanSpelling ((normalNames relative).map fromUtf8Lossy)
  if (normalNames relative).length = relative.length ∧ clean ≠ [] then some clean else none

/-- The part of `resolve_repo_path` that asks the disk. -/
def resolveOnDisk (relativePath : Bytes) :
    Except PathRefusal (Option (List Bytes)) :=
  let unresolved (fault : PathFault) : PathRefusal := .unresolvable
    (utf8 "cannot resolve path '" ++ relativePath ++ utf8 "': " ++ env.describe fault)
  match env.symlinkMetadata (root ++ requested) with
  | .error .notFound => .ok none
  | .error fault => .error (unresolved fault)
  | .ok _ =>
    match env.canonicalize root, env.canonicalize (root ++ requested) with
    | .error fault, _ =>
      .error (.unresolvable (utf8 "cannot resolve repo root: " ++ env.describe fault))
    | .ok _, .error fault => .error (unresolved fault)
    | .ok canonRoot, .ok canonPath =>
      match canonRoot.isPrefixOf? canonPath with
      | none => .error .outsideRoot
      | some canonical =>
        if canonical.map .name = requested.filter (· ≠ .here) then
          match env.listedSpelling canonRoot canonical with
          | none => .error (.spellingDiffers none)
          | some listed =>
            if listed = canonical then .ok (some canonPath)
            else .error (refuseAsSpellingOf env.foldCase (fromUtf8Lossy (cleanSpelling listed)))
        else
          .error (refuseAsSpellingOf env.foldCase
            ((fromUtf8Lossy (cleanSpelling canonical)).map fun byte =>
              if byte = 0x5C then 0x2F else byte))

/-- `resolve_repo_path`. -/
def resolveRepoPath (root : List (PathStep Bytes)) (relativePath : Bytes) :
    Except PathRefusal (Option (List Bytes)) :=
  let requested := components relativePath
  let clean := cleanSpelling (normalNames requested)
  if requested.head? = some .root then
    match env.absoluteBeneathRoot root requested with
    | none => .error .outsideRoot
    | some spelling => .error (refuseAsSpellingOf env.foldCase spelling)
  else if .parent ∈ requested then .error .outsideRoot
  else if clean ≠ [] ∧ relativePath ≠ clean then .error (refuseAsSpellingOf env.foldCase clean)
  else env.resolveOnDisk root requested relativePath

end Environment

/-! ### Segments and components -/

variable {path : Bytes}

/-- A segment has no separator. -/
theorem separator_notMem_of_mem_segments {segment : Bytes} (member : segment ∈ segments path) :
    0x2F ∉ segment := by
  unfold segments splitOn at member
  induction path generalizing segment with
  | nil =>
    obtain rfl := mem_singleton.mp member
    exact not_mem_nil
  | cons byte rest ih =>
    rw [splitOnP_cons_eq_if_modifyHead] at member
    split at member
    · rcases mem_cons.mp member with rfl | later
      · exact not_mem_nil
      · exact ih later
    rename_i ordinary
    cases pieces : rest.splitOnP (· == 0x2F) with
    | nil => simp [pieces] at member
    | cons head tail =>
      rw [pieces, modifyHead_cons] at member
      rw [pieces] at ih
      rcases mem_cons.mp member with rfl | later
      · rw [mem_cons, not_or]
        exact ⟨fun same => ordinary (by simp [← same]), ih mem_cons_self⟩
      · exact ih (mem_cons_of_mem _ later)

/-- The segments that are names. -/
def isName (segment : Bytes) : Bool := segment ≠ [] ∧ segment ≠ [0x2E] ∧ segment ≠ [0x2E, 0x2E]

/-- A name is a normal component. -/
theorem segmentComponent_name {segment : Bytes} (named : isName segment = true) :
    segmentComponent segment = some (.name segment) := by
  simp only [isName, decide_eq_true_eq] at named
  simp [segmentComponent, named]

/-- The normal components are the names. -/
theorem normalNames_components (path : Bytes) :
    normalNames (components path) = (segments path).filter isName := by
  unfold normalNames components
  rw [filterMap_append, filterMap_filterMap]
  have start : filterMap (fun step : PathStep Bytes => match step with
      | .name name => some name
      | _ => none) (match segments path with
        | [] :: _ :: _ => [.root]
        | [0x2E] :: _ => [.here]
        | _ => []) = [] := by
    split <;> rfl
  rw [start, nil_append, ← filterMap_eq_filter]
  apply filterMap_congr
  intro segment _
  by_cases named : isName segment = true
  · simp [segmentComponent_name named, Option.guard, named]
  simp only [isName, decide_eq_true_eq] at named
  unfold segmentComponent
  split
  · simp [Option.guard, isName, named]
  split
  · simp [Option.guard, isName, named]
  rename_i neither dots
  exact absurd ⟨fun same => neither (.inl same), fun same => neither (.inr same), dots⟩ named

section
variable (named : normalNames (components path) ≠ [])
include named

/-- The clean spelling has the same names. -/
theorem segments_normalNames :
    segments (cleanSpelling (normalNames (components path))) = normalNames (components path) := by
  refine splitOn_intercalate _ (fun name member => ?_) named
  rw [normalNames_components] at member
  exact separator_notMem_of_mem_segments (mem_filter.mp member).1

/-- The clean spelling is not empty. -/
theorem cleanSpelling_ne_nil : cleanSpelling (normalNames (components path)) ≠ [] := by
  intro empty
  have lone := segments_normalNames named
  rw [empty, normalNames_components] at lone
  have member : ([] : Bytes) ∈ (segments path).filter isName := by
    rw [← lone]
    exact mem_singleton_self _
  exact absurd (mem_filter.mp member).2 (by decide)

/-- A path that is spelled as its normal components has no other segments. -/
theorem components_of_clean
    (clean : path = cleanSpelling (normalNames (components path))) :
    normalNames (components path) = segments path ∧
      components path = (segments path).map .name := by
  have names := normalNames_components path
  have own : normalNames (components path) = segments path := by
    conv_rhs => rw [clean]
    exact (segments_normalNames named).symm
  have proper : ∀ segment ∈ segments path, isName segment = true := by
    rw [← own, names]
    exact fun segment member => (mem_filter.mp member).2
  refine ⟨own, ?_⟩
  have mapped : (segments path).filterMap segmentComponent = (segments path).map .name := by
    rw [← filterMap_eq_map]
    exact filterMap_congr fun segment member => segmentComponent_name (proper _ member)
  unfold components
  rw [mapped]
  split
  · rename_i rest shape
    exact absurd (proper [] (by rw [shape]; exact mem_cons_self)) (by decide)
  · rename_i rest shape
    exact absurd (proper [0x2E] (by rw [shape]; exact mem_cons_self)) (by decide)
  · rfl

/-! ### The resolved path -/

end

/-- What is suggested is neither a credential path nor out of scope. -/
theorem suggestion_of_refuseAsSpellingOf {foldCase : Bytes → Bytes} {name suggested : Bytes}
    (refused : refuseAsSpellingOf foldCase name = .spellingDiffers (some suggested)) :
    sensitivePathRule foldCase suggested = none ∧
      pathIsHardScopeExcluded foldCase suggested = false := by
  unfold refuseAsSpellingOf at refused
  split at refused
  · cases refused
  rename_i ordinary
  split at refused
  · cases refused
  rename_i inScope
  cases refused
  exact ⟨ordinary, Bool.eq_false_iff.mpr inScope⟩

namespace Environment

variable {env : Environment}

/-- Names that are listed as they are. -/
theorem mem_readDir_of_listedSpelling {parent relative : List Bytes}
    (listed : env.listedSpelling parent relative = some relative) {front : List Bytes}
    {name : Bytes} (inside : front ++ [name] <+: relative) :
    ∃ entries, env.readDir (parent ++ front) = some entries ∧ name ∈ entries := by
  induction relative generalizing parent front with
  | nil => simp at inside
  | cons first rest ih =>
    simp only [listedSpelling, bind, Option.bind_eq_some_iff, Option.some.injEq,
      cons.injEq] at listed
    obtain ⟨entries, read, own, chosen, others, found, rfl, rfl⟩ := listed
    have member : own ∈ entries := by
      unfold listedName at chosen
      split at chosen
      · assumption
      · exact mem_of_find?_eq_some chosen
    cases front with
    | nil =>
      obtain ⟨rfl, -⟩ := cons_prefix_cons.mp inside
      exact ⟨_, by rwa [append_nil], member⟩
    | cons head front =>
      obtain ⟨rfl, deeper⟩ := cons_prefix_cons.mp inside
      obtain ⟨entries, read, member⟩ := ih found deeper
      exact ⟨_, by rwa [append_assoc] at read, member⟩

/-- A path resolved under its own name: every component is listed so in its parent, and none is a
link. -/
def OwnName (env : Environment) (root : List (PathStep Bytes)) (names path : List Bytes) : Prop :=
  ∃ canonRoot, env.canonicalize root = .ok canonRoot ∧ path = canonRoot ++ names ∧
    ∀ front name, front ++ [name] <+: names →
      (∃ node, env.tree.lookup env.sameName (canonRoot ++ front ++ [name]) = .ok node ∧
        node.isLink = false) ∧
      ∃ entries, env.readDir (canonRoot ++ front) = some entries ∧ name ∈ entries

/-- What a call can answer. -/
inductive Answers (env : Environment) (root requested : List (PathStep Bytes)) :
    Except PathRefusal (Option (List Bytes)) → Prop where
  | refused {refusal : PathRefusal} (silent : ∀ name, refusal ≠ .spellingDiffers (some name)) :
      Answers env root requested (.error refusal)
  | misspelled (name : Bytes) :
      Answers env root requested (.error (refuseAsSpellingOf env.foldCase name))
  | absent (missing : env.symlinkMetadata (root ++ requested) = .error .notFound) :
      Answers env root requested (.ok none)
  | resolved {names path : List Bytes} (own : env.OwnName root names path)
      (spelled : names.map .name = requested.filter (· ≠ .here)) :
      Answers env root requested (.ok (some path))

/-- The answer of the disk is a proper one. -/
theorem resolveOnDisk_answers (root requested : List (PathStep Bytes)) (relativePath : Bytes) :
    env.Answers root requested (env.resolveOnDisk root requested relativePath) := by
  unfold resolveOnDisk
  split
  · rename_i missing
    exact .absent missing
  · exact .refused nofun
  split
  · exact .refused nofun
  · exact .refused nofun
  rename_i canonRoot canonPath ofRoot ofPath
  split
  · exact .refused nofun
  rename_i canonical beneath
  split
  · rename_i spelled
    split
    · exact .refused nofun
    rename_i listed listing
    split
    · rename_i exact_names
      subst exact_names
      have whole := isPrefixOf?_eq_some_iff_append_eq.mp beneath
      have plain := env.workingDirectory_plain.realpath ofPath
      refine .resolved ⟨canonRoot, ofRoot, whole.symm, fun front name inside => ⟨?_, ?_⟩⟩
        spelled
      · apply plain
        rw [← whole, append_assoc]
        exact (prefix_append_right_inj _).mpr inside
      · exact mem_readDir_of_listedSpelling listing inside
    · exact .misspelled _
  · exact .misspelled _

/-- A call refuses a path or finds it spelled as its normal components. -/
theorem resolveRepoPath_answers (root : List (PathStep Bytes)) {relativePath : Bytes}
    (named : normalNames (components relativePath) ≠ []) :
    env.Answers root ((segments relativePath).map .name)
      (env.resolveRepoPath root relativePath) := by
  unfold resolveRepoPath
  dsimp only
  split
  · split
    · exact .refused nofun
    · exact .misspelled _
  split
  · exact .refused nofun
  split
  · exact .misspelled _
  rename_i spelled
  have clean := cleanSpelling_ne_nil named
  have own : relativePath = cleanSpelling (normalNames (components relativePath)) := by
    by_contra differs
    exact spelled ⟨clean, differs⟩
  rw [(components_of_clean named own).2]
  exact resolveOnDisk_answers _ _ _

/-- A path with a normal component is resolved only under its own name, is absent only if nothing
stands there, and is refused with an ordinary path as suggestion only. -/
theorem resolveRepoPath_own_name (env : Environment) (root : List (PathStep Bytes))
    {relativePath : Bytes} (named : normalNames (components relativePath) ≠ []) :
    (∀ path, env.resolveRepoPath root relativePath = .ok (some path) →
      env.OwnName root (segments relativePath) path) ∧
    (env.resolveRepoPath root relativePath = .ok none →
      env.symlinkMetadata (root ++ (segments relativePath).map .name) = .error .notFound) ∧
    ∀ name, env.resolveRepoPath root relativePath = .error (.spellingDiffers (some name)) →
      sensitivePathRule env.foldCase name = none ∧
        pathIsHardScopeExcluded env.foldCase name = false := by
  have answers := env.resolveRepoPath_answers root named
  refine ⟨fun path found => ?_, fun absent => ?_, fun name suggested => ?_⟩
  · rw [found] at answers
    cases answers with
    | resolved own spelled =>
      have same : (segments relativePath).map PathStep.name =
          ((segments relativePath).map .name).filter (· ≠ .here) := by
        symm
        rw [filter_eq_self]
        simp
      rw [← same] at spelled
      rwa [map_injective_iff.mpr (fun _ _ => PathStep.name.inj) spelled] at own
  · rw [absent] at answers
    cases answers with
    | absent missing => exact missing
  · rw [suggested] at answers
    generalize answer : Except.error (PathRefusal.spellingDiffers (some name)) = outcome at answers
    cases answers with
    | refused silent => exact absurd (Except.error.inj answer).symm (silent name)
    | misspelled spelling => exact suggestion_of_refuseAsSpellingOf (Except.error.inj answer).symm
    | absent missing | resolved own spelled => cases answer

/-- A repository with a file and a link to it. -/
def linkedFile : Environment where
  tree := .directory false [(utf8 "repo", .directory false
    [(utf8 "a.rs", .file), (utf8 "b.rs", .link [.name (utf8 "a.rs")])])]
  sameName _ _ := false
  maxLinks := 40
  workingDirectory := []
  workingDirectory_plain _ _ inside := by simp at inside
  foldCase := id
  describe _ := []

/-- The file is found, the link to it refused with the file's name. -/
theorem linkedFile_resolves :
    linkedFile.resolveRepoPath [.root, .name (utf8 "repo")] (utf8 "a.rs") =
        .ok (some [utf8 "repo", utf8 "a.rs"]) ∧
      linkedFile.OwnName [.root, .name (utf8 "repo")] (segments (utf8 "a.rs"))
        [utf8 "repo", utf8 "a.rs"] ∧
      linkedFile.resolveRepoPath [.root, .name (utf8 "repo")] (utf8 "b.rs") =
        .error (.spellingDiffers (some (utf8 "a.rs"))) := by
  have found : linkedFile.resolveRepoPath [.root, .name (utf8 "repo")] (utf8 "a.rs") =
      .ok (some [utf8 "repo", utf8 "a.rs"]) := by decide +kernel
  have named : normalNames (components (utf8 "a.rs")) ≠ [] := by decide +kernel
  exact ⟨found, (linkedFile.resolveRepoPath_own_name _ named).1 _ found, by decide +kernel⟩

end Environment

end Symforge.Discovery
