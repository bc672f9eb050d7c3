import Mathlib.Data.List.Sort
import Symforge.Knowledge.SecretScan
import Symforge.Utf8

/-!
# Planning the remediation of secrets

Model of `knowledge/secret_remediation.rs`: the ids of findings and their selection. Texts are
their bytes. The digest behind the ids is SHA-256 in hexadecimal, a parameter here.
-/

namespace Symforge.Knowledge

/-- What the detector and the plans take from other crates. -/
structure Environment where
  tables : CharTables
  /-- `paths::fold_case`. -/
  foldCase : Bytes → Bytes
  /-- `hash::digest_hex`. -/
  digestHex : Bytes → Bytes
  digestHex_length : ∀ bytes, 24 ≤ (digestHex bytes).length

variable (env : Environment)

/-- `SECRET_POLICY_VERSION`. -/
def secretPolicyVersion : Nat := 7

/-- A number as `format!` writes it. -/
def decimal (number : Nat) : Bytes := utf8 (toString number)

/-- Fields with a zero byte between them. -/
def zeroSeparated (fields : List Bytes) : Bytes := List.intercalate [0x00] fields

/-- `mint_finding_id`. -/
def mintFindingId (path : Bytes) (span : SecretMatchSpan) : Bytes :=
  let material := zeroSeparated [0x76 :: decimal secretPolicyVersion, path, utf8 span.rule.text,
    decimal span.lineStart, decimal span.lineEnd, utf8 span.shape]
  utf8 "wf_" ++ (env.digestHex material).take 24

/-- `SelectionRefusal`, as far as the functions here refuse. -/
inductive SelectionRefusal where
  | emptyFindings | duplicateFinding | tooManyFindings | scanIndeterminate | missingFinding
  | resourceLimit | cancelled | deadlineExceeded
  deriving DecidableEq, Repr

/-- `SelectedFinding`. -/
structure SelectedFinding where
  id : Bytes
  span : SecretMatchSpan
  deriving DecidableEq, Repr

/-- `SelectedFile`. -/
structure SelectedFile where
  path : Bytes
  original : Bytes
  findings : List SelectedFinding
  deriving DecidableEq, Repr

/-! ### Selection -/

section
open List

/-- The wanted findings of a file, and the ids wanted after it: an id is wanted once. -/
def takeWanted (path : Bytes) : (wanted : List Bytes) → List SecretMatchSpan →
    List SelectedFinding × List Bytes
  | wanted, [] => ([], wanted)
  | wanted, span :: rest =>
    let id := mintFindingId env path span
    if wanted.contains id then
      let later := takeWanted path (wanted.erase id) rest
      (⟨id, span⟩ :: later.1, later.2)
    else takeWanted path wanted rest

variable (read : Bytes → Except SelectionRefusal (Option Bytes))

/-- The loop of `select_requested_checked`. -/
def selectWanted : (wanted paths : List Bytes) → Except SelectionRefusal (List SelectedFile)
  | [], _ => .ok []
  | _, [] => .error .missingFinding
  | wanted, path :: rest =>
    match read path with
    | .error refusal => .error refusal
    | .ok none => selectWanted wanted rest
    | .ok (some original) =>
      match scanSecretSpans env.tables path original with
      | .error _ => .error .scanIndeterminate
      | .ok spans =>
        let (found, left) := takeWanted env path wanted spans
        (selectWanted left rest).map fun selected =>
          if found = [] then selected else ⟨path, original, found⟩ :: selected

variable (paths ids : List Bytes)

/-- `secret_remediation::select_requested_checked`. -/
def selectRequestedChecked : Except SelectionRefusal (List SelectedFile) :=
  if ids = [] then .error .emptyFindings
  else if 128 < ids.length then .error .tooManyFindings
  else if ¬ ids.Nodup then .error .duplicateFinding
  else selectWanted env read ids paths

/-- `scan_secret_spans` reports the span for one of the paths. -/
def IsReported (entry : Bytes × SecretMatchSpan) : Prop :=
  entry.1 ∈ paths ∧ ∃ original spans, read entry.1 = .ok (some original) ∧
    scanSecretSpans env.tables entry.1 original = .ok spans ∧ entry.2 ∈ spans

/-- The selected spans with their paths. -/
def picked (selected : List SelectedFile) : List (Bytes × SecretMatchSpan) :=
  selected.flatMap fun file => file.findings.map (file.path, ·.span)

/-- No reported span with a requested id is left behind. -/
def SelectsEvery : Prop :=
  ∀ selected, selectRequestedChecked env read paths ids = .ok selected →
    ∀ entry, IsReported env read paths entry → mintFindingId env entry.1 entry.2 ∈ ids →
      entry ∈ picked selected

variable {env read paths ids} {selected : List SelectedFile} {wanted : List Bytes}

/-- A file's findings are taken off the wanted ids. -/
theorem takeWanted_spec {path : Bytes} {spans : List SecretMatchSpan} {found : List SelectedFinding}
    {left : List Bytes} (taken : takeWanted env path wanted spans = (found, left)) :
    (found.map (mintFindingId env path ·.span) ++ left).Perm wanted ∧
      ∀ finding ∈ found, finding.span ∈ spans := by
  fun_induction takeWanted env path wanted spans generalizing found left with
  | case1 =>
    cases taken
    exact ⟨.rfl, nofun⟩
  | case2 wanted span rest id member =>
    rename_i ih
    cases taken
    obtain ⟨perm, known⟩ := ih rfl
    have listed := perm_cons_erase (contains_iff_mem.mp member)
    refine ⟨(perm.cons _).trans listed.symm, forall_mem_cons.mpr ⟨?_, ?_⟩⟩
    · exact mem_cons_self
    · exact fun finding taken => mem_cons_of_mem _ (known _ taken)
  | case3 =>
    rename_i ih
    obtain ⟨perm, known⟩ := ih taken
    exact ⟨perm, fun finding taken => mem_cons_of_mem _ (known _ taken)⟩

/-- The selection has the wanted ids, all reported. -/
theorem selectWanted_spec (chosen : selectWanted env read wanted paths = .ok selected) :
    ((picked selected).map fun entry => mintFindingId env entry.1 entry.2).Perm wanted ∧
      ∀ entry ∈ picked selected, IsReported env read paths entry := by
  fun_induction selectWanted env read wanted paths generalizing selected with
  | case1 =>
    cases chosen
    exact ⟨.rfl, nofun⟩
  | case4 wanted path rest _ _ ih =>
    obtain ⟨same, known⟩ := ih chosen
    exact ⟨same, fun entry taken => (known _ taken).imp_left (mem_cons_of_mem _)⟩
  | case6 wanted path rest _ original here spans scanned found left taken ih =>
    cases others : selectWanted env read left rest with
    | error => simp [others, Except.map] at chosen
    | ok selected =>
      rw [others] at chosen
      cases chosen
      obtain ⟨same, known⟩ := takeWanted_spec taken
      obtain ⟨sameLater, knownLater⟩ := ih others
      have parts : picked (if found = [] then selected else ⟨path, original, found⟩ :: selected) =
          found.map (path, ·.span) ++ picked selected := by
        split <;> simp [picked, *]
      rw [parts, map_append, map_map]
      refine ⟨(sameLater.append_left _).trans same, forall_mem_append.mpr ⟨?_, ?_⟩⟩
      · refine forall_mem_map.mpr fun finding taken => ?_
        exact ⟨mem_cons_self, original, spans, here, scanned, known _ taken⟩
      · exact fun entry taken => (knownLater _ taken).imp_left (mem_cons_of_mem _)
  | _ => cases chosen

/-- An id stands for one reported span, or the others that it stands for are left behind. -/
theorem selectsEvery_iff : SelectsEvery env read paths ids ↔
    ((∃ selected, selectRequestedChecked env read paths ids = .ok selected) → ∀ entry other,
      IsReported env read paths entry → IsReported env read paths other →
      mintFindingId env entry.1 entry.2 ∈ ids →
      mintFindingId env entry.1 entry.2 = mintFindingId env other.1 other.2 → entry = other) := by
  have spec {selected} (chosen : selectRequestedChecked env read paths ids = .ok selected) :
      ids.Nodup ∧ selectWanted env read ids paths = .ok selected := by
    unfold selectRequestedChecked at chosen
    split_ifs at chosen with _ _ distinct
    exact ⟨distinct, chosen⟩
  constructor
  · rintro every ⟨selected, chosen⟩ entry other reported otherReported wanted same
    have entryPicked := every _ chosen _ reported wanted
    have otherPicked := every _ chosen _ otherReported (same ▸ wanted)
    obtain ⟨distinct, chosen⟩ := spec chosen
    obtain ⟨perm, -⟩ := selectWanted_spec chosen
    exact inj_on_of_nodup_map (perm.nodup_iff.mpr distinct) entryPicked otherPicked same
  · intro once selected chosen entry reported wanted
    obtain ⟨perm, known⟩ := selectWanted_spec (spec chosen).2
    obtain ⟨other, isPicked, same⟩ := mem_map.mp (perm.mem_iff.mpr wanted)
    rw [once ⟨selected, chosen⟩ _ _ reported (known _ isPicked) wanted same.symm]
    exact isPicked

/-- An environment whose digest is the text itself. -/
def plainEnvironment : Environment where
  tables := ⟨isAsciiLetter, fun code => 0x41 ≤ code && code ≤ 0x5A,
    fun code => 0x61 ≤ code && code ≤ 0x7A⟩
  foldCase := toAsciiLowercase
  digestHex bytes := replicate 24 0x30 ++ bytes
  digestHex_length := by simp

/-- The path of a sample file. -/
def rustPath : Bytes := utf8 "a.rs"

/-- Two payloads of one shape on one line. -/
def twinTokens : Bytes := utf8 "let token = \"abcdefg1\"; let token = \"abcdefg2\";\n"

/-- One of two equal findings. -/
def firstTwin : SecretMatchSpan :=
  ⟨.contextAssignment, 1, 1, "8-char alnum with digits (secret.context-assignment)", 13, 21⟩

/-- The second payload has the id of the first, whatever the digest, and is not selected by it. -/
theorem second_twin_left : ∃ second ≠ firstTwin,
    scanSecretSpans plainEnvironment.tables rustPath twinTokens = .ok [firstTwin, second] ∧
    ∀ env : Environment, env.tables = plainEnvironment.tables → ∃ id,
      mintFindingId env rustPath firstTwin = id ∧ mintFindingId env rustPath second = id ∧
      selectRequestedChecked env (fun _ => .ok (some twinTokens)) [rustPath] [id] =
        .ok [⟨rustPath, twinTokens, [⟨id, firstTwin⟩]⟩] := by
  have scanned : scanSecretSpans plainEnvironment.tables rustPath twinTokens =
      .ok [firstTwin, { firstTwin with valueStart := 37, valueEnd := 45 }] := by
    decide +kernel
  refine ⟨_, by decide, scanned, fun env plain => ⟨_, rfl, rfl, ?_⟩⟩
  simp [selectRequestedChecked, selectWanted, plain, scanned, takeWanted, Except.map]

end

end Symforge.Knowledge
