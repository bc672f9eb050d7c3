import Symforge.Text
import Symforge.Library.Sequence
import Symforge.Lifecycle.Activation
import Symforge.Idempotency.ReplayFinality

/-!
# Verified replay

The lanes of `idempotency.rs` that replay a stored response only while its post-image receipt still
holds. A receipt is checked through the authority that admitted the operation, and through those of
the linked worktrees it names: the target must be, in the directory each authority was made for, a
regular file with the recorded digest, or absent if that was recorded. What the system, the
libraries and the process registry answer is given by a world.
-/

namespace Symforge.Idempotency

open Library Lifecycle

/-- `std::path::Component`. -/
inductive PathComponent where
  | volume (name : String)
  | rootDir
  | curDir
  | parentDir
  | normal (name : String)
deriving DecidableEq, Repr

/-- What a name beneath a directory is, without following a link. -/
inductive DiskEntry where
  | missing
  | link
  | file (bytes : Bytes)
  /-- A directory or a special file. -/
  | other
  | unreadable (message : String)
deriving DecidableEq, Repr

/-- What the verification reads. -/
structure ReplayWorld where
  process : Process
  /-- The directory that opens at a path. -/
  openDirectory : RootPath → Option PhysicalRootAnchor
  /-- The entries beneath a directory; a regular file is read whole. -/
  entry : PhysicalRootAnchor → List String → DiskEntry
  /-- `discovery::project_id_for_canonical_root`. -/
  projectId : RootPath → String
  /-- `activation::project_source_authority`. -/
  authorityAt : String → ProjectSourceAuthority
  /-- `Path::components` of the `dunce::simplified` path. -/
  components : String → List PathComponent
  /-- `hash::digest_hex`. -/
  digestHex : Bytes → String

/-- The text of a component. -/
def PathComponent.text : PathComponent → String
  | .volume name => name
  | .rootDir => "/"
  | .curDir => "."
  | .parentDir => ".."
  | .normal name => name

/-- The names of a path that stays beneath its start. -/
def normalNames : List PathComponent → Option (List String)
  | [] => some []
  | .normal name :: rest => (normalNames rest).map (name :: ·)
  | .curDir :: rest => normalNames rest
  | _ :: _ => none

/-- `PhysicalRootAnchor::stable_key` — device and inode, low byte first. -/
def stableKey (anchor : PhysicalRootAnchor) : Vector UInt8 16 :=
  .ofFn fun index => UInt8.ofNat <|
    if index.val < 8 then anchor.dev / 256 ^ index.val else anchor.ino / 256 ^ (index.val - 8)

/-- `MAX_BOUND_REPLAY_TARGETS`. -/
def maxBoundReplayTargets : Nat := 4096

open List

namespace ReplayWorld

variable (world : ReplayWorld)

/-- The path of a name beneath a root, for a refusal. -/
def beneath (root : RootPath) (names : List String) : String := "/".intercalate (root :: names)

variable (directory : PhysicalRootAnchor) (root : RootPath)

/-- `PhysicalRootLease::refuse_link_relative`, also the check of an ancestor in `resolve_beneath`.
-/
def refuseLink (names : List String) : Except RootRefusal Unit :=
  match world.entry directory names with
  | .link => .error (.linkComponent (beneath root names))
  | .unreadable message => .error (.unreadable (beneath root names) message)
  | _ => .ok ()

/-- The loop of `resolve_beneath` over the ancestors. -/
def walkAncestors (directory : PhysicalRootAnchor) (root : RootPath) :
    List String → List String → Except RootRefusal Unit
  | _, [] => .ok ()
  | walked, name :: rest => do
    world.refuseLink directory root (walked ++ [name])
    walkAncestors directory root (walked ++ [name]) rest

variable (relative : List PathComponent)

/-- `PhysicalRootLease::resolve_beneath` — the names beneath the leased directory. -/
def resolveBeneath : Except RootRefusal (List String) :=
  let escapes := RootRefusal.escapesRoot ("/".intercalate (relative.map PathComponent.text))
  match normalNames relative with
  | none => .error escapes
  | some [] => .error escapes
  | some names => do
    world.walkAncestors directory root [] names.dropLast
    return names

/-- `physical_root::open_regular_beneath` — `none` where nothing is there. -/
def openRegularBeneath : Except RootRefusal (Option Bytes) := do
  let names ← world.resolveBeneath directory root relative
  world.refuseLink directory root names
  match world.entry directory names with
  | .missing => return none
  | .file bytes => return some bytes
  | .unreadable message => .error (.unreadable (beneath root names) message)
  | _ => .error (.unreadable (beneath root names) "not a regular file")

/-- `physical_root::digest_regular_beneath`. -/
def digestRegularBeneath : Except RootRefusal (Option String) := do
  let bytes ← world.openRegularBeneath directory root relative
  return bytes.map world.digestHex

/-- `PhysicalRootLease::take_matching_anchor` — the directory of the new lease. -/
def takeMatchingAnchor (expected : Option PhysicalRootAnchor) :
    Except RootRefusal PhysicalRootAnchor := do
  let (lease, process) := PhysicalRootLease.take world.process root (world.openDirectory root)
  let directory ← lease.capability process
  if expected = none ∨ some directory ≠ expected then .error .leaseRevoked
  else return directory

/-- `ProjectSourceAuthority::digest_regular_beneath_anchor`, for no expected publication. -/
def digestRegularBeneathAnchor (authority : ProjectSourceAuthority)
    (relative : List PathComponent) : Except AuthorityRefusal (Option String) :=
  let phase := authority.inner.runtime.phase.name
  if !authority.inner.lease.isLive world.process then .error .physicalRootReplaced
  else if phase = .blocked ∨ phase = .stopping then .error (.phaseNotCurrent phase)
  else
    (do
      let directory ← world.takeMatchingAnchor authority.root authority.physicalAnchor
      world.digestRegularBeneath directory authority.root relative).mapError
        AuthorityRefusal.ofRoot

/-- `idempotency::source_binding`. -/
def sourceBinding (source : ProjectSourceAuthority) : Option PostImageSourceBinding :=
  source.physicalAnchor.map fun anchor => ⟨world.projectId source.root, stableKey anchor⟩

/-- `Path::strip_prefix` of a target by a root, with the depth of the root. -/
def holding (target : String) (owner : ProjectSourceAuthority) :
    Option (ProjectSourceAuthority × List PathComponent × Nat) :=
  let root := world.components owner.root
  let path := world.components target
  if root <+: path then some (owner, path.drop root.length, root.length) else none

/-- `Iterator::max_by_key` on the depth: the last of the deepest. -/
def deepest : List (ProjectSourceAuthority × List PathComponent × Nat) →
    Option (ProjectSourceAuthority × List PathComponent × Nat)
  | [] => none
  | first :: rest => some (rest.foldl
      (fun best candidate => if best.2.2 ≤ candidate.2.2 then candidate else best) first)

variable (sources : List ProjectSourceAuthority)

/-- The check of one target in `verify_post_image_bound`. -/
def verifyTarget (target : PostImageTarget) : Bool :=
  match deepest (sources.filterMap (world.holding target.path)) with
  | none => false
  | some (owner, relative, _) =>
    match world.digestRegularBeneathAnchor owner relative with
    | .error _ => false
    | .ok observed => observed = target.contentDigest

variable (receipt : PostImageReceipt)

/-- The authorities of the linked worktrees that a receipt names. -/
def linkedAuthorities : List ProjectSourceAuthority :=
  receipt.linkedSources.map fun recorded => world.authorityAt recorded.root

/-- `idempotency::verify_post_image_bound`. -/
def verifyPostImageBound (source : ProjectSourceAuthority) : Bool :=
  match receipt.source with
  | none => false
  | some binding =>
    if receipt.targets.isEmpty ∨ maxBoundReplayTargets < receipt.targets.length ∨
        world.sourceBinding source ≠ some binding then false
    else if !receipt.linkedSources.all fun recorded =>
        world.sourceBinding (world.authorityAt recorded.root) = some recorded.binding then false
    else receipt.targets.all (world.verifyTarget (source :: world.linkedAuthorities receipt))

/-- Under these names, through no link, is a regular file with the digest, or nothing if there is
none. -/
def HasDigest (names : List String) : Option String → Prop
  | none => world.entry directory names = .missing
  | some digest => ∃ bytes, world.entry directory names = .file bytes ∧
      world.digestHex bytes = digest

/-- A target has its recorded digest now, in the directory that its owner was made for. -/
def TargetAttested (target : PostImageTarget) : Prop :=
  ∃ owner ∈ sources, ∃ directory relative names,
    owner.physicalAnchor = some directory ∧ world.openDirectory owner.root = some directory ∧
    world.components target.path = world.components owner.root ++ relative ∧
    normalNames relative = some names ∧ names ≠ [] ∧
    (∀ part, part ≠ [] → part <+: names → world.entry directory part ≠ .link) ∧
    world.HasDigest directory names target.contentDigest

/-- The receipt is bound to the source and its linked worktrees, and every target has its digest
now. -/
def Attested (source : ProjectSourceAuthority) : Prop :=
  (∃ binding, receipt.source = some binding ∧ world.sourceBinding source = some binding) ∧
  (∀ recorded ∈ receipt.linkedSources,
    world.sourceBinding (world.authorityAt recorded.root) = some recorded.binding) ∧
  receipt.targets ≠ [] ∧
  ∀ target ∈ receipt.targets,
    world.TargetAttested (source :: world.linkedAuthorities receipt) target

variable {world}

variable {directory : PhysicalRootAnchor} {root : RootPath} {relative : List PathComponent}

/-- What is let through is no link. -/
theorem refuseLink_ok {names : List String}
    (allowed : world.refuseLink directory root names = .ok ()) :
    world.entry directory names ≠ .link := by
  intro link
  simp only [refuseLink, link] at allowed
  cases allowed

/-- No ancestor that was walked is a link. -/
theorem walkAncestors_ok {walked names : List String}
    (allowed : world.walkAncestors directory root walked names = .ok ()) :
    ∀ part, part ≠ [] → part <+: names → world.entry directory (walked ++ part) ≠ .link := by
  induction names generalizing walked with
  | nil =>
    intro part present ancestor
    exact absurd (prefix_nil.mp ancestor) present
  | cons name rest ih =>
    obtain ⟨done, checked, onward⟩ := bind_eq_ok allowed
    intro part present ancestor
    cases part with
    | nil => exact absurd rfl present
    | cons head tail =>
      obtain ⟨rfl, later⟩ := cons_prefix_cons.mp ancestor
      by_cases last : tail = []
      · subst last
        exact refuseLink_ok checked
      · have further := ih onward _ last later
        rwa [append_assoc] at further

/-- A resolved path stays beneath the directory, and no ancestor is a link. -/
theorem resolveBeneath_ok {names : List String}
    (resolved : world.resolveBeneath directory root relative = .ok names) :
    normalNames relative = some names ∧ names ≠ [] ∧
      ∀ part, part ≠ [] → part <+: names.dropLast → world.entry directory part ≠ .link := by
  unfold resolveBeneath at resolved
  split at resolved
  · cases resolved
  · cases resolved
  rename_i found nonempty normal
  obtain ⟨done, walked, same⟩ := bind_eq_ok resolved
  obtain rfl : found = names := Except.ok.inj same
  exact ⟨normal, nonempty, walkAncestors_ok walked⟩

/-- A digest that was read is of what is there. -/
theorem digestRegularBeneath_ok {observed : Option String}
    (read : world.digestRegularBeneath directory root relative = .ok observed) :
    ∃ names, normalNames relative = some names ∧ names ≠ [] ∧
      (∀ part, part ≠ [] → part <+: names → world.entry directory part ≠ .link) ∧
      world.HasDigest directory names observed := by
  obtain ⟨bytes, opened, same⟩ := bind_eq_ok read
  obtain ⟨names, resolved, checks⟩ := bind_eq_ok opened
  obtain ⟨done, checked, inspected⟩ := bind_eq_ok checks
  obtain ⟨normal, nonempty, ancestors⟩ := resolveBeneath_ok resolved
  cases same
  refine ⟨_, normal, nonempty, ?_, ?_⟩
  · intro part present shorter
    by_cases whole : part = names
    · rw [whole]
      exact refuseLink_ok checked
    have strict : part.length < names.length :=
      Nat.lt_of_le_of_ne shorter.length_le fun same => whole (shorter.eq_of_length same)
    have parent := dropLast_prefix names
    refine ancestors _ present (prefix_of_prefix_length_le shorter parent ?_)
    rw [length_dropLast]
    omega
  · cases found : world.entry directory names with
    | missing =>
      simp only [found] at inspected
      cases inspected
      exact found
    | file bytes =>
      simp only [found] at inspected
      cases inspected
      exact ⟨bytes, found, rfl⟩
    | link | other | unreadable message =>
      simp only [found] at inspected
      cases inspected

/-- The directory that was read is the one the authority was made for. -/
theorem takeMatchingAnchor_ok {expected : Option PhysicalRootAnchor}
    (taken : world.takeMatchingAnchor root expected = .ok directory) :
    world.openDirectory root = some directory ∧ expected = some directory := by
  obtain ⟨found, opened, matched⟩ := bind_eq_ok taken
  split at matched
  · cases matched
  rename_i matching
  cases matched
  obtain ⟨-, same⟩ := not_or.mp matching
  exact ⟨PhysicalRootLease.capability_ok opened, (not_not.mp same).symm⟩

/-- A digest read through an authority is of its own directory. -/
theorem digestRegularBeneathAnchor_ok {authority : ProjectSourceAuthority}
    {observed : Option String}
    (read : world.digestRegularBeneathAnchor authority relative = .ok observed) :
    ∃ directory, authority.physicalAnchor = some directory ∧
      world.openDirectory authority.root = some directory ∧
      world.digestRegularBeneath directory authority.root relative = .ok observed := by
  unfold digestRegularBeneathAnchor at read
  dsimp only at read
  split at read
  · cases read
  split at read
  · cases read
  obtain ⟨directory, taken, digested⟩ := bind_eq_ok (mapError_eq_ok read)
  obtain ⟨opened, anchored⟩ := takeMatchingAnchor_ok taken
  exact ⟨_, anchored, opened, digested⟩

/-- The deepest candidate is one of them. -/
theorem deepest_mem {candidates : List (ProjectSourceAuthority × List PathComponent × Nat)}
    {chosen : ProjectSourceAuthority × List PathComponent × Nat}
    (found : deepest candidates = some chosen) : chosen ∈ candidates := by
  cases candidates with
  | nil => cases found
  | cons first rest =>
    cases found
    induction rest generalizing first with
    | nil => exact mem_cons_self
    | cons second rest ih =>
      rw [foldl_cons]
      have chosen := ih (if first.2.2 ≤ second.2.2 then second else first)
      split at chosen
      · rename_i later
        rw [if_pos later]
        exact mem_cons_of_mem _ chosen
      · rename_i earlier
        rw [if_neg earlier]
        rcases mem_cons.mp chosen with here | later
        · rw [here]
          exact mem_cons_self
        · exact mem_cons_of_mem _ (mem_cons_of_mem _ later)

/-- A verified target is attested. -/
theorem verifyTarget_attested {sources : List ProjectSourceAuthority} {target : PostImageTarget}
    (verified : world.verifyTarget sources target = true) :
    world.TargetAttested sources target := by
  unfold verifyTarget at verified
  split at verified
  · cases verified
  rename_i owner relative depth chosen
  obtain ⟨source, listed, held⟩ := mem_filterMap.mp (deepest_mem chosen)
  unfold holding at held
  dsimp only at held
  split at held
  swap
  · cases held
  rename_i inside
  cases held
  split at verified
  · cases verified
  rename_i observed read
  obtain rfl := of_decide_eq_true verified
  obtain ⟨directory, anchored, opened, digested⟩ := digestRegularBeneathAnchor_ok read
  obtain ⟨names, normal, nonempty, unlinked, digest⟩ := digestRegularBeneath_ok digested
  exact ⟨owner, listed, _, _, _, anchored, opened,
    (prefix_iff_eq_append.mp inside).symm, normal, nonempty, unlinked, digest⟩

/-- A receipt that verifies is attested. -/
theorem verifyPostImageBound_attested {receipt : PostImageReceipt} {source : ProjectSourceAuthority}
    (verified : world.verifyPostImageBound receipt source = true) :
    world.Attested receipt source := by
  unfold verifyPostImageBound at verified
  split at verified
  · cases verified
  rename_i binding bound
  split at verified
  · cases verified
  rename_i checks
  simp only [not_or, not_not, List.isEmpty_iff] at checks
  split at verified
  · cases verified
  rename_i linked
  rw [Bool.not_eq_true', Bool.not_eq_false, all_eq_true] at linked
  rw [all_eq_true] at verified
  exact ⟨⟨_, bound, checks.2.2⟩,
    fun recorded listed => of_decide_eq_true (linked _ listed), checks.1,
    fun target listed => verifyTarget_attested (verified _ listed)⟩

/-- One authority, over a directory with one file of two bytes. -/
def sample : ReplayWorld where
  process := (ProjectSourceAuthority.forRoot Process.initial "/r" (some ⟨1, 2⟩)).2
  openDirectory := fun _ => some ⟨1, 2⟩
  entry := fun _ names => if names = ["f"] then .file [104, 105] else .missing
  projectId := id
  authorityAt := fun _ => (ProjectSourceAuthority.forRoot Process.initial "/r" (some ⟨1, 2⟩)).1
  components := fun path =>
    if path = "/r" then [.rootDir, .normal "r"] else [.rootDir, .normal "r", .normal path]
  digestHex := fun bytes => toString bytes.length

/-- A file with its digest and an absent target. -/
def sampleReceipt : PostImageReceipt :=
  ⟨[⟨"f", some "2"⟩, ⟨"g", none⟩], some ⟨"/r", stableKey ⟨1, 2⟩⟩, []⟩

end ReplayWorld

/-- `Debug` of a status. -/
def ReplayStatus.debug : ReplayStatus → String
  | .reserved => "Reserved"
  | .started => "Started"
  | .uncertain => "Uncertain"
  | .completed => "Completed"
  | .failed => "Failed"

/-- `idempotency::replay_response`. -/
def ReplayContext.replayResponse {Contents : Type} (context : ReplayContext Contents)
    (record : ReplayRecord) : String :=
  match record.status, record.responseText with
  | .completed, some responseText | .failed, some responseText =>
    match context.validateReplayResponse responseText with
    | .ok () => responseText
    | .error _ =>
      "Error: Idempotency replay unavailable: persisted response requires reconciliation."
  | .reserved, _ => "Error: Idempotency replay unavailable: request for key hash " ++
      record.keyHash ++ " is still reserved."
  | .started, _ | .uncertain, _ => "Error: Idempotency replay unavailable: request for key hash " ++
      record.keyHash ++ " requires reconciliation."
  | status, none => "Error: Idempotency replay unavailable: record for key hash " ++
      record.keyHash ++ " has status " ++ status.debug ++ " but no stored response."

/-- The answer of the verified lanes to a record that they may not replay. -/
def reconciliationText : String :=
  "Error: Idempotency replay unavailable: stored operation requires reconciliation."

/-- `idempotency::ReplayStart`. -/
inductive ReplayStart where
  | firstExecution
  | replay (text : String)
deriving DecidableEq, Repr

/-- A tool request with its key, its tool and the hash that they and its arguments give. -/
structure ToolRequest where
  rawKey : String
  toolName : String
  requestHash : RequestHash

/-- `IdempotencyKey::new` and `RequestHash::for_tool_request`. -/
def ToolRequest.hash (tool : ToolRequest) : Except IdempotencyError RequestHash :=
  if tool.rawKey.isEmpty then .error .emptyKey
  else if tool.toolName.isEmpty then .error .emptyToolName
  else .ok tool.requestHash

section Lanes

variable {Contents : Type} (context : ReplayContext Contents) (verify : PostImageReceipt → Bool)

/-- What a verified lane answers to a stored record. -/
def verifiedResponse (record : ReplayRecord) : String :=
  if record.status = .completed ∧ record.postImage.any verify then context.replayResponse record
  else reconciliationText

/-- `begin_tool_replay_verified_with`, with the decision of `check_or_reserve`. -/
inductive BeginsVerified (tool : ToolRequest) : KeyFiles Contents →
    Option (Except IdempotencyError ReplayStart) → KeyFiles Contents → Prop
  | refused {refusal : IdempotencyError} (files : KeyFiles Contents)
      (refused : tool.hash = .error refusal) :
      BeginsVerified tool files (some (.error refusal)) files
  | unopened (files : KeyFiles Contents) (message : String) :
      BeginsVerified tool files (some (.error (.io message))) files
  | stopped {request : RequestHash} {files last : KeyFiles Contents}
      (hashed : tool.hash = .ok request)
      (executed : Executes context (.checkOrReserve request) .checking files none last) :
      BeginsVerified tool files none last
  | failed {request : RequestHash} {files last : KeyFiles Contents} {error : IdempotencyError}
      (hashed : tool.hash = .ok request)
      (executed : Executes context (.checkOrReserve request) .checking files
        (some (.error error)) last) :
      BeginsVerified tool files (some (.error error)) last
  | first {request : RequestHash} {files last : KeyFiles Contents} {record : ReplayRecord}
      (hashed : tool.hash = .ok request)
      (executed : Executes context (.checkOrReserve request) .checking files
        (some (.ok (.decision (.firstExecution record)))) last) :
      BeginsVerified tool files (some (.ok .firstExecution)) last
  | replay {request : RequestHash} {files last : KeyFiles Contents} {record : ReplayRecord}
      (hashed : tool.hash = .ok request)
      (executed : Executes context (.checkOrReserve request) .checking files
        (some (.ok (.decision (.replay record)))) last) :
      BeginsVerified tool files (some (.ok (.replay (verifiedResponse context verify record))))
        last

/-- `probe_tool_replay_verified_with`, with the record of `replay_if_present`. -/
inductive ProbesVerified (tool : ToolRequest) : KeyFiles Contents →
    Option (Except IdempotencyError (Option String)) → KeyFiles Contents → Prop
  | refused {refusal : IdempotencyError} (files : KeyFiles Contents)
      (refused : tool.hash = .error refusal) :
      ProbesVerified tool files (some (.error refusal)) files
  | unopened (files : KeyFiles Contents) (message : String) :
      ProbesVerified tool files (some (.error (.io message))) files
  | stopped {request : RequestHash} {files last : KeyFiles Contents}
      (hashed : tool.hash = .ok request)
      (executed : Executes context (.replayIfPresent request) .probing files none last) :
      ProbesVerified tool files none last
  | failed {request : RequestHash} {files last : KeyFiles Contents} {error : IdempotencyError}
      (hashed : tool.hash = .ok request)
      (executed : Executes context (.replayIfPresent request) .probing files
        (some (.error error)) last) :
      ProbesVerified tool files (some (.error error)) last
  | probed {request : RequestHash} {files last : KeyFiles Contents}
      {record : Option ReplayRecord} (hashed : tool.hash = .ok request)
      (executed : Executes context (.replayIfPresent request) .probing files
        (some (.ok (.probed record))) last) :
      ProbesVerified tool files
        (some (.ok (record.map (verifiedResponse context verify)))) last

end Lanes

variable {Contents : Type} {context : ReplayContext Contents} {world : ReplayWorld}
  {source : ProjectSourceAuthority} {tool : ToolRequest} {before files : KeyFiles Contents}

/-- The text is the response of a completed record whose receipt holds now, or asks to reconcile. -/
def AttestedText (context : ReplayContext Contents) (world : ReplayWorld)
    (source : ProjectSourceAuthority) (files : KeyFiles Contents) (text : String) : Prop :=
  text = reconciliationText ∨ ∃ record receipt, Stored context files record ∧
    record.status = .completed ∧ record.postImage = some receipt ∧
    world.Attested receipt source ∧ text = context.replayResponse record

/-- A response is given out for attested files. -/
theorem verifiedResponse_attested {record : ReplayRecord} (stored : Stored context files record) :
    AttestedText context world source files
      (verifiedResponse context (world.verifyPostImageBound · source) record) := by
  unfold verifiedResponse
  split
  · rename_i verified
    obtain ⟨completed, attested⟩ := verified
    obtain ⟨receipt, found, verified⟩ := (Option.any_eq_true _ _).mp attested
    exact .inr ⟨_, receipt, stored, completed, found,
      ReplayWorld.verifyPostImageBound_attested verified, rfl⟩
  · exact .inl rfl

/-- The bound lane never executes an existing key, and replays attested results only. -/
theorem begins_attested {start : ReplayStart}
    (began : BeginsVerified context (world.verifyPostImageBound · source) tool before
      (some (.ok start)) files) :
    (start = .firstExecution → before.directory = none) ∧
      ∀ text, start = .replay text →
        files = before ∧ AttestedText context world source before text := by
  cases began with
  | first hashed executed =>
    have reported := (executed.spec (firstPhase_alone)).2 _ rfl
    exact ⟨fun _ => reported, nofun⟩
  | replay hashed executed =>
    obtain ⟨same, stored, -⟩ := (executed.spec (firstPhase_alone)).2 _ rfl
    refine ⟨nofun, fun text replayed => ⟨same, ?_⟩⟩
    cases replayed
    exact verifiedResponse_attested stored

/-- So does the bound probe, which finds nothing only where there is no key. -/
theorem probes_attested {found : Option String}
    (probed : ProbesVerified context (world.verifyPostImageBound · source) tool before
      (some (.ok found)) files) :
    files = before ∧ ∀ text, found = some text →
      AttestedText context world source before text := by
  cases probed with
  | probed hashed executed =>
    rename_i request record
    have reported := (executed.spec (firstPhase_alone)).2 _ rfl
    cases record with
    | none => exact ⟨reported, nofun⟩
    | some record =>
      obtain ⟨same, stored, -⟩ := reported
      refine ⟨same, fun text replayed => ?_⟩
      cases replayed
      exact verifiedResponse_attested stored

/-- Over every sequence of operations on a key, with any failures and stops: a stored record stays
stored, of the same reservation and with a status that its status leads to, and a final one is not
even written again; a refusal changes no file; and the bound lanes execute no existing key and
replay attested results only. -/
theorem records_final_and_attested (context : ReplayContext Contents) :
    (∀ before files operations record, Sequentially context before operations files →
      Stored context before record →
        ∃ later, Stored context files later ∧ later.SameReservation record ∧
          record.status.leadsTo later.status = true ∧
          (record.status = .started → later.status ≠ .failed) ∧
          (record.status.isFinal = true → files.directory = before.directory ∧ later = record)) ∧
    (∀ operation refusal before files,
      Operates context operation before (some (.error refusal)) files →
        refusal.isRefusal = true → files = before) ∧
    (∀ world source tool before files start,
      BeginsVerified context (ReplayWorld.verifyPostImageBound world · source) tool before
        (some (.ok start)) files →
        (start = .firstExecution → before.directory = none) ∧
          ∀ text, start = .replay text →
            files = before ∧ AttestedText context world source before text) ∧
    (∀ world source tool before files found,
      ProbesVerified context (ReplayWorld.verifyPostImageBound world · source) tool before
        (some (.ok found)) files →
        files = before ∧ ∀ text, found = some text →
          AttestedText context world source before text) := by
  refine ⟨?_, fun _ _ _ _ operated refused => operated.refusal refused,
    fun _ _ _ _ _ _ began => begins_attested began,
    fun _ _ _ _ _ _ probed => probes_attested probed⟩
  intro before files operations record operated stored
  obtain ⟨later, laterStored, same, leads, final⟩ := operated.forward stored
  refine ⟨later, laterStored, same, leads, ?_, fun ended => ⟨final ended, ?_⟩⟩
  · intro started failed
    rw [started, failed] at leads
    cases leads
  · obtain ⟨contents, there, decoded⟩ := stored
    exact laterStored.unique ⟨_, (final ended).trans there, decoded⟩

/-- The records of a request that is reserved, started and completed. -/
def reservedRecord : ReplayRecord := .reserved "key" ⟨"a"⟩ 5

@[inherit_doc reservedRecord]
def startedRecord : ReplayRecord := reservedRecord.withStatusAndResponse .started none 5

@[inherit_doc reservedRecord]
def completedRecord : ReplayRecord :=
  RecordChange.apply startedRecord 5 (.receipt "done" ReplayWorld.sampleReceipt)

/-- The files of the key with this record. -/
def storing (record : ReplayRecord) : KeyFiles (Except String ReplayRecord) :=
  ⟨some (some (.ok record)), false, []⟩

/-- The request is started and completed, and then refused to fail. -/
def completion : List (StoreOperation × Option StoreResult) :=
  [(.active ⟨"a"⟩ .markStarted, some (.ok (.updated startedRecord))),
    (.active ⟨"a"⟩ (.completeWithPostImage "done" (some ReplayWorld.sampleReceipt)),
      some (.ok (.updated completedRecord))),
    (.active ⟨"a"⟩ (.fail "late"), some (.error .invalidTransition))]

/-- A completed record does not fail any more, and it is replayed while its receipt holds. -/
theorem completed_final_and_attested :
    Sequentially sampleContext (storing reservedRecord) completion (storing completedRecord) ∧
    (∃ later, Stored sampleContext (storing completedRecord) later ∧
      later.SameReservation reservedRecord) ∧
    AttestedText sampleContext .sample (ReplayWorld.sample.authorityAt "/r")
      (storing completedRecord) "done" := by
  have operated : Sequentially sampleContext (storing reservedRecord) completion
      (storing completedRecord) :=
    .cons (.called rfl (.next 5 0 none rfl (.next 5 0 none rfl (.next 5 0 none rfl
      (.returned (.ok (.updated startedRecord)) _)))))
    (.cons (.called rfl (.next 5 0 none rfl (.next 5 0 none rfl (.next 5 0 none rfl
      (.returned (.ok (.updated completedRecord)) _)))))
    (.cons (.called rfl (.next 5 0 none rfl (.returned (.error .invalidTransition) _))) (.nil _)))
  have began : BeginsVerified sampleContext
      (ReplayWorld.verifyPostImageBound .sample · (ReplayWorld.sample.authorityAt "/r"))
      ⟨"k", "tool", ⟨"a"⟩⟩ (storing completedRecord)
      (some (.ok (.replay (verifiedResponse sampleContext _ completedRecord))))
      (storing completedRecord) :=
    .replay rfl (.next 5 0 none rfl (.next 5 0 none rfl (.returned _ _)))
  obtain ⟨forward, -, begins, -⟩ := records_final_and_attested sampleContext
  obtain ⟨later, stored, same, -⟩ := forward _ _ _ reservedRecord operated ⟨_, rfl, rfl⟩
  have replayed := (begins _ _ _ _ _ _ began).2 _ rfl
  exact ⟨operated, ⟨later, stored, same⟩, replayed.2⟩

end Symforge.Idempotency
