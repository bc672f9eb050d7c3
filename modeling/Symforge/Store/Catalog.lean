import Mathlib.Data.Prod.Lex
import Mathlib.Data.List.Sort
import Mathlib.Data.String.Basic
import Symforge.Domain
import Symforge.Lifecycle.Candidate

/-!
# Catalog entries and scout plans

The records of `domain/index.rs` and `discovery/mod.rs` that the store keeps beside its rows: one
catalog entry per observed path with what became of it, and the plan of the scout. What the model
does not compute is an environment: the lowercase of a text, the length of a record in JSON and the
configured limit.
-/

namespace Symforge.Store

open Lifecycle (CatalogPath MetadataOnlyReason)

/-- `domain::index::FileClass`. -/
inductive FileClass where
  | code | text | binary
  deriving DecidableEq, Repr

/-- `domain::index::FileClassification`. -/
structure FileClassification where
  fileClass : FileClass
  isGenerated : Bool
  isTest : Bool
  isVendor : Bool
  isConfig : Bool
  deriving DecidableEq, Repr

/-- `domain::index::ParseStatus`, the aggregate of a catalog entry. -/
inductive CatalogParseStatus where
  | parsed | partialParse | failed
  deriving DecidableEq, Repr

/-- `domain::index::IndexTargets`. -/
inductive IndexTargets where
  | code | knowledge | codeAndKnowledge
  deriving DecidableEq, Repr

/-- `domain::index::HardSkipReason`. -/
inductive HardSkipReason where
  | artifactType | perFileCeiling
  deriving DecidableEq, Repr

/-- `domain::index::AccessStage`. -/
inductive AccessStage where
  | metadata | probe | fullRead
  deriving DecidableEq, Repr

/-- `domain::index::AccessErrorKind`. -/
inductive AccessErrorKind where
  | notFound | permissionDenied | invalidData | resourceExhausted | other
  deriving DecidableEq, Repr

/-- `domain::index::FileDisposition`. -/
inductive FileDisposition where
  | indexed (targets : IndexTargets) (parseStatus : CatalogParseStatus)
  | metadataOnly (reason : MetadataOnlyReason)
  | hardSkip (reason : HardSkipReason)
  | unreadable (stage : AccessStage) (kind : AccessErrorKind)
  | unstableDuringRead
  | abortedCircuitBreaker
  deriving DecidableEq, Repr

/-- `domain::index::CatalogEntry`. -/
structure CatalogEntry where
  path : CatalogPath
  size : Nat
  language : Option LanguageId
  classification : FileClassification
  disposition : FileDisposition
  contentHash : Option String
  deriving DecidableEq, Repr

/-- `domain::index::ScoutDecision`. -/
inductive ScoutDecision where
  | ingest (targets : IndexTargets)
  | metadataOnly (reason : MetadataOnlyReason)
  | hardSkip (reason : HardSkipReason)
  | unavailable (stage : AccessStage) (kind : AccessErrorKind)
  deriving DecidableEq, Repr

/-- `domain::index::FileStamp`. -/
structure FileStamp where
  size : Nat
  createdHint : Option Nat
  modifiedHint : Option Nat
  platformId : Option (List UInt8)
  deriving DecidableEq, Repr

/-- `domain::index::ScoutedEntry`. -/
structure ScoutedEntry where
  path : CatalogPath
  absolutePath : Option String
  stamp : FileStamp
  language : Option LanguageId
  classification : FileClassification
  decision : ScoutDecision
  deriving DecidableEq, Repr

/-- `domain::index::CoverageStatus`. -/
inductive CoverageStatus where
  | complete | degraded
  deriving DecidableEq, Repr

/-- `domain::index::ScoutIssueKind`. -/
inductive ScoutIssueKind where
  | directoryEntryUnreadable (kind : AccessErrorKind)
  | scopeEscape
  | unsupportedSpecialFile
  | pathIdentityCollision
  | traversalCircuitBreaker
  deriving DecidableEq, Repr

/-- `domain::index::ScoutIssue`. -/
structure ScoutIssue where
  pathId : Option String
  safePath : Option String
  kind : ScoutIssueKind
  safeMessage : String
  deriving DecidableEq, Repr

/-- `domain::index::ManifestResourceUsage`. -/
structure ManifestResourceUsage where
  catalogEntries : Nat
  catalogMetadataBytes : Nat
  admittedContentBytes : Nat
  deriving DecidableEq, Repr

/-- `discovery::ScoutPlan`. -/
structure ScoutPlan where
  coverage : CoverageStatus
  entries : List ScoutedEntry
  issues : List ScoutIssue
  usage : ManifestResourceUsage
  deriving DecidableEq, Repr

/-- What the store takes from outside. -/
structure Environment where
  /-- `str::to_lowercase`. -/
  toLowercase : String → String
  /-- Length of the JSON record that `refresh_scout_plan` accounts for an issue. -/
  issueRecordBytes : ScoutIssue → Nat
  /-- Length of the JSON record that `refresh_scout_plan` accounts for an entry. -/
  entryRecordBytes : ScoutedEntry → Nat
  /-- `DiscoveryLimits::from_env().max_catalog_metadata_bytes`. -/
  maxCatalogMetadataBytes : Nat

/-- `store::scouted_catalog_path`. -/
def scoutedCatalogPath (path : CatalogPath) : String := path.normalizedUtf8.getD path.publicId

/-- Places by key, equal keys in the order they had: `sort_by_cached_key`. -/
def sortByKey {Item Key : Type} [LinearOrder Key] (key : Item → Key) (items : List Item) :
    List Item :=
  items.insertionSort fun first second => key first ≤ key second

variable (env : Environment)

/-- `discovery::scout_order_key`. -/
def scoutOrderKey (safePath publicId : Option String) :
    Nat ×ₗ String ×ₗ String ×ₗ String :=
  match safePath with
  | some path => toLex (0, toLex (env.toLowercase path, toLex (path, publicId.getD "")))
  | none => toLex (1, toLex ("", toLex ("", publicId.getD "")))

/-- `discovery::account_catalog_metadata_record` — `none` beyond the limit. -/
def accountCatalogMetadataRecord (currentBytes encodedBytes : Nat) :
    Option Nat :=
  let separatorBytes := if 2 < currentBytes then 1 else 0
  let projectedBytes := currentBytes + separatorBytes + encodedBytes
  if env.maxCatalogMetadataBytes < projectedBytes then none else some projectedBytes

/-- `matches!(decision, ScoutDecision::Unavailable { .. })`. -/
def ScoutDecision.isUnavailable : ScoutDecision → Bool
  | .unavailable _ _ => true
  | _ => false

/-- `matches!(decision, ScoutDecision::Ingest { .. })`. -/
def ScoutDecision.isIngest : ScoutDecision → Bool
  | .ingest _ => true
  | _ => false

/-- `discovery::refresh_scout_plan` — `none` when the catalog does not fit its budget. -/
def refreshScoutPlan (plan : ScoutPlan) : Option ScoutPlan := do
  let entries := sortByKey
    (fun entry : ScoutedEntry =>
      scoutOrderKey env entry.path.normalizedUtf8 (some entry.path.publicId)) plan.entries
  let issues := sortByKey
    (fun issue : ScoutIssue => scoutOrderKey env issue.safePath issue.pathId) plan.issues
  let records := issues.map env.issueRecordBytes ++ entries.map env.entryRecordBytes
  let catalogMetadataBytes ← records.foldlM (accountCatalogMetadataRecord env) 2
  let admitted := entries.filter (·.decision.isIngest)
  return {
    coverage := if issues.isEmpty && entries.all (!·.decision.isUnavailable) then .complete
      else .degraded
    entries := entries
    issues := issues
    usage := {
      catalogEntries := entries.length
      catalogMetadataBytes := catalogMetadataBytes
      admittedContentBytes := (admitted.map (·.stamp.size)).foldl (· + ·) 0 } }

end Symforge.Store
