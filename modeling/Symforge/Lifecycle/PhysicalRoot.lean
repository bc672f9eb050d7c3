import Symforge.Lifecycle.Authority

/-!
# Physical root leases

Model of the part of `index_lifecycle/physical_root.rs` that mutation permits use. A
directory object is its anchor (device and inode); an open handle refers to one
object whatever its path becomes. What the operating system answers to an open or to
a replacement is an argument of the operation.
-/

namespace Symforge.Lifecycle

/-- `physical_root::PhysicalRootAnchor` — the directory object behind a path or a handle. -/
structure PhysicalRootAnchor where
  dev : Nat
  ino : Nat
deriving DecidableEq, Repr

/-- A canonical root path. -/
abbrev RootPath := String

/-- `physical_root::RootRefusal`. -/
inductive RootRefusal where
  | leaseRevoked
  | escapesRoot (requested : String)
  | linkComponent (component : String)
  | unreadable (path : String) (message : String)
deriving DecidableEq, Repr

/-- `From<RootRefusal> for AuthorityRefusal` — all read as a replacement. -/
def AuthorityRefusal.ofRoot (_ : RootRefusal) : AuthorityRefusal := .physicalRootReplaced

/-- `physical_root::PhysicalRootLease` — its revocation flag lives in the process. -/
structure PhysicalRootLease where
  /-- Identity shared by every copy of the lease. -/
  identity : PhysicalRootIdentity
  root : RootPath
  /-- The opened directory, absent while the lease is dormant or the open failed. -/
  dir : Option PhysicalRootAnchor
deriving DecidableEq, Repr

namespace PhysicalRootLease

/-- `PhysicalRootLease::take` — a fresh identity over whatever the open returned. -/
def take (process : Process) (root : RootPath) (opened : Option PhysicalRootAnchor) :
    PhysicalRootLease × Process :=
  let (identity, process) := process.mintRoot
  (⟨identity, root, opened⟩, process)

variable (lease : PhysicalRootLease)

/-- `PhysicalRootLease::parked` — the same lease without its handle. -/
def parked : PhysicalRootLease := { lease with dir := none }

/-- `PhysicalRootLease::reopened` — the same lease with the handle the open returned. -/
def reopened (opened : Option PhysicalRootAnchor) : PhysicalRootLease :=
  { lease with dir := opened }

/-- `PhysicalRootLease::is_live`. -/
def isLive (process : Process) : Bool := process.leaseLive lease.identity

/-- `PhysicalRootLease::capability` — the directory every operation goes through. -/
def capability (process : Process) : Except RootRefusal PhysicalRootAnchor :=
  if !lease.isLive process then .error .leaseRevoked
  else
    match lease.dir with
    | some dir => .ok dir
    | none => .error (.unreadable lease.root
        "the leased root could not be opened as a directory capability")

/-- Operations go through the directory that was opened. -/
theorem capability_ok {lease : PhysicalRootLease} {process : Process}
    {directory : PhysicalRootAnchor} (opened : lease.capability process = .ok directory) :
    lease.dir = some directory := by
  unfold capability at opened
  split at opened
  · cases opened
  split at opened
  · rename_i found
    cases opened
    exact found
  · cases opened

end PhysicalRootLease

/-- `physical_root::ReplacementStep`. -/
inductive ReplacementStep where
  | tempCreated
  | replaced
  | delegatedVerified
deriving DecidableEq, Repr

/-- `physical_root::WriteReceipt`. -/
structure WriteReceipt where
  /-- The observed steps, in order. -/
  steps : List ReplacementStep
  target : String
  /-- The lease that performed the write. -/
  lease : PhysicalRootIdentity
deriving DecidableEq, Repr

/-- `physical_root::replace_beneath` and `replace_owner_only_beneath` — a receipt names the lease
used. `disk` is what staging and renaming returned. -/
def replaceBeneath (process : Process) (lease : PhysicalRootLease) (target : String)
    (disk : Except RootRefusal Unit) : Except RootRefusal WriteReceipt := do
  let _ ← lease.capability process
  disk
  return ⟨[.tempCreated, .replaced], target, lease.identity⟩

end Symforge.Lifecycle
