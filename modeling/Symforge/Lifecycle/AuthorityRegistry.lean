import Symforge.Library.Run
import Symforge.Lifecycle.WriteCell

/-!
# The process registry of source authorities

Model of `project_source_authority` and `evict_project_source_authority_if_anchor_changed` in
`index_lifecycle/activation.rs`, over a file system that other programs rearrange. A lookup holds
the registry lock for several critical sections of the authority it found, and other threads run
between them: what it holds is a stage. Keys are path spellings, which the file system resolves.
-/

namespace Symforge.Lifecycle

/-- What the holder of the registry lock still has to do. -/
inductive LookupStage where
  /-- Nobody holds the lock. -/
  | free
  /-- The directory object has changed: `revoke_for_replacement` and the removal come next. -/
  | revoking (key : RootPath) (index : Nat)
  /-- The key is vacant: `for_root` comes next. -/
  | inserting (key : RootPath)
deriving DecidableEq, Repr

/-- The registry, every authority it ever made, and the file system they write to. -/
structure RegistrySystem where
  process : Process
  /-- The directory object each path leads to. -/
  fs : RootPath → Option PhysicalRootAnchor
  /-- Every authority made so far, with its write authorities. -/
  cells : Nat → Option SourceCell
  nextCell : Nat
  /-- `PROJECT_AUTHORITIES`. -/
  map : RootPath → Option Nat
  lock : LookupStage
  /-- The authorities `revoke_for_replacement` has run on. -/
  replaced : List Nat

/-- One critical section, or a change of the file system. -/
inductive RegistryAction where
  /-- Other programs rearrange the directories. -/
  | relocate (fs : RootPath → Option PhysicalRootAnchor)
  /-- `project_source_authority` takes the lock and looks the key up. -/
  | lookup (key : RootPath) (observed : Option PhysicalRootAnchor)
  /-- The lookup revokes the authority whose directory was replaced and removes it. -/
  | revoke
  /-- The lookup makes an authority for the vacant key. -/
  | insert (observed : Option PhysicalRootAnchor)
  /-- `evict_project_source_authority_if_anchor_changed`. -/
  | evict (key : RootPath) (admitted observed : Option PhysicalRootAnchor)
  | cell (index : Nat) (action : WriteAction)
  /-- Identities drawn by the rest of the process. -/
  | elsewhere (identities roots : Nat)

namespace RegistrySystem

/-- A process that has made no authority yet. -/
def start (fs : RootPath → Option PhysicalRootAnchor) : RegistrySystem where
  process := Process.initial
  fs := fs
  cells := fun _ => none
  nextCell := 0
  map := fun _ => none
  lock := .free
  replaced := []

variable (system : RegistrySystem)

/-- What the operating system may answer for a path: nothing, or the directory that is there. -/
def Answer (key : RootPath) (answer : Option PhysicalRootAnchor) : Prop :=
  answer = none ∨ answer = system.fs key

instance (system : RegistrySystem) (key : RootPath) (answer : Option PhysicalRootAnchor) :
    Decidable (system.Answer key answer) :=
  inferInstanceAs (Decidable (_ ∨ _))

variable (index : Nat)

/-- Replace one authority. -/
def setCell (cell : SourceCell) : RegistrySystem :=
  { system with cells := Function.update system.cells index (some cell) }

/-- Record whether the path was absent at the last lookup. -/
def setAbsent (cell : SourceCell) (absent : Bool) : RegistrySystem :=
  system.setCell index { cell with authority.pathAbsentPending := absent }

/-- `revoke_for_replacement` on an authority, and its removal from the registry. -/
def retire (key : RootPath) (index : Nat) (cell : SourceCell) : RegistrySystem :=
  { system with
    process := cell.authority.revokeForReplacement system.process
    map := Function.update system.map key none
    replaced := index :: system.replaced }

/-- `project_source_authority` from taking the lock to its first decision. -/
def lookup (key : RootPath) (observed : Option PhysicalRootAnchor) : Option RegistrySystem :=
  if system.lock = .free ∧ system.Answer key observed then
    match system.map key with
    | none => some { system with lock := .inserting key }
    | some index =>
      (system.cells index).map fun cell =>
        match observed with
        | none => system.setAbsent index cell true
        | some anchor =>
          if cell.authority.physicalAnchor = some anchor then system.setAbsent index cell false
          else { system with lock := .revoking key index }
  else none

/-- The rest of a lookup that found another directory object. -/
def revoke : Option RegistrySystem :=
  match system.lock with
  | .revoking key index =>
    (system.cells index).map fun cell =>
      { system.retire key index cell with lock := .inserting key }
  | _ => none

/-- The end of a lookup of a vacant key: `ProjectSourceAuthority::for_root`. -/
def insert (observed : Option PhysicalRootAnchor) : Option RegistrySystem :=
  match system.lock with
  | .inserting key =>
    if system.Answer key observed then
      let made := ProjectSourceAuthority.forRoot system.process key observed
      some { system with
        process := made.2
        cells := Function.update system.cells system.nextCell (some ⟨made.1, 0, []⟩)
        nextCell := system.nextCell + 1
        map := Function.update system.map key (some system.nextCell)
        lock := .free }
    else none
  | _ => none

/-- `evict_project_source_authority_if_anchor_changed` — it observed before it took the lock, so the
answer may be an old one. -/
def evict (key : RootPath)
    (admitted observed : Option PhysicalRootAnchor) : Option RegistrySystem :=
  if system.lock = .free ∧ admitted.isSome ∧ admitted ≠ observed then
    match system.map key with
    | none => some system
    | some index => (system.cells index).map fun cell => system.retire key index cell
  else none

/-- What an acquisition finds when it reopens its lease is the file system's answer. -/
def Opens (cell : SourceCell) : WriteAction → Prop
  | .acquire _ opened => system.Answer cell.authority.root opened
  | _ => True

instance (system : RegistrySystem) (cell : SourceCell) (action : WriteAction) :
    Decidable (system.Opens cell action) := by
  cases action <;> unfold Opens <;> infer_instance

/-- A critical section on one authority. -/
def onCell (action : WriteAction) : Option RegistrySystem :=
  (system.cells index).bind fun cell =>
    if system.Opens cell action then
      (cell.step system.process action).map fun next =>
        { system.setCell index next.2 with process := next.1 }
    else none

/-- The system after an action, or `none` where it cannot run. -/
def step : RegistryAction → Option RegistrySystem
  | .relocate fs => some { system with fs }
  | .lookup key observed => system.lookup key observed
  | .revoke => system.revoke
  | .insert observed => system.insert observed
  | .evict key admitted observed => system.evict key admitted observed
  | .cell index action => system.onCell index action
  | .elsewhere identities roots =>
    some { system with
      process.nextIdentity := system.process.nextIdentity + identities
      process.nextRoot := system.process.nextRoot + roots }

/-- An acquisition on one authority would return a write authority now. -/
def Acquires : Prop :=
  ∃ cell expected opened write, system.cells index = some cell ∧
    system.Answer cell.authority.root opened ∧
    (cell.authority.acquireWriteIfPublication system.process expected opened).1 = .ok write

/-- One authority holds a write authority whose live lease has the directory open. -/
def CanWrite (directory : PhysicalRootAnchor) : Prop :=
  ∃ cell write permit, system.cells index = some cell ∧ write ∈ cell.writes ∧
    write.stage = .held permit ∧ permit.lease.isLive system.process = true ∧
    permit.lease.dir = some directory

/-- An authority that was replaced hands out nothing any more, and no two authorities can write
beneath one directory. -/
def ReplacementFinal : Prop :=
  (∀ index ∈ system.replaced, ¬ system.Acquires index) ∧
    ∀ first second directory, first ≠ second →
      ¬ (system.CanWrite first directory ∧ system.CanWrite second directory)

end RegistrySystem

end Symforge.Lifecycle
