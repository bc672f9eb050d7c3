import Symforge.Library.Table
import Symforge.Lifecycle.Process

/-!
# Hierarchical capacity accounting

Model of `index_lifecycle/capacity.rs`: a pool keeps one row per owner, a reservation charges a row,
and the end of a grant or permit refunds the charge. Byte counts are `u64` as in the source, with
its wrapping and saturating operations. Grants and permits are affine in the source, so the ones
that exist are part of the state. The global counters are natural numbers.
-/

namespace Symforge.Lifecycle

open Library

/-- `capacity::OwnerIdentity`. -/
structure OwnerIdentity where
  raw : Nat
deriving DecidableEq, Repr

/-- `capacity::PoolIdentity`. -/
structure PoolIdentity where
  raw : Nat
deriving DecidableEq, Repr

/-- `capacity::CapacityRefusal`. -/
inductive CapacityRefusal where
  | exhausted (requested available : UInt64)
  | exceedsParent (requested available : UInt64)
  | hasChildren (children : Nat)
  | unknownOwner
  | foreignGrant
deriving DecidableEq, Repr

/-- `u64::saturating_sub`. -/
def saturatingSub (left right : UInt64) : UInt64 := if right ≤ left then left - right else 0

/-- `capacity::OwnerRow`. -/
structure OwnerRow where
  /-- What the owner may have charged at most. -/
  limit : UInt64
  /-- What the owner has charged, limits promised to children included. -/
  charged : UInt64 := 0
  /-- Charges issued and not yet refunded. -/
  outstanding : Table PublicationIdentity UInt64 := ∅
  /-- The owner that backs the limit. -/
  parent : Option OwnerIdentity

/-- `ProcessCapacityPool::available` of one row. -/
def OwnerRow.available (row : OwnerRow) : UInt64 := saturatingSub row.limit row.charged

/-- `capacity::CapacityGrant` — `ledger` names the pool the `Arc` points to. -/
structure CapacityGrant where
  owner : OwnerIdentity
  bytes : UInt64
  charge : PublicationIdentity
  /-- Which pool issued the grant. -/
  pool : PoolIdentity
  /-- The pool an abandoned grant refunds. -/
  ledger : PoolIdentity
deriving DecidableEq, Repr

/-- `capacity::CapacityPermit` — `ledger` names the pool the `Arc` points to. -/
structure CapacityPermit where
  owner : OwnerIdentity
  bytes : UInt64
  charge : PublicationIdentity
  /-- The pool that the end of the permit refunds. -/
  ledger : PoolIdentity
deriving DecidableEq, Repr

/-- `capacity::ProcessCapacityPool`. -/
structure ProcessCapacityPool where
  identity : PoolIdentity
  rows : Table OwnerIdentity OwnerRow := ∅
  /-- Refunds that named a charge the pool did not have. -/
  unknownRefunds : Nat := 0

namespace ProcessCapacityPool

variable (pool : ProcessCapacityPool)

/-- `ProcessCapacityPool::root` — `identity` is the owner identity just minted. -/
def root (identity : OwnerIdentity) (limit : UInt64) : ProcessCapacityPool :=
  { pool with rows := pool.rows.insert identity { limit, parent := none } }

/-- `ProcessCapacityPool::child` — `identity` is minted after the check. -/
def child (identity parent : OwnerIdentity) (limit : UInt64) :
    Except CapacityRefusal ProcessCapacityPool :=
  let available := ((pool.rows.lookup parent).map OwnerRow.available).getD 0
  if available < limit then .error (.exceedsParent limit available)
  else
    let rows := match pool.rows.lookup parent with
      | some row => pool.rows.insert parent { row with charged := row.charged + limit }
      | none => pool.rows
    .ok { pool with rows := rows.insert identity { limit, parent := some parent } }

variable (owner : OwnerIdentity)

/-- `ProcessCapacityPool::reserve` — `charge` is minted after the check. -/
def reserve (bytes : UInt64) (charge : PublicationIdentity) :
    Except CapacityRefusal (CapacityGrant × ProcessCapacityPool) :=
  match pool.rows.lookup owner with
  | none => .error .unknownOwner
  | some row =>
    if row.available < bytes then .error (.exhausted bytes row.available)
    else .ok (⟨owner, bytes, charge, pool.identity, pool.identity⟩,
      { pool with rows := pool.rows.insert owner { row with
          charged := row.charged + bytes
          outstanding := row.outstanding.insert charge bytes } })

/-- `ProcessCapacityPool::redeem` — the permit, or a refusal that leaves the grant to `Drop`. -/
def redeem (grant : CapacityGrant) : Except CapacityRefusal CapacityPermit :=
  if grant.pool ≠ pool.identity then .error .foreignGrant
  else .ok ⟨grant.owner, grant.bytes, grant.charge, pool.identity⟩

/-- `ProcessCapacityPool::release_owner`. -/
def releaseOwner : Except CapacityRefusal (UInt64 × ProcessCapacityPool) :=
  match pool.rows.lookup owner with
  | none => .error .unknownOwner
  | some row =>
    if row.outstanding.entries ≠ [] then .error (.exhausted 0 row.available)
    else
      let children := pool.rows.entries.countP fun entry => entry.2.parent = some owner
      if 0 < children then .error (.hasChildren children)
      else
        match row.parent with
        | none => .ok (row.limit, { pool with rows := pool.rows.erase owner })
        | some parent =>
          if pool.rows.lookup parent = none then .error .unknownOwner
          else
            let rows := pool.rows.erase owner
            .ok (row.limit, { pool with rows := match rows.lookup parent with
              | some parentRow => rows.insert parent { parentRow with
                  charged := saturatingSub parentRow.charged row.limit }
              | none => rows })

/-- `ProcessCapacityPool::refund` — the bytes given back. The caller's size is only compared with
the recorded one, in a debug assertion. -/
def refund (charge : PublicationIdentity) : UInt64 × ProcessCapacityPool :=
  match pool.rows.lookup owner with
  | none => (0, { pool with unknownRefunds := pool.unknownRefunds + 1 })
  | some row =>
    match row.outstanding.lookup charge with
    | none => (0, { pool with unknownRefunds := pool.unknownRefunds + 1 })
    | some recorded => (recorded, { pool with rows := pool.rows.insert owner { row with
        charged := saturatingSub row.charged recorded
        outstanding := row.outstanding.erase charge } })

end ProcessCapacityPool

/-- One charge: the pool and the row it is recorded in, its identity and its size. -/
@[ext]
structure Charge where
  pool : PoolIdentity
  owner : OwnerIdentity
  charge : PublicationIdentity
  bytes : UInt64
deriving DecidableEq, Repr

/-- The charge a grant refunds when it is abandoned. -/
def CapacityGrant.held (grant : CapacityGrant) : Charge :=
  ⟨grant.ledger, grant.owner, grant.charge, grant.bytes⟩

/-- The charge a permit refunds when it ends. -/
def CapacityPermit.held (permit : CapacityPermit) : Charge :=
  ⟨permit.ledger, permit.owner, permit.charge, permit.bytes⟩

/-- All pools of a process with the grants and permits that exist. -/
structure CapacityWorld where
  /-- Supplies the charge identities. -/
  process : Process
  nextOwner : Nat
  nextPool : Nat
  pools : PoolIdentity → Option ProcessCapacityPool
  grants : List CapacityGrant
  permits : List CapacityPermit
  /-- History: every charge a reservation made. -/
  reserved : List Charge
  /-- History: every refund, with the bytes it gave back. -/
  refunded : List Charge

/-- What a caller can do with the pools. -/
inductive CapacityAction where
  /-- `ProcessCapacityPool::new`. -/
  | newPool
  | root (pool : PoolIdentity) (limit : UInt64)
  | child (pool : PoolIdentity) (parent : OwnerIdentity) (limit : UInt64)
  | reserve (pool : PoolIdentity) (owner : OwnerIdentity) (bytes : UInt64)
  /-- Redeem a grant at some pool, its own or a foreign one. -/
  | redeem (pool : PoolIdentity) (grant : CapacityGrant)
  | dropGrant (grant : CapacityGrant)
  /-- `CapacityPermit::release`. -/
  | release (permit : CapacityPermit)
  | dropPermit (permit : CapacityPermit)
  | releaseOwner (pool : PoolIdentity) (owner : OwnerIdentity)
  /-- Other lifecycle code draws an identity. -/
  | elsewhere
deriving Repr

namespace CapacityWorld

/-- A process without pools. -/
def initial : CapacityWorld where
  process := Process.initial
  nextOwner := 1
  nextPool := 1
  pools := fun _ => none
  grants := []
  permits := []
  reserved := []
  refunded := []

variable (world : CapacityWorld)

/-- The charges that a grant or a permit still holds. -/
def live : List Charge :=
  world.grants.map CapacityGrant.held ++ world.permits.map CapacityPermit.held

/-- Replace one pool. -/
def setPool (identity : PoolIdentity) (pool : ProcessCapacityPool) : CapacityWorld :=
  { world with pools := Function.update world.pools identity (some pool) }

/-- Refund the charge that a grant or a permit held, at the pool it points to. -/
def refundHeld (held : Charge) : Option CapacityWorld :=
  match world.pools held.pool with
  | none => none
  | some pool =>
    let (bytes, pool) := pool.refund held.owner held.charge
    some { world.setPool held.pool pool with
      refunded := { held with bytes } :: world.refunded }

/-- `Drop for CapacityGrant`, for a grant that was not redeemed. -/
def dropGrant (grant : CapacityGrant) : Option CapacityWorld :=
  if grant ∈ world.grants then
    refundHeld { world with grants := world.grants.erase grant } grant.held
  else none

/-- `CapacityPermit::release` and `Drop for CapacityPermit`: a permit is refunded once. -/
def endPermit (permit : CapacityPermit) : Option CapacityWorld :=
  if permit ∈ world.permits then
    refundHeld { world with permits := world.permits.erase permit } permit.held
  else none

/-- One call. A refused one leaves the pools alone, but the grant of a foreign redemption is
dropped. -/
def step : CapacityAction → Option CapacityWorld
  | .newPool => some { world.setPool ⟨world.nextPool⟩ { identity := ⟨world.nextPool⟩ } with
      nextPool := world.nextPool + 1 }
  | .root identity limit => (world.pools identity).map fun pool =>
      { world.setPool identity (pool.root ⟨world.nextOwner⟩ limit) with
        nextOwner := world.nextOwner + 1 }
  | .child identity parent limit => (world.pools identity).map fun pool =>
      match pool.child ⟨world.nextOwner⟩ parent limit with
      | .error _ => world
      | .ok pool => { world.setPool identity pool with nextOwner := world.nextOwner + 1 }
  | .reserve identity owner bytes => (world.pools identity).map fun pool =>
      let (charge, process) := world.process.mintIdentity
      match pool.reserve owner bytes ⟨charge⟩ with
      | .error _ => world
      | .ok (grant, pool) => { world.setPool identity pool with
          process
          grants := grant :: world.grants
          reserved := grant.held :: world.reserved }
  | .redeem identity grant =>
    if grant ∈ world.grants then
      match world.pools identity with
      | none => none
      | some pool =>
        match pool.redeem grant with
        | .error _ => world.dropGrant grant
        | .ok permit => some { world with
            grants := world.grants.erase grant
            permits := permit :: world.permits }
    else none
  | .dropGrant grant => world.dropGrant grant
  | .release permit => world.endPermit permit
  | .dropPermit permit => world.endPermit permit
  | .releaseOwner identity owner => (world.pools identity).map fun pool =>
      match pool.releaseOwner owner with
      | .error _ => world
      | .ok (_, pool) => world.setPool identity pool
  | .elsewhere => some { world with process := world.process.mintIdentity.2 }

end CapacityWorld

end Symforge.Lifecycle
