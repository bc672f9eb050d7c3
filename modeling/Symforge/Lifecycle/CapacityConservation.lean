import Symforge.Library.Run
import Symforge.Lifecycle.Capacity

/-!
# Conservation of capacity

Every row accounts for what it has charged: its outstanding charges and the limits it promised to
children. Creating and releasing a child touch two rows, so the accounts of a table are stated up
to a pending promise per owner; a call leaves none pending. Over a run the charges reserved are
those refunded and those that a grant or a permit still holds.
-/

namespace Symforge.Lifecycle

open Library List Option ProcessCapacityPool AList Function Nat OwnerRow

/-- The difference stops at zero. -/
theorem toNat_saturatingSub (left right : UInt64) :
    (saturatingSub left right).toNat = left.toNat - right.toNat := by
  unfold saturatingSub
  split
  · rename_i below
    exact UInt64.toNat_sub_of_le _ _ below
  rename_i above
  rw [UInt64.le_iff_toNat_le] at above
  rw [UInt64.toNat_zero]
  omega

/-- What is available can be charged within the limit and without wrapping. -/
theorem OwnerRow.charge_available {row : OwnerRow} {bytes : UInt64}
    (bounded : row.charged ≤ row.limit) (fits : ¬ row.available < bytes) :
    (row.charged + bytes).toNat = row.charged.toNat + bytes.toNat ∧
      row.charged + bytes ≤ row.limit := by
  have headroom : bytes.toNat ≤ row.limit.toNat - row.charged.toNat := by
    rw [← toNat_saturatingSub]
    exact UInt64.le_iff_toNat_le.mp (UInt64.not_lt.mp fits)
  rw [UInt64.le_iff_toNat_le] at bounded
  have small := row.limit.toNat_lt
  have exact_sum : (row.charged + bytes).toNat = row.charged.toNat + bytes.toNat := by
    rw [UInt64.toNat_add]
    omega
  refine ⟨exact_sum, ?_⟩
  rw [UInt64.le_iff_toNat_le, exact_sum]
  omega

/-- Bytes of the charges a row has outstanding. -/
def OwnerRow.outstandingBytes (row : OwnerRow) : Nat :=
  Table.total (fun _ bytes => bytes.toNat) row.outstanding

variable (rows : Table OwnerIdentity OwnerRow)

/-- Bytes an owner promised to its children: the sum of their limits. -/
def promised (owner : OwnerIdentity) : Nat :=
  Table.total (fun _ row => if row.parent = some owner then row.limit.toNat else 0) rows

/-- Every row accounts for what it charged, up to a promise still pending for its owner. -/
structure Accounted (rows : Table OwnerIdentity OwnerRow) (pending : OwnerIdentity → Nat) :
    Prop where
  balanced : ∀ owner row, rows.lookup owner = some row →
    row.charged.toNat = row.outstandingBytes + promised rows owner + pending owner
  bounded : ∀ owner row, rows.lookup owner = some row → row.charged ≤ row.limit
  /-- A row whose parent is not in the table has nothing to give back. -/
  orphan : ∀ owner row parent, rows.lookup owner = some row → row.parent = some parent →
    rows.lookup parent = none → row.limit.toNat = 0

namespace Accounted

variable {rows : Table OwnerIdentity OwnerRow} {pending : OwnerIdentity → Nat}
  {owner : OwnerIdentity}

/-- Nobody in the table was promised anything by an owner outside of it. -/
theorem promised_absent (accounted : Accounted rows pending)
    (absent : rows.lookup owner = none) : promised rows owner = 0 := by
  apply Table.total_eq_zero
  intro child row found
  split
  · rename_i backed
    exact accounted.orphan _ _ _ found backed absent
  · rfl

/-- A row missing after an insertion was missing before. -/
theorem lookup_of_insert {other : OwnerIdentity} {row : OwnerRow}
    (absent : (rows.insert owner row).lookup other = none) : rows.lookup other = none := by
  rw [Table.lookup_insert, update_apply] at absent
  split at absent
  · cases absent
  · exact absent

/-- Changing the charges of one row. -/
theorem replace (accounted : Accounted rows pending) {row : OwnerRow}
    (found : rows.lookup owner = some row) {charged : UInt64}
    {outstanding : Table PublicationIdentity UInt64} (bounded : charged ≤ row.limit)
    {later : OwnerIdentity → Nat}
    (balanced : charged.toNat = Table.total (fun _ bytes => bytes.toNat) outstanding +
      promised rows owner + later owner)
    (others : ∀ other, other ≠ owner → later other = pending other) :
    Accounted (rows.insert owner { row with charged, outstanding }) later := by
  have keepsPromises : ∀ other, promised (rows.insert owner { row with charged, outstanding })
      other = promised rows other := fun _ => Table.total_insert_of_same found rfl
  refine ⟨?_, ?_, ?_⟩
  · intro other held looked
    rw [keepsPromises]
    rcases Table.lookup_insert_iff.mp looked with ⟨rfl, rfl⟩ | ⟨apart, before⟩
    · exact balanced
    rw [others _ apart]
    exact accounted.balanced _ _ before
  · exact Table.forall_insert bounded accounted.bounded
  · intro other held parent looked backed absent
    have parentAbsent := lookup_of_insert absent
    rcases Table.lookup_insert_iff.mp looked with ⟨rfl, rfl⟩ | ⟨-, before⟩
    · exact accounted.orphan other row parent found backed parentAbsent
    · exact accounted.orphan _ _ _ before backed parentAbsent

/-- A new row without charges takes over the promise that is pending for its parent. -/
theorem add (accounted : Accounted rows pending) {identity : OwnerIdentity} {limit : UInt64}
    {parent : Option OwnerIdentity} (absent : rows.lookup identity = none)
    (backing : ∀ owner, parent = some owner → rows.lookup owner = none → limit.toNat = 0)
    (takesOver : ∀ owner, pending owner = if parent = some owner then limit.toNat else 0) :
    Accounted (rows.insert identity { limit, parent }) fun _ => 0 := by
  have promises : ∀ owner, promised (rows.insert identity { limit, parent }) owner =
      (if parent = some owner then limit.toNat else 0) + promised rows owner := by
    intro owner
    exact Table.total_insert_of_absent absent
  refine ⟨?_, ?_, ?_⟩
  · intro owner row looked
    rw [promises]
    rcases Table.lookup_insert_iff.mp looked with ⟨rfl, rfl⟩ | ⟨-, before⟩
    · rw [accounted.promised_absent absent]
      split
      · rename_i backed
        rw [backing _ backed absent]
        rfl
      · rfl
    · have balanced := accounted.balanced _ _ before
      rw [takesOver] at balanced
      omega
  · exact Table.forall_insert UInt64.zero_le accounted.bounded
  · intro owner row backer looked backed missing
    have backerAbsent := lookup_of_insert missing
    rcases Table.lookup_insert_iff.mp looked with ⟨rfl, rfl⟩ | ⟨-, before⟩
    · exact backing _ backed backerAbsent
    · exact accounted.orphan _ _ _ before backed backerAbsent

/-- Removing a row that backs nobody leaves its limit pending for its parent. -/
theorem remove (accounted : Accounted rows fun _ => 0) {row : OwnerRow}
    (found : rows.lookup owner = some row)
    (childless : ∀ child held, rows.lookup child = some held → held.parent ≠ some owner) :
    Accounted (rows.erase owner)
      fun other => if row.parent = some other then row.limit.toNat else 0 := by
  refine ⟨?_, ?_, ?_⟩
  · intro other held looked
    have balanced := accounted.balanced _ _ (Table.lookup_erase_iff.mp looked).2
    have promises : promised rows other =
        (if row.parent = some other then row.limit.toNat else 0) +
          promised (rows.erase owner) other := Table.total_eq_add_erase found
    omega
  · intro other held looked
    exact accounted.bounded _ _ (Table.lookup_erase_iff.mp looked).2
  · intro other held backer looked backed missing
    have before := (Table.lookup_erase_iff.mp looked).2
    have apart : backer ≠ owner := fun same => childless _ _ before (same ▸ backed)
    rw [lookup_erase_ne apart] at missing
    exact accounted.orphan _ _ _ before backed missing

end Accounted

/-- The bytes a table has recorded for a charge. -/
def recordedIn (owner : OwnerIdentity)
    (charge : PublicationIdentity) : Option UInt64 :=
  (rows.lookup owner).bind fun row => row.outstanding.lookup charge

section Recorded

variable {rows : Table OwnerIdentity OwnerRow} {owner other : OwnerIdentity} {row : OwnerRow}
  {charge : PublicationIdentity}

/-- One owner's records are replaced. -/
theorem recordedIn_insert :
    recordedIn (rows.insert owner row) other charge =
      if other = owner then row.outstanding.lookup charge else recordedIn rows other charge := by
  rw [recordedIn, Table.lookup_insert, update_apply]
  split
  · rfl
  · rfl

/-- A row in which one charge was changed. -/
theorem recordedIn_insert_charge {next : OwnerRow} {another : PublicationIdentity}
    {bytes : Option UInt64} (found : rows.lookup owner = some row)
    (charges : ∀ another, next.outstanding.lookup another =
      update (fun charge => row.outstanding.lookup charge) charge bytes another) :
    recordedIn (rows.insert owner next) other another =
      if other = owner ∧ another = charge then bytes else recordedIn rows other another := by
  rw [recordedIn_insert, charges, update_apply]
  by_cases here : other = owner
  · subst here
    simp [recordedIn, found]
  · simp [here]

/-- A row with the charges that were recorded before records nothing new. -/
theorem recordedIn_insert_of_same
    (same : ∀ charge, row.outstanding.lookup charge = recordedIn rows owner charge) :
    recordedIn (rows.insert owner row) other charge = recordedIn rows other charge := by
  rw [recordedIn_insert]
  split
  · rename_i here
    rw [here, same]
  · rfl

/-- A new row without charges records nothing. -/
theorem recordedIn_insert_new {limit : UInt64} {parent : Option OwnerIdentity}
    (absent : rows.lookup owner = none) :
    recordedIn (rows.insert owner { limit, parent }) other charge =
      recordedIn rows other charge := by
  apply recordedIn_insert_of_same
  intro charge
  rw [recordedIn, absent]
  exact lookup_empty _

end Recorded

namespace ProcessCapacityPool

variable {pool next : ProcessCapacityPool} {identity owner parent : OwnerIdentity}
  {limit bytes : UInt64} {charge : PublicationIdentity}

/-- A new root owes nothing. -/
theorem root_accounted (accounted : Accounted pool.rows fun _ => 0)
    (absent : pool.rows.lookup identity = none) :
    Accounted (pool.root identity limit).rows fun _ => 0 := by
  apply accounted.add absent
  · intro _ backed
    cases backed
  · intro _
    rfl

section Child

variable (created : pool.child identity parent limit = .ok next)

include created

/-- What a child that was created has done to the table. -/
theorem child_ok :
    (pool.rows.lookup parent = none ∧ limit.toNat = 0 ∧
      next = { pool with rows := pool.rows.insert identity { limit, parent := some parent } }) ∨
    ∃ row, pool.rows.lookup parent = some row ∧ ¬ row.available < limit ∧
      next = { pool with
        rows := (pool.rows.insert parent { row with charged := row.charged + limit }).insert
          identity { limit, parent := some parent } } := by
  unfold child at created
  cases found : pool.rows.lookup parent with
  | none =>
    simp only [found, map_none, getD_none] at created
    split at created
    · cases created
    rename_i fits
    have small := UInt64.le_iff_toNat_le.mp (UInt64.not_lt.mp fits)
    exact .inl ⟨rfl, le_zero.mp small, (Except.ok.inj created).symm⟩
  | some row =>
    simp only [found, map_some, getD_some] at created
    split at created
    · cases created
    rename_i fits
    exact .inr ⟨_, rfl, fits, (Except.ok.inj created).symm⟩

/-- A new child leaves the accounts right. -/
theorem child_accounted (accounted : Accounted pool.rows fun _ => 0)
    (absent : pool.rows.lookup identity = none) : Accounted next.rows fun _ => 0 := by
  rcases child_ok created with ⟨-, nothing, rfl⟩ | ⟨row, found, fits, rfl⟩
  · apply accounted.add absent
    · intro _ _ _
      exact nothing
    · intro _
      rw [nothing, ite_self]
  · obtain ⟨exactSum, bounded⟩ := charge_available (accounted.bounded _ _ found) fits
    have apart : identity ≠ parent := by
      rintro rfl
      rw [absent] at found
      cases found
    have charged : Accounted (pool.rows.insert parent { row with charged := row.charged + limit })
        fun owner => if some parent = some owner then limit.toNat else 0 := by
      refine accounted.replace found bounded ?_ ?_
      · have balanced := accounted.balanced _ _ found
        rw [if_pos rfl, exactSum, balanced]
        rfl
      · intro other different
        rw [if_neg fun same => different (some.inj same).symm]
    apply charged.add
    · rw [lookup_insert_ne apart]
      exact absent
    · intro owner backed missing
      cases backed
      rw [lookup_insert] at missing
      cases missing
    · intro _
      rfl

/-- It records no charge. -/
theorem child_recorded (absent : pool.rows.lookup identity = none) :
    recordedIn next.rows owner charge = recordedIn pool.rows owner charge := by
  rcases child_ok created with ⟨-, -, rfl⟩ | ⟨row, found, -, rfl⟩
  · exact recordedIn_insert_new absent
  have apart : identity ≠ parent := by
    rintro rfl
    rw [absent] at found
    cases found
  rw [recordedIn_insert_new (by rw [lookup_insert_ne apart, absent])]
  apply recordedIn_insert_of_same
  intro charge
  rw [recordedIn, found]
  rfl

end Child

section Reserve

variable {grant : CapacityGrant} (granted : pool.reserve owner bytes charge = .ok (grant, next))

include granted

/-- What a reservation that was granted has done. -/
theorem reserve_ok :
    ∃ row, pool.rows.lookup owner = some row ∧ ¬ row.available < bytes ∧
      grant = ⟨owner, bytes, charge, pool.identity, pool.identity⟩ ∧
      next = { pool with rows := pool.rows.insert owner { row with
        charged := row.charged + bytes
        outstanding := row.outstanding.insert charge bytes } } := by
  unfold reserve at granted
  split at granted
  · cases granted
  rename_i row found
  split at granted
  · cases granted
  rename_i fits
  cases granted
  exact ⟨_, found, fits, rfl, rfl⟩

/-- A reservation is charged up to the root. -/
theorem reserve_accounted (accounted : Accounted pool.rows fun _ => 0)
    (unused : recordedIn pool.rows owner charge = none) : Accounted next.rows fun _ => 0 := by
  obtain ⟨row, found, fits, -, rfl⟩ := reserve_ok granted
  obtain ⟨exactSum, bounded⟩ := charge_available (accounted.bounded _ _ found) fits
  have absent : row.outstanding.lookup charge = none := by
    rw [recordedIn, found] at unused
    exact unused
  refine accounted.replace found bounded ?_ ?_
  · have balanced := accounted.balanced _ _ found
    rw [outstandingBytes] at balanced
    rw [exactSum, Table.total_insert_of_absent absent]
    omega
  · intro _ _
    rfl

/-- It records its own charge only. -/
theorem reserve_recorded {other : OwnerIdentity} {another : PublicationIdentity} :
    recordedIn next.rows other another =
      if other = owner ∧ another = charge then some bytes
      else recordedIn pool.rows other another := by
  obtain ⟨row, found, -, -, rfl⟩ := reserve_ok granted
  exact recordedIn_insert_charge found Table.lookup_insert

end Reserve

/-- A recorded charge is refunded with the bytes recorded for it. -/
theorem refund_recorded_eq (recorded : recordedIn pool.rows owner charge = some bytes) :
    ∃ row, pool.rows.lookup owner = some row ∧ row.outstanding.lookup charge = some bytes ∧
      pool.refund owner charge = (bytes, { pool with rows := pool.rows.insert owner { row with
        charged := saturatingSub row.charged bytes
        outstanding := row.outstanding.erase charge } }) := by
  obtain ⟨row, found, held⟩ := bind_eq_some_iff.mp recorded
  refine ⟨_, found, held, ?_⟩
  simp [refund, found, held]

/-- A refund is credited up to the root. -/
theorem refund_accounted (accounted : Accounted pool.rows fun _ => 0)
    (recorded : recordedIn pool.rows owner charge = some bytes) :
    Accounted (pool.refund owner charge).2.rows fun _ => 0 := by
  obtain ⟨row, found, held, refunded⟩ := refund_recorded_eq recorded
  rw [refunded]
  have balanced := accounted.balanced _ _ found
  have bounded := UInt64.le_iff_toNat_le.mp (accounted.bounded _ _ found)
  have sum : row.outstandingBytes =
      bytes.toNat + Table.total (fun _ amount => amount.toNat) (row.outstanding.erase charge) :=
    Table.total_eq_add_erase held
  refine accounted.replace found ?_ ?_ ?_
  · rw [UInt64.le_iff_toNat_le, toNat_saturatingSub]
    omega
  · rw [toNat_saturatingSub]
    omega
  · intro _ _
    rfl

/-- It removes its own record only. -/
theorem refund_recorded {other : OwnerIdentity} {another : PublicationIdentity}
    (recorded : recordedIn pool.rows owner charge = some bytes) :
    recordedIn (pool.refund owner charge).2.rows other another =
      if other = owner ∧ another = charge then none
      else recordedIn pool.rows other another := by
  obtain ⟨row, found, -, refunded⟩ := refund_recorded_eq recorded
  rw [refunded]
  exact recordedIn_insert_charge found Table.lookup_erase

section Release

variable {refunded : UInt64} (released : pool.releaseOwner owner = .ok (refunded, next))

include released

/-- What releasing an owner has done: the row is gone and its parent has the limit back. -/
theorem releaseOwner_ok :
    ∃ row, pool.rows.lookup owner = some row ∧ row.outstanding.entries = [] ∧
      (∀ child held, pool.rows.lookup child = some held → held.parent ≠ some owner) ∧
      next.identity = pool.identity ∧ next.unknownRefunds = pool.unknownRefunds ∧
      (row.parent = none ∧ next.rows = pool.rows.erase owner ∨
        ∃ parent parentRow, row.parent = some parent ∧
          (pool.rows.erase owner).lookup parent = some parentRow ∧
          next.rows = (pool.rows.erase owner).insert parent { parentRow with
            charged := saturatingSub parentRow.charged row.limit }) := by
  unfold releaseOwner at released
  split at released
  · cases released
  rename_i row found
  split at released
  · cases released
  rename_i settled
  dsimp only at released
  split at released
  · cases released
  rename_i barren
  have childless : ∀ child held, pool.rows.lookup child = some held →
      held.parent ≠ some owner := by
    intro child held looked backed
    apply barren
    rw [countP_pos_iff]
    exact ⟨⟨child, _⟩, mem_lookup_iff.mp looked, decide_eq_true backed⟩
  refine ⟨_, found, not_not.mp settled, childless, ?_⟩
  split at released
  · rename_i rootless
    cases released
    exact ⟨rfl, rfl, .inl ⟨rootless, rfl⟩⟩
  rename_i parent backed
  split at released
  · cases released
  rename_i present
  have apart : parent ≠ owner := fun same => childless _ _ found (same ▸ backed)
  obtain ⟨parentRow, looked⟩ := ne_none_iff_exists'.mp present
  have kept : (pool.rows.erase owner).lookup parent = some parentRow := by
    rw [lookup_erase_ne apart, looked]
  simp only [kept] at released
  cases released
  exact ⟨rfl, rfl, .inr ⟨parent, parentRow, backed, kept, rfl⟩⟩

/-- Releasing an owner leaves the accounts right. -/
theorem releaseOwner_accounted (accounted : Accounted pool.rows fun _ => 0) :
    Accounted next.rows fun _ => 0 := by
  obtain ⟨row, found, -, childless, -, -, rest⟩ := releaseOwner_ok released
  have removed := accounted.remove found childless
  rcases rest with ⟨rootless, rows⟩ | ⟨parent, parentRow, backed, kept, rows⟩
  · rw [rows]
    simpa only [rootless, reduceCtorEq, if_false] using removed
  rw [rows]
  have balanced := removed.balanced _ _ kept
  have bounded := UInt64.le_iff_toNat_le.mp (removed.bounded _ _ kept)
  rw [if_pos backed] at balanced
  refine removed.replace kept ?_ ?_ ?_
  · rw [UInt64.le_iff_toNat_le, toNat_saturatingSub]
    omega
  · rw [toNat_saturatingSub, balanced, outstandingBytes]
    omega
  · intro other apart
    rw [backed, if_neg fun same => apart (some.inj same).symm]

/-- It leaves all records. -/
theorem releaseOwner_recorded {other : OwnerIdentity} :
    recordedIn next.rows other charge = recordedIn pool.rows other charge := by
  obtain ⟨row, found, settled, -, -, -, rest⟩ := releaseOwner_ok released
  have nothing : row.outstanding.lookup charge = none := by
    rw [AList.lookup, settled]
    rfl
  have erased : recordedIn (pool.rows.erase owner) other charge =
      recordedIn pool.rows other charge := by
    unfold recordedIn
    by_cases same : other = owner
    · rw [same, lookup_erase, found, bind_some, nothing]
      rfl
    · rw [lookup_erase_ne same]
  rcases rest with ⟨-, rows⟩ | ⟨parent, parentRow, -, kept, rows⟩
  · rw [rows, erased]
  rw [rows, ← erased]
  apply recordedIn_insert_of_same
  intro charge
  rw [recordedIn, kept]
  rfl

end Release

end ProcessCapacityPool

namespace CapacityWorld

variable {world next : CapacityWorld}

/-- The bytes the pools have recorded for a charge. -/
def recorded (world : CapacityWorld) (pool : PoolIdentity) (owner : OwnerIdentity)
    (charge : PublicationIdentity) : Option UInt64 :=
  (world.pools pool).bind fun pool => recordedIn pool.rows owner charge

/-- What a pool that exists satisfies between calls. -/
structure PoolInv (nextPool nextOwner : Nat) (identity : PoolIdentity)
    (pool : ProcessCapacityPool) : Prop where
  named : pool.identity = identity
  minted : identity.raw < nextPool
  owners : ∀ owner row, pool.rows.lookup owner = some row → owner.raw < nextOwner
  accounted : Accounted pool.rows fun _ => 0
  known : pool.unknownRefunds = 0

/-- Later identities do no harm. -/
theorem PoolInv.later {nextPool nextOwner laterPool laterOwner : Nat} {identity : PoolIdentity}
    {pool : ProcessCapacityPool} (sound : PoolInv nextPool nextOwner identity pool)
    (pools : nextPool ≤ laterPool) (owners : nextOwner ≤ laterOwner) :
    PoolInv laterPool laterOwner identity pool :=
  { sound with
    minted := sound.minted.trans_le pools
    owners := fun _ _ listed => (sound.owners _ _ listed).trans_le owners }

/-- The charges recorded are those that a live grant or permit holds, and the charges reserved are
those refunded and those held. -/
structure Inv (world : CapacityWorld) : Prop where
  pools : ∀ identity pool, world.pools identity = some pool →
    PoolInv world.nextPool world.nextOwner identity pool
  issuer : ∀ grant ∈ world.grants, grant.pool = grant.ledger
  held : ∀ charge : Charge,
    world.recorded charge.pool charge.owner charge.charge = some charge.bytes ↔
      charge ∈ world.live
  history : world.reserved.Perm (world.refunded ++ world.live)
  distinct : (world.reserved.map Charge.charge).Nodup
  drawn : ∀ charge ∈ world.reserved, charge.charge.raw < world.process.nextIdentity

/-- The invariant holds without pools. -/
theorem initial_inv : initial.Inv where
  pools _ _ := nofun
  issuer _ := nofun
  held _ := ⟨nofun, nofun⟩
  history := List.Perm.refl _
  distinct := nodup_nil
  drawn _ := nofun

/-- The records of one pool are replaced. -/
theorem recorded_setPool {identity other : PoolIdentity} {pool : ProcessCapacityPool}
    {owner : OwnerIdentity} {charge : PublicationIdentity} :
    (world.setPool identity pool).recorded other owner charge =
      if other = identity then recordedIn pool.rows owner charge
      else world.recorded other owner charge := by
  simp only [recorded, setPool, update_apply]
  split
  · rfl
  · rfl

namespace Inv

variable {identity : PoolIdentity} {pool changed : ProcessCapacityPool}
  {owner : OwnerIdentity} {grant : CapacityGrant} {charge : PublicationIdentity}
  {limit : UInt64}

/-- The records of a pool are in its rows. -/
theorem recorded_of_pool (found : world.pools identity = some pool) :
    world.recorded identity owner charge = recordedIn pool.rows owner charge := by
  rw [recorded, found]
  rfl

/-- A refund forgets the charge and no other. -/
theorem recorded_refund {bytes : UInt64} (found : world.pools identity = some pool)
    (inPool : recordedIn pool.rows owner charge = some bytes) (place : PoolIdentity)
    (payer : OwnerIdentity) (named : PublicationIdentity) :
    (world.setPool identity (pool.refund owner charge).2).recorded place payer named =
      if place = identity ∧ payer = owner ∧ named = charge then none
      else world.recorded place payer named := by
  rw [recorded_setPool]
  by_cases here : place = identity
  · subst here
    rw [if_pos rfl, refund_recorded inPool, recorded_of_pool found]
    simp [true_and]
  · rw [if_neg here, if_neg fun same => here same.1]

/-- A dropped grant is no longer alive. -/
theorem live_erase_grant (listed : grant ∈ world.grants) :
    world.live.Perm
      (grant.held :: live { world with grants := world.grants.erase grant }) := by
  have moved := (perm_cons_erase listed).map CapacityGrant.held
  rw [map_cons] at moved
  exact moved.append_right (world.permits.map CapacityPermit.held)

/-- Neither is an ended permit. -/
theorem live_erase_permit {permit : CapacityPermit} (listed : permit ∈ world.permits) :
    world.live.Perm
      (permit.held :: live { world with permits := world.permits.erase permit }) := by
  have moved := (perm_cons_erase listed).map CapacityPermit.held
  rw [map_cons] at moved
  exact (moved.append_left (world.grants.map CapacityGrant.held)).trans perm_middle

section Step

variable (inv : world.Inv)

include inv

/-- What is alive was reserved. -/
theorem live_reserved {charge : Charge} (held : charge ∈ world.live) : charge ∈ world.reserved :=
  inv.history.mem_iff.mpr (mem_append_right world.refunded held)

/-- An identity not drawn yet names no charge. -/
theorem recorded_fresh : world.recorded identity owner ⟨world.process.nextIdentity⟩ = none := by
  refine eq_none_iff_forall_ne_some.mpr fun bytes found => ?_
  have held := (inv.held ⟨identity, owner, _, bytes⟩).mp found
  exact lt_irrefl _ (inv.drawn _ (inv.live_reserved held))

/-- A fresh owner has no row. -/
theorem absent_fresh (found : world.pools identity = some pool) :
    pool.rows.lookup ⟨world.nextOwner⟩ = none := by
  refine eq_none_iff_forall_ne_some.mpr fun row looked => ?_
  exact lt_irrefl _ ((inv.pools _ _ found).owners _ _ looked)

/-- A pool that records the same charges takes the place of another. -/
theorem changePool {nextOwner : Nat} (later : world.nextOwner ≤ nextOwner)
    (found : world.pools identity = some pool)
    (sound : PoolInv world.nextPool nextOwner identity changed)
    (same : ∀ owner charge,
      recordedIn changed.rows owner charge = recordedIn pool.rows owner charge) :
    Inv { world.setPool identity changed with nextOwner } := by
  refine { inv with pools := ?_, held := ?_ }
  · exact forall_update_some sound fun _ _ before => (inv.pools _ _ before).later le_rfl later
  · intro charge
    have keeps : (world.setPool identity changed).recorded charge.pool charge.owner
        charge.charge = world.recorded charge.pool charge.owner charge.charge := by
      rw [recorded_setPool]
      split
      · rename_i here
        rw [same, here, recorded_of_pool found]
      · rfl
    exact (Eq.congr_left keeps).trans (inv.held _)

/-- Refunding a charge that was just taken from its holder. -/
theorem refundHeld_inv {grants : List CapacityGrant} {permits : List CapacityPermit} {held : Charge}
    (taken : world.live.Perm (held :: live { world with grants, permits }))
    (fewer : ∀ grant ∈ grants, grant ∈ world.grants)
    (done : refundHeld { world with grants, permits } held = some next) : next.Inv := by
  have isLive : held ∈ world.live := taken.mem_iff.mpr mem_cons_self
  have isRecorded := (inv.held _).mpr isLive
  obtain ⟨pool, found, inPool⟩ := bind_eq_some_iff.mp isRecorded
  -- two live charges have different identities
  have apart : ∀ charge ∈ live { world with grants, permits }, charge.charge ≠ held.charge := by
    have distinct : (world.live.map Charge.charge).Nodup := by
      have all := (inv.history.map Charge.charge).nodup_iff.mp inv.distinct
      rw [map_append] at all
      exact all.of_append_right
    have split := (taken.map Charge.charge).nodup_iff.mp distinct
    rw [map_cons, nodup_cons] at split
    intro charge listed same
    exact split.1 (mem_map.mpr ⟨charge, listed, same⟩)
  obtain ⟨row, present, -, refunded⟩ := refund_recorded_eq inPool
  have bytes : (pool.refund held.owner held.charge).1 = held.bytes := by rw [refunded]
  simp only [refundHeld, found, some.injEq] at done
  subst done
  refine ⟨?_, fun grant listed => inv.issuer _ (fewer _ listed), ?_, ?_, inv.distinct, inv.drawn⟩
  · refine forall_update_some ?_ inv.pools
    obtain ⟨named, minted, owners, accounted, known⟩ := inv.pools _ _ found
    have kept := refund_accounted accounted inPool
    rw [refunded] at kept ⊢
    exact ⟨named, minted, Table.forall_insert (owners _ _ present) owners, kept, known⟩
  · intro charge
    have lookups := recorded_refund found inPool charge.pool charge.owner charge.charge
    change (world.setPool held.pool (pool.refund held.owner held.charge).2).recorded
      charge.pool charge.owner charge.charge = some charge.bytes ↔
        charge ∈ live { world with grants, permits }
    rw [lookups]
    constructor
    · intro looked
      split at looked
      · cases looked
      rename_i different
      have before := taken.mem_iff.mp ((inv.held _).mp looked)
      rcases mem_cons.mp before with rfl | listed
      · exact absurd ⟨rfl, rfl, rfl⟩ different
      · exact listed
    · intro listed
      rw [if_neg fun same => apart _ listed same.2.2]
      exact (inv.held _).mpr (taken.mem_iff.mpr (mem_cons_of_mem _ listed))
  · rw [bytes]
    exact inv.history.trans ((taken.append_left world.refunded).trans perm_middle)

/-- Dropping a grant keeps the invariant. -/
theorem dropGrant_inv (done : world.dropGrant grant = some next) : next.Inv := by
  unfold dropGrant at done
  split at done
  · rename_i listed
    exact inv.refundHeld_inv (live_erase_grant listed) (fun _ => mem_of_mem_erase) done
  · cases done

/-- Ending a permit keeps it. -/
theorem endPermit_inv {permit : CapacityPermit} (done : world.endPermit permit = some next) :
    next.Inv := by
  unfold endPermit at done
  split at done
  · rename_i listed
    exact inv.refundHeld_inv (live_erase_permit listed) (fun _ => id) done
  · cases done

/-- A redeemed grant hands its charge to the permit. -/
theorem redeem_inv (done : world.step (.redeem identity grant) = some next) : next.Inv := by
  simp only [step] at done
  obtain ⟨listed, done⟩ := ite_none_right_eq_some.mp done
  split at done
  · cases done
  rename_i pool found
  split at done
  · exact inv.dropGrant_inv done
  rename_i permit redeemed
  unfold redeem at redeemed
  split at redeemed
  · cases redeemed
  rename_i own
  cases redeemed
  cases done
  have sameHolder : CapacityPermit.held ⟨grant.owner, grant.bytes, grant.charge, pool.identity⟩ =
      grant.held := by
    rw [CapacityPermit.held, CapacityGrant.held, ← not_not.mp own, inv.issuer _ listed]
  have sameLive : world.live.Perm (live { world with
      grants := world.grants.erase grant
      permits := ⟨grant.owner, grant.bytes, grant.charge, pool.identity⟩ :: world.permits }) := by
    refine (live_erase_grant listed).trans ?_
    unfold live
    rw [map_cons, sameHolder]
    exact perm_middle.symm
  refine ⟨inv.pools, ?_, ?_, ?_, inv.distinct, inv.drawn⟩
  · intro other member
    exact inv.issuer _ (mem_of_mem_erase member)
  · intro charge
    exact (inv.held _).trans sameLive.mem_iff
  · exact inv.history.trans (sameLive.append_left world.refunded)

/-- A granted reservation records a charge under an identity never drawn before. -/
theorem reserve_inv {bytes : UInt64}
    (done : world.step (.reserve identity owner bytes) = some next) : next.Inv := by
  simp only [step, map_eq_some_iff, Process.mintIdentity] at done
  obtain ⟨pool, found, rfl⟩ := done
  split
  · exact inv
  rename_i grant reserved granted
  obtain ⟨named, minted, owners, accounted, known⟩ := inv.pools _ _ found
  have unused : recordedIn pool.rows owner ⟨world.process.nextIdentity⟩ = none := by
    rw [← recorded_of_pool found]
    exact inv.recorded_fresh
  have kept := reserve_accounted granted accounted unused
  have holder : grant.held = ⟨identity, owner, ⟨world.process.nextIdentity⟩, bytes⟩ := by
    obtain ⟨row, -, -, rfl, -⟩ := reserve_ok granted
    rw [CapacityGrant.held, named]
  refine ⟨?_, ?_, ?_, ?_, ?_, ?_⟩
  · refine forall_update_some ?_ inv.pools
    obtain ⟨row, present, -, -, rfl⟩ := reserve_ok granted
    exact ⟨named, minted, Table.forall_insert (owners _ _ present) owners, kept, known⟩
  · refine forall_mem_cons.mpr ⟨?_, inv.issuer⟩
    obtain ⟨row, -, -, rfl, -⟩ := reserve_ok granted
    rfl
  · intro charge
    change (world.setPool identity reserved).recorded charge.pool charge.owner charge.charge =
      some charge.bytes ↔ charge ∈ grant.held :: world.live
    rw [recorded_setPool, mem_cons, holder, Charge.ext_iff, ← inv.held _]
    by_cases here : charge.pool = identity
    · rw [if_pos here, reserve_recorded granted, here, recorded_of_pool found]
      by_cases same : charge.owner = owner ∧ charge.charge = ⟨world.process.nextIdentity⟩
      · rw [if_pos same, same.1, same.2, unused]
        simp [eq_comm]
      rw [if_neg same]
      constructor
      · exact .inr
      rintro (⟨-, payer, drawn, -⟩ | before)
      · exact absurd ⟨payer, drawn⟩ same
      · exact before
    · rw [if_neg here]
      simp [here]
  · exact (inv.history.cons grant.held).trans perm_middle.symm
  · rw [map_cons, nodup_cons]
    refine ⟨?_, inv.distinct⟩
    intro listed
    obtain ⟨charge, member, same⟩ := mem_map.mp listed
    have old := inv.drawn _ member
    rw [same, holder] at old
    exact lt_irrefl _ old
  · refine forall_mem_cons.mpr ⟨?_, fun charge before =>
      lt_succ_of_lt (inv.drawn _ before)⟩
    rw [holder]
    exact lt_succ_self _

/-- A new pool keeps it. -/
theorem newPool_inv (done : world.step .newPool = some next) : next.Inv := by
  simp only [step, some.injEq] at done
  subst done
  have vacant : world.pools ⟨world.nextPool⟩ = none := by
    refine eq_none_iff_forall_ne_some.mpr fun pool found => ?_
    exact lt_irrefl _ (inv.pools _ _ found).minted
  refine { inv with pools := ?_, held := ?_ }
  · refine forall_update_some ?_ fun _ _ before => (inv.pools _ _ before).later (le_succ _) le_rfl
    have empty : Accounted (∅ : Table OwnerIdentity OwnerRow) fun _ => 0 := ⟨nofun, nofun, nofun⟩
    exact ⟨rfl, lt_succ_self _, nofun, empty, rfl⟩
  · intro charge
    change (world.setPool ⟨world.nextPool⟩ { identity := ⟨world.nextPool⟩ }).recorded charge.pool
      charge.owner charge.charge = some charge.bytes ↔ charge ∈ world.live
    rw [recorded_setPool, ← inv.held _]
    split
    · rename_i here
      rw [recorded, here, vacant]
      exact .rfl
    · exact .rfl

/-- A new root keeps it. -/
theorem root_inv (done : world.step (.root identity limit) = some next) : next.Inv := by
  simp only [step, map_eq_some_iff] at done
  obtain ⟨pool, found, rfl⟩ := done
  have absent := inv.absent_fresh found
  obtain ⟨named, minted, older, accounted, known⟩ := (inv.pools _ _ found).later le_rfl (le_succ _)
  refine inv.changePool (le_succ _) found ⟨named, minted,
    Table.forall_insert (lt_succ_self _) older, root_accounted accounted absent, known⟩ ?_
  intro owner charge
  exact recordedIn_insert_new absent

/-- A new child keeps it. -/
theorem child_inv {parent : OwnerIdentity}
    (done : world.step (.child identity parent limit) = some next) : next.Inv := by
  simp only [step, map_eq_some_iff] at done
  obtain ⟨pool, found, rfl⟩ := done
  split
  · exact inv
  rename_i changed created
  have absent := inv.absent_fresh found
  obtain ⟨named, minted, older, accounted, known⟩ := (inv.pools _ _ found).later le_rfl (le_succ _)
  have kept := child_accounted created accounted absent
  refine inv.changePool (le_succ _) found ?_ fun _ _ => child_recorded created absent
  rcases child_ok created with ⟨-, -, rfl⟩ | ⟨parentRow, present, -, rfl⟩
  · exact ⟨named, minted, Table.forall_insert (lt_succ_self _) older, kept, known⟩
  exact ⟨named, minted, Table.forall_insert (lt_succ_self _)
    (Table.forall_insert (older _ _ present) older), kept, known⟩

/-- Releasing an owner keeps it. -/
theorem releaseOwner_inv (done : world.step (.releaseOwner identity owner) = some next) :
    next.Inv := by
  simp only [step, map_eq_some_iff] at done
  obtain ⟨pool, found, rfl⟩ := done
  split
  · exact inv
  rename_i refunded changed released
  obtain ⟨named, minted, owners, accounted, known⟩ := inv.pools _ _ found
  obtain ⟨row, -, -, -, sameName, sameRefunds, rest⟩ := releaseOwner_ok released
  refine inv.changePool le_rfl found ⟨sameName.trans named, minted, ?_,
    releaseOwner_accounted released accounted, sameRefunds.trans known⟩ ?_
  · have left : ∀ other held, (pool.rows.erase owner).lookup other = some held →
        other.raw < world.nextOwner := fun other held listed =>
      owners _ _ (Table.lookup_erase_iff.mp listed).2
    rcases rest with ⟨-, rows⟩ | ⟨parent, parentRow, -, kept, rows⟩
    · rwa [rows]
    rw [rows]
    exact Table.forall_insert (left _ _ kept) left
  · intro other charge
    exact releaseOwner_recorded released

/-- Every call keeps the invariant. -/
theorem step_inv {action : CapacityAction} (done : world.step action = some next) : next.Inv := by
  cases action with
  | newPool => exact inv.newPool_inv done
  | root identity limit => exact inv.root_inv done
  | child identity parent limit => exact inv.child_inv done
  | reserve identity owner bytes => exact inv.reserve_inv done
  | redeem identity grant => exact inv.redeem_inv done
  | dropGrant grant => exact inv.dropGrant_inv done
  | release permit | dropPermit permit => exact inv.endPermit_inv done
  | releaseOwner identity owner => exact inv.releaseOwner_inv done
  | elsewhere =>
    cases done
    refine { inv with drawn := ?_ }
    intro charge listed
    exact lt_succ_of_lt (inv.drawn _ listed)

end Step

end Inv

/-- The accounts of a process are right: every row balances within its limit, a further charge that
fits does not wrap, and every charge reserved was refunded once or is still held. -/
structure Conserved (world : CapacityWorld) : Prop where
  balanced : ∀ identity pool owner row, world.pools identity = some pool →
    pool.rows.lookup owner = some row →
      row.charged.toNat = row.outstandingBytes + promised pool.rows owner
  bounded : ∀ identity pool owner row, world.pools identity = some pool →
    pool.rows.lookup owner = some row → row.charged ≤ row.limit
  exactSum : ∀ identity pool owner row, world.pools identity = some pool →
    pool.rows.lookup owner = some row → ∀ amount, ¬ row.available < amount →
      (row.charged + amount).toNat = row.charged.toNat + amount.toNat
  recorded : ∀ charge ∈ world.live,
    world.recorded charge.pool charge.owner charge.charge = some charge.bytes
  refundedOnce : world.reserved.Perm (world.refunded ++ world.live)
  distinct : (world.reserved.map Charge.charge).Nodup
  known : ∀ identity pool, world.pools identity = some pool → pool.unknownRefunds = 0

/-- Capacity is conserved: after any sequence of calls on any pools, whichever way grants and
permits end. -/
theorem capacity_conserved (actions : List CapacityAction)
    (reached : run step initial actions = some world) : world.Conserved := by
  have inv : world.Inv := run_invariant Inv (fun _ _ _ inv => inv.step_inv) initial_inv reached
  refine ⟨?_, ?_, ?_, ?_, inv.history, inv.distinct, ?_⟩
  · intro identity pool owner row found looked
    exact (inv.pools _ _ found).accounted.balanced _ _ looked
  · intro identity pool owner row found looked
    exact (inv.pools _ _ found).accounted.bounded _ _ looked
  · intro identity pool owner row found looked amount fits
    exact (charge_available
      ((inv.pools _ _ found).accounted.bounded _ _ looked) fits).1
  · intro charge listed
    exact (inv.held _).mpr listed
  · intro identity pool found
    exact (inv.pools _ _ found).known

/-- Two pools: a child is promised 60 of 100 bytes, one reservation is refused by the foreign pool,
another becomes a permit that is dropped, and the child is released. -/
def sampleActions : List CapacityAction :=
  [.newPool, .newPool, .root ⟨1⟩ 100, .child ⟨1⟩ ⟨1⟩ 60, .reserve ⟨1⟩ ⟨2⟩ 10,
    .redeem ⟨2⟩ ⟨⟨2⟩, 10, ⟨1⟩, ⟨1⟩, ⟨1⟩⟩, .reserve ⟨1⟩ ⟨2⟩ 25,
    .redeem ⟨1⟩ ⟨⟨2⟩, 25, ⟨2⟩, ⟨1⟩, ⟨1⟩⟩, .dropPermit ⟨⟨2⟩, 25, ⟨2⟩, ⟨1⟩⟩,
    .releaseOwner ⟨1⟩ ⟨2⟩, .reserve ⟨1⟩ ⟨1⟩ 100]

/-- A run with two refunds. -/
theorem sampleActions_conserved :
    ∃ world, run step initial sampleActions = some world ∧ world.Conserved ∧
      world.refunded = [⟨⟨1⟩, ⟨2⟩, ⟨2⟩, 25⟩, ⟨⟨1⟩, ⟨2⟩, ⟨1⟩, 10⟩] ∧
      world.live = [⟨⟨1⟩, ⟨1⟩, ⟨3⟩, 100⟩] :=
  ⟨_, rfl, capacity_conserved sampleActions rfl, rfl, rfl⟩

end CapacityWorld

end Symforge.Lifecycle
