import Matchmaking.Runtime

/-!
# Partition leases

`worker/leases.py`: a worker renews the leases it holds, claims partitions that nobody holds, and
gives back what exceeds its fair share.
-/

namespace Matchmaking

open ReadCommitted

/-- `math.ceil(total_partitions / active_workers)`; the quotient of two numbers below `2 ^ 53` is
rounded to no integer that it does not reach. -/
def fairPartitionCap (totalPartitions activeWorkers : ℕ) : ℕ :=
  if totalPartitions = 0 then 0
  else if activeWorkers = 0 then totalPartitions
  else (totalPartitions + activeWorkers - 1) / activeWorkers

namespace PartitionLease

/-- `owned_by = worker_id`, whether or not the lease is live. -/
def isOwnedBy (workerId : String) (v : PartitionLease) : Bool := v.ownedBy = some workerId

/-- `lease_until > now()`, which is not true of `NULL`. -/
def isLive (now : Time) (v : PartitionLease) : Bool := v.leaseUntil.any fun u => now < u

/-- `owned_by IS NULL OR lease_until <= now()`: free partitions, and those whose owner has let the lease
expire. -/
def isAvailable (now : Time) (v : PartitionLease) : Bool :=
  v.ownedBy.isNone || v.leaseUntil.any fun u => u ≤ now

/-- `SET lease_until = now() + make_interval(secs => lease_seconds), updated_at = now()`. -/
def renewed (leaseSeconds : ℕ) (now : Time) (v : PartitionLease) : PartitionLease :=
  { v with leaseUntil := some (now + seconds leaseSeconds), updatedAt := now }

/-- `SET owned_by = worker_id, lease_until = ..., updated_at = now()`. -/
def claimed (workerId : String) (leaseSeconds : ℕ) (now : Time) (v : PartitionLease) :
    PartitionLease :=
  { v with
    ownedBy := some workerId
    leaseUntil := some (now + seconds leaseSeconds)
    updatedAt := now }

/-- `SET owned_by = NULL, lease_until = NULL, updated_at = now()`. -/
def released (now : Time) (v : PartitionLease) : PartitionLease :=
  { v with ownedBy := none, leaseUntil := none, updatedAt := now }

/-- `isAvailable`, spelled out. -/
theorem isAvailable_iff {now : Time} {v : PartitionLease} :
    v.isAvailable now = true ↔ v.ownedBy = none ∨ ∃ u, v.leaseUntil = some u ∧ u ≤ now := by
  rw [isAvailable, Bool.or_eq_true, Option.isNone_iff_eq_none]
  refine or_congr_right ?_
  cases v.leaseUntil <;> simp

/-- A lease is live as long as its expiry lies ahead. -/
theorem isLive_iff {now : Time} {v : PartitionLease} :
    v.isLive now = true ↔ ∃ u, v.leaseUntil = some u ∧ now < u := by
  rw [isLive, Option.any_eq_true]
  exact exists_congr fun u => and_congr_right fun _ => decide_eq_true_iff

/-- A lease that has expired stays expired. -/
theorem isLive_mono {now now' : Time} {v : PartitionLease} (hnow : now ≤ now')
    (h : v.isLive now = false) : v.isLive now' = false := by
  rw [Bool.eq_false_iff] at h ⊢
  refine fun hlive => h (isLive_iff.mpr ?_)
  obtain ⟨u, hu, hlt⟩ := isLive_iff.mp hlive
  exact ⟨u, hu, Int.lt_of_le_of_lt hnow hlt⟩

end PartitionLease

/-- The partitions whose rows satisfy a condition, in no order that could be relied on. -/
def selectLeases (cond : Time → ℕ → PartitionLease → Bool) : Db (List ℕ) :=
  perform (.select fun now s =>
    ((rowsOf leaseRow s).filter fun (p, v) => cond now p v).map Prod.fst)

/-- The rows of an `UPDATE partition_leases`; the result lists the partitions updated. -/
def updateLeases (cond : Time → PartitionLease → Bool)
    (set : Time → PartitionLease → PartitionLease) : List ℕ → Db (List ℕ)
  | [] => pure []
  | p :: ps => do
    let v ← updateRow (.partitionLeases p) cond set
    let rest ← updateLeases cond set ps
    pure (if v.isSome then p :: rest else rest)

/-- The worker's live leases are renewed; those that have expired are up for anyone. -/
def renewOwnedPartitions (workerId : String) (leaseSeconds : ℕ) : Db ℕ := do
  let cond (now : Time) (v : PartitionLease) : Bool := v.isOwnedBy workerId && v.isLive now
  let owned ← selectLeases fun now _ v => cond now v
  let renewed ← updateLeases cond (PartitionLease.renewed leaseSeconds) owned
  pure renewed.length

/-- The sort key of the candidates: partitions in order, rotated by the worker's offset, so that workers begin
in different places. -/
def claimRank (partitionCount claimOffset p : ℕ) : ℕ :=
  if partitionCount = 0 then p else (p + claimOffset) % partitionCount

/-- `LIMIT batch_size FOR UPDATE SKIP LOCKED`, with the update of each row it locks. -/
def claimLeases (workerId : String) (leaseSeconds : ℕ) : ℕ → List ℕ → Db (List ℕ)
  | 0, _ => pure []
  | _ + 1, [] => pure []
  | n + 1, p :: ps => do
    let v ← perform (.row (.partitionLeases p) true fun now (old : Option PartitionLease) =>
      match old with
      | some v => if v.isAvailable now then .put (v.claimed workerId leaseSeconds now) else .leave
      | none => .leave)
    if v.isSome then do
      let rest ← claimLeases workerId leaseSeconds n ps
      pure (p :: rest)
    else claimLeases workerId leaseSeconds (n + 1) ps

/-- Free or expired leases are claimed, at most a batch, each worker starting at its own offset. -/
def claimAvailablePartitions (workerId : String) (leaseSeconds batchSize partitionCount
    claimOffset : ℕ) : Db (List ℕ) := do
  let candidates ← selectLeases fun now _ v => v.isAvailable now
  let rank := claimRank partitionCount claimOffset
  claimLeases workerId leaseSeconds batchSize (orderBy (fun p q => rank p ≤ rank q) candidates)

/-- All leases of the worker are given back, expired ones as well. -/
def releaseOwnedPartitions (workerId : String) : Db ℕ := do
  let cond (_ : Time) (v : PartitionLease) : Bool := v.isOwnedBy workerId
  let owned ← selectLeases fun now _ v => cond now v
  let released ← updateLeases cond PartitionLease.released owned
  pure released.length

/-- The partitions that the worker holds now, by live leases, in ascending order. -/
def listOwnedPartitions (workerId : String) : Db (List ℕ) := do
  let owned ← selectLeases fun now _ v => v.isOwnedBy workerId && v.isLive now
  pure (orderBy (fun p q => p ≤ q) owned)

/-- `INSERT ... ON CONFLICT (worker_id) DO UPDATE SET last_seen_at = now()`. -/
def recordWorkerHeartbeat (workerId : String) : Db Unit :=
  upsertRow (.workerHeartbeats workerId) fun now _ => ⟨now⟩

/-- `DELETE FROM worker_heartbeats WHERE worker_id = ...`: it locks the row if the query finds one. -/
def removeWorkerHeartbeat (workerId : String) : Db Unit := do
  let found ← perform (.select fun _ s => (s.lookup (.workerHeartbeats workerId)).isSome)
  if found then do
    let _ ← perform (.row (.workerHeartbeats workerId) false fun _ old =>
      if old.isSome then .delete else .leave)

/-- `last_seen_at > now() - make_interval(secs => heartbeat_seconds)`, of rows of heartbeats. -/
def isFresh (heartbeatSeconds : ℕ) (now : Time) : (k : Key) → Row k → Bool
  | .workerHeartbeats _, h => now - seconds heartbeatSeconds < h.lastSeenAt
  | _, _ => false

/-- The workers with a fresh heartbeat, and at least one: the worker itself. -/
def countActiveWorkers (heartbeatSeconds : ℕ) : Db ℕ := do
  let n ← perform (.select fun now s => count (isFresh heartbeatSeconds now) s)
  pure (max 1 n)

/-- What a worker holds above its fair share is given back, the highest partitions first. -/
def releaseExcessPartitions (workerId : String) (maxPartitions : ℕ) : Db ℕ := do
  let owned ← listOwnedPartitions workerId
  let excessCount := owned.length - maxPartitions
  if excessCount = 0 then pure 0 else do
    let toRelease := owned.reverse.take excessCount
    let cond (_ : Time) (v : PartitionLease) : Bool := v.isOwnedBy workerId
    let found ← selectLeases fun now p v => cond now v && p ∈ toRelease
    let released ← updateLeases cond PartitionLease.released found
    pure released.length

end Matchmaking
