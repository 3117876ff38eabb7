import Matchmaking.Runtime

/-!
# Tenants, partitions and admission

`core/tenants.py`, `shared/partition.py` and `core/admission.py`: who asks, which partition a ticket
belongs to, and the four checks before a ticket is created. A check returns the answer that turns
the request down, if it does.
-/

namespace Matchmaking

open ReadCommitted

/-! ## Tenants -/

/-- The row of the tenant, by a statement of its own. -/
def getTenant (tenantId : String) : Db (Option Tenant) :=
  autocommit (perform (.select fun _ s => s.lookup (.tenants tenantId)))

/-- `require_tenant`, followed by the endpoint: 400 without a header, 403 for a tenant without a row. -/
def withTenant (xTenantId : Option String) (endpoint : String → Tenant → Db Response) :
    Db Response :=
  match xTenantId with
  | none => pure (httpException 400 "X-Tenant-Id header is required")
  | some tenantId => do
    match ← getTenant tenantId with
    | none => pure (httpException 403 "Unknown tenant")
    | some tenant => endpoint tenantId tenant

/-! ## Partitions -/

/-- The first eight bytes of the digest as a big-endian number, modulo the number of partitions. -/
def computePartitionId (rt : Runtime) (tenantId region queueName : String) (partitionCount : ℕ) :
    ℕ :=
  ((rt.sha256 (tenantId ++ ":" ++ region ++ ":" ++ queueName)).toNat / 2 ^ 192) % partitionCount

/-! ## Admission -/

/-- The 429 of the rate limit and of the quota. -/
def tenantRateLimitResponse (tenantId : String) (retryAfterSeconds : ℤ) : Response where
  status := 429
  body := .obj [
    ("error", .str "tenant_rate_limit_exceeded"),
    ("message", .str ("Tenant " ++ tenantId ++ " exceeded its ticket creation quota.")),
    ("retry_after_seconds", .int retryAfterSeconds)]

/-- The 503 of a partition that is full, and of load shedding. -/
def partitionOverloadedResponse : Response where
  status := 503
  body := .obj [
    ("error", .str "partition_overloaded"),
    ("message", .str "The target matchmaking partition is temporarily overloaded."),
    ("retry_after_seconds", .int 5)]

/-- `int(time.time())`, by the clock of the host that serves the request. -/
def unixSeconds : Db ℤ := do
  let now ← ask .wallClock
  pure (now / seconds 1)

/-- Requests are counted in Redis by tenant and minute; the first above the limit is refused, and so is every
later one of that minute. -/
def checkRateLimit (tenantId : String) (tenant : Tenant) : Db (Option Response) := do
  let now ← unixSeconds
  let minuteBucket := now / 60
  let count ← ask (.redisIncr ("rate:" ++ tenantId ++ ":" ++ toString minuteBucket))
  if tenant.maxTicketsPerSecond < (count : ℤ) then do
    let now' ← unixSeconds
    let secondsLeft := 60 - now' % 60
    pure (some (tenantRateLimitResponse tenantId (max 1 secondsLeft)))
  else pure none

/-- `tenant_id = ... AND status = 'waiting'`, of rows of tickets. -/
def isWaitingOf (tenantId : String) : (k : Key) → Row k → Bool
  | .tickets _, t => t.tenantId = tenantId && t.status = .waiting
  | _, _ => false

/-- `partition_id = ... AND status = 'waiting'`, of rows of tickets, whoever their tenant is. -/
def isWaitingIn (partitionId : ℕ) : (k : Key) → Row k → Bool
  | .tickets _, t => t.partitionId = partitionId && t.status = .waiting
  | _, _ => false

/-- `count >= tenant["max_tickets_in_flight"]`, negated. -/
def underQuota (tenant : Tenant) (count : ℕ) : Bool := (count : ℤ) < tenant.maxTicketsInFlight

/-- `count >= tenant["max_partition_depth"]`, negated. -/
def underDepth (tenant : Tenant) (count : ℕ) : Bool := (count : ℤ) < tenant.maxPartitionDepth

/-- The tenant's waiting tickets are counted against its limit. -/
def checkTenantQuota (tenantId : String) (tenant : Tenant) : Db (Option Response) := do
  let n ← autocommit (perform (.select fun _ s => count (isWaitingOf tenantId) s))
  pure (if underQuota tenant n then none else some (tenantRateLimitResponse tenantId 10))

/-- The partition's waiting tickets, of all tenants, are counted against the limit of this one. -/
def checkPartitionDepth (tenant : Tenant) (partitionId : ℕ) : Db (Option Response) := do
  let n ← autocommit (perform (.select fun _ s => count (isWaitingIn partitionId) s))
  pure (if underDepth tenant n then none else some partitionOverloadedResponse)

/-- With load shedding on, a trivial query is timed, and the request refused if the database is slow. -/
def checkDbLoadShedding (settings : Settings) : Db (Option Response) :=
  if !settings.loadSheddingEnabled then pure none
  else do
    let start ← ask .perfCounter
    autocommit (perform (.select fun _ _ => ()))
    let now ← ask .perfCounter
    pure (if (settings.dbLatencyShedThresholdMs * 1000 : ℤ) < now - start then
      some partitionOverloadedResponse else none)

end Matchmaking
