import Matchmaking.Api.Admission
import Matchmaking.Api.Idempotency

/-!
# The endpoints

`api/routes/tickets.py` and `api/routes/matches.py`. A parameter the server or the driver refuses
(an integer that does not fit `INT`, a text with a zero character, a malformed `uuid`) raises.
-/

namespace Matchmaking

open ReadCommitted

/-! ## Parameters -/

/-- The driver encodes an integer parameter as `int4` and refuses what does not fit. -/
def checkInt4 (n : ℤ) : Db Unit :=
  if -2 ^ 31 ≤ n ∧ n < 2 ^ 31 then pure () else throw (.other "value out of int32 range")

/-- PostgreSQL refuses a text with a zero character. -/
def checkText (s : String) : Db Unit :=
  if s.toList.any fun c => c.toNat = 0 then throw (.other "invalid byte sequence for encoding UTF8")
  else pure ()

/-- `$1::uuid`, of the text in the path: the server refuses what is no UUID. -/
def checkUuid (rt : Runtime) (text : String) : Db UUID :=
  match rt.uuidIn text with
  | some id => pure id
  | none => throw (.other "invalid UUID")

/-! ## Creating a ticket -/

/-- The 409 for a key that is already used with another body. -/
def idempotencyKeyConflict : Response where
  status := 409
  body := .obj [
    ("error", .str "idempotency_key_conflict"),
    ("message", .str "This idempotency key was already used with a different request body.")]

/-- The answer to a request whose key has a stored response. -/
def replayResponse (storedResponse : Json) (hashMatched : Bool) : Response :=
  if hashMatched then ⟨200, replayOf storedResponse⟩ else idempotencyKeyConflict

/-- A new row of `tickets`, waiting since `now` in the partition of its queue. -/
def newTicket (tenantId : String) (body : TicketCreate) (partitionId : ℕ) (now : Time) : Ticket where
  tenantId := tenantId
  playerId := body.playerId
  region := body.region
  queueName := body.queueName
  skill := body.skill
  partitionId := partitionId
  status := .waiting
  createdAt := now
  updatedAt := now

/-- The INSERT of a ticket: its parameters are checked first, and the partial unique index last. -/
def insertTicket (tenantId : String) (body : TicketCreate) (partitionId : ℕ) :
    Db (UUID × Ticket) := do
  checkText body.playerId
  checkText body.region
  checkText body.queueName
  checkInt4 body.skill
  checkInt4 partitionId
  let ticketId ← ask .genRandomUuid
  match ← insertRow (.tickets ticketId) (newTicket tenantId body partitionId) with
  | none => throw (.other "'NoneType' object is not iterable")
  | some row => do
    indexTicket ticketId row
    pure (ticketId, row)

/-- The four admission checks, each with the reason its rejections are counted under. -/
def admission (settings : Settings) (tenantId : String) (tenant : Tenant) (partitionId : ℕ) :
    Db (Option Response) := do
  match ← checkRateLimit tenantId tenant with
  | some rejection => do
    record (.ticketsRejected tenantId "rate_limit")
    pure (some rejection)
  | none =>
    match ← checkTenantQuota tenantId tenant with
    | some rejection => do
      record (.ticketsRejected tenantId "tenant_quota")
      pure (some rejection)
    | none =>
      match ← checkPartitionDepth tenant partitionId with
      | some rejection => do
        record (.ticketsRejected tenantId "partition_overload")
        pure (some rejection)
      | none =>
        match ← checkDbLoadShedding settings with
        | some rejection => do
          record (.ticketsRejected tenantId "load_shedding")
          pure (some rejection)
        | none => pure none

/-- The statements from the insert on, and the answer. Counters are moved before the COMMIT that makes the
ticket real. -/
def insertAndFinalize (tenantId : String) (key : Option String) (body : TicketCreate)
    (partitionId : ℕ) : Db Response := do
  let (ticketId, row) ← insertTicket tenantId body partitionId
  let responseBody := ticketResponse ticketId row
  record (.ticketsCreated tenantId body.region body.queueName)
  record (.activeTickets tenantId partitionId 1)
  match key with
  | none => pure ()
  | some key => finalizeIdempotencyKey key tenantId 201 responseBody ticketId
  pure ⟨201, excludeNone responseBody⟩

/-- The transaction of `create_ticket`. A key that another request has reserved meanwhile is answered with its
stored response. -/
def createInTransaction (tenantId : String) (key : Option String) (requestHash : String)
    (body : TicketCreate) (partitionId : ℕ) : Db Response :=
  match key with
  | none => insertAndFinalize tenantId none body partitionId
  | some key => do
    if ← reserveIdempotencyKey key tenantId requestHash then
      insertAndFinalize tenantId (some key) body partitionId
    else do
      match ← fetchStoredResponse key tenantId requestHash with
      | some (storedResponse, hashMatched) => pure (replayResponse storedResponse hashMatched)
      | none => pure idempotencyKeyConflict

/-- `create_ticket` after the first look at the key: the partition, the checks, and the transaction, whose
unique violation becomes a 409. -/
def createNewTicket (rt : Runtime) (settings : Settings) (tenantId : String) (tenant : Tenant)
    (key : Option String) (requestHash : String) (body : TicketCreate) : Db Response :=
  if settings.matchmakingPartitions = 0 then throw (.other "integer modulo by zero")
  else do
    let partitionId := computePartitionId rt tenantId body.region body.queueName
      settings.matchmakingPartitions
    match ← admission settings tenantId tenant partitionId with
    | some rejection => pure rejection
    | none =>
      match ← attempt (asyncTransaction
        (createInTransaction tenantId key requestHash body partitionId)) with
      | .ok response => pure response
      | .error .uniqueViolation =>
        pure (httpException 409 "An active ticket already exists for this player in this queue")
      | .error e => throw e

/-- `create_ticket`. With a key, a stored response is looked for before anything else. -/
def createTicket (rt : Runtime) (settings : Settings) (idempotencyKey : Option String)
    (body : TicketCreate) (tenantId : String) (tenant : Tenant) : Db Response :=
  match idempotencyKey with
  | none => createNewTicket rt settings tenantId tenant none "" body
  | some key => do
    let requestHash := computeRequestHashFromModel rt body.modelDump
    match ← checkIdempotencyKey key tenantId requestHash with
    | some (storedResponse, hashMatched) => pure (replayResponse storedResponse hashMatched)
    | none => createNewTicket rt settings tenantId tenant (some key) requestHash body

/-! ## The other endpoints -/

/-- The tenant's waiting tickets; nothing is said about their order. -/
def listTickets (tenantId : String) : Db Response := do
  let tie ← ask .tieBreak
  let rows ← autocommit (perform (.select fun _ s =>
    (rowsOf ticketRow s).filter fun (_, t) => t.tenantId = tenantId && t.status = .waiting))
  let rows := orderBy (fun a b => tie a.1 ≤ tie b.1) rows
  pure ⟨200, .arr (rows.map fun (id, t) => ticketResponse id t)⟩

/-- The tenant's ticket of this id. Those of other tenants are not found. -/
def getTicket (rt : Runtime) (ticketId : String) (tenantId : String) : Db Response := do
  let id ← checkUuid rt ticketId
  let row ← autocommit (perform (.select fun _ s =>
    (s.lookup (.tickets id)).filter fun (t : Ticket) => t.tenantId = tenantId))
  match row with
  | none => pure (httpException 404 "Ticket not found")
  | some t => pure ⟨200, excludeNone (ticketResponse id t)⟩

/-- `tenant_id = ... AND status IN ('waiting', 'reserved')`: the statuses in which a ticket may still be
cancelled. -/
def Ticket.isCancellable (tenantId : String) (t : Ticket) : Bool :=
  t.tenantId = tenantId && t.status.isActive

/-- `SET status = 'cancelled', cancelled_at = now(), updated_at = now()`. -/
def Ticket.cancelled (now : Time) (t : Ticket) : Ticket :=
  { t with status := .cancelled, cancelledAt := some now, updatedAt := now }

/-- A waiting or reserved ticket is cancelled, by one guarded UPDATE; every other one is not found. -/
def cancelTicket (rt : Runtime) (ticketId : String) (tenantId : String) : Db Response := do
  let id ← checkUuid rt ticketId
  match ← autocommit (updateTicket id (fun _ t => t.isCancellable tenantId) Ticket.cancelled) with
  | none => pure (httpException 404 "Ticket not found")
  | some t => do
    record (.ticketsCancelled tenantId)
    record (.activeTickets tenantId t.partitionId (-1))
    pure ⟨200, .obj [
      ("ticket_id", .str (uuidText id)),
      ("status", .str t.status.text),
      ("cancelled_at", t.cancelledAt.elim .null fun u => .str (isoText u))]⟩

/-- The tenant's match of this id and its players, by two queries. -/
def getMatch (rt : Runtime) (matchId : String) (tenantId : String) : Db Response := do
  let id ← checkUuid rt matchId
  let row ← autocommit (perform (.select fun _ s =>
    (s.lookup (.matches id)).filter fun (m : Match) => m.tenantId = tenantId))
  match row with
  | none => pure (httpException 404 "Match not found")
  | some (m : Match) => do
    let tie ← ask .tieBreak
    -- the connection of the first query is still held
    let players ← onConnection (perform (.select fun _ s => rowsOf (playerRow id) s))
    let players := orderBy (fun a b => tie a.1 ≤ tie b.1) players
    pure ⟨200, .obj [
      ("match_id", .str (uuidText id)),
      ("tenant_id", .str m.tenantId),
      ("region", .str m.region),
      ("queue_name", .str m.queueName),
      ("partition_id", .int m.partitionId),
      ("status", .str m.status.text),
      ("created_at", .str (isoText m.createdAt)),
      ("players", .arr (players.map fun (t, p) =>
        .obj [("player_id", .str p.playerId), ("ticket_id", .str (uuidText t))]))]⟩

end Matchmaking
