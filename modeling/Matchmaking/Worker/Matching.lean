import Matchmaking.Runtime

/-!
# Matching

`worker/matching.py`: fetching waiting tickets, searching for pairs, and turning a pair into a match
with its callback event.
-/

namespace Matchmaking

open ReadCommitted

/-- `DEFAULT_CALLBACK_URL`, for tenants without a URL of their own. -/
def defaultCallbackUrl : String := "http://mock-callback:9000/tenant-matchmaking-callback"

/-- The dataclass that a fetched row becomes; it is compared and paired in memory, without another look at the
table. -/
structure WaitingTicket where
  ticketId : UUID
  tenantId : String
  playerId : String
  region : String
  queueName : String
  skill : ℤ
  partitionId : ℕ
  createdAt : Time

/-- `WaitingTicket(**row)`. -/
def WaitingTicket.ofRow (row : UUID × Ticket) : WaitingTicket where
  ticketId := row.1
  tenantId := row.2.tenantId
  playerId := row.2.playerId
  region := row.2.region
  queueName := row.2.queueName
  skill := row.2.skill
  partitionId := row.2.partitionId
  createdAt := row.2.createdAt

namespace Ticket

/-- `status = 'reserved' AND reserved_until <= now()`, which is not true of `NULL`. -/
def isExpired (now : Time) (t : Ticket) : Bool :=
  t.status = .reserved && t.reservedUntil.any fun u => u ≤ now

/-- `SET status = 'waiting', reserved_by = NULL, reserved_until = NULL, updated_at = now()`. -/
def unreserved (now : Time) (t : Ticket) : Ticket :=
  { t with status := .waiting, reservedBy := none, reservedUntil := none, updatedAt := now }

/-- `SET status = 'reserved', reserved_by = ..., reserved_until = now() + ...`, for the worker that is about
to make a match. -/
def reservedFor (workerId : String) (reservationSeconds : ℕ) (now : Time) (t : Ticket) : Ticket :=
  { t with
    status := .reserved
    reservedBy := some workerId
    reservedUntil := some (now + seconds reservationSeconds)
    updatedAt := now }

/-- `status = 'reserved' AND reserved_by = worker_id`, whether or not the reservation has expired. -/
def isReservedBy (workerId : String) (t : Ticket) : Bool :=
  t.status = .reserved && t.reservedBy = some workerId

/-- `SET status = 'matched', match_id = ..., matched_at = now()`, with the reservation taken back. -/
def matchedWith (matchId : UUID) (now : Time) (t : Ticket) : Ticket :=
  { t with
    status := .matched
    matchId := some matchId
    matchedAt := some now
    reservedBy := none
    reservedUntil := none
    updatedAt := now }

end Ticket

/-! ## Expired reservations -/

/-- The rows of the `UPDATE` in `cleanup_expired_reservations`, each tested again under its lock. -/
def cleanupRows : List UUID → Db ℕ
  | [] => pure 0
  | id :: ids => do
    let t ← updateTicketRow id Ticket.isExpired Ticket.unreserved
    let n ← cleanupRows ids
    pure (n + if t.isSome then 1 else 0)

/-- The tickets that the `WHERE` of `cleanup_expired_reservations` finds in its snapshot. -/
def expiredReservations (now : Time) (s : Tables) : List UUID :=
  ((rowsOf ticketRow s).filter fun (_, t) => t.isExpired now).map Prod.fst

/-- Tickets whose reservation has expired are waiting again; the result is their number. -/
def cleanupExpiredReservations : Db ℕ := do
  let ids ← perform (.select expiredReservations)
  cleanupRows ids

/-! ## Fetching -/

/-- `partition_id = ANY(partition_ids) AND status = 'waiting'`, with the optional age limit. -/
def isFetched (partitionIds : List ℕ) (maxWait : Option Time) (now : Time) (t : Ticket) : Bool :=
  t.partitionId ∈ partitionIds && t.status = .waiting &&
    (match maxWait with
      | none => true
      | some d => now - d ≤ t.createdAt)

/-- `ORDER BY created_at`, ascending or descending; `tie` decides between equal times. -/
def createdOrder (ascending : Bool) (tie : UUID → ℕ) (a b : UUID × Ticket) : Bool :=
  if a.2.createdAt = b.2.createdAt then tie a.1 ≤ tie b.1
  else if ascending then a.2.createdAt < b.2.createdAt else b.2.createdAt < a.2.createdAt

/-- One query for the oldest or the newest waiting tickets of the partitions. A limit of zero asks nothing. -/
def fetchTicketsOrdered (partitionIds : List ℕ) (limit : ℕ) (ascending : Bool)
    (maxWait : Option Time) : Db (List WaitingTicket) :=
  if limit = 0 then pure [] else do
    let tie ← ask .tieBreak
    perform (.select fun now s =>
      ((orderBy (createdOrder ascending tie)
        ((rowsOf ticketRow s).filter fun (_, t) => isFetched partitionIds maxWait now t)).take
          limit).map WaitingTicket.ofRow)

/-- The batch of one iteration: the oldest tickets, or with the bias the newest half and then those of the
oldest half that are not in it. -/
def fetchWaitingTickets (partitionIds : List ℕ) (batchSize : ℕ) (freshnessBias : Bool)
    (maxWait : Option Time) : Db (List WaitingTicket) :=
  if partitionIds.isEmpty then pure []
  else if !freshnessBias then fetchTicketsOrdered partitionIds batchSize true maxWait
  else do
    let newestLimit := (batchSize + 1) / 2
    let oldestLimit := batchSize - newestLimit
    let newest ← fetchTicketsOrdered partitionIds newestLimit false maxWait
    let oldest ← fetchTicketsOrdered partitionIds oldestLimit true maxWait
    let seenIds := newest.map WaitingTicket.ticketId
    pure (newest ++ oldest.filter fun t => t.ticketId ∉ seenIds)

/-! ## Searching for pairs -/

/-- How far skills may be apart after this wait; longer waits are meant to allow more. -/
def skillDelta (wait : Time) (settings : Settings) : ℤ :=
  if seconds 60 ≤ wait then settings.skillDeltaAfter60s
  else if seconds 30 ≤ wait then settings.skillDeltaAfter30s
  else settings.skillDeltaInitial

/-- `wait_seconds`, by the host's clock: tickets from the future have waited for no time. -/
def waitSeconds (createdAt : Time) : Db Time := do
  let now ← ask .wallClock
  pure (max 0 (now - createdAt))

/-- Tickets of one tenant, region and queue fit if their skills are close enough for the one that has waited
longer. Each wait is a reading of the clock of its own. -/
def ticketsCompatible (left right : WaitingTicket) (settings : Settings) : Db Bool :=
  if left.tenantId ≠ right.tenantId ∨ left.region ≠ right.region ∨
      left.queueName ≠ right.queueName then pure false
  else do
    let leftWait ← waitSeconds left.createdAt
    let rightWait ← waitSeconds right.createdAt
    let threshold := max (skillDelta leftWait settings) (skillDelta rightWait settings)
    pure ((left.skill - right.skill).natAbs ≤ threshold)

/-- The inner loop of `find_pairs`: the first unused ticket that is compatible with `first`. -/
def findSecond (settings : Settings) (first : WaitingTicket) (used : List UUID) :
    List WaitingTicket → Db (Option WaitingTicket)
  | [] => pure none
  | second :: rest =>
    if second.ticketId ∈ used then findSecond settings first used rest
    else do
      let compatible ← ticketsCompatible first second settings
      if compatible then pure (some second) else findSecond settings first used rest

/-- The outer loop of `find_pairs`: the first unused ticket gets the first partner that fits, and both are
used from then on. -/
def findPairsFrom (settings : Settings) : List WaitingTicket → List UUID →
    Db (List (WaitingTicket × WaitingTicket))
  | [], _ => pure []
  | first :: rest, used =>
    if first.ticketId ∈ used then findPairsFrom settings rest used
    else do
      match ← findSecond settings first used rest with
      | some second => do
        let pairs ← findPairsFrom settings rest (second.ticketId :: first.ticketId :: used)
        pure ((first, second) :: pairs)
      | none => findPairsFrom settings rest used

/-- Greedy pairs of a list of tickets, earlier tickets first. Other sizes of a match than two raise. -/
def findPairs (tickets : List WaitingTicket) (settings : Settings) :
    Db (List (WaitingTicket × WaitingTicket)) :=
  if settings.matchSize ≠ 2 then throw (.other "only 1v1 matching is supported")
  else findPairsFrom settings tickets []

/-! ## Creating a match -/

/-- A waiting ticket is reserved for the worker; the result tells whether it was still waiting. -/
def reserveTicket (ticketId : UUID) (workerId : String) (reservationSeconds : ℕ) : Db Bool := do
  let t ← updateTicket ticketId (fun _ t => t.status = .waiting)
    (Ticket.reservedFor workerId reservationSeconds)
  pure t.isSome

/-- The worker's own reservation is taken back, and no other. -/
def releaseTicket (ticketId : UUID) (workerId : String) : Db Unit := do
  let _ ← updateTicket ticketId (fun _ t => t.isReservedBy workerId) Ticket.unreserved

/-- What the tenant is told of a match. The event's id is part of it, so that receivers can tell a repeated
POST. -/
def buildCallbackPayload (eventId matchId : UUID) (tenantId region queueName : String)
    (createdAt : Time) (players : List Json) : Json :=
  .obj [
    ("event_id", .str (uuidText eventId)),
    ("event_type", .str "match.created"),
    ("tenant_id", .str tenantId),
    ("match_id", .str (uuidText matchId)),
    ("created_at", .str (secondsText createdAt ++ "Z")),
    ("region", .str region),
    ("queue_name", .str queueName),
    ("players", .arr players)]

/-- One entry of the payload's `players`, which names the player and the ticket. -/
def playerJson (t : WaitingTicket) : Json :=
  .obj [("player_id", .str t.playerId), ("ticket_id", .str (uuidText t.ticketId))]

/-- The loop body: the `match_players` row and the ticket's update, whose row count nobody looks
at. -/
def addPlayer (matchId : UUID) (workerId : String) (ticket : WaitingTicket) : Db Unit := do
  let _ ← insertRow (.matchPlayers matchId ticket.ticketId) fun _ => ⟨ticket.playerId⟩
  let _ ← updateTicket ticket.ticketId (fun _ t => t.isReservedBy workerId)
    (Ticket.matchedWith matchId)

/-- `SELECT COALESCE(callback_url, default)`; without a tenant row the subscript raises. -/
def callbackUrl (tenantId : String) : Db String := do
  let url ← perform (.select fun _ s =>
    (s.lookup (.tenants tenantId)).map fun t => t.callbackUrl.getD defaultCallbackUrl)
  match url with
  | some url => pure url
  | none => throw (.other "'NoneType' object is not subscriptable")

/-- The block inside `conn.transaction()`: the match, its players, their tickets, and the callback event, all
or nothing. -/
def insertMatch (first second : WaitingTicket) (workerId : String) : Db Unit := do
  let matchId ← ask .genRandomUuid
  let row ← insertRow (.matches matchId) fun now =>
    { tenantId := first.tenantId
      region := first.region
      queueName := first.queueName
      partitionId := first.partitionId
      createdAt := now }
  match row with
  | none => throw (.other "'NoneType' object is not subscriptable")
  | some matchRow => do
    let players := [playerJson first, playerJson second]
    addPlayer matchId workerId first
    addPlayer matchId workerId second
    let url ← callbackUrl first.tenantId
    let eventId ← ask .genRandomUuid
    let payload := buildCallbackPayload eventId matchId first.tenantId first.region first.queueName
      matchRow.createdAt players
    let _ ← insertRow (.callbackEvents eventId) fun now =>
      { tenantId := first.tenantId
        matchId := matchId
        callbackUrl := url
        payload := payload
        nextAttemptAt := now
        createdAt := now }

/-- Both tickets are reserved, and then the match is made in a nested transaction. A pair whose second ticket
is taken gives the first one back; so does an exception. -/
def createMatchFromPair (first second : WaitingTicket) (workerId : String)
    (reservationSeconds : ℕ) : Db Bool := do
  if !(← reserveTicket first.ticketId workerId reservationSeconds) then pure false
  else if !(← reserveTicket second.ticketId workerId reservationSeconds) then do
    releaseTicket first.ticketId workerId
    pure false
  else do
    match ← attempt (transaction (insertMatch first second workerId)) with
    | .ok () => pure true
    | .error e =>
      if e.isException then do
        releaseTicket first.ticketId workerId
        releaseTicket second.ticketId workerId
        throw e
      else throw e

end Matchmaking
