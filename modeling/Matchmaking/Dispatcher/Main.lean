import Matchmaking.Runtime

/-!
# The callback dispatcher

`callback_dispatcher/main.py`: claiming a batch of events, delivering each of them, and recording
the outcome.
-/

namespace Matchmaking

open ReadCommitted

/-- `DEADLOCK_MAX_RETRIES`: how often a transaction that records an outcome is tried. -/
def deadlockMaxRetries : ℕ := 3

/-- A claimed event as the dispatcher keeps it in memory, with the tenant's secret at the time of the
claim. -/
structure CallbackEvent where
  eventId : UUID
  tenantId : String
  matchId : UUID
  eventType : String
  callbackUrl : String
  payload : Json
  attempts : ℕ
  callbackSecret : Option String

/-! ## Claiming -/

namespace CallbackEventRow

/-- `status = 'in_progress' AND locked_until > now()`: such events count against the concurrency of their
tenant. -/
def isInFlight (now : Time) (e : CallbackEventRow) : Bool :=
  e.status = .inProgress && e.lockedUntil.any fun u => now < u

/-- The condition of `ranked`: pending events, and claimed ones whose lock has expired, once their next
attempt is due. -/
def isDue (now : Time) (e : CallbackEventRow) : Bool :=
  (e.status = .pending || e.status = .inProgress && e.lockedUntil.any fun u => u ≤ now) &&
    e.nextAttemptAt ≤ now

/-- `SET status = 'in_progress', locked_by = ..., locked_until = ...`. -/
def claimed (dispatcherId : String) (timeoutSeconds : ℕ) (now : Time) (e : CallbackEventRow) :
    CallbackEventRow :=
  { e with
    status := .inProgress
    lockedBy := some dispatcherId
    lockedUntil := some (now + seconds timeoutSeconds) }

/-- The row as `run_once` gets it from `RETURNING`, with the tenant's secret from the join. -/
def toEvent (eventId : UUID) (secret : Option String) (e : CallbackEventRow) : CallbackEvent where
  eventId := eventId
  tenantId := e.tenantId
  matchId := e.matchId
  eventType := e.eventType
  callbackUrl := e.callbackUrl
  payload := e.payload
  attempts := e.attempts
  callbackSecret := secret

end CallbackEventRow

/-- `ORDER BY next_attempt_at, created_at`; `tie` decides between equal times. -/
def dueOrder (tie : UUID → ℕ) (a b : UUID × CallbackEventRow) : Bool :=
  if a.2.nextAttemptAt ≠ b.2.nextAttemptAt then a.2.nextAttemptAt < b.2.nextAttemptAt
  else if a.2.createdAt ≠ b.2.createdAt then a.2.createdAt < b.2.createdAt
  else tie a.1 ≤ tie b.1

/-- `row_number() OVER (PARTITION BY tenant_id ...)` of ordered rows; `before` lists the tenants of
the rows already numbered. -/
def rowNumbers : List (UUID × CallbackEventRow) → List String → List (UUID × String × ℕ)
  | [], _ => []
  | (id, e) :: rows, before =>
    (id, e.tenantId, before.count e.tenantId + 1) :: rowNumbers rows (e.tenantId :: before)

/-- The CTEs `in_flight`, `ranked` and `eligible` on a snapshot: due events are numbered within their tenant,
and a tenant with events in flight gets so many fewer of the batch. -/
def eligible (settings : Settings) (tie : UUID → ℕ) (now : Time) (s : Tables) : List UUID :=
  let events := rowsOf eventRow s
  let inFlight := (events.filter fun (_, e) => e.isInFlight now).map fun (_, e) => e.tenantId
  let ranked := rowNumbers (orderBy (dueOrder tie) (events.filter fun (_, e) => e.isDue now)) []
  let allowed := ranked.filter fun (_, tenantId, rn) =>
    rn + inFlight.count tenantId ≤ settings.callbackTenantConcurrencyLimit
  let ordered := orderBy (fun a b => if a.2.2 = b.2.2 then tie a.1 ≤ tie b.1 else a.2.2 < b.2.2)
    allowed
  (ordered.take settings.callbackBatchSize).map Prod.fst

/-- What a claim computes from its snapshot: the eligible events `ORDER BY event_id`, and the tenants'
secrets. -/
def claimSnapshot (settings : Settings) (tie : UUID → ℕ) (now : Time) (s : Tables) :
    List UUID × (String → Option String) :=
  (orderBy (fun a b => a ≤ b) (eligible settings tie now s),
    fun tenantId => (s.lookup (.tenants tenantId)).bind fun (t : Tenant) => t.callbackSecret)

/-- `FOR UPDATE SKIP LOCKED` and the update: a row that is not locked is taken in its newest version,
of which only `event_id IN eligible` is tested again. -/
def claimRows (settings : Settings) (dispatcherId : String) (secret : String → Option String) :
    List UUID → Db (List CallbackEvent)
  | [] => pure []
  | id :: ids => do
    let claimed ← perform (.row (.callbackEvents id) true fun now (old : Option CallbackEventRow) =>
      match old with
      | some e => .put (e.claimed dispatcherId settings.callbackTimeoutSeconds now)
      | none => .leave)
    let rest ← claimRows settings dispatcherId secret ids
    pure (match claimed with
      | some e => e.toEvent id (secret e.tenantId) :: rest
      | none => rest)

/-- The statement of a claim: a snapshot decides which events are eligible, and then each of them is locked
unless another dispatcher has it locked. -/
def claimCallbackEvents (dispatcherId : String) (settings : Settings) : Db (List CallbackEvent) := do
  let tie ← ask .tieBreak
  let snapshot ← perform (.select (claimSnapshot settings tie))
  let events ← claimRows settings dispatcherId snapshot.2 snapshot.1
  -- the order in which `RETURNING` lists the rows is left open
  let order ← ask .tieBreak
  pure (orderBy (fun a b => order a.eventId ≤ order b.eventId) events)

/-! ## Delivery -/

/-- The body of the POST: `json.dumps` with sorted names and without blanks. -/
def encodePayload (payload : Json) : String := payload.dumps

/-- `hmac.new(secret, timestamp + "." + body, sha256).hexdigest()`. -/
def signature (rt : Runtime) (secret timestamp body : String) : String :=
  Json.hex 64 (rt.hmacSha256 secret (timestamp ++ "." ++ body)).toNat

/-- The headers of a POST, signed with the secret of the claim. A tenant without a secret has the empty
one. -/
def buildHeaders (rt : Runtime) (event : CallbackEvent) (body : String) :
    Db (List (String × String)) := do
  let now ← ask .wallClock
  let timestamp := secondsText now ++ "Z"
  pure [
    ("Content-Type", "application/json"),
    ("X-PMS-Event-Id", uuidText event.eventId),
    ("X-PMS-Timestamp", timestamp),
    ("X-PMS-Signature",
      "sha256=" ++ signature rt (event.callbackSecret.getD "") timestamp body)]

/-- The error of a delivery, if there is one; only `httpx.HTTPError` is caught. -/
def deliverEvent (rt : Runtime) (event : CallbackEvent) (settings : Settings) :
    Db (Option String) := do
  let body := encodePayload event.payload
  let headers ← buildHeaders rt event body
  match ← ask (.post event.callbackUrl body headers settings.callbackTimeoutSeconds) with
  | .response statusCode =>
    if 200 ≤ statusCode ∧ statusCode < 300 then pure none
    else pure (some ("callback returned HTTP " ++ toString statusCode))
  | .httpError msg => pure (some msg)

/-! ## Outcomes -/

/-- `random.randint(0, jitter)` on top of the capped exponential backoff, so that retries do not come all at
once. -/
def nextBackoffSeconds (attempts : ℕ) (settings : Settings) : Db ℕ := do
  let exponential := settings.callbackBaseBackoffSeconds * 2 ^ (attempts - 1)
  let capped := min exponential settings.callbackMaxBackoffSeconds
  let jitter ← ask (.randint 0 settings.callbackJitterSeconds)
  pure (capped + jitter.val)

namespace CallbackEventRow

/-- What `mark_delivered` sets: the event is final, and its lock is given up. -/
def markDelivered (now : Time) (e : CallbackEventRow) : CallbackEventRow :=
  { e with
    status := .delivered
    attempts := e.attempts + 1
    lockedBy := none
    lockedUntil := none
    lastError := none
    deliveredAt := some now }

/-- What `mark_failed_attempt` sets at the last attempt: the event is final, with the text of the error. -/
def markFailed (error : String) (e : CallbackEventRow) : CallbackEventRow :=
  { e with
    status := .failed
    attempts := e.attempts + 1
    lockedBy := none
    lockedUntil := none
    lastError := some error }

/-- What `mark_failed_attempt` sets before that: the event is pending again, and due after the backoff. -/
def markRetry (backoff : ℕ) (error : String) (now : Time) (e : CallbackEventRow) :
    CallbackEventRow :=
  { e with
    status := .pending
    attempts := e.attempts + 1
    nextAttemptAt := now + seconds backoff
    lockedBy := none
    lockedUntil := none
    lastError := some error }

/-- What `release_claim` sets: the event is pending again as if nobody had claimed it; attempts and due time
stay, and an error is kept if there is none to replace it. -/
def release (error : Option String) (e : CallbackEventRow) : CallbackEventRow :=
  { e with
    status := .pending
    lockedBy := none
    lockedUntil := none
    lastError := error <|> e.lastError }

end CallbackEventRow

/-- `UPDATE matches SET status = ... WHERE match_id = ...`. -/
def setMatchStatus (matchId : UUID) (status : MatchStatus) : Db Unit := do
  let _ ← updateByKey (.matches matchId) (fun _ _ => true) fun _ (m : Match) =>
    { m with status := status }

/-- `UPDATE callback_events SET ... WHERE event_id = ...`: no other condition. -/
def updateEvent (eventId : UUID) (set : Time → CallbackEventRow → CallbackEventRow) : Db Unit := do
  let _ ← updateByKey (.callbackEvents eventId) (fun _ _ => true) set

/-- The match and its event are marked as delivered, in one transaction and without a test of who holds the
event. -/
def markDelivered (event : CallbackEvent) : Db Unit :=
  transaction do
    setMatchStatus event.matchId .callbackDelivered
    updateEvent event.eventId CallbackEventRow.markDelivered

/-- A failed attempt is counted, for good if it was the last one. The result tells whether the event is
finally failed, by the attempts that the claim has read. -/
def markFailedAttempt (event : CallbackEvent) (settings : Settings) (error : String) : Db Bool :=
  transaction do
    if settings.callbackMaxAttempts ≤ event.attempts + 1 then do
      setMatchStatus event.matchId .callbackFailed
      updateEvent event.eventId fun _ e => e.markFailed error
      pure true
    else do
      let backoff ← nextBackoffSeconds (event.attempts + 1) settings
      updateEvent event.eventId (CallbackEventRow.markRetry backoff error)
      pure false

/-- The event is pending again without another attempt; this is the last resort of a dispatcher that cannot
record the outcome. -/
def releaseClaim (event : CallbackEvent) (error : Option String) : Db Unit :=
  transaction (updateEvent event.eventId fun _ e => e.release error)

/-- Only these exceptions are worth another try. -/
def isDeadlock : Exn → Bool
  | .deadlockDetected _ => true
  | _ => false

/-- One try of `persist_delivery_outcome`, on a connection of its own. -/
def persistOnce (event : CallbackEvent) (settings : Settings) : Option String → Db Bool
  | none => withConnection do
    markDelivered event
    pure false
  | some error => withConnection (markFailedAttempt event settings error)

/-- The loop over the tries that are left; a result of `.error` is `last_exc`. -/
def persistTries (event : CallbackEvent) (settings : Settings) (error : Option String) :
    ℕ → Db (Except Exn Bool)
  | 0 => pure (.error (.other "last_exc is not None"))
  | n + 1 => do
    match ← attempt (persistOnce event settings error) with
    | .ok finalFailed => pure (.ok finalFailed)
    | .error e =>
      if !isDeadlock e ∨ n = 0 then pure (.error e) else persistTries event settings error n

/-- The first 500 characters of an error, which is all that is stored. -/
def trim (text : String) : String := String.ofList (text.toList.take 500)

/-- The outcome is recorded, with further tries after a deadlock. If none succeeds the claim is released, and
the exception of the last one raised again. -/
def persistDeliveryOutcome (event : CallbackEvent) (settings : Settings) (error : Option String) :
    Db Bool := do
  match ← persistTries event settings error deadlockMaxRetries with
  | .ok finalFailed => pure finalFailed
  | .error lastExc => do
    withConnection (releaseClaim event (some (trim lastExc.str)))
    throw lastExc

/-! ## One round -/

/-- The loop over the claimed events. An outcome that cannot be persisted is logged and the loop goes on; an
exception of the delivery itself ends it. -/
def deliverEvents (rt : Runtime) (settings : Settings) : List CallbackEvent → Db Unit
  | [] => pure ()
  | event :: events => do
    let error ← deliverEvent rt event settings
    match ← attempt (persistDeliveryOutcome event settings (error.map trim)) with
    | .error _ => deliverEvents rt settings events
    | .ok finalFailed => do
      record (if error.isNone then .recordDelivered
        else if finalFailed then .recordFailed else .recordRetry)
      deliverEvents rt settings events

/-- The block of `run_once` that claims a batch, committed before the first POST. -/
def claimBatch (settings : Settings) (dispatcherId : String) : Db (List CallbackEvent) :=
  withConnection do
    let events ← claimCallbackEvents dispatcherId settings
    perform .commit
    pure events

/-- One iteration of the dispatcher: a batch is claimed, and its events are delivered one after the other. -/
def runOnce (rt : Runtime) (settings : Settings) (dispatcherId : String) : Db ℕ := do
  let events ← claimBatch settings dispatcherId
  record (.recordClaimed events.length)
  deliverEvents rt settings events
  pure events.length

end Matchmaking
