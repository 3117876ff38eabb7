import Matchmaking.Schema

/-!
# What the programs run on

The exceptions and outside calls of the programs, the marks their metrics leave, and the functions of
the surrounding libraries that are not part of the repository.
-/

namespace Matchmaking

open ReadCommitted

/-- Library functions that are left open. Nothing is assumed about them but what a theorem says, such as that
a hash has no collisions. -/
structure Runtime where
  /-- SHA-256 of a text's UTF-8 encoding. -/
  sha256 : String → BitVec 256
  /-- HMAC-SHA-256 of a key and a message. -/
  hmacSha256 : String → String → BitVec 256
  /-- How a driver reads a text as a `uuid` parameter. -/
  uuidIn : String → Option UUID

/-- Exceptions, as far as the code tells them apart: some handlers look for a unique violation or a deadlock,
and an invalid URL passes the handler of HTTP errors. -/
inductive Exn
  | uniqueViolation
  | deadlockDetected (msg : String)
  /-- Any other exception of the database driver or of Python. -/
  | other (msg : String)
  /-- `httpx.InvalidURL`, which is not a subclass of `httpx.HTTPError`. -/
  | invalidUrl (msg : String)
  /-- A `BaseException` that is not an `Exception`. -/
  | interrupt
deriving DecidableEq

/-- `str(exc)`, which the dispatcher writes into the row of the event. -/
def Exn.str : Exn → String
  | .uniqueViolation => "duplicate key value violates unique constraint"
  | .deadlockDetected msg | .other msg | .invalidUrl msg => msg
  | .interrupt => ""

/-- Whether `except Exception` catches it; the cancellation of a task passes such handlers. -/
def Exn.isException : Exn → Bool
  | .interrupt => false
  | _ => true

/-- How a POST ends if it ends in a way that its caller handles: with a response, or with an exception
of `httpx.HTTPError`, which only the HTTP client raises. -/
inductive HttpResult
  | response (statusCode : ℕ)
  | httpError (msg : String)

/-- What the programs ask of their surroundings: connections, Redis, other services, clocks, random values,
and the choices that SQL leaves to the server. -/
inductive Call
  /-- Take a connection from a pool. -/
  | getConnection
  | genRandomUuid
  /-- The host's clock. -/
  | wallClock
  /-- A monotonic counter, in microseconds. -/
  | perfCounter
  /-- An order among rows that the query's `ORDER BY` leaves open. -/
  | tieBreak
  | redisIncr (key : String)
  | randint (low high : ℕ)
  | post (url body : String) (headers : List (String × String)) (timeout : ℕ)

/-- The replies to the calls. Any value of the type may come back, at any time. -/
abbrev Reply : Call → Type
  | .getConnection => Unit
  | .genRandomUuid => UUID
  | .wallClock => Time
  | .perfCounter => Time
  | .tieBreak => UUID → ℕ
  | .redisIncr _ => ℕ
  | .randint low high => {n : ℕ // low ≤ high → low ≤ n ∧ n ≤ high}
  | .post .. => HttpResult

/-- Updates of metrics with their labels. They change nothing in the database, and are kept in the log so that
counters can be spoken of. -/
inductive Metric
  | recordLeaseClaimFailure
  | recordLeasesRenewed (n : ℕ)
  | recordLeasesClaimed (n : ℕ)
  | recordPartitionsReleased (n : ℕ)
  | recordReservationsExpired (n : ℕ)
  | recordOwnedPartitions (n : ℕ)
  | recordMatch
  | recordMatchFailure
  | recordRollback
  | recordLoopStats (ticketsFetched pairsFound matchesCreated pairsSkipped : ℕ) (budgetExceeded : Bool)
  | recordClaimed (n : ℕ)
  | recordDelivered
  | recordFailed
  | recordRetry
  | ticketsCreated (tenantId region queueName : String)
  | ticketsRejected (tenantId reason : String)
  | ticketsCancelled (tenantId : String)
  | activeTickets (tenantId : String) (partitionId : ℕ) (delta : ℤ)

/-- Programs of the services, on the tables of the schema. -/
abbrev Db := Client Row Reply Exn Metric

/-- An HTTP answer of the API: the status and the body; headers are not modelled. -/
structure Response where
  status : ℕ
  body : Json

/-- `raise HTTPException(...)`, as the client sees it: FastAPI puts the detail into the body. -/
def httpException (status : ℕ) (detail : String) : Response :=
  ⟨status, .obj [("detail", .str detail)]⟩

/-- What a program ends with, for those whose result somebody gets. -/
inductive Answer
  | done
  /-- The number of events `run_once` claimed. -/
  | processed (n : ℕ)
  | response (r : Response)

/-! ## Calls and exceptions -/

/-- Ask the surroundings, which may also raise an exception. -/
def ask (c : Call) : Db (Reply c) := perform (.call c)

/-- Update a metric, which cannot fail. -/
def record (m : Metric) : Db Unit := perform (.emit m)

/-- `try: x`: the result or the exception. What follows decides by a `match`, as the `except` clauses do. -/
def attempt {α : Type} (x : Db α) : Db (Except Exn α) :=
  tryCatch (x >>= fun a => pure (.ok a)) fun e => pure (.error e)

/-- End the transaction, whatever becomes of the ROLLBACK; its own exceptions are suppressed. -/
def discard : Db Unit := tryCatch (perform .rollback) fun _ => pure ()

/-! ## Connections -/

/-- `with pool.connection()` of psycopg: commit at the end, or roll back and raise again. -/
def withConnection {α : Type} (body : Db α) : Db α := do
  ask .getConnection
  match ← attempt body with
  | .ok a => do
    perform .commit
    pure a
  | .error e => do
    discard
    throw e

/-- `with conn.transaction()` of psycopg: a savepoint where a transaction is open, else a
transaction. Errors of its own rollback are ignored. -/
def transaction {α : Type} (body : Db α) : Db α := do
  let nested ← perform .inTransaction
  perform (if nested then .savepoint else .start)
  match ← attempt body with
  | .ok a => do
    perform (if nested then .releaseSavepoint else .commit)
    pure a
  | .error e => do
    let _ ← attempt (perform (if nested then .rollbackToSavepoint else .rollback))
    throw e

/-- `async with pool.acquire() as conn, conn.transaction()` of asyncpg: COMMIT if the body returns, ROLLBACK
if it raises. -/
def asyncTransaction {α : Type} (body : Db α) : Db α := do
  ask .getConnection
  perform .start
  match ← attempt body with
  | .ok a => do
    perform .commit
    pure a
  | .error e => do
    perform .rollback
    throw e

/-- A single statement on an open connection: a transaction of its own. -/
def onConnection {α : Type} (statement : Db α) : Db α := do
  perform .start
  match ← attempt statement with
  | .ok a => do
    perform .commit
    pure a
  | .error e => do
    discard
    throw e

/-- `async with pool.acquire() as conn` around a single statement, which asyncpg commits by itself. -/
def autocommit {α : Type} (statement : Db α) : Db α := do
  ask .getConnection
  onConnection statement

/-! ## Statements -/

/-- `INSERT` of one row: its key must be new. It waits for a transaction that is writing the same key. -/
def insertRow (k : Key) (row : Time → Row k) : Db (Option (Row k)) :=
  perform (.row k false fun now old => match old with
    | none => .put (row now)
    | some _ => .raise .uniqueViolation)

/-- `INSERT ... ON CONFLICT DO NOTHING`; the reply tells whether the row was inserted. -/
def insertRowIfAbsent (k : Key) (row : Time → Row k) : Db (Option (Row k)) :=
  perform (.row k false fun now old => match old with
    | none => .put (row now)
    | some _ => .leave)

/-- `INSERT ... ON CONFLICT DO UPDATE`: the row is there afterwards, new or changed. -/
def upsertRow (k : Key) (row : Time → Option (Row k) → Row k) : Db Unit := do
  let _ ← perform (.row k false fun now old => .put (row now old))

/-- The part of an `UPDATE` that concerns one row: lock it and test its newest version. -/
def updateRow (k : Key) (cond : Time → Row k → Bool) (set : Time → Row k → Row k) :
    Db (Option (Row k)) :=
  perform (.row k false fun now old => match old with
    | some v => if cond now v then .put (set now v) else .leave
    | none => .leave)

/-- `UPDATE ... WHERE primary key = ...`: the row must satisfy the condition in the statement's
snapshot as well. -/
def updateByKey (k : Key) (cond : Time → Row k → Bool) (set : Time → Row k → Row k) :
    Db (Option (Row k)) := do
  let found ← perform (.select fun now s => (s.lookup k).any (cond now))
  if found then updateRow k cond set else pure none

/-- Keep the entry of the unique index in step with a ticket that has just been written. -/
def indexTicket (ticketId : UUID) (t : Ticket) : Db Unit := do
  let _ ← perform (.row t.indexKey false fun _ (old : Option UUID) =>
    match t.status.isActive, old with
    | true, none => .put ticketId
    | true, some id => if id = ticketId then .put ticketId else .raise .uniqueViolation
    | false, some id => if id = ticketId then .delete else .leave
    | false, none => .leave)

/-- The part of an `UPDATE tickets` that concerns one row. -/
def updateTicketRow (ticketId : UUID) (cond : Time → Ticket → Bool)
    (set : Time → Ticket → Ticket) : Db (Option Ticket) := do
  match ← updateRow (.tickets ticketId) cond set with
  | none => pure none
  | some t => do
    indexTicket ticketId t
    pure (some t)

/-- `UPDATE tickets SET ... WHERE ticket_id = ... AND ...`. -/
def updateTicket (ticketId : UUID) (cond : Time → Ticket → Bool) (set : Time → Ticket → Ticket) :
    Db (Option Ticket) := do
  let found ← perform (.select fun now s => (s.lookup (.tickets ticketId)).any (cond now))
  if found then updateTicketRow ticketId cond set else pure none

/-- The rows of a result in the order of `le`. -/
def orderBy {α : Type} (le : α → α → Bool) (rows : List α) : List α :=
  rows.insertionSort fun a b => le a b = true

/-- Sorting changes the order of rows and nothing else. -/
theorem orderBy_perm {α : Type} (le : α → α → Bool) (rows : List α) : (orderBy le rows).Perm rows :=
  List.perm_insertionSort _ rows

theorem mem_orderBy {α : Type} {le : α → α → Bool} {rows : List α} {a : α} :
    a ∈ orderBy le rows ↔ a ∈ rows := (orderBy_perm le rows).mem_iff

/-- The rows are in the order of `le`, where that is total and transitive. -/
theorem orderBy_sorted {α : Type} {le : α → α → Bool} (htotal : ∀ a b, le a b = true ∨ le b a = true)
    (htrans : ∀ a b c, le a b = true → le b c = true → le a c = true) (rows : List α) :
    (orderBy le rows).Pairwise fun a b => le a b = true := by
  have : Std.Total fun a b => le a b = true := ⟨htotal⟩
  have : IsTrans α fun a b => le a b = true := ⟨htrans⟩
  exact List.pairwise_insertionSort _ rows

/-- The same, where each row has a number to sort by. -/
theorem orderBy_ranked {α : Type} (rank : α → ℕ) (rows : List α) :
    (orderBy (fun a b => rank a ≤ rank b) rows).Pairwise fun a b => rank a ≤ rank b := by
  refine (orderBy_sorted (fun a b => ?_) (fun a b c hab hbc => ?_) rows).imp of_decide_eq_true
  · simp only [decide_eq_true_eq]
    exact Nat.le_total _ _
  · rw [decide_eq_true_eq] at hab hbc ⊢
    exact Nat.le_trans hab hbc

end Matchmaking
