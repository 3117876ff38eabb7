import Matchmaking.Worker.Main
import Matchmaking.Api.Routes
import Matchmaking.Dispatcher.Main
import Matchmaking.ReadCommitted.System

/-!
# The whole service

The set-up programs `db/init.py` and `db/migrate.py`, the actors of the service and the programs they
run, and the system in which any number of them run at the same time.
-/

namespace Matchmaking

open ReadCommitted

/-! ## Setting up -/

/-- The secret of tenants that the set-up inserts. -/
def defaultCallbackSecret : String := "dev-callback-secret"

/-- The tenants that `db/init.py` inserts. -/
def tenantIds : List String :=
  ["studio_a", "studio_noisy", "studio_quiet", "studio_01", "studio_02", "studio_03", "studio_04",
    "studio_05", "studio_06", "studio_07", "studio_08", "studio_09", "studio_10"]

/-- `INSERT INTO partition_leases ... ON CONFLICT DO NOTHING`, for one partition after the other. -/
def insertPartitions : List ℕ → Db Unit
  | [] => pure ()
  | p :: ps => do
    let _ ← insertRowIfAbsent (.partitionLeases p) fun now => { updatedAt := now }
    insertPartitions ps

/-- The upserts of the development tenants, which get the limits of the present settings. -/
def upsertTenants (settings : Settings) : List String → Db Unit
  | [] => pure ()
  | tenantId :: ids => do
    let rateLimit := settings.defaultTicketRateLimitPerMinute *
      (if tenantId = "studio_noisy" then 2 else 1)
    upsertRow (.tenants tenantId) fun _ (old : Option Tenant) =>
      { name := old.elim tenantId Tenant.name
        maxTicketsPerSecond := rateLimit
        maxTicketsInFlight := settings.defaultMaxWaitingTickets
        maxPartitionDepth := settings.defaultMaxPartitionDepth
        callbackUrl := some defaultCallbackUrl
        callbackSecret := some defaultCallbackSecret }
    upsertTenants settings ids

/-- `db/init.py`: partitions and tenants, in one transaction. -/
def initMain (settings : Settings) : Db Unit :=
  withConnection do
    insertPartitions (List.range settings.matchmakingPartitions)
    upsertTenants settings tenantIds
    perform .commit

/-- `INSERT INTO tenants ... ON CONFLICT DO NOTHING`, of rows that are given with the migration. -/
def insertTenants : List (String × Tenant) → Db Unit
  | [] => pure ()
  | (tenantId, t) :: rows => do
    let _ ← insertRowIfAbsent (.tenants tenantId) fun _ => t
    insertTenants rows

/-- `db/migrate.py`: every statement commits by itself; those that create tables have no rows. -/
def migrate (settings : Settings) : Db Unit := do
  autocommit (insertPartitions (List.range settings.matchmakingPartitions))
  autocommit (insertTenants [("studio_a", { name := "studio_a" })])
  autocommit (insertTenants [
    ("tenant-1", { name := "tenant-1", maxTicketsPerSecond := 20, maxTicketsInFlight := 50 }),
    ("tenant-2", { name := "tenant-2", maxTicketsPerSecond := 5, maxTicketsInFlight := 10 })])

/-! ## Actors -/

/-- What runs against the database: requests, iterations of workers and dispatchers, shutdowns and set-ups,
each with its parameters. Settings may differ between them. -/
inductive Actor
  | initMain (settings : Settings)
  | migrate (settings : Settings)
  | runLoop (settings : Settings) (workerId : String) (partitionOffset : ℕ)
  | shutdownWorker (workerId : String)
  | runOnce (settings : Settings) (dispatcherId : String)
  | createTicket (settings : Settings) (xTenantId idempotencyKey : Option String)
      (body : TicketCreate)
  | listTickets (xTenantId : Option String)
  | getTicket (xTenantId : Option String) (ticketId : String)
  | cancelTicket (xTenantId : Option String) (ticketId : String)
  | getMatch (xTenantId : Option String) (matchId : String)

/-- The worker an actor belongs to, for iterations of the loop and for shutdowns. -/
def Actor.worker? : Actor → Option String
  | .runLoop _ workerId _ | .shutdownWorker workerId => some workerId
  | _ => none

/-- An API request, whose result is an answer to a client. -/
def respond (request : Db Response) : Db Answer := do
  let r ← request
  pure (.response r)

/-- The program of an actor, from the model of its source. -/
def program (rt : Runtime) : Actor → Db Answer
  | .initMain settings => do
    initMain settings
    pure .done
  | .migrate settings => do
    migrate settings
    pure .done
  | .runLoop settings workerId partitionOffset => do
    runLoop settings workerId partitionOffset
    pure .done
  | .shutdownWorker workerId => do
    shutdownWorker workerId
    pure .done
  | .runOnce settings dispatcherId => do
    let n ← runOnce rt settings dispatcherId
    pure (.processed n)
  | .createTicket settings xTenantId idempotencyKey body =>
    respond (withTenant xTenantId (createTicket rt settings idempotencyKey body))
  | .listTickets xTenantId => respond (withTenant xTenantId fun tenantId _ => listTickets tenantId)
  | .getTicket xTenantId ticketId =>
    respond (withTenant xTenantId fun tenantId _ => getTicket rt ticketId tenantId)
  | .cancelTicket xTenantId ticketId =>
    respond (withTenant xTenantId fun tenantId _ => cancelTicket rt ticketId tenantId)
  | .getMatch xTenantId matchId =>
    respond (withTenant xTenantId fun tenantId _ => getMatch rt matchId tenantId)

/-- The service: any number of actors at a time, with no two excluding each other. -/
def service (rt : Runtime) : System Row Reply Exn Metric Answer Actor where
  program := program rt
  exclusive _ _ := false

/-- The service with one process for each worker: its iterations and its shutdown run one after the
other. -/
def serviceOfWorkers (rt : Runtime) : System Row Reply Exn Metric Answer Actor where
  program := program rt
  exclusive l l' := l.worker?.isSome && l.worker? = l'.worker?

/-- States of the service: its world, and the sessions that are running. -/
abbrev ServiceState := State Row Reply Exn Metric Answer Actor

/-- The tables, the clock and the log that all sessions share. -/
abbrev ServiceWorld := World Row Reply Exn Metric Answer Actor

/-- An entry of the log of the service. -/
abbrev LogEntry := Entry Row Reply Exn Metric Answer Actor

/-- A run starts with empty tables, so that set-ups are part of it. -/
def emptyState (clock : Time) : ServiceState := .initial ∅ clock

end Matchmaking
