import Matchmaking.Json
import Matchmaking.ReadCommitted.Program

/-!
# The tables

`db/schema.sql` as one key type and the row type of each key. A row holds the columns that are not
part of its key. The partial unique index `uq_active_ticket_per_player_queue` is a table of its own:
it maps the indexed columns of a waiting or reserved ticket to the ticket's id.
-/

namespace Matchmaking

open ReadCommitted

/-- The statuses that the CHECK on `tickets.status` allows. A match is made of waiting tickets, which are
reserved while it is being made. -/
inductive TicketStatus
  | waiting
  | reserved
  | matched
  | cancelled
deriving DecidableEq

/-- The statuses that the CHECK on `matches.status` allows. The dispatcher sets them when it records the
outcome of a callback. -/
inductive MatchStatus
  | created
  | callbackPending
  | callbackDelivered
  | callbackFailed
deriving DecidableEq, Inhabited

/-- The statuses that the CHECK on `callback_events.status` allows. An event in progress is claimed by a
dispatcher until its lock expires. -/
inductive EventStatus
  | pending
  | inProgress
  | delivered
  | failed
deriving DecidableEq

/-- The text of a ticket status, as it is stored and as clients see it. -/
def TicketStatus.text : TicketStatus → String
  | .waiting => "waiting"
  | .reserved => "reserved"
  | .matched => "matched"
  | .cancelled => "cancelled"

/-- The text of a match status, as it is stored and as clients see it. -/
def MatchStatus.text : MatchStatus → String
  | .created => "created"
  | .callbackPending => "callback_pending"
  | .callbackDelivered => "callback_delivered"
  | .callbackFailed => "callback_failed"

/-- The statuses the partial unique index covers: a player has one such ticket in a queue at most. -/
def TicketStatus.isActive : TicketStatus → Bool
  | .waiting | .reserved => true
  | _ => false

/-- The statuses a callback event is meant to keep for ever. -/
def EventStatus.isFinal : EventStatus → Bool
  | .delivered | .failed => true
  | _ => false

/-- A row of `tenants`, with the defaults of its columns. -/
structure Tenant where
  name : String
  /-- The limit of tickets per minute; the column's name is older than its meaning. -/
  maxTicketsPerSecond : ℤ := 20
  maxTicketsInFlight : ℤ := 50
  maxPartitionDepth : ℤ := 1000
  callbackUrl : Option String := none
  callbackSecret : Option String := none

/-- A row of `tickets`, without its primary key. Times that are not set yet are `NULL`. -/
structure Ticket where
  tenantId : String
  playerId : String
  region : String
  queueName : String
  skill : ℤ
  partitionId : ℕ
  status : TicketStatus
  reservedBy : Option String := none
  reservedUntil : Option Time := none
  matchId : Option UUID := none
  createdAt : Time
  updatedAt : Time
  matchedAt : Option Time := none
  cancelledAt : Option Time := none
deriving DecidableEq

/-- A row of `matches`, without its primary key; who plays is in `match_players`. -/
structure Match where
  tenantId : String
  region : String
  queueName : String
  partitionId : ℕ
  status : MatchStatus := .created
  createdAt : Time
deriving DecidableEq, Inhabited

/-- A row of `match_players`; match and ticket are its key. -/
structure MatchPlayer where
  playerId : String
deriving DecidableEq

/-- A row of `partition_leases`: who owns the partition, and until when. An owner without an expiry never
loses it. -/
structure PartitionLease where
  ownedBy : Option String := none
  leaseUntil : Option Time := none
  updatedAt : Time

/-- A row of `worker_heartbeats`: when the worker was last heard of. -/
structure WorkerHeartbeat where
  lastSeenAt : Time

/-- A row of `idempotency_keys`, with the response as it is replayed. -/
structure IdempotencyKey where
  requestHash : String
  responseStatus : ℕ
  responseBody : Json
  ticketId : Option UUID := none
  createdAt : Time

/-- A row of `callback_events`, the outbox of the service: what to POST and to where, how often it was tried,
and who has it claimed. -/
structure CallbackEventRow where
  tenantId : String
  matchId : UUID
  eventType : String := "match.created"
  callbackUrl : String
  payload : Json
  status : EventStatus := .pending
  attempts : ℕ := 0
  nextAttemptAt : Time
  lockedBy : Option String := none
  lockedUntil : Option Time := none
  lastError : Option String := none
  createdAt : Time
  deliveredAt : Option Time := none

/-- Primary keys, and the key of the partial unique index on active tickets. -/
inductive Key
  | tenants (tenantId : String)
  | tickets (ticketId : UUID)
  | uqActiveTicket (tenantId playerId region queueName : String)
  | matches (matchId : UUID)
  | matchPlayers (matchId ticketId : UUID)
  | partitionLeases (partitionId : ℕ)
  | workerHeartbeats (workerId : String)
  | idempotencyKeys (tenantId idempotencyKey : String)
  | callbackEvents (eventId : UUID)
deriving DecidableEq

/-- The row type of a key, so that a look-up by key gives a row of the right table. -/
abbrev Row : Key → Type
  | .tenants _ => Tenant
  | .tickets _ => Ticket
  | .uqActiveTicket .. => UUID
  | .matches _ => Match
  | .matchPlayers .. => MatchPlayer
  | .partitionLeases _ => PartitionLease
  | .workerHeartbeats _ => WorkerHeartbeat
  | .idempotencyKeys .. => IdempotencyKey
  | .callbackEvents _ => CallbackEventRow

/-- The committed rows of all tables, and of the partial unique index. -/
abbrev Tables := Store Row

/-- The key of the unique index that a ticket occupies while it is active. -/
def Ticket.indexKey (t : Ticket) : Key := .uqActiveTicket t.tenantId t.playerId t.region t.queueName

/-! ## Rows of one table -/

/-- `tickets` rows with their ids, for scans of the table. -/
def ticketRow : (k : Key) → Row k → Option (UUID × Ticket)
  | .tickets id, t => some (id, t)
  | _, _ => none

/-- `partition_leases` rows with their partitions, for scans of the table. -/
def leaseRow : (k : Key) → Row k → Option (ℕ × PartitionLease)
  | .partitionLeases p, v => some (p, v)
  | _, _ => none

/-- `callback_events` rows with their ids, for scans of the table. -/
def eventRow : (k : Key) → Row k → Option (UUID × CallbackEventRow)
  | .callbackEvents e, v => some (e, v)
  | _, _ => none

/-- The `match_players` rows of one match, with their tickets, for the query by `match_id`. -/
def playerRow (m : UUID) : (k : Key) → Row k → Option (UUID × MatchPlayer)
  | .matchPlayers m' t, v => if m' = m then some (t, v) else none
  | _, _ => none

/-- A scan of the tickets finds the rows that their keys find. -/
theorem mem_rowsOf_ticketRow {s : Tables} {id : UUID} {t : Ticket} :
    (id, t) ∈ rowsOf ticketRow s ↔ s.lookup (.tickets id) = some t := by
  rw [mem_rowsOf]
  constructor
  · rintro ⟨k, v, hs, hp⟩
    cases k <;> cases hp
    exact hs
  · exact fun h => ⟨.tickets id, t, h, rfl⟩

theorem mem_rowsOf_leaseRow {s : Tables} {p : ℕ} {v : PartitionLease} :
    (p, v) ∈ rowsOf leaseRow s ↔ s.lookup (.partitionLeases p) = some v := by
  rw [mem_rowsOf]
  constructor
  · rintro ⟨k, v, hs, hp⟩
    cases k <;> cases hp
    exact hs
  · exact fun h => ⟨.partitionLeases p, v, h, rfl⟩

theorem mem_rowsOf_eventRow {s : Tables} {e : UUID} {v : CallbackEventRow} :
    (e, v) ∈ rowsOf eventRow s ↔ s.lookup (.callbackEvents e) = some v := by
  rw [mem_rowsOf]
  constructor
  · rintro ⟨k, v, hs, hp⟩
    cases k <;> cases hp
    exact hs
  · exact fun h => ⟨.callbackEvents e, v, h, rfl⟩

/-- Every ticket is listed once. -/
theorem ticketRows_nodup (s : Tables) : (rowsOf ticketRow s).Nodup := by
  refine rowsOf_nodup (fun k v k' v' p hp hp' => ?_) s
  cases k <;> cases hp
  cases k' <;> cases hp'
  rfl

/-- A scan of the players of one match finds the rows that their keys find. -/
theorem mem_rowsOf_playerRow {s : Tables} {m id : UUID} {p : MatchPlayer} :
    (id, p) ∈ rowsOf (playerRow m) s ↔ s.lookup (.matchPlayers m id) = some p := by
  rw [mem_rowsOf]
  constructor
  · rintro ⟨k, v, hs, hp⟩
    cases k with
    | matchPlayers m' id' =>
      rw [playerRow] at hp
      split at hp
      · next hm =>
        cases hm
        cases hp
        exact hs
      · cases hp
    | _ => cases hp
  · exact fun h => ⟨.matchPlayers m id, p, h, if_pos rfl⟩

/-- Every player of a match is listed once. -/
theorem playerRows_nodup (m : UUID) (s : Tables) : (rowsOf (playerRow m) s).Nodup := by
  refine rowsOf_nodup (fun k v k' v' p hp hp' => ?_) s
  have hkey : ∀ (k : Key) (v : Row k), playerRow m k v = some p →
      (⟨k, v⟩ : Sigma Row) = ⟨.matchPlayers m p.1, p.2⟩ := by
    intro k v hp
    cases k with
    | matchPlayers m' id =>
      rw [playerRow] at hp
      split at hp
      · next hm =>
        cases hm
        cases hp
        rfl
      · cases hp
    | _ => cases hp
  exact (hkey k v hp).trans (hkey k' v' hp').symm

/-- Every event is listed once. -/
theorem eventIds_nodup (s : Tables) : ((rowsOf eventRow s).map Prod.fst).Nodup := by
  have hrows : (rowsOf eventRow s).Nodup := by
    refine rowsOf_nodup (fun k v k' v' p hp hp' => ?_) s
    cases k <;> cases hp
    cases k' <;> cases hp'
    rfl
  refine List.Nodup.map_on ?_ hrows
  rintro ⟨e, row⟩ h ⟨e', row'⟩ h' rfl
  have hrow := mem_rowsOf_eventRow.mp h
  have hrow' := mem_rowsOf_eventRow.mp h'
  rw [Option.some.inj (hrow.symm.trans hrow')]

/-- Every partition is listed once. -/
theorem partitionIds_nodup (s : Tables) : ((rowsOf leaseRow s).map Prod.fst).Nodup := by
  have hrows : (rowsOf leaseRow s).Nodup := by
    refine rowsOf_nodup (fun k v k' v' p hp hp' => ?_) s
    cases k <;> cases hp
    cases k' <;> cases hp'
    rfl
  refine List.Nodup.map_on ?_ hrows
  rintro ⟨p, row⟩ h ⟨p', row'⟩ h' rfl
  have hrow := mem_rowsOf_leaseRow.mp h
  have hrow' := mem_rowsOf_leaseRow.mp h'
  rw [Option.some.inj (hrow.symm.trans hrow')]

end Matchmaking
