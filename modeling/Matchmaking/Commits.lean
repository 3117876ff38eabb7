import Matchmaking.Service
import Matchmaking.ReadCommitted.Stage

/-!
# What the actors commit

The abstract service: its state is the committed store, and its steps are atomic changes of a few
kinds. `Legal l t s` says that the commit of transaction `t` by actor `l` on the store `s` is such a
step. Most actors change single rows, each by a relation of its own (`Actor.rows`); a new match, a new
ticket with its key, and the outcome of a delivery change several rows together.
-/

namespace Matchmaking

open ReadCommitted

/-- Entries of the unique index follow the tickets and are left out of the account. -/
def IsIndexKey : Key → Prop
  | .uqActiveTicket .. => True
  | _ => False

/-! ## Changes of single rows -/

/-- A worker takes over a lease that is available or its own: it holds it for `leaseSeconds` from
now, or gives it back. -/
def LeaseStep (workerId : String) (leaseSeconds : ℕ) (now : Time) (v v' : Option PartitionLease) :
    Prop :=
  v' = v ∨ ∃ a b, v = some a ∧ v' = some b ∧
    (a.isAvailable now = true ∨ a.isOwnedBy workerId = true) ∧
    (b.ownedBy = some workerId ∧ b.leaseUntil = some (now + seconds leaseSeconds) ∨
      b.ownedBy = none ∧ b.leaseUntil = none)

/-- A worker gives its leases back: a lease of its own has no owner afterwards. -/
def ReleaseStep (workerId : String) (v v' : Option PartitionLease) : Prop :=
  v' = v ∨ ∃ a b, v = some a ∧ v' = some b ∧ a.isOwnedBy workerId = true ∧
    b.ownedBy = none ∧ b.leaseUntil = none

/-- An expired reservation is dropped: the ticket waits again. -/
def UnreserveStep (now : Time) (v v' : Option Ticket) : Prop :=
  v' = v ∨ ∃ a, v = some a ∧ a.status = .reserved ∧ v' = some (a.unreserved now)

/-- A tenant cancels a ticket of its own, which is waiting or reserved. -/
def CancelStep (tenantId : String) (now : Time) (v v' : Option Ticket) : Prop :=
  v' = v ∨ ∃ a, v = some a ∧ a.isCancellable tenantId = true ∧ v' = some (a.cancelled now)

/-- A dispatcher claims one of the events `ids`, whatever state its newest version is in. -/
def ClaimStep (dispatcherId : String) (timeoutSeconds : ℕ) (ids : List UUID) (now : Time) (e : UUID)
    (v v' : Option CallbackEventRow) : Prop :=
  v' = v ∨ e ∈ ids ∧ ∃ a, v = some a ∧ v' = some (a.claimed dispatcherId timeoutSeconds now)

/-- Set-up: tenants are written, partitions that are missing are added. -/
def setupRows : RowRel Row := fun _ k =>
  match k with
  | .tenants _ => fun v v' => v' = v ∨ v'.isSome = true
  | .partitionLeases _ => fun v v' =>
      v' = v ∨ v = none ∧ ∃ b, v' = some b ∧ b.ownedBy = none ∧ b.leaseUntil = none
  | _ => fun v v' => v' = v

/-- The lease operations and the cleanup of a worker: what a transaction of the loop may do to single rows,
apart from making a match. -/
def workerRows (workerId : String) (leaseSeconds : ℕ) : RowRel Row := fun now k =>
  match k with
  | .partitionLeases _ => LeaseStep workerId leaseSeconds now
  | .workerHeartbeats x => fun v v' => v' = v ∨ x = workerId
  | .tickets _ => UnreserveStep now
  | .uqActiveTicket .. => fun _ _ => True
  | _ => fun v v' => v' = v

/-- The shutdown of a worker: its leases are released and its heartbeat is deleted. -/
def shutdownRows (workerId : String) : RowRel Row := fun _ k =>
  match k with
  | .partitionLeases _ => ReleaseStep workerId
  | .workerHeartbeats x => fun v v' => v' = v ∨ x = workerId
  | _ => fun v v' => v' = v

/-- A cancelled ticket, and nothing else but its entry of the index. -/
def cancelRows (tenantId : String) : RowRel Row := fun now k =>
  match k with
  | .tickets _ => CancelStep tenantId now
  | .uqActiveTicket .. => fun _ _ => True
  | _ => fun v v' => v' = v

/-- A claim of some of the events `ids`, and nothing else. -/
def claimRel (dispatcherId : String) (timeoutSeconds : ℕ) (ids : List UUID) : RowRel Row :=
  fun now k =>
    match k with
    | .callbackEvents e => ClaimStep dispatcherId timeoutSeconds ids now e
    | _ => fun v v' => v' = v

/-- Nothing but index entries, for programs that only read. -/
def readRows : RowRel Row := fun _ k =>
  match k with
  | .uqActiveTicket .. => fun _ _ => True
  | _ => fun v v' => v' = v

/-- The changes of single rows that an actor makes. Commits that belong together over several tables are
listed in `Legal`. -/
def Actor.rows : Actor → RowRel Row
  | .initMain _ | .migrate _ => setupRows
  | .runLoop settings workerId _ => workerRows workerId settings.workerLeaseSeconds
  | .shutdownWorker workerId => shutdownRows workerId
  | .cancelTicket (some tenantId) _ => cancelRows tenantId
  | _ => readRows

/-! ## Changes of several rows -/

/-- The data of a new match: its ids, the two tickets as they were before, and the URL that its event goes
to. -/
structure NewMatch where
  firstId : UUID
  secondId : UUID
  matchId : UUID
  eventId : UUID
  first : Ticket
  second : Ticket
  url : String

namespace NewMatch

variable (n : NewMatch) (now : Time)

/-- The row of the match, which takes tenant, region, queue and partition from the first ticket. -/
def matchRow : Match where
  tenantId := n.first.tenantId
  region := n.first.region
  queueName := n.first.queueName
  partitionId := n.first.partitionId
  createdAt := now

/-- The payload of the callback event, with both players in the order of the pair. -/
def payload : Json :=
  buildCallbackPayload n.eventId n.matchId n.first.tenantId n.first.region n.first.queueName now
    [playerJson (.ofRow (n.firstId, n.first)), playerJson (.ofRow (n.secondId, n.second))]

/-- The row of the callback event: pending, due at once, and not tried yet. -/
def event : CallbackEventRow where
  tenantId := n.first.tenantId
  matchId := n.matchId
  callbackUrl := n.url
  payload := n.payload now
  nextAttemptAt := now
  createdAt := now

/-- The complete effect of a pair: what every row of the match had before, and what it has after the
commit. -/
def changes : Changes Row := [
  ⟨.callbackEvents n.eventId, (none, some (n.event now))⟩,
  ⟨.tickets n.secondId, (some n.second, some (n.second.matchedWith n.matchId now))⟩,
  ⟨.matchPlayers n.matchId n.secondId, (none, some ⟨n.second.playerId⟩)⟩,
  ⟨.tickets n.firstId, (some n.first, some (n.first.matchedWith n.matchId now))⟩,
  ⟨.matchPlayers n.matchId n.firstId, (none, some ⟨n.first.playerId⟩)⟩,
  ⟨.matches n.matchId, (none, some (n.matchRow now))⟩]

/-- The tickets are two waiting tickets of one tenant, region and queue. -/
structure Compatible : Prop where
  apart : n.firstId ≠ n.secondId
  firstWaiting : n.first.status = .waiting
  secondWaiting : n.second.status = .waiting
  tenantId : n.first.tenantId = n.second.tenantId
  region : n.first.region = n.second.region
  queueName : n.first.queueName = n.second.queueName

/-! Which row the changes have at which key. -/

/-- The event is new. -/
theorem dlookup_event : (n.changes now).dlookup (.callbackEvents n.eventId)
    = some (none, some (n.event now)) := List.dlookup_cons_eq ..

/-- So is the match. -/
theorem dlookup_match : (n.changes now).dlookup (.matches n.matchId)
    = some (none, some (n.matchRow now)) := by
  simp [changes, List.dlookup_cons_ne]

/-- The second ticket becomes matched. -/
theorem dlookup_second : (n.changes now).dlookup (.tickets n.secondId)
    = some (some n.second, some (n.second.matchedWith n.matchId now)) := by
  simp [changes, List.dlookup_cons_ne]

/-- So does the first one, where it is not the second one as well. -/
theorem dlookup_first (h : n.firstId ≠ n.secondId) : (n.changes now).dlookup (.tickets n.firstId)
    = some (some n.first, some (n.first.matchedWith n.matchId now)) := by
  simp [changes, List.dlookup_cons_ne, h]

theorem dlookup_secondPlayer : (n.changes now).dlookup (.matchPlayers n.matchId n.secondId)
    = some (none, some ⟨n.second.playerId⟩) := by
  simp [changes, List.dlookup_cons_ne]

/-- It inserts its first player, which is another row since the tickets differ. -/
theorem dlookup_firstPlayer (h : n.firstId ≠ n.secondId) :
    (n.changes now).dlookup (.matchPlayers n.matchId n.firstId)
      = some (none, some ⟨n.first.playerId⟩) := by
  simp [changes, List.dlookup_cons_ne, h]

/-- Other rows are left alone. -/
theorem dlookup_eq_none {k : Key} (hk : k ∉ [.callbackEvents n.eventId, .tickets n.secondId,
      .matchPlayers n.matchId n.secondId, .tickets n.firstId, .matchPlayers n.matchId n.firstId,
      .matches n.matchId]) : (n.changes now).dlookup k = none :=
  List.dlookup_eq_none.mpr hk

/-- The URL is the tenant's, or the default, in a snapshot the transaction has read. -/
def UrlRead (reads : List Tables) : Prop :=
  ∃ σ ∈ reads, ∃ tenant, σ.lookup (.tenants n.first.tenantId) = some tenant ∧
    n.url = tenant.callbackUrl.getD defaultCallbackUrl

end NewMatch

/-- What a dispatcher records about a delivery: success, a final failure, a retry, or that it has given the
claim back. -/
inductive Outcome
  | delivered
  | failed (error : String)
  | retry (backoff : ℕ) (error : String)
  | released (error : Option String)

namespace Outcome

/-- The event after the outcome, as the statement sets its columns. -/
def apply : Outcome → Time → CallbackEventRow → CallbackEventRow
  | .delivered, now, e => e.markDelivered now
  | .failed error, _, e => e.markFailed error
  | .retry backoff error, now, e => e.markRetry backoff error now
  | .released error, _, e => e.release error

/-- The status of the match after the outcome, where the outcome sets one. -/
def matchStatus? : Outcome → Option MatchStatus
  | .delivered => some .callbackDelivered
  | .failed _ => some .callbackFailed
  | _ => none

/-- The event's row, and the match's where its status is set. -/
def changes (o : Outcome) (eventId : UUID) (e : CallbackEventRow) (m : Match) (now : Time) :
    Changes Row :=
  ⟨.callbackEvents eventId, (some e, some (o.apply now e))⟩ ::
    match o.matchStatus? with
    | some status => [⟨.matches e.matchId, (some m, some { m with status := status })⟩]
    | none => []

end Outcome

/-- The data of a new ticket: who asked for it, with which body and key, and where it goes. -/
structure NewTicket where
  ticketId : UUID
  tenantId : String
  key : Option String
  body : TicketCreate
  partitionId : ℕ

namespace NewTicket

variable (rt : Runtime) (n : NewTicket) (now : Time)

/-- The row of the ticket, waiting since `now`. -/
def ticket : Ticket := newTicket n.tenantId n.body n.partitionId now

/-- The finalized key, with the response that replays will give and the id of the ticket. -/
def keyRow : IdempotencyKey where
  requestHash := computeRequestHashFromModel rt n.body.modelDump
  responseStatus := 201
  responseBody := ticketResponse n.ticketId (n.ticket now)
  ticketId := some n.ticketId
  createdAt := now

/-- The ticket and, if the request carries a key, the key. -/
def changes : Changes Row :=
  match n.key with
  | none => [⟨.tickets n.ticketId, (none, some (n.ticket now))⟩]
  | some key => [
      ⟨.idempotencyKeys n.tenantId key, (none, some (n.keyRow rt now))⟩,
      ⟨.tickets n.ticketId, (none, some (n.ticket now))⟩]

end NewTicket

/-! ## Legal commits -/

/-- The commits of each actor. Every commit of the service is one of these, in terms of the tables that it is
made to; all invariants are derived from this list. -/
inductive Legal (rt : Runtime) : Actor → Txn Row → Tables → Prop
  | rows {l : Actor} {t : Txn Row} {s : Tables}
      (h : ∀ k, l.rows t.start k (s.lookup k) ((patch t.writes s).lookup k)) : Legal rt l t s
  | pair {settings : Settings} {workerId : String} {offset : ℕ} {t : Txn Row} {s : Tables}
      (n : NewMatch) (hn : n.Compatible) (hurl : n.UrlRead t.reads)
      (h : Changed IsIndexKey (n.changes t.start) s (patch t.writes s)) :
      Legal rt (.runLoop settings workerId offset) t s
  | claim {settings : Settings} {dispatcherId : String} {t : Txn Row} {s : Tables}
      (tie : UUID → ℕ) (σ : Tables) (hσ : t.reads = [σ])
      (h : ∀ k, claimRel dispatcherId settings.callbackTimeoutSeconds
        (eligible settings tie t.start σ) t.start k (s.lookup k) ((patch t.writes s).lookup k)) :
      Legal rt (.runOnce settings dispatcherId) t s
  | outcome {settings : Settings} {dispatcherId : String} {t : Txn Row} {s : Tables}
      (o : Outcome) (eventId : UUID) (e : CallbackEventRow) (m : Match)
      (hm : s.lookup (.matches e.matchId) = some m)
      (h : Changed IsIndexKey (o.changes eventId e m t.start) s (patch t.writes s)) :
      Legal rt (.runOnce settings dispatcherId) t s
  | create {settings : Settings} {xTenantId key : Option String} {body : TicketCreate}
      {t : Txn Row} {s : Tables} (n : NewTicket) (htenant : xTenantId = some n.tenantId)
      (hkey : n.key = key) (hbody : n.body = body)
      (hpart : n.partitionId = computePartitionId rt n.tenantId body.region body.queueName
        settings.matchmakingPartitions)
      (hknown : (s.lookup (.tenants n.tenantId)).isSome = true)
      (h : Changed IsIndexKey (n.changes rt t.start) s (patch t.writes s)) :
      Legal rt (.createTicket settings xTenantId key body) t s

/-! ## What no commit ever takes back -/

namespace Ticket

/-- The columns of a ticket that are fixed when it is created. -/
def identity (t : Ticket) : String × String × String × String × ℤ × ℕ × Time :=
  (t.tenantId, t.playerId, t.region, t.queueName, t.skill, t.partitionId, t.createdAt)

end Ticket

namespace Match

/-- Everything but the status, which is all that changes of a match. -/
def identity (m : Match) : String × String × String × ℕ × Time :=
  (m.tenantId, m.region, m.queueName, m.partitionId, m.createdAt)

end Match

namespace CallbackEventRow

/-- The columns of an event that are fixed when it is created. -/
def identity (e : CallbackEventRow) : String × UUID × String × String × Json × Time :=
  (e.tenantId, e.matchId, e.eventType, e.callbackUrl, e.payload, e.createdAt)

end CallbackEventRow

/-- How a row may look later: players and keys stay as they are, and tickets, matches and events keep what
identifies them. -/
def Kept : (k : Key) → Row k → Row k → Prop
  | .tickets _, a, b => b.identity = a.identity
  | .matches _, a, b => b.identity = a.identity
  | .callbackEvents _, a, b => b.identity = a.identity
  | .matchPlayers .., a, b => b = a
  | .idempotencyKeys .., a, b => b = a
  | _, _, _ => True

/-- The tables whose rows stay. Heartbeats are deleted, and index entries come and go. -/
def IsDurable : Key → Prop
  | .workerHeartbeats _ | .uqActiveTicket .. => False
  | _ => True

/-- A durable row that exists stays, with what is fixed about it. -/
def RowKept (k : Key) (v v' : Option (Row k)) : Prop :=
  IsDurable k → ∀ a, v = some a → ∃ b, v' = some b ∧ Kept k a b

/-- All durable rows stay, and keep what identifies them. -/
def Persist (s s' : Tables) : Prop := ∀ k, RowKept k (s.lookup k) (s'.lookup k)

theorem Kept.refl (k : Key) (a : Row k) : Kept k a a := by
  cases k <;> first | rfl | trivial

/-- What is kept over two changes is kept over both. -/
theorem Kept.trans {k : Key} {a b c : Row k} (h : Kept k a b) (h' : Kept k b c) : Kept k a c := by
  cases k <;> first | exact Eq.trans h' h | trivial

/-- A row that has not changed is kept. -/
theorem RowKept.of_eq {k : Key} {v v' : Option (Row k)} (h : v' = v) : RowKept k v v' :=
  fun _ a ha => ⟨a, h.trans ha, .refl k a⟩

theorem Persist.refl (s : Tables) : Persist s s := fun _ => .of_eq rfl

/-- Everything comes after the empty store. -/
theorem Persist.empty (s : Tables) : Persist ∅ s := fun _ _ _ hrow => by cases hrow

/-- What is kept from each state to the next is kept all along. -/
theorem Persist.trans {s s' s'' : Tables} (h : Persist s s') (h' : Persist s' s'') :
    Persist s s'' := by
  intro k hk a ha
  obtain ⟨b, hb, hab⟩ := h k hk a ha
  obtain ⟨c, hc, hbc⟩ := h' k hk b hb
  exact ⟨c, hc, hab.trans hbc⟩

/-- Known changes keep what they keep row by row. -/
theorem Persist.of_changed {ps : Changes Row} {s s' : Tables} (h : Changed IsIndexKey ps s s')
    (hps : ∀ k old new, ps.dlookup k = some (old, new) → RowKept k old new) : Persist s s' := by
  intro k hk
  have hign : ¬ IsIndexKey k := by
    cases k <;> first | exact id | exact fun _ => hk
  cases hlook : ps.dlookup k with
  | none => exact RowKept.of_eq (h.frame k hign hlook) hk
  | some p =>
    obtain ⟨hold, hnew⟩ := h.lookup k hign hlook
    rw [hold, hnew]
    exact hps k p.1 p.2 hlook hk

/-- Single-row changes keep durable rows. -/
theorem RowKept.of_rows (l : Actor) (now : Time) {k : Key} {v v' : Option (Row k)}
    (h : l.rows now k v v') : RowKept k v v' := by
  intro hk a ha
  subst ha
  -- a row left alone is kept
  have hsame : v' = some a → ∃ b, v' = some b ∧ Kept k a b := fun he => ⟨a, he, .refl k a⟩
  cases l with
  | initMain settings | migrate settings =>
    cases k with
    | tenants id =>
      rcases h with h | h
      · exact hsame h
      · obtain ⟨b, rfl⟩ := Option.isSome_iff_exists.mp h
        exact ⟨b, rfl, trivial⟩
    | partitionLeases p =>
      rcases h with h | ⟨hn, -⟩
      · exact hsame h
      · cases hn
    | _ => exact hsame h
  | runLoop settings workerId offset =>
    cases k with
    | partitionLeases p =>
      rcases h with h | ⟨_, b, -, hb, -⟩
      · exact hsame h
      · exact ⟨b, hb, trivial⟩
    -- cleaning up takes the reservation back and leaves what is fixed
    | tickets id =>
      rcases h with h | ⟨c, hc, -, rfl⟩
      · exact hsame h
      · cases hc
        exact ⟨_, rfl, rfl⟩
    | workerHeartbeats x => exact hk.elim
    | uqActiveTicket => exact hk.elim
    | _ => exact hsame h
  | shutdownWorker workerId =>
    cases k with
    | partitionLeases p =>
      rcases h with h | ⟨_, b, -, hb, -⟩
      · exact hsame h
      · exact ⟨b, hb, trivial⟩
    | workerHeartbeats x => exact hk.elim
    | _ => exact hsame h
  | cancelTicket xTenantId ticketId =>
    cases xTenantId with
    | none => cases k <;> first | exact hsame h | exact hk.elim
    | some tenantId =>
      cases k with
      | tickets id =>
        rcases h with h | ⟨c, hc, -, rfl⟩
        · exact hsame h
        · cases hc
          exact ⟨_, rfl, rfl⟩
      | uqActiveTicket => exact hk.elim
      | _ => exact hsame h
  | _ => cases k <;> first | exact hsame h | exact hk.elim

/-- Changes that insert new rows and keep what is fixed of old ones. -/
theorem Persist.of_changes {ps : Changes Row} {s s' : Tables} (h : Changed IsIndexKey ps s s')
    (hps : ∀ p ∈ ps, RowKept p.1 p.2.1 p.2.2) : Persist s s' :=
  .of_changed h fun k old new hlook => hps ⟨k, (old, new)⟩ (List.of_mem_dlookup hlook)

/-- A row that is not there has nothing to keep. -/
theorem RowKept.of_none {k : Key} {v' : Option (Row k)} : RowKept k none v' :=
  fun _ _ ha => by cases ha

/-- Outcomes leave the columns of an event that identify it. -/
theorem Outcome.identity_apply (o : Outcome) (now : Time) (e : CallbackEventRow) :
    (o.apply now e).identity = e.identity := by
  cases o <;> rfl

/-- A legal commit takes no durable row away. -/
theorem Legal.persist {rt : Runtime} {l : Actor} {t : Txn Row} {s : Tables} (h : Legal rt l t s) :
    Persist s (patch t.writes s) := by
  cases h with
  | rows h => exact fun k => .of_rows l t.start (h k)
  | pair n hn hurl h =>
    refine .of_changes h fun p hp => ?_
    simp only [NewMatch.changes, List.mem_cons, List.not_mem_nil, or_false] at hp
    rcases hp with rfl | rfl | rfl | rfl | rfl | rfl
    · exact .of_none
    · rintro - _ ⟨⟩
      exact ⟨_, rfl, rfl⟩
    · exact .of_none
    · rintro - _ ⟨⟩
      exact ⟨_, rfl, rfl⟩
    · exact .of_none
    · exact .of_none
  | claim tie σ hσ h =>
    intro k hk a ha
    -- a claim writes events only, and leaves what identifies them
    have hk' := h k
    cases k with
    | callbackEvents e =>
      rcases hk' with hk' | ⟨-, b, hb, hb'⟩
      · exact ⟨a, hk'.trans ha, rfl⟩
      · obtain rfl := Option.some.inj (ha.symm.trans hb)
        exact ⟨_, hb', rfl⟩
    | _ => exact ⟨a, hk'.trans ha, .refl _ a⟩
  | outcome o eventId e m hm h =>
    refine .of_changes h fun p hp => ?_
    rcases List.mem_cons.mp hp with rfl | hp
    · rintro - _ ⟨⟩
      exact ⟨_, rfl, o.identity_apply t.start e⟩
    -- the outcome may set the status of the match too
    · cases hst : o.matchStatus? with
      | none =>
        rw [hst] at hp
        cases hp
      | some status =>
        rw [hst] at hp
        obtain rfl := List.mem_singleton.mp hp
        rintro - _ ⟨⟩
        exact ⟨_, rfl, rfl⟩
  | create n htenant hkey hbody hpart hknown h =>
    refine .of_changes h fun p hp => ?_
    unfold NewTicket.changes at hp
    split at hp <;> simp only [List.mem_cons, List.not_mem_nil, or_false] at hp
    · subst hp
      exact .of_none
    · rcases hp with rfl | rfl <;> exact .of_none

end Matchmaking
