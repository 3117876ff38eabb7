import Matchmaking.Commits
import Matchmaking.ReadCommitted.Footprint

/-!
# The programs as compositions

What holds of single statements and is kept by composition holds of the programs. `A` are the rows whose
row operations are known to be harmless; statements on other rows are dealt with one by one.
-/

namespace Matchmaking

open ReadCommitted

variable {A : Key → Prop} {ends : Prop} {marks : Metric → Prop} {C : {α : Type} → Db α → Prop}
  {α β : Type}

/-- A property of programs that composition keeps and that all operations have but those on rows
outside of `A`, those that end transactions unless `ends`, and updates of metrics outside of `marks`. -/
abbrev Composite (A : Key → Prop) (ends : Prop) (marks : Metric → Prop)
    (C : {α : Type} → Db α → Prop) : Prop :=
  Composes (Op.Within A ends marks) C

namespace Composite

variable (h : Composite A ends marks C)

include h

/-! ## Calls, exceptions and connections -/

theorem ask (c : Call) : C (ask c) := h.perform trivial

theorem record {m : Metric} (hm : marks m) : C (record m) := h.perform hm

theorem select {f : Time → Tables → α} : C (perform (.select f)) := h.perform trivial

theorem commit (hends : ends) : C (perform .commit) := h.perform hends

theorem rollback (hends : ends) : C (perform .rollback) := h.perform hends

/-- An exception that is caught changes nothing in what the operations may do. -/
theorem attempt {x : Db α} (hx : C x) : C (attempt x) :=
  h.tryCatch (h.bind hx fun _ => h.pure _) fun _ => h.pure _

/-- The shape of all `with` blocks of the source: the body, and then one of two ways to leave it, by its
result. -/
theorem finish {x : Db α} {f : α → Db β} {g : Exn → Db β} (hx : C x) (hf : ∀ a, C (f a))
    (hg : ∀ e, C (g e)) : C (Matchmaking.attempt x >>= fun r => match r with
      | .ok a => f a
      | .error e => g e) := by
  refine h.bind (attempt h hx) ?_
  rintro (e | a)
  · exact hg e
  · exact hf a

/-- A ROLLBACK whose own exception is ignored is still a ROLLBACK, so transactions must be allowed to end. -/
theorem discard (hends : ends) : C discard := h.tryCatch (rollback h hends) fun _ => h.pure _

/-- A pooled connection commits or rolls back at the end of its block. -/
theorem withConnection {x : Db α} (hends : ends) (hx : C x) : C (withConnection x) :=
  h.bind (ask h _) fun _ => finish h hx (fun _ => h.bind (commit h hends) fun _ => h.pure _)
    fun e => h.bind (discard h hends) fun _ => h.throw e

/-- An inner `conn.transaction()` is a savepoint, an outer one a transaction of its own; both are made of the
allowed operations. -/
theorem transaction {x : Db α} (hends : ends) (hx : C x) : C (transaction x) := by
  refine h.bind (h.perform trivial) fun nested => h.bind (h.perform ?_) fun _ =>
    finish h hx (fun _ => h.bind (h.perform ?_) fun _ => h.pure _) fun e =>
      h.bind (attempt h (h.perform ?_)) fun _ => h.throw e
  all_goals cases nested <;> first | exact hends | trivial

/-- The asyncpg transaction, which commits or rolls back and raises again. -/
theorem asyncTransaction {x : Db α} (hends : ends) (hx : C x) : C (asyncTransaction x) :=
  h.bind (ask h _) fun _ => h.bind (h.perform trivial) fun _ => finish h hx
    (fun _ => h.bind (commit h hends) fun _ => h.pure _) fun e => h.bind (rollback h hends) fun _ => h.throw e

/-- A connection of asyncpg without a transaction around it. -/
theorem onConnection {x : Db α} (hends : ends) (hx : C x) : C (onConnection x) :=
  h.bind (h.perform trivial) fun _ => finish h hx
    (fun _ => h.bind (commit h hends) fun _ => h.pure _) fun e => h.bind (discard h hends) fun _ => h.throw e

/-- A single statement outside a transaction commits by itself. -/
theorem autocommit {x : Db α} (hends : ends) (hx : C x) : C (autocommit x) :=
  h.bind (ask h _) fun _ => onConnection h hends hx

/-! ## Statements -/

section Statements

variable {k : Key} (hk : A k)

include hk

/-- The statements on one row touch this row only, so they are allowed where the row is. -/
theorem insertRow {row : Time → Row k} : C (insertRow k row) := h.perform hk

theorem insertRowIfAbsent {row : Time → Row k} : C (insertRowIfAbsent k row) := h.perform hk

theorem upsertRow {row : Time → Option (Row k) → Row k} : C (upsertRow k row) :=
  h.bind (h.perform hk) fun _ => h.pure _

theorem updateRow {cond : Time → Row k → Bool} {set : Time → Row k → Row k} :
    C (updateRow k cond set) := h.perform hk

/-- An UPDATE by primary key reads the key's row first and then locks it. -/
theorem updateByKey {cond : Time → Row k → Bool} {set : Time → Row k → Row k} :
    C (updateByKey k cond set) :=
  h.bind (select h) fun _ => h.ite (fun _ => updateRow h hk) fun _ => h.pure _

end Statements

/-! ## Leases -/

section Leases

variable (hleases : ∀ p, A (.partitionLeases p)) (hbeats : ∀ x, A (.workerHeartbeats x))

theorem selectLeases {cond : Time → ℕ → PartitionLease → Bool} : C (selectLeases cond) := select h

/-- Listing the worker's partitions only reads. -/
theorem listOwnedPartitions (workerId : String) : C (listOwnedPartitions workerId) :=
  h.bind (selectLeases h) fun _ => h.pure _

section

include hleases

/-- An UPDATE of leases goes through its rows one by one, each under its own lock. -/
theorem updateLeases {cond : Time → PartitionLease → Bool}
    {set : Time → PartitionLease → PartitionLease} (ps : List ℕ) : C (updateLeases cond set ps) := by
  induction ps with
  | nil => exact h.pure _
  | cons p ps ih => exact h.bind (updateRow h (hleases p)) fun _ => h.bind ih fun _ => h.pure _

/-- A claim goes through the available leases until it has as many as it may take. -/
theorem claimLeases {workerId : String} {leaseSeconds : ℕ} (n : ℕ) (ps : List ℕ) :
    C (claimLeases workerId leaseSeconds n ps) := by
  induction ps generalizing n with
  | nil => cases n <;> exact h.pure _
  | cons p ps ih =>
    cases n with
    | zero => exact h.pure _
    | succ n =>
      exact h.bind (h.perform (hleases p)) fun _ =>
        h.ite (fun _ => h.bind (ih n) fun _ => h.pure _) fun _ => ih (n + 1)

/-- Leases over the cap are chosen by a query and then released row by row. -/
theorem releaseExcessPartitions (workerId : String) (cap : ℕ) :
    C (releaseExcessPartitions workerId cap) :=
  h.bind (listOwnedPartitions h workerId) fun _ => h.ite (fun _ => h.pure _) fun _ =>
    h.bind (selectLeases h) fun _ => h.bind (updateLeases h hleases _) fun _ => h.pure _

end

include hleases hbeats

/-- The lease block of an iteration: heartbeat, renewal, claim, and the release of what is too much. -/
theorem leaseOperations (settings : Settings) (workerId : String) (offset : ℕ) :
    C (leaseOperations settings workerId offset) := by
  have hrenew : C (renewOwnedPartitions workerId settings.workerLeaseSeconds) :=
    h.bind (selectLeases h) fun _ => h.bind (updateLeases h hleases _) fun _ => h.pure _
  have hclaim : C (claimAvailablePartitions workerId settings.workerLeaseSeconds
      settings.workerPartitionBatchSize settings.matchmakingPartitions offset) :=
    h.bind (selectLeases h) fun _ => claimLeases h hleases _ _
  refine h.bind (upsertRow h (hbeats workerId)) fun _ => h.bind hrenew fun _ => h.bind hclaim fun _ =>
    h.ite (fun _ => ?_) fun _ => h.pure _
  exact h.bind (h.bind (select h) fun _ => h.pure _) fun _ =>
    h.bind (releaseExcessPartitions h hleases workerId _) fun _ => h.pure _

/-- The shutdown hands back the leases and removes the heartbeat, in one transaction. -/
theorem shutdownWorker (hends : ends) (workerId : String) : C (shutdownWorker workerId) := by
  have hrelease : C (releaseOwnedPartitions workerId) :=
    h.bind (selectLeases h) fun _ => h.bind (updateLeases h hleases _) fun _ => h.pure _
  have hremove : C (removeWorkerHeartbeat workerId) :=
    h.bind (select h) fun _ => h.ite
      (fun _ => h.bind (h.perform (hbeats workerId)) fun _ => h.pure _) fun _ => h.pure _
  refine h.bind (attempt h (withConnection h hends
    (h.bind hrelease fun _ => h.bind hremove fun _ => commit h hends))) ?_
  rintro (e | _)
  · exact h.ite (fun _ => h.pure _) fun _ => h.throw _
  · exact h.pure _

end Leases

/-! ## Set-up -/

section SetUp

variable (hleases : ∀ p, A (.partitionLeases p)) (htenants : ∀ id, A (.tenants id))

include hleases in
/-- The set-up inserts the lease rows that are missing, in order. -/
theorem insertPartitions (ps : List ℕ) : C (insertPartitions ps) := by
  induction ps with
  | nil => exact h.pure _
  | cons p ps ih => exact h.bind (insertRowIfAbsent h (hleases p)) fun _ => ih

include htenants in
theorem insertTenants (rows : List (String × Tenant)) : C (insertTenants rows) := by
  induction rows with
  | nil => exact h.pure _
  | cons row rows ih => exact h.bind (insertRowIfAbsent h (htenants row.1)) fun _ => ih

include htenants in
/-- The tenants of the settings are inserted, or get the present defaults. -/
theorem upsertTenants (settings : Settings) (ids : List String) : C (upsertTenants settings ids) := by
  induction ids with
  | nil => exact h.pure _
  | cons id ids ih => exact h.bind (upsertRow h (htenants id)) fun _ => ih

include hleases htenants

/-- `db/init.py` inserts partitions and tenants on one connection. -/
theorem initMain (hends : ends) (settings : Settings) : C (initMain settings) :=
  withConnection h hends (h.bind (insertPartitions h hleases _) fun _ =>
    h.bind (upsertTenants h htenants settings _) fun _ => commit h hends)

/-- The migration does the same when the service starts. -/
theorem migrate (hends : ends) (settings : Settings) : C (migrate settings) :=
  h.bind (autocommit h hends (insertPartitions h hleases _)) fun _ =>
    h.bind (autocommit h hends (insertTenants h htenants _)) fun _ =>
      autocommit h hends (insertTenants h htenants _)

end SetUp

/-! ## Tickets -/

section Tickets

/-- The statements on tickets have the property; each comes with its entry of the unique index. -/
structure Tickets (C : {α : Type} → Db α → Prop) : Prop where
  update : ∀ id cond set, C (updateTicketRow id cond set)
  insert : ∀ tenantId body partitionId, C (insertTicket tenantId body partitionId)

/-- Where tickets and their entries are among the rows of `A`, the statements on them have it. -/
theorem tickets (hticket : ∀ id, A (.tickets id))
    (hentry : ∀ tenantId playerId region queueName, A (.uqActiveTicket tenantId playerId region queueName)) :
    Tickets C where
  update id cond set := by
    refine h.bind (updateRow h (hticket id)) ?_
    rintro (_ | t)
    · exact h.pure _
    · exact h.bind (h.bind (h.perform (hentry ..)) fun _ => h.pure _) fun _ => h.pure _
  insert tenantId body partitionId := by
    have htext : ∀ text, C (checkText text) := fun _ => h.ite (fun _ => h.throw _) fun _ => h.pure _
    have hint : ∀ n, C (checkInt4 n) := fun _ => h.ite (fun _ => h.pure _) fun _ => h.throw _
    refine h.bind (htext _) fun _ => h.bind (htext _) fun _ => h.bind (htext _) fun _ =>
      h.bind (hint _) fun _ => h.bind (hint _) fun _ => h.bind (ask h _) fun id =>
      h.bind (insertRow h (hticket id)) ?_
    rintro (_ | t)
    · exact h.throw _
    · exact h.bind (h.bind (h.perform (hentry ..)) fun _ => h.pure _) fun _ => h.pure _

variable (htickets : Tickets C)

include htickets

/-- An UPDATE of a ticket may move its entry in the unique index, so both keys must be allowed. -/
theorem updateTicket {id : UUID} {cond : Time → Ticket → Bool} {set : Time → Ticket → Ticket} :
    C (updateTicket id cond set) :=
  h.bind (select h) fun _ => h.ite (fun _ => htickets.update id cond set) fun _ => h.pure _

/-- Expired reservations are released ticket by ticket. -/
theorem cleanupExpiredReservations : C cleanupExpiredReservations := by
  have hrows : ∀ ids, C (cleanupRows ids) := by
    intro ids
    induction ids with
    | nil => exact h.pure _
    | cons id ids ih => exact h.bind (htickets.update id _ _) fun _ => h.bind ih fun _ => h.pure _
  exact h.bind (select h) fun _ => hrows _

theorem reserveTicket (id : UUID) (workerId : String) (seconds : ℕ) :
    C (reserveTicket id workerId seconds) :=
  h.bind (updateTicket h htickets) fun _ => h.pure _

theorem releaseTicket (id : UUID) (workerId : String) : C (releaseTicket id workerId) :=
  h.bind (updateTicket h htickets) fun _ => h.pure _

end Tickets

/-! ## Matching -/

/-- One ordered query for waiting tickets; it only reads, and asks how ties are broken. -/
theorem fetchTicketsOrdered (partitionIds : List ℕ) (limit : ℕ) (ascending : Bool)
    (maxWait : Option Time) : C (fetchTicketsOrdered partitionIds limit ascending maxWait) :=
  h.ite (fun _ => h.pure _) fun _ => h.bind (ask h _) fun _ => select h

/-- Without partitions there is no query at all, otherwise one or two of them. -/
theorem fetchWaitingTickets (partitionIds : List ℕ) (batchSize : ℕ) (freshnessBias : Bool)
    (maxWait : Option Time) : C (fetchWaitingTickets partitionIds batchSize freshnessBias maxWait) :=
  h.ite (fun _ => h.pure _) fun _ => h.ite (fun _ => fetchTicketsOrdered h _ _ _ _) fun _ =>
    h.bind (fetchTicketsOrdered h _ _ _ _) fun _ => h.bind (fetchTicketsOrdered h _ _ _ _) fun _ =>
      h.pure _

/-- The comparison of two tickets reads the host's clock and no rows. -/
theorem ticketsCompatible (left right : WaitingTicket) (settings : Settings) :
    C (ticketsCompatible left right settings) := by
  have hwait : ∀ createdAt, C (waitSeconds createdAt) := fun _ => h.bind (ask h _) fun _ => h.pure _
  exact h.ite (fun _ => h.pure _) fun _ => h.bind (hwait _) fun _ => h.bind (hwait _) fun _ => h.pure _

/-- The inner loop of the search goes on until somebody is compatible. -/
theorem findSecond (settings : Settings) (first : WaitingTicket) (used : List UUID)
    (tickets : List WaitingTicket) : C (findSecond settings first used tickets) := by
  induction tickets with
  | nil => exact h.pure _
  | cons second rest ih =>
    exact h.ite (fun _ => ih) fun _ => h.bind (ticketsCompatible h first second settings) fun _ =>
      h.ite (fun _ => h.pure _) fun _ => ih

/-- The search makes no statements, so it is allowed wherever the clock may be read. -/
theorem findPairs (tickets : List WaitingTicket) (settings : Settings) :
    C (findPairs tickets settings) := by
  have hfrom : ∀ tickets used, C (findPairsFrom settings tickets used) := by
    intro tickets
    induction tickets with
    | nil => exact fun _ => h.pure _
    | cons first rest ih =>
      refine fun used => h.ite (fun _ => ih used) fun _ =>
        h.bind (findSecond h settings first used rest) ?_
      rintro (_ | second)
      · exact ih used
      · exact h.bind (ih _) fun _ => h.pure _
  exact h.ite (fun _ => h.throw _) fun _ => hfrom tickets []

/-- The tenant's callback URL is read within the transaction of the match. -/
theorem callbackUrl (tenantId : String) : C (callbackUrl tenantId) := by
  refine h.bind (select h) ?_
  rintro (_ | url)
  · exact h.throw _
  · exact h.pure _

section Worker

variable (htickets : Tickets C) (hleases : ∀ p, A (.partitionLeases p))
  (hbeats : ∀ x, A (.workerHeartbeats x)) (hmatches : ∀ m, A (.matches m))
  (hplayers : ∀ m id, A (.matchPlayers m id)) (hevents : ∀ e, A (.callbackEvents e))

section Pair

include htickets hmatches hplayers hevents

/-- The match, its two players, their tickets and the callback event are written in this order. -/
theorem insertMatch (first second : WaitingTicket) (workerId : String) :
    C (insertMatch first second workerId) := by
  have hplayer : ∀ m ticket, C (addPlayer m workerId ticket) := fun m ticket =>
    h.bind (insertRow h (hplayers m _)) fun _ => h.bind (updateTicket h htickets) fun _ => h.pure _
  refine h.bind (ask h _) fun matchId => h.bind (insertRow h (hmatches matchId)) ?_
  rintro (_ | matchRow)
  · exact h.throw _
  · exact h.bind (hplayer matchId first) fun _ => h.bind (hplayer matchId second) fun _ =>
      h.bind (callbackUrl h _) fun _ => h.bind (ask h _) fun eventId =>
        h.bind (insertRow h (hevents eventId)) fun _ => h.pure _

/-- Both tickets are reserved before the match; a reservation that fails gives the first one back. -/
theorem createMatchFromPair (hends : ends) (first second : WaitingTicket) (workerId : String) (seconds : ℕ) :
    C (createMatchFromPair first second workerId seconds) := by
  have hrelease : ∀ id, C (Matchmaking.releaseTicket id workerId) := fun id =>
    releaseTicket h htickets id workerId
  refine h.bind (reserveTicket h htickets _ workerId seconds) fun _ => h.ite (fun _ => h.pure _)
    fun _ => h.bind (reserveTicket h htickets _ workerId seconds) fun _ => h.ite
      (fun _ => h.bind (hrelease _) fun _ => h.pure _) fun _ => h.bind (attempt h (transaction h hends
        (insertMatch h htickets hmatches hplayers hevents first second workerId))) ?_
  rintro (e | _)
  · exact h.ite (fun _ => h.bind (hrelease _) fun _ => h.bind (hrelease _) fun _ => h.throw _)
      fun _ => h.throw _
  · exact h.pure _

/-- The loop over the pairs commits after each match and rolls back after each failure, and counts both. -/
theorem processPairs (hends : ends)
    (hmarks : marks .recordMatch ∧ marks .recordMatchFailure ∧ marks .recordRollback)
    (settings : Settings) (workerId : String) (loopStart : Time)
    (pairs : List (WaitingTicket × WaitingTicket)) (created processed : ℕ) :
    C (processPairs settings workerId loopStart pairs created processed) := by
  induction pairs generalizing created processed with
  | nil => exact h.pure _
  | cons pair pairs ih =>
    refine h.ite (fun _ => h.pure _) fun _ => h.bind (ask h _) fun _ => h.ite (fun _ => h.pure _)
      fun _ => h.bind (attempt h (createMatchFromPair h htickets hmatches hplayers hevents hends pair.1 pair.2
        workerId _)) ?_
    have hskip : C (do
        Matchmaking.record .recordMatchFailure
        Matchmaking.record .recordRollback
        perform .rollback
        Matchmaking.processPairs settings workerId loopStart pairs created (processed + 1)) :=
      h.bind (record h hmarks.2.1) fun _ => h.bind (record h hmarks.2.2) fun _ =>
        h.bind (rollback h hends) fun _ => ih _ _
    rintro (e | made)
    · exact h.ite (fun _ => hskip) fun _ => h.throw _
    · cases made with
      | true => exact h.bind (record h hmarks.1) fun _ => h.bind (commit h hends) fun _ => ih _ _
      | false => exact hskip

/-- The matching part of an iteration, from the clean-up to the statistics. -/
theorem matchTickets (hends : ends) (hmarks : ∀ m, marks m) (settings : Settings) (workerId : String)
    (loopStart : Time) :
    C (matchTickets settings workerId loopStart) :=
  h.bind (cleanupExpiredReservations h htickets) fun _ => h.bind (record h (hmarks _)) fun _ =>
    h.bind (commit h hends) fun _ => h.bind (listOwnedPartitions h workerId) fun _ =>
    h.bind (record h (hmarks _)) fun _ => h.bind (fetchWaitingTickets h _ _ _ _) fun _ =>
    h.bind (findPairs h _ settings) fun _ =>
    h.bind (processPairs h htickets hmatches hplayers hevents hends ⟨hmarks _, hmarks _, hmarks _⟩ settings
      workerId loopStart _ 0 0) fun _ => record h (hmarks _)

end Pair

include htickets hleases hbeats hmatches hplayers hevents

/-- A whole iteration of the worker: the lease transaction, and then the matching. -/
theorem runLoop (hends : ends) (hmarks : ∀ m, marks m) (settings : Settings) (workerId : String) (offset : ℕ) :
    C (runLoop settings workerId offset) := by
  refine h.bind (ask h _) fun loopStart => withConnection h hends (h.bind (attempt h
    (h.bind (leaseOperations h hleases hbeats settings workerId offset) fun _ =>
      h.bind (commit h hends) fun _ => h.pure _)) ?_)
  rintro (e | counts)
  · exact h.ite (fun _ => h.bind (rollback h hends) fun _ => h.bind (record h (hmarks _)) fun _ => h.throw _)
      fun _ => h.throw _
  · exact h.bind (record h (hmarks _)) fun _ => h.bind (record h (hmarks _)) fun _ =>
      h.bind (record h (hmarks _)) fun _ =>
      matchTickets h htickets hmatches hplayers hevents hends hmarks settings workerId loopStart

end Worker

/-! ## Dispatching -/

section Dispatcher

/-- A delivery reads the clock and POSTs; no transaction is open meanwhile. -/
theorem deliverEvent (rt : Runtime) (event : CallbackEvent) (settings : Settings) :
    C (deliverEvent rt event settings) := by
  refine h.bind (h.bind (ask h _) fun _ => h.pure _) fun _ => h.bind (ask h _) ?_
  rintro (statusCode | msg)
  · exact h.ite (fun _ => h.pure _) fun _ => h.pure _
  · exact h.pure _

variable (hmatches : ∀ m, A (.matches m)) (hevents : ∀ e, A (.callbackEvents e))

section

include hevents

/-- The claim is one statement: its snapshot decides which rows it goes through with SKIP LOCKED. -/
theorem claimCallbackEvents (dispatcherId : String) (settings : Settings) :
    C (claimCallbackEvents dispatcherId settings) := by
  have hrows : ∀ secret ids, C (claimRows settings dispatcherId secret ids) := by
    intro secret ids
    induction ids with
    | nil => exact h.pure _
    | cons id ids ih => exact h.bind (h.perform (hevents id)) fun _ => h.bind ih fun _ => h.pure _
  exact h.bind (ask h _) fun _ => h.bind (select h) fun _ => h.bind (hrows _ _) fun _ =>
    h.bind (ask h _) fun _ => h.pure _

theorem updateEvent {e : UUID} {set : Time → CallbackEventRow → CallbackEventRow} :
    C (updateEvent e set) :=
  h.bind (updateByKey h (hevents e)) fun _ => h.pure _

end

theorem setMatchStatus {m : UUID} {status : MatchStatus} (hmatches : ∀ m, A (.matches m)) :
    C (setMatchStatus m status) :=
  h.bind (updateByKey h (hmatches m)) fun _ => h.pure _

include hmatches hevents

/-- The body of `mark_delivered`: first the match and then the event, which is the lock order of all
outcomes. -/
theorem deliveredBody (event : CallbackEvent) : C (do
    Matchmaking.setMatchStatus event.matchId .callbackDelivered
    Matchmaking.updateEvent event.eventId CallbackEventRow.markDelivered) :=
  h.bind (setMatchStatus h hmatches) fun _ => updateEvent h hevents

/-- The body of `mark_failed_attempt`; only a final failure touches the match. -/
theorem failedAttemptBody (event : CallbackEvent) (settings : Settings) (error : String) : C (do
    if settings.callbackMaxAttempts ≤ event.attempts + 1 then do
      Matchmaking.setMatchStatus event.matchId .callbackFailed
      Matchmaking.updateEvent event.eventId fun _ e => e.markFailed error
      pure true
    else do
      let backoff ← nextBackoffSeconds (event.attempts + 1) settings
      Matchmaking.updateEvent event.eventId (CallbackEventRow.markRetry backoff error)
      pure false) :=
  h.ite (fun _ => h.bind (setMatchStatus h hmatches) fun _ => h.bind (updateEvent h hevents) fun _ => h.pure _)
    fun _ => h.bind (h.bind (ask h _) fun _ => h.pure _) fun _ =>
      h.bind (updateEvent h hevents) fun _ => h.pure _

/-- One try to persist an outcome is one transaction on a connection of its own. -/
theorem persistOnce (hends : ends) (event : CallbackEvent) (settings : Settings) (error : Option String) :
    C (persistOnce event settings error) := by
  cases error with
  | none =>
    exact withConnection h hends (h.bind (transaction h hends (deliveredBody h hmatches hevents event))
      fun _ => h.pure _)
  | some error =>
    exact withConnection h hends (transaction h hends (failedAttemptBody h hmatches hevents event settings error))

/-- The tries follow one another, and the claim is given back after the last one has failed. -/
theorem persistDeliveryOutcome (hends : ends) (event : CallbackEvent) (settings : Settings) (error : Option String) :
    C (persistDeliveryOutcome event settings error) := by
  have htries : ∀ n, C (persistTries event settings error n) := by
    intro n
    induction n with
    | zero => exact h.pure _
    | succ n ih =>
      refine h.bind (attempt h (persistOnce h hmatches hevents hends event settings error)) ?_
      rintro (e | finalFailed)
      · exact h.ite (fun _ => h.pure _) fun _ => ih
      · exact h.pure _
  refine h.bind (htries _) ?_
  rintro (e | finalFailed)
  · exact h.bind (withConnection h hends (transaction h hends (updateEvent h hevents))) fun _ => h.throw _
  · exact h.pure _

/-- A round of the dispatcher: the claim, and then the deliveries one after the other. -/
theorem runOnce (hends : ends) (hmarks : ∀ m, marks m) (rt : Runtime) (settings : Settings) (dispatcherId : String) :
    C (runOnce rt settings dispatcherId) := by
  have hdeliver : ∀ events, C (deliverEvents rt settings events) := by
    intro events
    induction events with
    | nil => exact h.pure _
    | cons event events ih =>
      refine h.bind (deliverEvent h rt event settings) fun _ => h.bind (attempt h
        (persistDeliveryOutcome h hmatches hevents hends event settings _)) ?_
      rintro (e | finalFailed)
      · exact ih
      · exact h.bind (record h (hmarks _)) fun _ => ih
  exact h.bind (withConnection h hends (h.bind (claimCallbackEvents h hevents dispatcherId settings)
    fun _ => h.bind (commit h hends) fun _ => h.pure _)) fun events => h.bind (record h (hmarks _)) fun _ =>
      h.bind (hdeliver events) fun _ => h.pure _

end Dispatcher

/-! ## The endpoints -/

theorem respond {x : Db Response} (hx : C x) : C (respond x) := h.bind hx fun _ => h.pure _

/-- Before an endpoint runs, its tenant is looked up on a connection of its own. -/
theorem withTenant (hends : ends) {xTenantId : Option String} {endpoint : String → Tenant → Db Response}
    (hx : ∀ id t, C (endpoint id t)) : C (withTenant xTenantId endpoint) := by
  cases xTenantId with
  | none => exact h.pure _
  | some id =>
    refine h.bind (autocommit h hends (select h)) ?_
    rintro (_ | t)
    · exact h.pure _
    · exact hx id t

/-- An id in the path that is not a UUID raises before anything is read. -/
theorem checkUuid (rt : Runtime) (text : String) : C (checkUuid rt text) := by
  unfold Matchmaking.checkUuid
  split
  · exact h.pure _
  · exact h.throw _

theorem listTickets (hends : ends) (tenantId : String) : C (listTickets tenantId) :=
  h.bind (ask h _) fun _ => h.bind (autocommit h hends (select h)) fun _ => h.pure _

theorem getTicket (hends : ends) (rt : Runtime) (ticketId tenantId : String) :
    C (getTicket rt ticketId tenantId) := by
  refine h.bind (checkUuid h rt ticketId) fun _ => h.bind (autocommit h hends (select h)) ?_
  rintro (_ | t) <;> exact h.pure _

theorem getMatch (hends : ends) (rt : Runtime) (matchId tenantId : String) :
    C (getMatch rt matchId tenantId) := by
  refine h.bind (checkUuid h rt matchId) fun _ => h.bind (autocommit h hends (select h)) ?_
  rintro (_ | t)
  · exact h.pure _
  · exact h.bind (ask h _) fun _ => h.bind (onConnection h hends (select h)) fun _ => h.pure _

/-- A cancellation updates one ticket of the tenant, and commits. -/
theorem cancelTicket (htickets : Tickets C) (hends : ends) (hmarks : ∀ m, marks m) (rt : Runtime)
    (ticketId tenantId : String) :
    C (cancelTicket rt ticketId tenantId) := by
  refine h.bind (checkUuid h rt ticketId) fun _ =>
    h.bind (autocommit h hends (updateTicket h htickets)) ?_
  rintro (_ | t)
  · exact h.pure _
  · exact h.bind (record h (hmarks _)) fun _ => h.bind (record h (hmarks _)) fun _ => h.pure _

/-- The rate limit is decided by Redis and the clock alone. -/
theorem checkRateLimit (tenantId : String) (tenant : Tenant) : C (checkRateLimit tenantId tenant) := by
  have hseconds : C unixSeconds := h.bind (ask h _) fun _ => h.pure _
  exact h.bind hseconds fun _ => h.bind (ask h _) fun _ =>
    h.ite (fun _ => h.bind hseconds fun _ => h.pure _) fun _ => h.pure _

/-- The four checks of a request follow one another, each with queries of its own, until one turns it down. -/
theorem admission (hends : ends)
    (hmarks : ∀ tenantId reason, marks (.ticketsRejected tenantId reason)) (settings : Settings)
    (tenantId : String) (tenant : Tenant) (partitionId : ℕ) :
    C (admission settings tenantId tenant partitionId) := by
  have hquota : C (checkTenantQuota tenantId tenant) :=
    h.bind (autocommit h hends (select h)) fun _ => h.pure _
  have hdepth : C (checkPartitionDepth tenant partitionId) :=
    h.bind (autocommit h hends (select h)) fun _ => h.pure _
  have hload : C (checkDbLoadShedding settings) :=
    h.ite (fun _ => h.pure _) fun _ => h.bind (ask h _) fun _ =>
      h.bind (autocommit h hends (select h)) fun _ => h.bind (ask h _) fun _ => h.pure _
  have hreject : ∀ reason (r : Response), C (do
      Matchmaking.record (.ticketsRejected tenantId reason)
      pure (some r)) := fun _ _ => h.bind (record h (hmarks _ _)) fun _ => h.pure _
  refine h.bind (checkRateLimit h tenantId tenant) ?_
  rintro (_ | r)
  · refine h.bind hquota ?_
    rintro (_ | r)
    · refine h.bind hdepth ?_
      rintro (_ | r)
      · refine h.bind hload ?_
        rintro (_ | r)
        · exact h.pure _
        · exact hreject _ r
      · exact hreject _ r
    · exact hreject _ r
  · exact hreject _ r

/-- The stored response of a key is read within the transaction of the request. -/
theorem fetchStoredResponse (key tenantId requestHash : String) :
    C (fetchStoredResponse key tenantId requestHash) := by
  refine h.bind (select h) ?_
  rintro (_ | row) <;> exact h.pure _

/-- The key is reserved by an insert that does nothing if the row is there. -/
theorem reserveIdempotencyKey {key tenantId : String} (hkey : A (.idempotencyKeys tenantId key))
    (requestHash : String) : C (reserveIdempotencyKey key tenantId requestHash) :=
  h.bind (insertRowIfAbsent h hkey) fun _ => h.pure _

/-- The reserved key gets its response, status and ticket. -/
theorem finalizeIdempotencyKey {key tenantId : String} (hkey : A (.idempotencyKeys tenantId key))
    (responseStatus : ℕ) (responseBody : Json) (ticketId : UUID) :
    C (finalizeIdempotencyKey key tenantId responseStatus responseBody ticketId) :=
  h.bind (updateByKey h hkey) fun _ => h.pure _

section Create

variable (htickets : Tickets C) (hkeys : ∀ tenantId key, A (.idempotencyKeys tenantId key))

include htickets hkeys

/-- The new ticket is inserted, and its key finalized, in the same transaction. -/
theorem insertAndFinalize (hmarks : ∀ m, marks m) (tenantId : String) (key : Option String) (body : TicketCreate)
    (partitionId : ℕ) : C (insertAndFinalize tenantId key body partitionId) := by
  refine h.bind (htickets.insert tenantId body partitionId) fun r => h.bind (record h (hmarks _)) fun _ =>
    h.bind (record h (hmarks _)) fun _ => ?_
  cases key with
  | none => exact h.pure _
  | some key =>
    exact h.bind (finalizeIdempotencyKey h (hkeys tenantId key) _ _ _) fun _ => h.pure _

/-- With a key the transaction begins with its reservation; without one it only inserts. -/
theorem createInTransaction (hmarks : ∀ m, marks m) (tenantId : String) (key : Option String) (requestHash : String)
    (body : TicketCreate) (partitionId : ℕ) :
    C (createInTransaction tenantId key requestHash body partitionId) := by
  cases key with
  | none => exact insertAndFinalize h htickets hkeys hmarks tenantId none body partitionId
  | some key =>
    refine h.bind (reserveIdempotencyKey h (hkeys tenantId key) requestHash) fun _ => h.ite
      (fun _ => insertAndFinalize h htickets hkeys hmarks tenantId (some key) body partitionId) fun _ =>
        h.bind (fetchStoredResponse h key tenantId requestHash) ?_
    rintro (_ | ⟨stored, matched⟩) <;> exact h.pure _

/-- Admission comes first, outside the transaction; a ticket that is there already makes the answer 409. -/
theorem createNewTicket (hends : ends) (hmarks : ∀ m, marks m) (rt : Runtime) (settings : Settings)
    (tenantId : String) (tenant : Tenant)
    (key : Option String) (requestHash : String) (body : TicketCreate) :
    C (createNewTicket rt settings tenantId tenant key requestHash body) := by
  refine h.ite (fun _ => h.throw _) fun _ =>
    h.bind (admission h hends (fun _ _ => hmarks _) settings tenantId tenant _) ?_
  rintro (_ | rejection)
  · refine h.bind (attempt h (asyncTransaction h hends
      (createInTransaction h htickets hkeys hmarks tenantId key requestHash body _))) ?_
    rintro (e | response)
    · cases e <;> first | exact h.pure _ | exact h.throw _
    · exact h.pure _
  · exact h.pure _

/-- A request with a key looks for its stored response before everything else. -/
theorem createTicket (hends : ends) (hmarks : ∀ m, marks m) (rt : Runtime) (settings : Settings)
    (key : Option String) (body : TicketCreate)
    (tenantId : String) (tenant : Tenant) : C (createTicket rt settings key body tenantId tenant) := by
  cases key with
  | none => exact createNewTicket h htickets hkeys hends hmarks rt settings tenantId tenant none "" body
  | some key =>
    refine h.bind (autocommit h hends (fetchStoredResponse h key tenantId _)) ?_
    rintro (_ | ⟨stored, matched⟩)
    · exact createNewTicket h htickets hkeys hends hmarks rt settings tenantId tenant (some key) _ body
    · exact h.pure _

end Create

/-! ## All programs -/

/-- What holds of the statements on tickets and of all other statements holds of every actor. -/
theorem program (htickets : Tickets C)
    (hA : ∀ k, (∀ id, k ≠ .tickets id) → ¬ IsIndexKey k → A k) (hends : ends) (hmarks : ∀ m, marks m)
    (rt : Runtime) (l : Actor) :
    C (program rt l) := by
  have hleases : ∀ p, A (.partitionLeases p) := fun _ => hA _ (fun _ h => by cases h) fun h => h
  have hbeats : ∀ x, A (.workerHeartbeats x) := fun _ => hA _ (fun _ h => by cases h) fun h => h
  have htenants : ∀ id, A (.tenants id) := fun _ => hA _ (fun _ h => by cases h) fun h => h
  have hmatches : ∀ m, A (.matches m) := fun _ => hA _ (fun _ h => by cases h) fun h => h
  have hplayers : ∀ m id, A (.matchPlayers m id) := fun _ _ => hA _ (fun _ h => by cases h) fun h => h
  have hevents : ∀ e, A (.callbackEvents e) := fun _ => hA _ (fun _ h => by cases h) fun h => h
  have hkeys : ∀ id key, A (.idempotencyKeys id key) := fun _ _ =>
    hA _ (fun _ h => by cases h) fun h => h
  cases l with
  | initMain settings => exact h.bind (initMain h hleases htenants hends settings) fun _ => h.pure _
  | migrate settings => exact h.bind (migrate h hleases htenants hends settings) fun _ => h.pure _
  | runLoop settings workerId offset =>
    exact h.bind (runLoop h htickets hleases hbeats hmatches hplayers hevents hends hmarks settings workerId offset)
      fun _ => h.pure _
  | shutdownWorker workerId =>
    exact h.bind (shutdownWorker h hleases hbeats hends workerId) fun _ => h.pure _
  | runOnce settings dispatcherId =>
    exact h.bind (runOnce h hmatches hevents hends hmarks rt settings dispatcherId) fun _ => h.pure _
  | createTicket settings xTenantId key body =>
    exact respond h (withTenant h hends fun id t =>
      createTicket h htickets hkeys hends hmarks rt settings key body id t)
  | listTickets xTenantId => exact respond h (withTenant h hends fun id _ => listTickets h hends id)
  | getTicket xTenantId ticketId =>
    exact respond h (withTenant h hends fun id _ => getTicket h hends rt ticketId id)
  | cancelTicket xTenantId ticketId =>
    exact respond h (withTenant h hends fun id _ => cancelTicket h htickets hends hmarks rt ticketId id)
  | getMatch xTenantId matchId => exact respond h (withTenant h hends fun id _ => getMatch h hends rt matchId id)

end Composite

end Matchmaking
