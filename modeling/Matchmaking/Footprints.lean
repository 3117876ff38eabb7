import Matchmaking.Commits

/-!
# The row operations of the programs

Which rows the programs write, read off their operations. `UsesRows Φ x` says that every row operation
of `x` relates the version it finds to the version it writes by `Φ`.
-/

namespace Matchmaking

open ReadCommitted

variable {α β : Type} {Φ : RowRel Row}

/-! ## Footprints of connections -/

namespace Uses

variable {ok : {β : Type} → Op Row Reply Exn Metric β → Prop} {x : Db α}

/-- Catching exceptions adds no operations. -/
theorem attempt (hx : x.Uses ok) : (attempt x).Uses ok :=
  .tryCatch (.bind hx fun _ => .pure _) fun _ => .pure _

/-- What ends every connection: one program for a result, one for an exception. -/
theorem finish {f : α → Db β} {g : Exn → Db β} (hx : x.Uses ok) (hf : ∀ a, (f a).Uses ok)
    (hg : ∀ e, (g e).Uses ok) : Client.Uses ok (Matchmaking.attempt x >>= fun r => match r with
      | .ok a => f a
      | .error e => g e) := by
  refine .bind (attempt hx) ?_
  rintro (e | a)
  · exact hg e
  · exact hf a

/-- The operations that end transactions on a connection: taking the connection, COMMIT and ROLLBACK. -/
structure Ends (ok : {β : Type} → Op Row Reply Exn Metric β → Prop) : Prop where
  getConnection : ok (.call .getConnection)
  commit : ok .commit
  rollback : ok .rollback

/-- The operations of a ROLLBACK whose exception is ignored. -/
theorem discard (hends : Ends ok) : discard.Uses ok :=
  .tryCatch (.perform hends.rollback) fun _ => .pure _

/-- The operations of a block on a pooled connection are those of its body, and the ends of transactions. -/
theorem withConnection (hends : Ends ok) (hx : x.Uses ok) : (withConnection x).Uses ok :=
  .bind (.perform hends.getConnection) fun _ => finish hx
    (fun _ => .bind (.perform hends.commit) fun _ => .pure _)
    fun e => .bind (discard hends) fun _ => .throw e

/-- The operations of a block `conn.transaction()`, savepoints included. -/
structure Blocks (ok : {β : Type} → Op Row Reply Exn Metric β → Prop) : Prop extends Ends ok where
  inTransaction : ok .inTransaction
  start : ok .start
  savepoint : ok .savepoint
  releaseSavepoint : ok .releaseSavepoint
  rollbackToSavepoint : ok .rollbackToSavepoint

/-- The operations of a `conn.transaction()` block, savepoints among them. -/
theorem transaction (hblocks : Blocks ok) (hx : x.Uses ok) : (transaction x).Uses ok := by
  refine .bind (.perform hblocks.inTransaction) fun nested => .bind (.perform ?_) fun _ =>
    finish hx (fun _ => .bind (.perform ?_) fun _ => .pure _) fun e =>
      .bind (attempt (.perform ?_)) fun _ => .throw e
  · cases nested
    · exact hblocks.start
    · exact hblocks.savepoint
  · cases nested
    · exact hblocks.commit
    · exact hblocks.releaseSavepoint
  · cases nested
    · exact hblocks.rollback
    · exact hblocks.rollbackToSavepoint

end Uses

/-- Row operations of `x` follow `Φ`: whatever version a statement finds, what it leaves is related to it. -/
abbrev UsesRows (Φ : RowRel Row) (x : Db α) : Prop := Client.Uses (Op.RowsSat Φ) x

namespace UsesRows

/-! ## Calls, exceptions and connections -/

/-- Calls outside the database touch no row, so they are within every footprint. -/
theorem ask (c : Call) : UsesRows Φ (ask c) := .perform trivial

theorem record (m : Metric) : UsesRows Φ (record m) := .perform trivial

theorem select {f : Time → Tables → α} : UsesRows Φ (perform (.select f)) := .perform trivial

/-- A COMMIT changes no row by itself; what it makes visible has been written before. -/
theorem commit : UsesRows Φ (perform .commit) := .perform trivial

theorem rollback : UsesRows Φ (perform .rollback) := .perform trivial

theorem ends : Uses.Ends (Op.RowsSat Φ) := ⟨trivial, trivial, trivial⟩

/-- Every footprint allows all the operations that the `with` blocks of the source are made of. -/
theorem blocks : Uses.Blocks (Op.RowsSat Φ) := ⟨ends, trivial, trivial, trivial, trivial, trivial⟩

/-- Catching an exception does not widen a footprint. -/
theorem attempt {x : Db α} (hx : UsesRows Φ x) : UsesRows Φ (attempt x) := Uses.attempt hx

theorem discard : UsesRows Φ discard := Uses.discard ends

/-- A block that is left in one of two ways follows the relation if its body and both ways do. -/
theorem finish {x : Db α} {f : α → Db β} {g : Exn → Db β} (hx : UsesRows Φ x)
    (hf : ∀ a, UsesRows Φ (f a)) (hg : ∀ e, UsesRows Φ (g e)) :
    UsesRows Φ (Matchmaking.attempt x >>= fun r => match r with
      | .ok a => f a
      | .error e => g e) :=
  Uses.finish hx hf hg

/-- The relation says nothing of commits, so every block may be put on a connection. -/
theorem withConnection {x : Db α} (hx : UsesRows Φ x) : UsesRows Φ (withConnection x) :=
  Uses.withConnection ends hx

/-- A connection adds only its COMMIT or ROLLBACK to what its block does. -/
theorem onConnection {x : Db α} (hx : UsesRows Φ x) : UsesRows Φ (onConnection x) :=
  .bind (.perform trivial) fun _ =>
    finish hx (fun _ => .bind commit fun _ => .pure _) fun e => .bind discard fun _ => .throw e

/-- A statement that commits by itself adds only its COMMIT. -/
theorem autocommit {x : Db α} (hx : UsesRows Φ x) : UsesRows Φ (autocommit x) :=
  .bind (ask _) fun _ => onConnection hx

/-! ## Statements -/

/-- An insert that does nothing on conflict only puts the row where there was none. -/
theorem insertRowIfAbsent {k : Key} {row : Time → Row k} (h : ∀ now, Φ now k none (some (row now))) :
    UsesRows Φ (insertRowIfAbsent k row) := by
  refine .perform fun now v => ?_
  cases v with
  | none => exact h now
  | some v => trivial

/-- An upsert puts its row whatever was there before. -/
theorem upsertRow {k : Key} {row : Time → Option (Row k) → Row k}
    (h : ∀ now v, Φ now k v (some (row now v))) : UsesRows Φ (upsertRow k row) :=
  .bind (.perform fun now v => h now v) fun _ => .pure _

/-- An update changes the rows that meet its condition, as it says. -/
theorem updateRow {k : Key} {cond : Time → Row k → Bool} {set : Time → Row k → Row k}
    (h : ∀ now v, cond now v = true → Φ now k (some v) (some (set now v))) :
    UsesRows Φ (updateRow k cond set) := by
  refine .perform fun now v => ?_
  cases v with
  | none => trivial
  | some v =>
    change RowAction.Sat _ _ (if cond now v then _ else _)
    split
    · exact h now v ‹_›
    · trivial

/-- The entry of a ticket in the unique index may change in any way. -/
theorem indexTicket {id : UUID} {t : Ticket} (h : ∀ now v v', Φ now t.indexKey v v') :
    UsesRows Φ (indexTicket id t) := by
  refine .bind (.perform fun now v => ?_) fun _ => .pure _
  have hv : ∀ v', Φ now t.indexKey v v' := h now v
  dsimp only
  split
  · exact hv _
  · split
    · exact hv _
    · trivial
  · split
    · exact hv _
    · trivial
  · trivial

/-- A relation that says nothing about index entries, which statements on tickets write along the way. -/
def FreeIndex (Φ : RowRel Row) : Prop :=
  ∀ now tenantId playerId region queueName v v',
    Φ now (.uqActiveTicket tenantId playerId region queueName) v v'

/-- An update of a ticket follows the relation if the relation leaves the index free. -/
theorem updateTicketRow {id : UUID} {cond : Time → Ticket → Bool} {set : Time → Ticket → Ticket}
    (hindex : FreeIndex Φ)
    (h : ∀ now t, cond now t = true → Φ now (.tickets id) (some t) (some (set now t))) :
    UsesRows Φ (updateTicketRow id cond set) := by
  have hrow : UsesRows Φ (Matchmaking.updateRow (.tickets id) cond set) := updateRow h
  refine .bind hrow ?_
  rintro (_ | t)
  · exact .pure _
  · exact .bind (indexTicket fun now v v' => hindex now _ _ _ _ v v') fun _ => .pure _

/-- An UPDATE of a ticket writes the ticket and, when the player's claim to the queue changes, an entry of the
unique index. -/
theorem updateTicket {id : UUID} {cond : Time → Ticket → Bool} {set : Time → Ticket → Ticket}
    (hindex : FreeIndex Φ)
    (h : ∀ now t, cond now t = true → Φ now (.tickets id) (some t) (some (set now t))) :
    UsesRows Φ (updateTicket id cond set) :=
  .bind select fun _ => .ite (fun _ => updateTicketRow hindex h) fun _ => .pure _

/-! ## Leases -/

/-- An update of several leases follows the relation if the update of each does. -/
theorem updateLeases {cond : Time → PartitionLease → Bool}
    {set : Time → PartitionLease → PartitionLease}
    (h : ∀ now p v, cond now v = true → Φ now (.partitionLeases p) (some v) (some (set now v))) :
    ∀ ps, UsesRows Φ (updateLeases cond set ps)
  | [] => .pure _
  | p :: ps => .bind (updateRow fun now v => h now p v) fun _ =>
      .bind (updateLeases h ps) fun _ => .pure _

section Leases

variable {workerId : String} {leaseSeconds : ℕ}

/-- A claim of leases changes available rows to claimed ones. -/
theorem claimLeases
    (h : ∀ now p (v : PartitionLease), v.isAvailable now = true →
      Φ now (.partitionLeases p) (some v) (some (v.claimed workerId leaseSeconds now))) :
    ∀ n ps, UsesRows Φ (claimLeases workerId leaseSeconds n ps) := by
  intro n ps
  induction ps generalizing n with
  | nil => cases n <;> exact .pure _
  | cons p ps ih =>
    cases n with
    | zero => exact .pure _
    | succ n =>
      refine .bind (.perform fun now v => ?_) fun v => .ite
        (fun _ => .bind (ih n) fun _ => .pure _) fun _ => ih (n + 1)
      cases v with
      | none => trivial
      | some v =>
        dsimp only
        split
        · exact h now p v ‹_›
        · trivial

/-- The lease operations only take leases that are available or the worker's own. -/
theorem leaseOperations (settings : Settings) (offset : ℕ) :
    UsesRows (workerRows workerId settings.workerLeaseSeconds)
      (leaseOperations settings workerId offset) := by
  have hrenew : UsesRows (workerRows workerId settings.workerLeaseSeconds)
      (renewOwnedPartitions workerId settings.workerLeaseSeconds) := by
    refine .bind select fun _ => .bind (updateLeases ?_ _) fun _ => .pure _
    intro now p v hv
    simp only [Bool.and_eq_true] at hv
    exact .inr ⟨v, _, rfl, rfl, .inr hv.1, .inl ⟨of_decide_eq_true hv.1, rfl⟩⟩
  have hclaim : UsesRows (workerRows workerId settings.workerLeaseSeconds)
      (claimAvailablePartitions workerId settings.workerLeaseSeconds
        settings.workerPartitionBatchSize settings.matchmakingPartitions offset) :=
    .bind select fun _ => claimLeases
      (fun now p v hv => .inr ⟨v, _, rfl, rfl, .inl hv, .inl ⟨rfl, rfl⟩⟩) _ _
  have hrelease : ∀ cap, UsesRows (workerRows workerId settings.workerLeaseSeconds)
      (releaseExcessPartitions workerId cap) := by
    intro cap
    refine .bind (.bind select fun _ => .pure _) fun _ => .ite (fun _ => .pure _) fun _ =>
      .bind select fun _ => .bind (updateLeases ?_ _) fun _ => .pure _
    exact fun now p v hv => .inr ⟨v, _, rfl, rfl, .inr hv, .inr ⟨rfl, rfl⟩⟩
  refine .bind (upsertRow fun now v => .inr rfl) fun _ => .bind hrenew fun _ => .bind hclaim fun _ =>
    .ite (fun _ => ?_) fun _ => .pure _
  exact .bind (.bind select fun _ => .pure _) fun _ => .bind (hrelease _) fun _ => .pure _

/-- The shutdown of a worker only gives back its own leases. -/
theorem shutdownWorker : UsesRows (shutdownRows workerId) (shutdownWorker workerId) := by
  have hrelease : UsesRows (shutdownRows workerId) (releaseOwnedPartitions workerId) :=
    .bind select fun _ => .bind (updateLeases
      (fun now p v hv => .inr ⟨v, _, rfl, rfl, hv, rfl, rfl⟩) _) fun _ => .pure _
  have hremove : UsesRows (shutdownRows workerId) (removeWorkerHeartbeat workerId) := by
    refine .bind select fun _ => .ite (fun _ => .bind (.perform fun now v => ?_) fun _ => .pure _)
      fun _ => .pure _
    dsimp only
    split
    · exact .inr rfl
    · trivial
  refine .bind (attempt (withConnection
    (.bind hrelease fun _ => .bind hremove fun _ => commit))) ?_
  rintro (e | _)
  · exact .ite (fun _ => .pure _) fun _ => .throw _
  · exact .pure _

end Leases

/-- The cleanup only touches expired reservations. -/
theorem cleanupExpiredReservations (workerId : String) (leaseSeconds : ℕ) :
    UsesRows (workerRows workerId leaseSeconds) cleanupExpiredReservations := by
  have hrows : ∀ ids, UsesRows (workerRows workerId leaseSeconds) (cleanupRows ids) := by
    intro ids
    induction ids with
    | nil => exact .pure _
    | cons id ids ih =>
      refine .bind (updateTicketRow (fun _ _ _ _ _ _ _ => trivial) fun now t ht => ?_) fun _ =>
        .bind ih fun _ => .pure _
      simp only [Ticket.isExpired, Bool.and_eq_true, decide_eq_true_eq] at ht
      exact .inr ⟨t, rfl, ht.1, rfl⟩
  exact .bind select fun _ => hrows _

/-! ## Set-up -/

/-- The set-up programs only insert, or reset what tenants may not set themselves. -/
theorem insertPartitions : ∀ ps, UsesRows setupRows (insertPartitions ps)
  | [] => .pure _
  | _ :: ps => .bind (insertRowIfAbsent fun _ => .inr ⟨rfl, _, rfl, rfl, rfl⟩) fun _ =>
      insertPartitions ps

/-- The set-up writes rows of tenants in this loop. -/
theorem upsertTenants (settings : Settings) : ∀ ids, UsesRows setupRows (upsertTenants settings ids)
  | [] => .pure _
  | _ :: ids => .bind (upsertRow fun _ _ => .inr rfl) fun _ => upsertTenants settings ids

/-- The loop leaves the tenants that are there as they are, and inserts the others. -/
theorem insertTenants : ∀ rows, UsesRows setupRows (insertTenants rows)
  | [] => .pure _
  | _ :: rows => .bind (insertRowIfAbsent fun _ => .inr rfl) fun _ => insertTenants rows

/-- All of `db/init.py` is within the rows of the set-up. -/
theorem initMain (settings : Settings) : UsesRows setupRows (initMain settings) :=
  withConnection (.bind (insertPartitions _) fun _ => .bind (upsertTenants settings _) fun _ =>
    commit)

/-- The migration runs the set-up, and its schema has no rows. -/
theorem migrate (settings : Settings) : UsesRows setupRows (migrate settings) :=
  .bind (autocommit (insertPartitions _)) fun _ => .bind (autocommit (insertTenants _)) fun _ =>
    autocommit (insertTenants _)

/-! ## Endpoints -/

/-- Making an answer of a result touches no row. -/
theorem respond {x : Db Response} (hx : UsesRows Φ x) : UsesRows Φ (respond x) :=
  .bind hx fun _ => .pure _

/-- The endpoint may use that its tenant is the one that the header names. -/
theorem withTenant {xTenantId : Option String} {endpoint : String → Tenant → Db Response}
    (h : ∀ id t, xTenantId = some id → UsesRows Φ (endpoint id t)) :
    UsesRows Φ (withTenant xTenantId endpoint) := by
  cases xTenantId with
  | none => exact .pure _
  | some id =>
    refine .bind (autocommit select) ?_
    rintro (_ | t)
    · exact .pure _
    · exact h id t rfl

/-- The look at an id in the path touches no row. -/
theorem checkUuid (rt : Runtime) (text : String) : UsesRows Φ (checkUuid rt text) := by
  unfold Matchmaking.checkUuid
  split
  · exact .pure _
  · exact .throw _

theorem listTickets (tenantId : String) : UsesRows Φ (listTickets tenantId) :=
  .bind (ask _) fun _ => .bind (autocommit select) fun _ => .pure _

theorem getTicket (rt : Runtime) (ticketId tenantId : String) :
    UsesRows Φ (getTicket rt ticketId tenantId) := by
  refine .bind (checkUuid rt ticketId) fun _ => .bind (autocommit select) ?_
  rintro (_ | t) <;> exact .pure _

/-- It only reads, first the match and then its players. -/
theorem getMatch (rt : Runtime) (matchId tenantId : String) :
    UsesRows Φ (getMatch rt matchId tenantId) := by
  refine .bind (checkUuid rt matchId) fun _ => .bind (autocommit select) ?_
  rintro (_ | t)
  · exact .pure _
  · exact .bind (ask _) fun _ => .bind (onConnection select) fun _ => .pure _

/-- A cancellation changes tickets of its own tenant only, and those from active to cancelled. -/
theorem cancelTicket (rt : Runtime) (ticketId tenantId : String) :
    UsesRows (cancelRows tenantId) (cancelTicket rt ticketId tenantId) := by
  have hupdate : ∀ id, UsesRows (cancelRows tenantId)
      (Matchmaking.updateTicket id (fun _ t => t.isCancellable tenantId) Ticket.cancelled) := fun id =>
    updateTicket (fun _ _ _ _ _ _ _ => trivial) fun now t ht => .inr ⟨t, rfl, ht, rfl⟩
  refine .bind (checkUuid rt ticketId) fun id => .bind (autocommit (hupdate id)) ?_
  rintro (_ | t)
  · exact .pure _
  · exact .bind (record _) fun _ => .bind (record _) fun _ => .pure _

end UsesRows

/-! ## The relations are preorders -/

/-- Two changes of a lease by the same worker in one transaction are one such change. -/
theorem LeaseStep.trans {workerId : String} {leaseSeconds : ℕ} {now : Time}
    {v v' v'' : Option PartitionLease} (h : LeaseStep workerId leaseSeconds now v v')
    (h' : LeaseStep workerId leaseSeconds now v' v'') : LeaseStep workerId leaseSeconds now v v'' := by
  rcases h with rfl | ⟨a, b, ha, hb, hfree, hheld⟩
  · exact h'
  · rcases h' with rfl | ⟨a', b', -, hb', -, hheld'⟩
    · exact .inr ⟨a, b, ha, hb, hfree, hheld⟩
    · exact .inr ⟨a, b', ha, hb', hfree, hheld'⟩

/-- What is released twice is released. -/
theorem ReleaseStep.trans {workerId : String} {v v' v'' : Option PartitionLease}
    (h : ReleaseStep workerId v v') (h' : ReleaseStep workerId v' v'') :
    ReleaseStep workerId v v'' := by
  rcases h with rfl | ⟨a, b, ha, hb, hown, hfree⟩
  · exact h'
  · rcases h' with rfl | ⟨a', b', -, hb', -, hfree'⟩
    · exact .inr ⟨a, b, ha, hb, hown, hfree⟩
    · exact .inr ⟨a, b', ha, hb', hown, hfree'⟩

/-- Releasing expired reservations twice in one transaction is releasing them once. -/
theorem UnreserveStep.trans {now : Time} {v v' v'' : Option Ticket} (h : UnreserveStep now v v')
    (h' : UnreserveStep now v' v'') : UnreserveStep now v v'' := by
  rcases h with rfl | ⟨a, ha, hres, rfl⟩
  · exact h'
  · rcases h' with rfl | ⟨b, hb, hres', -⟩
    · exact .inr ⟨a, ha, hres, rfl⟩
    · cases hb
      cases hres'

/-- A ticket that is cancelled is not active, so it is not cancelled again. -/
theorem CancelStep.trans {tenantId : String} {now : Time} {v v' v'' : Option Ticket}
    (h : CancelStep tenantId now v v') (h' : CancelStep tenantId now v' v'') :
    CancelStep tenantId now v v'' := by
  rcases h with rfl | ⟨a, ha, hcan, rfl⟩
  · exact h'
  · rcases h' with rfl | ⟨b, hb, hcan', -⟩
    · exact .inr ⟨a, ha, hcan, rfl⟩
    · cases hb
      simp [Ticket.isCancellable, Ticket.cancelled, TicketStatus.isActive] at hcan'

/-- No actor has to change a row. -/
theorem Actor.rows_refl (l : Actor) (now : Time) (k : Key) (v : Option (Row k)) :
    l.rows now k v v := by
  cases l with
  | cancelTicket x id => cases x <;> cases k <;> first | exact .inl rfl | exact rfl | trivial
  | _ => cases k <;> first | exact .inl rfl | exact rfl | trivial

/-- Relations of the form "unchanged, or" whose second part absorbs are transitive. -/
theorem unchanged_or_trans {k : Key} (p : Option (Row k) → Prop) {v v' v'' : Option (Row k)}
    (h : v' = v ∨ p v') (h' : v'' = v' ∨ p v'') : v'' = v ∨ p v'' := by
  rcases h with rfl | h
  · exact h'
  · rcases h' with rfl | h'
    · exact .inr h
    · exact .inr h'

/-- Changes by the set-up compose, table by table. -/
theorem setupRows_trans (now : Time) (k : Key) (v v' v'' : Option (Row k))
    (h : setupRows now k v v') (h' : setupRows now k v' v'') : setupRows now k v v'' := by
  cases k with
  | tenants id => exact unchanged_or_trans (fun v => v.isSome = true) h h'
  | partitionLeases p =>
    rcases h with rfl | ⟨rfl, b, rfl, hb⟩
    · exact h'
    · rcases h' with rfl | ⟨hn, -⟩
      · exact .inr ⟨rfl, b, rfl, hb⟩
      · cases hn
  | _ => exact Eq.trans h' h

/-- Changes by a worker that makes no match compose, table by table. -/
theorem workerRows_trans (workerId : String) (leaseSeconds : ℕ) (now : Time) (k : Key)
    (v v' v'' : Option (Row k)) (h : workerRows workerId leaseSeconds now k v v')
    (h' : workerRows workerId leaseSeconds now k v' v'') :
    workerRows workerId leaseSeconds now k v v'' := by
  cases k with
  | partitionLeases p => exact LeaseStep.trans h h'
  | workerHeartbeats x => exact unchanged_or_trans (fun _ => x = workerId) h h'
  | tickets id => exact UnreserveStep.trans h h'
  | uqActiveTicket => trivial
  | _ => exact Eq.trans h' h

/-- A row that a claim does not write is as it was. -/
theorem claimRel_refl (dispatcherId : String) (timeoutSeconds : ℕ) (ids : List UUID) (now : Time)
    (k : Key) (v : Option (Row k)) : claimRel dispatcherId timeoutSeconds ids now k v v := by
  cases k <;> first | exact .inl rfl | exact rfl

/-- What one actor does to a row in several statements it may do in one. -/
theorem Actor.rows_trans (l : Actor) (now : Time) (k : Key) (v v' v'' : Option (Row k))
    (h : l.rows now k v v') (h' : l.rows now k v' v'') : l.rows now k v v'' := by
  have hread : ∀ {v v' v'' : Option (Row k)}, readRows now k v v' → readRows now k v' v'' →
      readRows now k v v'' := by
    intro v v' v'' h h'
    cases k <;> first | trivial | exact Eq.trans h' h
  cases l with
  | initMain settings | migrate settings => exact setupRows_trans now k v v' v'' h h'
  | runLoop settings workerId offset => exact workerRows_trans _ _ now k v v' v'' h h'
  | shutdownWorker workerId =>
    cases k with
    | partitionLeases p => exact ReleaseStep.trans h h'
    | workerHeartbeats x => exact unchanged_or_trans (fun _ => x = workerId) h h'
    | _ => exact Eq.trans h' h
  | cancelTicket xTenantId ticketId =>
    cases xTenantId with
    | none => exact hread h h'
    | some tenantId =>
      cases k with
      | tickets id => exact CancelStep.trans h h'
      | uqActiveTicket => trivial
      | _ => exact Eq.trans h' h
  | _ => exact hread h h'

end Matchmaking
