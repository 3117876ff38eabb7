import Matchmaking.ActiveTickets
import Matchmaking.Outbox
import Matchmaking.PairingPool

/-!
# The service as a pool of tickets

What the service is for: tickets wait in a pool, at most one of a player in a queue; they are cancelled, or
matched in pairs within their queue. Every commit of every run is one move of this pool, of the kind that
is its actor's, or no move at all.
-/

namespace Matchmaking

open ReadCommitted PairingPool

variable {rt : Runtime} {l : Actor} {t : Txn Row} {b : Tables}

/-! ## The pool of a store -/

/-- Tenant, player, region and queue. -/
abbrev Slot := String × String × String × String

/-- Tenant, region and queue. -/
def Slot.queue (k : Slot) : String × String × String := (k.1, k.2.2)

namespace Ticket

/-- The slot of a ticket: what the unique index is about. -/
def slot (tk : Ticket) : Slot := (tk.tenantId, tk.playerId, tk.region, tk.queueName)

/-- What has become of a ticket; a reserved one still waits. -/
def standing (tk : Ticket) : Standing (Option UUID) :=
  match tk.status with
  | .waiting | .reserved => .waiting
  | .cancelled => .withdrawn
  | .matched => .paired tk.matchId

theorem standing_eq_waiting {tk : Ticket} : tk.standing = .waiting ↔ tk.status.isActive = true := by
  unfold standing TicketStatus.isActive
  cases tk.status <;> simp

theorem standing_eq_paired {tk : Ticket} {m : Option UUID} :
    tk.standing = .paired m ↔ tk.status = .matched ∧ tk.matchId = m := by
  unfold standing
  cases tk.status <;> simp

theorem indexKey_of_slot {tk tk' : Ticket} (h : tk.slot = tk'.slot) : tk.indexKey = tk'.indexKey := by
  simp only [slot, Prod.mk.injEq] at h
  rw [indexKey, indexKey, h.1, h.2.1, h.2.2.1, h.2.2.2]

end Ticket

/-- The tickets of a store. -/
def poolOf (s : Tables) : Pool UUID Slot (Option UUID) := fun id =>
  (s.lookup (.tickets id)).map fun (tk : Ticket) => (tk.slot, tk.standing)

theorem poolOf_eq_some {s : Tables} {id : UUID} {k : Slot} {f : Standing (Option UUID)} :
    poolOf s id = some (k, f) ↔ ∃ tk : Ticket, s.lookup (.tickets id) = some tk ∧ tk.slot = k ∧ tk.standing = f := by
  simp [poolOf]

/-- The moves of an actor. -/
def Actor.Moves (rt : Runtime) : Actor → Move UUID Slot (Option UUID) → Prop
  | .createTicket _ xTenantId _ body, .enter _ k =>
    ∃ tenantId, xTenantId = some tenantId ∧ k = (tenantId, body.playerId, body.region, body.queueName)
  | .cancelTicket xTenantId text, .withdraw id k => xTenantId = some k.1 ∧ rt.uuidIn text = some id
  | .runLoop .., .pair .. => True
  | _, _ => False

/-! ## Cancelling touches one ticket -/

/-- A request to cancel writes no ticket but its own. -/
def Actor.ticketRows (rt : Runtime) : Actor → RowRel Row
  | .cancelTicket _ text => fun _ k =>
    match k with
    | .tickets id => fun v v' => v' = v ∨ rt.uuidIn text = some id
    | _ => fun _ _ => True
  | _ => fun _ _ _ _ => True

theorem Actor.ticketRows_refl (l : Actor) (now : Time) (k : Key) (v : Option (Row k)) :
    l.ticketRows rt now k v v := by
  cases l with
  | cancelTicket => cases k <;> first | exact .inl rfl | trivial
  | _ => trivial

theorem Actor.ticketRows_trans (l : Actor) (now : Time) (k : Key) (v v' v'' : Option (Row k))
    (h : l.ticketRows rt now k v v') (h' : l.ticketRows rt now k v' v'') : l.ticketRows rt now k v v'' := by
  cases l with
  | cancelTicket xTenantId text =>
    cases k with
    | tickets id => exact unchanged_or_trans (fun _ => rt.uuidIn text = some id) h h'
    | _ => trivial
  | _ => trivial

/-- Where every change is allowed, every program is. -/
theorem usesRows_of_forall {α : Type} {Φ : RowRel Row} (hΦ : ∀ now k v v', Φ now k v v') (x : Db α) :
    UsesRows Φ x := by
  have hprog : ∀ p : Prog Row Reply Exn Metric (Except Exn α), p.Uses (Op.RowsSat Φ) := by
    intro p
    induction p with
    | ret a => trivial
    | op o next ih =>
      refine ⟨?_, ih⟩
      cases o with
      | row k skip f =>
        intro now v
        cases f now v <;> first | exact hΦ .. | trivial
      | _ => trivial
  exact hprog x.run

theorem usesRows_ticketRows (l : Actor) : UsesRows (l.ticketRows rt) (program rt l) := by
  cases l with
  | cancelTicket xTenantId text =>
    refine .bind (UsesRows.withTenant fun tenantId _ _ => ?_) fun _ => .pure _
    unfold cancelTicket checkUuid
    split
    · next id hid =>
      have hupdate : UsesRows (Actor.ticketRows rt (.cancelTicket xTenantId text))
          (updateTicket id (fun _ tk => tk.isCancellable tenantId) Ticket.cancelled) :=
        UsesRows.updateTicket (fun _ _ _ _ _ _ _ => trivial) fun _ _ _ => .inr hid
      refine (UsesRows.autocommit hupdate).bind ?_
      rintro (_ | tk)
      · exact .pure _
      · exact .bind (UsesRows.record _) fun _ => .bind (UsesRows.record _) fun _ => .pure _
    · exact trivial
  | _ => exact usesRows_of_forall (fun _ _ _ _ => trivial) _

/-! ## One commit -/

/-- Where no ticket is different. -/
theorem poolOf_congr {s s' : Tables} (h : ∀ id, s'.lookup (.tickets id) = s.lookup (.tickets id)) :
    poolOf s' = poolOf s := by
  funext id
  simp only [poolOf, h id]

/-- Where one ticket is different. -/
theorem poolOf_update {s s' : Tables} {id : UUID} {tk : Ticket} (hnew : s'.lookup (.tickets id) = some tk)
    (hframe : ∀ id', id' ≠ id → s'.lookup (.tickets id') = s.lookup (.tickets id')) :
    poolOf s' = Function.update (poolOf s) id (some (tk.slot, tk.standing)) := by
  funext id'
  by_cases hid : id' = id
  · subst hid
    rw [Function.update_self]
    simp [poolOf, hnew]
  · rw [Function.update_of_ne hid]
    simp only [poolOf, hframe id' hid]

/-- A commit leaves the pool alone, or makes a move of its actor. -/
def MovesPool (rt : Runtime) (l : Actor) (P P' : Pool UUID Slot (Option UUID)) : Prop :=
  P' = P ∨ ∃ move, l.Moves rt move ∧ Step Slot.queue P move P'

/-- Dropping a reservation is no move. -/
theorem UnreserveStep.pool {now : Time} {v v' : Option Ticket} (h : UnreserveStep now v v') :
    v'.map (fun tk => (tk.slot, tk.standing)) = v.map fun tk => (tk.slot, tk.standing) := by
  obtain rfl | ⟨tk, rfl, hst, rfl⟩ := h
  · rfl
  · have hwaits : tk.standing = .waiting := Ticket.standing_eq_waiting.mpr (by rw [hst]; rfl)
    rw [Option.map_some, Option.map_some, hwaits]
    rfl

/-- A ticket that is cancelled is withdrawn. -/
theorem cancel_moves {tenantId text : String} {now : Time} {s' : Tables}
    (hstep : ∀ id, CancelStep tenantId now (b.lookup (.tickets id)) (s'.lookup (.tickets id)))
    (honly : ∀ id, s'.lookup (.tickets id) = b.lookup (.tickets id) ∨ rt.uuidIn text = some id) :
    MovesPool rt (.cancelTicket (some tenantId) text) (poolOf b) (poolOf s') := by
  by_cases hsame : ∀ id, s'.lookup (.tickets id) = b.lookup (.tickets id)
  · exact .inl (poolOf_congr hsame)
  obtain ⟨id, hid⟩ := not_forall.mp hsame
  have htext : rt.uuidIn text = some id := (honly id).resolve_left hid
  obtain ⟨tk, hold, hcan, hnew⟩ := (hstep id).resolve_left hid
  rw [Ticket.isCancellable, Bool.and_eq_true, decide_eq_true_eq] at hcan
  have hpool : poolOf s' = Function.update (poolOf b) id (some (tk.slot, .withdrawn)) := by
    refine poolOf_update hnew fun id' hne => (honly id').resolve_right fun htext' => hne ?_
    exact Option.some.inj (htext'.symm.trans htext)
  have hwaits : poolOf b id = some (tk.slot, .waiting) :=
    poolOf_eq_some.mpr ⟨tk, hold, rfl, Ticket.standing_eq_waiting.mpr hcan.2⟩
  refine .inr ⟨.withdraw id tk.slot, ⟨congrArg some hcan.1.symm, htext⟩, ?_⟩
  rw [hpool]
  exact .withdraw hwaits

/-- A ticket that is created enters; the index sees to it that its slot is free. -/
theorem Creates.moves {n : NewTicket} (h : Creates rt l t b n) (hindex : IndexSound (patch t.writes b)) :
    MovesPool rt l (poolOf b) (poolOf (patch t.writes b)) := by
  obtain ⟨settings, xTenantId, key, body, rfl, hrequest⟩ := h.request
  obtain ⟨hold, hnew⟩ := h.changed.lookup (.tickets n.ticketId) (fun h => h) (n.dlookup_ticket t.start)
  have hframe : ∀ id, id ≠ n.ticketId →
      (patch t.writes b).lookup (.tickets id) = b.lookup (.tickets id) := fun id hid =>
    h.changed.frame (.tickets id) (fun h => h) (n.dlookup_eq_none t.start (by simp [hid]) (by simp))
  have hnone : poolOf b n.ticketId = none := by simp [poolOf, hold]
  have hfree : ∀ id, poolOf b id ≠ some ((n.ticket t.start).slot, .waiting) := by
    intro id hid
    obtain ⟨tk, htk, hslot, hstanding⟩ := poolOf_eq_some.mp hid
    have hne : id ≠ n.ticketId := fun heq => by cases (heq ▸ htk).symm.trans hold
    refine hne (hindex.unique ((hframe id hne).trans htk) hnew (Ticket.standing_eq_waiting.mp hstanding) rfl ?_)
    exact Ticket.indexKey_of_slot hslot
  refine .inr ⟨.enter n.ticketId (n.ticket t.start).slot, ⟨n.tenantId, hrequest.tenantId, ?_⟩, ?_⟩
  · rw [← hrequest.body]
    rfl
  · rw [poolOf_update hnew hframe]
    exact .enter hnone hfree

/-- A match is a pair, and its id is new to the pool. -/
theorem Makes.moves {n : NewMatch} (h : Makes l t b n) (hpaired : Paired b) :
    MovesPool rt l (poolOf b) (poolOf (patch t.writes b)) := by
  obtain ⟨settings, workerId, offset, rfl⟩ := h.worker
  have hn := h.compatible
  obtain ⟨hfirst, hfirst'⟩ := h.changed.lookup (.tickets n.firstId) (fun h => h)
    (n.dlookup_first t.start hn.apart)
  obtain ⟨hsecond, hsecond'⟩ := h.changed.lookup (.tickets n.secondId) (fun h => h)
    (n.dlookup_second t.start)
  have hwaits : ∀ {id : UUID} {tk : Ticket}, b.lookup (.tickets id) = some tk → tk.status = .waiting →
      poolOf b id = some (tk.slot, .waiting) := fun htk hst =>
    poolOf_eq_some.mpr ⟨_, htk, rfl, Ticket.standing_eq_waiting.mpr (by rw [hst]; rfl)⟩
  have hfresh : ∀ id k, poolOf b id ≠ some (k, .paired (some n.matchId)) := by
    intro id k hid
    obtain ⟨tk, htk, -, hstanding⟩ := poolOf_eq_some.mp hid
    obtain ⟨hst, hmatch⟩ := Ticket.standing_eq_paired.mp hstanding
    obtain ⟨m, hplayer⟩ := hpaired.matched id tk htk hst
    obtain rfl : m = n.matchId :=
      Option.some.inj ((hpaired.matchId_eq hplayer htk).2.symm.trans hmatch)
    obtain ⟨_, row, -, hrow, -⟩ := hpaired.player _ _ hplayer
    cases hrow.symm.trans h.match_fresh
  have hpool : poolOf (patch t.writes b)
      = Function.update (Function.update (poolOf b) n.firstId (some (n.first.slot, .paired (some n.matchId))))
          n.secondId (some (n.second.slot, .paired (some n.matchId))) := by
    funext id
    by_cases hid₂ : id = n.secondId
    · subst hid₂
      rw [Function.update_self]
      exact poolOf_eq_some.mpr ⟨_, hsecond', rfl, rfl⟩
    rw [Function.update_of_ne hid₂]
    by_cases hid₁ : id = n.firstId
    · subst hid₁
      rw [Function.update_self]
      exact poolOf_eq_some.mpr ⟨_, hfirst', rfl, rfl⟩
    rw [Function.update_of_ne hid₁]
    simp only [poolOf, NewMatch.frame_ticket h.changed ⟨hid₁, hid₂⟩]
  refine .inr ⟨.pair n.firstId n.secondId (some n.matchId), trivial, ?_⟩
  rw [hpool]
  refine .pair hn.apart (hwaits hfirst hn.firstWaiting) (hwaits hsecond hn.secondWaiting) ?_ hfresh
  simp only [Slot.queue, Ticket.slot, hn.tenantId, hn.region, hn.queueName]

/-- Every legal commit is a move of its actor. -/
theorem Legal.moves (h : Legal rt l t b)
    (hrows : ∀ k, l.ticketRows rt t.start k (b.lookup k) ((patch t.writes b).lookup k)) (hpaired : Paired b)
    (hindex : IndexSound (patch t.writes b)) : MovesPool rt l (poolOf b) (poolOf (patch t.writes b)) := by
  cases h with
  | rows h =>
    have hsame : (∀ id, (patch t.writes b).lookup (.tickets id) = b.lookup (.tickets id)) →
        MovesPool rt l (poolOf b) (poolOf (patch t.writes b)) := fun h => .inl (poolOf_congr h)
    cases l with
    | runLoop settings workerId offset =>
      exact .inl (funext fun id => UnreserveStep.pool (h (.tickets id)))
    | cancelTicket xTenantId text =>
      cases xTenantId with
      | none => exact hsame fun id => h (.tickets id)
      | some tenantId => exact cancel_moves (fun id => h (.tickets id)) fun id => hrows (.tickets id)
    | _ => exact hsame fun id => h (.tickets id)
  | pair n hn hurl h => exact Makes.moves ⟨⟨_, _, _, rfl⟩, hn, hurl, h⟩ hpaired
  | claim tie σ hσ h => exact .inl (poolOf_congr fun id => h (.tickets id))
  | outcome o eventId e m hm h =>
    exact .inl (poolOf_congr fun id => h.frame (.tickets id) (fun h => h)
      (o.dlookup_eq_none _ _ _ _ (by simp) (by simp)))
  | create n htenant hkey hbody hpart hknown h =>
    exact Creates.moves ⟨⟨_, _, _, _, rfl, htenant, hkey, hbody, hbody ▸ hpart⟩, hknown, h⟩ hindex

/-! ## Every run -/

/-- The moves are those of the actors that committed, in the order of the log; a commit may make none. -/
inductive Performs (rt : Runtime) : List LogEntry → List (Move UUID Slot (Option UUID)) → Prop
  | nil : Performs rt [] []
  | silent {e : LogEntry} {log moves} (h : Performs rt log moves) : Performs rt (e :: log) moves
  | move {e : LogEntry} {t : Txn Row} {b : Tables} {move log moves} (hc : e.event.commit? = some (t, b))
      (hmove : e.actor.Moves rt move) (h : Performs rt log moves) : Performs rt (e :: log) (move :: moves)

/-- Commits that are moves make a run. -/
theorem performs_of_chained {s₀ s : Tables} {log : List LogEntry} (h : Chained s₀ log s)
    (hmoves : ∀ e ∈ log, ∀ t b, e.event.commit? = some (t, b) →
      MovesPool rt e.actor (poolOf b) (poolOf (patch t.writes b))) :
    ∃ moves, Performs rt log moves ∧ Run Slot.queue (poolOf s₀) moves (poolOf s) := by
  induction h with
  | nil => exact ⟨[], .nil, .nil⟩
  | @commit e t s log hc _ ih =>
    obtain ⟨moves, hperforms, hrun⟩ := ih fun e' he' => hmoves e' (List.mem_cons_of_mem e he')
    obtain hsame | ⟨move, hmove, hstep⟩ := hmoves e List.mem_cons_self t s hc
    · rw [hsame]
      exact ⟨moves, .silent hperforms, hrun⟩
    · exact ⟨move :: moves, .move hc hmove hperforms, .step hrun hstep⟩
  | @other e s log _ _ ih =>
    obtain ⟨moves, hperforms, hrun⟩ := ih fun e' he' => hmoves e' (List.mem_cons_of_mem e he')
    exact ⟨moves, .silent hperforms, hrun⟩

section Runs

variable {clock : Time} {s : ServiceState} (hs : (service rt).Reachable (emptyState clock) s)

include hs

/-- Every commit of a run is a move of its actor. -/
theorem commits_move {e : LogEntry} (he : e ∈ s.world.log) (hc : e.event.commit? = some (t, b)) :
    MovesPool rt e.actor (poolOf b) (poolOf (patch t.writes b)) := by
  have hpast := service_past hs
  have hfollow : CommitsFollow (Actor.ticketRows rt) s.world.log :=
    commits_follow (fun _ _ => rfl) Actor.ticketRows_refl Actor.ticketRows_trans
      (fun l => usesRows_ticketRows l) hs
  have hwritten := index_written hs
  have h₀ : IndexSound ∅ := fun _ _ h => by cases h
  have hindex : IndexSound b := hpast.history.chained.before h₀
    (fun e he t b hc => (hwritten e he t b hc).sound) he hc
  exact (hpast.legal he hc).moves (hfollow e he t b hc)
    (hpast.before .empty (fun _ _ _ => Legal.paired) he hc) ((hwritten e he t b hc).sound hindex)

/-- The pool has come from the empty one by the moves of the actors. -/
theorem pool_run : ∃ moves, Performs rt s.world.log moves ∧
    Run Slot.queue (fun _ => none) moves (poolOf s.world.committed) :=
  performs_of_chained (service_past hs).history.chained fun _ he _ _ hc => commits_move hs he hc

theorem pool_sound : Sound Slot.queue (poolOf s.world.committed) := by
  obtain ⟨moves, -, hrun⟩ := pool_run hs
  exact hrun.sound .empty

/-- **The service is a pool of tickets.** In every run, each commit makes at most one move of the pool, of
its actor's kind; the committed tickets are the pool after these moves; and the players of a match are the
two tickets that the pool has paired under its id. -/
theorem service_refines_pool :
    (∀ e ∈ s.world.log, ∀ t b, e.event.commit? = some (t, b) →
      MovesPool rt e.actor (poolOf b) (poolOf (patch t.writes b))) ∧
    (∃ moves, Performs rt s.world.log moves ∧
      Run Slot.queue (fun _ => none) moves (poolOf s.world.committed)) ∧
    ∀ m id, (s.world.committed.lookup (.matchPlayers m id)).isSome = true ↔
      ∃ k, poolOf s.world.committed id = some (k, .paired (some m)) := by
  refine ⟨fun e he t b hc => commits_move hs he hc, pool_run hs, fun m id => ?_⟩
  have hpaired : Paired s.world.committed := (service_past hs).invariant .empty fun _ _ _ => Legal.paired
  constructor
  · intro hplayer
    obtain ⟨tk, row, htk, -, hst, hmatch, -⟩ := hpaired.player m id hplayer
    exact ⟨tk.slot, poolOf_eq_some.mpr ⟨tk, htk, rfl, Ticket.standing_eq_paired.mpr ⟨hst, hmatch⟩⟩⟩
  · rintro ⟨k, hk⟩
    obtain ⟨tk, htk, -, hstanding⟩ := poolOf_eq_some.mp hk
    obtain ⟨hst, hmatch⟩ := Ticket.standing_eq_paired.mp hstanding
    obtain ⟨m', hplayer⟩ := hpaired.matched id tk htk hst
    have heq : some m' = some m := (hpaired.matchId_eq hplayer htk).2.symm.trans hmatch
    rwa [← Option.some.inj heq]

end Runs

/-- The worker of the sample run pairs the two tickets. -/
theorem service_refines_pool_sample :
    (∃ k, poolOf sampleState.world.committed 0x16 = some (k, .paired (some 0x3f))) ∧
    (∃ k, poolOf sampleState.world.committed 0x2b = some (k, .paired (some 0x3f))) ∧
    ∃ moves, Performs sampleRuntime sampleState.world.log moves ∧
      Run Slot.queue (fun _ => none) moves (poolOf sampleState.world.committed) :=
  have h := service_refines_pool sampleState_reachable
  ⟨(h.2.2 _ _).mp (by decide +kernel), (h.2.2 _ _).mp (by decide +kernel), h.2.1⟩

/-! ## Tickets are conserved -/

/-- Tickets of some queues, in some statuses. -/
def countsTicket (queues : String × String × String → Bool) (statuses : TicketStatus → Bool) :
    (k : Key) → Row k → Bool
  | .tickets _, (tk : Ticket) => queues (tk.tenantId, tk.region, tk.queueName) && statuses tk.status
  | _, _ => false

/-- Matches of some queues. -/
def countsMatch (queues : String × String × String → Bool) : (k : Key) → Row k → Bool
  | .matches _, (m : Match) => queues (m.tenantId, m.region, m.queueName)
  | _, _ => false

/-- All players of matches. -/
def countsPlayer : (k : Key) → Row k → Bool
  | .matchPlayers .., _ => true
  | _, _ => false

/-- Events of some tenants. -/
def countsEvent (tenants : String → Bool) : (k : Key) → Row k → Bool
  | .callbackEvents _, (ev : CallbackEventRow) => tenants ev.tenantId
  | _, _ => false

section Counts

variable {queues : String × String × String → Bool} {statuses : TicketStatus → Bool}

/-- The tickets that count, by their ids. -/
theorem exists_tickets (s : Tables) : ∃ ids : Finset UUID, (∀ id, id ∈ ids ↔ ∃ tk : Ticket,
    s.lookup (.tickets id) = some tk ∧ queues tk.slot.queue = true ∧ statuses tk.status = true) ∧
    count (countsTicket queues statuses) s = ids.card := by
  obtain ⟨ids, hids, hcard⟩ := exists_counted (fun _ _ h => Key.tickets.inj h)
    (p := countsTicket queues statuses) (fun k v hk => by
      cases k <;> first | exact ⟨_, rfl⟩ | cases hk) s
  refine ⟨ids, fun id => (hids id).trans (exists_congr fun tk => ?_), hcard⟩
  exact and_congr_right fun _ => Bool.and_eq_true_iff

/-- The matches that count, by their ids. -/
theorem exists_matches (s : Tables) : ∃ ms : Finset UUID, (∀ m, m ∈ ms ↔ ∃ row : Match,
    s.lookup (.matches m) = some row ∧ queues (row.tenantId, row.region, row.queueName) = true) ∧
    count (countsMatch queues) s = ms.card :=
  exists_counted (fun _ _ h => Key.matches.inj h) (p := countsMatch queues) (fun k v hk => by
    cases k <;> first | exact ⟨_, rfl⟩ | cases hk) s

/-- Every matched ticket is one of the two of a match of its queue. -/
theorem Paired.count_matched {s : Tables} (h : Paired s) (hsound : Sound Slot.queue (poolOf s)) :
    count (countsTicket queues (· = .matched)) s = 2 * count (countsMatch queues) s := by
  obtain ⟨ids, hids, hcard⟩ := @exists_tickets queues (· = .matched) s
  obtain ⟨ms, hms, hcard'⟩ := @exists_matches queues s
  have hqueue : ∀ {tk : Ticket} {row : Match}, tk.tenantId = row.tenantId → tk.region = row.region →
      tk.queueName = row.queueName → (row.tenantId, row.region, row.queueName) = tk.slot.queue := by
    intro tk row htenant hregion hname
    rw [← htenant, ← hregion, ← hname]
    rfl
  rw [hcard, hcard', ← Finset.card_map (s := ms) ⟨some, Option.some_injective UUID⟩]
  refine hsound.card_paired (q := fun g => queues g = true) (fun id => ?_) fun m => ?_
  · rw [hids id]
    constructor
    · rintro ⟨tk, htk, hq, hst⟩
      exact ⟨tk.slot, tk.matchId, poolOf_eq_some.mpr ⟨tk, htk, rfl, Ticket.standing_eq_paired.mpr
        ⟨of_decide_eq_true hst, rfl⟩⟩, hq⟩
    · rintro ⟨k, m, hk, hq⟩
      obtain ⟨tk, htk, rfl, hstanding⟩ := poolOf_eq_some.mp hk
      exact ⟨tk, htk, hq, decide_eq_true (Ticket.standing_eq_paired.mp hstanding).1⟩
  · rw [Finset.mem_map]
    constructor
    · rintro ⟨m, hm, rfl⟩
      obtain ⟨row, hrow, hq⟩ := (hms m).mp hm
      obtain ⟨a, _, -, hplayers⟩ := h.players m row hrow
      obtain ⟨tk, row', htk, hrow', hst, hmatch, htenant, hregion, hname⟩ :=
        h.player m a ((hplayers a).mpr (.inl rfl))
      obtain rfl := Option.some.inj (hrow.symm.trans hrow')
      rw [hqueue htenant hregion hname] at hq
      exact ⟨a, tk.slot, poolOf_eq_some.mpr ⟨tk, htk, rfl, Ticket.standing_eq_paired.mpr ⟨hst, hmatch⟩⟩, hq⟩
    · rintro ⟨id, k, hk, hq⟩
      obtain ⟨tk, htk, rfl, hstanding⟩ := poolOf_eq_some.mp hk
      obtain ⟨hst, rfl⟩ := Ticket.standing_eq_paired.mp hstanding
      obtain ⟨m, hplayer⟩ := h.matched id tk htk hst
      obtain ⟨tk', row, htk', hrow, -, hmatch, htenant, hregion, hname⟩ := h.player m id hplayer
      obtain rfl := Option.some.inj (htk.symm.trans htk')
      exact ⟨m, (hms m).mpr ⟨row, hrow, hqueue htenant hregion hname ▸ hq⟩, hmatch.symm⟩

/-- Every matched ticket has one player. -/
theorem Paired.count_players {s : Tables} (h : Paired s) :
    count countsPlayer s = count (countsTicket (fun _ => true) (· = .matched)) s := by
  obtain ⟨ids, hids, hcard⟩ := @exists_tickets (fun _ => true) (· = .matched) s
  have hinj : Function.Injective fun p : UUID × UUID => Key.matchPlayers p.1 p.2 := by
    rintro ⟨m, id⟩ ⟨m', id'⟩ heq
    cases heq
    rfl
  obtain ⟨ps, hps, hcard'⟩ := exists_counted hinj (p := countsPlayer) (fun k v hk => by
    cases k <;> first | exact ⟨(_, _), rfl⟩ | cases hk) s
  have hplayer : ∀ p : UUID × UUID, p ∈ ps ↔ (s.lookup (.matchPlayers p.1 p.2)).isSome = true := fun p => by
    rw [hps p, Option.isSome_iff_exists]
    exact exists_congr fun _ => and_iff_left rfl
  rw [hcard, hcard']
  refine Finset.card_bij (fun p _ => p.2) (fun p hp => ?_) (fun p hp p' hp' heq => ?_) fun id hid => ?_
  · obtain ⟨tk, -, htk, -, hst, -⟩ := h.player p.1 p.2 ((hplayer p).mp hp)
    exact (hids p.2).mpr ⟨tk, htk, rfl, decide_eq_true hst⟩
  · obtain ⟨tk, -, htk, -, -, hmatch, -⟩ := h.player p.1 p.2 ((hplayer p).mp hp)
    have hmatch' := (h.matchId_eq ((hplayer p').mp hp') (heq ▸ htk)).2
    exact Prod.ext (Option.some.inj (hmatch.symm.trans hmatch')) heq
  · obtain ⟨tk, htk, -, hst⟩ := (hids id).mp hid
    obtain ⟨m, hm⟩ := h.matched id tk htk (of_decide_eq_true hst)
    exact ⟨(m, id), (hplayer (m, id)).mpr hm, rfl⟩

/-- Every match has one event, of its tenant. -/
theorem Outbox.count_events {log : List LogEntry} {s : Tables} (h : Outbox log s) {tenants : String → Bool} :
    count (countsEvent tenants) s = count (countsMatch fun g => tenants g.1) s := by
  obtain ⟨ms, hms, hcard⟩ := @exists_matches (fun g => tenants g.1) s
  obtain ⟨es, hes, hcard'⟩ := exists_counted (fun _ _ h => Key.callbackEvents.inj h)
    (p := countsEvent tenants) (fun k v hk => by cases k <;> first | exact ⟨_, rfl⟩ | cases hk) s
  have hevent : ∀ m ∈ ms, ∃ e, ∃ ev : CallbackEventRow, s.lookup (.callbackEvents e) = some ev ∧
      ev.matchId = m := fun m hm => by
    obtain ⟨row, hrow, -⟩ := (hms m).mp hm
    exact (h.existsUnique_event hrow).exists
  choose! event hevent using hevent
  rw [hcard, hcard']
  refine (Finset.card_bij (fun m _ => event m) (fun m hm => ?_) (fun m hm m' hm' heq => ?_) fun e he => ?_).symm
  · obtain ⟨ev, hev, rfl⟩ := hevent m hm
    obtain ⟨row, hrow, hnotifies⟩ := h.notifies hev
    obtain ⟨row', hrow', htenant⟩ := (hms ev.matchId).mp hm
    obtain rfl := Option.some.inj (hrow.symm.trans hrow')
    exact (hes _).mpr ⟨ev, hev, (congrArg tenants hnotifies.tenantId).trans htenant⟩
  · obtain ⟨ev, hev, rfl⟩ := hevent m hm
    obtain ⟨ev', hev', rfl⟩ := hevent m' hm'
    rw [heq] at hev
    rw [Option.some.inj (hev.symm.trans hev')]
  · obtain ⟨ev, hev, htenant⟩ := (hes e).mp he
    obtain ⟨row, hrow, hnotifies⟩ := h.notifies hev
    have hm : ev.matchId ∈ ms := (hms _).mpr ⟨row, hrow, (congrArg tenants hnotifies.tenantId).symm.trans htenant⟩
    obtain ⟨ev', hev', hmatch⟩ := hevent _ hm
    exact ⟨ev.matchId, hm, h.oneEvent _ _ ev' ev hev' hev hmatch⟩

/-- Statuses of two kinds. -/
theorem count_statuses {statuses₁ statuses₂ : TicketStatus → Bool}
    (h : ∀ st, (statuses st).toNat = (statuses₁ st).toNat + (statuses₂ st).toNat) (s : Tables) :
    count (countsTicket queues statuses) s
      = count (countsTicket queues statuses₁) s + count (countsTicket queues statuses₂) s := by
  refine count_add (fun k v => ?_) s
  cases k with
  | tickets id =>
    simp only [countsTicket]
    cases queues (v.tenantId, v.region, v.queueName)
    · rfl
    · exact h v.status
  | _ => rfl

/-- Every ticket is active, cancelled or matched. -/
theorem count_tickets (s : Tables) : count (countsTicket queues fun _ => true) s
    = count (countsTicket queues TicketStatus.isActive) s + count (countsTicket queues (· = .cancelled)) s
      + count (countsTicket queues (· = .matched)) s := by
  have hclosed := @count_statuses queues (fun st => decide (st ≠ .matched)) TicketStatus.isActive (· = .cancelled)
    (by rintro (_ | _ | _ | _) <;> rfl) s
  rw [← hclosed]
  exact count_statuses (by rintro (_ | _ | _ | _) <;> rfl) s

end Counts

/-- **Conservation.** In every committed state, in any set of queues, there are as many tickets as active
ones, cancelled ones and two for each match; a match has two players and one event. -/
theorem tickets_conserved {clock : Time} {s : ServiceState}
    (hs : (service rt).Reachable (emptyState clock) s) :
    (∀ queues, count (countsTicket queues fun _ => true) s.world.committed
      = count (countsTicket queues TicketStatus.isActive) s.world.committed
        + count (countsTicket queues (· = .cancelled)) s.world.committed
        + 2 * count (countsMatch queues) s.world.committed) ∧
    count countsPlayer s.world.committed = 2 * count (countsMatch fun _ => true) s.world.committed ∧
    ∀ tenants, count (countsEvent tenants) s.world.committed
      = count (countsMatch fun g => tenants g.1) s.world.committed := by
  have houtbox := (service_past hs).outbox
  have hmatched : ∀ queues, count (countsTicket queues (· = .matched)) s.world.committed
      = 2 * count (countsMatch queues) s.world.committed := fun _ =>
    houtbox.paired.count_matched (pool_sound hs)
  refine ⟨fun queues => ?_, ?_, fun tenants => houtbox.count_events⟩
  · rw [count_tickets, hmatched]
  · rw [houtbox.paired.count_players, hmatched]

/-- Two tickets, one match: the sample run. -/
theorem tickets_conserved_sample :
    count (countsMatch fun _ => true) sampleState.world.committed = 1 ∧
      count countsPlayer sampleState.world.committed
        = 2 * count (countsMatch fun _ => true) sampleState.world.committed :=
  ⟨by decide +kernel, (tickets_conserved sampleState_reachable).2.1⟩

end Matchmaking
