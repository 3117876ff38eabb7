import Matchmaking.Commits

/-!
# What a commit does to each table

`Legal` looked at row by row: which rows a commit can add or change, and how. Apart from a new match,
a commit leaves matches, their players and their events as they are, but for statuses.
-/

namespace Matchmaking

open ReadCommitted

variable {rt : Runtime} {l : Actor} {t : Txn Row} {s : Tables}

/-! ## Tickets, matches, players and events -/

/-- How an actor changes a ticket, other than by matching it. -/
inductive TicketStep (rt : Runtime) (l : Actor) (now : Time) : Option Ticket → Option Ticket → Prop
  | same (v : Option Ticket) : TicketStep rt l now v v
  | unreserved {a : Ticket} (h : a.status = .reserved) :
      TicketStep rt l now (some a) (some (a.unreserved now))
  | cancelled {a : Ticket} {tenantId : String} (h : a.isCancellable tenantId = true) :
      TicketStep rt l now (some a) (some (a.cancelled now))
  | created (n : NewTicket) (settings : Settings)
      (hl : l = .createTicket settings (some n.tenantId) n.key n.body)
      (hpart : n.partitionId = computePartitionId rt n.tenantId n.body.region n.body.queueName
        settings.matchmakingPartitions) :
      TicketStep rt l now none (some (n.ticket now))

/-- A change that makes no match: tickets change by the steps of the actor, players stay, and matches and
events keep their identity. -/
structure Unpaired (rt : Runtime) (l : Actor) (now : Time) (s s' : Tables) : Prop where
  tickets : ∀ id, TicketStep rt l now (s.lookup (.tickets id)) (s'.lookup (.tickets id))
  matchRows : ∀ m, (s'.lookup (.matches m)).map Match.identity
    = (s.lookup (.matches m)).map Match.identity
  players : ∀ m id, s'.lookup (.matchPlayers m id) = s.lookup (.matchPlayers m id)
  events : ∀ e, (s'.lookup (.callbackEvents e)).map CallbackEventRow.identity
    = (s.lookup (.callbackEvents e)).map CallbackEventRow.identity

/-- Tables in which no actor changes single rows: those are written by the commits that `Legal` lists on their
own. -/
def IsRecord : Key → Prop
  | .matches _ | .matchPlayers .. | .idempotencyKeys .. => True
  | _ => False

/-- Records are written by the special commits only; by the rules for rows they stay as they are. -/
theorem Actor.rows_record (l : Actor) {now : Time} {k : Key} (hk : IsRecord k) {v v' : Option (Row k)}
    (h : l.rows now k v v') : v' = v := by
  cases l with
  | cancelTicket xTenantId ticketId =>
    cases xTenantId <;> cases k <;> first | exact h | exact hk.elim
  | _ => cases k <;> first | exact h | exact hk.elim

theorem Actor.rows_callbackEvents (l : Actor) {now : Time} {e : UUID}
    {v v' : Option CallbackEventRow} (h : l.rows now (.callbackEvents e) v v') : v' = v := by
  cases l with
  | cancelTicket xTenantId ticketId => cases xTenantId <;> exact h
  | _ => exact h

/-- By the rules for rows a ticket changes by one of the steps that its actor may take. -/
theorem Actor.rows_tickets (l : Actor) {now : Time} {id : UUID} {v v' : Option Ticket}
    (h : l.rows now (.tickets id) v v') : TicketStep rt l now v v' := by
  have hsame : v' = v → TicketStep rt l now v v' := by
    rintro rfl
    exact .same _
  cases l with
  | runLoop settings workerId offset =>
    obtain h | ⟨a, rfl, ha, rfl⟩ := h
    · exact hsame h
    · exact .unreserved ha
  | cancelTicket xTenantId ticketId =>
    cases xTenantId with
    | none => exact hsame h
    | some tenantId =>
      obtain h | ⟨a, rfl, ha, rfl⟩ := h
      · exact hsame h
      · exact .cancelled ha
  | _ => exact hsame h

/-- No outcome leaves an event in progress. -/
theorem Outcome.status_apply (o : Outcome) (now : Time) (e : CallbackEventRow) :
    (o.apply now e).status ≠ .inProgress := by
  cases o <;> exact fun h => by cases h

namespace Outcome

variable (o : Outcome) (eventId : UUID) (e : CallbackEventRow) (m : Match) (now : Time)

theorem dlookup_event : (o.changes eventId e m now).dlookup (.callbackEvents eventId)
    = some (some e, some (o.apply now e)) := List.dlookup_cons_eq ..

/-- Rows of other tables, and other events. -/
theorem dlookup_eq_none {k : Key} (hevent : k ≠ .callbackEvents eventId)
    (hmatch : k ≠ .matches e.matchId) : (o.changes eventId e m now).dlookup k = none := by
  unfold changes
  cases o.matchStatus? <;> simp [List.dlookup_cons_ne, hevent, hmatch]

/-- An outcome that ends the delivery changes the status of the match. -/
theorem dlookup_match {status : MatchStatus} (ho : o.matchStatus? = some status) :
    (o.changes eventId e m now).dlookup (.matches e.matchId)
      = some (some m, some { m with status := status }) := by
  simp only [changes, ho]
  exact (List.dlookup_cons_ne _ _ (by simp)).trans (List.dlookup_cons_eq ..)

theorem dlookup_match_none (ho : o.matchStatus? = none) {id : UUID} :
    (o.changes eventId e m now).dlookup (.matches id) = none := by
  simp only [changes, ho]
  simp [List.dlookup_cons_ne]

end Outcome

namespace NewTicket

variable (n : NewTicket) (now : Time)

theorem dlookup_ticket : (n.changes rt now).dlookup (.tickets n.ticketId)
    = some (none, some (n.ticket now)) := by
  unfold changes
  cases n.key <;> simp [List.dlookup_cons_ne]

/-- The finalized row of the key is part of the changes. -/
theorem dlookup_key {k : String} (hk : n.key = some k) :
    (n.changes rt now).dlookup (.idempotencyKeys n.tenantId k)
      = some (none, some (n.keyRow rt now)) := by
  simp only [changes, hk, List.dlookup_cons_eq]

/-- Other tickets and other keys, and the rows of all other tables. -/
theorem dlookup_eq_none {k : Key} (hticket : k ≠ .tickets n.ticketId)
    (hkey : ∀ key, n.key = some key → k ≠ .idempotencyKeys n.tenantId key) :
    (n.changes rt now).dlookup k = none := by
  unfold changes
  cases hn : n.key with
  | none => simp [List.dlookup_cons_ne, hticket]
  | some key => simp [List.dlookup_cons_ne, hticket, hkey key hn]

end NewTicket

/-- Actor `l` makes the match `n`, completely, by committing transaction `t` on the store `s`. -/
structure Makes (l : Actor) (t : Txn Row) (s : Tables) (n : NewMatch) : Prop where
  worker : ∃ settings workerId offset, l = .runLoop settings workerId offset
  compatible : n.Compatible
  url : n.UrlRead t.reads
  changed : Changed IsIndexKey (n.changes t.start) s (patch t.writes s)

/-- A legal commit makes no match, or exactly one. -/
theorem Legal.unpaired_or_makes (h : Legal rt l t s) :
    Unpaired rt l t.start s (patch t.writes s) ∨ ∃ n, Makes l t s n := by
  cases h with
  -- single-row changes: what is asked for each kind of row is what they may do
  | rows h =>
    refine .inl ⟨fun id => l.rows_tickets (h (.tickets id)), fun m => ?_, fun m id => ?_, fun e => ?_⟩
    · rw [@Actor.rows_record l _ (.matches m) trivial _ _ (h (.matches m))]
    · exact @Actor.rows_record l _ (.matchPlayers m id) trivial _ _ (h (.matchPlayers m id))
    · rw [l.rows_callbackEvents (h (.callbackEvents e))]
  | pair n hn hurl h => exact .inr ⟨n, ⟨_, _, _, rfl⟩, hn, hurl, h⟩
  -- a claim locks events, and leaves what identifies them
  | claim tie σ hσ h =>
    refine .inl ⟨fun id => ?_, fun m => ?_, fun m id => h (.matchPlayers m id), fun e => ?_⟩
    · rw [show _ = _ from h (.tickets id)]
      exact .same _
    · rw [show _ = _ from h (.matches m)]
    · obtain h | ⟨-, a, ha, ha'⟩ := h (.callbackEvents e)
      · rw [h]
      · rw [ha, ha']
        rfl
  | outcome o eventId e m hm h =>
    refine .inl ⟨fun id => ?_, fun id => ?_, fun m' id => ?_, fun e' => ?_⟩
    · rw [h.frame (.tickets id) (fun h => h) (o.dlookup_eq_none _ _ _ _ (by simp) (by simp))]
      exact .same _
    -- an outcome may set the status of the match, which is not one of its fixed columns
    · cases ho : o.matchStatus? with
      | none => rw [h.frame (.matches id) (fun h => h) (o.dlookup_match_none _ _ _ _ ho)]
      | some status =>
        by_cases hid : id = e.matchId
        · subst hid
          obtain ⟨hold, hnew⟩ := h.lookup (.matches e.matchId) (fun h => h)
            (o.dlookup_match _ _ _ _ ho)
          rw [hold, hnew]
          rfl
        · rw [h.frame (.matches id) (fun h => h) (o.dlookup_eq_none _ _ _ _ (by simp) (by simp [hid]))]
    · exact h.frame (.matchPlayers m' id) (fun h => h) (o.dlookup_eq_none _ _ _ _ (by simp) (by simp))
    · by_cases he : e' = eventId
      · subst he
        obtain ⟨hold, hnew⟩ := h.lookup (.callbackEvents e') (fun h => h) (o.dlookup_event ..)
        rw [hold, hnew]
        exact congrArg some (o.identity_apply t.start e)
      · rw [h.frame (.callbackEvents e') (fun h => h)
          (o.dlookup_eq_none _ _ _ _ (by simp [he]) (by simp))]
  -- a new ticket is the only row beside its key
  | @create settings xTenantId key body _ _ n htenant hkey hbody hpart hknown h =>
    refine .inl ⟨fun id => ?_, fun m => ?_, fun m id => ?_, fun e => ?_⟩
    · by_cases hid : id = n.ticketId
      · subst hid
        obtain ⟨hold, hnew⟩ := h.lookup (.tickets n.ticketId) (fun h => h) (n.dlookup_ticket t.start)
        rw [hold, hnew]
        exact .created n settings (by rw [htenant, hkey, hbody]) (by rw [hbody]; exact hpart)
      · rw [h.frame (.tickets id) (fun h => h) (n.dlookup_eq_none t.start (by simp [hid]) (by simp))]
        exact .same _
    · rw [h.frame (.matches m) (fun h => h) (n.dlookup_eq_none t.start (by simp) (by simp))]
    · exact h.frame (.matchPlayers m id) (fun h => h) (n.dlookup_eq_none t.start (by simp) (by simp))
    · rw [h.frame (.callbackEvents e) (fun h => h) (n.dlookup_eq_none t.start (by simp) (by simp))]

/-- How one commit changes the row of the event `e`. -/
inductive EventStep (l : Actor) (t : Txn Row) (e : UUID) :
    Option CallbackEventRow → Option CallbackEventRow → Prop
  | same (v : Option CallbackEventRow) : EventStep l t e v v
  | made (n : NewMatch) (he : e = n.eventId) : EventStep l t e none (some (n.event t.start))
  | claimed {settings : Settings} {d : String} (hl : l = .runOnce settings d) (tie : UUID → ℕ)
      (σ : Tables) (hσ : t.reads = [σ]) (he : e ∈ eligible settings tie t.start σ)
      (ev : CallbackEventRow) : EventStep l t e (some ev)
        (some (ev.claimed d settings.callbackTimeoutSeconds t.start))
  | outcome {settings : Settings} {d : String} (hl : l = .runOnce settings d) (o : Outcome)
      (ev : CallbackEventRow) : EventStep l t e (some ev) (some (o.apply t.start ev))

/-- Events are made, claimed, and given outcomes; nothing else happens to them. -/
theorem Legal.eventStep (h : Legal rt l t s) (e : UUID) :
    EventStep l t e (s.lookup (.callbackEvents e)) ((patch t.writes s).lookup (.callbackEvents e)) := by
  have hsame : (patch t.writes s).lookup (.callbackEvents e) = s.lookup (.callbackEvents e) →
      EventStep l t e (s.lookup (.callbackEvents e))
        ((patch t.writes s).lookup (.callbackEvents e)) := by
    intro heq
    rw [heq]
    exact .same _
  cases h with
  | rows h => exact hsame (l.rows_callbackEvents (h (.callbackEvents e)))
  | pair n hn hurl h =>
    by_cases he : e = n.eventId
    · subst he
      obtain ⟨hold, hnew⟩ := h.lookup (.callbackEvents n.eventId) (fun h => h)
        (n.dlookup_event t.start)
      rw [hold, hnew]
      exact .made n rfl
    · exact hsame (h.frame (.callbackEvents e) (fun h => h)
        (n.dlookup_eq_none t.start (by simp [he])))
  | claim tie σ hσ h =>
    obtain heq | ⟨he, ev, hold, hnew⟩ := h (.callbackEvents e)
    · exact hsame heq
    · rw [hold, hnew]
      exact .claimed rfl tie σ hσ he ev
  | outcome o eventId ev m hm h =>
    by_cases he : e = eventId
    · subst he
      obtain ⟨hold, hnew⟩ := h.lookup (.callbackEvents e) (fun h => h) (o.dlookup_event ..)
      rw [hold, hnew]
      exact .outcome rfl o ev
    · exact hsame (h.frame (.callbackEvents e) (fun h => h)
        (o.dlookup_eq_none _ _ _ _ (by simp [he]) (by simp)))
  | create n htenant hkey hbody hpart hknown h =>
    exact hsame (h.frame (.callbackEvents e) (fun h => h)
      (n.dlookup_eq_none t.start (by simp) (by simp)))

/-- If two rows agree on a column and one of them is there, so is the other, with the same value. -/
theorem exists_of_map_eq {α β : Type} {f : α → β} {v v' : Option α} (h : v'.map f = v.map f) {a : α}
    (ha : v' = some a) : ∃ b, v = some b ∧ f b = f a := by
  rw [ha] at h
  obtain ⟨b, hb, hab⟩ := Option.map_eq_some_iff.mp h.symm
  exact ⟨b, hb, hab⟩

/-- Every event belongs to a match that is there. -/
def Linked (s : Tables) : Prop :=
  ∀ e row, s.lookup (.callbackEvents e) = some row → ∃ m, s.lookup (.matches row.matchId) = some m

/-- No commit leaves an event without its match: they are made together, and neither is ever deleted. -/
theorem Legal.linked (h : Legal rt l t s) (hs : Linked s) : Linked (patch t.writes s) := by
  intro e row' hrow'
  obtain hun | ⟨n, -, -, -, hchanged⟩ := h.unpaired_or_makes
  · obtain ⟨row, hrow, hid⟩ := exists_of_map_eq (hun.events e) hrow'
    have hmatch : row.matchId = row'.matchId := congrArg (fun p => p.2.1) hid
    obtain ⟨m, hm⟩ := hs e row hrow
    obtain ⟨m', hm', -⟩ := h.persist (.matches row.matchId) trivial m hm
    exact ⟨m', hmatch ▸ hm'⟩
  · by_cases he : e = n.eventId
    · subst he
      have hnew := (hchanged.lookup (.callbackEvents n.eventId) (fun h => h)
        (n.dlookup_event t.start)).2
      obtain rfl := Option.some.inj (hrow'.symm.trans hnew)
      exact ⟨n.matchRow t.start,
        (hchanged.lookup (.matches n.matchId) (fun h => h) (n.dlookup_match t.start)).2⟩
    · have hframe := hchanged.frame (.callbackEvents e) (fun h => h)
        (n.dlookup_eq_none t.start (by simp [he]))
      obtain ⟨m, hm⟩ := hs e row' (hframe.symm.trans hrow')
      obtain ⟨m', hm', -⟩ := h.persist (.matches row'.matchId) trivial m hm
      exact ⟨m', hm'⟩

/-! ## Where tickets and keys come from -/

/-- A request for the ticket, with the partition of its queue. -/
structure NewTicket.RequestedBy (rt : Runtime) (n : NewTicket) (settings : Settings)
    (xTenantId key : Option String) (body : TicketCreate) : Prop where
  tenantId : xTenantId = some n.tenantId
  key : n.key = key
  body : n.body = body
  partition : n.partitionId = computePartitionId rt n.tenantId n.body.region n.body.queueName
    settings.matchmakingPartitions

/-- Actor `l` creates the ticket `n` by committing transaction `t` on the store `s`. -/
structure Creates (rt : Runtime) (l : Actor) (t : Txn Row) (s : Tables) (n : NewTicket) : Prop where
  request : ∃ settings xTenantId key body, l = .createTicket settings xTenantId key body ∧
    n.RequestedBy rt settings xTenantId key body
  known : (s.lookup (.tenants n.tenantId)).isSome = true
  changed : Changed IsIndexKey (n.changes rt t.start) s (patch t.writes s)

theorem Actor.rows_no_ticket (l : Actor) {now : Time} {id : UUID} {v' : Option Ticket}
    (h : l.rows now (.tickets id) none v') : v' = none := by
  cases l with
  | runLoop settings workerId offset =>
    obtain h | ⟨_, ha, -⟩ := h
    · exact h
    · cases ha
  | cancelTicket xTenantId ticketId =>
    cases xTenantId with
    | none => exact h
    | some tenantId =>
      obtain h | ⟨_, ha, -⟩ := h
      · exact h
      · cases ha
  | _ => exact h

/-- A commit with a new ticket is that of a request. -/
theorem Legal.new_ticket (h : Legal rt l t s) {id : UUID} {ticket : Ticket}
    (hold : s.lookup (.tickets id) = none)
    (hnew : (patch t.writes s).lookup (.tickets id) = some ticket) :
    ∃ n : NewTicket, n.ticketId = id ∧ ticket = n.ticket t.start ∧ Creates rt l t s n := by
  have hframe : (patch t.writes s).lookup (.tickets id) = s.lookup (.tickets id) → False := fun h => by
    cases hold.symm.trans (h.symm.trans hnew)
  cases h with
  | rows h => cases (l.rows_no_ticket (hold ▸ h (.tickets id))).symm.trans hnew
  | pair n hn hurl h =>
    refine (hframe (h.frame (.tickets id) (fun h => h) (n.dlookup_eq_none t.start ?_))).elim
    have hfirst := (h.lookup (.tickets n.firstId) (fun h => h) (n.dlookup_first t.start hn.apart)).1
    have hsecond := (h.lookup (.tickets n.secondId) (fun h => h) (n.dlookup_second t.start)).1
    have h₁ : id ≠ n.firstId := fun heq => by cases hold.symm.trans (heq ▸ hfirst)
    have h₂ : id ≠ n.secondId := fun heq => by cases hold.symm.trans (heq ▸ hsecond)
    simp [h₁, h₂]
  | claim tie σ hσ h => exact (hframe (h (.tickets id))).elim
  | outcome o eventId e m hm h =>
    exact (hframe (h.frame (.tickets id) (fun h => h)
      (o.dlookup_eq_none _ _ _ _ (by simp) (by simp)))).elim
  | create n htenant hkey hbody hpart hknown h =>
    by_cases hid : id = n.ticketId
    · subst hid
      have hticket := (h.lookup (.tickets n.ticketId) (fun h => h) (n.dlookup_ticket t.start)).2
      exact ⟨n, rfl, Option.some.inj (hnew.symm.trans hticket),
        ⟨_, _, _, _, rfl, htenant, hkey, hbody, hbody ▸ hpart⟩, hknown, h⟩
    · exact (hframe (h.frame (.tickets id) (fun h => h)
        (n.dlookup_eq_none t.start (by simp [hid]) (by simp)))).elim

/-- After a commit, the row of a key is the one from before or that of a new ticket. -/
theorem Legal.key_origin (h : Legal rt l t s) {tenantId key : String} {row' : IdempotencyKey}
    (hrow' : (patch t.writes s).lookup (.idempotencyKeys tenantId key) = some row') :
    s.lookup (.idempotencyKeys tenantId key) = some row' ∨
      ∃ n, Creates rt l t s n ∧ n.tenantId = tenantId ∧ n.key = some key ∧ row' = n.keyRow rt t.start := by
  have hold : ∀ ps : Changes Row, Changed IsIndexKey ps s (patch t.writes s) →
      ps.dlookup (.idempotencyKeys tenantId key) = none →
      s.lookup (.idempotencyKeys tenantId key) = some row' := fun ps hps hnone =>
    (hps.frame (.idempotencyKeys tenantId key) (fun h => h) hnone).symm.trans hrow'
  cases h with
  | rows h =>
    exact .inl ((@Actor.rows_record l _ (.idempotencyKeys tenantId key) trivial _ _
      (h (.idempotencyKeys tenantId key))).symm.trans hrow')
  | pair n hn hurl h => exact .inl (hold _ h (n.dlookup_eq_none t.start (by simp)))
  | claim tie σ hσ h => exact .inl ((h (.idempotencyKeys tenantId key)).symm.trans hrow')
  | outcome o eventId e m hm h =>
    exact .inl (hold _ h (o.dlookup_eq_none _ _ _ _ (by simp) (by simp)))
  | create n htenant hkey hbody hpart hknown h =>
    by_cases hk : n.tenantId = tenantId ∧ n.key = some key
    · obtain ⟨rfl, hk⟩ := hk
      have hnew := (h.lookup (.idempotencyKeys n.tenantId key) (fun h => h)
        (n.dlookup_key t.start hk)).2
      exact .inr ⟨n, ⟨⟨_, _, _, _, rfl, htenant, hkey, hbody, hbody ▸ hpart⟩, hknown, h⟩, rfl, hk,
        Option.some.inj (hrow'.symm.trans hnew)⟩
    · refine .inl (hold _ h (n.dlookup_eq_none t.start (by simp) fun key' hkey' heq => hk ?_))
      cases heq
      exact ⟨rfl, hkey'⟩

/-- Only known tenants have keys, since a request is turned down before that otherwise. -/
def KeysKnown (s : Tables) : Prop :=
  ∀ tenantId key row, s.lookup (.idempotencyKeys tenantId key) = some row →
    (s.lookup (.tenants tenantId)).isSome = true

/-- A tenant that is known stays known. -/
theorem Persist.tenant {s s' : Tables} (h : Persist s s') {tenantId : String}
    (htenant : (s.lookup (.tenants tenantId)).isSome = true) :
    (s'.lookup (.tenants tenantId)).isSome = true := by
  obtain ⟨tenant, ht⟩ := Option.isSome_iff_exists.mp htenant
  obtain ⟨tenant', ht', -⟩ := h (.tenants tenantId) trivial tenant ht
  exact Option.isSome_iff_exists.mpr ⟨tenant', ht'⟩

/-- A key that has a row keeps it. -/
theorem Persist.key {s s' : Tables} (h : Persist s s') {tenantId key : String} {row : IdempotencyKey}
    (hrow : s.lookup (.idempotencyKeys tenantId key) = some row) :
    s'.lookup (.idempotencyKeys tenantId key) = some row := by
  obtain ⟨row', hrow', rfl⟩ := h (.idempotencyKeys tenantId key) trivial row hrow
  exact hrow'

/-- No commit leaves an idempotency key without its tenant. -/
theorem Legal.keysKnown (h : Legal rt l t s) (hs : KeysKnown s) : KeysKnown (patch t.writes s) := by
  intro tenantId key row' hrow'
  obtain hrow | ⟨n, hcreates, rfl, -, -⟩ := h.key_origin hrow'
  · exact h.persist.tenant (hs tenantId key row' hrow)
  · exact h.persist.tenant hcreates.known

end Matchmaking
