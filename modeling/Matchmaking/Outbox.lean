import Matchmaking.Integrity

/-!
# The outbox of callback events

A match and its callback event are written by one commit. Every row of the two tables can be traced to
the logged commit that brought it in, and what the event says about the match stays true.
-/

namespace Matchmaking

open ReadCommitted

variable {rt : Runtime} {l : Actor} {now : Time} {t : Txn Row} {s s' : Tables} {n : NewMatch}

/-! ## A match, its event and its players -/

/-- The rows of the match `n`, made at `now`: still there, and unchanged but for statuses. -/
structure Announced (n : NewMatch) (now : Time) (s : Tables) : Prop where
  event : ∃ ev, s.lookup (.callbackEvents n.eventId) = some ev ∧
    ev.identity = (n.event now).identity
  matchRow : ∃ row, s.lookup (.matches n.matchId) = some row ∧
    row.identity = (n.matchRow now).identity
  players : ∀ id p, s.lookup (.matchPlayers n.matchId id) = some p ↔
    id = n.firstId ∧ p = ⟨n.first.playerId⟩ ∨ id = n.secondId ∧ p = ⟨n.second.playerId⟩

theorem Unpaired.announced (h : Unpaired rt l now s s') {made : Time} (hn : Announced n made s) :
    Announced n made s' where
  event := by
    obtain ⟨ev, hev, hid⟩ := hn.event
    obtain ⟨ev', hev', hid'⟩ := exists_of_map_eq (h.events _).symm hev
    exact ⟨ev', hev', hid'.trans hid⟩
  matchRow := by
    obtain ⟨row, hrow, hid⟩ := hn.matchRow
    obtain ⟨row', hrow', hid'⟩ := exists_of_map_eq (h.matchRows _).symm hrow
    exact ⟨row', hrow', hid'.trans hid⟩
  players id p := by
    rw [h.players]
    exact hn.players id p

namespace Makes

variable (h : Makes l t s n)

include h

theorem event_fresh : s.lookup (.callbackEvents n.eventId) = none :=
  (h.changed.lookup (.callbackEvents n.eventId) (fun h => h) (n.dlookup_event t.start)).1

theorem match_fresh : s.lookup (.matches n.matchId) = none :=
  (h.changed.lookup (.matches n.matchId) (fun h => h) (n.dlookup_match t.start)).1

theorem event_new : (patch t.writes s).lookup (.callbackEvents n.eventId) = some (n.event t.start) :=
  (h.changed.lookup (.callbackEvents n.eventId) (fun h => h) (n.dlookup_event t.start)).2

theorem match_new : (patch t.writes s).lookup (.matches n.matchId) = some (n.matchRow t.start) :=
  (h.changed.lookup (.matches n.matchId) (fun h => h) (n.dlookup_match t.start)).2

theorem frame_event {e : UUID} (he : e ≠ n.eventId) :
    (patch t.writes s).lookup (.callbackEvents e) = s.lookup (.callbackEvents e) :=
  h.changed.frame (.callbackEvents e) (fun h => h) (n.dlookup_eq_none t.start (by simp [he]))

/-- Older matches are left alone. -/
theorem announced {n' : NewMatch} {made : Time} (hn : Announced n' made s) :
    Announced n' made (patch t.writes s) where
  event := by
    obtain ⟨ev, hev, hid⟩ := hn.event
    have hne : n'.eventId ≠ n.eventId := fun heq => by cases (heq ▸ hev).symm.trans h.event_fresh
    exact ⟨ev, (h.frame_event hne).trans hev, hid⟩
  matchRow := by
    obtain ⟨row, hrow, hid⟩ := hn.matchRow
    have hne : n'.matchId ≠ n.matchId := fun heq => by cases (heq ▸ hrow).symm.trans h.match_fresh
    exact ⟨row, (NewMatch.frame_match h.changed hne).trans hrow, hid⟩
  players id p := by
    obtain ⟨row, hrow, -⟩ := hn.matchRow
    have hne : n'.matchId ≠ n.matchId := fun heq => by cases (heq ▸ hrow).symm.trans h.match_fresh
    rw [NewMatch.frame_player h.changed (.inl hne)]
    exact hn.players id p

/-- The new match is complete. -/
theorem announced_new (hs : Paired s) : Announced n t.start (patch t.writes s) where
  event := ⟨_, h.event_new, rfl⟩
  matchRow := ⟨_, h.match_new, rfl⟩
  players id p := by
    have hfirst := (h.changed.lookup (.matchPlayers n.matchId n.firstId) (fun h => h)
      (n.dlookup_firstPlayer t.start h.compatible.apart)).2
    have hsecond := (h.changed.lookup (.matchPlayers n.matchId n.secondId) (fun h => h)
      (n.dlookup_secondPlayer t.start)).2
    constructor
    · intro hp
      obtain rfl | rfl := (NewMatch.players_iff h.changed h.compatible hs id).mp (by rw [hp]; rfl)
      · exact .inl ⟨rfl, Option.some.inj (hp.symm.trans hfirst)⟩
      · exact .inr ⟨rfl, Option.some.inj (hp.symm.trans hsecond)⟩
    · rintro (⟨rfl, rfl⟩ | ⟨rfl, rfl⟩)
      · exact hfirst
      · exact hsecond

end Makes

/-! ## Where matches and events come from -/

/-- A logged commit made the match `n` at `now`, to tables in which its tenant had the URL of the event. -/
def MadeIn (log : List LogEntry) (n : NewMatch) (now : Time) : Prop :=
  ∃ e ∈ log, ∃ t b, e.event.commit? = some (t, b) ∧ Makes e.actor t b n ∧ t.start = now

/-- Matches and events come in pairs, each from a logged commit. -/
structure Outbox (log : List LogEntry) (s : Tables) : Prop where
  paired : Paired s
  ofMatch : ∀ m row, s.lookup (.matches m) = some row →
    ∃ n now, MadeIn log n now ∧ n.matchId = m ∧ Announced n now s
  ofEvent : ∀ e ev, s.lookup (.callbackEvents e) = some ev →
    ∃ n now, MadeIn log n now ∧ n.eventId = e ∧ Announced n now s
  oneEvent : ∀ e e' ev ev', s.lookup (.callbackEvents e) = some ev →
    s.lookup (.callbackEvents e') = some ev' → ev.matchId = ev'.matchId → e = e'

namespace Outbox

variable {log : List LogEntry}

theorem empty : Outbox log ∅ :=
  ⟨.empty, fun _ _ h => (by cases h), fun _ _ h => (by cases h), fun _ _ _ _ h => by cases h⟩

theorem unpaired (h : Outbox log s) (hun : Unpaired rt l now s s') : Outbox log s' where
  paired := hun.paired h.paired
  ofMatch m row' hrow' := by
    obtain ⟨row, hrow, -⟩ := exists_of_map_eq (hun.matchRows m) hrow'
    obtain ⟨n, made, hmade, hm, hann⟩ := h.ofMatch m row hrow
    exact ⟨n, made, hmade, hm, hun.announced hann⟩
  ofEvent e ev' hev' := by
    obtain ⟨ev, hev, -⟩ := exists_of_map_eq (hun.events e) hev'
    obtain ⟨n, made, hmade, he, hann⟩ := h.ofEvent e ev hev
    exact ⟨n, made, hmade, he, hun.announced hann⟩
  oneEvent e₁ e₂ ev₁' ev₂' h₁ h₂ heq := by
    obtain ⟨ev₁, hev₁, hid₁⟩ := exists_of_map_eq (hun.events e₁) h₁
    obtain ⟨ev₂, hev₂, hid₂⟩ := exists_of_map_eq (hun.events e₂) h₂
    have hm₁ : ev₁.matchId = ev₁'.matchId := congrArg (fun p => p.2.1) hid₁
    have hm₂ : ev₂.matchId = ev₂'.matchId := congrArg (fun p => p.2.1) hid₂
    exact h.oneEvent e₁ e₂ ev₁ ev₂ hev₁ hev₂ (by rw [hm₁, hm₂, heq])

/-- The match of an event exists. -/
theorem linked (h : Outbox log s) {e : UUID} {ev : CallbackEventRow}
    (hev : s.lookup (.callbackEvents e) = some ev) :
    ∃ row, s.lookup (.matches ev.matchId) = some row := by
  obtain ⟨n, made, -, rfl, hann⟩ := h.ofEvent e ev hev
  obtain ⟨ev', hev', hid⟩ := hann.event
  obtain ⟨row, hrow, -⟩ := hann.matchRow
  obtain rfl := Option.some.inj (hev.symm.trans hev')
  have hm : ev.matchId = n.matchId := congrArg (fun p => p.2.1) hid
  exact ⟨row, hm ▸ hrow⟩

/-- A match has exactly one event. -/
theorem existsUnique_event (h : Outbox log s) {m : UUID} {row : Match}
    (hrow : s.lookup (.matches m) = some row) :
    ∃! e, ∃ ev, s.lookup (.callbackEvents e) = some ev ∧ ev.matchId = m := by
  obtain ⟨n, made, -, rfl, hann⟩ := h.ofMatch m row hrow
  obtain ⟨ev, hev, hid⟩ := hann.event
  have hm : ev.matchId = n.matchId := congrArg (fun p => p.2.1) hid
  refine ⟨n.eventId, ⟨ev, hev, hm⟩, ?_⟩
  rintro e ⟨ev', hev', hm'⟩
  exact h.oneEvent e n.eventId ev' ev hev' hev (hm'.trans hm.symm)

theorem makes (h : Outbox log s) (hmakes : Makes l t s n) (hmade : MadeIn log n t.start) :
    Outbox log (patch t.writes s) := by
  have hnew := hmakes.announced_new h.paired
  -- an older event is one of another match
  have hold : ∀ e ev, e ≠ n.eventId → (patch t.writes s).lookup (.callbackEvents e) = some ev →
      ev.matchId ≠ n.matchId := by
    intro e ev he hev heq
    obtain ⟨row, hrow⟩ := h.linked ((hmakes.frame_event he).symm.trans hev)
    cases (heq ▸ hrow).symm.trans hmakes.match_fresh
  have hevent : ∀ ev, (patch t.writes s).lookup (.callbackEvents n.eventId) = some ev →
      ev.matchId = n.matchId := by
    intro ev hev
    obtain rfl := Option.some.inj (hmakes.event_new.symm.trans hev)
    rfl
  refine ⟨NewMatch.paired hmakes.changed hmakes.compatible h.paired, ?_, ?_, ?_⟩
  · intro m row hrow
    by_cases hm : m = n.matchId
    · exact ⟨n, t.start, hmade, hm.symm, hnew⟩
    · obtain ⟨n', made, hmade', hm', hann⟩ :=
        h.ofMatch m row ((NewMatch.frame_match hmakes.changed hm).symm.trans hrow)
      exact ⟨n', made, hmade', hm', hmakes.announced hann⟩
  · intro e ev hev
    by_cases he : e = n.eventId
    · exact ⟨n, t.start, hmade, he.symm, hnew⟩
    · obtain ⟨n', made, hmade', he', hann⟩ := h.ofEvent e ev ((hmakes.frame_event he).symm.trans hev)
      exact ⟨n', made, hmade', he', hmakes.announced hann⟩
  · intro e₁ e₂ ev₁ ev₂ h₁ h₂ heq
    by_cases he₁ : e₁ = n.eventId <;> by_cases he₂ : e₂ = n.eventId
    · exact he₁.trans he₂.symm
    · subst he₁
      exact absurd (heq.symm.trans (hevent ev₁ h₁)) (hold e₂ ev₂ he₂ h₂)
    · subst he₂
      exact absurd (heq.trans (hevent ev₂ h₂)) (hold e₁ ev₁ he₁ h₁)
    · exact h.oneEvent e₁ e₂ ev₁ ev₂ ((hmakes.frame_event he₁).symm.trans h₁)
        ((hmakes.frame_event he₂).symm.trans h₂) heq

end Outbox

/-- The outbox of every committed state. -/
theorem Past.outbox {w : ServiceWorld} (h : Past rt w) : Outbox w.log w.committed := by
  refine h.history.chained.invariant .empty fun e he t b hc hb => ?_
  obtain hun | ⟨n, hmakes⟩ := (h.legal he hc).unpaired_or_makes
  · exact hb.unpaired hun
  · exact hb.makes hmakes ⟨e, he, t, b, hc, hmakes, rfl⟩

/-! ## What an event says -/

/-- The entry of the payload's `players` for one `match_players` row. -/
def playerEntry (ticketId : UUID) (p : MatchPlayer) : Json :=
  .obj [("player_id", .str p.playerId), ("ticket_id", .str (uuidText ticketId))]

/-- The payload of the event `e` describes the match `m`. -/
structure Describes (s : Tables) (payload : Json) (e m : UUID) (row : Match) : Prop where
  eventId : payload.get? "event_id" = some (.str (uuidText e))
  matchId : payload.get? "match_id" = some (.str (uuidText m))
  tenantId : payload.get? "tenant_id" = some (.str row.tenantId)
  region : payload.get? "region" = some (.str row.region)
  queueName : payload.get? "queue_name" = some (.str row.queueName)
  players : ∃ items, payload.get? "players" = some (.arr items) ∧
    ∀ j, j ∈ items ↔ ∃ id p, s.lookup (.matchPlayers m id) = some p ∧ j = playerEntry id p

/-- The URL is the tenant's, or the default, as the transaction that made the match read it. -/
def UrlWhenMade (log : List LogEntry) (m : UUID) (tenantId url : String) : Prop :=
  ∃ entry ∈ log, ∃ t b, entry.event.commit? = some (t, b) ∧ b.lookup (.matches m) = none ∧
    ((patch t.writes b).lookup (.matches m)).isSome = true ∧ ∃ σ ∈ t.reads, ∃ tenant,
      σ.lookup (.tenants tenantId) = some tenant ∧ url = tenant.callbackUrl.getD defaultCallbackUrl

/-- An event goes with its match: it names the match and tells of it, and was made for the URL of that
time. -/
structure Notifies (log : List LogEntry) (s : Tables) (e : UUID) (ev : CallbackEventRow)
    (row : Match) : Prop where
  tenantId : ev.tenantId = row.tenantId
  callbackUrl : UrlWhenMade log ev.matchId row.tenantId ev.callbackUrl
  payload : Describes s ev.payload e ev.matchId row

theorem Announced.describes (h : Announced n now s) {row : Match}
    (hrow : s.lookup (.matches n.matchId) = some row) :
    Describes s (n.payload now) n.eventId n.matchId row := by
  obtain ⟨row', hrow', hid⟩ := h.matchRow
  obtain rfl := Option.some.inj (hrow.symm.trans hrow')
  simp only [Match.identity, NewMatch.matchRow, Prod.mk.injEq] at hid
  refine ⟨rfl, rfl, ?_, ?_, ?_, _, rfl, fun j => ?_⟩
  · rw [hid.1]
    rfl
  · rw [hid.2.1]
    rfl
  · rw [hid.2.2.1]
    rfl
  · simp only [List.mem_cons, List.not_mem_nil, or_false]
    constructor
    · rintro (rfl | rfl)
      · exact ⟨n.firstId, _, (h.players _ _).mpr (.inl ⟨rfl, rfl⟩), rfl⟩
      · exact ⟨n.secondId, _, (h.players _ _).mpr (.inr ⟨rfl, rfl⟩), rfl⟩
    · rintro ⟨id, p, hp, rfl⟩
      obtain ⟨rfl, rfl⟩ | ⟨rfl, rfl⟩ := (h.players id p).mp hp
      · exact .inl rfl
      · exact .inr rfl

theorem MadeIn.url {log : List LogEntry} (h : MadeIn log n now) :
    UrlWhenMade log n.matchId n.first.tenantId n.url := by
  obtain ⟨entry, hentry, t, b, hc, hmakes, -⟩ := h
  refine ⟨entry, hentry, t, b, hc, hmakes.match_fresh, ?_, hmakes.url⟩
  rw [hmakes.match_new]
  rfl

theorem Outbox.notifies {log : List LogEntry} (h : Outbox log s) {e : UUID} {ev : CallbackEventRow}
    (hev : s.lookup (.callbackEvents e) = some ev) :
    ∃ row, s.lookup (.matches ev.matchId) = some row ∧ Notifies log s e ev row := by
  obtain ⟨n, made, hmade, rfl, hann⟩ := h.ofEvent e ev hev
  obtain ⟨ev', hev', hid⟩ := hann.event
  obtain rfl := Option.some.inj (hev.symm.trans hev')
  simp only [CallbackEventRow.identity, NewMatch.event, Prod.mk.injEq] at hid
  obtain ⟨htenant, hmatch, -, hurl, hpayload, -⟩ := hid
  obtain ⟨row, hrow, hrowid⟩ := hann.matchRow
  have hrowTenant : row.tenantId = n.first.tenantId := congrArg (fun p => p.1) hrowid
  refine ⟨row, hmatch ▸ hrow, ⟨htenant.trans hrowTenant.symm, ?_, ?_⟩⟩
  · rw [hmatch, hrowTenant, hurl]
    exact hmade.url
  · rw [hmatch, hpayload]
    exact hann.describes hrow

/-- **Transactional outbox.** In every committed state each match has exactly one event, each event has
its match and describes it, and no round of a dispatcher changes what an event says. -/
theorem transactional_outbox {clock : Time} {s : ServiceState}
    (hs : (service rt).Reachable (emptyState clock) s) :
    (∀ m row, s.world.committed.lookup (.matches m) = some row →
      ∃! e, ∃ ev, s.world.committed.lookup (.callbackEvents e) = some ev ∧ ev.matchId = m) ∧
    (∀ e ev, s.world.committed.lookup (.callbackEvents e) = some ev →
      ∃ row, s.world.committed.lookup (.matches ev.matchId) = some row ∧
        Notifies s.world.log s.world.committed e ev row) ∧
    ∀ entry ∈ s.world.log, ∀ settings dispatcherId, entry.actor = .runOnce settings dispatcherId →
      ∀ t b, entry.event.commit? = some (t, b) → ∀ e,
        ((patch t.writes b).lookup (.callbackEvents e)).map CallbackEventRow.identity
          = (b.lookup (.callbackEvents e)).map CallbackEventRow.identity := by
  have hpast := service_past hs
  have houtbox := hpast.outbox
  refine ⟨fun m row hrow => houtbox.existsUnique_event hrow, fun e ev hev => houtbox.notifies hev, ?_⟩
  intro entry hentry settings dispatcherId hactor t b hc e
  obtain hun | ⟨n, hmakes⟩ := (hpast.legal hentry hc).unpaired_or_makes
  · exact hun.events e
  · obtain ⟨_, _, _, hworker⟩ := hmakes.worker
    cases hactor.symm.trans hworker

/-- The sample run delivers an event. -/
theorem transactional_outbox_sample :
    (sampleState.world.committed.lookup (.callbackEvents 0x40)).isSome = true ∧
    ∀ e ev, sampleState.world.committed.lookup (.callbackEvents e) = some ev →
      ∃ row, sampleState.world.committed.lookup (.matches ev.matchId) = some row ∧
        Notifies sampleState.world.log sampleState.world.committed e ev row :=
  ⟨by decide +kernel, (transactional_outbox sampleState_reachable).2.1⟩

end Matchmaking
