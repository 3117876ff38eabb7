import Matchmaking.DataIsolation
import Matchmaking.Reservations
import Matchmaking.TicketOutcomes

/-!
# What the tables say about each other

The model's store does not check foreign keys, and it need not: in every committed state each reference of
`schema.sql` leads to a row, copied columns agree with their originals, and the columns that go with a
status are set as the status says.
-/

namespace Matchmaking

open ReadCommitted

variable {rt : Runtime} {l : Actor} {t : Txn Row} {s : Tables}

/-! ## What a commit does to a ticket -/

/-- A new match changes the row of a ticket. -/
structure TakenBy (l : Actor) (t : Txn Row) (s : Tables) (n : NewMatch) (tk : Ticket)
    (v v' : Option Ticket) : Prop where
  makes : Makes l t s n
  before : v = some tk
  waiting : tk.status = .waiting
  after : v' = some (tk.matchedWith n.matchId t.start)

/-- A commit changes the row of a ticket by a step of its actor, or by a new match. -/
theorem Legal.ticketStep (h : Legal rt l t s) (id : UUID) :
    TicketStep rt l t.start (s.lookup (.tickets id)) ((patch t.writes s).lookup (.tickets id)) ∨
      ∃ n tk, TakenBy l t s n tk (s.lookup (.tickets id)) ((patch t.writes s).lookup (.tickets id)) := by
  obtain hun | ⟨n, hmakes⟩ := h.unpaired_or_makes
  · exact .inl (hun.tickets id)
  have hn := hmakes.compatible
  by_cases h₁ : id = n.firstId
  · subst h₁
    obtain ⟨hold, hnew⟩ := hmakes.changed.lookup (.tickets n.firstId) (fun h => h)
      (n.dlookup_first t.start hn.apart)
    exact .inr ⟨n, n.first, hmakes, hold, hn.firstWaiting, hnew⟩
  by_cases h₂ : id = n.secondId
  · subst h₂
    obtain ⟨hold, hnew⟩ := hmakes.changed.lookup (.tickets n.secondId) (fun h => h) (n.dlookup_second t.start)
    exact .inr ⟨n, n.second, hmakes, hold, hn.secondWaiting, hnew⟩
  rw [NewMatch.frame_ticket hmakes.changed ⟨h₁, h₂⟩]
  exact .inl (.same _)

/-! ## Foreign keys -/

/-- Tickets are of tenants that exist. -/
def TicketsKnown (s : Tables) : Prop :=
  ∀ id tk, s.lookup (.tickets id) = some tk → (s.lookup (.tenants tk.tenantId)).isSome = true

theorem Legal.ticketsKnown (h : Legal rt l t s) (hs : TicketsKnown s) : TicketsKnown (patch t.writes s) := by
  intro id tk' htk'
  cases hold : s.lookup (.tickets id) with
  | none =>
    obtain ⟨n, -, rfl, hcreates⟩ := h.new_ticket hold htk'
    exact h.persist.tenant hcreates.known
  | some tk =>
    obtain ⟨tk'', htk'', hid⟩ := h.persist (.tickets id) trivial tk hold
    obtain rfl := Option.some.inj (htk''.symm.trans htk')
    have htenant : tk''.tenantId = tk.tenantId := congrArg (fun p => p.1) hid
    rw [htenant]
    exact h.persist.tenant (hs id tk hold)

/-- A key names a ticket of its tenant. -/
def KeysLinked (s : Tables) : Prop :=
  ∀ tenantId key row, s.lookup (.idempotencyKeys tenantId key) = some row →
    ∃ id tk, row.ticketId = some id ∧ s.lookup (.tickets id) = some tk ∧ tk.tenantId = tenantId

theorem Legal.keysLinked (h : Legal rt l t s) (hs : KeysLinked s) : KeysLinked (patch t.writes s) := by
  intro tenantId key row hrow
  obtain hold | ⟨n, hcreates, rfl, -, rfl⟩ := h.key_origin hrow
  · obtain ⟨id, tk, hid, htk, htenant⟩ := hs tenantId key row hold
    obtain ⟨tk', htk', hkept⟩ := h.persist (.tickets id) trivial tk htk
    exact ⟨id, tk', hid, htk', (congrArg (fun p => p.1) hkept).trans htenant⟩
  · have hnew := (hcreates.changed.lookup (.tickets n.ticketId) (fun h => h) (n.dlookup_ticket t.start)).2
    exact ⟨n.ticketId, n.ticket t.start, rfl, hnew, rfl⟩

/-- The foreign keys of the schema, and the columns that are copies. -/
structure Referential (s : Tables) : Prop where
  ticket : ∀ id tk, s.lookup (.tickets id) = some tk → (s.lookup (.tenants tk.tenantId)).isSome = true ∧
    ∀ m, tk.matchId = some m → (s.lookup (.matches m)).isSome = true
  matchRow : ∀ m row, s.lookup (.matches m) = some row → (s.lookup (.tenants row.tenantId)).isSome = true
  player : ∀ m id p, s.lookup (.matchPlayers m id) = some p → (s.lookup (.matches m)).isSome = true ∧
    ∃ tk, s.lookup (.tickets id) = some tk ∧ tk.playerId = p.playerId
  key : ∀ tenantId key row, s.lookup (.idempotencyKeys tenantId key) = some row →
    (s.lookup (.tenants tenantId)).isSome = true ∧ ∃ id tk, row.ticketId = some id ∧
      s.lookup (.tickets id) = some tk ∧ tk.tenantId = tenantId
  event : ∀ e ev, s.lookup (.callbackEvents e) = some ev →
    (s.lookup (.tenants ev.tenantId)).isSome = true ∧ ∃ row, s.lookup (.matches ev.matchId) = some row ∧
      row.tenantId = ev.tenantId

/-- **Foreign keys.** In every committed state, every reference of the schema leads to a row. It is proved
from what the commits write: a row is written after, or together with, the rows that it refers to, and those
are never deleted. -/
theorem foreign_keys_hold {clock : Time} {s : ServiceState}
    (hs : (service rt).Reachable (emptyState clock) s) : Referential s.world.committed := by
  have hpast := service_past hs
  have hpaired : Paired s.world.committed := hpast.outbox.paired
  have hknown : TicketsKnown s.world.committed :=
    hpast.invariant (fun _ _ h => by cases h) fun _ _ _ => Legal.ticketsKnown
  have hkeys : KeysKnown s.world.committed :=
    hpast.invariant (fun _ _ _ h => by cases h) fun _ _ _ => Legal.keysKnown
  have hlinked : KeysLinked s.world.committed :=
    hpast.invariant (fun _ _ _ h => by cases h) fun _ _ _ => Legal.keysLinked
  have hsound : MatchIdsSound s.world.committed :=
    hpast.invariant (fun _ _ h => by cases h) fun _ _ _ => Legal.matchIdsSound
  have hmatch : ∀ m row, s.world.committed.lookup (.matches m) = some row →
      (s.world.committed.lookup (.tenants row.tenantId)).isSome = true := by
    intro m row hrow
    obtain ⟨a, _, -, hplayers⟩ := hpaired.players m row hrow
    obtain ⟨tk, row', htk, hrow', -, -, htenant, -⟩ := hpaired.player m a ((hplayers a).mpr (.inl rfl))
    obtain rfl := Option.some.inj (hrow.symm.trans hrow')
    rw [← htenant]
    exact hknown a tk htk
  refine ⟨fun id tk htk => ⟨hknown id tk htk, fun m hm => ?_⟩, hmatch, fun m id p hp => ?_,
    fun tenantId key row hrow => ⟨hkeys tenantId key row hrow, hlinked tenantId key row hrow⟩,
    fun e ev hev => ?_⟩
  · have hst : tk.status = .matched := by
      by_contra hst
      cases hm.symm.trans (hsound id tk htk hst)
    obtain ⟨m', hplayer⟩ := hpaired.matched id tk htk hst
    obtain rfl := Option.some.inj ((hpaired.matchId_eq hplayer htk).2.symm.trans hm)
    exact hpaired.integrity.ofMatch m' id hplayer
  · have hplayer : (s.world.committed.lookup (.matchPlayers m id)).isSome = true := by rw [hp]; rfl
    exact ⟨hpaired.integrity.ofMatch m id hplayer, hpast.playersOwn.named m id p hp⟩
  · obtain ⟨row, hrow, hnotifies⟩ := hpast.outbox.notifies hev
    rw [hnotifies.tenantId]
    exact ⟨hmatch _ row hrow, row, hrow, rfl⟩

/-- The sample run has a match with a player of a ticket with a key. -/
theorem foreign_keys_hold_sample :
    (sampleState.world.committed.lookup (.idempotencyKeys "studio_a" "k")).isSome = true ∧
      (sampleState.world.committed.lookup (.matchPlayers 0x3f 0x2b)).isSome = true ∧
      Referential sampleState.world.committed :=
  ⟨by decide +kernel, by decide +kernel, foreign_keys_hold sampleState_reachable⟩

/-! ## Columns that go with a status -/

/-- The columns of a ticket are those of its status. -/
def Ticket.InOrder (s : Tables) (tk : Ticket) : Prop :=
  match tk.status with
  | .waiting => tk.updatedAt = tk.createdAt ∧ tk.matchId = none ∧ tk.matchedAt = none ∧ tk.cancelledAt = none
  | .reserved => False
  | .matched => tk.matchedAt = some tk.updatedAt ∧ tk.cancelledAt = none ∧
      ∃ m row, tk.matchId = some m ∧ s.lookup (.matches m) = some row ∧ tk.updatedAt = row.createdAt
  | .cancelled => tk.cancelledAt = some tk.updatedAt ∧ tk.matchId = none ∧ tk.matchedAt = none

/-- All tickets. -/
def TicketsInOrder (s : Tables) : Prop := ∀ id tk, s.lookup (.tickets id) = some tk → tk.InOrder s

/-- Matches keep the time of their creation. -/
theorem Ticket.InOrder.persist {s' : Tables} {tk : Ticket} (h : tk.InOrder s) (hs : Persist s s') :
    tk.InOrder s' := by
  unfold InOrder at h ⊢
  split
  · next hst => simpa only [hst] using h
  · next hst => simp only [hst] at h
  · next hst =>
    simp only [hst] at h
    obtain ⟨hmatched, hcancelled, m, row, hm, hrow, htime⟩ := h
    obtain ⟨row', hrow', hid⟩ := hs (.matches m) trivial row hrow
    have hcreated : row'.createdAt = row.createdAt := congrArg (fun p => p.2.2.2.2) hid
    exact ⟨hmatched, hcancelled, m, row', hm, hrow', htime.trans hcreated.symm⟩
  · next hst => simpa only [hst] using h

/-- Only a waiting ticket is cancelled: there are no reserved ones. -/
theorem TicketStep.inOrder {now : Time} {v : Option Ticket} {tk' : Ticket}
    (h : TicketStep rt l now v (some tk')) (hv : ∀ tk, v = some tk → tk.InOrder s) : tk'.InOrder s := by
  cases h with
  | same => exact hv tk' rfl
  | @unreserved tk hst =>
    have htk := hv tk rfl
    simp only [Ticket.InOrder, hst] at htk
  | @cancelled tk tenantId hcan =>
    have htk := hv tk rfl
    rw [Ticket.isCancellable, Bool.and_eq_true] at hcan
    unfold Ticket.InOrder at htk
    split at htk
    · exact ⟨rfl, htk.2.1, htk.2.2.1⟩
    · exact htk.elim
    · next hst =>
      rw [hst] at hcan
      cases hcan.2
    · next hst =>
      rw [hst] at hcan
      cases hcan.2
  | created n => exact ⟨rfl, rfl, rfl, rfl⟩

theorem TakenBy.inOrder {n : NewMatch} {tk tk' : Ticket} {v : Option Ticket}
    (h : TakenBy l t s n tk v (some tk')) (htk : tk.InOrder s) : tk'.InOrder (patch t.writes s) := by
  cases h.after
  simp only [Ticket.InOrder, h.waiting] at htk
  exact ⟨rfl, htk.2.2.2, n.matchId, _, rfl, h.makes.match_new, rfl⟩

theorem Legal.ticketsInOrder (h : Legal rt l t s) (hs : TicketsInOrder s) :
    TicketsInOrder (patch t.writes s) := by
  intro id tk' htk'
  have hstep := h.ticketStep id
  rw [htk'] at hstep
  obtain hstep | ⟨n, tk, htaken⟩ := hstep
  · exact hstep.inOrder fun tk htk => (hs id tk htk).persist h.persist
  · exact htaken.inOrder (hs id tk htaken.before)

/-- The columns of an event are those of its status. Without an attempt it is due since its creation and was
not delivered; with one it shows an error or a delivery. -/
structure CallbackEventRow.InOrder (ev : CallbackEventRow) : Prop where
  eventType : ev.eventType = "match.created"
  lockedBy : ev.lockedBy.isSome = true ↔ ev.status = .inProgress
  lockedUntil : ev.lockedUntil.isSome = true ↔ ev.status = .inProgress
  delivered : ev.status = .delivered → ev.deliveredAt.isSome = true ∧ ev.lastError = none ∧ 1 ≤ ev.attempts
  failed : ev.status = .failed → ev.lastError.isSome = true ∧ 1 ≤ ev.attempts
  untried : ev.attempts = 0 → ev.nextAttemptAt = ev.createdAt ∧ ev.deliveredAt = none
  tried : 1 ≤ ev.attempts → ev.lastError.isSome = true ∨ ev.deliveredAt.isSome = true

/-- All events. -/
def EventsInOrder (s : Tables) : Prop := ∀ e ev, s.lookup (.callbackEvents e) = some ev → ev.InOrder

/-- Every outcome unlocks the event, and all but a release count an attempt. -/
theorem Outcome.inOrder (o : Outcome) (now : Time) {ev : CallbackEventRow} (h : ev.InOrder) :
    (o.apply now ev).InOrder := by
  have hlock : (o.apply now ev).lockedBy = none ∧ (o.apply now ev).lockedUntil = none := by
    cases o <;> exact ⟨rfl, rfl⟩
  refine ⟨?_, ?_, ?_, fun hst => ?_, fun hst => ?_, fun hnone => ?_, fun hsome => ?_⟩
  · cases o <;> exact h.eventType
  · rw [hlock.1]
    exact iff_of_false Bool.false_ne_true (o.status_apply now ev)
  · rw [hlock.2]
    exact iff_of_false Bool.false_ne_true (o.status_apply now ev)
  · cases o <;> cases hst
    exact ⟨rfl, rfl, Nat.le_add_left 1 _⟩
  · cases o <;> cases hst
    exact ⟨rfl, Nat.le_add_left 1 _⟩
  · cases o with
    | released error => exact h.untried hnone
    | _ => exact absurd hnone (Nat.succ_ne_zero _)
  · cases o with
    | delivered => exact .inr rfl
    | failed error | retry backoff error => exact .inl rfl
    | released error =>
      -- a release keeps an error, unless it brings one
      refine (h.tried hsome).imp_left fun herror => ?_
      cases error with
      | some error => rfl
      | none => exact herror

theorem NewMatch.inOrder (n : NewMatch) (now : Time) : (n.event now).InOrder where
  eventType := rfl
  lockedBy := iff_of_false Bool.false_ne_true fun h => by cases h
  lockedUntil := iff_of_false Bool.false_ne_true fun h => by cases h
  delivered hst := by cases hst
  failed hst := by cases hst
  untried _ := ⟨rfl, rfl⟩
  tried hsome := absurd hsome (Nat.not_succ_le_zero 0)

theorem CallbackEventRow.InOrder.claimed {ev : CallbackEventRow} (h : ev.InOrder) (d : String)
    (timeoutSeconds : ℕ) (now : Time) : (ev.claimed d timeoutSeconds now).InOrder where
  eventType := h.eventType
  lockedBy := iff_of_true rfl rfl
  lockedUntil := iff_of_true rfl rfl
  delivered hst := by cases hst
  failed hst := by cases hst
  untried := h.untried
  tried := h.tried

theorem Legal.eventsInOrder (h : Legal rt l t s) (hs : EventsInOrder s) :
    EventsInOrder (patch t.writes s) := by
  intro e ev' hev'
  have hstep := h.eventStep e
  rw [hev'] at hstep
  cases hold : s.lookup (.callbackEvents e) with
  | none =>
    rw [hold] at hstep
    cases hstep with
    | made n => exact n.inOrder t.start
  | some ev =>
    rw [hold] at hstep
    have hev := hs e ev hold
    cases hstep with
    | same => exact hev
    | claimed => exact hev.claimed ..
    | outcome hl o => exact o.inOrder t.start hev

/-- A match waits for its callback without saying so. -/
def MatchesInOrder (s : Tables) : Prop :=
  ∀ m row, s.lookup (.matches m) = some row → row.status ≠ .callbackPending

theorem Outcome.matchStatus_ne {o : Outcome} {status : MatchStatus} (h : o.matchStatus? = some status) :
    status ≠ .callbackPending := by
  cases o <;> cases h <;> exact fun h => by cases h

theorem Legal.matchesInOrder (h : Legal rt l t s) (hs : MatchesInOrder s) :
    MatchesInOrder (patch t.writes s) := by
  intro m row hrow
  have hkept : (patch t.writes s).lookup (.matches m) = s.lookup (.matches m) →
      row.status ≠ .callbackPending := fun heq => hs m row (heq.symm.trans hrow)
  cases h with
  | rows h => exact hkept (@Actor.rows_record l _ (.matches m) trivial _ _ (h (.matches m)))
  | pair n hn hurl h =>
    by_cases hm : m = n.matchId
    · subst hm
      have hnew := (h.lookup (.matches n.matchId) (fun h => h) (n.dlookup_match t.start)).2
      obtain rfl := Option.some.inj (hnew.symm.trans hrow)
      exact fun hst => by cases hst
    · exact hkept (NewMatch.frame_match h hm)
  | claim tie σ hσ h => exact hkept (h (.matches m))
  | outcome o eventId e m' hm' h =>
    cases ho : o.matchStatus? with
    | none => exact hkept (h.frame (.matches m) (fun h => h) (o.dlookup_match_none _ _ _ _ ho))
    | some status =>
      by_cases hm : m = e.matchId
      · subst hm
        have hnew := (h.lookup (.matches e.matchId) (fun h => h) (o.dlookup_match eventId e m' t.start ho)).2
        obtain rfl := Option.some.inj (hnew.symm.trans hrow)
        exact Outcome.matchStatus_ne ho
      · exact hkept (h.frame (.matches m) (fun h => h) (o.dlookup_eq_none _ _ _ _ (by simp) (by simp [hm])))
  | create n htenant hkey hbody hpart hknown h =>
    exact hkept (h.frame (.matches m) (fun h => h) (n.dlookup_eq_none t.start (by simp) (by simp)))

/-- **Columns and statuses.** In every committed state no ticket has a reservation, the columns of tickets and
events are those of their statuses, a matched ticket was matched when its match and the match's event were
created, and no match is ever `callback_pending`. -/
theorem columns_agree {clock : Time} {s : ServiceState}
    (hs : (service rt).Reachable (emptyState clock) s) :
    Unreserved s.world.committed ∧ TicketsInOrder s.world.committed ∧ EventsInOrder s.world.committed ∧
      MatchesInOrder s.world.committed ∧ ∀ e ev row, s.world.committed.lookup (.callbackEvents e) = some ev →
        s.world.committed.lookup (.matches ev.matchId) = some row → ev.createdAt = row.createdAt := by
  have hpast := service_past hs
  refine ⟨hpast.unreserved, hpast.invariant (fun _ _ h => by cases h) fun _ _ _ => Legal.ticketsInOrder,
    hpast.invariant (fun _ _ h => by cases h) fun _ _ _ => Legal.eventsInOrder,
    hpast.invariant (fun _ _ h => by cases h) fun _ _ _ => Legal.matchesInOrder, fun e ev row hev hrow => ?_⟩
  obtain ⟨n, made, -, rfl, hannounced⟩ := hpast.outbox.ofEvent e ev hev
  obtain ⟨ev', hev', hid⟩ := hannounced.event
  obtain rfl := Option.some.inj (hev.symm.trans hev')
  simp only [CallbackEventRow.identity, NewMatch.event, Prod.mk.injEq] at hid
  obtain ⟨row', hrow', hrowid⟩ := hannounced.matchRow
  rw [← hid.2.1] at hrow'
  obtain rfl := Option.some.inj (hrow.symm.trans hrow')
  have hcreated : row.createdAt = made := congrArg (fun p => p.2.2.2.2) hrowid
  exact hid.2.2.2.2.2.trans hcreated.symm

/-- The sample run has an event. -/
theorem columns_agree_sample : (sampleState.world.committed.lookup (.callbackEvents 0x40)).isSome = true ∧
    Unreserved sampleState.world.committed ∧ TicketsInOrder sampleState.world.committed ∧
    EventsInOrder sampleState.world.committed :=
  have h := columns_agree sampleState_reachable
  ⟨by decide +kernel, h.1, h.2.1, h.2.2.1⟩

end Matchmaking
