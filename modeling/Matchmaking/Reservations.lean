import Matchmaking.Outbox

/-!
# Reservations

A ticket is reserved only inside the transaction that matches it or gives up: no committed ticket is
ever reserved, so there is nothing to clean up, and a worker commits whole matches or nothing of them.
-/

namespace Matchmaking

open ReadCommitted ReadCommitted.Triple

variable {rt : Runtime} {l : Actor} {now : Time} {t : Txn Row} {s s' : Tables} {n : NewMatch}

/-! ## Committed tickets -/

/-- The ticket carries no trace of a reservation: it is not reserved, and nobody is named. -/
structure Ticket.IsFree (t : Ticket) : Prop where
  status : t.status ≠ .reserved
  reservedBy : t.reservedBy = none
  reservedUntil : t.reservedUntil = none

/-- No ticket is reserved: reservations are made and given up within one transaction, so committed tables have
none. -/
def Unreserved (s : Tables) : Prop := ∀ id t, s.lookup (.tickets id) = some t → t.IsFree

theorem Unreserved.empty : Unreserved ∅ := fun _ _ h => by cases h

theorem TicketStep.isFree {v : Option Ticket} {t' : Ticket} (h : TicketStep rt l now v (some t'))
    (hv : ∀ t, v = some t → t.IsFree) : t'.IsFree := by
  cases h with
  | same => exact hv t' rfl
  | unreserved h => exact absurd h (hv _ rfl).status
  | cancelled => exact ⟨fun h => (by cases h), (hv _ rfl).reservedBy, (hv _ rfl).reservedUntil⟩
  | created => exact ⟨fun h => (by cases h), rfl, rfl⟩

theorem Ticket.isFree_matchedWith (t : Ticket) (m : UUID) : (t.matchedWith m now).IsFree :=
  ⟨fun h => (by cases h), rfl, rfl⟩

theorem Legal.unreserved (h : Legal rt l t s) (hs : Unreserved s) :
    Unreserved (patch t.writes s) := by
  intro id t' ht'
  obtain hun | ⟨n, hmakes⟩ := h.unpaired_or_makes
  · exact (ht' ▸ hun.tickets id).isFree (hs id)
  by_cases h₁ : id = n.firstId
  · subst h₁
    obtain rfl := Option.some.inj ((hmakes.changed.lookup (.tickets n.firstId) (fun h => h)
      (n.dlookup_first t.start hmakes.compatible.apart)).2.symm.trans ht')
    exact n.first.isFree_matchedWith n.matchId
  by_cases h₂ : id = n.secondId
  · subst h₂
    obtain rfl := Option.some.inj ((hmakes.changed.lookup (.tickets n.secondId) (fun h => h)
      (n.dlookup_second t.start)).2.symm.trans ht')
    exact n.second.isFree_matchedWith n.matchId
  exact hs id t' ((NewMatch.frame_ticket hmakes.changed ⟨h₁, h₂⟩).symm.trans ht')

theorem Past.unreserved {w : ServiceWorld} (h : Past rt w) : Unreserved w.committed :=
  h.invariant .empty fun _ _ _ => Legal.unreserved

/-! ## The cleanup -/

/-- The cleanup has nothing to do. -/
theorem Unreserved.expiredReservations_eq_nil (hs : Unreserved s) (now : Time) :
    expiredReservations now s = [] := by
  rw [expiredReservations, List.map_eq_nil_iff, List.filter_eq_nil_iff]
  rintro ⟨id, t⟩ hrow hexpired
  rw [mem_rowsOf_ticketRow] at hrow
  simp only [Ticket.isExpired, Bool.and_eq_true, decide_eq_true_eq] at hexpired
  exact (hs id t hrow).status hexpired.1

theorem Unreserved.of_shows {σ : Tables} (hs : Unreserved s) (h : Shows IsIndexKey [] s σ) :
    Unreserved σ := fun id t ht => hs id t ((h (.tickets id) fun h => h).symm.trans ht)

/-- Whoever runs the cleanup, and when: it changes no row. -/
theorem cleanupExpiredReservations_idle {i : ℕ} :
    Triple (commitSpec rt) i l Idle cleanupExpiredReservations
      (fun n w T => n = 0 ∧ Clean IsIndexKey w T) anything := by
  refine .bind (clean_select.pre fun _ _ h => Idle.clean h) fun ids => ⟨?_⟩
  rintro w T ⟨now, σ, rfl, hfacts, hshows, hstage⟩
  have hs : Unreserved w.committed := Past.unreserved ⟨hfacts.1, hfacts.2⟩
  rw [(hs.of_shows hshows).expiredReservations_eq_nil now]
  exact ⟨rfl, hstage.clean⟩

/-! ## The commits of a worker -/

/-- The tables a match is written to: tickets, matches, players and events. -/
def IsMatchKey : Key → Prop
  | .tickets _ | .matches _ | .matchPlayers .. | .callbackEvents _ => True
  | _ => False

/-- A worker commits one complete match, or leaves tickets, matches, players and events alone. -/
theorem Legal.worker {settings : Settings} {workerId : String} {offset : ℕ}
    (h : Legal rt (.runLoop settings workerId offset) t s) (hs : Unreserved s) :
    (∀ k, IsMatchKey k → (patch t.writes s).lookup k = s.lookup k) ∨
      ∃ n, Makes (.runLoop settings workerId offset) t s n := by
  cases h with
  | rows h =>
    refine .inl fun k hk => ?_
    cases k with
    | tickets id =>
      obtain h | ⟨a, ha, hres, -⟩ := h (.tickets id)
      · exact h
      · exact absurd hres (hs id a ha).status
    | «matches» m => exact h (.matches m)
    | matchPlayers m id => exact h (.matchPlayers m id)
    | callbackEvents e => exact h (.callbackEvents e)
    | _ => exact hk.elim
  | pair n hn hurl h => exact .inr ⟨n, ⟨_, _, _, rfl⟩, hn, hurl, h⟩

/-- **All or nothing.** Each commit of a worker makes one complete match or leaves the tables of
matches alone; every committed match is complete; no committed ticket is reserved, and the cleanup
never changes a row. -/
theorem match_creation_atomic {clock : Time} {s : ServiceState}
    (hs : (service rt).Reachable (emptyState clock) s) :
    (∀ entry ∈ s.world.log, ∀ settings workerId offset,
      entry.actor = .runLoop settings workerId offset → ∀ t b, entry.event.commit? = some (t, b) →
        (∀ k, IsMatchKey k → (patch t.writes b).lookup k = b.lookup k) ∨
          ∃ n, Makes entry.actor t b n) ∧
    MatchIntegrity s.world.committed ∧
    (∀ m row, s.world.committed.lookup (.matches m) = some row →
      ∃! e, ∃ ev, s.world.committed.lookup (.callbackEvents e) = some ev ∧ ev.matchId = m) ∧
    Unreserved s.world.committed ∧
    (∀ now, expiredReservations now s.world.committed = []) ∧
    ∀ i l, Triple (commitSpec rt) i l Idle cleanupExpiredReservations
      (fun n w T => n = 0 ∧ Clean IsIndexKey w T) anything := by
  have hpast := service_past hs
  refine ⟨?_, hpast.outbox.paired.integrity, fun m row => hpast.outbox.existsUnique_event,
    hpast.unreserved, hpast.unreserved.expiredReservations_eq_nil,
    fun _ _ => cleanupExpiredReservations_idle⟩
  intro entry hentry settings workerId offset hactor t b hc
  rw [hactor]
  exact (hactor ▸ hpast.legal hentry hc).worker
    (hpast.before Unreserved.empty (fun _ _ _ => Legal.unreserved) hentry hc)

/-- The sample run commits a match. -/
theorem match_creation_atomic_sample :
    (sampleState.world.committed.lookup (.matches 0x3f)).isSome = true ∧
      Unreserved sampleState.world.committed :=
  ⟨by decide +kernel, (match_creation_atomic sampleState_reachable).2.2.2.1⟩

end Matchmaking
