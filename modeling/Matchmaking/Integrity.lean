import Matchmaking.Refinement

/-!
# Matches, their players and their tickets

A commit that makes a match writes both players and both tickets with it, and no other commit touches
players or matched tickets. Hence in every committed state the three tables agree.
-/

namespace Matchmaking

open ReadCommitted

variable {rt : Runtime} {l : Actor} {now : Time} {s s' : Tables}

/-! ## The invariant -/

/-- Matches, players and matched tickets agree: a match has two players from one queue, and each of their
tickets says which match it is in. -/
structure Paired (s : Tables) : Prop where
  /-- A match has exactly two players. -/
  players : ∀ m row, s.lookup (.matches m) = some row → ∃ a b, a ≠ b ∧
    ∀ id, (s.lookup (.matchPlayers m id)).isSome = true ↔ id = a ∨ id = b
  /-- The ticket of a player is matched, by the player's match. -/
  player : ∀ m id, (s.lookup (.matchPlayers m id)).isSome = true → ∃ t row,
    s.lookup (.tickets id) = some t ∧ s.lookup (.matches m) = some row ∧ t.status = .matched ∧
      t.matchId = some m ∧ t.tenantId = row.tenantId ∧ t.region = row.region ∧
      t.queueName = row.queueName
  /-- A matched ticket has a player. -/
  matched : ∀ id t, s.lookup (.tickets id) = some t → t.status = .matched →
    ∃ m, (s.lookup (.matchPlayers m id)).isSome = true

theorem Paired.empty : Paired ∅ :=
  ⟨fun _ _ h => (by cases h), fun _ _ h => (by cases h), fun _ _ h => by cases h⟩

/-- Matched tickets stay as they are. -/
theorem TicketStep.matched {v' : Option Ticket} {t : Ticket} (h : TicketStep rt l now (some t) v')
    (ht : t.status = .matched) : v' = some t := by
  cases h with
  | same => rfl
  | unreserved h => cases ht.symm.trans h
  | cancelled h => simp [Ticket.isCancellable, TicketStatus.isActive, ht] at h

/-- A matched ticket was matched before. -/
theorem TicketStep.of_matched {v : Option Ticket} {t : Ticket} (h : TicketStep rt l now v (some t))
    (ht : t.status = .matched) : v = some t := by
  cases h with
  | same => rfl
  | unreserved => cases ht
  | cancelled => cases ht
  | created => cases ht

theorem Unpaired.paired (h : Unpaired rt l now s s') (hs : Paired s) : Paired s' where
  players m row' hrow' := by
    obtain ⟨row, hrow, -⟩ := exists_of_map_eq (h.matchRows m) hrow'
    obtain ⟨a, b, hne, hplayers⟩ := hs.players m row hrow
    exact ⟨a, b, hne, fun id => by rw [h.players m id]; exact hplayers id⟩
  player m id hp := by
    rw [h.players m id] at hp
    obtain ⟨t, row, ht, hrow, hst, hmatch, htenant, hregion, hqueue⟩ := hs.player m id hp
    have ht' := (ht ▸ h.tickets id).matched hst
    obtain ⟨row', hrow', hid⟩ := exists_of_map_eq (h.matchRows m).symm hrow
    simp only [Match.identity, Prod.mk.injEq] at hid
    exact ⟨t, row', ht', hrow', hst, hmatch, htenant.trans hid.1.symm, hregion.trans hid.2.1.symm,
      hqueue.trans hid.2.2.1.symm⟩
  matched id t ht hst := by
    obtain ⟨m, hp⟩ := hs.matched id t ((ht ▸ h.tickets id).of_matched hst) hst
    exact ⟨m, by rwa [h.players m id]⟩

/-! ## A new match -/

section Pair

variable {n : NewMatch} (h : Changed IsIndexKey (n.changes now) s s') (hn : n.Compatible)

include h

theorem NewMatch.frame_ticket {id : UUID} (hid : id ≠ n.firstId ∧ id ≠ n.secondId) :
    s'.lookup (.tickets id) = s.lookup (.tickets id) :=
  h.frame (.tickets id) (fun h => h) (n.dlookup_eq_none now (by simp [hid]))

theorem NewMatch.frame_match {m : UUID} (hm : m ≠ n.matchId) :
    s'.lookup (.matches m) = s.lookup (.matches m) :=
  h.frame (.matches m) (fun h => h) (n.dlookup_eq_none now (by simp [hm]))

theorem NewMatch.frame_player {m id : UUID}
    (hp : m ≠ n.matchId ∨ id ≠ n.firstId ∧ id ≠ n.secondId) :
    s'.lookup (.matchPlayers m id) = s.lookup (.matchPlayers m id) := by
  refine h.frame (.matchPlayers m id) (fun h => h) (n.dlookup_eq_none now ?_)
  rcases hp with hp | hp <;> simp [hp]

/-- A match that is new had no players. -/
theorem NewMatch.no_players (hs : Paired s) (id : UUID) :
    s.lookup (.matchPlayers n.matchId id) = none := by
  have hmatch := (h.lookup (.matches n.matchId) (fun h => h) (n.dlookup_match now)).1
  cases hp : s.lookup (.matchPlayers n.matchId id) with
  | none => rfl
  | some p =>
    obtain ⟨t, row, -, hrow, -⟩ := hs.player n.matchId id (by rw [hp]; rfl)
    cases hmatch.symm.trans hrow

include hn

theorem NewMatch.players_iff (hs : Paired s) (id : UUID) :
    (s'.lookup (.matchPlayers n.matchId id)).isSome = true ↔ id = n.firstId ∨ id = n.secondId := by
  by_cases hid : id = n.firstId ∨ id = n.secondId
  · refine ⟨fun _ => hid, fun _ => ?_⟩
    rcases hid with rfl | rfl
    · rw [(h.lookup (.matchPlayers n.matchId n.firstId) (fun h => h)
        (n.dlookup_firstPlayer now hn.apart)).2]
      rfl
    · rw [(h.lookup (.matchPlayers n.matchId n.secondId) (fun h => h)
        (n.dlookup_secondPlayer now)).2]
      rfl
  · rw [not_or] at hid
    rw [NewMatch.frame_player h (.inr hid), NewMatch.no_players h hs]
    simp [hid]

/-- The ticket of an older player is none of the two. -/
theorem NewMatch.player_apart (hs : Paired s) {m id : UUID}
    (hp : (s.lookup (.matchPlayers m id)).isSome = true) : id ≠ n.firstId ∧ id ≠ n.secondId := by
  obtain ⟨t, row, ht, -, hst, -⟩ := hs.player m id hp
  constructor <;> rintro rfl
  · have hfirst := (h.lookup (.tickets n.firstId) (fun h => h) (n.dlookup_first now hn.apart)).1
    obtain rfl := Option.some.inj (ht.symm.trans hfirst)
    cases hn.firstWaiting.symm.trans hst
  · have hsecond := (h.lookup (.tickets n.secondId) (fun h => h) (n.dlookup_second now)).1
    obtain rfl := Option.some.inj (ht.symm.trans hsecond)
    cases hn.secondWaiting.symm.trans hst

theorem NewMatch.paired (hs : Paired s) : Paired s' where
  players m row hrow := by
    by_cases hm : m = n.matchId
    · subst hm
      exact ⟨n.firstId, n.secondId, hn.apart, NewMatch.players_iff h hn hs⟩
    · rw [NewMatch.frame_match h hm] at hrow
      obtain ⟨a, b, hne, hplayers⟩ := hs.players m row hrow
      exact ⟨a, b, hne, fun id => by rw [NewMatch.frame_player h (.inl hm)]; exact hplayers id⟩
  player m id hp := by
    by_cases hm : m = n.matchId
    · subst hm
      have hrow := (h.lookup (.matches n.matchId) (fun h => h) (n.dlookup_match now)).2
      rcases (NewMatch.players_iff h hn hs id).mp hp with rfl | rfl
      · exact ⟨_, _, (h.lookup (.tickets n.firstId) (fun h => h) (n.dlookup_first now hn.apart)).2,
          hrow, rfl, rfl, rfl, rfl, rfl⟩
      · exact ⟨_, _, (h.lookup (.tickets n.secondId) (fun h => h) (n.dlookup_second now)).2,
          hrow, rfl, rfl, hn.tenantId.symm, hn.region.symm, hn.queueName.symm⟩
    · rw [NewMatch.frame_player h (.inl hm)] at hp
      obtain ⟨t, row, ht, hrow, hrest⟩ := hs.player m id hp
      have hid := NewMatch.player_apart h hn hs hp
      exact ⟨t, row, (NewMatch.frame_ticket h hid).trans ht, (NewMatch.frame_match h hm).trans hrow,
        hrest⟩
  matched id t ht hst := by
    by_cases hid : id = n.firstId ∨ id = n.secondId
    · exact ⟨n.matchId, (NewMatch.players_iff h hn hs id).mpr hid⟩
    · rw [not_or] at hid
      obtain ⟨m, hp⟩ := hs.matched id t ((NewMatch.frame_ticket h hid).symm.trans ht) hst
      exact ⟨m, by rwa [NewMatch.frame_player h (.inr hid)]⟩

end Pair

theorem Legal.paired {t : Txn Row} (h : Legal rt l t s) (hs : Paired s) :
    Paired (patch t.writes s) := by
  obtain h | ⟨n, hmakes⟩ := h.unpaired_or_makes
  · exact h.paired hs
  · exact NewMatch.paired hmakes.changed hmakes.compatible hs

/-! ## Partitions -/

/-- All ticket requests of a run count `N` partitions, so that a queue stays in its partition. -/
def PartitionsAre (N : ℕ) (log : List LogEntry) : Prop :=
  ∀ e ∈ log, ∀ settings xTenantId key body,
    e.actor = .createTicket settings xTenantId key body → settings.matchmakingPartitions = N

/-- Tickets and matches are in the partition of their tenant, region and queue. -/
structure Placed (rt : Runtime) (N : ℕ) (s : Tables) : Prop where
  tickets : ∀ id t, s.lookup (.tickets id) = some t →
    t.partitionId = computePartitionId rt t.tenantId t.region t.queueName N
  matchRows : ∀ m row, s.lookup (.matches m) = some row →
    row.partitionId = computePartitionId rt row.tenantId row.region row.queueName N

/-- A ticket is the one from before, but for its status, or new. -/
theorem TicketStep.origin {v : Option Ticket} {t' : Ticket} (h : TicketStep rt l now v (some t')) :
    (∃ t, v = some t ∧ t.identity = t'.identity) ∨ ∃ (n : NewTicket) (settings : Settings),
      l = .createTicket settings (some n.tenantId) n.key n.body ∧
      n.partitionId = computePartitionId rt n.tenantId n.body.region n.body.queueName
        settings.matchmakingPartitions ∧ t' = n.ticket now := by
  cases h with
  | same => exact .inl ⟨t', rfl, rfl⟩
  | unreserved => exact .inl ⟨_, rfl, rfl⟩
  | cancelled => exact .inl ⟨_, rfl, rfl⟩
  | created n settings hl hpart => exact .inr ⟨n, settings, hl, hpart, rfl⟩

theorem Placed.of_identity {N : ℕ} (hs : Placed rt N s) {id : UUID} {t t' : Ticket}
    (ht : s.lookup (.tickets id) = some t) (hid : t.identity = t'.identity) :
    t'.partitionId = computePartitionId rt t'.tenantId t'.region t'.queueName N := by
  simp only [Ticket.identity, Prod.mk.injEq] at hid
  have h := hs.tickets id t ht
  rwa [hid.1, hid.2.2.1, hid.2.2.2.1, hid.2.2.2.2.2.1] at h

theorem Unpaired.placed {N : ℕ} (h : Unpaired rt l now s s') (hs : Placed rt N s)
    (hl : ∀ settings xTenantId key body, l = .createTicket settings xTenantId key body →
      settings.matchmakingPartitions = N) : Placed rt N s' where
  tickets id t' ht' := by
    obtain ⟨t, ht, hid⟩ | ⟨n, settings, hcreate, hpart, rfl⟩ := (ht' ▸ h.tickets id).origin
    · exact hs.of_identity ht hid
    · rw [← hl _ _ _ _ hcreate]
      exact hpart
  matchRows m row' hrow' := by
    obtain ⟨row, hrow, hid⟩ := exists_of_map_eq (h.matchRows m) hrow'
    simp only [Match.identity, Prod.mk.injEq] at hid
    have h := hs.matchRows m row hrow
    rwa [hid.1, hid.2.1, hid.2.2.1, hid.2.2.2.1] at h

theorem NewMatch.placed {N : ℕ} {n : NewMatch} (h : Changed IsIndexKey (n.changes now) s s')
    (hn : n.Compatible) (hs : Placed rt N s) : Placed rt N s' := by
  have hfirst := h.lookup (.tickets n.firstId) (fun h => h) (n.dlookup_first now hn.apart)
  have hsecond := h.lookup (.tickets n.secondId) (fun h => h) (n.dlookup_second now)
  constructor
  · intro id t' ht'
    by_cases h₁ : id = n.firstId
    · subst h₁
      obtain rfl := Option.some.inj (hfirst.2.symm.trans ht')
      exact hs.of_identity hfirst.1 rfl
    by_cases h₂ : id = n.secondId
    · subst h₂
      obtain rfl := Option.some.inj (hsecond.2.symm.trans ht')
      exact hs.of_identity hsecond.1 rfl
    exact hs.tickets id t' ((NewMatch.frame_ticket h ⟨h₁, h₂⟩).symm.trans ht')
  · intro m row hrow
    by_cases hm : m = n.matchId
    · subst hm
      have hnew := (h.lookup (.matches n.matchId) (fun h => h) (n.dlookup_match now)).2
      obtain rfl := Option.some.inj (hnew.symm.trans hrow)
      exact hs.tickets n.firstId n.first hfirst.1
    · exact hs.matchRows m row ((NewMatch.frame_match h hm).symm.trans hrow)

/-- While the number of partitions stays the same, tickets and matches stay in their partition. -/
theorem Past.placed {w : ServiceWorld} (h : Past rt w) {N : ℕ} (hN : PartitionsAre N w.log) :
    Placed rt N w.committed := by
  refine h.history.chained.invariant ⟨fun _ _ h => (by cases h), fun _ _ h => by cases h⟩ ?_
  intro e he t b hc hb
  obtain hun | ⟨n, hmakes⟩ := (h.legal he hc).unpaired_or_makes
  · exact hun.placed hb (hN e he)
  · exact NewMatch.placed hmakes.changed hmakes.compatible hb

/-! ## Match integrity -/

/-- What the tables of tickets, matches and players say about each other. -/
structure MatchIntegrity (s : Tables) : Prop where
  /-- A match has exactly two players; their tickets are matched by it and agree with it. -/
  twoPlayers : ∀ m row, s.lookup (.matches m) = some row → ∃ a b, a ≠ b ∧
    (∀ id, (s.lookup (.matchPlayers m id)).isSome = true ↔ id = a ∨ id = b) ∧
    ∀ id, id = a ∨ id = b → ∃ t, s.lookup (.tickets id) = some t ∧ t.status = .matched ∧
      t.matchId = some m ∧ t.tenantId = row.tenantId ∧ t.region = row.region ∧
      t.queueName = row.queueName
  /-- Players belong to matches. -/
  ofMatch : ∀ m id, (s.lookup (.matchPlayers m id)).isSome = true →
    (s.lookup (.matches m)).isSome = true
  /-- A matched ticket is in exactly one match. -/
  oneMatch : ∀ id t, s.lookup (.tickets id) = some t → t.status = .matched →
    ∃! m, (s.lookup (.matchPlayers m id)).isSome = true
  /-- Other tickets are in none. -/
  noMatch : ∀ id t, s.lookup (.tickets id) = some t → t.status ≠ .matched →
    ∀ m, s.lookup (.matchPlayers m id) = none

/-- Players' tickets are in the partition of the match. -/
def SamePartition (s : Tables) : Prop :=
  ∀ m row id t, s.lookup (.matches m) = some row → (s.lookup (.matchPlayers m id)).isSome = true →
    s.lookup (.tickets id) = some t → t.partitionId = row.partitionId

namespace Paired

variable (h : Paired s)

include h

/-- The ticket of a player knows its match. -/
theorem matchId_eq {m id : UUID} (hp : (s.lookup (.matchPlayers m id)).isSome = true) {t : Ticket}
    (ht : s.lookup (.tickets id) = some t) : t.status = .matched ∧ t.matchId = some m := by
  obtain ⟨t', row, ht', -, hst, hmatch, -⟩ := h.player m id hp
  obtain rfl := Option.some.inj (ht'.symm.trans ht)
  exact ⟨hst, hmatch⟩

theorem integrity : MatchIntegrity s where
  twoPlayers m row hrow := by
    obtain ⟨a, b, hne, hplayers⟩ := h.players m row hrow
    refine ⟨a, b, hne, hplayers, fun id hid => ?_⟩
    obtain ⟨t, row', ht, hrow', hrest⟩ := h.player m id ((hplayers id).mpr hid)
    obtain rfl := Option.some.inj (hrow'.symm.trans hrow)
    exact ⟨t, ht, hrest⟩
  ofMatch m id hp := by
    obtain ⟨t, row, -, hrow, -⟩ := h.player m id hp
    rw [hrow]
    rfl
  oneMatch id t ht hst := by
    obtain ⟨m, hp⟩ := h.matched id t ht hst
    refine ⟨m, hp, fun m' hp' => ?_⟩
    exact Option.some.inj ((h.matchId_eq hp' ht).2.symm.trans (h.matchId_eq hp ht).2)
  noMatch id t ht hst m := by
    cases hp : s.lookup (.matchPlayers m id) with
    | none => rfl
    | some p => exact absurd (h.matchId_eq (by rw [hp]; rfl) ht).1 hst

theorem samePartition {N : ℕ} (hplaced : Placed rt N s) : SamePartition s := by
  intro m row id t hrow hp ht
  obtain ⟨t', row', ht', hrow', -, -, htenant, hregion, hqueue⟩ := h.player m id hp
  obtain rfl := Option.some.inj (ht'.symm.trans ht)
  obtain rfl := Option.some.inj (hrow'.symm.trans hrow)
  rw [hplaced.tickets id t' ht, hplaced.matchRows m row' hrow, htenant, hregion, hqueue]

end Paired

/-- **Match integrity.** In every committed state of every run of the service, whatever its actors
interleave, matches, players and matched tickets agree: a match has two players from two tickets of its
tenant, region and queue, and a ticket is matched exactly if it is a player of its match. Where all requests
count the same number of partitions, both tickets are also in the partition of the match. -/
theorem match_integrity {clock : Time} {s : ServiceState}
    (hs : (service rt).Reachable (emptyState clock) s) :
    MatchIntegrity s.world.committed ∧
      ∀ N, PartitionsAre N s.world.log → SamePartition s.world.committed := by
  have hpast := service_past hs
  have hpaired : Paired s.world.committed := hpast.invariant .empty fun _ _ _ => Legal.paired
  exact ⟨hpaired.integrity, fun N hN => hpaired.samePartition (hpast.placed hN)⟩

/-- The sample run makes a match. -/
theorem match_integrity_sample : (∃ m, (sampleState.world.committed.lookup (.matches m)).isSome = true) ∧
    MatchIntegrity sampleState.world.committed :=
  ⟨⟨0x3f, by decide +kernel⟩, (match_integrity sampleState_reachable).1⟩

end Matchmaking
