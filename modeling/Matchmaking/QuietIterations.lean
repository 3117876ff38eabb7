import Matchmaking.QuietPairs
import Matchmaking.StablePairs
import Matchmaking.LeaseTransaction
import Matchmaking.FreshFetch
import Matchmaking.Reservations

/-!
# An iteration that nobody disturbs

One iteration of the worker's loop from beginning to end, where no other session runs, nothing fails and
the time budget lasts. It commits a match for every pair of the stable pairing of the tickets that it
has fetched, up to its limit of pairs, and leaves all other tickets as they are.
-/

namespace Matchmaking

open ReadCommitted StablePairing

variable {answer : ℕ → (c : Call) → Reply c} {i : ℕ} {l : Actor} {w : ServiceWorld} {T : Option (Txn Row)}
  {now : Time} {s s' : Tables} {settings : Settings} {workerId : String} {α β : Type}

/-! ## Lease operations -/

/-- Run alone, the program ends without an exception, logs nothing and changes rows of `A` only. -/
def WritesWithin (answer : ℕ → (c : Call) → Reply c) (i : ℕ) (l : Actor) (A : Key → Prop) (x : Db α) : Prop :=
  ∀ now s (w : ServiceWorld) T, SeesAt now s w T → Client.Gives answer i l x (fun _ w' T' => w' = w ∧
    ∃ s', SeesAt now s' w T' ∧ ∀ k, ¬ A k → s'.lookup k = s.lookup k) w T

namespace WritesWithin

variable {A : Key → Prop}

protected theorem pure (a : α) : WritesWithin answer i l A (pure a : Db α) :=
  fun _ s _ _ h => .pure ⟨rfl, s, h, fun _ _ => rfl⟩

/-- The rows that two parts may write are those of both. -/
protected theorem bind {x : Db α} {f : α → Db β} (hx : WritesWithin answer i l A x)
    (hf : ∀ a, WritesWithin answer i l A (f a)) : WritesWithin answer i l A (x >>= f) := by
  intro now s w T h
  refine .bind ((hx now s w T h).mono ?_)
  rintro a _ T₁ ⟨rfl, s₁, h₁, hsame₁⟩
  refine (hf a now s₁ _ T₁ h₁).mono ?_
  rintro b _ T₂ ⟨rfl, s₂, h₂, hsame₂⟩
  exact ⟨rfl, s₂, h₂, fun k hk => (hsame₂ k hk).trans (hsame₁ k hk)⟩

/-- Either branch writes within the rows, so the branching does. -/
protected theorem ite {c : Prop} [Decidable c] {x y : Db α} (hx : WritesWithin answer i l A x)
    (hy : WritesWithin answer i l A y) : WritesWithin answer i l A (if c then x else y) := by
  split
  · exact hx
  · exact hy

theorem select {f : Time → Tables → α} : WritesWithin answer i l A (perform (.select f)) :=
  fun _ s _ _ h => .select_at h fun _ h' => ⟨rfl, s, h', fun _ _ => rfl⟩

/-- A statement on a row writes that row only, and does not raise. -/
theorem row {k : Key} {skip : Bool} {f : Time → Option (Row k) → RowAction (Row k) Exn} (hk : A k)
    (hf : ∀ now v e, f now v ≠ .raise e) : WritesWithin answer i l A (perform (.row k skip f)) := by
  intro now s w T h
  have hframe : ∀ o k', ¬ A k' → (writeRow ⟨k, o⟩ s).lookup k' = s.lookup k' := by
    intro o k' hk'
    have hne : k' ≠ k := by
      rintro rfl
      exact hk' hk
    exact lookup_writeRow_ne hne s
  cases haction : f now (s.lookup k) with
  | leave => exact .row_leave h haction fun T' h' => ⟨rfl, s, h', fun _ _ => rfl⟩
  | put v => exact .row_put h haction fun T' h' => ⟨rfl, _, h', hframe _⟩
  | delete => exact .row_delete h haction fun T' h' => ⟨rfl, _, h', hframe _⟩
  | raise e => exact absurd haction (hf now _ e)

/-- An UPDATE over leases writes rows of leases. -/
theorem updateLeases (hleases : ∀ p, A (.partitionLeases p)) {cond : Time → PartitionLease → Bool}
    {set : Time → PartitionLease → PartitionLease} (ps : List ℕ) :
    WritesWithin answer i l A (updateLeases cond set ps) := by
  induction ps with
  | nil => exact .pure _
  | cons p ps ih =>
    refine .bind (.row (hleases p) fun now v e => ?_) fun _ => .bind ih fun _ => .pure _
    cases v with
    | none => simp
    | some v =>
      dsimp only
      split <;> simp

/-- A claim of leases writes rows of leases too. -/
theorem claimLeases (hleases : ∀ p, A (.partitionLeases p)) {leaseSeconds : ℕ} (n : ℕ) (ps : List ℕ) :
    WritesWithin answer i l A (claimLeases workerId leaseSeconds n ps) := by
  induction ps generalizing n with
  | nil => cases n <;> exact .pure _
  | cons p ps ih =>
    cases n with
    | zero => exact .pure _
    | succ n =>
      refine .bind (.row (hleases p) fun now v e => ?_) fun _ => .ite (.bind (ih n) fun _ => .pure _) (ih _)
      cases v with
      | none => simp
      | some v =>
        dsimp only
        split <;> simp

/-- The lease operations change leases and heartbeats only. -/
theorem leaseOperations (offset : ℕ) :
    WritesWithin answer i l IsLeaseKey (leaseOperations settings workerId offset) := by
  have hleases : ∀ p, IsLeaseKey (.partitionLeases p) := fun _ => trivial
  have hbeat : WritesWithin answer i l IsLeaseKey (recordWorkerHeartbeat workerId) :=
    .bind (.row trivial fun _ _ _ h => by cases h) fun _ => .pure _
  have hexcess : ∀ cap, WritesWithin answer i l IsLeaseKey (releaseExcessPartitions workerId cap) := fun cap =>
    .bind (.bind .select fun _ => .pure _) fun _ => .ite (.pure _)
      (.bind .select fun _ => .bind (updateLeases hleases _) fun _ => .pure _)
  refine .bind hbeat fun _ => .bind (.bind .select fun _ => .bind (updateLeases hleases _) fun _ => .pure _)
    fun _ => .bind (.bind .select fun _ => claimLeases hleases _ _) fun _ => .ite ?_ (.pure _)
  exact .bind (.bind .select fun _ => .pure _) fun _ => .bind (hexcess _) fun _ => .pure _

end WritesWithin

/-- The lease transaction commits, and changes leases and heartbeats only. -/
theorem leaseTransaction_gives (offset : ℕ) :
    Client.Gives answer i l (leaseTransaction settings workerId offset) (fun _ w' T' => T' = none ∧
      w'.clock = w.clock ∧ w.log.length ≤ w'.log.length ∧ w'.log.length ≤ w.log.length + 1 ∧
      ∀ k, ¬ IsLeaseKey k → w'.committed.lookup k = w.committed.lookup k) w none := by
  refine .bind ((WritesWithin.leaseOperations offset w.clock w.committed w none ⟨⟨rfl, rfl⟩, rfl⟩).mono ?_)
  rintro counts _ T₁ ⟨rfl, s₁, h₁, hsame⟩
  refine .bind (.commit_logged h₁.toSees fun w₂ hs₂ hclock hlog hlog' => .pure ⟨rfl, hclock, hlog, hlog', ?_⟩)
  rw [hs₂]
  exact hsame

/-- Leases and heartbeats do not matter. -/
theorem Orderly.of_same (hs : Orderly s) (h : ∀ k, ¬ IsLeaseKey k → s'.lookup k = s.lookup k) : Orderly s' := by
  have htickets : ∀ id, s'.lookup (.tickets id) = s.lookup (.tickets id) := fun id => h (.tickets id) fun h => h
  have hmatches : ∀ m, s'.lookup (.matches m) = s.lookup (.matches m) := fun m => h (.matches m) fun h => h
  have hplayers : ∀ m id, s'.lookup (.matchPlayers m id) = s.lookup (.matchPlayers m id) := fun m id =>
    h (.matchPlayers m id) fun h => h
  have htenants : ∀ id, s'.lookup (.tenants id) = s.lookup (.tenants id) := fun id => h (.tenants id) fun h => h
  refine ⟨fun id t ht hactive => ?_, ⟨?_, ?_, ?_⟩, ?_⟩
  · exact (h t.indexKey fun h => h).trans (hs.index id t ((htickets id).symm.trans ht) hactive)
  · simpa only [hmatches, hplayers] using hs.paired.players
  · simpa only [hmatches, hplayers, htickets] using hs.paired.player
  · simpa only [hplayers, htickets] using hs.paired.matched
  · simpa only [TicketsKnown, htickets, htenants] using hs.known

/-- Identifiers that are new stay new while only leases change. -/
theorem FreshIds.of_same {start stop : ℕ} (h : FreshIds answer start stop s)
    (hsame : ∀ k, ¬ IsLeaseKey k → s'.lookup k = s.lookup k) : FreshIds answer start stop s' where
  apart := h.apart
  matchIds n hn hn' := (hsame (.matches _) fun h => h).trans (h.matchIds n hn hn')
  eventIds n hn hn' := (hsame (.callbackEvents _) fun h => h).trans (h.eventIds n hn hn')

/-! ## Fetching and searching -/

/-- There is nothing to clean up. -/
theorem cleanupExpiredReservations_gives (hs : Unreserved s) (h : SeesAt now s w T) :
    Client.Gives answer i l cleanupExpiredReservations (fun _ w' T' => w' = w ∧ SeesAt now s w' T') w T := by
  refine .bind (.select_at h fun T₁ h₁ => ?_)
  rw [hs.expiredReservations_eq_nil]
  exact .pure ⟨rfl, h₁⟩

/-- The partitions that the worker holds. -/
def LeasedTo (workerId : String) (now : Time) (s : Tables) (p : ℕ) : Prop :=
  ∃ v, s.lookup (.partitionLeases p) = some v ∧ v.isOwnedBy workerId = true ∧ v.isLive now = true

/-- The worker lists exactly the partitions that are leased to it at that time. -/
theorem listOwnedPartitions_gives (h : SeesAt now s w T) :
    Client.Gives answer i l (listOwnedPartitions workerId) (fun partitions w' T' =>
      (∀ p, p ∈ partitions ↔ LeasedTo workerId now s p) ∧ w' = w ∧ SeesAt now s w' T') w T := by
  refine .bind (.select_at h fun T₁ h₁ => .pure ⟨fun p => ?_, rfl, h₁⟩)
  rw [mem_orderBy, List.mem_map]
  constructor
  · rintro ⟨⟨p, v⟩, hv, rfl⟩
    obtain ⟨hrow, hcond⟩ := List.mem_filter.mp hv
    exact ⟨v, mem_rowsOf_leaseRow.mp hrow, (Bool.and_eq_true ..).mp hcond⟩
  · rintro ⟨v, hrow, hcond⟩
    exact ⟨(p, v), List.mem_filter.mpr ⟨mem_rowsOf_leaseRow.mpr hrow, (Bool.and_eq_true ..).mpr hcond⟩, rfl⟩

/-- The rows of a batch, in the order of the fetch: the oldest ones, or with the bias the newest half and
then those of the oldest half that are not in it. `tie` and `tie'` break the ties of the two queries. -/
def batchRows (freshnessBias : Bool) (tie tie' : UUID → ℕ) (partitionIds : List ℕ) (s : Tables)
    (batchSize : ℕ) : List (UUID × Ticket) :=
  if freshnessBias then freshRows tie tie' partitionIds s batchSize
  else fetched true tie' partitionIds s batchSize

/-- The fetch returns exactly the rows of its batch. -/
theorem fetchWaitingTickets_batch (h : Sees s w T) (partitionIds : List ℕ) (batchSize : ℕ)
    (freshnessBias : Bool) :
    Client.Gives answer i l (fetchWaitingTickets partitionIds batchSize freshnessBias none)
      (fun tickets _ _ => ∃ tie tie',
        tickets = (batchRows freshnessBias tie tie' partitionIds s batchSize).map .ofRow) w T := by
  cases freshnessBias with
  | true =>
    refine (fetchWaitingTickets_fresh h).mono ?_
    rintro tickets _ _ ⟨m, n, hrows⟩
    exact ⟨_, _, hrows⟩
  | false =>
    unfold fetchWaitingTickets
    split
    · next hempty =>
      refine .pure ⟨fun _ => 0, fun _ => 0, ?_⟩
      rw [List.isEmpty_iff.mp hempty, batchRows, if_neg Bool.false_ne_true, fetched_empty]
      rfl
    · refine (fetchTicketsOrdered_fetches h _ true).mono ?_
      rintro tickets _ _ ⟨⟨n, hrows⟩, -⟩
      exact ⟨fun _ => 0, _, hrows⟩

section Batch

variable {freshnessBias : Bool} {tie tie' : UUID → ℕ} {partitionIds : List ℕ} {batchSize : ℕ}

/-- A fetched row is an open ticket of one of the partitions. -/
theorem batchRows_open {row : UUID × Ticket}
    (h : row ∈ batchRows freshnessBias tie tie' partitionIds s batchSize) :
    row ∈ openTickets partitionIds s := by
  cases freshnessBias
  · exact mem_fetched h
  · exact freshRows_open h

/-- A batch has no ticket twice. -/
theorem batchRows_distinct :
    (((batchRows freshnessBias tie tie' partitionIds s batchSize).map .ofRow).map
      WaitingTicket.ticketId).Nodup := by
  have hnodup : (batchRows freshnessBias tie tie' partitionIds s batchSize).Nodup := by
    cases freshnessBias
    · exact (fetched_isHalf ..).nodup
    · exact freshRows_nodup
  rw [List.map_map]
  exact List.Nodup.map_on
    (fun a ha b hb hab => openTickets_inj (batchRows_open ha) (batchRows_open hb) hab) hnodup

/-- A batch is no larger than it may be. -/
theorem batchRows_length :
    (batchRows freshnessBias tie tie' partitionIds s batchSize).length ≤ batchSize := by
  have hhalf : ∀ ascending tie limit, (fetched ascending tie partitionIds s limit).length ≤ limit :=
    fun _ _ _ => List.length_take_le ..
  cases freshnessBias
  · exact hhalf ..
  · have hnewest := hhalf false tie (newestLimit batchSize)
    have holdest := hhalf true tie' (oldestLimit batchSize)
    have hfilter := List.length_filter_le (fun row : UUID × Ticket =>
      (fetched false tie partitionIds s (newestLimit batchSize)).all fun other => other.1 ≠ row.1)
      (fetched true tie' partitionIds s (oldestLimit batchSize))
    rw [batchRows, if_pos rfl, freshRows, List.length_append]
    unfold oldestLimit newestLimit at *
    omega

end Batch

/-- Each query draws one order of ties, and asks for nothing else outside. -/
theorem fetchTicketsOrdered_observes (partitionIds : List ℕ) (limit : ℕ) (ascending : Bool) :
    Client.Observes Answer answer i l 1 (fetchTicketsOrdered partitionIds limit ascending none) :=
  .ite (.pure _) (.bind (m := 1) (n := 0) .call fun _ => .select)

/-- A fetch makes at most two queries: the oldest, and the newest where freshness counts. -/
theorem fetchWaitingTickets_observes (partitionIds : List ℕ) (batchSize : ℕ) (freshnessBias : Bool) :
    Client.Observes Answer answer i l 2 (fetchWaitingTickets partitionIds batchSize freshnessBias none) :=
  .ite (.pure _) (.ite ((fetchTicketsOrdered_observes _ _ _).mono (Nat.le_succ 1))
    (.bind (m := 1) (n := 1) (fetchTicketsOrdered_observes _ _ _) fun _ =>
      .bind (m := 1) (n := 0) (fetchTicketsOrdered_observes _ _ _) fun _ => .pure _))

/-! The search reads the clock twice for a comparison. -/

/-- Comparing two tickets reads the clock twice, once for the wait of each. -/
theorem ticketsCompatible_observes (left right : WaitingTicket) :
    Client.Observes Answer answer i l 2 (ticketsCompatible left right settings) := by
  have hwait : ∀ t, Client.Observes Answer answer i l 1 (waitSeconds t) := fun _ =>
    .bind (m := 1) (n := 0) .call fun _ => .pure _
  exact .ite (.pure _) (.bind (m := 1) (n := 1) (hwait _) fun _ =>
    .bind (m := 1) (n := 0) (hwait _) fun _ => .pure _)

/-- The search for a partner compares the ticket with the others at most once each. -/
theorem findSecond_observes (first : WaitingTicket) (used : List UUID) (tickets : List WaitingTicket) :
    Client.Observes Answer answer i l (2 * tickets.length) (findSecond settings first used tickets) := by
  induction tickets with
  | nil => exact .pure _
  | cons second rest ih =>
    have hlength : 2 * (second :: rest).length = 2 + 2 * rest.length := by
      rw [List.length_cons]
      omega
    rw [hlength]
    refine .ite (ih.mono (Nat.le_add_left ..)) (.bind (ticketsCompatible_observes _ _) fun compatible => ?_)
    exact .ite (.pure _) ih

/-- The number of entries that a search makes in the log at most. -/
def searchCalls (n : ℕ) : ℕ := 2 * n * n

/-- The search over the rest of the list makes a quadratic number of comparisons at most. -/
theorem findPairsFrom_observes (tickets : List WaitingTicket) (used : List UUID) :
    Client.Observes Answer answer i l (searchCalls tickets.length) (findPairsFrom settings tickets used) := by
  induction tickets generalizing used with
  | nil => exact .pure _
  | cons first rest ih =>
    have hle : 2 * rest.length + searchCalls rest.length ≤ searchCalls (first :: rest).length := by
      unfold searchCalls
      rw [Nat.add_comm, ← Nat.mul_succ, List.length_cons]
      exact Nat.mul_le_mul_right _ (Nat.mul_le_mul_left 2 (Nat.le_succ _))
    refine .ite ((ih used).mono (by omega)) (.mono (.bind (findSecond_observes _ _ _) fun second => ?_) hle)
    cases second with
    | none => exact ih used
    | some second => exact .bind (n := 0) (ih _) fun _ => .pure _

/-- So the number of calls of a whole search is bounded by the length of the list. -/
theorem findPairs_observes (hsize : settings.matchSize = 2) (tickets : List WaitingTicket) :
    Client.Observes Answer answer i l (searchCalls tickets.length) (findPairs tickets settings) := by
  unfold findPairs
  rw [if_neg (not_not.mpr hsize)]
  exact findPairsFrom_observes tickets []

/-! ## Pairs -/

/-- A waiting ticket, as it was fetched. -/
def IsWaiting (s : Tables) (t : WaitingTicket) : Prop :=
  ∃ row : UUID × Ticket, t = .ofRow row ∧ s.lookup (.tickets row.1) = some row.2 ∧ row.2.status = .waiting

/-- A fetched ticket is waiting in every store that has the same row. -/
theorem IsWaiting.of_same {t : WaitingTicket} (h : IsWaiting s t)
    (hsame : s'.lookup (.tickets t.ticketId) = s.lookup (.tickets t.ticketId)) : IsWaiting s' t := by
  obtain ⟨row, rfl, hrow, hst⟩ := h
  exact ⟨row, rfl, hsame.trans hrow, hst⟩

/-- An open ticket is a waiting one, as the worker fetches it. -/
theorem IsWaiting.of_open {partitionIds : List ℕ} {row : UUID × Ticket}
    (h : row ∈ openTickets partitionIds s) : IsWaiting s (.ofRow row) := by
  obtain ⟨hmem, hfetched⟩ := List.mem_filter.mp h
  simp only [isFetched, Bool.and_true, Bool.and_eq_true, decide_eq_true_eq] at hfetched
  exact ⟨row, rfl, mem_rowsOf_ticketRow.mp hmem, hfetched.2⟩

/-- Nobody is in two pairs of a stable pairing. -/
theorem pairedIds_nodup {may must : WaitingTicket → WaitingTicket → Prop} {tickets : List WaitingTicket}
    {pairs : List (WaitingTicket × WaitingTicket)} (h : IsStable may must tickets pairs)
    (hdistinct : (tickets.map WaitingTicket.ticketId).Nodup) : (pairedIds pairs).Nodup := by
  have hmap : pairedIds pairs = (pairs.flatMap fun p => [p.1, p.2]).map WaitingTicket.ticketId := by
    rw [List.map_flatMap]
    rfl
  have hmem : ∀ t ∈ pairs.flatMap fun p => [p.1, p.2], t ∈ tickets := by
    intro t ht
    obtain ⟨p, hp, ht⟩ := List.mem_flatMap.mp ht
    rcases List.mem_pair.mp ht with rfl | rfl
    · exact (h.inOrder p hp).mem.1
    · exact (h.inOrder p hp).mem.2
  rw [hmap]
  exact List.Nodup.map_on (fun a ha b hb => List.inj_on_of_nodup_map hdistinct (hmem a ha) (hmem b hb)) h.apart

/-- The match makes the pair a match of its two tickets, as they were fetched, with an event that goes to
the tenant's URL. -/
def NewMatch.Joins (s : Tables) (p : WaitingTicket × WaitingTicket) (n : NewMatch) : Prop :=
  p.1 = .ofRow (n.firstId, n.first) ∧ p.2 = .ofRow (n.secondId, n.second) ∧ n.Compatible ∧ n.Addressed s

/-- Every pair has become a match, and nothing else has changed. -/
structure AllMade (now : Time) (pairs : List (WaitingTicket × WaitingTicket)) (ns : List NewMatch)
    (s s' : Tables) : Prop where
  /-- There is one match for each pair. -/
  joins : List.Forall₂ (NewMatch.Joins s) pairs ns
  /-- The rows of the matches are all different. -/
  apart : (ns.flatMap fun n => n.changes now).NodupKeys
  /-- These rows change as their matches say, and all others are left alone, apart from the index. -/
  changed : Changed IsIndexKey (ns.flatMap fun n => n.changes now) s s'

/-- No matches have been made by no pairs. -/
theorem AllMade.refl (now : Time) (s : Tables) : AllMade now [] [] s s where
  joins := .nil
  apart := List.nodup_nil
  changed := .refl _ s

/-- What the key of a row of a new match has before the match: a waiting ticket, or nothing. -/
def Unmatched : (k : Key) → Option (Row k) → Prop
  | .tickets _, v => ∃ t, v = some t ∧ t.status = .waiting
  | _, v => v = none

namespace NewMatch

/-- Before the match, a row that it changes is a waiting ticket or is not there; the unique index is left out
of account. -/
theorem changes_before {n : NewMatch} (hn : n.Compatible) {c : Sigma fun k => Option (Row k) × Option (Row k)}
    (hc : c ∈ n.changes now) :
    ¬ IsIndexKey c.1 ∧ Unmatched c.1 c.2.1 := by
  simp only [changes, List.mem_cons, List.not_mem_nil, or_false] at hc
  rcases hc with rfl | rfl | rfl | rfl | rfl | rfl
  · exact ⟨fun h => h, rfl⟩
  · exact ⟨fun h => h, n.second, rfl, hn.secondWaiting⟩
  · exact ⟨fun h => h, rfl⟩
  · exact ⟨fun h => h, n.first, rfl, hn.firstWaiting⟩
  · exact ⟨fun h => h, rfl⟩
  · exact ⟨fun h => h, rfl⟩

/-- After it, none of these rows is a waiting ticket or missing any more. -/
theorem changes_after {n : NewMatch} {c : Sigma fun k => Option (Row k) × Option (Row k)}
    (hc : c ∈ n.changes now) : ¬ Unmatched c.1 c.2.2 := by
  simp only [changes, List.mem_cons, List.not_mem_nil, or_false] at hc
  have hmatched : ∀ t : Ticket, ¬ ∃ t', some (t.matchedWith n.matchId now) = some t' ∧ t'.status = .waiting := by
    rintro t ⟨t', ht, hst⟩
    obtain rfl := Option.some.inj ht
    cases hst
  rcases hc with rfl | rfl | rfl | rfl | rfl | rfl
  · exact fun h => by cases h
  · exact hmatched n.second
  · exact fun h => by cases h
  · exact hmatched n.first
  · exact fun h => by cases h
  · exact fun h => by cases h

/-- A match changes no row twice, since its two tickets and players differ. -/
theorem changes_nodupKeys {n : NewMatch} (hn : n.Compatible) (now : Time) : (n.changes now).NodupKeys := by
  simp [changes, List.nodupKeys_cons, List.keys, hn.apart.symm]

end NewMatch

section Pair

variable {s₁ : Tables} {p : WaitingTicket × WaitingTicket} {pairs : List (WaitingTicket × WaitingTicket)}
  {ns : List NewMatch}

/-- The tickets of others are left alone. -/
theorem MatchMade.tickets (h : MatchMade now p.1 p.2 s s₁) {id : UUID}
    (hid : id ≠ p.1.ticketId ∧ id ≠ p.2.ticketId) : s₁.lookup (.tickets id) = s.lookup (.tickets id) := by
  obtain ⟨n, hfirst, hsecond, -, -, hchanged⟩ := h
  rw [hfirst, hsecond] at hid
  exact NewMatch.frame_ticket hchanged hid

/-- The tickets of the other pairs are left alone. -/
theorem MatchMade.others (h : MatchMade now p.1 p.2 s s₁) (hapart : (pairedIds (p :: pairs)).Nodup) {id : UUID}
    (hid : id ∈ pairedIds pairs) : s₁.lookup (.tickets id) = s.lookup (.tickets id) := by
  obtain ⟨hfirst, hrest⟩ := List.nodup_cons.mp hapart
  refine h.tickets ⟨?_, ?_⟩
  · rintro rfl
    exact hfirst (List.mem_cons_of_mem _ hid)
  · rintro rfl
    exact (List.nodup_cons.mp hrest).1 hid

/-- Each new match is one of two compatible tickets. -/
theorem AllMade.compatible (h : AllMade now pairs ns s s') : ∀ n ∈ ns, n.Compatible := by
  have hjoins := h.joins
  clear h
  induction hjoins with
  | nil => exact fun _ hn => (List.not_mem_nil hn).elim
  | cons hp _ ih =>
    intro n hn
    rcases List.mem_cons.mp hn with rfl | hn
    · exact hp.2.2.1
    · exact ih n hn

/-- Every row that the matches change is one that they find unmatched. -/
theorem AllMade.before (h : AllMade now pairs ns s s') {c : Sigma fun k => Option (Row k) × Option (Row k)}
    (hc : c ∈ ns.flatMap fun n => n.changes now) : ¬ IsIndexKey c.1 ∧ Unmatched c.1 c.2.1 := by
  obtain ⟨n, hn, hc⟩ := List.mem_flatMap.mp hc
  exact NewMatch.changes_before (h.compatible n hn) hc

/-- One pair is matched, and then the others. -/
theorem AllMade.cons (h : MatchMade now p.1 p.2 s s₁) (hrest : AllMade now pairs ns s₁ s') :
    ∃ n, AllMade now (p :: pairs) (n :: ns) s s' := by
  obtain ⟨n, hfirst, hsecond, hn, hurl, hchanged⟩ := h
  have hnodup := NewMatch.changes_nodupKeys hn now
  -- what the first match has written, no later match finds unmatched
  have hapart : (n.changes now ++ ns.flatMap fun n => n.changes now).NodupKeys := by
    refine hchanged.nodupKeys_append hrest.changed hnodup hrest.apart
      (fun c hc => hrest.before hc) (fun c hc => NewMatch.changes_after hc)
  refine ⟨n, .cons ⟨hfirst, hsecond, hn, hurl⟩ (hrest.joins.imp fun q m hm => ?_), hapart,
    hchanged.trans hrest.changed hapart⟩
  -- the tenants are the same for the later matches
  obtain ⟨hfirst', hsecond', hm, tenant, htenant, hurl'⟩ := hm
  refine ⟨hfirst', hsecond', hm, tenant, ?_, hurl'⟩
  rw [← hchanged.frame (.tenants m.first.tenantId) (fun h => h) (n.dlookup_eq_none now (by simp))]
  exact htenant

end Pair

/-- The loop over the pairs, where the budget lasts: all pairs up to the limit are matched. -/
theorem processPairs_gives {loopStart : Time} {stop : ℕ}
    (hbudget : ∀ n, (answer n .perfCounter : Time) - loopStart < settings.workerLoopBudgetMs * 1000)
    (pairs : List (WaitingTicket × WaitingTicket)) (made processed : ℕ) (hs : Orderly s)
    (hfresh : FreshIds answer w.log.length stop s) (hstop : w.log.length + 6 * pairs.length ≤ stop)
    (hapart : (pairedIds pairs).Nodup) (hwaiting : ∀ p ∈ pairs, IsWaiting s p.1 ∧ IsWaiting s p.2)
    (hsame : ∀ p ∈ pairs, SameQueue p.1 p.2) (hclock : w.clock = now) (h : SeesAt now s w T) :
    Client.Gives answer i l (processPairs settings workerId loopStart pairs made processed) (fun _ w' T' =>
      ∃ s' ns, SeesAt now s' w' T' ∧ AllMade now (pairs.take (settings.workerMaxPairsPerLoop - made)) ns s s')
      w T := by
  induction pairs generalizing made processed s w T with
  | nil =>
    rw [List.take_nil]
    exact .pure ⟨s, [], h, .refl now s⟩
  | cons p pairs ih =>
    unfold processPairs
    split
    · next hmax =>
      rw [Nat.sub_eq_zero_of_le hmax, List.take_zero]
      exact .pure ⟨s, [], h, .refl now s⟩
    next hmax =>
    have hroom : settings.workerMaxPairsPerLoop - made = settings.workerMaxPairsPerLoop - (made + 1) + 1 := by
      omega
    have hlength : (p :: pairs).length = pairs.length + 1 := List.length_cons
    rw [hroom, List.take_succ_cons]
    refine .bind (.call_now ?_)
    -- the clock is read: there is still time
    rw [if_neg (Int.not_le.mpr (hbudget _))]
    generalize hw₁ : w.push i l (.call .perfCounter (.ok (answer w.log.length .perfCounter))) = w₁
    have h₁ : SeesAt now s w₁ T := hw₁ ▸ h.push ..
    have hlog₁ : w₁.log.length = w.log.length + 1 := by
      rw [← hw₁]
      rfl
    have hclock₁ : w₁.clock = now := by
      rw [← hw₁]
      exact hclock
    obtain ⟨⟨first, hfirst, hrow, hst⟩, ⟨second, hsecond, hrow', hst'⟩⟩ := hwaiting p List.mem_cons_self
    have hqueue := hsame p List.mem_cons_self
    obtain ⟨hp, hapart'⟩ := List.nodup_cons.mp hapart
    -- the pairs share no ticket, and so the two of this one differ
    have hne : p.1.ticketId ≠ p.2.ticketId := fun heq => hp (List.mem_cons.mpr (.inl heq))
    rw [hfirst, hsecond] at hqueue hne ⊢
    refine .bind (attempt_gives (.of_gives ((createMatchFromPair_gives hs (hfresh.later (by omega)) (by omega)
      hrow hrow' hne hst hst' hqueue h₁).timed.mono ?_)))
    rintro _ w₂ T₂ ⟨⟨rfl, hlog₂, s₂, h₂, hmade, hs₂, hfresh₂⟩, hclock₂, -⟩
    rw [← hfirst, ← hsecond] at hmade
    refine .bind (.emit (.bind (.commit_logged (h₂.push ..).toSees fun w₃ hs₃ hclock₃ hlog₃ hlog₃' => ?_)))
    have hlog₂' : (w₂.push i l (.emit Metric.recordMatch)).log.length = w₂.log.length + 1 := rfl
    have hclock₃' : w₃.clock = now := hclock₃.trans (hclock₂.trans hclock₁)
    have h₃ : SeesAt now s₂ w₃ none := ⟨⟨rfl, hs₃⟩, hclock₃'⟩
    -- the match touches no ticket of the pairs that follow
    refine (ih (made + 1) (processed + 1) hs₂ (hfresh₂.later (by omega)) (by omega)
      (List.nodup_cons.mp hapart').2 (fun q hq => ?_) (fun q hq => hsame q (List.mem_cons_of_mem _ hq)) hclock₃'
      h₃).mono ?_
    · have hold := hwaiting q (List.mem_cons_of_mem _ hq)
      exact ⟨hold.1.of_same (hmade.others hapart (List.mem_flatMap.mpr ⟨q, hq, List.mem_cons_self⟩)),
        hold.2.of_same (hmade.others hapart (List.mem_flatMap.mpr ⟨q, hq, List.mem_pair.mpr (.inr rfl)⟩))⟩
    -- the first match and those of the rest are the matches of all
    · rintro _ w₄ T₄ ⟨s₄, ns, h₄, hall⟩
      obtain ⟨n, hall⟩ := hall.cons hmade
      exact ⟨s₄, n :: ns, h₄, hall⟩

/-! ## Main result -/

/-- The number of entries that an undisturbed iteration makes in the log at most. -/
def iterationCalls (settings : Settings) : ℕ :=
  11 + searchCalls settings.workerTicketBatchSize + 6 * settings.workerTicketBatchSize

/-- The worker fetches the batch of the partitions that it holds, in the order of the fetch. Of a stable
pairing of this list, the first pairs up to the limit become matches, and nothing else changes. -/
def MatchingRound (settings : Settings) (workerId : String) (may must : WaitingTicket → WaitingTicket → Prop)
    (now : Time) (s s' : Tables) : Prop :=
  ∃ partitions tie tie' tickets pairs ns, (∀ p, p ∈ partitions ↔ LeasedTo workerId now s p) ∧
    tickets = (batchRows settings.workerFreshnessBias tie tie' partitions s
      settings.workerTicketBatchSize).map .ofRow ∧
    IsStable may must tickets pairs ∧ AllMade now (pairs.take settings.workerMaxPairsPerLoop) ns s s'

section Iteration

variable {start stop : ℕ} {τ₀ : Time} (hsize : settings.matchSize = 2) (hwidening : settings.Widening)
  (hsteady : ∀ m n, start ≤ m → m ≤ n → (answer m .wallClock : Time) ≤ answer n .wallClock)
  (hτ₀ : τ₀ ≤ answer start .wallClock)

include hsize hwidening hsteady hτ₀

/-- The steps of `match_tickets` in order: reservations are cleaned up, partitions listed, tickets fetched,
pairs found, and each pair becomes a match. -/
theorem matchTickets_gives {loopStart : Time}
    (hbudget : ∀ n, (answer n .perfCounter : Time) - loopStart < settings.workerLoopBudgetMs * 1000)
    (hs : Orderly s) (hfree : Unreserved s) (hfresh : FreshIds answer start stop s)
    (hstart : start ≤ w.log.length) (hstop : w.log.length + 5 + searchCalls settings.workerTicketBatchSize
      + 6 * settings.workerTicketBatchSize ≤ stop) (hclock : w.clock = now) (h : SeesAt now s w T) :
    Client.Gives answer i l (matchTickets settings workerId loopStart) (fun _ w' T' => ∃ s', SeesAt now s' w' T' ∧
      MatchingRound settings workerId (CompatibleOnce settings (Shown answer start)) (Compatible settings τ₀ τ₀)
        now s s') w T := by
  have hpush : ∀ (w : ServiceWorld) e, (w.push i l e).log.length = w.log.length + 1 := fun _ _ => rfl
  refine .bind ((cleanupExpiredReservations_gives hfree h).mono ?_)
  rintro expired _ T₁ ⟨rfl, h₁⟩
  refine .bind (.emit (.bind (.commit_logged (h₁.push ..).toSees fun w₂ hs₂ hclock₂ hlog₂ hlog₂' => ?_)))
  rw [hpush] at hlog₂ hlog₂'
  have hclock₂' : w₂.clock = now := hclock₂.trans hclock
  have h₂ : SeesAt now s w₂ none := ⟨⟨rfl, hs₂⟩, hclock₂'⟩
  refine .bind ((listOwnedPartitions_gives h₂).mono ?_)
  rintro partitions _ T₃ ⟨howned, rfl, h₃⟩
  refine .bind (.emit (.bind (.mono (.and (fetchWaitingTickets_batch (h₃.push ..).toSees partitions _ _)
    (.timed (fetchWaitingTickets_observes partitions _ _ now s _ T₃ (h₃.push ..)))) ?_)))
  rintro tickets w₄ T₄ ⟨⟨tie, tie', hrows⟩, ⟨h₄, hlog₄⟩, hclock₄, hlog₄'⟩
  -- what was fetched is the batch: its tickets are distinct, no more than the batch size, and waiting
  have hdistinct : (tickets.map WaitingTicket.ticketId).Nodup := by
    rw [hrows]
    exact batchRows_distinct
  have hlength : tickets.length ≤ settings.workerTicketBatchSize := by
    rw [hrows, List.length_map]
    exact batchRows_length
  have hwaiting : ∀ t ∈ tickets, IsWaiting s t := by
    intro t ht
    rw [hrows] at ht
    obtain ⟨row, hrow, rfl⟩ := List.mem_map.mp ht
    exact .of_open (batchRows_open hrow)
  rw [hpush] at hlog₄ hlog₄'
  have hstart₄ : start ≤ w₄.log.length := by omega
  refine .bind (.mono (.and (findPairs_isStable hsize hwidening hstart₄ tickets hdistinct hsteady hτ₀)
    (.timed (findPairs_observes hsize tickets now s w₄ T₄ h₄))) ?_)
  rintro pairs w₅ T₅ ⟨hstable, ⟨h₅, hlog₅⟩, hclock₅, hlog₅'⟩
  -- the search reads clocks only, and its pairs are made of the batch
  have hpairs : pairs.length ≤ tickets.length := by
    rw [← List.length_map]
    exact hstable.firsts.length_le
  have hmem : ∀ p ∈ pairs, p.1 ∈ tickets ∧ p.2 ∈ tickets := fun p hp => (hstable.inOrder p hp).mem
  have hsearch : searchCalls tickets.length ≤ searchCalls settings.workerTicketBatchSize :=
    Nat.mul_le_mul (Nat.mul_le_mul_left 2 hlength) hlength
  refine .bind ((processPairs_gives hbudget pairs 0 0 hs (hfresh.later ?_) ?_ (pairedIds_nodup hstable hdistinct)
    (fun p hp => ⟨hwaiting _ (hmem p hp).1, hwaiting _ (hmem p hp).2⟩) (fun p hp => ?_)
    ?_ h₅).mono ?_)
  · omega
  · omega
  · obtain ⟨t, t', -, -, htenant, hregion, hqueue, -⟩ := hstable.allowed p hp
    exact ⟨htenant, hregion, hqueue⟩
  · exact hclock₅.trans (hclock₄.trans hclock₂')
  · rintro ⟨made, processed, exceeded⟩ w₆ T₆ ⟨s₆, ns, h₆, hall⟩
    exact .emit ⟨s₆, h₆.push .., partitions, tie, tie', tickets, pairs, ns, howned, hrows, hstable, hall⟩

/-- A whole iteration: the lease transaction first, which may change what the worker holds, and then the
matching. -/
theorem runLoop_gives
    (hbudget : ∀ n, (answer n .perfCounter : Time) - answer w.log.length .perfCounter
      < settings.workerLoopBudgetMs * 1000)
    (hs : Orderly w.committed) (hfree : Unreserved w.committed)
    (hfresh : FreshIds answer start (w.log.length + iterationCalls settings) w.committed)
    (hstart : start ≤ w.log.length) (offset : ℕ) :
    Client.Gives answer i l (runLoop settings workerId offset) (fun _ w' _ =>
      ∃ s₁, (∀ k, ¬ IsLeaseKey k → s₁.lookup k = w.committed.lookup k) ∧
        MatchingRound settings workerId (CompatibleOnce settings (Shown answer start)) (Compatible settings τ₀ τ₀)
          w.clock s₁ w'.committed) w none := by
  refine .bind (.call_now (.bind (.call_now (.bind (attempt_gives (.of_gives (.bind ?_)))))))
  refine attempt_gives (.of_gives ((leaseTransaction_gives offset).mono ?_))
  rintro ⟨renewed, newlyClaimed, released⟩ w₁ T₁ ⟨rfl, hclock, hlog, hlog', hsame⟩
  have hclock' : w₁.clock = w.clock := hclock
  have hstart' : w.log.length + 2 ≤ w₁.log.length := hlog
  have hlength : w₁.log.length ≤ w.log.length + 3 := hlog'
  have hs₁ : Orderly w₁.committed := hs.of_same hsame
  have hfree₁ : Unreserved w₁.committed := fun id t ht =>
    hfree id t ((hsame (.tickets id) fun h => h).symm.trans ht)
  refine .bind (.emit (.bind (.emit (.bind (.emit (.mono (matchTickets_gives hsize hwidening hsteady hτ₀ hbudget
    hs₁ hfree₁ (hfresh.of_same hsame) ?_ ?_ rfl ⟨⟨rfl, rfl⟩, rfl⟩) ?_))))))
  · show start ≤ w₁.log.length + 3
    omega
  · show w₁.log.length + 3 + 5 + _ + _ ≤ w.log.length + (11 + _ + _)
    omega
  · rintro _ w₂ T₂ ⟨s₂, h₂, hround⟩
    refine .bind (.commit h₂.toSees fun w₃ hs₃ _ => .pure ⟨w₁.committed, hsame, ?_⟩)
    rw [hs₃, ← hclock']
    exact hround

end Iteration

/-- Every state of the service is orderly. -/
theorem orderly_of_reachable {rt : Runtime} {clock : Time} {s : ServiceState}
    (hs : (service rt).Reachable (emptyState clock) s) : Orderly s.world.committed where
  index := by
    have hwritten := index_written hs
    exact (service_past hs).history.chained.invariant (fun _ _ h => by cases h)
      fun e he t b hc => (hwritten e he t b hc).sound
  paired := (service_past hs).outbox.paired
  known := (service_past hs).invariant (fun _ _ h => by cases h) fun _ _ _ => Legal.ticketsKnown

/-- **An undisturbed iteration matches a stable pairing.** From every reachable state in which all sessions
are over, an iteration of a worker that gets its answers, new ids among them, and that has the time, runs
to its end. Between its lease transaction, which leaves `s₁`, and its end, it fetches the batch of its
partitions, pairs the tickets of this list off stably, and makes one match of each of the first pairs, up
to its limit. No other row of any table changes. Pairs are of two, tolerances do not shrink with waiting,
and the host's clock does not go back. -/
theorem quiet_iteration {rt : Runtime} {settings : Settings} (hsize : settings.matchSize = 2)
    (hwidening : settings.Widening) {clock : Time} {s : ServiceState}
    (hs : (service rt).Reachable (emptyState clock) s) (hover : ∀ x ∈ s.sessions, x = none)
    {answer : ℕ → (c : Call) → Reply c}
    (hsteady : ∀ m n, s.world.log.length < m → m ≤ n → (answer m .wallClock : Time) ≤ answer n .wallClock)
    {τ₀ : Time} (hτ₀ : τ₀ ≤ answer (s.world.log.length + 1) .wallClock)
    (hbudget : ∀ n, (answer n .perfCounter : Time) - answer (s.world.log.length + 1) .perfCounter
      < settings.workerLoopBudgetMs * 1000)
    (hfresh : FreshIds answer (s.world.log.length + 1) (s.world.log.length + 1 + iterationCalls settings)
      s.world.committed) (workerId : String) (offset : ℕ) :
    ∃ n s', (service rt).play [.act (.start (.runLoop settings workerId offset)),
        .advance (fun k c => .ok (answer k c)) s.sessions.length n] s = some s' ∧
      (∀ x ∈ s'.sessions, x = none) ∧
      ∃ s₁, (∀ k, ¬ IsLeaseKey k → s₁.lookup k = s.world.committed.lookup k) ∧
        MatchingRound settings workerId (CompatibleOnce settings (Shown answer (s.world.log.length + 1)))
          (Compatible settings τ₀ τ₀) s.world.clock s₁ s'.world.committed := by
  let l : Actor := .runLoop settings workerId offset
  let w : ServiceWorld := s.world.push s.sessions.length l .begun
  have hbudget' : ∀ n, (answer n .perfCounter : Time) - answer w.log.length .perfCounter
    < settings.workerLoopBudgetMs * 1000 := hbudget
  have hprogram : Client.Gives answer s.sessions.length l ((service rt).program l) (fun _ w' _ =>
      ∃ s₁, (∀ k, ¬ IsLeaseKey k → s₁.lookup k = s.world.committed.lookup k) ∧
        MatchingRound settings workerId (CompatibleOnce settings (Shown answer (s.world.log.length + 1)))
          (Compatible settings τ₀ τ₀) s.world.clock s₁ w'.committed) w none :=
    .bind (.mono (runLoop_gives hsize hwidening hsteady hτ₀ hbudget' (orderly_of_reachable hs)
      (service_past hs).unreserved hfresh (Nat.le_refl _) offset) fun _ _ _ h => .pure h)
  obtain ⟨n, s', hplay, hover', a, w', T', hround, hworld⟩ := hprogram.plays hover
  refine ⟨n, s', hplay, hover', ?_⟩
  rw [hworld]
  exact hround

/-- The key is of no match and of no event. -/
def isUnmatchedKey : Key → Bool
  | .matches _ | .callbackEvents _ => false
  | _ => true

/-- Three tickets of two regions: an iteration that runs alone makes one match of the two that fit. -/
theorem quiet_iteration_three : ∃ n s', (service sampleRuntime).play [
      .act (.start (.runLoop (smallBatches false) "w" 0)),
      .advance (fun k c => .ok (quietAnswer k c)) (threeState "eu" "eu" "us").sessions.length n]
      (threeState "eu" "eu" "us") = some s' ∧ ∃ s₁ may, MatchingRound (smallBatches false) "w" may
        (Compatible (smallBatches false) 0 0) (threeState "eu" "eu" "us").world.clock s₁ s'.world.committed := by
  have hover : (threeState "eu" "eu" "us").sessions.all Option.isNone = true := by decide +kernel
  have hkeys : (threeState "eu" "eu" "us").world.committed.keys.all isUnmatchedKey = true := by decide +kernel
  have hlength : (threeState "eu" "eu" "us").world.log.length ≤ 100 := by decide +kernel
  have hnone : ∀ k, isUnmatchedKey k = false → (threeState "eu" "eu" "us").world.committed.lookup k = none := by
    intro k hk
    refine AList.lookup_eq_none.mpr fun hmem => ?_
    rw [List.all_eq_true.mp hkeys k (AList.mem_keys.mp hmem)] at hk
    cases hk
  have hfresh : FreshIds quietAnswer ((threeState "eu" "eu" "us").world.log.length + 1)
      ((threeState "eu" "eu" "us").world.log.length + 1 + iterationCalls (smallBatches false))
      (threeState "eu" "eu" "us").world.committed := by
    refine ⟨fun m n _ hmn hn heq => ?_, fun n _ _ => hnone _ rfl, fun n _ _ => hnone _ rfl⟩
    have hcalls : iterationCalls (smallBatches false) = 31 := rfl
    have heq : m % 2 ^ 128 = n % 2 ^ 128 := congrArg BitVec.toNat heq
    omega
  have htime : (0 : ℤ) - 0 < 2000 * 1000 := by decide
  obtain ⟨n, s', hplay, -, s₁, -, hround⟩ := @quiet_iteration sampleRuntime (smallBatches false) rfl
    ⟨by decide, by decide⟩ 0 _ (System.reachable_after (threeScript "eu" "eu" "us") _)
    (fun x hx => Option.isNone_iff_eq_none.mp (List.all_eq_true.mp hover x hx)) quietAnswer
    (fun _ _ _ _ => Int.le_refl _) 0 (Int.le_refl 0) (fun _ => htime) hfresh "w" 0
  exact ⟨n, s', hplay, s₁, _, hround⟩

end Matchmaking
