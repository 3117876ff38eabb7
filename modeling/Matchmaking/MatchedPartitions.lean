import Matchmaking.EntryRules
import Matchmaking.SkillRule

/-!
# Workers match in their own partitions

A worker lists its partitions once in an iteration, and matches tickets long after. Whatever happens in
between, each match that it commits is one of tickets in a partition of which it has seen the lease: the
lease was its own, and live when it was read.
-/

namespace Matchmaking

open ReadCommitted ReadCommitted.Triple

variable {rt : Runtime} {i : ℕ} {l : Actor} {settings : Settings} {workerId : String} {offset p : ℕ}
  {log : List LogEntry} {w : ServiceWorld} {wt : WaitingTicket} {α : Type}

/-! ## What is due -/

/-- At a moment of session `i` the partition was leased to the worker, and the lease was live. -/
def HeldLease (workerId : String) (i p : ℕ) (log : List LogEntry) : Prop :=
  ∃ mid σ lease now, Moment i log mid σ ∧ (∀ e ∈ mid, e.time ≤ now) ∧
    σ.lookup (.partitionLeases p) = some lease ∧ lease.isOwnedBy workerId = true ∧ lease.isLive now = true

theorem HeldLease.mono {log' : List LogEntry} (h : HeldLease workerId i p log) (hlog : log <:+ log') :
    HeldLease workerId i p log' := by
  obtain ⟨mid, σ, lease, now, hm, hlease⟩ := h
  exact ⟨mid, σ, lease, now, hm.mono hlog, hlease⟩

/-- The tickets of a match that an iteration commits are in partitions that it has held. -/
def leaseRule : EntryRule where
  due e older := ∀ settings workerId offset, e.actor = .runLoop settings workerId offset → ∀ t b,
    e.event.commit? = some (t, b) → ∀ n, Makes e.actor t b n →
      HeldLease workerId e.session n.first.partitionId older ∧
        HeldLease workerId e.session n.second.partitionId older
  quiet _ _ hcommit _ _ _ _ _ _ _ hc := by cases hcommit.symm.trans hc
  mono _ _ _ _ h settings workerId offset hl t b hc n hn :=
    ⟨(h settings workerId offset hl t b hc n hn).1.mono (List.suffix_append _ _),
      (h settings workerId offset hl t b hc n hn).2.mono (List.suffix_append _ _)⟩

/-! ## Listing and fetching -/

/-- The partitions that are listed are held. -/
theorem listOwnedPartitions_held :
    Triple (entrySpec rt leaseRule) i l (fun w T => Idle w T ∧ Begun i w) (listOwnedPartitions workerId)
      (fun owned w _ => ∀ p ∈ owned, HeldLease workerId i p w.log) anything := by
  have hselect : Triple (entrySpec rt leaseRule) i l (fun w T => Idle w T ∧ Begun i w)
      (selectLeases fun now _ v => v.isOwnedBy workerId && v.isLive now)
      (fun owned w _ => ∀ p ∈ owned, HeldLease workerId i p w.log) anything := by
    refine select (Idle.stable.and begun_lasting.stable) ?_ fun _ _ _ _ _ => trivial
    rintro w T hfacts ⟨rfl, hbegun⟩ - p hp
    obtain ⟨⟨p', lease⟩, hmem, rfl⟩ := List.mem_map.mp hp
    obtain ⟨hrow, hlease⟩ := List.mem_filter.mp hmem
    obtain ⟨hown, hlive⟩ := Bool.and_eq_true_iff.mp hlease
    exact ⟨w.log, w.committed, lease, w.clock, hbegun.moment hfacts.2, hfacts.2.history.past,
      mem_rowsOf_leaseRow.mp hrow, hown, hlive⟩
  exact .bind hselect fun owned => .pure _ fun w T h p hp => h p (mem_orderBy.mp hp)

/-- What is fetched is in the partitions. -/
theorem fetchTicketsOrdered_partition {partitionIds : List ℕ} {limit : ℕ} {ascending : Bool}
    {maxWait : Option Time} : Triple (entrySpec rt leaseRule) i l (fun _ _ => True)
      (fetchTicketsOrdered partitionIds limit ascending maxWait)
      (fun ts _ _ => ∀ wt ∈ ts, wt.partitionId ∈ partitionIds) anything := by
  refine .ite (fun _ => .pure _ fun _ _ _ _ hwt => (List.not_mem_nil hwt).elim) fun _ => ?_
  have hask : Triple (entrySpec rt leaseRule) i l (fun _ _ => True) (ask .tieBreak) (fun _ _ _ => True)
      anything := Triple.ask_ok entrySpec_logs (.own fun _ => True) fun _ _ _ _ _ _ => trivial
  refine .bind hask fun tie => select (.own fun _ => True) ?_ fun _ _ _ _ _ => trivial
  intro w T _ _ _ wt hwt
  obtain ⟨⟨id, t⟩, hrow, rfl⟩ := List.mem_map.mp hwt
  have hfetched := (List.mem_filter.mp (mem_orderBy.mp (List.mem_of_mem_take hrow))).2
  simp only [isFetched, Bool.and_eq_true, decide_eq_true_eq] at hfetched
  exact hfetched.1.1

theorem fetchWaitingTickets_partition {partitionIds : List ℕ} {batchSize : ℕ} {freshnessBias : Bool}
    {maxWait : Option Time} : Triple (entrySpec rt leaseRule) i l (fun _ _ => True)
      (fetchWaitingTickets partitionIds batchSize freshnessBias maxWait)
      (fun ts _ _ => ∀ wt ∈ ts, wt.partitionId ∈ partitionIds) anything := by
  refine .ite (fun _ => .pure _ fun _ _ _ _ hwt => (List.not_mem_nil hwt).elim) fun _ =>
    .ite (fun _ => fetchTicketsOrdered_partition) fun _ => ?_
  refine .bind fetchTicketsOrdered_partition fun newest =>
    (Triple.pure_pre fun hnewest => ?_).pre fun _ _ h => ⟨h, trivial⟩
  refine .bind fetchTicketsOrdered_partition fun oldest => .pure _ ?_
  intro w T holdest wt hwt
  rcases List.mem_append.mp hwt with hwt | hwt
  · exact hnewest wt hwt
  · exact holdest wt (List.mem_filter.mp hwt).1

/-! ## Commits -/

/-- The ticket is one of the database, in a partition that the session has held. -/
def TicketHeld (workerId : String) (i : ℕ) (wt : WaitingTicket) (w : ServiceWorld) : Prop :=
  IsFetched w.committed wt ∧ HeldLease workerId i wt.partitionId w.log

theorem TicketHeld.grows {w' : ServiceWorld} (h : TicketHeld workerId i wt w) (hg : Grows w w') :
    TicketHeld workerId i wt w' := ⟨h.1.persist hg.persist, h.2.mono hg.log⟩

/-- All tickets of the pairs are. -/
def PairsHeld (workerId : String) (i : ℕ) (pairs : List (WaitingTicket × WaitingTicket)) (w : ServiceWorld) :
    Prop := ∀ q ∈ pairs, TicketHeld workerId i q.1 w ∧ TicketHeld workerId i q.2 w

theorem pairsHeld_lasting (pairs : List (WaitingTicket × WaitingTicket)) :
    (entrySpec rt leaseRule).Lasting i l (PairsHeld workerId i pairs) :=
  entrySpec_lasting fun _ _ hg h q hq => ⟨(h q hq).1.grows hg, (h q hq).2.grows hg⟩

/-- Commits whose rows follow `Φ` while `C` holds are no matches, or matches in partitions that were held. -/
structure Keeps (rt : Runtime) (settings : Settings) (workerId : String) (offset i : ℕ) (Φ : RowRel Row)
    (C : ServiceWorld → Prop) : Prop where
  refl : ∀ now k v, Φ now k v v
  trans : ∀ now k v v' v'', Φ now k v v' → Φ now k v' v'' → Φ now k v v''
  lasting : (entrySpec rt leaseRule).Lasting i (.runLoop settings workerId offset) C
  held : ∀ w t, (∀ k, Φ t.start k (w.committed.lookup k) ((patch t.writes w.committed).lookup k)) →
    C w → ∀ n, Makes (.runLoop settings workerId offset) t w.committed n →
      HeldLease workerId i n.first.partitionId w.log ∧ HeldLease workerId i n.second.partitionId w.log

namespace Keeps

variable {Φ : RowRel Row} {C : ServiceWorld → Prop}

section

variable (h : Keeps rt settings workerId offset i Φ C)

include h

theorem commits : (entrySpec rt leaseRule).Commits i (.runLoop settings workerId offset) fun w t =>
    (∀ k, Φ t.start k (w.committed.lookup k) ((patch t.writes w.committed).lookup k)) ∧ C w := by
  refine entrySpec_commits ?_
  rintro w t _ ⟨hrows, hc⟩ _ _ _ ⟨⟩ _ _ ⟨⟩ n hn
  exact h.held w t hrows hc n hn

theorem uses {x : Db α} (hx : UsesRows Φ x) :
    Triple (entrySpec rt leaseRule) i (.runLoop settings workerId offset)
      (fun w T => Follows Φ w T ∧ C w) x (fun _ w T => Follows Φ w T ∧ C w)
      fun _ w T => Follows Φ w T ∧ C w :=
  of_uses_lasting h.refl h.trans entrySpec_logs h.lasting h.commits hx

theorem commit : Triple (entrySpec rt leaseRule) i (.runLoop settings workerId offset)
    (fun w T => Follows Φ w T ∧ C w) (perform .commit) (fun _ w T => Idle w T ∧ C w) anything := by
  have hcommit : Triple (entrySpec rt leaseRule) i (.runLoop settings workerId offset)
      (fun w T => Follows Φ w T ∧ C w) (perform .commit) (fun _ => Idle) fun _ => Idle :=
    .stage_commit ((Follows.stable Φ).and h.lasting.stable)
      (fun w t _ hp => ⟨hp.1.view h.refl, hp.2⟩) h.commits
  exact (keep h.lasting hcommit.any).pre fun _ _ hp => ⟨hp, hp.2⟩

end

/-- Where rows of `matches` stay as they are, no match is made. -/
theorem of_matches (hrefl : ∀ now k v, Φ now k v v)
    (htrans : ∀ now k v v' v'', Φ now k v v' → Φ now k v' v'' → Φ now k v v'')
    (hC : (entrySpec rt leaseRule).Lasting i (.runLoop settings workerId offset) C)
    (hmatches : ∀ now m v v', Φ now (.matches m) v v' → v' = v) :
    Keeps rt settings workerId offset i Φ C := by
  refine ⟨hrefl, htrans, hC, fun w t hrows _ n hn => ?_⟩
  obtain ⟨hold, hnew⟩ := hn.changed.lookup (.matches n.matchId) (fun h => h) (n.dlookup_match t.start)
  cases (hold.symm.trans ((hmatches _ _ _ _ (hrows (.matches n.matchId))).symm.trans hnew))

theorem still (hC : (entrySpec rt leaseRule).Lasting i (.runLoop settings workerId offset) C) :
    Keeps rt settings workerId offset i Matchmaking.still C :=
  of_matches (fun _ _ _ => rfl) (fun _ _ _ _ _ h h' => Eq.trans h' h) hC fun _ _ _ _ h => h

/-- A pair of held tickets may be committed as a match. -/
theorem pair {q : WaitingTicket × WaitingTicket}
    (hC : (entrySpec rt leaseRule).Lasting i (.runLoop settings workerId offset) C) :
    Keeps rt settings workerId offset i (onlyTickets [q.1.ticketId, q.2.ticketId])
      fun w => PairsHeld workerId i [q] w ∧ C w where
  refl := onlyTickets_refl _
  trans := onlyTickets_trans _
  lasting := (pairsHeld_lasting _).and hC
  held w t hrows hq n hn := by
    obtain ⟨hfirst, hsecond⟩ := hq.1 q List.mem_cons_self
    -- both tickets of the match change, so they are among the two tickets of the pair
    have hmem : ∀ {id : UUID} {a a' : Ticket}, w.committed.lookup (.tickets id) = some a →
        (patch t.writes w.committed).lookup (.tickets id) = some a' → a'.status ≠ a.status →
        HeldLease workerId i a.partitionId w.log := by
      intro id a a' hold hnew hne
      obtain hid | hsame := hrows (.tickets id)
      · rcases List.mem_pair.mp hid with rfl | rfl
        · have hpartition : q.1.partitionId = a.partitionId :=
            congrArg WaitingTicket.partitionId (hfirst.1.eq_ofRow hold)
          exact hpartition ▸ hfirst.2
        · have hpartition : q.2.partitionId = a.partitionId :=
            congrArg WaitingTicket.partitionId (hsecond.1.eq_ofRow hold)
          exact hpartition ▸ hsecond.2
      · rw [hold, hnew] at hsame
        exact absurd (congrArg Ticket.status (Option.some.inj hsame)) hne
    have h₁ := hn.changed.lookup (.tickets n.firstId) (fun h => h)
      (n.dlookup_first t.start hn.compatible.apart)
    have h₂ := hn.changed.lookup (.tickets n.secondId) (fun h => h) (n.dlookup_second t.start)
    refine ⟨hmem h₁.1 h₁.2 ?_, hmem h₂.1 h₂.2 ?_⟩
    · rw [hn.compatible.firstWaiting]
      exact fun h => by cases h
    · rw [hn.compatible.secondWaiting]
      exact fun h => by cases h

end Keeps

/-! ## The loop -/

theorem processPairs_held {loopStart : Time} (pairs : List (WaitingTicket × WaitingTicket)) :
    ∀ matchesCreated processedPairs,
      Triple (entrySpec rt leaseRule) i (.runLoop settings workerId offset)
        (fun w T => Follows still w T ∧ PairsHeld workerId i pairs w)
        (processPairs settings workerId loopStart pairs matchesCreated processedPairs)
        (fun _ => Follows still) anything := by
  induction pairs with
  | nil => exact fun _ _ => .pure _ fun _ _ h => h.1
  | cons q pairs ih =>
    intro matchesCreated processedPairs
    obtain ⟨first, second⟩ := q
    have hlasting := @pairsHeld_lasting rt i (.runLoop settings workerId offset) workerId pairs
    have hrest := fun n m => (ih n m).pre
      fun w T (h : Idle w T ∧ PairsHeld workerId i pairs w) => ⟨Follows.idle h.1, h.2⟩
    -- a failed attempt is rolled back
    have hany : Stable (entrySpec rt leaseRule) i (.runLoop settings workerId offset)
        fun _ _ => True := .own fun _ => True
    have hmark : ∀ m, Triple (entrySpec rt leaseRule) i (.runLoop settings workerId offset)
        (fun w T => True ∧ PairsHeld workerId i pairs w) (record m)
        (fun _ w T => True ∧ PairsHeld workerId i pairs w) anything := fun m =>
      keep hlasting (Triple.record entrySpec_logs hany fun _ _ _ _ _ _ => trivial)
    have hfail : ∀ n m, Triple (entrySpec rt leaseRule) i (.runLoop settings workerId offset)
        (fun w T => True ∧ PairsHeld workerId i pairs w) (do
          record .recordMatchFailure
          record .recordRollback
          perform .rollback
          processPairs settings workerId loopStart pairs n m) (fun _ => Follows still)
        anything := fun n m =>
      .bind (hmark _) fun _ => .bind (hmark _) fun _ =>
      .bind (keep hlasting (rollback hany (fun _ _ _ _ => rfl) fun _ _ _ _ _ => trivial)) fun _ =>
      hrest n m
    refine .ite (fun _ => .pure _ fun _ _ h => h.1) fun _ => ?_
    refine .bind ((Keeps.still (pairsHeld_lasting _)).uses (UsesRows.ask _)).any fun now =>
      .ite (fun _ => .pure _ fun _ _ h => h.1) fun _ => ?_
    -- the attempt works on the tickets of the pair, whose leases are held
    have hpair := @Keeps.pair rt i settings workerId offset _ (first, second) hlasting
    have hattempt := (hpair.uses (usesRows_createMatchFromPair first second workerId
      (reservationSeconds settings))).pre
      fun w T (h : Follows still w T ∧ PairsHeld workerId i ((first, second) :: pairs) w) =>
        ⟨Follows.of_same (onlyTickets_refl _) h.1, fun q hq => h.2 q (by
          rw [List.mem_singleton.mp hq]
          exact List.mem_cons_self), fun q hq => h.2 q (List.mem_cons_of_mem _ hq)⟩
    refine .bind (Triple.attempt hattempt) ?_
    rintro (e | _ | _)
    · exact .ite (fun _ => (hfail _ _).pre fun _ _ h => ⟨trivial, h.2.2⟩)
        fun _ => .throw _ fun _ _ _ => trivial
    · exact (hfail _ _).pre fun _ _ h => ⟨trivial, h.2.2⟩
    · exact .bind (hpair.uses (UsesRows.record _)).any fun _ => .bind hpair.commit fun _ =>
        (hrest _ _).pre fun _ _ h => ⟨h.1, h.2.2⟩

/-- Every match of an iteration is in a partition that is listed as its own. -/
theorem matchTickets_held {loopStart : Time} :
    Triple (entrySpec rt leaseRule) i (.runLoop settings workerId offset)
      (fun w T => Idle w T ∧ Begun i w) (matchTickets settings workerId loopStart) (fun _ => Follows still)
      anything := by
  have hcleanup : Keeps rt settings workerId offset i (workerRows workerId settings.workerLeaseSeconds)
      (Begun i) :=
    .of_matches (Actor.rows_refl (.runLoop settings workerId offset)) (workerRows_trans _ _) begun_lasting
      fun _ _ _ _ h => h
  have hread : ∀ {α : Type} {x : Db α} {P : Condition} {Q : α → Condition} {C : ServiceWorld → Prop},
      (entrySpec rt leaseRule).Lasting i (.runLoop settings workerId offset) C →
      Triple (commitSpec rt) i (.runLoop settings workerId offset) P x Q anything → UsesRows still x →
      Triple (entrySpec rt leaseRule) i (.runLoop settings workerId offset)
        (fun w T => P w T ∧ Follows still w T ∧ C w) x
        (fun a w T => Q a w T ∧ Follows still w T ∧ C w) anything :=
    fun hC h hx => any (entered h ((Keeps.still hC).uses hx))
  have hheld : ∀ owned : List ℕ, (entrySpec rt leaseRule).Lasting i (.runLoop settings workerId offset)
      fun w => ∀ p ∈ owned, HeldLease workerId i p w.log := fun owned =>
    entrySpec_lasting fun _ _ hg h p hp => (h p hp).mono hg.log
  have htickets : ∀ tickets : List WaitingTicket,
      (entrySpec rt leaseRule).Lasting i (.runLoop settings workerId offset)
        fun w => ∀ wt ∈ tickets, TicketHeld workerId i wt w := fun tickets =>
    entrySpec_lasting fun _ _ hg h wt hwt => (h wt hwt).grows hg
  refine .bind ((hcleanup.uses (.cleanupExpiredReservations ..)).any.pre
    fun _ _ h => ⟨Follows.idle h.1, h.2⟩) fun expired =>
    .bind (hcleanup.uses (.record _)).any fun _ => .bind hcleanup.commit fun _ => ?_
  have hlist := (hread .trivial listOwnedPartitions_triple (usesRows_composite.listOwnedPartitions workerId)).and
    (@listOwnedPartitions_held rt i (.runLoop settings workerId offset) workerId)
  refine .bind (hlist.any.pre fun w T h => ⟨⟨Idle.clean h.1, Follows.idle h.1, trivial⟩, h⟩) fun owned => ?_
  have hrecord : ∀ m, Triple (commitSpec rt) i (.runLoop settings workerId offset) (Clean IsIndexKey)
      (record m) (fun _ => Clean IsIndexKey) anything := fun m =>
    Triple.record commitSpec_logs Clean.stable Clean.unlogged
  refine .bind ((hread (hheld owned) (hrecord _) (.record _)).pre fun w T h => ⟨h.1.1, h.1.2.1, h.2⟩) fun _ => ?_
  have hfetch := (hread (hheld owned) fetchWaitingTickets_triple (usesRows_composite.fetchWaitingTickets owned
    settings.workerTicketBatchSize settings.workerFreshnessBias none)).and fetchWaitingTickets_partition
  refine .bind (hfetch.any.pre fun w T h => ⟨h, trivial⟩) fun tickets => ?_
  have hfind := hread (htickets tickets) (findPairs_triple Clean.stable Clean.unlogged)
    (usesRows_composite.findPairs tickets settings)
  refine .bind (hfind.pre fun w T h => ⟨h.1.1.1, h.1.2.1, fun wt hwt =>
    ⟨h.1.1.2 wt hwt, h.1.2.2 _ (h.2 wt hwt)⟩⟩) fun pairs => ?_
  refine .bind ((processPairs_held pairs 0 0).pre fun w T h => ⟨h.2.1, fun q hq =>
    ⟨h.2.2 _ (h.1.1 q hq).1, h.2.2 _ (h.1.1 q hq).2.1⟩⟩) fun counts => ?_
  exact ((Keeps.still .trivial).uses (.record _)).conseq (fun _ _ h => ⟨h, trivial⟩)
    (fun _ _ _ h => h.1) fun _ _ _ _ => trivial

theorem runLoop_held :
    Triple (entrySpec rt leaseRule) i (.runLoop settings workerId offset) (fun w T => Idle w T ∧ Begun i w)
      (runLoop settings workerId offset) anything anything := by
  have hlease : Keeps rt settings workerId offset i (workerRows workerId settings.workerLeaseSeconds)
      (Begun i) :=
    .of_matches (Actor.rows_refl (.runLoop settings workerId offset)) (workerRows_trans _ _) begun_lasting
      fun _ _ _ _ h => h
  have htransaction : Triple (entrySpec rt leaseRule) i (.runLoop settings workerId offset)
      (fun w T => Idle w T ∧ Begun i w) (leaseTransaction settings workerId offset)
      (fun _ w T => Idle w T ∧ Begun i w) anything :=
    .bind ((hlease.uses (.leaseOperations settings offset)).any.pre
      fun _ _ h => ⟨Follows.idle h.1, h.2⟩) fun counts =>
      .bind hlease.commit fun _ => .pure _ fun _ _ h => h
  have hidle : ∀ m, Triple (entrySpec rt leaseRule) i (.runLoop settings workerId offset)
      (fun w T => Idle w T ∧ Begun i w) (record m) (fun _ w T => Idle w T ∧ Begun i w) anything := fun m =>
    keep begun_lasting (Triple.record entrySpec_logs Idle.stable Idle.unlogged)
  have hstill : Keeps rt settings workerId offset i still fun _ => True := .still .trivial
  have hcommit : Triple (entrySpec rt leaseRule) i (.runLoop settings workerId offset) (Follows still)
      (perform .commit) (fun _ => Idle) fun _ => Idle :=
    .stage_commit (Follows.stable _) (fun _ _ _ h => ⟨h.view hstill.refl, trivial⟩) hstill.commits
  refine .bind (keep begun_lasting (Triple.ask_ok entrySpec_logs Idle.stable Idle.unlogged)) fun loopStart =>
    Triple.any (Triple.withConnection entrySpec_logs begun_lasting (.bind (Triple.attempt htransaction) ?_)
      fun _ => hcommit.post fun _ _ _ _ => trivial)
  rintro (e | ⟨renewed, newlyClaimed, released⟩)
  · refine .ite (fun _ => .bind ?_ fun _ => .bind (Triple.record entrySpec_logs Idle.stable
      Idle.unlogged) fun _ => .throw e fun _ _ _ => trivial) fun _ => .throw e fun _ _ _ => trivial
    exact rollback (.own fun _ => True) (fun _ _ _ _ => rfl) fun _ _ _ _ _ => trivial
  · exact .bind (hidle _) fun _ => .bind (hidle _) fun _ => .bind (hidle _) fun _ => matchTickets_held

/-- In every run, the matches of workers are in partitions that they have held. -/
theorem leases_justified {clock : Time} {s : ServiceState}
    (hs : (service rt).Reachable (emptyState clock) s) : Justified leaseRule.due s.world.log := by
  refine service_justified (fun i l born => ?_) hs
  have hanswer : ∀ (r : Except Exn Answer) (w : ServiceWorld) time,
      leaseRule.due ⟨i, l, time, .answer born r⟩ w.log := by
    rintro r w time _ _ _ _ _ _ ⟨⟩
  by_cases hl : ∃ settings workerId offset, l = .runLoop settings workerId offset
  · obtain ⟨settings, workerId, offset, rfl⟩ := hl
    have hloop : Triple (entrySpec rt leaseRule) i (.runLoop settings workerId offset)
        (fun w T => Idle w T ∧ Since born i w) (program rt (.runLoop settings workerId offset))
        anything anything :=
      .bind (runLoop_held.pre fun _ _ h => ⟨h.1, h.2.2⟩) fun _ => .pure _ fun _ _ _ => trivial
    exact hloop.conseq (fun _ _ h => h) (fun _ w _ _ => hanswer _ w) fun _ w _ _ => hanswer _ w
  · have hcommits : (entrySpec rt leaseRule).Commits i l fun _ _ => True :=
      entrySpec_commits fun _ _ _ _ settings workerId offset h => absurd ⟨settings, workerId, offset, h⟩ hl
    exact (of_commits entrySpec_logs hcommits).conseq (fun _ _ h => h) (fun _ w _ _ => hanswer _ w)
      fun _ w _ _ => hanswer _ w

/-! ## Main result -/

/-- **Workers match in their own partitions.** Every committed match has been committed by an iteration of a
worker that, earlier in the iteration, held a live lease of the partition of the match; the tickets of both
of its players are in partitions that it held then. -/
theorem matches_in_held_partitions {clock : Time} {s : ServiceState}
    (hs : (service rt).Reachable (emptyState clock) s) : ∀ m row,
      s.world.committed.lookup (.matches m) = some row →
        ∃ newer entry older settings workerId offset, s.world.log = newer ++ entry :: older ∧
          entry.actor = .runLoop settings workerId offset ∧ CommitsMatch m entry ∧
          HeldLease workerId entry.session row.partitionId older ∧
          ∀ id tk, (s.world.committed.lookup (.matchPlayers m id)).isSome = true →
            s.world.committed.lookup (.tickets id) = some tk →
              HeldLease workerId entry.session tk.partitionId older := by
  intro m row hrow
  have hpast := service_past hs
  obtain ⟨entry, hentry, t, b, hc, hold, hnew⟩ := hpast.commitsMatch (by rw [hrow]; rfl)
  obtain ⟨n, hn, rfl⟩ := (hpast.legal hentry hc).makes_of_commits hold hnew
  obtain ⟨settings, workerId, offset, hl⟩ := hn.worker
  obtain ⟨newer, older, hlog⟩ := List.append_of_mem hentry
  have hheld := leases_justified hs newer entry older hlog settings workerId offset hl t b hc n hn
  have hlater := hpast.later hentry hc
  refine ⟨newer, entry, older, settings, workerId, offset, hlog, hl, ⟨t, b, hc, hold, hnew⟩, ?_, ?_⟩
  · -- the partition of a match is that of its first ticket
    have hmade := (hn.changed.lookup (.matches n.matchId) (fun h => h) (n.dlookup_match t.start)).2
    obtain ⟨row', hrow', hid⟩ := hlater (.matches n.matchId) trivial _ hmade
    obtain rfl := Option.some.inj (hrow.symm.trans hrow')
    have hpartition : row.partitionId = n.first.partitionId := congrArg (fun x => x.2.2.2.1) hid
    exact hpartition ▸ hheld.1
  · intro id tk hplayer htk
    have hb : Paired b := hpast.before .empty (fun _ _ _ => Legal.paired) hentry hc
    -- tickets keep their partition after the commit
    have hsame : ∀ {id : UUID} {a : Ticket}, (patch t.writes b).lookup (.tickets id) = some a →
        s.world.committed.lookup (.tickets id) = some tk → tk.partitionId = a.partitionId := by
      intro id a ha htk
      obtain ⟨a', ha', hid⟩ := hlater (.tickets id) trivial a ha
      obtain rfl := Option.some.inj (htk.symm.trans ha')
      exact congrArg (fun x => x.2.2.2.2.2.1) hid
    rcases (hpast.players_iff hn hb hlater id).mp hplayer with rfl | rfl
    · rw [hsame (hn.changed.lookup (.tickets n.firstId) (fun h => h)
        (n.dlookup_first t.start hn.compatible.apart)).2 htk]
      exact hheld.1
    · rw [hsame (hn.changed.lookup (.tickets n.secondId) (fun h => h) (n.dlookup_second t.start)).2 htk]
      exact hheld.2

/-- The sample run makes a match. -/
theorem matches_in_held_partitions_sample : ∃ row newer entry older settings workerId offset,
    sampleState.world.committed.lookup (.matches 0x3f) = some row ∧
    sampleState.world.log = newer ++ entry :: older ∧ entry.actor = .runLoop settings workerId offset ∧
    HeldLease workerId entry.session row.partitionId older := by
  have hsome : (sampleState.world.committed.lookup (.matches 0x3f)).isSome = true := by decide +kernel
  obtain ⟨row, hrow⟩ := Option.isSome_iff_exists.mp hsome
  obtain ⟨newer, entry, older, settings, workerId, offset, hlog, hl, -, hheld, -⟩ :=
    matches_in_held_partitions sampleState_reachable 0x3f row hrow
  exact ⟨row, newer, entry, older, settings, workerId, offset, hrow, hlog, hl, hheld⟩

end Matchmaking
