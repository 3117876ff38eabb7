import Matchmaking.CommitSpec

/-!
# The commits of a worker

One iteration of the worker's loop commits its lease operations, its cleanup, and then one match for
each pair that it could reserve. Nothing of an attempt that fails is ever committed.
-/

namespace Matchmaking

open ReadCommitted ReadCommitted.Triple

variable {rt : Runtime} {i : ℕ} {l : Actor}

/-! ## Fetched tickets and pairs -/

/-- A fetched ticket is a ticket of the database, in the columns that never change. -/
def IsFetched (s : Tables) (wt : WaitingTicket) : Prop :=
  ∃ row, s.lookup (.tickets wt.ticketId) = some row ∧ wt = .ofRow (wt.ticketId, row)

/-- The search sees only columns that never change. -/
theorem WaitingTicket.ofRow_congr {id : UUID} {a b : Ticket} (h : b.identity = a.identity) :
    ofRow (id, b) = ofRow (id, a) := by
  simp only [Ticket.identity, Prod.mk.injEq] at h
  obtain ⟨h₁, h₂, h₃, h₄, h₅, h₆, h₇⟩ := h
  simp only [ofRow, h₁, h₂, h₃, h₄, h₅, h₆, h₇]

/-- So a ticket that was fetched is still the ticket of its row later. -/
theorem IsFetched.persist {s s' : Tables} (hs : Persist s s') {wt : WaitingTicket}
    (h : IsFetched s wt) : IsFetched s' wt := by
  obtain ⟨row, hrow, hwt⟩ := h
  obtain ⟨row', hrow', hkept⟩ := hs (.tickets wt.ticketId) trivial row hrow
  exact ⟨row', hrow', hwt.trans (WaitingTicket.ofRow_congr hkept).symm⟩

/-- Tickets in one tenant, region and queue, which is what has to agree before skills are compared. -/
def SameQueue (a b : WaitingTicket) : Prop :=
  a.tenantId = b.tenantId ∧ a.region = b.region ∧ a.queueName = b.queueName

/-- Listing partitions writes nothing. -/
theorem listOwnedPartitions_triple {workerId : String} :
    Triple (commitSpec rt) i l (Clean IsIndexKey) (listOwnedPartitions workerId)
      (fun _ => Clean IsIndexKey) anything := by
  refine .bind (clean_select.post ?_) fun owned => .pure _ fun _ _ h => h
  rintro owned w T ⟨now, σ, -, -, -, hstage⟩
  exact hstage.clean

/-- What is fetched are tickets of the database. -/
theorem fetchTicketsOrdered_triple {partitionIds : List ℕ} {limit : ℕ} {ascending : Bool}
    {maxWait : Option Time} :
    Triple (commitSpec rt) i l (Clean IsIndexKey)
      (fetchTicketsOrdered partitionIds limit ascending maxWait)
      (fun ts w T => Clean IsIndexKey w T ∧ ∀ wt ∈ ts, IsFetched w.committed wt) anything := by
  refine .ite (fun _ => .pure _ fun _ _ h => ⟨h, fun _ hwt => (List.not_mem_nil hwt).elim⟩) fun _ => ?_
  refine .bind (Triple.ask_ok commitSpec_logs Clean.stable Clean.unlogged) fun tie =>
    clean_select.post ?_
  rintro ts w T ⟨now, σ, rfl, -, hshows, hstage⟩
  refine ⟨hstage.clean, fun wt hwt => ?_⟩
  obtain ⟨⟨id, row⟩, hrow, rfl⟩ := List.mem_map.mp hwt
  have hmem := (List.mem_filter.mp (mem_orderBy.mp (List.mem_of_mem_take hrow))).1
  refine ⟨row, ?_, rfl⟩
  rw [← mem_rowsOf_ticketRow.mp hmem]
  exact (hshows (.tickets id) fun h => h).symm

/-- The tickets fetched so far stay tickets of the database. -/
theorem isFetched_lasting (ts : List WaitingTicket) :
    (commitSpec rt).Lasting i l fun w => ∀ wt ∈ ts, IsFetched w.committed wt :=
  commitSpec_lasting (fun s => ∀ wt ∈ ts, IsFetched s wt)
    fun _ _ hs h wt hwt => (h wt hwt).persist hs

/-- What is fetched are tickets of the database, and nothing is written meanwhile. -/
theorem fetchWaitingTickets_triple {partitionIds : List ℕ} {batchSize : ℕ} {freshnessBias : Bool}
    {maxWait : Option Time} :
    Triple (commitSpec rt) i l (Clean IsIndexKey)
      (fetchWaitingTickets partitionIds batchSize freshnessBias maxWait)
      (fun ts w T => Clean IsIndexKey w T ∧ ∀ wt ∈ ts, IsFetched w.committed wt) anything := by
  refine .ite (fun _ => .pure _ fun _ _ h => ⟨h, fun _ hwt => (List.not_mem_nil hwt).elim⟩) fun _ =>
    .ite (fun _ => fetchTicketsOrdered_triple) fun _ => ?_
  refine .bind fetchTicketsOrdered_triple fun newest =>
    .bind (keep (isFetched_lasting newest) fetchTicketsOrdered_triple) fun oldest => .pure _ ?_
  rintro w T ⟨⟨hclean, hold⟩, hnew⟩
  refine ⟨hclean, fun wt hwt => ?_⟩
  rcases List.mem_append.mp hwt with h | h
  · exact hnew wt h
  · exact hold wt (List.mem_filter.mp h).1

section Pairs

variable {P : Condition}

/-- Looking at the clock, and compatible tickets are in one queue. -/
theorem ticketsCompatible_triple (hP : Stable (commitSpec rt) i l P) (hU : Unlogged P)
    {left right : WaitingTicket} {settings : Settings} :
    Triple (commitSpec rt) i l P (ticketsCompatible left right settings)
      (fun b w T => (b = true → SameQueue left right) ∧ P w T) anything := by
  have hclock : ∀ t, Triple (commitSpec rt) i l P (waitSeconds t) (fun _ => P) anything := fun t =>
    .bind (Triple.ask_ok commitSpec_logs hP hU) fun _ => .pure _ fun _ _ h => h
  refine .ite (fun _ => .pure _ fun _ _ h => ⟨fun hb => (by cases hb), h⟩) fun hsame => ?_
  simp only [not_or, not_not] at hsame
  exact .bind (hclock _) fun _ => .bind (hclock _) fun _ => .pure _ fun _ _ h => ⟨fun _ => hsame, h⟩

/-- The second ticket comes from the rest of the list, and is of the same tenant, region and queue. -/
theorem findSecond_triple (hP : Stable (commitSpec rt) i l P) (hU : Unlogged P)
    {settings : Settings} {first : WaitingTicket} {used : List UUID} (rest : List WaitingTicket) :
    Triple (commitSpec rt) i l P (findSecond settings first used rest)
      (fun r w T => (∀ second, r = some second → second ∈ rest ∧ SameQueue first second) ∧ P w T)
      anything := by
  induction rest with
  | nil => exact .pure _ fun _ _ h => ⟨fun _ hs => (by cases hs), h⟩
  | cons second rest ih =>
    have hrest := ih.post fun r w T h => show (∀ s, r = some s → s ∈ second :: rest ∧
        SameQueue first s) ∧ P w T from
      ⟨fun s hs => ⟨List.mem_cons_of_mem _ (h.1 s hs).1, (h.1 s hs).2⟩, h.2⟩
    refine .ite (fun _ => hrest) fun _ => .bind (ticketsCompatible_triple hP hU) fun compatible =>
      .pure_pre fun hcompat => .ite (fun hc => .pure _ fun _ _ h => ⟨?_, h⟩) fun _ => hrest
    rintro _ ⟨⟩
    exact ⟨List.mem_cons_self, hcompat hc⟩

/-- The pairs consist of the given tickets, two of one queue each. -/
def PairsFrom (tickets : List WaitingTicket) (pairs : List (WaitingTicket × WaitingTicket)) : Prop :=
  ∀ p ∈ pairs, p.1 ∈ tickets ∧ p.2 ∈ tickets ∧ SameQueue p.1 p.2

/-- Pairs of the rest of a list are pairs of the list. -/
theorem PairsFrom.cons {first : WaitingTicket} {rest : List WaitingTicket}
    {pairs : List (WaitingTicket × WaitingTicket)} (h : PairsFrom rest pairs) :
    PairsFrom (first :: rest) pairs := fun p hp =>
  ⟨List.mem_cons_of_mem _ (h p hp).1, List.mem_cons_of_mem _ (h p hp).2.1, (h p hp).2.2⟩

/-- All pairs are of two members of the list, the first before the second, in the same queue. -/
theorem findPairsFrom_triple (hP : Stable (commitSpec rt) i l P) (hU : Unlogged P)
    {settings : Settings} (tickets : List WaitingTicket) (used : List UUID) :
    Triple (commitSpec rt) i l P (findPairsFrom settings tickets used)
      (fun pairs w T => PairsFrom tickets pairs ∧ P w T) anything := by
  induction tickets generalizing used with
  | nil => exact .pure _ fun _ _ h => ⟨fun _ hp => (List.not_mem_nil hp).elim, h⟩
  | cons first rest ih =>
    have hrest := fun used => (ih used).post fun pairs w T h =>
      show PairsFrom (first :: rest) pairs ∧ P w T from ⟨h.1.cons, h.2⟩
    refine .ite (fun _ => hrest used) fun _ => .bind (findSecond_triple hP hU rest) ?_
    rintro (_ | second)
    · exact (hrest used).pre fun _ _ h => h.2
    · refine .pure_pre fun hsecond => .bind (ih _) fun pairs => .pure _ fun w T h => ⟨?_, h.2⟩
      obtain ⟨hmem, hsame⟩ := hsecond second rfl
      intro p hp
      rcases List.mem_cons.mp hp with rfl | hp
      · exact ⟨List.mem_cons_self, List.mem_cons_of_mem _ hmem, hsame⟩
      · exact h.1.cons p hp

/-- The same of the whole search, which may also be switched off by `match_size`. -/
theorem findPairs_triple (hP : Stable (commitSpec rt) i l P) (hU : Unlogged P)
    {settings : Settings} {tickets : List WaitingTicket} :
    Triple (commitSpec rt) i l P (findPairs tickets settings)
      (fun pairs w T => PairsFrom tickets pairs ∧ P w T) anything :=
  .ite (fun _ => .throw _ fun _ _ _ => trivial) fun _ => findPairsFrom_triple hP hU tickets []

end Pairs

/-! ## Creating a match -/

/-- Giving a reservation back commits nothing by itself. -/
theorem releaseTicket_noCommit (ticketId : UUID) (workerId : String) :
    (releaseTicket ticketId workerId).Uses Op.NoCommit := by
  refine .bind (.bind (.perform trivial) fun _ => .ite (fun _ => .bind (.perform trivial) ?_)
    fun _ => .pure _) fun _ => .pure _
  rintro (_ | t)
  · exact .pure _
  · exact .bind (.bind (.perform trivial) fun _ => .pure _) fun _ => .pure _

section Create

variable {now : Time} {ps : Changes Row} {σs : List Tables}

/-- One player of the match is written: the row in `match_players`, and the ticket, which is still reserved
for this worker. -/
theorem addPlayer_triple {matchId ticketId : UUID} {workerId : String} {t t' : Ticket}
    {old : Option Ticket} (hplayer : ps.dlookup (.matchPlayers matchId ticketId) = none)
    (hticket : ps.dlookup (.tickets ticketId) = some (old, some t'))
    (hres : t'.isReservedBy workerId = true) :
    Triple (commitSpec rt) i l (Pending now ps σs)
      (addPlayer matchId workerId (.ofRow (ticketId, t)))
      (fun _ w T => ∃ σ, Pending now
        (⟨.tickets ticketId, (old, some (t'.matchedWith matchId now))⟩ ::
          ⟨.matchPlayers matchId ticketId, (none, some ⟨t.playerId⟩)⟩ :: ps) (σ :: σs) w T)
      anything := by
  refine .bind (Triple.insertRow (fun h => h) hplayer) fun _ => .pure_pre fun _ =>
    .bind (Triple.updateTicket_own ?_ hres) fun _ => .pure _ fun _ _ h => h
  exact (List.dlookup_cons_ne _ _ (by simp)).trans hticket

/-- The URL is one that a snapshot of this transaction shows. -/
theorem callbackUrl_triple {tenantId : String} :
    Triple (commitSpec rt) i l (Pending now ps σs) (callbackUrl tenantId)
      (fun url w T => ∃ σ, (∃ tenant, σ.lookup (.tenants tenantId) = some tenant ∧
        url = tenant.callbackUrl.getD defaultCallbackUrl) ∧ Pending now ps (σ :: σs) w T)
      anything := by
  refine .bind stage_select fun url => .exists_pre fun σ => .pure_pre fun hurl => ?_
  cases hlook : σ.lookup (.tenants tenantId) with
  | none =>
    rw [hurl, hlook]
    exact .throw _ fun _ _ _ => trivial
  | some tenant =>
    rw [hurl, hlook]
    exact .pure _ fun w T h => ⟨σ, ⟨tenant, hlook, rfl⟩, h.2.2⟩

/-- The tickets of a pair, both reserved, as the changes that the transaction has made at this point. -/
def bothReserved (workerId : String) (reservationSeconds : ℕ) (now : Time)
    (first second : UUID × Ticket) : Changes Row := [
  ⟨.tickets second.1, (some second.2, some (second.2.reservedFor workerId reservationSeconds now))⟩,
  ⟨.tickets first.1, (some first.2, some (first.2.reservedFor workerId reservationSeconds now))⟩]

/-- What a successful attempt leaves pending: the changes of a new match, and nothing else. -/
def Made (w : ServiceWorld) (T : Option (Txn Row)) : Prop :=
  ∃ n : NewMatch, n.Compatible ∧ ∃ now σs, n.UrlRead σs ∧ Pending now (n.changes now) σs w T

/-- The changes of a match are not visible to others before its commit. -/
theorem Made.stable : Stable (commitSpec rt) i l Made :=
  .exists fun n => Stable.and (.own fun _ => n.Compatible) (.exists fun _ => .exists fun σs =>
    Stable.and (.own fun _ => n.UrlRead σs) Stage.stable)

theorem Made.unlogged : Unlogged Made := fun _ _ _ _ _ h => h

/-- The reservations are part of the changes of the match. -/
theorem keys_bothReserved (n : NewMatch) (workerId : String) (reservationSeconds : ℕ) (now : Time) :
    (bothReserved workerId reservationSeconds now (n.firstId, n.first) (n.secondId, n.second)).keys ⊆
      (n.changes now).keys := by
  simp [bothReserved, NewMatch.changes, List.keys]

/-- The block of the match leaves exactly the changes of one complete match, over the two reservations. -/
theorem insertMatch_triple {workerId : String} {reservationSeconds : ℕ} {firstId secondId : UUID}
    {a b : Ticket} (hne : firstId ≠ secondId) (ha : a.status = .waiting) (hb : b.status = .waiting)
    (hsame : SameQueue (.ofRow (firstId, a)) (.ofRow (secondId, b))) :
    Triple (commitSpec rt) i l
      (Pending now (bothReserved workerId reservationSeconds now (firstId, a) (secondId, b)) σs)
      (insertMatch (.ofRow (firstId, a)) (.ofRow (secondId, b)) workerId) (fun _ => Made)
      anything := by
  refine .bind (Triple.ask_ok commitSpec_logs Stage.stable Pending.unlogged) fun matchId => ?_
  refine .bind (Triple.insertRow (fun h => h) (by simp [bothReserved])) fun row =>
    .pure_pre fun hrow => ?_
  subst hrow
  have hreserved : ∀ t : Ticket, (t.reservedFor workerId reservationSeconds now).isReservedBy workerId
      = true := by simp [Ticket.reservedFor, Ticket.isReservedBy]
  refine .bind (addPlayer_triple (by simp [bothReserved])
    (by simp [bothReserved, List.dlookup_cons_ne, hne] : _ = some (some a, some _))
    (hreserved a)) fun _ => .exists_pre fun σ₁ => ?_
  refine .bind (addPlayer_triple (by simp [bothReserved, List.dlookup_cons_ne, hne.symm])
    (by simp [bothReserved, List.dlookup_cons_ne, hne.symm] : _ = some (some b, some _))
    (hreserved b)) fun _ => .exists_pre fun σ₂ => ?_
  refine .bind callbackUrl_triple fun url => .exists_pre fun σ₃ => .pure_pre fun hurl => ?_
  refine .bind (Triple.ask_ok commitSpec_logs Stage.stable Pending.unlogged) fun eventId => ?_
  refine .bind (Triple.insertRow (fun h => h) (by simp [bothReserved])) fun _ => .pure _ ?_
  rintro w T ⟨-, hpending⟩
  let n : NewMatch := ⟨firstId, secondId, matchId, eventId, a, b, url⟩
  obtain ⟨t, rfl, ht⟩ := hpending
  exact ⟨n, ⟨hne, ha, hb, hsame.1, hsame.2.1, hsame.2.2⟩, now, σ₃ :: σ₂ :: σ₁ :: σs,
    ⟨σ₃, List.mem_cons_self, hurl⟩, t, rfl,
    ht.congr fun k => (dlookup_append_of_subset (keys_bothReserved n workerId _ now) k).symm⟩

end Create

/-- The columns of a fetched ticket are those of the row that is locked later. -/
theorem IsFetched.eq_ofRow {s : Tables} {wt : WaitingTicket} (h : IsFetched s wt) {t : Ticket}
    (ht : s.lookup (.tickets wt.ticketId) = some t) : wt = .ofRow (wt.ticketId, t) := by
  obtain ⟨row, hrow, hwt⟩ := h
  obtain rfl := Option.some.inj (hrow.symm.trans ht)
  exact hwt

/-- A ticket that has just been reserved for a fetched ticket. -/
def Reserved (workerId : String) (reservationSeconds : ℕ) (now : Time) (ps : Changes Row)
    (wt : WaitingTicket) : Condition := fun w T =>
  ∃ σs t, t.status = .waiting ∧ ps.dlookup (.tickets wt.ticketId) = none ∧
    wt = .ofRow (wt.ticketId, t) ∧
    Pending now (⟨.tickets wt.ticketId,
      (some t, some (t.reservedFor workerId reservationSeconds now))⟩ :: ps) σs w T

section Reserve

variable {workerId : String} {reservationSeconds : ℕ} {wt : WaitingTicket} {now : Time}
  {ps : Changes Row} {σs : List Tables}

/-- An update to 'reserved' that took place has reserved a waiting ticket: one that the transaction
has reserved before is not waiting any more. -/
theorem reserved_of_updated {t' : Ticket} {w : ServiceWorld} {T : Option (Txn Row)}
    (hps : ∀ old t, ps.dlookup (.tickets wt.ticketId) = some (old, some t) → t.status ≠ .waiting)
    (hwt : IsFetched w.committed wt)
    (h : Triple.Updated now ps σs wt.ticketId (fun _ t => t.status = .waiting)
      (Ticket.reservedFor workerId reservationSeconds) (some t') w T) :
    Reserved workerId reservationSeconds now ps wt w T := by
  obtain ⟨old, t, hseen, hcond, rfl, hpending⟩ := h
  have hwaiting : t.status = .waiting := of_decide_eq_true hcond
  obtain ⟨hnone, rfl⟩ | hsome := hseen
  · exact ⟨σs, t, hwaiting, hnone,
      hwt.eq_ofRow (hpending.committed (.tickets _) (fun h => h)
        (List.dlookup_cons_eq ..)), hpending⟩
  · exact absurd hwaiting (hps old t hsome)

/-- A first reservation that succeeds is the only pending change, and its ticket was waiting. -/
theorem reserveTicket_clean :
    Triple (commitSpec rt) i l (fun w T => Clean IsIndexKey w T ∧ IsFetched w.committed wt)
      (reserveTicket wt.ticketId workerId reservationSeconds)
      (fun b w T => b = true → ∃ now, Reserved workerId reservationSeconds now [] wt w T)
      anything := by
  have hupdate := keep (commitSpec_lasting (fun s => IsFetched s wt) fun _ _ hs h => h.persist hs)
    (@Triple.updateTicket_clean (commitSpec rt) i l wt.ticketId (fun _ t => t.status = .waiting)
      (Ticket.reservedFor workerId reservationSeconds))
  refine .bind hupdate ?_
  rintro (_ | t')
  · exact .pure _ fun _ _ _ hb => by cases hb
  · refine .pure _ ?_
    rintro w T ⟨⟨now, σs, h⟩, hwt⟩ -
    exact ⟨now, reserved_of_updated (fun _ _ h => by cases h) hwt h⟩

/-- A second one is added to the changes that are there; its ticket is another one. -/
theorem reserveTicket_pending
    (hps : ∀ old t, ps.dlookup (.tickets wt.ticketId) = some (old, some t) → t.status ≠ .waiting) :
    Triple (commitSpec rt) i l (fun w T => Pending now ps σs w T ∧ IsFetched w.committed wt)
      (reserveTicket wt.ticketId workerId reservationSeconds)
      (fun b w T => b = true → Reserved workerId reservationSeconds now ps wt w T) anything := by
  have hupdate := keep (commitSpec_lasting (fun s => IsFetched s wt) fun _ _ hs h => h.persist hs)
    (@Triple.updateTicket (commitSpec rt) i l now ps σs wt.ticketId (fun _ t => t.status = .waiting)
      (Ticket.reservedFor workerId reservationSeconds))
  refine .bind hupdate ?_
  rintro (_ | t')
  · exact .pure _ fun _ _ _ hb => by cases hb
  · refine .pure _ ?_
    rintro w T ⟨⟨σ, h⟩, hwt⟩ -
    exact reserved_of_updated hps hwt h

end Reserve

/-- An attempt that succeeds has made a match; nothing is known of one that does not. -/
theorem createMatchFromPair_triple {first second : WaitingTicket} {workerId : String}
    {reservationSeconds : ℕ} (hsame : SameQueue first second) :
    Triple (commitSpec rt) i l
      (fun w T => (Clean IsIndexKey w T ∧ IsFetched w.committed first) ∧ IsFetched w.committed second)
      (createMatchFromPair first second workerId reservationSeconds)
      (fun created w T => created = true → Made w T) anything := by
  have hlasting : (commitSpec rt).Lasting i l fun w => IsFetched w.committed second :=
    commitSpec_lasting (fun s => IsFetched s second) fun _ _ hs h => h.persist hs
  have hfalse : ∀ {P : Condition}, Triple (commitSpec rt) i l P (pure false)
      (fun created w T => created = true → Made w T) anything := fun {P} =>
    .pure _ fun _ _ _ hb => by cases hb
  have hrelease : ∀ {P : Condition} id, Triple (commitSpec rt) i l P (releaseTicket id workerId)
      anything anything := fun id => .of_noCommit commitSpec_logs (releaseTicket_noCommit id workerId)
  refine .bind (keep hlasting reserveTicket_clean) fun b => .ite (fun _ => hfalse) fun hb => ?_
  obtain rfl : b = true := by simpa using hb
  -- the first ticket is reserved; what is pending is its reservation
  have hpending : ∀ w T, ((true = true → ∃ now, Reserved workerId reservationSeconds now [] first w T) ∧
      IsFetched w.committed second) → ∃ now σs a, (a.status = .waiting ∧
        first = .ofRow (first.ticketId, a)) ∧ Pending now [⟨.tickets first.ticketId,
          (some a, some (a.reservedFor workerId reservationSeconds now))⟩] σs w T ∧
        IsFetched w.committed second := by
    rintro w T ⟨h, hsecond⟩
    obtain ⟨now, σs, a, ha, -, hfirst, hpend⟩ := h rfl
    exact ⟨now, σs, a, ⟨ha, hfirst⟩, hpend, hsecond⟩
  refine pre ?_ hpending
  refine .exists_pre fun now => .exists_pre fun σs => .exists_pre fun a => .pure_pre ?_
  rintro ⟨ha, hfirst⟩
  refine .bind (reserveTicket_pending ?_) fun b => .ite (fun _ => .bind (hrelease _) fun _ => hfalse)
    fun hb => ?_
  · intro old t hlook
    by_cases hid : second.ticketId = first.ticketId
    · rw [hid, List.dlookup_cons_eq] at hlook
      cases hlook
      exact fun h => by cases h
    · simp [List.dlookup_cons_ne, hid] at hlook
  obtain rfl : b = true := by simpa using hb
  -- both are reserved, and they are two different tickets
  have hboth : ∀ w T, (true = true → Reserved workerId reservationSeconds now [⟨.tickets first.ticketId,
      (some a, some (a.reservedFor workerId reservationSeconds now))⟩] second w T) →
      ∃ σs b, (b.status = .waiting ∧ second = .ofRow (second.ticketId, b) ∧
        first.ticketId ≠ second.ticketId) ∧ Pending now (bothReserved workerId reservationSeconds now
          (first.ticketId, a) (second.ticketId, b)) σs w T := by
    intro w T h
    obtain ⟨σs, b, hb, hnone, hsecond, hpend⟩ := h rfl
    refine ⟨σs, b, ⟨hb, hsecond, fun heq => ?_⟩, hpend⟩
    rw [heq] at hnone
    simp at hnone
  refine pre ?_ hboth
  refine .exists_pre fun σs => .exists_pre fun b => .pure_pre ?_
  rintro ⟨hb, hsecond, hne⟩
  rw [hfirst, hsecond] at hsame ⊢
  -- the savepoint of the nested transaction is released after the match is complete
  have hmade : ∀ u : Unit, Triple (commitSpec rt) i l Made (perform .releaseSavepoint) (fun _ => Made)
      anything := fun _ =>
    .exists_pre fun n => .pure_pre fun hn => .exists_pre fun now => .exists_pre fun σs =>
      .pure_pre fun hurl => stage_releaseSavepoint.post fun _ _ _ h => ⟨n, hn, now, σs, hurl, h⟩
  refine .bind (Triple.attempt (Triple.transaction_nested (insertMatch_triple hne ha hb hsame)
    hmade)) ?_
  -- an error leaves the function; an `Exception` only after both reservations are given back
  rintro (e | _)
  · refine .ite (fun _ => ?_) fun _ => .throw e fun _ _ _ => trivial
    exact .bind (hrelease _) fun _ => .bind (hrelease _) fun _ => .throw e fun _ _ _ => trivial
  · exact .pure true fun _ _ h _ => h

/-! ## The loop -/

section Loop

variable {settings : Settings} {workerId : String} {offset : ℕ}

/-- What is committed at the end of a successful attempt is the new match. -/
theorem commit_made : Triple (commitSpec rt) i (.runLoop settings workerId offset) Made
    (perform .commit) (fun _ => Idle) anything := by
  refine .any (stage_commit Made.stable (fun _ _ _ h => h) (commitSpec_commits ?_))
  rintro w t - ⟨n, hn, now, σs, ⟨σ, hσ, hurl⟩, t', ht, hhas⟩
  obtain rfl := Option.some.inj ht
  obtain rfl := hhas.start
  exact .pair n hn ⟨σ, hhas.seen σ hσ, hurl⟩ hhas.changed

/-- The tickets of the pairs are tickets of the database, two of one queue each. -/
def PairsKnown (pairs : List (WaitingTicket × WaitingTicket)) (s : Tables) : Prop :=
  ∀ p ∈ pairs, IsFetched s p.1 ∧ IsFetched s p.2

/-- The pairs stay tickets of the database whatever others do. -/
theorem pairsKnown_lasting (pairs : List (WaitingTicket × WaitingTicket)) :
    (commitSpec rt).Lasting i l fun w => PairsKnown pairs w.committed :=
  commitSpec_lasting (PairsKnown pairs) fun _ _ hs h p hp =>
    ⟨(h p hp).1.persist hs, (h p hp).2.persist hs⟩

/-- The loop commits nothing but complete matches, and leaves no changes behind. -/
theorem processPairs_triple {loopStart : Time} (pairs : List (WaitingTicket × WaitingTicket)) :
    ∀ matchesCreated processedPairs, (∀ p ∈ pairs, SameQueue p.1 p.2) →
      Triple (commitSpec rt) i (.runLoop settings workerId offset)
        (fun w T => Clean IsIndexKey w T ∧ PairsKnown pairs w.committed)
        (processPairs settings workerId loopStart pairs matchesCreated processedPairs)
        (fun _ => Clean IsIndexKey) anything := by
  induction pairs with
  | nil => exact fun _ _ _ => .pure _ fun _ _ h => h.1
  | cons p pairs ih =>
    intro matchesCreated processedPairs hsame
    obtain ⟨first, second⟩ := p
    have hrest := fun n m => (ih n m fun p hp => hsame p (List.mem_cons_of_mem _ hp)).pre
      fun w T (h : Idle w T ∧ PairsKnown pairs w.committed) => ⟨h.1.clean, h.2⟩
    have hlasting := @pairsKnown_lasting rt i (.runLoop settings workerId offset) pairs
    -- a failed attempt is rolled back
    have hany : Stable (commitSpec rt) i (.runLoop settings workerId offset) fun _ _ => True :=
      .own fun _ => True
    have hfail : ∀ n m, Triple (commitSpec rt) i (.runLoop settings workerId offset)
        (fun w T => True ∧ PairsKnown pairs w.committed) (do
          record .recordMatchFailure
          record .recordRollback
          perform .rollback
          processPairs settings workerId loopStart pairs n m) (fun _ => Clean IsIndexKey)
        anything := fun n m =>
      .bind (keep hlasting (Triple.record commitSpec_logs hany fun _ _ _ _ _ _ => trivial)) fun _ =>
      .bind (keep hlasting (Triple.record commitSpec_logs hany fun _ _ _ _ _ _ => trivial)) fun _ =>
      .bind (keep hlasting (rollback hany (fun _ _ _ _ => rfl) fun _ _ _ _ _ => trivial)) fun _ =>
      hrest n m
    refine .ite (fun _ => .pure _ fun _ _ h => h.1) fun _ => ?_
    refine .bind (keep (pairsKnown_lasting _) (Triple.ask_ok commitSpec_logs Clean.stable
      Clean.unlogged)) fun now => .ite (fun _ => .pure _ fun _ _ h => h.1) fun _ => ?_
    have hcreate := @createMatchFromPair_triple rt i (.runLoop settings workerId offset) first second
      workerId (reservationSeconds settings) (hsame _ List.mem_cons_self)
    have hattempt := (frame hlasting hcreate).pre
      fun w T (h : Clean IsIndexKey w T ∧ PairsKnown ((first, second) :: pairs) w.committed) =>
        ⟨⟨⟨h.1, (h.2 _ List.mem_cons_self).1⟩, (h.2 _ List.mem_cons_self).2⟩,
          fun p hp => h.2 p (List.mem_cons_of_mem _ hp)⟩
    refine .bind (Triple.attempt hattempt) ?_
    rintro (e | _ | _)
    · exact .ite (fun _ => (hfail _ _).pre fun _ _ h => ⟨trivial, h.2⟩) fun _ => .throw _ fun _ _ _ => trivial
    · exact (hfail _ _).pre fun _ _ h => ⟨trivial, h.2⟩
    · refine .bind (keep hlasting ((Triple.record commitSpec_logs Made.stable Made.unlogged).pre
        fun _ _ h => h rfl)) fun _ => .bind (keep hlasting commit_made) fun _ => hrest _ _

/-- The pairs of fetched tickets are tickets of the database, two of one queue each. -/
theorem findPairs_known {tickets : List WaitingTicket} :
    Triple (commitSpec rt) i l
      (fun w T => Clean IsIndexKey w T ∧ ∀ wt ∈ tickets, IsFetched w.committed wt)
      (findPairs tickets settings)
      (fun pairs w T => (∀ p ∈ pairs, SameQueue p.1 p.2) ∧ Clean IsIndexKey w T ∧
        PairsKnown pairs w.committed) anything := by
  refine (findPairs_triple (Clean.stable.and (isFetched_lasting tickets).stable)
    fun _ _ _ _ _ h => h).post ?_
  rintro pairs w T ⟨hpairs, hclean, hfetched⟩
  exact ⟨fun p hp => (hpairs p hp).2.2, hclean, fun p hp =>
    ⟨hfetched _ (hpairs p hp).1, hfetched _ (hpairs p hp).2.1⟩⟩

/-- The matching part of an iteration, which starts and ends without pending changes. -/
theorem matchTickets_triple {loopStart : Time} :
    Triple (commitSpec rt) i (.runLoop settings workerId offset) Idle
      (matchTickets settings workerId loopStart) (fun _ => Clean IsIndexKey) anything := by
  have hrows : ∀ {α : Type} {x : Db α}, UsesRows (workerRows workerId settings.workerLeaseSeconds) x →
      Triple (commitSpec rt) i (.runLoop settings workerId offset)
        (Follows (workerRows workerId settings.workerLeaseSeconds)) x
        (fun _ => Follows (workerRows workerId settings.workerLeaseSeconds)) anything := fun hx =>
    (@triple_rows rt i (.runLoop settings workerId offset) _ _ hx).any
  refine .bind ((hrows (.cleanupExpiredReservations ..)).pre fun _ _ h => Follows.idle h)
    fun expired => .bind (hrows (.record _)) fun _ => .bind triple_commit_rows.any fun _ => ?_
  exact .bind (listOwnedPartitions_triple.pre fun _ _ h => Idle.clean h) fun owned =>
    .bind (Triple.record commitSpec_logs Clean.stable Clean.unlogged) fun _ =>
    .bind fetchWaitingTickets_triple fun tickets => .bind findPairs_known fun pairs =>
    .pure_pre fun hsame => .bind (processPairs_triple pairs 0 0 hsame) fun counts =>
    Triple.record commitSpec_logs Clean.stable Clean.unlogged

/-- The lease block is a transaction of its own, over when it returns. -/
theorem leaseTransaction_triple :
    Triple (commitSpec rt) i (.runLoop settings workerId offset) Idle
      (leaseTransaction settings workerId offset) (fun _ => Idle) anything := by
  have hoperations := @triple_rows rt i (.runLoop settings workerId offset) _ _
    (UsesRows.leaseOperations settings offset)
  refine .bind (hoperations.conseq (fun _ _ h => Follows.idle h) (fun _ _ _ h => h)
    fun _ _ _ _ => trivial) fun counts => .bind triple_commit_rows.any fun _ => .pure _ fun _ _ h => h

/-- The commits of one iteration of the worker's loop are legal. -/
theorem runLoop_triple :
    Triple (commitSpec rt) i (.runLoop settings workerId offset) Idle
      (runLoop settings workerId offset) (fun _ => Idle) anything := by
  have hidle : ∀ m, Triple (commitSpec rt) i (.runLoop settings workerId offset) Idle (record m)
      (fun _ => Idle) anything := fun m => Triple.record commitSpec_logs Idle.stable Idle.unlogged
  have hunchanged := @commitSpec_unchanged rt i (.runLoop settings workerId offset)
    fun _ _ _ _ _ _ _ => trivial
  refine .bind (Triple.ask_ok commitSpec_logs Idle.stable Idle.unlogged) fun loopStart =>
    pre (Triple.any (@Triple.withConnection (commitSpec rt) i _ _ (fun _ => Clean IsIndexKey) _ _ _
      commitSpec_logs .trivial (.bind ((Triple.attempt leaseTransaction_triple).pre fun _ _ h => h.1)
      ?_) fun _ => stage_commit Clean.stable (fun _ t _ h k hk => h t rfl k hk) hunchanged))
      fun _ _ h => ⟨h, trivial⟩
  rintro (e | ⟨renewed, newlyClaimed, released⟩)
  · refine .ite (fun _ => .bind ?_ fun _ => .bind (Triple.record commitSpec_logs Idle.stable
      Idle.unlogged) fun _ => .throw e fun _ _ _ => trivial) fun _ => .throw e fun _ _ _ => trivial
    exact rollback (.own fun _ => True) (fun _ _ _ _ => rfl) fun _ _ _ _ _ => trivial
  · exact .bind (hidle _) fun _ => .bind (hidle _) fun _ => .bind (hidle _) fun _ =>
      matchTickets_triple

end Loop

end Matchmaking
