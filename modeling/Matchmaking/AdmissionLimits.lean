import Matchmaking.AdmissionReads
import Matchmaking.Reservations

/-!
# Admission limits

The checks of a request count waiting tickets before its transaction begins. The limits hold after its insert
if the counts have left room for the tickets that others insert in the meantime.
-/

namespace Matchmaking

open ReadCommitted

variable {rt : Runtime} {l : Actor} {t : Txn Row} {s s' : Tables}

/-! ## Inserts -/

/-- Predicates on tickets alone. -/
def OnTickets (p : (k : Key) → Row k → Bool) : Prop := ∀ k v, p k v = true → ∃ id, k = .tickets id

/-- A new ticket raises the counts that it is part of. -/
theorem NewTicket.count_weight {n : NewTicket} {now : Time} {p : (k : Key) → Row k → Bool}
    (h : Changed IsIndexKey (n.changes rt now) s s') (hp : OnTickets p) :
    count p s' = count p s + weight p (.tickets n.ticketId) (some (n.ticket now)) := by
  obtain ⟨hold, hnew⟩ := h.lookup (.tickets n.ticketId) (fun h => h) (n.dlookup_ticket now)
  have hcount : count p s' + weight p (.tickets n.ticketId) (s.lookup (.tickets n.ticketId))
      = count p s + weight p (.tickets n.ticketId) (s'.lookup (.tickets n.ticketId)) := by
    refine count_changed_row _ fun k v hk hv => ?_
    obtain ⟨id, rfl⟩ := hp k v hv
    have hid : id ≠ n.ticketId := fun heq => hk (heq ▸ rfl)
    rw [h.frame (.tickets id) (fun h => h) (n.dlookup_eq_none now (by simp [hid]) (by simp))]
  rw [hold, hnew] at hcount
  simpa [weight] using hcount

/-- A new ticket that counts raises the count by one. -/
theorem NewTicket.count_changed {n : NewTicket} {now : Time} {p : (k : Key) → Row k → Bool}
    (h : Changed IsIndexKey (n.changes rt now) s s') (hp : OnTickets p)
    (hn : p (.tickets n.ticketId) (n.ticket now) = true) : count p s' = count p s + 1 := by
  rw [n.count_weight h hp]
  simp [weight, hn]

theorem onTickets_isWaitingOf (tenantId : String) : OnTickets (isWaitingOf tenantId) := by
  intro k v hv
  cases k <;> first | exact ⟨_, rfl⟩ | cases hv

theorem onTickets_isWaitingIn (partitionId : ℕ) : OnTickets (isWaitingIn partitionId) := by
  intro k v hv
  cases k <;> first | exact ⟨_, rfl⟩ | cases hv

/-! ## The limits -/

/-- The tenant and the partition of the ticket have no more waiting tickets than the tenant may
have. -/
def WithinLimits (tenant : Tenant) (ticket : Ticket) (s : Tables) : Prop :=
  (count (isWaitingOf ticket.tenantId) s : ℤ) ≤ tenant.maxTicketsInFlight ∧
    (count (isWaitingIn ticket.partitionId) s : ℤ) ≤ tenant.maxPartitionDepth

instance (tenant : Tenant) (ticket : Ticket) (s : Tables) : Decidable (WithinLimits tenant ticket s) :=
  inferInstanceAs (Decidable (_ ∧ _))

/-- The limits hold after every logged insert. -/
def LimitsHold (log : List LogEntry) : Prop :=
  ∀ e ∈ log, ∀ t b, e.event.commit? = some (t, b) → ∀ ticket tenant, Inserts t b ticket →
    (patch t.writes b).lookup (.tenants ticket.tenantId) = some tenant →
      WithinLimits tenant ticket (patch t.writes b)

/-! ## What is logged after the counts -/

/-- The entry inserts a ticket that counts. -/
def insertsTicket (p : (k : Key) → Row k → Bool) (entry : LogEntry) : Bool :=
  entry.event.commit?.any fun c => (rowsOf ticketRow (patch c.1.writes c.2)).any fun r =>
    (c.2.lookup (.tickets r.1)).isNone && p (.tickets r.1) r.2

/-- The entry changes the row of the tenant. -/
def ChangesTenant (tenantId : String) (entry : LogEntry) : Prop :=
  ∃ t b, entry.event.commit? = some (t, b) ∧
    (patch t.writes b).lookup (.tenants tenantId) ≠ b.lookup (.tenants tenantId)

/-- How many reads a request makes between its counts and its insert. -/
def readsAfterCounts (settings : Settings) : ℕ := if settings.loadSheddingEnabled then 1 else 0

/-- With the log `older` session `i` has last counted the waiting tickets of the partition by `depth`, before
that those of the tenant by `quota`, and has first of all read the tenant by `look`. -/
structure HasCounted (settings : Settings) (i : ℕ) (older : List LogEntry) (look quota depth : Txn Row) :
    Prop where
  countsPartition : (transactionsOf i older)[readsAfterCounts settings]? = some depth
  countsTenant : (transactionsOf i older)[readsAfterCounts settings + 1]? = some quota
  readsTenant : (transactionsOf i older).getLast? = some look

/-- No tickets that count are inserted between the snapshot of `t` and the end of the log `older`, or the limit
leaves room for them beside those that the snapshot shows. -/
def LeavesRoom (p : (k : Key) → Row k → Bool) (limit : ℤ) (t : Txn Row) (older : List LogEntry) : Prop :=
  ∃ between σ, Window t older between ∧ t.reads = [σ] ∧
    (between.countP (insertsTicket p) = 0 ∨ ((count p σ + between.countP (insertsTicket p) : ℕ) : ℤ) < limit)

/-- From what a request reads until its insert the tenant stays as it was read, and others leave room for its
ticket. -/
def AdmissionsUndisturbed (log : List LogEntry) : Prop :=
  ∀ newer entry older, log = newer ++ entry :: older → ∀ t b ticket, entry.event.commit? = some (t, b) →
    Inserts t b ticket → ∀ tenant, b.lookup (.tenants ticket.tenantId) = some tenant →
    ∀ settings xTenantId key body, entry.actor = .createTicket settings xTenantId key body →
    ∀ look quota depth, HasCounted settings entry.session older look quota depth →
      (∃ between, Window look older between ∧ ∀ x ∈ between, ¬ ChangesTenant ticket.tenantId x) ∧
        LeavesRoom (isWaitingOf ticket.tenantId) tenant.maxTicketsInFlight quota older ∧
        LeavesRoom (isWaitingIn ticket.partitionId) tenant.maxPartitionDepth depth older

/-- The request of session `i` has read the tenant and counted waiting tickets, and its checks have passed. -/
structure HasPassed (settings : Settings) (i : ℕ) (older : List LogEntry) (ticket : Ticket) (tenant : Tenant)
    (look quota depth : Txn Row) : Prop extends HasCounted settings i older look quota depth where
  found : Saw i older (fun σ => σ.lookup (.tenants ticket.tenantId) = some tenant) look
  underQuota : Saw i older (fun σ => underQuota tenant (count (isWaitingOf ticket.tenantId) σ) = true) quota
  underDepth : Saw i older (fun σ => underDepth tenant (count (isWaitingIn ticket.partitionId) σ) = true) depth

/-! ## Each insert has passed the checks -/

/-- The checks of a request tell its counts. -/
theorem HaveShown.hasPassed {settings : Settings} {key : Option String} {tenant : Tenant} {i : ℕ}
    {older : List LogEntry} {ticket : Ticket}
    (h : HaveShown i (checksOf settings ticket.tenantId key tenant ticket.partitionId) older) :
    ∃ look quota depth, HasPassed settings i older ticket tenant look quota depth := by
  obtain ⟨depth, hdepth, hunderDepth⟩ := h.getElem? (n := readsAfterCounts settings) (by
    cases hload : settings.loadSheddingEnabled <;> simp only [checksOf, readsAfterCounts, hload] <;> rfl)
  obtain ⟨quota, hquota, hunderQuota⟩ := h.getElem? (n := readsAfterCounts settings + 1) (by
    cases hload : settings.loadSheddingEnabled <;> simp only [checksOf, readsAfterCounts, hload] <;> rfl)
  obtain ⟨look, hlook, hfound⟩ := h.getLast? (by
    rw [checksOf, ← List.cons_append, ← List.cons_append, ← List.append_assoc, List.getLast?_concat])
  exact ⟨look, quota, depth, ⟨hdepth, hquota, hlook⟩, hfound, hunderQuota, hunderDepth⟩

/-- In every run each insert of a ticket has passed the checks. -/
theorem inserts_passed {clock : Time} {s : ServiceState} (hs : (service rt).Reachable (emptyState clock) s)
    {newer older : List LogEntry} {entry : LogEntry} (hlog : s.world.log = newer ++ entry :: older) {b : Tables}
    (hc : entry.event.commit? = some (t, b)) {ticket : Ticket} (hinsert : Inserts t b ticket) :
    ∃ settings key body tenant look quota depth,
      entry.actor = .createTicket settings (some ticket.tenantId) key body ∧
        HasPassed settings entry.session older ticket tenant look quota depth := by
  have hentry : entry ∈ s.world.log := hlog ▸ by simp
  obtain ⟨id, hold, hnew⟩ := hinsert
  obtain ⟨n, -, rfl, ⟨settings, xTenantId, key, body, hactor, hrequest⟩, -, -⟩ :=
    ((service_past hs).legal hentry hc).new_ticket hold hnew
  obtain ⟨tenantId, tenant, rfl, hshown⟩ := inserts_admitted hs newer entry older hlog settings xTenantId key body
    hactor t b _ hc ⟨id, hold, hnew⟩
  obtain rfl : tenantId = n.tenantId := Option.some.inj hrequest.tenantId
  obtain rfl := hrequest.body
  rw [← hrequest.partition] at hshown
  obtain ⟨look, quota, depth, hpassed⟩ := @HaveShown.hasPassed _ _ _ _ _ (n.ticket t.start) hshown
  exact ⟨settings, key, n.body, tenant, look, quota, depth, hactor, hpassed⟩

/-! ## Counts since a snapshot -/

/-- A waiting ticket is new or has been waiting before. -/
theorem Legal.waiting_before (h : Legal rt l t s) (hs : Unreserved s) {id : UUID} {tk' : Ticket}
    (hnew : (patch t.writes s).lookup (.tickets id) = some tk') (hwaiting : tk'.status = .waiting) :
    s.lookup (.tickets id) = none ∨ ∃ tk, s.lookup (.tickets id) = some tk ∧ tk.status = .waiting ∧
      tk.identity = tk'.identity := by
  have hsame : (patch t.writes s).lookup (.tickets id) = s.lookup (.tickets id) →
      s.lookup (.tickets id) = none ∨ ∃ tk, s.lookup (.tickets id) = some tk ∧ tk.status = .waiting ∧
        tk.identity = tk'.identity := fun h => .inr ⟨tk', h.symm.trans hnew, hwaiting, rfl⟩
  obtain hun | ⟨n, hmakes⟩ := h.unpaired_or_makes
  · have hstep := hun.tickets id
    rw [hnew] at hstep
    generalize hold : s.lookup (.tickets id) = v at hstep
    cases hstep with
    | same => exact hold ▸ hsame (hnew.trans hold.symm)
    | unreserved hst => exact absurd hst (hs id _ hold).status
    | cancelled => cases hwaiting
    | created => exact .inl rfl
  · by_cases h₁ : id = n.firstId
    · subst h₁
      obtain rfl := Option.some.inj ((hmakes.changed.lookup (.tickets n.firstId) (fun h => h)
        (n.dlookup_first t.start hmakes.compatible.apart)).2.symm.trans hnew)
      cases hwaiting
    by_cases h₂ : id = n.secondId
    · subst h₂
      obtain rfl := Option.some.inj ((hmakes.changed.lookup (.tickets n.secondId) (fun h => h)
        (n.dlookup_second t.start)).2.symm.trans hnew)
      cases hwaiting
    exact hsame (NewMatch.frame_ticket hmakes.changed ⟨h₁, h₂⟩)

/-- The predicate is about waiting tickets, and what is fixed about them. -/
structure CountsWaiting (p : (k : Key) → Row k → Bool) : Prop where
  onTickets : OnTickets p
  waiting : ∀ id tk, p (.tickets id) tk = true → tk.status = .waiting
  fixed : ∀ id tk tk', p (.tickets id) tk' = true → tk.status = .waiting → tk.identity = tk'.identity →
    p (.tickets id) tk = true

theorem countsWaiting_isWaitingOf (tenantId : String) : CountsWaiting (isWaitingOf tenantId) where
  onTickets := onTickets_isWaitingOf tenantId
  waiting id tk h := of_decide_eq_true (Bool.and_eq_true_iff.mp h).2
  fixed id tk tk' h hwaiting hid := by
    have htenant : tk.tenantId = tk'.tenantId := congrArg Prod.fst hid
    simp only [isWaitingOf, Bool.and_eq_true, decide_eq_true_eq] at h ⊢
    exact ⟨htenant.trans h.1, hwaiting⟩

theorem countsWaiting_isWaitingIn (partitionId : ℕ) : CountsWaiting (isWaitingIn partitionId) where
  onTickets := onTickets_isWaitingIn partitionId
  waiting id tk h := of_decide_eq_true (Bool.and_eq_true_iff.mp h).2
  fixed id tk tk' h hwaiting hid := by
    have hpartition : tk.partitionId = tk'.partitionId := congrArg (fun x => x.2.2.2.2.2.1) hid
    simp only [isWaitingIn, Bool.and_eq_true, decide_eq_true_eq] at h ⊢
    exact ⟨hpartition.trans h.1, hwaiting⟩

/-- A commit raises the count by one at most, if it inserts a ticket. -/
theorem Legal.count_le_inserts {p : (k : Key) → Row k → Bool} (hp : CountsWaiting p) (h : Legal rt l t s)
    (hs : Unreserved s) {entry : LogEntry} (hc : entry.event.commit? = some (t, s)) :
    count p (patch t.writes s) ≤ count p s + if insertsTicket p entry then 1 else 0 := by
  rw [insertsTicket, hc, Option.any_some]
  split
  · next hinserts =>
    obtain ⟨⟨id, tk⟩, hrow, hnew⟩ := List.any_eq_true.mp hinserts
    simp only [Bool.and_eq_true, Option.isNone_iff_eq_none] at hnew
    obtain ⟨n, -, -, hcreates⟩ := h.new_ticket hnew.1 (mem_rowsOf_ticketRow.mp hrow)
    rw [NewTicket.count_weight hcreates.changed hp.onTickets]
    refine Nat.add_le_add_left ?_ _
    rw [weight]
    split <;> simp
  · next hinserts =>
    refine count_le fun k v hv hlook => ?_
    obtain ⟨id, rfl⟩ := hp.onTickets k v hv
    obtain hold | ⟨tk, htk, hwaiting, hid⟩ := h.waiting_before hs hlook (hp.waiting id v hv)
    · refine absurd (List.any_eq_true.mpr ⟨(id, v), mem_rowsOf_ticketRow.mpr hlook, ?_⟩) hinserts
      rw [hold, hv]
      rfl
    · exact ⟨tk, htk, hp.fixed id tk v hv hwaiting hid⟩

/-- Since a snapshot the count has grown by the new tickets at most. -/
theorem Past.count_since {w : ServiceWorld} (hpast : Past rt w) {p : (k : Key) → Row k → Bool}
    (hp : CountsWaiting p) {between : List LogEntry} (hlog : between ⊆ w.log) {σ b : Tables}
    (hb : Chained σ between b) (hσ : Unreserved σ) :
    count p b ≤ count p σ + between.countP (insertsTicket p) ∧ Unreserved b := by
  induction hb with
  | nil => exact ⟨Nat.le_refl _, hσ⟩
  | @commit e t b log he _ ih =>
    obtain ⟨hcount, hb⟩ := ih fun x hx => hlog (List.mem_cons_of_mem _ hx)
    have hlegal := hpast.legal (hlog List.mem_cons_self) he
    refine ⟨?_, hlegal.unreserved hb⟩
    have hstep := hlegal.count_le_inserts hp hb he
    rw [List.countP_cons]
    omega
  | @other e b log he _ ih =>
    have hnone : insertsTicket p e = false := by
      rw [insertsTicket, he]
      rfl
    rw [List.countP_cons_of_neg (by simp [hnone])]
    exact ih fun x hx => hlog (List.mem_cons_of_mem _ hx)

/-- Where a count that was below the limit has left room for what came after it, the limit has room for one
more ticket. -/
theorem LeavesRoom.lt {w : ServiceWorld} (hpast : Past rt w) {p : (k : Key) → Row k → Bool} (hp : CountsWaiting p)
    {older : List LogEntry} (hlog : older ⊆ w.log) {b : Tables} (hb : Chained ∅ older b) {limit : ℤ} {i : ℕ}
    (h : LeavesRoom p limit t older) (hsaw : Saw i older (fun σ => (count p σ : ℤ) < limit) t) :
    (count p b : ℤ) < limit := by
  obtain ⟨between, σ, hwindow, hreads, hroom⟩ := h
  obtain ⟨hbetween, hσ⟩ := hwindow.chained hb hreads
  obtain ⟨-, σ', -, hreads', hlt⟩ := hsaw
  obtain rfl := List.singleton_inj.mp (hreads.symm.trans hreads')
  have hunreserved : Unreserved σ := by
    obtain ⟨mid, σ', rfl, hm, hreads''⟩ := hwindow
    obtain rfl := List.singleton_inj.mp (hreads.symm.trans hreads'')
    exact hm.invariant .empty fun x hx t' b' hc =>
      (hpast.legal (hlog (List.mem_append_right _ hx)) hc).unreserved
  have hgrown := (hpast.count_since hp (fun x hx => hlog (hσ hx)) hbetween hunreserved).1
  obtain hnone | hroom := hroom
  · rw [hnone, Nat.add_zero] at hgrown
    exact Int.lt_of_le_of_lt (Int.ofNat_le.mpr hgrown) hlt
  · exact Int.lt_of_le_of_lt (Int.ofNat_le.mpr hgrown) hroom

/-- **Admission limits.** In every run each insert of a ticket comes after a look at the tenant and two counts
of its session that were below the limits. The limits hold after every insert if, since these reads, nobody
has changed the tenant or inserted more tickets than they have left room for. -/
theorem limits_hold {clock : Time} {s : ServiceState} (hs : (service rt).Reachable (emptyState clock) s) :
    (∀ newer entry older, s.world.log = newer ++ entry :: older → ∀ t b ticket,
      entry.event.commit? = some (t, b) → Inserts t b ticket → ∃ settings key body tenant look quota depth,
        entry.actor = .createTicket settings (some ticket.tenantId) key body ∧
          HasPassed settings entry.session older ticket tenant look quota depth) ∧
    (AdmissionsUndisturbed s.world.log → LimitsHold s.world.log) := by
  have hpast := service_past hs
  refine ⟨fun newer entry older hlog t b ticket hc hinsert => inserts_passed hs hlog hc hinsert, ?_⟩
  intro hundisturbed entry hentry t b hc ticket tenant hinsert htenant
  obtain ⟨newer, older, hlog⟩ := List.append_of_mem hentry
  have hb : Chained ∅ older b := (Chained.cut (hlog ▸ hpast.history.chained) hc).1
  have holder : older ⊆ s.world.log := fun x hx => hlog ▸ List.mem_append_right _ (List.mem_cons_of_mem _ hx)
  obtain ⟨settings, key, body, tenant', look, quota, depth, hactor, hpassed⟩ := inserts_passed hs hlog hc hinsert
  obtain ⟨id, hold, hnew⟩ := hinsert
  obtain ⟨n, rfl, rfl, -, -, hchanged⟩ := (hpast.legal hentry hc).new_ticket hold hnew
  have hframe := hchanged.frame (.tenants n.tenantId) (fun h => h)
    (n.dlookup_eq_none t.start (by simp) (by simp))
  have hbefore : b.lookup (.tenants n.tenantId) = some tenant := hframe.symm.trans htenant
  obtain ⟨⟨between, hwindow, hsame⟩, hquota, hdepth⟩ := hundisturbed newer entry older hlog t b _ hc
    ⟨_, hold, hnew⟩ tenant hbefore settings _ key body hactor look quota depth hpassed.toHasCounted
  -- the tenant is still as it was read
  obtain rfl : tenant' = tenant := by
    obtain ⟨-, σ, -, hreads, hfound⟩ := hpassed.found
    obtain ⟨hbetween, -⟩ := hwindow.chained hb hreads
    have hkept : b.lookup (.tenants n.tenantId) = some tenant' :=
      hbetween.invariant (I := fun s => s.lookup (.tenants n.tenantId) = some tenant') hfound
        fun x hx t' b' hc' hrow => by
          by_contra hchanged
          exact hsame x hx ⟨t', b', hc', fun heq => hchanged (heq.trans hrow)⟩
    exact Option.some.inj (hkept.symm.trans hbefore)
  have hunderQuota := hquota.lt hpast (countsWaiting_isWaitingOf _) holder hb
    (hpassed.underQuota.imp fun _ => of_decide_eq_true)
  have hunderDepth := hdepth.lt hpast (countsWaiting_isWaitingIn _) holder hb
    (hpassed.underDepth.imp fun _ => of_decide_eq_true)
  constructor
  · rw [n.count_changed hchanged (onTickets_isWaitingOf _) (by simp [isWaitingOf, NewTicket.ticket, newTicket])]
    exact Int.add_one_le_of_lt hunderQuota
  · rw [n.count_changed hchanged (onTickets_isWaitingIn _) (by simp [isWaitingIn, NewTicket.ticket, newTicket])]
    exact Int.add_one_le_of_lt hunderDepth

/-! ## Two requests at once -/

/-- Some insert of transaction `t` exceeds a limit. -/
def overbooks (t : Txn Row) (b : Tables) : Bool :=
  (rowsOf ticketRow (patch t.writes b)).any fun (id, ticket) => (b.lookup (.tickets id)).isNone &&
    ((patch t.writes b).lookup (.tenants ticket.tenantId)).any fun tenant =>
      !decide (WithinLimits tenant ticket (patch t.writes b))

theorem not_limitsHold {log : List LogEntry}
    (h : log.any (fun e => e.event.commit?.any fun c => overbooks c.1 c.2) = true) :
    ¬ LimitsHold log := by
  intro hlimits
  obtain ⟨e, he, hany⟩ := List.any_eq_true.mp h
  obtain ⟨⟨t, b⟩, hc, hany⟩ := Option.any_eq_true _ _ |>.mp hany
  obtain ⟨⟨id, ticket⟩, hrow, hany⟩ := List.any_eq_true.mp hany
  simp only [Bool.and_eq_true, Option.isNone_iff_eq_none] at hany
  obtain ⟨tenant, htenant, hover⟩ := Option.any_eq_true _ _ |>.mp hany.2
  rw [Bool.not_eq_true', decide_eq_false_iff_not] at hover
  exact hover (hlimits e he t b hc ticket tenant ⟨id, hany.1, mem_rowsOf_ticketRow.mp hrow⟩ htenant)

/-- Settings of a small development set-up: so many waiting tickets for each tenant. -/
def smallSettings (maxWaitingTickets : ℕ) : Settings :=
  { matchmakingPartitions := 1, defaultMaxWaitingTickets := maxWaitingTickets }

def smallRequest (maxWaitingTickets : ℕ) (playerId : String) : Actor :=
  .createTicket (smallSettings maxWaitingTickets) (some "studio_a") none ⟨playerId, "eu", "ranked", 0⟩

/-- The first request has passed its checks when the second comes in; then both insert. -/
def overlapScript (maxWaitingTickets : ℕ) : List (System.Move Reply Exn Actor) :=
  runs 0 (.initMain (smallSettings maxWaitingTickets)) ++
    [.act (.start (smallRequest maxWaitingTickets "p1")), .advance sampleReply 1 20] ++
    runs 2 (smallRequest maxWaitingTickets "p2") ++ [.advance sampleReply 1 100]

def overlapState (maxWaitingTickets : ℕ) : ServiceState :=
  (service sampleRuntime).after (overlapScript maxWaitingTickets) (emptyState 0)

theorem overlapState_reachable (maxWaitingTickets : ℕ) :
    (service sampleRuntime).Reachable (emptyState 0) (overlapState maxWaitingTickets) :=
  System.reachable_after (overlapScript maxWaitingTickets) _

/-- Two requests that overlap exceed a limit that each of them has checked. -/
theorem overbooked : (service sampleRuntime).Reachable (emptyState 0) (overlapState 1) ∧
    ¬ LimitsHold (overlapState 1).world.log :=
  ⟨overlapState_reachable 1, not_limitsHold (by decide +kernel)⟩

/-! ## Two requests that there is room for -/

/-- How many entries that satisfy `p` were logged after session `i` had begun. -/
def sinceBegun (i : ℕ) (p : LogEntry → Bool) : List LogEntry → ℕ
  | [] => 0
  | x :: older => (if p x && older.any (fun e => e.session = i) then 1 else 0) + sinceBegun i p older

theorem countP_le_sinceBegun {i : ℕ} {p : LogEntry → Bool} {between mid : List LogEntry}
    (hbegun : ∃ e ∈ mid, e.session = i) : between.countP p ≤ sinceBegun i p (between ++ mid) := by
  induction between with
  | nil => exact Nat.zero_le _
  | cons x between ih =>
    have hany : (between ++ mid).any (fun e => e.session = i) = true := by
      obtain ⟨e, he, hsession⟩ := hbegun
      exact List.any_eq_true.mpr ⟨e, List.mem_append_right _ he, decide_eq_true hsession⟩
    rw [List.countP_cons, List.cons_append, sinceBegun, hany, Bool.and_true]
    omega

/-- The entry writes the row of the tenant. -/
def writesTenant (tenantId : String) (entry : LogEntry) : Bool :=
  entry.event.commit?.any fun c => (c.1.writes.dlookup (.tenants tenantId)).isSome

theorem ChangesTenant.writesTenant {tenantId : String} {entry : LogEntry} (h : ChangesTenant tenantId entry) :
    writesTenant tenantId entry = true := by
  obtain ⟨t, b, hc, hne⟩ := h
  rw [Matchmaking.writesTenant, hc, Option.any_some]
  by_contra hnone
  exact hne (lookup_patch_of_notMem (Option.not_isSome_iff_eq_none.mp hnone) b)

/-- Even all the tickets that were inserted after session `i` had begun are none, or fit in. -/
def fitsIn (i : ℕ) (older : List LogEntry) (p : (k : Key) → Row k → Bool) (limit : ℤ) (t : Txn Row) : Bool :=
  let n := sinceBegun i (insertsTicket p) older
  n = 0 || t.reads.all fun σ => ((count p σ + n : ℕ) : ℤ) < limit

/-- If the entry inserts a ticket, nobody disturbs its admission. -/
def admitsAt (entry : LogEntry) (older : List LogEntry) : Bool :=
  match entry.actor with
  | .createTicket settings _ _ _ => entry.event.commit?.all fun c =>
    (rowsOf ticketRow (patch c.1.writes c.2)).all fun r => (c.2.lookup (.tickets r.1)).isSome ||
      sinceBegun entry.session (writesTenant r.2.tenantId) older = 0 &&
        (c.2.lookup (.tenants r.2.tenantId)).all fun (tenant : Tenant) =>
          (((transactionsOf entry.session older)[readsAfterCounts settings + 1]?).all
            (fitsIn entry.session older (isWaitingOf r.2.tenantId) tenant.maxTicketsInFlight)) &&
          ((transactionsOf entry.session older)[readsAfterCounts settings]?).all
            (fitsIn entry.session older (isWaitingIn r.2.partitionId) tenant.maxPartitionDepth)
  | _ => true

/-- All inserts of the log are undisturbed. -/
def admits (log : List LogEntry) : Bool :=
  log.tails.all fun tail => match tail with
    | [] => true
    | entry :: older => admitsAt entry older

theorem Saw.leavesRoom {i : ℕ} {older : List LogEntry} {D : Tables → Prop} (h : Saw i older D t)
    {p : (k : Key) → Row k → Bool} {limit : ℤ} (hfits : fitsIn i older p limit t = true) :
    LeavesRoom p limit t older := by
  obtain ⟨mid, σ, hm, hreads, -⟩ := h
  obtain ⟨between, rfl⟩ := hm.suffix
  have hle : between.countP (insertsTicket p) ≤ sinceBegun i (insertsTicket p) (between ++ mid) :=
    countP_le_sinceBegun hm.begun
  refine ⟨between, σ, ⟨mid, σ, rfl, hm.store, hreads⟩, hreads, ?_⟩
  simp only [fitsIn, hreads, List.all_cons, List.all_nil, Bool.and_true, Bool.or_eq_true, decide_eq_true_eq] at hfits
  obtain hnone | hfits := hfits
  · exact .inl (Nat.le_zero.mp (hnone ▸ hle))
  · exact .inr (Int.lt_of_le_of_lt (Int.ofNat_le.mpr (Nat.add_le_add_left hle _)) hfits)

theorem admissionsUndisturbed_of_admits {clock : Time} {s : ServiceState}
    (hs : (service rt).Reachable (emptyState clock) s) (h : admits s.world.log = true) :
    AdmissionsUndisturbed s.world.log := by
  intro newer entry older hlog t b ticket hc hinsert tenant htenant settings xTenantId key body hactor look quota
    depth hcounted
  obtain ⟨settings', key', body', tenant', look', quota', depth', hactor', hpassed⟩ :=
    inserts_passed hs hlog hc hinsert
  obtain ⟨rfl, rfl, rfl, rfl⟩ :
      settings' = settings ∧ some ticket.tenantId = xTenantId ∧ key' = key ∧ body' = body := by
    simpa [hactor] using hactor'.symm
  obtain rfl := Option.some.inj (hpassed.readsTenant.symm.trans hcounted.readsTenant)
  obtain rfl := Option.some.inj (hpassed.countsTenant.symm.trans hcounted.countsTenant)
  obtain rfl := Option.some.inj (hpassed.countsPartition.symm.trans hcounted.countsPartition)
  have hat := List.all_eq_true.mp h (entry :: older) ((List.mem_tails _ _).mpr (hlog ▸ List.suffix_append _ _))
  obtain ⟨id, hold, hnew⟩ := hinsert
  simp only [admitsAt, hactor, hc, Option.all_some] at hat
  have hrow := List.all_eq_true.mp hat (id, ticket) (mem_rowsOf_ticketRow.mpr hnew)
  simp only [hold, htenant, hcounted.countsTenant, hcounted.countsPartition, Option.isSome_none, Bool.false_or,
    Option.all_some, Bool.and_eq_true, decide_eq_true_eq] at hrow
  obtain ⟨hunwritten, hquota, hdepth⟩ := hrow
  refine ⟨?_, hpassed.underQuota.leavesRoom hquota, hpassed.underDepth.leavesRoom hdepth⟩
  obtain ⟨mid, σ, hm, hreads, -⟩ := hpassed.found
  obtain ⟨between, rfl⟩ := hm.suffix
  refine ⟨between, ⟨mid, σ, rfl, hm.store, hreads⟩, fun x hx hchanges => ?_⟩
  have hle : between.countP (writesTenant ticket.tenantId) ≤ 0 := hunwritten ▸ countP_le_sinceBegun hm.begun
  exact absurd (List.countP_pos_iff.mpr ⟨x, hx, hchanges.writesTenant⟩) (Nat.not_lt.mpr hle)

/-- With room for two, the same requests stay within the limits. -/
theorem limits_hold_overlap : (overlapState 2).world.log.countP (insertsTicket (isWaitingOf "studio_a")) = 2 ∧
    LimitsHold (overlapState 2).world.log :=
  ⟨by decide +kernel, (limits_hold (overlapState_reachable 2)).2
    (admissionsUndisturbed_of_admits (overlapState_reachable 2) (by decide +kernel))⟩

end Matchmaking
