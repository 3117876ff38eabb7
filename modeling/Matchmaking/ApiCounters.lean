import Matchmaking.AdmissionLimits
import Matchmaking.ReadCommitted.Tally
import Matchmaking.WorkerCounters

/-!
# The counters of the API

`core/metrics.py`: the gauge of active tickets and the counter of tickets created, and the tables that
they should tell about. Both are updated by requests only, and before or after the commit that they
stand for.
-/

namespace Matchmaking

open ReadCommitted ReadCommitted.Triple

variable {rt : Runtime} {i : ℕ} {l : Actor} {tenantId : String} {partitionId : ℕ} {t : Txn Row}
  {s s' : Tables}

/-! ## What is counted -/

/-- The requests in which the counters occur. -/
def Actor.countsTickets : Actor → Bool
  | .createTicket .. | .cancelTicket .. => true
  | _ => false

/-- An active ticket of the tenant in the partition. -/
def isActiveIn (tenantId : String) (partitionId : ℕ) : (k : Key) → Row k → Bool
  | .tickets _, t => t.tenantId = tenantId && t.partitionId = partitionId && t.status.isActive
  | _, _ => false

/-- A ticket of the tenant. -/
def isTicketOf (tenantId : String) : (k : Key) → Row k → Bool
  | .tickets _, t => t.tenantId = tenantId
  | _, _ => false

/-- What the entry adds to `active_tickets`. -/
def gaugeGrowth (tenantId : String) (partitionId : ℕ) (e : LogEntry) : ℤ :=
  match e.event with
  | .emit (.activeTickets tenantId' partitionId' delta) =>
    if e.actor.countsTickets = true ∧ tenantId' = tenantId ∧ partitionId' = partitionId then delta else 0
  | _ => 0

/-- What the entry adds to `tickets_created_total`, for all regions and queues together. -/
def createdGrowth (tenantId : String) (e : LogEntry) : ℤ :=
  match e.event with
  | .emit (.ticketsCreated tenantId' _ _) =>
    if e.actor.countsTickets = true ∧ tenantId' = tenantId then 1 else 0
  | _ => 0

/-- The part of the entries of replica `r`, where `replica` tells where each request is handled. -/
def onReplica {n : ℕ} (replica : ℕ → Fin n) (r : Fin n) (x : LogEntry → ℤ) (e : LogEntry) : ℤ :=
  if replica e.session = r then x e else 0

/-- The replicas together. -/
theorem sum_onReplica {n : ℕ} (replica : ℕ → Fin n) (x : LogEntry → ℤ) (log : List LogEntry) :
    ∑ r, tally (onReplica replica r x) log = tally x log := by
  induction log with
  | nil => exact Finset.sum_eq_zero fun _ _ => rfl
  | cons e log ih =>
    simp only [tally_cons, Finset.sum_add_distrib, ih, onReplica, Finset.sum_ite_eq, Finset.mem_univ,
      if_true]

/-! ## Marks -/

/-- What a session does as far as one tenant and one partition are concerned. -/
inductive TicketMark
  /-- `tickets_created_total` is increased. -/
  | created
  /-- `active_tickets` is changed. -/
  | gauge (delta : ℤ)
  /-- A commit changes the number of active tickets, or that of all tickets. -/
  | committed (active rows : ℤ)
  deriving DecidableEq

/-- What an entry means for the counters of a tenant and a partition: what its commit changes, or what the
replica counts. -/
def ticketMark (tenantId : String) (partitionId : ℕ) (e : LogEntry) : Option TicketMark :=
  match e.event with
  | .emit (.ticketsCreated tenantId' _ _) =>
    if e.actor.countsTickets = true ∧ tenantId' = tenantId then some .created else none
  | .emit (.activeTickets tenantId' partitionId' delta) =>
    if e.actor.countsTickets = true ∧ tenantId' = tenantId ∧ partitionId' = partitionId then
      some (.gauge delta)
    else none
  | .commit .. =>
    if e.actor.countsTickets = false then none
    else if countGrowth (isActiveIn tenantId partitionId) e = 0 ∧ countGrowth (isTicketOf tenantId) e = 0 then
      none
    else some (.committed (countGrowth (isActiveIn tenantId partitionId) e)
      (countGrowth (isTicketOf tenantId) e))
  | _ => none

namespace TicketMark

/-- By how much the gauge exceeds the active tickets. -/
def excess : TicketMark → ℤ
  | created => 0
  | gauge delta => delta
  | committed active _ => -active

/-- By how much the counter exceeds the tickets. -/
def createdExcess : TicketMark → ℤ
  | created => 1
  | gauge _ => 0
  | committed _ rows => -rows

end TicketMark

/-- The requests' part of `x`, and that of everybody else. -/
def ofRequests (x : LogEntry → ℤ) (e : LogEntry) : ℤ := if e.actor.countsTickets = true then x e else 0

/-- The part of an amount that comes from entries of other actors than the requests. -/
def ofOthers (x : LogEntry → ℤ) (e : LogEntry) : ℤ := if e.actor.countsTickets = true then 0 else x e

/-- An amount over the log is what the requests add and what the others add. -/
theorem tally_ofRequests_add (x : LogEntry → ℤ) (log : List LogEntry) :
    tally x log = tally (ofRequests x) log + tally (ofOthers x) log := by
  induction log with
  | nil => rfl
  | cons e log ih =>
    rw [tally_cons, tally_cons, tally_cons, ih, ofRequests, ofOthers]
    split <;> omega

/-- What an entry adds to the excess of the gauge. -/
def gaugeExcess (tenantId : String) (partitionId : ℕ) (e : LogEntry) : ℤ :=
  gaugeGrowth tenantId partitionId e - countGrowth (isActiveIn tenantId partitionId) e

/-- What an entry adds to the excess of the counter. -/
def createdExcess (tenantId : String) (e : LogEntry) : ℤ :=
  createdGrowth tenantId e - countGrowth (isTicketOf tenantId) e

/-- Entries of which the counters take no notice. -/
theorem ticketMark_of_not_counts {e : LogEntry} (he : e.actor.countsTickets = false) :
    ticketMark tenantId partitionId e = none := by
  unfold ticketMark
  split <;> simp [he]

/-- The mark of a commit. -/
theorem ticketMark_commit {e : LogEntry} (he : e.actor.countsTickets = true) {t : Txn Row} {b : Tables}
    (hc : e.event = .commit t b) {active rows : ℤ}
    (hactive : countGrowth (isActiveIn tenantId partitionId) e = active)
    (hrows : countGrowth (isTicketOf tenantId) e = rows) :
    ticketMark tenantId partitionId e
      = if active = 0 ∧ rows = 0 then none else some (.committed active rows) := by
  simp only [ticketMark, hc, he, hactive, hrows, Bool.true_eq_false, if_false]

/-- Which entries have which marks. -/
theorem ticketMark_created_iff {e : LogEntry} :
    ticketMark tenantId partitionId e = some .created ↔ 0 < createdGrowth tenantId e := by
  cases hev : e.event with
  | emit m =>
    cases m with
    | ticketsCreated tenantId' region queueName =>
      simp only [ticketMark, createdGrowth, hev]
      split <;> simp
    | _ => simp [ticketMark, createdGrowth, hev]
  | commit t b =>
    simp only [ticketMark, createdGrowth, hev]
    split
    · simp
    · split <;> simp
  | _ => simp [ticketMark, createdGrowth, hev]

/-- A mark of the gauge is one that moves it, by the same amount. -/
theorem ticketMark_gauge_iff {e : LogEntry} {delta : ℤ} (hdelta : delta ≠ 0) :
    ticketMark tenantId partitionId e = some (.gauge delta) ↔ gaugeGrowth tenantId partitionId e = delta := by
  cases hev : e.event with
  | emit m =>
    cases m with
    | activeTickets tenantId' partitionId' delta' =>
      simp only [ticketMark, gaugeGrowth, hev]
      split
      · simp
      · simp [hdelta.symm]
    | _ => simp [ticketMark, gaugeGrowth, hev, hdelta.symm]
  | commit t b =>
    simp only [ticketMark, gaugeGrowth, hev]
    split
    · simp [hdelta.symm]
    · split <;> simp [hdelta.symm]
  | _ => simp [ticketMark, gaugeGrowth, hev, hdelta.symm]

/-- The mark of a commit tells by how much active tickets and rows have grown. -/
theorem growth_of_ticketMark {e : LogEntry} {active rows : ℤ}
    (h : ticketMark tenantId partitionId e = some (.committed active rows)) :
    e.actor.countsTickets = true ∧ countGrowth (isActiveIn tenantId partitionId) e = active ∧
      countGrowth (isTicketOf tenantId) e = rows := by
  cases he : e.actor.countsTickets with
  | false => cases (ticketMark_of_not_counts he).symm.trans h
  | true =>
    unfold ticketMark at h
    split at h
    · split at h <;> cases h
    · split at h <;> cases h
    · rw [if_neg (by simp [he])] at h
      split at h
      · cases h
      · cases h
        exact ⟨rfl, rfl, rfl⟩
    · cases h

/-- A commit of a request that changes one of the numbers has a mark that says so. -/
theorem ticketMark_of_growth {e : LogEntry} (he : e.actor.countsTickets = true)
    (h : ¬ (countGrowth (isActiveIn tenantId partitionId) e = 0 ∧ countGrowth (isTicketOf tenantId) e = 0)) :
    ticketMark tenantId partitionId e = some (.committed (countGrowth (isActiveIn tenantId partitionId) e)
      (countGrowth (isTicketOf tenantId) e)) := by
  cases hev : e.event with
  | commit t b => rw [ticketMark_commit he hev rfl rfl, if_neg h]
  | _ =>
    refine absurd ?_ h
    simp [countGrowth, hev, Event.commit?]

/-- What an entry adds to the excesses, as its mark tells. -/
theorem excess_mark (e : LogEntry) :
    ofRequests (gaugeExcess tenantId partitionId) e
        = (ticketMark tenantId partitionId e).elim 0 TicketMark.excess ∧
      ofRequests (createdExcess tenantId) e
        = (ticketMark tenantId partitionId e).elim 0 TicketMark.createdExcess := by
  cases he : e.actor.countsTickets with
  | false =>
    rw [ticketMark_of_not_counts he]
    simp [ofRequests, he]
  | true =>
    simp only [ofRequests, he, if_true, gaugeExcess, createdExcess]
    cases hev : e.event with
    | commit t b =>
      rw [ticketMark_commit he hev rfl rfl]
      simp only [gaugeGrowth, createdGrowth, hev]
      split
      · next hzero =>
        rw [hzero.1, hzero.2]
        exact ⟨rfl, rfl⟩
      · exact ⟨zero_sub _, zero_sub _⟩
    | emit m =>
      cases m with
      | ticketsCreated tenantId' region queueName =>
        by_cases hid : tenantId' = tenantId <;>
          simp [gaugeGrowth, createdGrowth, ticketMark, countGrowth, Event.commit?, hev, he, hid,
            TicketMark.excess, TicketMark.createdExcess]
      | activeTickets tenantId' partitionId' delta =>
        by_cases hid : tenantId' = tenantId ∧ partitionId' = partitionId <;>
          simp [gaugeGrowth, createdGrowth, ticketMark, countGrowth, Event.commit?, hev, he, hid,
            TicketMark.excess, TicketMark.createdExcess]
      | _ => simp [gaugeGrowth, createdGrowth, ticketMark, countGrowth, Event.commit?, hev]
    | _ => simp [gaugeGrowth, createdGrowth, ticketMark, countGrowth, Event.commit?, hev]

/-- What a request may leave, newest first: as much as it has done so far. -/
inductive TicketFine : List TicketMark → Prop
  /-- The creation of a ticket of the tenant in the partition. -/
  | creating {ms : List TicketMark} (h : ms <:+ [.committed 1 1, .gauge 1, .created]) : TicketFine ms
  /-- The same in another partition. -/
  | elsewhere {ms : List TicketMark} (h : ms <:+ [.committed 0 1, .created]) : TicketFine ms
  | cancelling {ms : List TicketMark} (h : ms <:+ [.gauge (-1), .committed (-1) 0]) : TicketFine ms

namespace TicketFine

variable {ms : List TicketMark}

/-- The marks that one request may leave, newest first, one line for each way in which it may end. -/
theorem cases_list (h : TicketFine ms) :
    ms = [] ∨ ms = [.created] ∨ ms = [.gauge 1, .created] ∨ ms = [.committed 1 1, .gauge 1, .created] ∨
      ms = [.committed 0 1, .created] ∨ ms = [.committed (-1) 0] ∨
      ms = [.gauge (-1), .committed (-1) 0] := by
  cases h with
  | creating h | elsewhere h | cancelling h =>
    simp only [List.suffix_cons_iff, List.suffix_nil] at h
    tauto

/-- No request lets the gauge fall behind the active tickets. -/
theorem excess_nonneg (h : TicketFine ms) : 0 ≤ tally TicketMark.excess ms := by
  obtain rfl | rfl | rfl | rfl | rfl | rfl | rfl := h.cases_list <;> decide

/-- No request counts more tickets as created than it has created. -/
theorem createdExcess_nonneg (h : TicketFine ms) : 0 ≤ tally TicketMark.createdExcess ms := by
  obtain rfl | rfl | rfl | rfl | rfl | rfl | rfl := h.cases_list <;> decide

/-- The counters are right if what is counted as created is committed, and what is taken out of the
active tickets is taken off the gauge. -/
theorem excess_eq_zero_iff (h : TicketFine ms) :
    tally TicketMark.excess ms = 0 ∧ tally TicketMark.createdExcess ms = 0 ↔
      (.created ∈ ms → ∃ active rows, .committed active rows ∈ ms ∧ 0 < rows) ∧
        (∀ active rows, .committed active rows ∈ ms → active < 0 → ∃ delta, .gauge delta ∈ ms ∧ delta < 0) := by
  obtain rfl | rfl | rfl | rfl | rfl | rfl | rfl := h.cases_list <;>
    simp [tally, TicketMark.excess, TicketMark.createdExcess]

end TicketFine

/-! ## Commits of everybody else -/

section Others

/-- A ticket as it was before: with the same tenant and partition, and active if it still is. -/
theorem Legal.ticket_before (h : Legal rt l t s) (hl : l.countsTickets = false) {id : UUID} {tk' : Ticket}
    (htk' : (patch t.writes s).lookup (.tickets id) = some tk') :
    ∃ tk, s.lookup (.tickets id) = some tk ∧ tk'.identity = tk.identity ∧
      (tk'.status.isActive = true → tk.status.isActive = true) := by
  obtain hun | ⟨n, hmakes⟩ := h.unpaired_or_makes
  · have hstep := hun.tickets id
    rw [htk'] at hstep
    generalize hold : s.lookup (.tickets id) = v at hstep
    cases hstep with
    | same => exact ⟨tk', rfl, rfl, fun h => h⟩
    | @unreserved a hres =>
      refine ⟨a, rfl, rfl, fun _ => ?_⟩
      rw [hres]
      rfl
    | cancelled => exact ⟨_, rfl, rfl, fun hactive => by cases hactive⟩
    | created n settings hcreate =>
      rw [hcreate] at hl
      cases hl
  by_cases h₁ : id = n.firstId
  · subst h₁
    obtain ⟨hold, hnew⟩ := hmakes.changed.lookup (.tickets n.firstId) (fun h => h)
      (n.dlookup_first t.start hmakes.compatible.apart)
    obtain rfl := Option.some.inj (hnew.symm.trans htk')
    exact ⟨n.first, hold, rfl, fun hactive => by cases hactive⟩
  by_cases h₂ : id = n.secondId
  · subst h₂
    obtain ⟨hold, hnew⟩ := hmakes.changed.lookup (.tickets n.secondId) (fun h => h)
      (n.dlookup_second t.start)
    obtain rfl := Option.some.inj (hnew.symm.trans htk')
    exact ⟨n.second, hold, rfl, fun hactive => by cases hactive⟩
  exact ⟨tk', (NewMatch.frame_ticket hmakes.changed ⟨h₁, h₂⟩).symm.trans htk', rfl, fun h => h⟩

/-- Without a match, active tickets stay active. -/
theorem Legal.ticket_after (h : Legal rt l t s) (hl : l.countsTickets = false)
    (hm : matchesAdded t s = 0) {id : UUID} {tk : Ticket} (htk : s.lookup (.tickets id) = some tk)
    (hactive : tk.status.isActive = true) : ∃ tk', (patch t.writes s).lookup (.tickets id) = some tk' ∧
      tk'.identity = tk.identity ∧ tk'.status.isActive = true := by
  have hsame : (patch t.writes s).lookup (.tickets id) = s.lookup (.tickets id) →
      ∃ tk', (patch t.writes s).lookup (.tickets id) = some tk' ∧ tk'.identity = tk.identity ∧
        tk'.status.isActive = true := fun h => ⟨tk, h.trans htk, rfl, hactive⟩
  cases h with
  | rows h =>
    have hrow := h (.tickets id)
    cases l with
    | runLoop settings workerId offset =>
      obtain hrow | ⟨a, ha, -, hrow⟩ := hrow
      · exact hsame hrow
      · obtain rfl := Option.some.inj (htk.symm.trans ha)
        exact ⟨_, hrow, rfl, rfl⟩
    | createTicket | cancelTicket => cases hl
    | _ => exact hsame hrow
  | pair n hn hurl h => cases hm.symm.trans (NewMatch.matchesAdded h)
  | claim tie σ hσ h => exact hsame (h (.tickets id))
  | outcome o eventId e m hm h =>
    exact hsame (h.frame (.tickets id) (fun h => h) (o.dlookup_eq_none _ _ _ _ (by simp) (by simp)))
  | create => cases hl

/-- An active ticket that keeps its identity and stays active is counted in the same place. -/
theorem isActiveIn_tickets {tk tk' : Ticket} (hid : tk'.identity = tk.identity) (id : UUID)
    (h : isActiveIn tenantId partitionId (.tickets id) tk = true) (hactive : tk'.status.isActive = true) :
    isActiveIn tenantId partitionId (.tickets id) tk' = true := by
  simp only [Ticket.identity, Prod.mk.injEq] at hid
  obtain ⟨htenant, -, -, -, -, hpartition, -⟩ := hid
  simp only [isActiveIn, Bool.and_eq_true, decide_eq_true_eq] at h ⊢
  exact ⟨⟨htenant.trans h.1.1, hpartition.trans h.1.2⟩, hactive⟩

/-- Only rows of tickets are counted as active. -/
theorem onTickets_isActiveIn : OnTickets (isActiveIn tenantId partitionId) := by
  intro k v hv
  cases k <;> first | exact ⟨_, rfl⟩ | cases hv

/-- Only rows of tickets are counted as the tenant's tickets. -/
theorem onTickets_isTicketOf : OnTickets (isTicketOf tenantId) := by
  intro k v hv
  cases k <;> first | exact ⟨_, rfl⟩ | cases hv

/-- Other actors take tickets out of the active ones at most. -/
theorem Legal.active_le (h : Legal rt l t s) (hl : l.countsTickets = false) :
    count (isActiveIn tenantId partitionId) (patch t.writes s) ≤ count (isActiveIn tenantId partitionId) s := by
  refine count_le fun k v hv hlook => ?_
  obtain ⟨id, rfl⟩ := onTickets_isActiveIn k v hv
  obtain ⟨tk, htk, hid, hactive⟩ := h.ticket_before hl hlook
  refine ⟨tk, htk, isActiveIn_tickets hid.symm id hv (hactive ?_)⟩
  simp only [isActiveIn, Bool.and_eq_true] at hv
  exact hv.2

/-- Without a match they leave the active tickets as they are. -/
theorem Legal.active_eq (h : Legal rt l t s) (hl : l.countsTickets = false)
    (hm : matchesAdded t s = 0) : count (isActiveIn tenantId partitionId) (patch t.writes s)
      = count (isActiveIn tenantId partitionId) s := by
  refine le_antisymm (h.active_le hl) (count_le fun k v hv hlook => ?_)
  obtain ⟨id, rfl⟩ := onTickets_isActiveIn k v hv
  have hstatus : (show Ticket from v).status.isActive = true := by
    simp only [isActiveIn, Bool.and_eq_true] at hv
    exact hv.2
  obtain ⟨tk', htk', hid, hactive⟩ := h.ticket_after hl hm hlook hstatus
  exact ⟨tk', htk', isActiveIn_tickets hid id hv hactive⟩

/-- A ticket that keeps its identity stays a ticket of its tenant. -/
theorem isTicketOf_tickets {tk tk' : Ticket} (hid : tk'.identity = tk.identity) (id : UUID)
    (h : isTicketOf tenantId (.tickets id) tk = true) : isTicketOf tenantId (.tickets id) tk' = true := by
  simp only [Ticket.identity, Prod.mk.injEq] at hid
  simp only [isTicketOf, decide_eq_true_eq] at h ⊢
  exact hid.1.trans h

/-- Commits of actors other than requests neither add tickets nor remove them. -/
theorem Legal.tickets_eq (h : Legal rt l t s) (hl : l.countsTickets = false) :
    count (isTicketOf tenantId) (patch t.writes s) = count (isTicketOf tenantId) s := by
  refine le_antisymm (count_le fun k v hv hlook => ?_) (count_le fun k v hv hlook => ?_)
  all_goals obtain ⟨id, rfl⟩ := onTickets_isTicketOf k v hv
  · obtain ⟨tk, htk, hid, -⟩ := h.ticket_before hl hlook
    exact ⟨tk, htk, isTicketOf_tickets hid.symm id hv⟩
  · obtain ⟨tk', htk', hid⟩ := h.persist (.tickets id) trivial _ hlook
    exact ⟨tk', htk', isTicketOf_tickets hid id hv⟩

/-- A commit adds no match, or makes one. -/
theorem Legal.unmatched_or_makes (h : Legal rt l t s) : matchesAdded t s = 0 ∨ ∃ n, Makes l t s n := by
  obtain hun | hmakes := h.unpaired_or_makes
  · left
    have hcount : count isMatchRow (patch t.writes s) ≤ count isMatchRow s := by
      refine count_le fun k v hv hlook => ?_
      cases k with
      | «matches» m =>
        have hold := hun.matchRows m
        rw [hlook] at hold
        obtain ⟨row, hrow, -⟩ := Option.map_eq_some_iff.mp hold.symm
        exact ⟨row, hrow, rfl⟩
      | _ => cases hv
    rw [matchesAdded]
    omega
  · exact .inr hmakes

/-- A match takes its tickets out of the active ones. -/
theorem Legal.active_lt (h : Legal rt l t s) (hl : l.countsTickets = false)
    (hm : matchesAdded t s ≠ 0) : ∃ tenantId partitionId,
      count (isActiveIn tenantId partitionId) (patch t.writes s)
        < count (isActiveIn tenantId partitionId) s := by
  obtain ⟨n, hmakes⟩ := h.unmatched_or_makes.resolve_left hm
  refine ⟨n.first.tenantId, n.first.partitionId, ?_⟩
  obtain ⟨hold, hnew⟩ := hmakes.changed.lookup (.tickets n.firstId) (fun h => h)
    (n.dlookup_first t.start hmakes.compatible.apart)
  have hcount := count_writeRow (isActiveIn n.first.tenantId n.first.partitionId) (.tickets n.firstId) none s
  have hfirst : weight (isActiveIn n.first.tenantId n.first.partitionId) (.tickets n.firstId)
      (some n.first) = 1 := by
    simp [weight, isActiveIn, hmakes.compatible.firstWaiting, TicketStatus.isActive]
  -- the others are active before as well
  have hle : count (isActiveIn n.first.tenantId n.first.partitionId) (patch t.writes s)
      ≤ count (isActiveIn n.first.tenantId n.first.partitionId) (writeRow ⟨.tickets n.firstId, none⟩ s) := by
    refine count_le fun k v hv hlook => ?_
    obtain ⟨id, rfl⟩ := onTickets_isActiveIn k v hv
    obtain ⟨tk, htk, hid, hactive⟩ := h.ticket_before hl hlook
    have hstatus : (show Ticket from v).status.isActive = true := by
      simp only [isActiveIn, Bool.and_eq_true] at hv
      exact hv.2
    have hother : Key.tickets id ≠ .tickets n.firstId := fun heq => by
      obtain rfl := Key.tickets.inj heq
      obtain rfl := Option.some.inj (hlook.symm.trans hnew)
      cases hstatus
    rw [lookup_writeRow_ne hother]
    exact ⟨tk, htk, isActiveIn_tickets hid.symm id hv (hactive hstatus)⟩
  rw [hold, hfirst] at hcount
  simp only [weight, Option.any_none, Bool.false_eq_true, if_false, Nat.add_zero] at hcount
  omega

end Others

/-! ## The programs -/

/-- What requests may leave in the log. -/
def ticketRule (tenantId : String) (partitionId : ℕ) :
    LogRule Row Reply Exn Metric Answer Actor TicketMark where
  mark := ticketMark tenantId partitionId
  fine := TicketFine
  start := .creating List.nil_suffix
  begun _ _ _ := rfl

/-- Rows of `tickets` stay as they are. -/
def ticketsStay : RowRel Row := fun _ k =>
  match k with
  | .tickets _ => fun v v' => v' = v
  | _ => fun _ _ => True

theorem ticketsStay_refl (now : Time) (k : Key) (v : Option (Row k)) : ticketsStay now k v v := by
  cases k <;> first | rfl | trivial

/-- Two writes that leave a ticket in its place do so together. -/
theorem ticketsStay_trans (now : Time) (k : Key) (v v' v'' : Option (Row k))
    (h : ticketsStay now k v v') (h' : ticketsStay now k v' v'') : ticketsStay now k v v'' := by
  cases k <;> first | exact Eq.trans h' h | trivial

/-- The metrics that concern tickets. -/
def isTicketMetric : Metric → Bool
  | .ticketsCreated .. | .activeTickets .. => true
  | _ => false

/-- Counts of tickets stay as they are along with the tickets. -/
theorem count_stay {p : (k : Key) → Row k → Bool} (hp : OnTickets p) {time : Time}
    (h : ∀ k, ticketsStay time k (s.lookup k) (s'.lookup k)) : count p s' = count p s := by
  refine count_congr fun k v hv => ?_
  obtain ⟨id, rfl⟩ := hp k v hv
  rw [show _ = _ from h (.tickets id)]

/-- What a commit adds to a count. -/
theorem countGrowth_commit {p : (k : Key) → Row k → Bool} {time : Time} :
    countGrowth p (⟨i, l, time, .commit t s⟩ : LogEntry) = count p (patch t.writes s) - count p s := rfl

/-- A commit that leaves both counts as they are leaves no mark. -/
theorem ticketMark_of_counts {time : Time}
    (hactive : count (isActiveIn tenantId partitionId) (patch t.writes s)
      = count (isActiveIn tenantId partitionId) s)
    (hrows : count (isTicketOf tenantId) (patch t.writes s) = count (isTicketOf tenantId) s) :
    ticketMark tenantId partitionId ⟨i, l, time, .commit t s⟩ = none := by
  have hzero : ∀ {p : (k : Key) → Row k → Bool}, count p (patch t.writes s) = count p s →
      countGrowth p (⟨i, l, time, .commit t s⟩ : LogEntry) = 0 := fun h => by
    rw [countGrowth_commit, h, sub_self]
  cases hl : l.countsTickets with
  | false => exact ticketMark_of_not_counts hl
  | true =>
    rw [ticketMark_commit hl rfl (hzero hactive) (hzero hrows)]
    rfl

/-- Statements leave no marks, and no commits do while tickets stay as they are. -/
theorem ticket_composite {ends : Prop} :
    Composite (fun k => ∀ id, k ≠ .tickets id) ends (fun m => isTicketMetric m = false)
      fun {α : Type} (x : Db α) => x.Uses (Op.Silent (ticketMark tenantId partitionId) i l ticketsStay) := by
  refine silent_composite (fun k hk now v v' => ?_) (fun time t b hrows => ?_) (fun _ _ _ => rfl)
    fun m hm time => ?_
  · cases k with
    | tickets id => exact absurd rfl (hk id)
    | _ => trivial
  · exact ticketMark_of_counts (count_stay onTickets_isActiveIn hrows) (count_stay onTickets_isTicketOf hrows)
  · cases m <;> first | rfl | cases hm

section Requests

variable {ms : List TicketMark}

/-- A program that keeps to silent statements. -/
theorem ticket_silent {α : Type} {x : Db α}
    (hx : x.Uses (Op.Silent (ticketMark tenantId partitionId) i l ticketsStay)) :
    Triple (ruleSpec rt (ticketRule tenantId partitionId)) i l
      (fun w T => Follows ticketsStay w T ∧ (ticketRule tenantId partitionId).Marked i ms w T) x
      (fun _ w T => Follows ticketsStay w T ∧ (ticketRule tenantId partitionId).Marked i ms w T) anything :=
  any (silent ticketsStay_refl ticketsStay_trans hx)

/-- The same between transactions. -/
theorem ticket_idle {α : Type} {x : Db α}
    (hidle : Triple (commitSpec rt) i l Idle x (fun _ => Idle) anything)
    (hx : x.Uses (Op.Silent (ticketMark tenantId partitionId) i l ticketsStay)) :
    Triple (ruleSpec rt (ticketRule tenantId partitionId)) i l
      (fun w T => Idle w T ∧ (ticketRule tenantId partitionId).Marked i ms w T) x
      (fun _ w T => Idle w T ∧ (ticketRule tenantId partitionId).Marked i ms w T) anything :=
  (ruled hidle (ticket_silent hx)).conseq (fun _ _ h => ⟨h.1, Follows.idle h.1, h.2⟩)
    (fun _ _ _ h => ⟨h.1, h.2.2⟩) fun _ _ _ _ => trivial

/-- The mark of `tickets_created_total.labels(tenant_id=tenantId').inc()`. -/
def createdMark (tenantId tenantId' : String) : Option TicketMark :=
  if tenantId' = tenantId then some .created else none

/-- The mark of `active_tickets.labels(tenantId', partitionId').inc(delta)`. -/
def gaugeMark (tenantId : String) (partitionId : ℕ) (tenantId' : String) (partitionId' : ℕ) (delta : ℤ) :
    Option TicketMark :=
  if tenantId' = tenantId ∧ partitionId' = partitionId then some (.gauge delta) else none

/-- What the creation of a ticket in partition `partitionId'` of tenant `tenantId'` leaves before its
commit. -/
def createMarks (tenantId : String) (partitionId : ℕ) (tenantId' : String) (partitionId' : ℕ) :
    List TicketMark :=
  (gaugeMark tenantId partitionId tenantId' partitionId' 1).toList ++
    (createdMark tenantId tenantId').toList

section Create

variable {settings : Settings} {xTenantId key : Option String} {body : TicketCreate} {tenantId' : String}
  {partitionId' : ℕ}

/-- Within a transaction, what does not end it leaves no marks. -/
theorem ticket_inside : Composite (fun _ => True) False (fun _ => False) fun {α : Type} (x : Db α) =>
    Triple (ruleSpec rt (ticketRule tenantId partitionId)) i l
      ((ticketRule tenantId partitionId).Inside i ms) x
      (fun _ => (ticketRule tenantId partitionId).Inside i ms)
      fun _ => (ticketRule tenantId partitionId).Inside i ms :=
  inside_composite (fun _ _ _ => rfl) fun _ h => h.elim

/-- Counting a ticket that was created is one of the ways. -/
theorem createdMark_fine : TicketFine (createdMark tenantId tenantId').toList := by
  unfold createdMark
  split
  · exact .creating ⟨[_, _], rfl⟩
  · exact .creating List.nil_suffix

/-- So are the commit, the gauge and the count of a successful create, in this order. -/
theorem createMarks_fine : TicketFine (createMarks tenantId partitionId tenantId' partitionId') := by
  unfold createMarks gaugeMark createdMark
  by_cases htenant : tenantId' = tenantId
  · by_cases hpartition : partitionId' = partitionId <;> simp only [htenant, hpartition, true_and, if_true, if_false]
    · exact .creating ⟨[_], rfl⟩
    · exact .creating ⟨[_, _], rfl⟩
  · simp only [htenant, false_and, if_false]
    exact .creating List.nil_suffix

/-- The counters are increased before the commit. -/
theorem insertAndFinalize_inside :
    Triple (ruleSpec rt (ticketRule tenantId partitionId)) i (.createTicket settings xTenantId key body)
      ((ticketRule tenantId partitionId).Inside i [])
      (insertAndFinalize tenantId' key body partitionId')
      (fun r w T => r.status = 201 ∧ (ticketRule tenantId partitionId).Inside i
        (createMarks tenantId partitionId tenantId' partitionId') w T) anything := by
  have h := fun ms => @ticket_inside rt i (.createTicket settings xTenantId key body) tenantId partitionId ms
  have htickets := fun ms => (h ms).tickets (fun _ => trivial) fun _ _ _ _ => trivial
  have hemit : ∀ {m : Metric} {ms : List TicketMark} (k : Option TicketMark),
      (∀ time, ticketMark tenantId partitionId
        ⟨i, .createTicket settings xTenantId key body, time, .emit m⟩ = k) → TicketFine (k.toList ++ ms) →
      Triple (ruleSpec rt (ticketRule tenantId partitionId)) i (.createTicket settings xTenantId key body)
        ((ticketRule tenantId partitionId).Inside i ms) (record m)
        (fun _ => (ticketRule tenantId partitionId).Inside i (k.toList ++ ms)) anything := fun k hk hfine =>
    LogRule.emit_marked grows_growth (.own _) (fun _ _ h => h) hk fun _ => hfine
  refine .bind ((htickets _).insert tenantId' body partitionId').any ?_
  rintro ⟨ticketId, row⟩
  refine .bind (hemit (createdMark tenantId tenantId') (fun _ => by simp [ticketMark, createdMark, Actor.countsTickets])
      (by rw [List.append_nil]; exact createdMark_fine)) fun _ =>
    .bind (hemit (gaugeMark tenantId partitionId tenantId' partitionId' 1) (fun _ => by
      simp [ticketMark, gaugeMark, Actor.countsTickets])
      (by rw [List.append_nil]; exact createMarks_fine)) fun _ => ?_
  have hmarks : (gaugeMark tenantId partitionId tenantId' partitionId' 1).toList ++
      ((createdMark tenantId tenantId').toList ++ [])
        = createMarks tenantId partitionId tenantId' partitionId' := by
    rw [List.append_nil, createMarks]
  rw [hmarks]
  cases key with
  | none => exact .pure _ fun _ _ h => ⟨rfl, h⟩
  | some key =>
    exact .bind ((h _).finalizeIdempotencyKey trivial _ _ _).any fun _ => .pure _ fun _ _ h => ⟨rfl, h⟩

/-- What is left before the commit, by the answer. -/
theorem createInTransaction_inside {requestHash : String} :
    Triple (ruleSpec rt (ticketRule tenantId partitionId)) i (.createTicket settings xTenantId key body)
      ((ticketRule tenantId partitionId).Inside i [])
      (createInTransaction tenantId' key requestHash body partitionId')
      (fun r => (ticketRule tenantId partitionId).Inside i
        (if r.status = 201 then createMarks tenantId partitionId tenantId' partitionId' else []))
      anything := by
  have h := @ticket_inside rt i (.createTicket settings xTenantId key body) tenantId partitionId []
  have hinsert := (@insertAndFinalize_inside rt i tenantId partitionId settings xTenantId key body tenantId'
    partitionId').post fun r w T hr => show (ticketRule tenantId partitionId).Inside i
      (if r.status = 201 then createMarks tenantId partitionId tenantId' partitionId' else []) w T by
    rw [if_pos hr.1]
    exact hr.2
  cases key with
  | none => exact hinsert
  | some key =>
    refine .bind (h.reserveIdempotencyKey trivial requestHash).any fun reserved =>
      .ite (fun _ => hinsert) fun _ => .bind (h.fetchStoredResponse key tenantId' requestHash).any ?_
    rintro (_ | ⟨storedResponse, hashMatched⟩)
    · exact .pure _ fun _ _ h => h
    · cases hashMatched <;> exact .pure _ fun _ _ h => h

/-- The commit of a new ticket. -/
theorem ticketMark_create {ticketId : UUID} {b : Tables}
    (h : Changed IsIndexKey ((⟨ticketId, tenantId', key, body, partitionId'⟩ : NewTicket).changes rt t.start)
      b (patch t.writes b)) {time : Time} :
    ticketMark tenantId partitionId ⟨i, .createTicket settings xTenantId key body, time, .commit t b⟩
      = if tenantId' = tenantId then some (.committed (if partitionId' = partitionId then 1 else 0) 1)
        else none := by
  have hactive := NewTicket.count_weight h (@onTickets_isActiveIn tenantId partitionId)
  have hrows := NewTicket.count_weight h (@onTickets_isTicketOf tenantId)
  simp only [weight, Option.any_some, isActiveIn, isTicketOf, NewTicket.ticket, newTicket,
    TicketStatus.isActive, Bool.and_true, Bool.and_eq_true, decide_eq_true_eq] at hactive hrows
  rw [ticketMark_commit rfl rfl countGrowth_commit countGrowth_commit, hactive, hrows]
  by_cases htenant : tenantId' = tenantId <;> by_cases hpartition : partitionId' = partitionId <;>
    simp [htenant, hpartition]

/-- The marks of a request that has created a ticket. -/
theorem created_fine : TicketFine ((if tenantId' = tenantId then
    some (TicketMark.committed (if partitionId' = partitionId then 1 else 0) 1) else none).toList ++
      createMarks tenantId partitionId tenantId' partitionId') := by
  unfold createMarks gaugeMark createdMark
  by_cases htenant : tenantId' = tenantId
  · by_cases hpartition : partitionId' = partitionId <;>
      simp only [htenant, hpartition, true_and, if_true, if_false]
    · exact .creating (List.suffix_refl _)
    · exact .elsewhere (List.suffix_refl _)
  · simp only [htenant, false_and, if_false]
    exact .creating List.nil_suffix

/-- A request that has nothing to commit, or a new ticket. -/
theorem commit_create {r : Response} :
    Triple (ruleSpec rt (ticketRule tenantId partitionId)) i (.createTicket settings xTenantId key body)
      (fun w T => (Inserted rt tenantId' key body partitionId' r w T ∨ Clean IsIndexKey w T) ∧
        (ticketRule tenantId partitionId).Inside i
          (if r.status = 201 then createMarks tenantId partitionId tenantId' partitionId' else []) w T)
      (perform .commit) (fun _ => Idle) anything := by
  refine any (stage_commit ((ruled_stable (Inserted.stable.or Clean.stable)).and LogRule.inside_stable)
    (fun w t _ hp => hp) (ruleSpec_commits ?_))
  rintro w t hfacts ⟨hinserted | hclean, -, hmarked⟩ - -
  · obtain ⟨ticketId, now, σs, rfl, t', ht, hhas⟩ := hinserted
    obtain rfl := Option.some.inj ht
    obtain rfl := hhas.start
    show TicketFine (marks (ticketMark tenantId partitionId) i _)
    rw [marks_cons, ticketMark_create hhas.changed,
      show marks (ticketMark tenantId partitionId) i w.log = _ from hmarked]
    exact created_fine
  · have hsame : ∀ {p : (k : Key) → Row k → Bool}, OnTickets p →
        count p (patch t.writes w.committed) = count p w.committed := fun hp =>
      count_congr fun k v hv => by
        obtain ⟨id, rfl⟩ := hp k v hv
        rw [lookup_patch_of_notMem (hclean t rfl (.tickets id) fun h => h)]
    show TicketFine (marks (ticketMark tenantId partitionId) i _)
    rw [marks_cons_none (ticketMark_of_counts (hsame onTickets_isActiveIn) (hsame onTickets_isTicketOf))]
    exact hfacts.1 i

/-- `create_ticket` leaves what it may. -/
theorem createNewTicket_counted {settings' : Settings} {tenant : Tenant} {requestHash : String}
    (hhash : ∀ k, key = some k → requestHash = computeRequestHashFromModel rt body.modelDump) :
    Triple (ruleSpec rt (ticketRule tenantId partitionId)) i (.createTicket settings xTenantId key body)
      (fun w T => Idle w T ∧ (ticketRule tenantId partitionId).Marked i [] w T)
      (createNewTicket rt settings' tenantId' tenant key requestHash body) anything anything := by
  have h := @ticket_composite i (.createTicket settings xTenantId key body) tenantId partitionId True
  refine .ite (fun _ => .throw _ fun _ _ _ => trivial) fun _ => .bind (ticket_idle
    (admission_triple.post fun _ _ _ h => h.2) (h.admission trivial (fun _ _ => rfl) _ _ _ _)) ?_
  rintro (_ | rejection)
  swap
  · exact .pure _ fun _ _ _ => trivial
  -- nothing is asked of the row of the key here
  have hbody : ∀ partitionId', Triple (ruleSpec rt (ticketRule tenantId partitionId)) i
      (.createTicket settings xTenantId key body) (fun w T => (Idle w T ∧ True) ∧
        (ticketRule tenantId partitionId).Marked i [] w T)
      (asyncTransaction (createInTransaction tenantId' key requestHash body partitionId'))
      anything anything := fun partitionId' => by
    refine asyncTransaction_marked .trivial (fun _ _ _ => rfl) (fun now => ?_) fun r =>
      (@commit_create rt i tenantId partitionId settings xTenantId key body tenantId' partitionId' r).post
        fun _ _ _ _ => trivial
    have hcreate := @createInTransaction_triple rt i key tenantId' body ∅ (fun _ _ => rfl)
      (.createTicket settings xTenantId key body) now requestHash partitionId' hhash
    exact (ruled hcreate createInTransaction_inside).conseq (fun w T h => ⟨⟨h.1.1, .empty _⟩, h.2⟩)
      (fun r w T h => ⟨h.1.1.imp (fun h => h) And.left, h.2⟩) fun _ _ _ _ => trivial
  refine .bind (Triple.attempt ((hbody _).pre fun _ _ h => ⟨⟨h.1, trivial⟩, h.2⟩)) ?_
  rintro (e | response)
  · cases e with
    | uniqueViolation => exact .pure _ fun _ _ _ => trivial
    | _ => exact .throw _ fun _ _ _ => trivial
  · exact .pure _ fun _ _ _ => trivial

/-- A create leaves one of these lists of marks, wherever it ends. -/
theorem createTicket_counted :
    Triple (ruleSpec rt (ticketRule tenantId partitionId)) i (.createTicket settings xTenantId key body)
      (fun w T => Idle w T ∧ (ticketRule tenantId partitionId).Marked i [] w T)
      (withTenant xTenantId (createTicket rt settings key body)) anything anything := by
  have h := @ticket_composite i (.createTicket settings xTenantId key body) tenantId partitionId True
  cases xTenantId with
  | none => exact .pure _ fun _ _ _ => trivial
  | some tenantId' =>
    refine .bind (ticket_idle query_triple (h.autocommit trivial h.select)) ?_
    rintro (_ | tenant)
    · exact .pure _ fun _ _ _ => trivial
    cases key with
    | none => exact createNewTicket_counted fun _ hk => by cases hk
    | some k =>
      have hread : Triple (commitSpec rt) i (.createTicket settings (some tenantId') (some k) body) Idle
          (checkIdempotencyKey k tenantId' (computeRequestHashFromModel rt body.modelDump))
          (fun _ => Idle) anything := by
        have hfetch := Triple.autocommit_read commitSpec_logs commitSpec_reads .trivial
          (found_lasting tenantId' k body ∅) fun now => (@fetchStoredResponse_triple rt i tenantId' body ∅
            (.createTicket settings (some tenantId') (some k) body) now [] k).pre
              fun _ _ h => ⟨h.1, .empty _⟩
        exact hfetch.conseq (fun _ _ h => ⟨h, trivial⟩) (fun _ _ _ h => h.1) fun _ _ _ h => h
      refine .bind (ticket_idle hread (h.autocommit trivial (h.fetchStoredResponse _ _ _))) ?_
      rintro (_ | ⟨storedResponse, hashMatched⟩)
      · exact createNewTicket_counted fun _ _ => rfl
      · exact .pure _ fun _ _ _ => trivial

end Create

section Cancel

variable {xTenantId : Option String} {text tenantId' : String} {id : UUID} {now : Time}

/-- The mark of the commit that cancels a ticket in partition `partitionId'` of tenant `tenantId'`. -/
def cancelMark (tenantId : String) (partitionId : ℕ) (tenantId' : String) (partitionId' : ℕ) :
    Option TicketMark :=
  if tenantId' = tenantId ∧ partitionId' = partitionId then some (.committed (-1) 0) else none

/-- The commit of a cancellation is one of the ways. -/
theorem cancelMark_fine {partitionId' : ℕ} :
    TicketFine (cancelMark tenantId partitionId tenantId' partitionId').toList := by
  unfold cancelMark
  split
  · exact .cancelling (List.suffix_cons _ _)
  · exact .creating List.nil_suffix

/-- So is that commit with the gauge moved down after it. -/
theorem cancelled_fine {partitionId' : ℕ} :
    TicketFine ((gaugeMark tenantId partitionId tenantId' partitionId' (-1)).toList ++
      (cancelMark tenantId partitionId tenantId' partitionId').toList) := by
  unfold cancelMark gaugeMark
  split
  · exact .cancelling (List.suffix_refl _)
  · exact .creating List.nil_suffix

/-- The commit of a cancelled ticket. -/
theorem ticketMark_cancel {tk : Ticket} {b : Tables} (hcan : tk.isCancellable tenantId' = true)
    (h : Changed IsIndexKey [⟨.tickets id, (some tk, some (tk.cancelled now))⟩] b (patch t.writes b))
    {time : Time} :
    ticketMark tenantId partitionId ⟨i, .cancelTicket xTenantId text, time, .commit t b⟩
      = cancelMark tenantId partitionId tenantId' tk.partitionId := by
  obtain ⟨hold, hnew⟩ := h.lookup (.tickets id) (fun h => h) (List.dlookup_cons_eq ..)
  have hcount : ∀ {p : (k : Key) → Row k → Bool}, OnTickets p →
      count p (patch t.writes b) + weight p (.tickets id) (some tk)
        = count p b + weight p (.tickets id) (some (tk.cancelled now)) := fun {p} hp => by
    rw [← hold, ← hnew]
    refine count_changed_row _ fun k v hk hv => ?_
    rw [h.frame k (by obtain ⟨id, rfl⟩ := hp k v hv; exact fun h => h) (by simp [List.dlookup_cons_ne, hk])]
  have hactive := hcount (@onTickets_isActiveIn tenantId partitionId)
  have hrows := hcount (@onTickets_isTicketOf tenantId)
  simp only [Ticket.isCancellable, Bool.and_eq_true, decide_eq_true_eq] at hcan
  have hbefore : weight (isActiveIn tenantId partitionId) (.tickets id) (some tk)
      = if tenantId' = tenantId ∧ tk.partitionId = partitionId then 1 else 0 := by
    simp [weight, isActiveIn, hcan.1, hcan.2]
  have hafter : weight (isActiveIn tenantId partitionId) (.tickets id) (some (tk.cancelled now)) = 0 := by
    simp [weight, isActiveIn, Ticket.cancelled, TicketStatus.isActive]
  have hsame : weight (isTicketOf tenantId) (.tickets id) (some (tk.cancelled now))
      = weight (isTicketOf tenantId) (.tickets id) (some tk) := rfl
  rw [hbefore, hafter, Nat.add_zero] at hactive
  rw [hsame, Nat.add_right_cancel_iff] at hrows
  rw [ticketMark_commit rfl rfl countGrowth_commit countGrowth_commit, hrows, ← hactive, cancelMark]
  by_cases hboth : tenantId' = tenantId ∧ tk.partitionId = partitionId <;> simp [hboth]

/-- After the commit: what is left, by the ticket that has been cancelled. -/
def Cancelled (tenantId : String) (partitionId : ℕ) (tenantId' : String) (i : ℕ) :
    Option Ticket → Condition
  | none => (ticketRule tenantId partitionId).Marked i []
  | some tk => (ticketRule tenantId partitionId).Marked i
    (cancelMark tenantId partitionId tenantId' tk.partitionId).toList

/-- The COMMIT of a cancellation takes one active ticket away if the ticket was found, and else nothing. -/
theorem commit_cancelled {σ : Tables} (r : Option Ticket) :
    Triple (ruleSpec rt (ticketRule tenantId partitionId)) i (.cancelTicket xTenantId text)
      (fun w T => Triple.Updated now [] [σ] id (fun _ tk => tk.isCancellable tenantId') Ticket.cancelled r
        w T ∧ (ticketRule tenantId partitionId).Marked i [] w T)
      (perform .commit) (fun _ => Cancelled tenantId partitionId tenantId' i r) anything := by
  cases r with
  | none =>
    refine (@commit_leaves rt i _ _ (ticketRule tenantId partitionId) [] _ none Stage.stable ?_
      (.creating List.nil_suffix)).post fun _ _ _ h => h.2
    rintro w T ⟨t, rfl, hhas⟩
    have hsame : ∀ {p : (k : Key) → Row k → Bool}, OnTickets p →
        count p (patch t.writes w.committed) = count p w.committed := fun hp =>
      count_congr fun k v hv => by
        obtain ⟨id, rfl⟩ := hp k v hv
        rw [hhas.changed.frame (.tickets id) (fun h => h) rfl]
    refine ⟨t, rfl, hhas.live, fun time => ?_⟩
    show ticketMark tenantId partitionId ⟨i, .cancelTicket xTenantId text, time, .commit t w.committed⟩ = none
    exact ticketMark_of_counts (hsame onTickets_isActiveIn) (hsame onTickets_isTicketOf)
  | some tk =>
    have hfine : TicketFine ((cancelMark tenantId partitionId tenantId' tk.partitionId).toList ++ []) := by
      rw [List.append_nil]
      exact cancelMark_fine
    refine (commit_leaves (.exists fun _ => .exists fun _ => Stable.and (.own fun _ => _)
      (Stable.and (.own fun _ => _) (Stable.and (.own fun _ => _) Stage.stable))) ?_ hfine).post
        fun _ _ _ h => ?_
    · rintro w T ⟨old, tk', hseen, hcond, rfl, t, rfl, hhas⟩
      obtain ⟨-, rfl⟩ | hp := hseen
      · exact ⟨t, rfl, hhas.live, fun _ => ticketMark_cancel hcond hhas.changed⟩
      · cases hp
    · rw [List.append_nil] at h
      exact h.2

/-- A cancellation leaves one of these lists of marks, wherever it ends. -/
theorem cancelTicket_counted :
    Triple (ruleSpec rt (ticketRule tenantId partitionId)) i (.cancelTicket xTenantId text)
      (fun w T => Idle w T ∧ (ticketRule tenantId partitionId).Marked i [] w T)
      (withTenant xTenantId fun tenantId _ => cancelTicket rt text tenantId) anything anything := by
  have h := @ticket_composite i (.cancelTicket xTenantId text) tenantId partitionId True
  cases xTenantId with
  | none => exact .pure _ fun _ _ _ => trivial
  | some tenantId' =>
    -- a metric leaves its mark, or none
    have hemit : ∀ {m : Metric} {ms : List TicketMark} (k : Option TicketMark),
        (∀ time, ticketMark tenantId partitionId ⟨i, .cancelTicket (some tenantId') text, time, .emit m⟩ = k) →
        TicketFine (k.toList ++ ms) →
        Triple (ruleSpec rt (ticketRule tenantId partitionId)) i (.cancelTicket (some tenantId') text)
          ((ticketRule tenantId partitionId).Marked i ms) (record m)
          (fun _ => (ticketRule tenantId partitionId).Marked i (k.toList ++ ms)) anything :=
      fun k hk hfine => (LogRule.emit_marked grows_growth (.own fun _ => True) (fun _ _ h => h) hk
        fun _ => hfine).conseq (fun _ _ h => ⟨trivial, h⟩) (fun _ _ _ h => h.2) fun _ _ _ h => h
    refine .bind (ticket_idle (query_idle fun _ _ _ _ _ _ _ => trivial) (h.autocommit trivial h.select)) ?_
    rintro (_ | tenant)
    · exact .pure _ fun _ _ _ => trivial
    -- a malformed id ends the request before the UPDATE
    have hcheck : Triple (ruleSpec rt (ticketRule tenantId partitionId)) i
        (.cancelTicket (some tenantId') text)
        (fun w T => Idle w T ∧ (ticketRule tenantId partitionId).Marked i [] w T) (checkUuid rt text)
        (fun _ w T => (Idle w T ∧ True) ∧ (ticketRule tenantId partitionId).Marked i [] w T) anything := by
      unfold checkUuid
      split
      · exact .pure _ fun _ _ h => ⟨⟨h.1, trivial⟩, h.2⟩
      · exact .throw _ fun _ _ _ => trivial
    refine .bind hcheck fun id => ?_
    -- the UPDATE leaves no mark before its COMMIT
    have hupdate : ∀ now, Triple (ruleSpec rt (ticketRule tenantId partitionId)) i
        (.cancelTicket (some tenantId') text)
        (fun w T => (Pending now [] [] w T ∧ True) ∧ (ticketRule tenantId partitionId).Inside i [] w T)
        (updateTicket id (fun _ tk => tk.isCancellable tenantId') Ticket.cancelled)
        (fun r w T => ∃ now σ, Triple.Updated now [] [σ] id (fun _ tk => tk.isCancellable tenantId')
          Ticket.cancelled r w T ∧ (ticketRule tenantId partitionId).Marked i [] w T) anything := by
      intro now
      have hinside := @ticket_inside rt i (.cancelTicket (some tenantId') text) tenantId partitionId []
      have htickets := hinside.tickets (fun _ => trivial) fun _ _ _ _ => trivial
      refine (ruled (Triple.updateTicket (S := commitSpec rt)) (hinside.updateTicket htickets)).conseq
        (fun w T h => ⟨h.1.1, h.2⟩) ?_ fun _ _ _ _ => trivial
      rintro r w T ⟨⟨σ, hupdated⟩, hmarked⟩
      exact ⟨now, σ, hupdated, hmarked.2⟩
    refine .bind (autocommit_marked .trivial (fun _ _ _ => rfl) hupdate fun r =>
      .exists_pre fun now => .exists_pre fun σ => commit_cancelled r) ?_
    rintro (_ | tk)
    · exact .pure _ fun _ _ _ => trivial
    · have hmarks : ∀ time, ticketMark tenantId partitionId ⟨i, .cancelTicket (some tenantId') text, time,
          .emit (.activeTickets tenantId' tk.partitionId (-1))⟩
            = gaugeMark tenantId partitionId tenantId' tk.partitionId (-1) := fun time => by
        simp [ticketMark, gaugeMark, Actor.countsTickets]
      exact .bind (hemit none (fun _ => rfl) cancelMark_fine) fun _ =>
        .bind (hemit _ hmarks cancelled_fine) fun _ => .pure _ fun _ _ _ => trivial

end Cancel

end Requests

/-- The programs keep the rule. -/
theorem ticketRule_kept (tenantId : String) (partitionId i : ℕ) (l : Actor) :
    Triple (ruleSpec rt (ticketRule tenantId partitionId)) i l
      (fun w T => Idle w T ∧ (ticketRule tenantId partitionId).Marked i [] w T) (program rt l)
      (fun a w _ => (ticketRule tenantId partitionId).Answers i l (.ok a) w.log)
      fun e w _ => (ticketRule tenantId partitionId).Answers i l (.error e) w.log := by
  have hresponse : ∀ {x : Db Response}, Triple (ruleSpec rt (ticketRule tenantId partitionId)) i l
      (fun w T => Idle w T ∧ (ticketRule tenantId partitionId).Marked i [] w T) x anything anything →
      Triple (ruleSpec rt (ticketRule tenantId partitionId)) i l
        (fun w T => Idle w T ∧ (ticketRule tenantId partitionId).Marked i [] w T) (respond x)
        (fun a w _ => (ticketRule tenantId partitionId).Answers i l (.ok a) w.log)
        fun e w _ => (ticketRule tenantId partitionId).Answers i l (.error e) w.log := by
    intro x hx
    have hanswer : Triple (ruleSpec rt (ticketRule tenantId partitionId)) i l
        (fun w T => Idle w T ∧ (ticketRule tenantId partitionId).Marked i [] w T) (respond x) anything
        anything := .bind hx fun _ => .pure _ fun _ _ h => h
    exact hanswer.conseq (fun _ _ h => h) (fun _ _ _ _ => LogRule.answers_of_none fun _ _ => rfl)
      fun _ _ _ _ => LogRule.answers_of_none fun _ _ => rfl
  cases hl : l.countsTickets with
  | false => exact unmarked fun _ _ => ticketMark_of_not_counts hl
  | true =>
    cases l with
    | createTicket settings xTenantId key body => exact hresponse createTicket_counted
    | cancelTicket xTenantId text => exact hresponse cancelTicket_counted
    | _ => cases hl

/-- In every run, requests leave what they may. -/
theorem tickets_fine {clock : Time} {s : ServiceState} (hs : (service rt).Reachable (emptyState clock) s)
    (tenantId : String) (partitionId j : ℕ) :
    TicketFine (marks (ticketMark tenantId partitionId) j s.world.log) :=
  service_fine (ticketRule_kept tenantId partitionId) hs j

/-! ## The counters of a run -/

/-- The counters of the replicas agree with the tables; tickets that are committed stay. -/
structure CountersTrue {n : ℕ} (replica : ℕ → Fin n) (w : ServiceWorld) : Prop where
  active : ∀ tenantId partitionId, ∑ r, tally (onReplica replica r (gaugeGrowth tenantId partitionId)) w.log
    = count (isActiveIn tenantId partitionId) w.committed
  created : ∀ tenantId, ∑ r, tally (onReplica replica r (createdGrowth tenantId)) w.log
    = count (isTicketOf tenantId) w.committed

/-- What is counted is done, what is done is counted, and there is nothing that nobody counts. -/
structure CountersKept (log : List LogEntry) : Prop where
  /-- A request that has counted a new ticket has committed it. -/
  created : ∀ tenantId, ∀ e ∈ log, 0 < createdGrowth tenantId e →
    ∃ e' ∈ log, e'.session = e.session ∧ 0 < countGrowth (isTicketOf tenantId) e'
  /-- A request that has committed the cancellation of a ticket has taken it off the gauge. -/
  cancelled : ∀ tenantId partitionId, ∀ e ∈ log, e.actor.countsTickets = true →
    countGrowth (isActiveIn tenantId partitionId) e < 0 →
      ∃ e' ∈ log, e'.session = e.session ∧ gaugeGrowth tenantId partitionId e' < 0
  /-- No worker has committed a match. -/
  unmatched : ∀ e ∈ log, ∀ t b, e.event.commit? = some (t, b) → matchesAdded t b = 0

section Runs

variable {clock : Time} {st : ServiceState}

/-- The requests have kept the counters if they have done what they have counted, and have counted what
they have done. -/
theorem requests_kept_iff (hs : (service rt).Reachable (emptyState clock) st) :
    (∀ tenantId partitionId j,
      tally TicketMark.excess (marks (ticketMark tenantId partitionId) j st.world.log) = 0 ∧
        tally TicketMark.createdExcess (marks (ticketMark tenantId partitionId) j st.world.log) = 0) ↔
      (∀ tenantId, ∀ e ∈ st.world.log, 0 < createdGrowth tenantId e →
        ∃ e' ∈ st.world.log, e'.session = e.session ∧ 0 < countGrowth (isTicketOf tenantId) e') ∧
      (∀ tenantId partitionId, ∀ e ∈ st.world.log, e.actor.countsTickets = true →
        countGrowth (isActiveIn tenantId partitionId) e < 0 →
          ∃ e' ∈ st.world.log, e'.session = e.session ∧ gaugeGrowth tenantId partitionId e' < 0) := by
  constructor
  · intro h
    refine ⟨fun tenantId e he hcreated => ?_, fun tenantId partitionId e he hcounts hcancel => ?_⟩
    · have hkept := ((tickets_fine hs tenantId 0 e.session).excess_eq_zero_iff.mp (h tenantId 0 e.session)).1
      obtain ⟨active, rows, hmem, hrows⟩ := hkept (mem_marks.mpr ⟨e, he, rfl, ticketMark_created_iff.mpr hcreated⟩)
      obtain ⟨e', he', hsession, hmark⟩ := mem_marks.mp hmem
      exact ⟨e', he', hsession, (growth_of_ticketMark hmark).2.2 ▸ hrows⟩
    · have hkept := ((tickets_fine hs tenantId partitionId e.session).excess_eq_zero_iff.mp
        (h tenantId partitionId e.session)).2
      obtain ⟨delta, hmem, hdelta⟩ := hkept _ _ (mem_marks.mpr ⟨e, he, rfl,
        ticketMark_of_growth hcounts fun h => absurd h.1 (by omega)⟩) hcancel
      obtain ⟨e', he', hsession, hmark⟩ := mem_marks.mp hmem
      exact ⟨e', he', hsession, (ticketMark_gauge_iff (by omega)).mp hmark ▸ hdelta⟩
  · rintro ⟨hcreated, hcancelled⟩ tenantId partitionId j
    refine (tickets_fine hs tenantId partitionId j).excess_eq_zero_iff.mpr
      ⟨fun hmem => ?_, fun active rows hmem hactive => ?_⟩
    · obtain ⟨e, he, rfl, hmark⟩ := mem_marks.mp hmem
      have hgrowth := ticketMark_created_iff.mp hmark
      obtain ⟨e', he', hsession, hrows⟩ := hcreated tenantId e he hgrowth
      -- both entries are of one session, so of one actor
      have hcounts : e'.actor.countsTickets = true := by
        rw [hs.same_actor he' he hsession]
        unfold createdGrowth at hgrowth
        split at hgrowth
        · split at hgrowth
          · next h => exact h.1
          · omega
        · omega
      exact ⟨_, _, mem_marks.mpr ⟨e', he', hsession, ticketMark_of_growth hcounts
        fun h => absurd h.2 (by omega)⟩, hrows⟩
    · obtain ⟨e, he, rfl, hmark⟩ := mem_marks.mp hmem
      obtain ⟨hcounts, rfl, rfl⟩ := growth_of_ticketMark hmark
      obtain ⟨e', he', hsession, hgauge⟩ := hcancelled tenantId partitionId e he hcounts hactive
      exact ⟨_, mem_marks.mpr ⟨e', he', hsession, (ticketMark_gauge_iff (by omega)).mpr rfl⟩, hgauge⟩

/-- Others leave the counters alone. -/
theorem ofOthers_excess {e : LogEntry} (hl : e.actor.countsTickets = false) :
    ofOthers (gaugeExcess tenantId partitionId) e = -countGrowth (isActiveIn tenantId partitionId) e ∧
      ofOthers (createdExcess tenantId) e = -countGrowth (isTicketOf tenantId) e := by
  have hgauge : gaugeGrowth tenantId partitionId e = 0 := by
    unfold gaugeGrowth
    split <;> simp [hl]
  have hcreated : createdGrowth tenantId e = 0 := by
    unfold createdGrowth
    split <;> simp [hl]
  simp only [ofOthers, hl, Bool.false_eq_true, if_false, gaugeExcess, createdExcess, hgauge, hcreated,
    zero_sub, and_self]

/-- They add no tickets, and make no tickets active. -/
theorem others_excess (hpast : Past rt st.world) {e : LogEntry} (he : e ∈ st.world.log) :
    0 ≤ ofOthers (gaugeExcess tenantId partitionId) e ∧ ofOthers (createdExcess tenantId) e = 0 := by
  cases hl : e.actor.countsTickets with
  | true => simp [ofOthers, hl]
  | false =>
    obtain ⟨hgauge, hcreated⟩ := @ofOthers_excess tenantId partitionId e hl
    rw [hgauge, hcreated]
    cases hc : e.event.commit? with
    | none => simp [countGrowth, hc]
    | some c =>
      have hlegal := hpast.legal he hc
      have hactive := @Legal.active_le rt e.actor tenantId partitionId c.1 c.2 hlegal hl
      have hrows := @Legal.tickets_eq rt e.actor tenantId c.1 c.2 hlegal hl
      simp only [countGrowth, hc]
      omega

/-- The others have kept the gauge if they have committed no match. -/
theorem others_kept_iff (hpast : Past rt st.world) :
    (∀ tenantId partitionId, ∀ e ∈ st.world.log, ofOthers (gaugeExcess tenantId partitionId) e = 0) ↔
      ∀ e ∈ st.world.log, ∀ t b, e.event.commit? = some (t, b) → matchesAdded t b = 0 := by
  constructor
  · intro h e he t b hc
    have hlegal := hpast.legal he hc
    cases hl : e.actor.countsTickets with
    | true =>
      refine hlegal.unmatched_or_makes.resolve_right ?_
      rintro ⟨n, ⟨settings, workerId, offset, hworker⟩, -⟩
      rw [hworker] at hl
      cases hl
    | false =>
      by_contra hm
      obtain ⟨tenantId, partitionId, hlt⟩ := hlegal.active_lt hl hm
      have hzero := h tenantId partitionId e he
      rw [(ofOthers_excess hl).1] at hzero
      simp only [countGrowth, hc] at hzero
      omega
  · intro h tenantId partitionId e he
    cases hl : e.actor.countsTickets with
    | true => simp [ofOthers, hl]
    | false =>
      rw [(ofOthers_excess hl).1]
      cases hc : e.event.commit? with
      | none => simp [countGrowth, hc]
      | some c =>
        have hactive := @Legal.active_eq rt e.actor tenantId partitionId c.1 c.2 (hpast.legal he hc) hl
          (h e he c.1 c.2 hc)
        simp only [countGrowth, hc]
        omega

/-- The counters of a tenant and a partition exceed the tables by what the requests and the others have
left; neither is negative. -/
theorem counters_iff_excess (hs : (service rt).Reachable (emptyState clock) st) {n : ℕ}
    (replica : ℕ → Fin n) (tenantId : String) (partitionId : ℕ) :
    (∑ r, tally (onReplica replica r (gaugeGrowth tenantId partitionId)) st.world.log
        = count (isActiveIn tenantId partitionId) st.world.committed ∧
      ∑ r, tally (onReplica replica r (createdGrowth tenantId)) st.world.log
        = count (isTicketOf tenantId) st.world.committed) ↔
    (∀ j, tally TicketMark.excess (marks (ticketMark tenantId partitionId) j st.world.log) = 0 ∧
      tally TicketMark.createdExcess (marks (ticketMark tenantId partitionId) j st.world.log) = 0) ∧
      ∀ e ∈ st.world.log, ofOthers (gaugeExcess tenantId partitionId) e = 0 := by
  have hpast := service_past hs
  have hfine := tickets_fine hs tenantId partitionId
  have hactive := hpast.history.chained.tally_count (isActiveIn tenantId partitionId)
  have hrows := hpast.history.chained.tally_count (isTicketOf tenantId)
  have hempty : ∀ p : (k : Key) → Row k → Bool, count p (∅ : Tables) = 0 := fun _ => rfl
  rw [hempty] at hactive hrows
  have hgauge : tally (gaugeExcess tenantId partitionId) st.world.log
      = tally (gaugeGrowth tenantId partitionId) st.world.log
        - tally (countGrowth (isActiveIn tenantId partitionId)) st.world.log := tally_sub ..
  have hcreated : tally (createdExcess tenantId) st.world.log = tally (createdGrowth tenantId) st.world.log
      - tally (countGrowth (isTicketOf tenantId)) st.world.log := tally_sub ..
  rw [tally_ofRequests_add] at hgauge hcreated
  obtain ⟨hgauge₀, hgauge_iff⟩ := tally_marks_eq_zero_iff (x := ofRequests (gaugeExcess tenantId partitionId))
    (fun e => (excess_mark e).1) fun j => (hfine j).excess_nonneg
  obtain ⟨hcreated₀, hcreated_iff⟩ := tally_marks_eq_zero_iff (x := ofRequests (createdExcess tenantId))
    (fun e => (excess_mark e).2) fun j => (hfine j).createdExcess_nonneg
  have hothers : ∀ e ∈ st.world.log, 0 ≤ ofOthers (gaugeExcess tenantId partitionId) e := fun e he =>
    (@others_excess rt tenantId partitionId st hpast e he).1
  have hothers₀ := tally_nonneg hothers
  have hnone : tally (ofOthers (createdExcess tenantId)) st.world.log = 0 := by
    refine (tally_eq_zero_iff fun e he => ?_).mpr fun e he => ?_
    · exact (@others_excess rt tenantId partitionId st hpast e he).2.ge
    · exact (@others_excess rt tenantId partitionId st hpast e he).2
  rw [sum_onReplica, sum_onReplica, forall_and, ← hgauge_iff, ← hcreated_iff, ← tally_eq_zero_iff hothers]
  omega

/-- **The counters of the API.** In every run the counters of the replicas agree with the tables if and
only if every ticket that is counted has been committed, every cancellation that has been committed is
counted, and no match has been committed. -/
theorem api_counters_iff (hs : (service rt).Reachable (emptyState clock) st) {n : ℕ} (replica : ℕ → Fin n) :
    CountersTrue replica st.world ↔ CountersKept st.world.log := by
  have hrequests := requests_kept_iff hs
  have hothers := others_kept_iff (service_past hs)
  constructor
  · intro h
    have hkept := fun tenantId partitionId => (counters_iff_excess hs replica tenantId partitionId).mp
      ⟨h.active tenantId partitionId, h.created tenantId⟩
    obtain ⟨hcreated, hcancelled⟩ := hrequests.mp fun tenantId partitionId => (hkept tenantId partitionId).1
    exact ⟨hcreated, hcancelled, hothers.mp fun tenantId partitionId => (hkept tenantId partitionId).2⟩
  · intro h
    have hkept := fun tenantId partitionId => (counters_iff_excess hs replica tenantId partitionId).mpr
      ⟨hrequests.mpr ⟨h.created, h.cancelled⟩ tenantId partitionId,
        hothers.mpr h.unmatched tenantId partitionId⟩
    exact ⟨fun tenantId partitionId => (hkept tenantId partitionId).1, fun tenantId => (hkept tenantId 0).2⟩

end Runs

/-! ## Two tickets that are matched -/

/-- Two replicas that take turns. -/
def sampleReplica (session : ℕ) : Fin 2 := Fin.ofNat 2 session

/-- After a match the gauge still shows its tickets. -/
theorem gauge_drifts : (service sampleRuntime).Reachable (emptyState 0) sampleState ∧
    ¬ CountersTrue sampleReplica sampleState.world := by
  refine ⟨sampleState_reachable, fun h => ?_⟩
  have hactive := h.active "studio_a" 0
  rw [sum_onReplica] at hactive
  have hgauge : tally (gaugeGrowth "studio_a" 0) sampleState.world.log = 2 := by decide +kernel
  have hcount : count (isActiveIn "studio_a" 0) sampleState.world.committed = 0 := by decide +kernel
  rw [hgauge, hcount] at hactive
  cases hactive

/-- In this run two tickets are created and matched, and the equivalence holds with both sides false. -/
theorem api_counters_iff_sample :
    CountersTrue sampleReplica sampleState.world ↔ CountersKept sampleState.world.log :=
  api_counters_iff sampleState_reachable sampleReplica

end Matchmaking
