import Matchmaking.EntryRules

/-!
# What a request has read before it inserts

Before its transaction a request for a ticket reads its tenant, the answer stored for its key, and the two
counts of waiting tickets, each by a statement of its own. Each insert owes these reads: committed
transactions of its session, in this order, that have shown it values within the limits.
-/

namespace Matchmaking

open ReadCommitted ReadCommitted.Triple

variable {rt : Runtime} {i : ℕ} {l : Actor} {w : ServiceWorld} {log older : List LogEntry} {α : Type}

/-! ## Reads of a session -/

/-- The transactions that session `i` has committed, newest first. -/
def transactionsOf (i : ℕ) (log : List LogEntry) : List (Txn Row) :=
  marks (fun e => e.event.commit?.map Prod.fst) i log

/-- The transaction has one snapshot, which was taken while session `i` ran; it shows what `D` says. -/
def Saw (i : ℕ) (log : List LogEntry) (D : Tables → Prop) (t : Txn Row) : Prop :=
  ∃ mid σ, Moment i log mid σ ∧ t.reads = [σ] ∧ D σ

/-- What a transaction has seen does not change while the log grows. -/
theorem Saw.mono {log' : List LogEntry} {D : Tables → Prop} {t : Txn Row} (h : Saw i log D t)
    (hlog : log <:+ log') : Saw i log' D t := by
  obtain ⟨mid, σ, hm, hreads, hd⟩ := h
  exact ⟨mid, σ, hm.mono hlog, hreads, hd⟩

/-- It has also seen what follows from it. -/
theorem Saw.imp {D D' : Tables → Prop} {t : Txn Row} (h : Saw i log D t) (hD : ∀ σ, D σ → D' σ) :
    Saw i log D' t := by
  obtain ⟨mid, σ, hm, hreads, hd⟩ := h
  exact ⟨mid, σ, hm, hreads, hD σ hd⟩

/-- The transactions of session `i` are reads, which have shown what `Ds` says, newest first. -/
def HaveShown (i : ℕ) (Ds : List (Tables → Prop)) (log : List LogEntry) : Prop :=
  List.Forall₂ (Saw i log) Ds (transactionsOf i log)

/-- Entries that are no transactions of the session leave its reads as they are. -/
theorem HaveShown.of_eq {log' : List LogEntry} {Ds : List (Tables → Prop)} (h : HaveShown i Ds log)
    (hlog : log <:+ log') (hsame : transactionsOf i log' = transactionsOf i log) : HaveShown i Ds log' := by
  rw [HaveShown, hsame]
  exact h.imp fun _ _ hsaw => hsaw.mono hlog

theorem HaveShown.append_others {new : List LogEntry} {Ds : List (Tables → Prop)} (h : HaveShown i Ds log)
    (hnew : ∀ x ∈ new, x.session ≠ i) : HaveShown i Ds (new ++ log) :=
  h.of_eq (List.suffix_append _ _) (marks_append_others hnew)

/-- Each read can be looked up by its place. -/
theorem HaveShown.getElem? {Ds : List (Tables → Prop)} (h : HaveShown i Ds log) {n : ℕ} {D : Tables → Prop}
    (hD : Ds[n]? = some D) : ∃ t, (transactionsOf i log)[n]? = some t ∧ Saw i log D t := by
  unfold HaveShown at h
  generalize transactionsOf i log = ts at h
  induction h generalizing n with
  | nil => cases hD
  | @cons D' t Ds ts hsaw _ ih =>
    cases n with
    | zero =>
      obtain rfl := Option.some.inj hD
      exact ⟨t, rfl, hsaw⟩
    | succ n => exact ih hD

/-- The first read of all is the last of the list. -/
theorem HaveShown.getLast? {Ds : List (Tables → Prop)} (h : HaveShown i Ds log) {D : Tables → Prop}
    (hD : Ds.getLast? = some D) : ∃ t, (transactionsOf i log).getLast? = some t ∧ Saw i log D t := by
  rw [List.getLast?_eq_getElem?, h.length_eq] at hD
  rw [List.getLast?_eq_getElem?]
  exact h.getElem? hD

/-- A session that has begun, between transactions or in one that it has not committed yet. -/
structure AfterReads (i : ℕ) (Ds : List (Tables → Prop)) (w : ServiceWorld) : Prop where
  begun : Begun i w
  shown : HaveShown i Ds w.log

section Rules

variable {ρ : EntryRule} {Ds : List (Tables → Prop)}

/-- Other sessions do not touch the reads of this one. -/
theorem afterReads_stable : Stable (entrySpec rt ρ) i l fun w _ => AfterReads i Ds w := by
  intro w w' _ henv h
  obtain ⟨hgrows, new, hnew, hothers⟩ := henv.rely
  refine ⟨hgrows.logged h.begun, ?_⟩
  rw [hnew]
  exact h.shown.append_others hothers

/-- Calls and counters of the session are no reads. -/
theorem afterReads_push (w : ServiceWorld) (ev : Event Row Reply Exn Metric Answer) (hev : ev.IsQuiet)
    (h : AfterReads i Ds w) : AfterReads i Ds (w.push i l ev) := by
  have hcommit : ev.commit? = none := by cases ev <;> first | rfl | cases hev
  obtain ⟨e, he, hsession⟩ := h.begun
  refine ⟨⟨e, List.mem_cons_of_mem _ he, hsession⟩, h.shown.of_eq (List.suffix_cons _ _) ?_⟩
  exact marks_cons_none (by rw [hcommit]; rfl)

/-- A session that begins has not read anything. -/
theorem afterReads_fresh (h : w.Fresh i l) : AfterReads i [] w := by
  obtain ⟨older, hlog, hothers⟩ := h
  refine ⟨⟨_, hlog ▸ List.mem_cons_self, rfl⟩, ?_⟩
  have hnone : transactionsOf i w.log = [] := by
    rw [transactionsOf, hlog, marks_cons_none rfl, ← List.append_nil older, marks_append_others hothers]
    rfl
  rw [HaveShown, hnone]
  exact .nil

/-- Less may be remembered of the newest read. -/
theorem AfterReads.imp {D D' : Tables → Prop} (h : AfterReads i (D :: Ds) w) (hD : ∀ σ, D σ → D' σ) :
    AfterReads i (D' :: Ds) w := by
  obtain ⟨hbegun, hshown⟩ := h
  refine ⟨hbegun, ?_⟩
  obtain ⟨t, ts, hsaw, hrest, heq⟩ := List.forall₂_cons_left_iff.mp hshown
  rw [HaveShown, heq]
  exact .cons (hsaw.imp hD) hrest

/-- What ends no transaction. -/
theorem noCommit_composite : Composite (fun _ => True) False (fun _ => True) fun {α : Type} (x : Db α) =>
    x.Uses Op.NoCommit where
  perform {β o} ho := by
    refine .perform ?_
    cases o <;> trivial
  pure := .pure
  throw := .throw
  bind := .bind
  tryCatch := .tryCatch

/-- The open transaction has read once, and `D` holds of what it has seen. -/
def Reading (i : ℕ) (D : Tables → Prop) : Condition := fun w T =>
  ∃ t, T = some t ∧ t.aborted = false ∧ t.writes = [] ∧ Saw i w.log D t

/-- The snapshot of a transaction stays the one that was taken. -/
theorem Reading.stable {D : Tables → Prop} : Stable (entrySpec rt ρ) i l (Reading i D) := by
  rintro w w' _ henv ⟨t, rfl, hlive, hwrites, hsaw⟩
  exact ⟨t, rfl, hlive, hwrites, hsaw.mono henv.rely.1.log⟩

variable (hread : ∀ time t b older, (∀ k, (patch t.writes b).lookup k = b.lookup k) →
  ρ.due ⟨i, l, time, .commit t b⟩ older)

include hread

/-- The commit of a read. -/
theorem commit_afterReads {D : Tables → Prop} : Triple (entrySpec rt ρ) i l
    (fun w T => Reading i D w T ∧ AfterReads i Ds w) (perform .commit)
    (fun _ w T => Idle w T ∧ AfterReads i (D :: Ds) w) anything := by
  refine (stage_commit_then (Reading.stable.and afterReads_stable)
    (C := fun _ t => t.writes = []) ?_ (entrySpec_commits fun w t _ hwrites => ?_) ?_).any
  · rintro w t - ⟨⟨_, ⟨⟩, -, hwrites, -⟩, -⟩
    exact hwrites
  · exact hread _ _ _ _ fun k => by rw [hwrites]; rfl
  · rintro w T - ⟨⟨t, rfl, hlive, -, hsaw⟩, hbegun, hshown⟩
    simp only [Option.elim_some, World.commit, hlive, Bool.false_eq_true, if_false]
    obtain ⟨e, he, hsession⟩ := hbegun
    refine ⟨⟨e, List.mem_cons_of_mem _ he, hsession⟩, ?_⟩
    have hcons : transactionsOf i (⟨i, l, w.clock, .commit t w.committed⟩ :: w.log)
        = t :: transactionsOf i w.log := marks_cons_some rfl rfl
    show List.Forall₂ _ _ (transactionsOf i (⟨i, l, w.clock, .commit t w.committed⟩ :: w.log))
    rw [hcons]
    exact .cons (hsaw.mono (List.suffix_cons _ _)) (hshown.imp fun _ _ h => h.mono (List.suffix_cons _ _))

/-- A transaction that has done nothing yet. -/
def Opened : Condition := fun _ T => ∃ t, T = some t ∧ t.writes = [] ∧ t.reads = []

/-- A statement outside a transaction that reads once. -/
theorem autocommit_afterReads {x : Db α} {D : α → Tables → Prop}
    (hx : Triple (entrySpec rt ρ) i l (fun w T => Opened w T ∧ Begun i w) x (fun a => Reading i (D a)) anything)
    (hquiet : x.Uses Op.NoCommit) : Triple (entrySpec rt ρ) i l
      (fun w T => Idle w T ∧ AfterReads i Ds w) (autocommit x)
      (fun a w T => Idle w T ∧ AfterReads i (D a :: Ds) w) anything := by
  have hkeep : ∀ {β : Type} {y : Db β}, y.Uses Op.NoCommit → Triple (entrySpec rt ρ) i l
      (fun w _ => AfterReads i Ds w) y (fun _ w _ => AfterReads i Ds w) fun _ w _ => AfterReads i Ds w :=
    fun hy => quiet entrySpec_logs afterReads_stable afterReads_push hy
  have hconnect : Client.Uses Op.NoCommit (ask .getConnection) := .perform trivial
  have hopen : Client.Uses Op.NoCommit (perform .start : Db Unit) := .perform trivial
  have hask : Triple (entrySpec rt ρ) i l (fun w T => Idle w T ∧ AfterReads i Ds w) (ask .getConnection)
      (fun _ w T => Idle w T ∧ AfterReads i Ds w) anything :=
    ((Triple.ask_ok entrySpec_logs Idle.stable Idle.unlogged).and (hkeep hconnect)).any
  have hstart : Triple (entrySpec rt ρ) i l Idle (perform .start) (fun _ => Opened) anything :=
    start Idle.stable (fun w T _ hT => ⟨_, rfl, by rw [hT]; exact ⟨rfl, rfl⟩⟩) fun _ _ _ _ _ => trivial
  have hbody : Triple (entrySpec rt ρ) i l (fun w T => Opened w T ∧ AfterReads i Ds w) x
      (fun a w T => Reading i (D a) w T ∧ AfterReads i Ds w) anything :=
    ((hx.and (hkeep hquiet)).pre fun _ _ h => ⟨⟨h.1, h.2.begun⟩, h.2⟩).any
  exact Triple.autocommit_after hask (hstart.and (hkeep hopen)).any hbody (fun _ => commit_afterReads hread)
    fun _ => Triple.rollback_any

omit hread in
/-- A query in a new transaction takes a snapshot of the committed tables, from which its answer comes. -/
theorem select_reading {f : Time → Tables → α} {D : α → Tables → Prop} (hD : ∀ now σ, D (f now σ) σ) :
    Triple (entrySpec rt ρ) i l (fun w T => Opened w T ∧ Begun i w) (perform (.select f))
      (fun a => Reading i (D a)) anything := by
  refine select ((Stable.own _).and begun_lasting.stable) ?_ fun _ _ _ _ _ => trivial
  rintro w _ hfacts ⟨⟨t, rfl, hwrites, hreads⟩, hbegun⟩ hlive
  have hview : t.view w.committed = w.committed := by
    rw [Txn.view, hwrites]
    rfl
  refine ⟨_, rfl, hlive, hwrites, w.log, w.committed, hbegun.moment hfacts.2, ?_, ?_⟩
  · show t.view w.committed :: t.reads = [w.committed]
    rw [hview, hreads]
  · show D (f t.start (t.view w.committed)) w.committed
    rw [hview]
    exact hD _ _

/-- A query outside a transaction. -/
theorem query_afterReads {f : Time → Tables → α} {D : α → Tables → Prop} (hD : ∀ now σ, D (f now σ) σ) :
    Triple (entrySpec rt ρ) i l (fun w T => Idle w T ∧ AfterReads i Ds w) (autocommit (perform (.select f)))
      (fun a w T => Idle w T ∧ AfterReads i (D a :: Ds) w) anything :=
  autocommit_afterReads hread (select_reading hD) (.perform trivial)

end Rules

/-! ## The checks -/

/-- Transaction `t` on the store `b` inserts the ticket. -/
def Inserts (t : Txn Row) (b : Tables) (ticket : Ticket) : Prop :=
  ∃ id, b.lookup (.tickets id) = none ∧ (patch t.writes b).lookup (.tickets id) = some ticket

/-- What the statements of a request have shown that lets it insert a ticket, newest first: a query of the
load check, where load is shed, the two counts, the stored answer, if it carries a key, and its tenant. -/
def checksOf (settings : Settings) (tenantId : String) (key : Option String) (tenant : Tenant)
    (partitionId : ℕ) : List (Tables → Prop) :=
  (if settings.loadSheddingEnabled then [fun _ => True] else []) ++
    (fun σ => underDepth tenant (count (isWaitingIn partitionId) σ) = true) ::
    (fun σ => underQuota tenant (count (isWaitingOf tenantId) σ) = true) ::
    (key.toList.map (fun _ _ => True) ++ [fun σ => σ.lookup (.tenants tenantId) = some tenant])

/-- The insert of a request comes after its checks. -/
def admissionRule (rt : Runtime) : EntryRule where
  due entry older := ∀ settings xTenantId key body, entry.actor = .createTicket settings xTenantId key body →
    ∀ t b ticket, entry.event.commit? = some (t, b) → Inserts t b ticket → ∃ tenantId tenant,
      xTenantId = some tenantId ∧ HaveShown entry.session (checksOf settings tenantId key tenant
        (computePartitionId rt tenantId body.region body.queueName settings.matchmakingPartitions)) older
  quiet _ _ hcommit _ _ _ _ _ _ _ _ _ hc := by cases hcommit.symm.trans hc
  mono _ _ _ hnew h settings xTenantId key body hactor t b ticket hc hinsert := by
    obtain ⟨tenantId, tenant, htenant, hshown⟩ := h settings xTenantId key body hactor t b ticket hc hinsert
    exact ⟨tenantId, tenant, htenant, hshown.append_others hnew⟩

/-- A commit that changes nothing inserts no ticket. -/
theorem not_inserts {t : Txn Row} {b : Tables} (h : ∀ k, (patch t.writes b).lookup k = b.lookup k)
    {ticket : Ticket} : ¬ Inserts t b ticket := by
  rintro ⟨id, hold, hnew⟩
  cases (hnew.symm.trans (h _)).trans hold

section Requests

variable {settings : Settings} {xTenantId key : Option String} {body : TicketCreate} {tenantId : String}
  {tenant : Tenant} {partitionId : ℕ} {Ds : List (Tables → Prop)}

theorem reads_due (time : Time) (t : Txn Row) (b : Tables) (older : List LogEntry)
    (h : ∀ k, (patch t.writes b).lookup k = b.lookup k) :
    (admissionRule rt).due ⟨i, l, time, .commit t b⟩ older := by
  rintro _ _ _ _ _ _ _ ticket ⟨⟩ hinsert
  exact absurd hinsert (not_inserts h)

/-- A part of the request that commits nothing. -/
theorem ask_afterReads (c : Call) : Triple (entrySpec rt (admissionRule rt)) i l
    (fun w T => Idle w T ∧ AfterReads i Ds w) (ask c) (fun _ w T => Idle w T ∧ AfterReads i Ds w) anything := by
  have hcall : Client.Uses Op.NoCommit (ask c) := .perform trivial
  exact ((Triple.ask_ok entrySpec_logs Idle.stable Idle.unlogged).and
    (quiet entrySpec_logs afterReads_stable afterReads_push hcall)).any

/-- The four checks, if they all pass. -/
theorem admission_afterReads : Triple (entrySpec rt (admissionRule rt)) i l
    (fun w T => Idle w T ∧ AfterReads i Ds w) (admission settings tenantId tenant partitionId)
    (fun r w T => r = none → Idle w T ∧ AfterReads i ((if settings.loadSheddingEnabled then [fun _ => True] else []) ++
      (fun σ => underDepth tenant (count (isWaitingIn partitionId) σ) = true) ::
      (fun σ => underQuota tenant (count (isWaitingOf tenantId) σ) = true) :: Ds) w) anything := by
  -- a check that refuses ends the admission with its answer
  have hreject : ∀ {P R : Condition} (reason : String) (x : Response), Triple (entrySpec rt (admissionRule rt)) i l P
      (do
        record (.ticketsRejected tenantId reason)
        pure (some x)) (fun r w T => r = none → R w T) anything := fun reason x =>
    have hrecord : Client.Uses Op.NoCommit (record (.ticketsRejected tenantId reason)) := .perform trivial
    .bind (of_noCommit entrySpec_logs hrecord) fun _ => .pure _ fun _ _ _ h => by cases h
  have hseconds : Triple (entrySpec rt (admissionRule rt)) i l (fun w T => Idle w T ∧ AfterReads i Ds w)
      unixSeconds (fun _ w T => Idle w T ∧ AfterReads i Ds w) anything :=
    .bind (ask_afterReads _) fun _ => .pure _ fun _ _ h => h
  have hrate : Triple (entrySpec rt (admissionRule rt)) i l (fun w T => Idle w T ∧ AfterReads i Ds w)
      (checkRateLimit tenantId tenant) (fun _ w T => Idle w T ∧ AfterReads i Ds w) anything :=
    .bind hseconds fun _ => .bind (ask_afterReads _) fun _ => .ite (fun _ => .bind hseconds fun _ =>
      .pure _ fun _ _ h => h) fun _ => .pure _ fun _ _ h => h
  -- a check that passes has seen a store on which the count was below the limit
  have hquota : Triple (entrySpec rt (admissionRule rt)) i l (fun w T => Idle w T ∧ AfterReads i Ds w)
      (checkTenantQuota tenantId tenant) (fun r w T => r = none → Idle w T ∧
        AfterReads i ((fun σ => underQuota tenant (count (isWaitingOf tenantId) σ) = true) :: Ds) w) anything := by
    refine .bind (query_afterReads reads_due (D := fun n σ => count (isWaitingOf tenantId) σ = n) fun _ _ => rfl)
      fun n => .pure _ fun w T h hr => ⟨h.1, h.2.imp ?_⟩
    rintro σ rfl
    by_contra hover
    simp [hover] at hr
  have hdepth : ∀ {Ds : List (Tables → Prop)}, Triple (entrySpec rt (admissionRule rt)) i l
      (fun w T => Idle w T ∧ AfterReads i Ds w) (checkPartitionDepth tenant partitionId) (fun r w T => r = none →
        Idle w T ∧ AfterReads i ((fun σ => underDepth tenant (count (isWaitingIn partitionId) σ) = true) :: Ds) w)
      anything := by
    intro Ds
    refine .bind (query_afterReads reads_due (D := fun n σ => count (isWaitingIn partitionId) σ = n) fun _ _ => rfl)
      fun n => .pure _ fun w T h hr => ⟨h.1, h.2.imp ?_⟩
    rintro σ rfl
    by_contra hover
    simp [hover] at hr
  -- load shedding reads, but leaves no condition on what it has read
  have hload : ∀ {Ds : List (Tables → Prop)}, Triple (entrySpec rt (admissionRule rt)) i l
      (fun w T => Idle w T ∧ AfterReads i Ds w) (checkDbLoadShedding settings) (fun _ w T => Idle w T ∧
        AfterReads i ((if settings.loadSheddingEnabled then [fun _ => True] else []) ++ Ds) w) anything := by
    intro Ds
    unfold checkDbLoadShedding
    cases settings.loadSheddingEnabled with
    | false => exact .pure _ fun _ _ h => h
    | true =>
      exact .bind (ask_afterReads _) fun _ => .bind (query_afterReads reads_due (D := fun _ _ => True)
        fun _ _ => trivial) fun _ => .bind (ask_afterReads _) fun _ => .pure _ fun _ _ h => h
  -- the checks in the order of the source, each after those that passed
  refine .bind hrate ?_
  rintro (_ | x)
  swap
  · exact hreject _ x
  refine .bind hquota ?_
  rintro (_ | x)
  swap
  · exact hreject _ x
  refine .bind (hdepth.pre fun _ _ h => h rfl) ?_
  rintro (_ | x)
  swap
  · exact hreject _ x
  refine .bind (hload.pre fun _ _ h => h rfl) ?_
  rintro (_ | x)
  · exact .pure _ fun _ _ h _ => h
  · exact hreject _ x

/-- The transaction of a request that has passed the checks. -/
theorem transaction_admitted {requestHash : String} {partitionId' : ℕ} : 
    Triple (entrySpec rt (admissionRule rt)) i (.createTicket settings (some tenantId) key body)
      (fun w T => Idle w T ∧ AfterReads i (checksOf settings tenantId key tenant (computePartitionId rt tenantId
        body.region body.queueName settings.matchmakingPartitions)) w)
      (asyncTransaction (createInTransaction tenantId key requestHash body partitionId')) anything anything := by
  have hcreate : (createInTransaction tenantId key requestHash body partitionId').Uses Op.NoCommit :=
    noCommit_composite.createInTransaction (noCommit_composite.tickets (fun _ => trivial) fun _ _ _ _ => trivial)
      (fun _ _ => trivial) (fun _ => trivial) tenantId key requestHash body partitionId'
  have hkeep : ∀ {β : Type} {y : Db β} {Ds : List (Tables → Prop)}, y.Uses Op.NoCommit →
      Triple (entrySpec rt (admissionRule rt)) i (.createTicket settings (some tenantId) key body)
        (fun w _ => AfterReads i Ds w) y (fun _ w _ => AfterReads i Ds w) anything :=
    fun hy => (quiet entrySpec_logs afterReads_stable afterReads_push hy).any
  have hopen : Client.Uses Op.NoCommit (perform .start : Db Unit) := .perform trivial
  have hcommit : Triple (entrySpec rt (admissionRule rt)) i (.createTicket settings (some tenantId) key body)
      (fun w _ => AfterReads i (checksOf settings tenantId key tenant (computePartitionId rt tenantId
        body.region body.queueName settings.matchmakingPartitions)) w) (perform .commit) anything anything := by
    refine ((stage_commit afterReads_stable (fun _ _ _ h => h) (entrySpec_commits ?_)).post
      fun _ _ _ _ => trivial).any
    rintro w t - h settings' xTenantId key' body' ⟨⟩ _ _ ticket ⟨⟩ -
    exact ⟨tenantId, tenant, rfl, h.shown⟩
  exact Triple.asyncTransaction_after ((ask_afterReads _).post fun _ _ _ h => h.2) (hkeep hopen) (hkeep hcreate)
    (fun _ => hcommit) fun _ => Triple.rollback_any

/-- The checks come in the order of the source, each a read of its own, and the INSERT after them is due to
all. -/
theorem createNewTicket_admitted {requestHash : String} :
    Triple (entrySpec rt (admissionRule rt)) i (.createTicket settings (some tenantId) key body)
      (fun w T => Idle w T ∧ AfterReads i (key.toList.map (fun _ _ => True) ++
        [fun σ => σ.lookup (.tenants tenantId) = some tenant]) w)
      (createNewTicket rt settings tenantId tenant key requestHash body) anything anything := by
  refine .ite (fun _ => .throw _ fun _ _ _ => trivial) fun _ => .bind admission_afterReads ?_
  rintro (_ | rejection)
  · refine .bind (Triple.attempt (transaction_admitted.pre fun _ _ h => h rfl)) ?_
    rintro (e | response)
    · cases e <;> first | exact .pure _ fun _ _ _ => trivial | exact .throw _ fun _ _ _ => trivial
    · exact .pure _ fun _ _ _ => trivial
  · exact .pure _ fun _ _ _ => trivial

/-- The whole request: tenant, stored response, checks, and the ticket at the end. -/
theorem createTicket_admitted : Triple (entrySpec rt (admissionRule rt)) i (.createTicket settings xTenantId key body)
    (fun w T => Idle w T ∧ AfterReads i [] w) (withTenant xTenantId (createTicket rt settings key body))
    anything anything := by
  cases xTenantId with
  | none => exact .pure _ fun _ _ _ => trivial
  | some tenantId =>
    refine .bind (query_afterReads reads_due (D := fun found σ => σ.lookup (.tenants tenantId) = found)
      fun _ _ => rfl) ?_
    rintro (_ | tenant)
    · exact .pure _ fun _ _ _ => trivial
    cases key with
    | none => exact createNewTicket_admitted
    | some k =>
      have hlook : Triple (entrySpec rt (admissionRule rt)) i (.createTicket settings (some tenantId) (some k) body)
          (fun w T => Opened w T ∧ Begun i w)
          (fetchStoredResponse k tenantId (computeRequestHashFromModel rt body.modelDump))
          (fun _ => Reading i fun _ => True) anything := by
        refine .bind (select_reading (D := fun _ _ => True) fun _ _ => trivial) ?_
        rintro (_ | row) <;> exact .pure _ fun _ _ h => h
      refine .bind (autocommit_afterReads reads_due hlook (noCommit_composite.fetchStoredResponse _ _ _)) ?_
      rintro (_ | ⟨storedResponse, hashMatched⟩)
      · exact createNewTicket_admitted
      · exact .pure _ fun _ _ _ => trivial

end Requests

/-- In every run each insert comes after its checks. -/
theorem inserts_admitted {clock : Time} {s : ServiceState} (hs : (service rt).Reachable (emptyState clock) s) :
    Justified (admissionRule rt).due s.world.log := by
  refine service_justified_fresh (fun i l born => ?_) hs
  have hprogram : Triple (entrySpec rt (admissionRule rt)) i l (fun w T => Idle w T ∧ w.Fresh i l)
      (program rt l) anything anything := by
    have hother : (∀ settings xTenantId key body, l ≠ .createTicket settings xTenantId key body) →
        Triple (entrySpec rt (admissionRule rt)) i l (fun w T => Idle w T ∧ w.Fresh i l) (program rt l)
          anything anything := fun hl =>
      of_commits entrySpec_logs (entrySpec_commits fun _ _ _ _ settings xTenantId key body h =>
        absurd h (hl settings xTenantId key body))
    cases l with
    | createTicket settings xTenantId key body =>
      exact .bind (createTicket_admitted.pre fun _ _ h => ⟨h.1, afterReads_fresh h.2⟩) fun _ =>
        .pure _ fun _ _ _ => trivial
    | _ => exact hother fun _ _ _ _ h => by cases h
  refine hprogram.conseq (fun _ _ h => ⟨h.1, h.2.1⟩) ?_ ?_
  · rintro a w T - time settings xTenantId key body - t b ticket hc
    cases hc
  · rintro e w T - time settings xTenantId key body - t b ticket hc
    cases hc

end Matchmaking
