import Matchmaking.LogRules
import Matchmaking.ReadCommitted.Confirmed

/-!
# What a ticket request leaves behind

`create_ticket` of `api/routes/tickets.py` has many ends. A request that is answered 201 has committed
one new ticket, with the row of its key if it carries one. All others leave the tickets and the keys as
they were, unless a COMMIT is carried out and reported as failed.
-/

namespace Matchmaking

open ReadCommitted ReadCommitted.Triple

variable {rt : Runtime} {i : ℕ} {settings : Settings} {xTenantId key : Option String}
  {tenantId : String} {body : TicketCreate}

/-! ## Commits of a request -/

/-- The rows that a ticket request may write. -/
def IsRequestRow : Key → Prop
  | .tickets _ | .idempotencyKeys .. => True
  | _ => False

/-- The commit of a transaction on a store changes no tickets and no keys. -/
def LeavesAlone (c : Txn Row × Tables) : Prop :=
  ∀ k, IsRequestRow k → (patch c.1.writes c.2).lookup k = c.2.lookup k

/-- The reads that come before the transaction of a request, each in a transaction of its own. -/
def readsBefore (settings : Settings) (key : Option String) : ℕ :=
  1 + (if key.isSome then 1 else 0) + (2 + if settings.loadSheddingEnabled then 1 else 0)

/-- What a request does, as far as its commits are concerned. -/
inductive RequestMark
  | committed (c : Txn Row × Tables)
  /-- The answer of a request with so many reads. -/
  | answered (reads : ℕ) (r : Except Exn Answer)

/-- The commits and the answer of a create request; entries of other actors, and its other entries, say
nothing. -/
def requestMark (e : LogEntry) : Option RequestMark :=
  match e.actor with
  | .createTicket settings _ key _ =>
    match e.event with
    | .commit t b => some (.committed (t, b))
    | .answer _ r => some (.answered (readsBefore settings key) r)
    | _ => none
  | _ => none

/-- A commit. -/
def RequestMark.commit? : RequestMark → Option (Txn Row × Tables)
  | committed c => some c
  | answered .. => none

/-- Commits of reads, at least `n` of them. -/
structure Reads (n : ℕ) (cs : List (Txn Row × Tables)) : Prop where
  alone : ∀ c ∈ cs, LeavesAlone c
  length : n ≤ cs.length

/-- Reads, and the commit of a new ticket after them. -/
def ReadsThenWrites (n : ℕ) (cs : List (Txn Row × Tables)) : Prop :=
  ∃ c rest, cs = c :: rest ∧ ¬ LeavesAlone c ∧ Reads n rest

/-- The ticket request was answered 201. -/
def IsCreated (r : Except Exn Answer) : Prop := ∃ x, r = .ok (.response x) ∧ x.status = 201

/-- The answer where the player has an active ticket in the queue. -/
def activeTicketExists : Response :=
  httpException 409 "An active ticket already exists for this player in this queue"

/-- The answers that a COMMIT can lead to that raises. -/
def MayRaise (r : Except Exn Answer) : Prop :=
  (∃ e, r = .error e) ∨ r = .ok (.response activeTicketExists)

/-- What a request with `n` reads may have committed when it is answered `r`. -/
structure CreateOutcome (n : ℕ) (r : Except Exn Answer) (cs : List (Txn Row × Tables)) : Prop where
  created : IsCreated r → ReadsThenWrites n cs
  rejected : ¬ IsCreated r → Reads 0 cs ∨ MayRaise r ∧ ReadsThenWrites n cs

/-- What a request may leave in the log, newest first. -/
inductive RequestFine : List RequestMark → Prop
  | running {cs : List (Txn Row × Tables)} (h : ∀ c ∈ cs.tail, LeavesAlone c) :
      RequestFine (cs.map .committed)
  | ended {n : ℕ} {r : Except Exn Answer} {cs : List (Txn Row × Tables)} (h : CreateOutcome n r cs) :
      RequestFine (.answered n r :: cs.map .committed)

/-- The rule for ticket requests. -/
def requestRule : LogRule Row Reply Exn Metric Answer Actor RequestMark where
  mark := requestMark
  fine := RequestFine
  start := @RequestFine.running [] fun _ hc => absurd hc List.not_mem_nil
  begun i l _ := by cases l <;> rfl

/-! ## Reads -/

section Reading

variable {n m : ℕ} {cs : List (Txn Row × Tables)} {c : Txn Row × Tables} {α : Type}

/-- Who has read `n` times has also read each smaller number of times. -/
theorem Reads.mono (h : Reads n cs) (hle : m ≤ n) : Reads m cs := ⟨h.alone, le_trans hle h.length⟩

/-- One more commit that leaves everything alone is one more read. -/
theorem Reads.cons (h : Reads n cs) (hc : LeavesAlone c) : Reads (n + 1) (c :: cs) :=
  ⟨List.forall_mem_cons.mpr ⟨hc, h.alone⟩, Nat.succ_le_succ h.length⟩

/-- A request that has only read so far follows the rule. -/
theorem Reads.fine (h : Reads n cs) : RequestFine (cs.map .committed) :=
  .running fun c hc => h.alone c (List.mem_of_mem_tail hc)

/-- So does one that has committed anything else as its newest commit: the rule judges it when the answer
comes. -/
theorem Reads.fine_cons (h : Reads n cs) (c : Txn Row × Tables) :
    RequestFine (.committed c :: cs.map .committed) :=
  @RequestFine.running (c :: cs) h.alone

/-- The session has committed at least `n` reads, and nothing else. -/
def HasRead (n i : ℕ) : Condition := fun w T =>
  ∃ cs, Reads n cs ∧ requestRule.Marked i (cs.map .committed) w T

/-- It has committed a new ticket after them. -/
def HasWritten (n i : ℕ) : Condition := fun w T =>
  ∃ cs, ReadsThenWrites n cs ∧ requestRule.Marked i (cs.map .committed) w T

/-- Between transactions, after `n` reads. -/
def Between (n i : ℕ) : Condition := fun w T => Idle w T ∧ HasRead n i w T

/-- The session has read at least as often as each smaller number says, whatever its transaction is by now. -/
theorem HasRead.mono {w : ServiceWorld} {T T' : Option (Txn Row)} (h : HasRead n i w T) (hle : m ≤ n) :
    HasRead m i w T' := by
  obtain ⟨cs, hcs, hmarked⟩ := h
  exact ⟨cs, hcs.mono hle, hmarked⟩

/-- A transaction without writes leaves everything alone. -/
theorem leavesAlone_of_unwritten {t : Txn Row} {b : Tables}
    (h : ∀ k, ¬ IsIndexKey k → t.writes.dlookup k = none) : LeavesAlone (t, b) := by
  intro k hk
  have hindex : ¬ IsIndexKey k := by cases k <;> first | exact hk.elim | exact fun h => h
  exact lookup_patch_of_notMem (h k hindex) b

/-- The commit of a read. -/
theorem commit_read {σs : List Tables} {now : Time} :
    Triple (ruleSpec rt requestRule) i (.createTicket settings xTenantId key body)
      (fun w T => Pending now [] σs w T ∧ HasRead n i w T) (perform .commit)
      (fun _ => Between (n + 1) i) fun _ => HasRead 0 i := by
  have hcommit : ∀ cs, Reads n cs → Triple (ruleSpec rt requestRule) i
      (.createTicket settings xTenantId key body)
      (fun w T => Pending now [] σs w T ∧ requestRule.Marked i (cs.map .committed) w T) (perform .commit)
      (fun _ => Between (n + 1) i) fun _ => HasRead 0 i := by
    intro cs hcs
    have hleaving := @commit_leaving rt i (.createTicket settings xTenantId key body) _ requestRule
      (cs.map .committed) (Pending now [] σs) (fun k => ∃ c, LeavesAlone c ∧ k = some (.committed c))
      Stage.stable (fun w T ⟨t, ht, hhas⟩ => ⟨(t, w.committed),
        leavesAlone_of_unwritten fun k hk => hhas.unwritten k hk rfl, ht ▸ commitMark_open hhas.live⟩)
      fun k ⟨c, hc, hk⟩ => hk ▸ hcs.fine_cons c
    refine hleaving.conseq (fun _ _ h => h) ?_ ?_
    · rintro - w T ⟨hidle, k, ⟨c, hc, rfl⟩, hmarked⟩
      exact ⟨hidle, c :: cs, hcs.cons hc, hmarked⟩
    · rintro - w T (hmarked | ⟨k, ⟨c, hc, rfl⟩, hmarked⟩)
      · exact ⟨cs, hcs.mono (Nat.zero_le n), hmarked⟩
      · exact ⟨c :: cs, (hcs.cons hc).mono (Nat.zero_le _), hmarked⟩
  refine pre (.exists_pre fun cs => pure_pre (hcommit cs)) ?_
  rintro w T ⟨hpending, cs, hcs, hmarked⟩
  exact ⟨cs, hcs, hpending, hmarked⟩

/-- Within a transaction, a request may do anything but end it. -/
theorem request_inside {ms : List RequestMark} : Composite (fun _ => True) False (fun _ => True)
    fun {α : Type} (x : Db α) => Triple (ruleSpec rt requestRule) i (.createTicket settings xTenantId key body)
      (requestRule.Inside i ms) x (fun _ => requestRule.Inside i ms) fun _ => requestRule.Inside i ms :=
  inside_composite (fun _ _ _ => rfl) fun _ _ _ => rfl

/-- A call outside the database is no commit. -/
theorem ask_reading (c : Call) :
    Triple (ruleSpec rt requestRule) i (.createTicket settings xTenantId key body) (Between n i) (ask c)
      (fun _ => Between n i) fun _ => HasRead 0 i := by
  have hone : ∀ cs, Reads n cs → Triple (ruleSpec rt requestRule) i
      (.createTicket settings xTenantId key body)
      (fun w T => Idle w T ∧ requestRule.Marked i (cs.map .committed) w T) (ask c)
      (fun _ => Between n i) fun _ => HasRead 0 i := fun cs hcs =>
    (ruled (@Triple.ask_ok (commitSpec rt) i (.createTicket settings xTenantId key body) _ c commitSpec_logs
      Idle.stable Idle.unlogged) (@ask_marked rt i _ _ requestRule (cs.map .committed) c
        fun _ _ _ => rfl)).conseq (fun _ _ h => h) (fun _ _ _ h => ⟨h.1, cs, hcs, h.2⟩)
          fun _ _ _ h => ⟨cs, hcs.mono (Nat.zero_le n), h.2⟩
  refine pre (.exists_pre fun cs => pure_pre (hone cs)) ?_
  rintro w T ⟨hidle, cs, hcs, hmarked⟩
  exact ⟨cs, hcs, hidle, hmarked⟩

/-- In a transaction, after `n` reads. -/
def Within (n i : ℕ) : Condition := fun w T =>
  ∃ cs, Reads n cs ∧ requestRule.Inside i (cs.map .committed) w T

/-- The transaction of the create starts with nothing written. -/
theorem start_reading :
    Triple (ruleSpec rt requestRule) i (.createTicket settings xTenantId key body) (Between n i)
      (perform .start) (fun _ w T => (∃ now, Pending now [] [] w T) ∧ Within n i w T)
      fun _ => HasRead 0 i := by
  have hone : ∀ cs, Reads n cs → Triple (ruleSpec rt requestRule) i
      (.createTicket settings xTenantId key body)
      (fun w T => Idle w T ∧ requestRule.Marked i (cs.map .committed) w T) (perform .start)
      (fun _ w T => (∃ now, Pending now [] [] w T) ∧ Within n i w T) fun _ => HasRead 0 i := fun cs hcs =>
    (ruled (@idle_start _ _ _ _ _ _ _ _ _ (commitSpec rt) i (.createTicket settings xTenantId key body)
      IsIndexKey) (@start_inside rt i _ _ requestRule (cs.map .committed))).conseq (fun _ _ h => h)
        (fun _ _ _ h => ⟨h.1, cs, hcs, h.2⟩) fun _ _ _ h => ⟨cs, hcs.mono (Nat.zero_le n), h.2⟩
  refine pre (.exists_pre fun cs => pure_pre (hone cs)) ?_
  rintro w T ⟨hidle, cs, hcs, hmarked⟩
  exact ⟨cs, hcs, hidle, hmarked⟩

/-- What a statement in a transaction establishes for the commits. -/
theorem within_ruled {x : Db α} {P : Condition} {Q : α → Condition}
    (hx : Triple (commitSpec rt) i (.createTicket settings xTenantId key body) P x Q anything)
    (hmarks : ∀ ms, Triple (ruleSpec rt requestRule) i (.createTicket settings xTenantId key body)
      (requestRule.Inside i ms) x (fun _ => requestRule.Inside i ms) fun _ => requestRule.Inside i ms) :
    Triple (ruleSpec rt requestRule) i (.createTicket settings xTenantId key body)
      (fun w T => P w T ∧ Within n i w T) x (fun a w T => Q a w T ∧ HasRead n i w T)
      fun _ => HasRead 0 i := by
  have hone : ∀ cs, Reads n cs → Triple (ruleSpec rt requestRule) i
      (.createTicket settings xTenantId key body)
      (fun w T => P w T ∧ requestRule.Inside i (cs.map .committed) w T) x
      (fun a w T => Q a w T ∧ HasRead n i w T) fun _ => HasRead 0 i := fun cs hcs =>
    (ruled hx (hmarks _)).conseq (fun _ _ h => h) (fun _ _ _ h => ⟨h.1, cs, hcs, h.2.2⟩)
      fun _ _ _ h => ⟨cs, hcs.mono (Nat.zero_le n), h.2.2⟩
  refine pre (.exists_pre fun cs => pure_pre (hone cs)) ?_
  rintro w T ⟨hp, cs, hcs, hmarked⟩
  exact ⟨cs, hcs, hp, hmarked⟩

theorem rollback_reading :
    Triple (ruleSpec rt requestRule) i (.createTicket settings xTenantId key body) (HasRead n i)
      (perform .rollback) (fun _ => HasRead n i) fun _ => HasRead n i := by
  refine pre (.exists_pre fun cs => pure_pre fun hcs => ?_) fun w T h => h
  exact rollback_marked.conseq (fun _ _ h => h) (fun _ _ _ h => ⟨cs, hcs, h⟩) fun _ _ _ h => ⟨cs, hcs, h⟩

/-- Reads in a transaction of their own. -/
theorem autocommit_reading {x : Db α}
    (hx : ∀ now, Triple (commitSpec rt) i (.createTicket settings xTenantId key body) (Pending now [] []) x
      (fun _ w T => ∃ σs, Pending now [] σs w T) anything)
    (hmarks : ∀ ms, Triple (ruleSpec rt requestRule) i (.createTicket settings xTenantId key body)
      (requestRule.Inside i ms) x (fun _ => requestRule.Inside i ms) fun _ => requestRule.Inside i ms) :
    Triple (ruleSpec rt requestRule) i (.createTicket settings xTenantId key body) (Between n i)
      (autocommit x) (fun _ => Between (n + 1) i) fun _ => HasRead 0 i := by
  have hbody : Triple (ruleSpec rt requestRule) i (.createTicket settings xTenantId key body)
      (fun w T => (∃ now, Pending now [] [] w T) ∧ Within n i w T) x
      (fun _ w T => (∃ now σs, Pending now [] σs w T) ∧ HasRead n i w T) fun _ => HasRead 0 i :=
    within_ruled (.exists_pre fun now => (hx now).post fun _ _ _ h => ⟨now, h⟩) hmarks
  have hcommit : Triple (ruleSpec rt requestRule) i (.createTicket settings xTenantId key body)
      (fun w T => (∃ now σs, Pending now [] σs w T) ∧ HasRead n i w T) (perform .commit)
      (fun _ => Between (n + 1) i) fun _ => HasRead 0 i := by
    refine pre (.exists_pre fun now => .exists_pre fun σs => @commit_read rt i settings xTenantId key body
      n σs now) ?_
    rintro w T ⟨⟨now, σs, h⟩, hread⟩
    exact ⟨now, σs, h, hread⟩
  exact Triple.autocommit_after (ask_reading _) start_reading hbody (fun _ => hcommit)
    fun _ => rollback_reading

theorem record_reading (x : Metric) {F : Exn → Condition} :
    Triple (ruleSpec rt requestRule) i (.createTicket settings xTenantId key body) (Between n i) (record x)
      (fun _ => Between n i) F := by
  have hone : ∀ cs, Reads n cs → Triple (ruleSpec rt requestRule) i
      (.createTicket settings xTenantId key body)
      (fun w T => Idle w T ∧ requestRule.Marked i (cs.map .committed) w T) (record x)
      (fun _ => Between n i) F := fun cs hcs =>
    (@LogRule.emit_marked _ _ _ _ _ _ _ _ _ _ requestRule _ _ i (.createTicket settings xTenantId key body) _
      grows_growth Idle Idle.stable x none (fun _ _ h => h) (fun _ => rfl) (fun h => h) F).post
        fun _ _ _ h => ⟨h.1, cs, hcs, h.2⟩
  refine pre (.exists_pre fun cs => pure_pre (hone cs)) ?_
  rintro w T ⟨hidle, cs, hcs, hmarked⟩
  exact ⟨cs, hcs, hidle, hmarked⟩

/-- A query outside a transaction. -/
theorem query_reading {f : Time → Tables → α} :
    Triple (ruleSpec rt requestRule) i (.createTicket settings xTenantId key body) (Between n i)
      (autocommit (perform (.select f))) (fun _ => Between (n + 1) i) fun _ => HasRead 0 i := by
  refine autocommit_reading (fun now => stage_select.post ?_) fun ms =>
    (@request_inside rt i settings xTenantId key body ms).select
  rintro a w T ⟨σ, -, -, -, hstage⟩
  exact ⟨[σ], hstage⟩

/-- The checks of a request are two reads, and one more where load is shed. -/
theorem admission_reading {settings' : Settings} {tenant : Tenant} {partitionId : ℕ} :
    Triple (ruleSpec rt requestRule) i (.createTicket settings xTenantId key body) (Between n i)
      (admission settings' tenantId tenant partitionId)
      (fun r w T => HasRead 0 i w T ∧
        (r = none → Between (n + (2 + if settings'.loadSheddingEnabled then 1 else 0)) i w T))
      fun _ => HasRead 0 i := by
  -- a check that refuses ends the admission, whatever has been read
  have hreject : ∀ {m : ℕ} (reason : String) (x : Response),
      Triple (ruleSpec rt requestRule) i (.createTicket settings xTenantId key body) (Between m i) (do
        record (.ticketsRejected tenantId reason)
        pure (some x)) (fun r w T => HasRead 0 i w T ∧
          (r = none → Between (n + (2 + if settings'.loadSheddingEnabled then 1 else 0)) i w T))
        fun _ => HasRead 0 i := fun {m} _ x =>
    .bind (record_reading _) fun _ => .pure _ fun _ _ h => ⟨h.2.mono (Nat.zero_le m), fun hr => by cases hr⟩
  have hseconds : Triple (ruleSpec rt requestRule) i (.createTicket settings xTenantId key body)
      (Between n i) unixSeconds (fun _ => Between n i) fun _ => HasRead 0 i :=
    .bind (ask_reading _) fun _ => .pure _ fun _ _ h => h
  have hrate : Triple (ruleSpec rt requestRule) i (.createTicket settings xTenantId key body)
      (Between n i) (checkRateLimit tenantId tenant) (fun _ => Between n i) fun _ => HasRead 0 i :=
    .bind hseconds fun _ => .bind (ask_reading _) fun _ => .ite (fun _ => .bind hseconds fun _ =>
      .pure _ fun _ _ h => h) fun _ => .pure _ fun _ _ h => h
  have hquota : Triple (ruleSpec rt requestRule) i (.createTicket settings xTenantId key body)
      (Between n i) (checkTenantQuota tenantId tenant) (fun _ => Between (n + 1) i) fun _ => HasRead 0 i :=
    .bind query_reading fun _ => .pure _ fun _ _ h => h
  have hdepth : Triple (ruleSpec rt requestRule) i (.createTicket settings xTenantId key body)
      (Between (n + 1) i) (checkPartitionDepth tenant partitionId) (fun _ => Between (n + 2) i)
      fun _ => HasRead 0 i :=
    .bind query_reading fun _ => .pure _ fun _ _ h => h
  have hload : Triple (ruleSpec rt requestRule) i (.createTicket settings xTenantId key body)
      (Between (n + 2) i) (checkDbLoadShedding settings')
      (fun _ => Between (n + (2 + if settings'.loadSheddingEnabled then 1 else 0)) i)
      fun _ => HasRead 0 i := by
    unfold checkDbLoadShedding
    cases settings'.loadSheddingEnabled with
    | false => exact .pure _ fun _ _ h => h
    | true =>
      exact .bind (ask_reading _) fun _ => .bind query_reading fun _ => .bind (ask_reading _)
        fun _ => .pure _ fun _ _ h => h
  -- the checks in the order of the source
  refine .bind hrate ?_
  rintro (_ | x)
  swap
  · exact hreject _ x
  refine .bind hquota ?_
  rintro (_ | x)
  swap
  · exact hreject _ x
  refine .bind hdepth ?_
  rintro (_ | x)
  swap
  · exact hreject _ x
  refine .bind hload ?_
  rintro (_ | x)
  · exact .pure _ fun _ _ h => ⟨h.2.mono (Nat.zero_le _), fun _ => h⟩
  · exact hreject _ x

end Reading

/-! ## The transaction -/

section Transaction

variable {n : ℕ} {partitionId : ℕ} {requestHash : String}

/-- After the COMMIT, by the answer. -/
def Settles (n i : ℕ) (r : Response) : Condition := fun w T =>
  (r.status = 201 → HasWritten n i w T) ∧ (r.status ≠ 201 → HasRead 0 i w T)

/-- After a COMMIT that has raised. -/
def Raised (n i : ℕ) : Condition := fun w T => HasRead 0 i w T ∨ HasWritten n i w T

/-- The commit of a new ticket. -/
theorem not_leavesAlone {ticketId : UUID} {now : Time} {t : Txn Row} {b : Tables}
    (h : Changed IsIndexKey ((⟨ticketId, tenantId, key, body, partitionId⟩ : NewTicket).changes rt now) b
      (patch t.writes b)) : ¬ LeavesAlone (t, b) := by
  intro halone
  obtain ⟨hold, hnew⟩ := h.lookup (.tickets ticketId) (fun h => h)
    (NewTicket.dlookup_ticket ⟨ticketId, tenantId, key, body, partitionId⟩ now)
  cases hnew.symm.trans ((halone (.tickets ticketId) trivial).trans hold)

/-- With a new ticket the commit leaves its mark. -/
theorem commit_inserted {r : Response} (hr : r.status = 201) :
    Triple (ruleSpec rt requestRule) i (.createTicket settings xTenantId key body)
      (fun w T => Inserted rt tenantId key body partitionId r w T ∧ HasRead n i w T)
      (perform .commit) (fun _ => Settles n i r) fun _ => Raised n i := by
  have hone : ∀ cs, Reads n cs → Triple (ruleSpec rt requestRule) i
      (.createTicket settings xTenantId key body) (fun w T => Inserted rt tenantId key body partitionId r w T ∧
        requestRule.Marked i (cs.map .committed) w T) (perform .commit) (fun _ => Settles n i r)
      fun _ => Raised n i := by
    intro cs hcs
    have hwritten : ∀ {w : ServiceWorld} {T : Option (Txn Row)} {k : Option RequestMark},
        (∃ c, ¬ LeavesAlone c ∧ k = some (.committed c)) →
        requestRule.Marked i (k.toList ++ cs.map .committed) w T → HasWritten n i w T := by
      rintro w T _ ⟨c, hc, rfl⟩ hmarked
      exact ⟨c :: cs, ⟨c, cs, rfl, hc, hcs⟩, hmarked⟩
    have hleaving := @commit_leaving rt i (.createTicket settings xTenantId key body) _ requestRule
      (cs.map .committed) (Inserted rt tenantId key body partitionId r)
      (fun k => ∃ c, ¬ LeavesAlone c ∧ k = some (.committed c)) (ruled_stable Inserted.stable)
      (fun w T ⟨ticketId, now, σs, _, t, ht, hhas⟩ =>
        ⟨(t, w.committed), not_leavesAlone hhas.changed, ht ▸ commitMark_open hhas.live⟩)
      fun k ⟨c, _, hk⟩ => hk ▸ hcs.fine_cons c
    refine hleaving.conseq (fun _ _ h => h) ?_ ?_
    · rintro - w T ⟨-, k, hk, hmarked⟩
      exact ⟨fun _ => hwritten hk hmarked, fun h => absurd hr h⟩
    · rintro - w T (hmarked | ⟨k, hk, hmarked⟩)
      · exact .inl ⟨cs, hcs.mono (Nat.zero_le n), hmarked⟩
      · exact .inr (hwritten hk hmarked)
  refine pre (.exists_pre fun cs => pure_pre (hone cs)) ?_
  rintro w T ⟨hinserted, cs, hcs, hmarked⟩
  exact ⟨cs, hcs, hinserted, hmarked⟩

/-- With nothing to commit, tickets and keys are left alone. -/
theorem commit_clean {r : Response} (hr : r.status ≠ 201) :
    Triple (ruleSpec rt requestRule) i (.createTicket settings xTenantId key body)
      (fun w T => Clean IsIndexKey w T ∧ HasRead n i w T)
      (perform .commit) (fun _ => Settles n i r) fun _ => Raised n i := by
  have hone : ∀ cs, Reads n cs → Triple (ruleSpec rt requestRule) i
      (.createTicket settings xTenantId key body)
      (fun w T => Clean IsIndexKey w T ∧ requestRule.Marked i (cs.map .committed) w T) (perform .commit)
      (fun _ => Settles n i r) fun _ => Raised n i := by
    intro cs hcs
    have hread : ∀ {w : ServiceWorld} {T : Option (Txn Row)} {k : Option RequestMark},
        (∀ m, k = some m → ∃ c, LeavesAlone c ∧ m = .committed c) →
        requestRule.Marked i (k.toList ++ cs.map .committed) w T → HasRead 0 i w T := by
      intro w T k hk hmarked
      cases k with
      | none => exact ⟨cs, hcs.mono (Nat.zero_le n), hmarked⟩
      | some m =>
        obtain ⟨c, hc, rfl⟩ := hk m rfl
        exact ⟨c :: cs, (hcs.cons hc).mono (Nat.zero_le _), hmarked⟩
    have hleaving := @commit_leaving rt i (.createTicket settings xTenantId key body) _ requestRule
      (cs.map .committed) (Clean IsIndexKey)
      (fun k => ∀ m, k = some m → ∃ c, LeavesAlone c ∧ m = .committed c) Clean.stable
      (fun w T hclean m hm => by
        obtain ⟨t, rfl, hmark⟩ := Option.bind_eq_some_iff.mp hm
        split at hmark
        · cases hmark
        · exact ⟨(t, w.committed), leavesAlone_of_unwritten (hclean t rfl), (Option.some.inj hmark).symm⟩)
      fun k hk => by
        cases k with
        | none => exact hcs.fine
        | some m =>
          obtain ⟨c, -, rfl⟩ := hk m rfl
          exact hcs.fine_cons c
    refine hleaving.conseq (fun _ _ h => h) ?_ ?_
    · rintro - w T ⟨-, k, hk, hmarked⟩
      exact ⟨fun h => absurd h hr, fun _ => hread hk hmarked⟩
    · rintro - w T (hmarked | ⟨k, hk, hmarked⟩)
      · exact .inl ⟨cs, hcs.mono (Nat.zero_le n), hmarked⟩
      · exact .inl (hread hk hmarked)
  refine pre (.exists_pre fun cs => pure_pre (hone cs)) ?_
  rintro w T ⟨hclean, cs, hcs, hmarked⟩
  exact ⟨cs, hcs, hclean, hmarked⟩

/-- The COMMIT of the request is one of a new ticket, or of nothing that counts; an answer 201 comes only with
a ticket. -/
theorem commit_request {r : Response} :
    Triple (ruleSpec rt requestRule) i (.createTicket settings xTenantId key body)
      (fun w T => ((Inserted rt tenantId key body partitionId r w T ∨ Clean IsIndexKey w T) ∧
        (r.status = 201 → Inserted rt tenantId key body partitionId r w T)) ∧ HasRead n i w T)
      (perform .commit) (fun _ => Settles n i r) fun _ => Raised n i := by
  by_cases hr : r.status = 201
  · exact (commit_inserted hr).pre fun _ _ h => ⟨h.1.2 hr, h.2⟩
  · refine (commit_clean hr).pre fun w T h => ⟨h.1.1.resolve_left ?_, h.2⟩
    rintro ⟨_, _, _, rfl, -⟩
    exact hr rfl

/-- The transaction of a request. -/
theorem transaction_reading
    (hhash : ∀ k, key = some k → requestHash = computeRequestHashFromModel rt body.modelDump) :
    Triple (ruleSpec rt requestRule) i (.createTicket settings xTenantId key body) (Between n i)
      (asyncTransaction (createInTransaction tenantId key requestHash body partitionId)) (Settles n i)
      fun _ => Raised n i := by
  have hcreate : ∀ now, Triple (commitSpec rt) i (.createTicket settings xTenantId key body)
      (Pending now [] []) (createInTransaction tenantId key requestHash body partitionId)
      (fun r w T => (Inserted rt tenantId key body partitionId r w T ∨ Clean IsIndexKey w T) ∧
        (r.status = 201 → Inserted rt tenantId key body partitionId r w T)) anything := fun now =>
    (@createInTransaction_triple rt i key tenantId body ∅ (fun _ _ => rfl)
      (.createTicket settings xTenantId key body) now requestHash partitionId hhash).conseq
        (fun _ _ h => ⟨h, .empty _⟩) (fun _ _ _ h => ⟨h.1.imp (fun h => h) And.left, h.2⟩)
        fun _ _ _ h => h
  have hread : ∀ {m : ℕ} {w : ServiceWorld} {T T' : Option (Txn Row)}, HasRead m i w T → Raised n i w T' :=
    fun h => .inl (h.mono (Nat.zero_le _))
  refine Triple.asyncTransaction_after ((ask_reading _).conseq (fun _ _ h => h) (fun _ _ _ h => h)
      fun _ _ _ h => hread h)
    (start_reading.conseq (fun _ _ h => h) (fun _ _ _ h => h) fun _ _ _ h => hread h)
    (within_ruled (.exists_pre hcreate) fun ms => request_inside.createInTransaction
      (request_inside.tickets (fun _ => trivial) fun _ _ _ _ => trivial) (fun _ _ => trivial)
      (fun _ => trivial) tenantId key requestHash body partitionId)
    (fun r => commit_request) fun _ => rollback_reading.conseq (fun _ _ h => h) (fun _ _ _ h => hread h)
      fun _ _ _ h => hread h

/-- What the request may have committed when it ends. -/
def Ends (n i : ℕ) (r : Except Exn Answer) : Condition := fun w T =>
  ∃ cs, CreateOutcome n r cs ∧ requestRule.Marked i (cs.map .committed) w T

/-- An answer other than 201 follows reads only. -/
theorem Ends.rejected {m : ℕ} {r : Except Exn Answer} (hr : ¬ IsCreated r) {w : ServiceWorld}
    {T T' : Option (Txn Row)} (h : HasRead m i w T) : Ends n i r w T' := by
  obtain ⟨cs, hcs, hmarked⟩ := h
  exact ⟨cs, ⟨fun h => absurd h hr, fun _ => .inl (hcs.mono (Nat.zero_le m))⟩, hmarked⟩

/-- An exception may be raised where the request allows it, also after a commit whose acknowledgement was
lost. -/
theorem Ends.raised {r : Except Exn Answer} (hr : ¬ IsCreated r) (hmay : MayRaise r) {w : ServiceWorld}
    {T T' : Option (Txn Row)} (h : Raised n i w T) : Ends n i r w T' := by
  obtain h | ⟨cs, hcs, hmarked⟩ := h
  · exact .rejected hr h
  · exact ⟨cs, ⟨fun h => absurd h hr, fun _ => .inr ⟨hmay, hcs⟩⟩, hmarked⟩

theorem not_isCreated_error {e : Exn} : ¬ IsCreated (.error e) := fun ⟨_, h, _⟩ => by cases h

theorem not_isCreated {r : Response} (hr : r.status ≠ 201) : ¬ IsCreated (.ok (.response r)) := by
  rintro ⟨x, hx, hstatus⟩
  cases hx
  exact hr hstatus

/-- `create_ticket` after the first look at the key. -/
theorem createNewTicket_ends {tenant : Tenant}
    (hhash : ∀ k, key = some k → requestHash = computeRequestHashFromModel rt body.modelDump) :
    Triple (ruleSpec rt requestRule) i (.createTicket settings xTenantId key body) (Between n i)
      (createNewTicket rt settings tenantId tenant key requestHash body)
      (fun r => Ends (n + (2 + if settings.loadSheddingEnabled then 1 else 0)) i (.ok (.response r)))
      fun e => Ends (n + (2 + if settings.loadSheddingEnabled then 1 else 0)) i (.error e) := by
  have hadmission := fun partitionId =>
    (ruled (@admission_triple rt i settings xTenantId key tenantId body settings tenant partitionId)
      (@admission_reading rt i settings xTenantId key tenantId body n settings tenant partitionId)).pre
        fun w T (h : Between n i w T) => ⟨h.1, h⟩
  refine .ite (fun _ => .throw _ fun _ _ h => .rejected not_isCreated_error h.2) fun _ => .bind
    ((hadmission _).conseq (fun _ _ h => h) (fun _ _ _ h => h)
      fun _ _ _ h => .rejected not_isCreated_error h.2) ?_
  rintro (_ | rejection)
  swap
  · exact .pure _ fun w T h => .rejected (not_isCreated (h.1.1 rejection rfl).2) h.2.1
  refine .bind (Triple.attempt ((transaction_reading hhash).pre fun _ _ h => h.2.2 rfl)) ?_
  rintro (e | response)
  · cases e with
    | uniqueViolation =>
      have hconflict : ¬ IsCreated (.ok (.response activeTicketExists)) :=
        not_isCreated (by decide : (409 : ℕ) ≠ 201)
      exact .pure _ fun w T h => .raised hconflict (.inr rfl) h
    | _ => exact .throw _ fun w T h => .raised not_isCreated_error (.inl ⟨_, rfl⟩) h
  · refine .pure _ fun w T h => ?_
    by_cases hr : response.status = 201
    · obtain ⟨cs, hcs, hmarked⟩ := h.1 hr
      exact ⟨cs, ⟨fun _ => hcs, fun h => absurd ⟨response, rfl, hr⟩ h⟩, hmarked⟩
    · exact .rejected (not_isCreated hr) (h.2 hr)

/-- The handler from its start to its answer: reads, at most one commit of a ticket, and a 201 only after
it. -/
theorem createTicket_ends :
    Triple (ruleSpec rt requestRule) i (.createTicket settings xTenantId key body) (Between 0 i)
      (withTenant xTenantId (createTicket rt settings key body))
      (fun r => Ends (readsBefore settings key) i (.ok (.response r)))
      fun e => Ends (readsBefore settings key) i (.error e) := by
  cases xTenantId with
  | none =>
    exact .pure _ fun w T h => .rejected (not_isCreated (by decide : (400 : ℕ) ≠ 201)) h.2
  | some tenantId =>
    refine .bind (query_reading.conseq (fun _ _ h => h) (fun _ _ _ h => h)
      fun _ _ _ h => .rejected not_isCreated_error h) ?_
    rintro (_ | tenant)
    · exact .pure _ fun w T h => .rejected (not_isCreated (by decide : (403 : ℕ) ≠ 201)) h.2
    cases key with
    | none => exact createNewTicket_ends fun _ hk => by cases hk
    | some k =>
      have hlook : Triple (ruleSpec rt requestRule) i (.createTicket settings (some tenantId) (some k) body)
          (Between 1 i) (checkIdempotencyKey k tenantId (computeRequestHashFromModel rt body.modelDump))
          (fun _ => Between 2 i) fun _ => HasRead 0 i := by
        refine autocommit_reading (fun now => ?_) fun ms => request_inside.fetchStoredResponse _ _ _
        exact (@fetchStoredResponse_triple rt i tenantId body ∅
          (.createTicket settings (some tenantId) (some k) body) now [] k).conseq
            (fun _ _ h => ⟨h, .empty _⟩) (fun _ _ _ h => h.1) fun _ _ _ h => h
      refine .bind (hlook.conseq (fun _ _ h => h) (fun _ _ _ h => h)
        fun _ _ _ h => .rejected not_isCreated_error h) ?_
      rintro (_ | ⟨storedResponse, hashMatched⟩)
      · exact createNewTicket_ends fun _ _ => rfl
      · refine .pure _ fun w T h => .rejected (not_isCreated ?_) h.2
        cases hashMatched
        · exact (by decide : (409 : ℕ) ≠ 201)
        · exact (by decide : (200 : ℕ) ≠ 201)

end Transaction

/-! ## All programs -/

/-- Others leave no marks. -/
theorem requestMark_other {e : LogEntry}
    (h : ∀ settings xTenantId key body, e.actor ≠ .createTicket settings xTenantId key body) :
    requestMark e = none := by
  unfold requestMark
  split
  · next hl => exact absurd hl (h _ _ _ _)
  · rfl

/-- An answer that accounts for the commits keeps the rule. -/
theorem Ends.answers {r : Except Exn Answer} {w : ServiceWorld} {T : Option (Txn Row)}
    (h : Ends (readsBefore settings key) i r w T) :
    requestRule.Answers i (.createTicket settings xTenantId key body) r w.log := by
  obtain ⟨cs, hcs, hmarked⟩ := h
  intro born time _
  have hmarks : marks requestMark i (⟨i, .createTicket settings xTenantId key body, time, .answer born r⟩ ::
      w.log) = .answered (readsBefore settings key) r :: cs.map .committed := by
    rw [marks_cons, show marks requestMark i w.log = _ from hmarked]
    rfl
  show RequestFine (marks requestMark i _)
  rw [hmarks]
  exact .ended hcs

/-- The programs keep the rule. -/
theorem requestRule_kept (i : ℕ) (l : Actor) :
    Triple (ruleSpec rt requestRule) i l (fun w T => Idle w T ∧ requestRule.Marked i [] w T) (program rt l)
      (fun a w _ => requestRule.Answers i l (.ok a) w.log)
      fun e w _ => requestRule.Answers i l (.error e) w.log := by
  by_cases hl : ∃ settings xTenantId key body, l = .createTicket settings xTenantId key body
  · obtain ⟨settings, xTenantId, key, body, rfl⟩ := hl
    have hprogram : Triple (ruleSpec rt requestRule) i (.createTicket settings xTenantId key body)
        (Between 0 i) (program rt (.createTicket settings xTenantId key body))
        (fun a => Ends (readsBefore settings key) i (.ok a))
        fun e => Ends (readsBefore settings key) i (.error e) :=
      .bind createTicket_ends fun _ => .pure _ fun _ _ h => h
    refine hprogram.conseq (fun w T h => ⟨h.1, [], ⟨fun _ hc => absurd hc List.not_mem_nil, le_refl 0⟩, h.2⟩)
      (fun _ _ _ h => h.answers) fun _ _ _ h => h.answers
  · exact unmarked fun time ev => requestMark_other fun settings xTenantId key body h =>
      hl ⟨settings, xTenantId, key, body, h⟩

/-! ## Commits that a request knows of -/

section Exchanges

variable {α β : Type} {x : Db α} {tenant : Tenant} {requestHash : String} {partitionId n : ℕ}

/-- What a request does within a transaction. -/
abbrev Statements {α : Type} (x : Db α) : Prop := x.Uses (Op.Within (fun _ => True) False fun _ => True)

/-- Programs of statements without COMMITs are closed under all constructs of the model. -/
theorem statements_composite :
    Composite (fun _ => True) False (fun _ => True) fun {α : Type} (x : Db α) => Statements x where
  perform h := .perform h
  pure := .pure
  throw := .throw
  bind := .bind
  tryCatch := .tryCatch

/-- A call outside the database confirms no COMMIT. -/
theorem ask_confirms (c : Call) {p : Except Exn (Reply c) → Prop} : (ask c).Confirms p 0 :=
  .perform_other fun _ => rfl

/-- A statement of its own is one COMMIT. -/
theorem autocommit_confirms (hx : Statements x) {p : Except Exn α → Prop} : (autocommit x).Confirms p 1 := by
  have hbody : (attempt x).Confirms (fun _ => True) 0 := .of_uses (statements_composite.attempt hx)
  have hdiscard : discard.Confirms (fun _ => True) 0 :=
    .tryCatch (.perform_other fun _ => rfl) fun _ => .pure
  refine (Client.Confirms.bind (ask_confirms .getConnection) fun _ => .bind (.perform_other fun _ => rfl) fun _ =>
    .bind hbody fun r => ?_ : (autocommit x).Confirms p (0 + (0 + (0 + 1))))
  cases r with
  | ok a => exact .bind .perform fun _ => .pure
  | error e => exact (Client.Confirms.bind hdiscard fun _ => .throw).mono (Nat.zero_le 1)

/-- A transaction that raises has confirmed nothing. -/
theorem asyncTransaction_confirms (hx : Statements x) : (asyncTransaction x).Confirms IsError 0 := by
  have hbody : (attempt x).Confirms (fun _ => True) 0 := .of_uses (statements_composite.attempt hx)
  refine (Client.Confirms.bind (ask_confirms .getConnection) fun _ => .bind (.perform_other fun _ => rfl) fun _ =>
    .bind hbody fun r => ?_ : (asyncTransaction x).Confirms IsError (0 + (0 + (0 + 0))))
  cases r with
  | ok a =>
    refine .map fun τ r h hr => Client.Confirms.perform_error τ r h ?_
    cases r with
    | ok _ => exact hr.elim
    | error _ => trivial
  | error e => exact .bind (.perform_other fun _ => rfl) fun _ => .throw

/-- It returns what its body returns. -/
theorem asyncTransaction_returns {P : α → Prop} (hx : x.Returns P) : (asyncTransaction x).Returns P :=
  .bind fun _ => .bind fun _ => finish_returns hx (fun _ ha => .bind fun _ => .pure ha) fun _ =>
    .bind fun _ => .throw

/-- Inserting a ticket and finalizing its key returns a 201. -/
theorem insertAndFinalize_returns {tenantId : String} :
    (insertAndFinalize tenantId key body partitionId).Returns fun r => r.status = 201 := by
  cases key with
  | none =>
    exact .bind fun inserted => .bind fun _ => .bind fun _ => .pure (rfl : (201 : ℕ) = 201)
  | some k =>
    exact .bind fun inserted => .bind fun _ => .bind fun _ => .bind fun _ => .pure (rfl : (201 : ℕ) = 201)

/-- A replay is never the answer that a player has an active ticket. -/
theorem replayResponse_ne {storedResponse : Json} {hashMatched : Bool} :
    replayResponse storedResponse hashMatched ≠ activeTicketExists := by
  cases hashMatched with
  | true => exact fun h => absurd (congrArg Response.status h) (by decide : (200 : ℕ) ≠ 409)
  | false =>
    intro h
    have hbody : idempotencyKeyConflict.body = activeTicketExists.body := congrArg Response.body h
    simp [idempotencyKeyConflict, activeTicketExists, httpException] at hbody

/-- The transaction does not answer as a request does whose transaction raises. -/
theorem createInTransaction_returns {tenantId : String} :
    (createInTransaction tenantId key requestHash body partitionId).Returns fun r =>
      r ≠ activeTicketExists := by
  have hinsert : ∀ key, (insertAndFinalize tenantId key body partitionId).Returns fun r =>
      r ≠ activeTicketExists := fun key τ r h heq => by
    have hstatus := insertAndFinalize_returns τ r h
    rw [heq] at hstatus
    exact absurd hstatus (by decide : (409 : ℕ) ≠ 201)
  cases key with
  | none => exact hinsert none
  | some k =>
    refine .bind fun reserved => ?_
    cases reserved with
    | true => exact hinsert (some k)
    | false =>
      refine .bind fun stored => ?_
      cases stored with
      | none => exact .pure (@replayResponse_ne .null false)
      | some p => exact .pure replayResponse_ne

/-- Admission confirms one COMMIT at most for each of its reads: the quota, the depth, and the load if
shedding is on. -/
theorem admission_confirms {tenantId : String} {p : Except Exn (Option Response) → Prop} :
    (admission settings tenantId tenant partitionId).Confirms p
      (2 + if settings.loadSheddingEnabled then 1 else 0) := by
  have hselect : ∀ {α : Type} {f : Time → Tables → α}, Statements (perform (.select f) : Db α) :=
    statements_composite.select
  have hreject : ∀ {n : ℕ} {m : Metric} {r : Response},
      (record m >>= fun _ => (pure (some r) : Db (Option Response))).Confirms p n := fun {_ _ _} =>
    (Client.Confirms.bind (.perform_other fun _ => rfl) fun _ => .pure).mono (Nat.zero_le _)
  have hrate : (checkRateLimit tenantId tenant).Confirms (fun _ => True) 0 :=
    .of_uses (statements_composite.checkRateLimit tenantId tenant)
  have hquota : (checkTenantQuota tenantId tenant).Confirms (fun _ => True) 1 :=
    .bind (autocommit_confirms hselect) fun _ => .pure
  have hdepth : (checkPartitionDepth tenant partitionId).Confirms (fun _ => True) 1 :=
    .bind (autocommit_confirms hselect) fun _ => .pure
  have hload : (checkDbLoadShedding settings).Confirms (fun _ => True)
      (if settings.loadSheddingEnabled then 1 else 0) := by
    unfold checkDbLoadShedding
    cases settings.loadSheddingEnabled with
    | false => exact .pure
    | true =>
      exact (Client.Confirms.bind (ask_confirms .perfCounter) fun _ => .bind (autocommit_confirms hselect) fun _ =>
        .bind (ask_confirms .perfCounter) fun _ => .pure : Client.Confirms _ (0 + (1 + (0 + 0))) _)
  refine (Client.Confirms.bind hrate fun r => ?_ : Client.Confirms p
    (0 + (1 + (1 + ((if settings.loadSheddingEnabled then 1 else 0) + 0)))) _).mono (by omega)
  cases r with
  | some r => exact hreject
  | none =>
    refine .bind hquota fun r => ?_
    cases r with
    | some r => exact hreject
    | none =>
      refine .bind hdepth fun r => ?_
      cases r with
      | some r => exact hreject
      | none =>
        refine .bind hload fun r => ?_
        cases r with
        | some r => exact hreject
        | none => exact .pure

/-- The transaction of a request, where its failure may be hidden in the answer. -/
theorem createTransaction_confirms {tenantId : String} :
    Client.Confirms (fun r => MayRaise (r.map .response)) 0 (do
      match ← attempt (asyncTransaction (createInTransaction tenantId key requestHash body partitionId)) with
      | .ok response => pure response
      | .error .uniqueViolation =>
        pure (httpException 409 "An active ticket already exists for this player in this queue")
      | .error e => throw e) := by
  intro τ r h hr
  obtain ⟨e, -, hattempt⟩ | ⟨result, τ₁, τ₂, rfl, h₁, h₂⟩ := Client.Runs.of_bind h
  · obtain ⟨_, heq, -⟩ := runs_of_attempt hattempt
    cases heq
  obtain ⟨result', heq, hbody⟩ := runs_of_attempt h₁
  cases heq
  rw [confirmed_append]
  cases result with
  | ok response =>
    obtain ⟨-, rfl⟩ := Client.Runs.of_pure h₂
    obtain ⟨e, he⟩ | hconflict := hr
    · cases he
    · have hreturn := asyncTransaction_returns createInTransaction_returns _ _ hbody
      exact absurd (Answer.response.inj (Except.ok.inj hconflict)) hreturn
  | error e =>
    have hnone : confirmed τ₁ ≤ 0 := asyncTransaction_confirms
      (statements_composite.createInTransaction (statements_composite.tickets (fun _ => trivial)
        fun _ _ _ _ => trivial) (fun _ _ => trivial) (fun _ => trivial) tenantId key requestHash body
        partitionId) _ _ hbody trivial
    have hrest : τ₂ = [] := by
      cases e with
      | uniqueViolation => exact (Client.Runs.of_pure h₂).1
      | _ => exact (Client.Runs.of_throw h₂).1
    rw [hrest]
    exact hnone

/-- A request that ends in a way in which a COMMIT that raises may end has had no COMMIT confirmed but those
of admission. -/
theorem createNewTicket_confirms {tenantId : String} :
    (createNewTicket rt settings tenantId tenant key requestHash body).Confirms
      (fun r => MayRaise (r.map .response)) (2 + if settings.loadSheddingEnabled then 1 else 0) := by
  by_cases hpartitions : settings.matchmakingPartitions = 0
  · rw [createNewTicket, if_pos hpartitions]
    exact Client.Confirms.throw.mono (Nat.zero_le _)
  · rw [createNewTicket, if_neg hpartitions]
    refine (Client.Confirms.bind admission_confirms fun r => ?_ : Client.Confirms _ (_ + 0) _)
    cases r with
    | some r => exact .pure
    | none => exact createTransaction_confirms

/-- A request whose transaction has raised knows of the commits of its reads at most. -/
theorem createTicket_confirms : (program rt (.createTicket settings xTenantId key body)).Confirms MayRaise
    (readsBefore settings key) := by
  refine .map (f := Answer.response) ?_
  cases xTenantId with
  | none => exact Client.Confirms.pure.mono (Nat.zero_le _)
  | some tenantId =>
    have htenant : (getTenant tenantId).Confirms (fun _ => True) 1 :=
      autocommit_confirms statements_composite.select
    refine (Client.Confirms.bind htenant fun tenant => ?_ : Client.Confirms _ (1 + _) _).mono
      (by rw [readsBefore, Nat.add_assoc])
    cases tenant with
    | none => exact Client.Confirms.pure.mono (Nat.zero_le _)
    | some tenant =>
      cases key with
      | none => exact createNewTicket_confirms.mono (by simp)
      | some k =>
        have hlook : (checkIdempotencyKey k tenantId
            (computeRequestHashFromModel rt body.modelDump)).Confirms (fun _ => True) 1 :=
          autocommit_confirms (statements_composite.fetchStoredResponse _ _ _)
        refine (Client.Confirms.bind hlook fun stored => ?_ : Client.Confirms _ (1 + _) _)
        cases stored with
        | some p => exact Client.Confirms.pure.mono (Nat.zero_le _)
        | none => exact createNewTicket_confirms

end Exchanges

/-! ## Every request of every run -/

/-- The commit adds the new ticket, waiting, and the finalized row of its key if it has one. Other
tickets and keys stay as they are. -/
structure NewTicket.AddedBy (rt : Runtime) (n : NewTicket) (c : Txn Row × Tables) : Prop where
  fresh : c.2.lookup (.tickets n.ticketId) = none
  ticket : (patch c.1.writes c.2).lookup (.tickets n.ticketId) = some (n.ticket c.1.start)
  waiting : (n.ticket c.1.start).status = .waiting
  partition : (n.ticket c.1.start).partitionId = n.partitionId
  otherTickets : ∀ id, id ≠ n.ticketId →
    (patch c.1.writes c.2).lookup (.tickets id) = c.2.lookup (.tickets id)
  freshKey : ∀ k, n.key = some k → c.2.lookup (.idempotencyKeys n.tenantId k) = none
  keyRow : ∀ k, n.key = some k → ∃ row, row.responseStatus = 201 ∧ row.ticketId = some n.ticketId ∧
    row.responseBody = ticketResponse n.ticketId (n.ticket c.1.start) ∧
    (patch c.1.writes c.2).lookup (.idempotencyKeys n.tenantId k) = some row
  otherKeys : ∀ tenantId k, ¬ (tenantId = n.tenantId ∧ n.key = some k) →
    (patch c.1.writes c.2).lookup (.idempotencyKeys tenantId k) = c.2.lookup (.idempotencyKeys tenantId k)

/-- The request has committed one new ticket, and nothing else but reads. -/
def AddsOne (rt : Runtime) (settings : Settings) (xTenantId key : Option String) (body : TicketCreate)
    (cs : List (Txn Row × Tables)) : Prop :=
  ∃ n c reads, cs = c :: reads ∧ NewTicket.RequestedBy rt n settings xTenantId key body ∧
    NewTicket.AddedBy rt n c ∧ ∀ c ∈ reads, LeavesAlone c

/-- The tickets and the keys are as if session `i` had never been. -/
def NoTrace (i : ℕ) (w : ServiceWorld) : Prop :=
  (∀ c ∈ commits i w.log, LeavesAlone c) ∧ ∀ k, IsRequestRow k →
    w.committed.lookup k = (replay ∅ (w.log.filter fun e => e.session ≠ i)).lookup k

/-- A commit with these changes adds one ticket, its index entry and its key, and nothing else. -/
theorem NewTicket.added {n : NewTicket} {c : Txn Row × Tables}
    (h : Changed IsIndexKey (n.changes rt c.1.start) c.2 (patch c.1.writes c.2)) :
    NewTicket.AddedBy rt n c where
  fresh := (h.lookup (.tickets n.ticketId) (fun h => h) (n.dlookup_ticket c.1.start)).1
  ticket := (h.lookup (.tickets n.ticketId) (fun h => h) (n.dlookup_ticket c.1.start)).2
  waiting := rfl
  partition := rfl
  otherTickets id hid := h.frame (.tickets id) (fun h => h)
    (n.dlookup_eq_none c.1.start (fun heq => hid (Key.tickets.inj heq)) fun _ _ heq => by cases heq)
  freshKey k hk := (h.lookup (.idempotencyKeys n.tenantId k) (fun h => h) (n.dlookup_key c.1.start hk)).1
  keyRow k hk := ⟨n.keyRow rt c.1.start, rfl, rfl, rfl,
    (h.lookup (.idempotencyKeys n.tenantId k) (fun h => h) (n.dlookup_key c.1.start hk)).2⟩
  otherKeys tenantId k hother := h.frame (.idempotencyKeys tenantId k) (fun h => h)
    (n.dlookup_eq_none c.1.start (fun heq => by cases heq) fun key hkey heq => by
      cases heq
      exact hother ⟨rfl, hkey⟩)

/-- A legal commit of a request leaves tickets and keys alone, or adds the ticket of the request. -/
theorem Legal.leaves_or_adds {c : Txn Row × Tables}
    (h : Legal rt (.createTicket settings xTenantId key body) c.1 c.2) : LeavesAlone c ∨
      ∃ n, NewTicket.RequestedBy rt n settings xTenantId key body ∧ NewTicket.AddedBy rt n c := by
  obtain ⟨t, b⟩ := c
  cases h with
  | rows h =>
    refine .inl fun k hk => ?_
    have hrow := h k
    cases k <;> first | exact hk.elim | exact hrow
  | create n htenant hkey hbody hpart hknown h =>
    exact .inr ⟨n, ⟨htenant, hkey, hbody, hbody ▸ hpart⟩, NewTicket.added h⟩

section Runs

variable {clock : Time} {st : ServiceState} {e : LogEntry} {born : Tables} {r : Except Exn Answer}

/-- The marks of a request are its commits. -/
theorem commits_eq_marks (hs : (service rt).Reachable (emptyState clock) st) (he : e ∈ st.world.log)
    (hactor : e.actor = .createTicket settings xTenantId key body) :
    commits e.session st.world.log = (marks requestMark e.session st.world.log).filterMap
      RequestMark.commit? := by
  rw [commits, marks, marks, List.filterMap_filterMap]
  refine List.filterMap_congr fun e' he' => ?_
  obtain ⟨hmem, hsession⟩ := List.mem_filter.mp he'
  have hactor' : e'.actor = .createTicket settings xTenantId key body :=
    (hs.same_actor hmem he (by simpa using hsession)).trans hactor
  obtain ⟨j, l, time, ev⟩ := e'
  obtain rfl : l = .createTicket settings xTenantId key body := hactor'
  cases ev <;> rfl

/-- The commits of a request that is answered account for its answer. -/
theorem outcome_of_answer (hs : (service rt).Reachable (emptyState clock) st) (he : e ∈ st.world.log)
    (hactor : e.actor = .createTicket settings xTenantId key body) (hanswer : e.event = .answer born r) :
    CreateOutcome (readsBefore settings key) r (commits e.session st.world.log) := by
  have hcommits : ∀ cs : List (Txn Row × Tables), (cs.map RequestMark.committed).filterMap
      RequestMark.commit? = cs := fun cs => by
    rw [List.filterMap_map]
    exact List.filterMap_some
  have hmark : requestMark e = some (.answered (readsBefore settings key) r) := by
    unfold requestMark
    rw [hactor, hanswer]
  have hmem : RequestMark.answered (readsBefore settings key) r ∈ marks requestMark e.session st.world.log :=
    mem_marks.mpr ⟨e, he, rfl, hmark⟩
  have hfine : RequestFine (marks requestMark e.session st.world.log) :=
    service_fine requestRule_kept hs e.session
  rw [commits_eq_marks hs he hactor]
  generalize marks requestMark e.session st.world.log = ms at hfine hmem
  cases hfine with
  | running h =>
    obtain ⟨_, -, heq⟩ := List.mem_map.mp hmem
    cases heq
  | @ended n r' cs h =>
    rcases List.mem_cons.mp hmem with heq | hmap
    · cases heq
      rw [List.filterMap_cons_none rfl, hcommits]
      exact h
    · obtain ⟨_, -, heq⟩ := List.mem_map.mp hmap
      cases heq

/-- **A rejected request leaves no trace.** In every run, a request for a ticket that is answered 201 has
added exactly one ticket, and one that ends in anything else, all of whose COMMITs that raised were
rolled back, has left the tickets and the keys as if it had never been made. -/
theorem create_all_or_nothing {ρ : ℕ → ServiceTrace} (htr : (service rt).Traced (emptyState clock) st ρ)
    (he : e ∈ st.world.log) (hactor : e.actor = .createTicket settings xTenantId key body)
    (hanswer : e.event = .answer born r) :
    (IsCreated r → AddsOne rt settings xTenantId key body (commits e.session st.world.log)) ∧
      (¬ IsCreated r → RolledBack e.session st.world.log (ρ e.session) → NoTrace e.session st.world) := by
  have hs := htr.reachable
  have hpast := service_past hs
  have houtcome := outcome_of_answer hs he hactor hanswer
  refine ⟨fun hcreated => ?_, fun hrejected hrolled => ?_⟩
  · obtain ⟨c, reads, hcs, hwrites, hreads⟩ := houtcome.created hcreated
    obtain ⟨e', he', hsession, hcommit⟩ := mem_marks.mp (hcs ▸ List.mem_cons_self :
      c ∈ commits e.session st.world.log)
    have hlegal : Legal rt e'.actor c.1 c.2 := hpast.legal he' hcommit
    rw [hs.same_actor he' he hsession, hactor] at hlegal
    obtain ⟨n, hrequest, hadded⟩ := hlegal.leaves_or_adds.resolve_left hwrites
    exact ⟨n, c, reads, hcs, hrequest, hadded, hreads.alone⟩
  · have halone : ∀ c ∈ commits e.session st.world.log, LeavesAlone c := by
      obtain hreads | ⟨hmay, c, reads, hcs, -, hreads⟩ := houtcome.rejected hrejected
      · exact hreads.alone
      · -- the session would know of more commits than its program can confirm
        obtain ⟨-, w₀, w₁, T₁, -, hexec, -⟩ :=
          (service_executed requestRule_kept htr).ended e he born r hanswer
        rw [hactor] at hexec
        have hconfirmed : confirmed (ρ e.session) ≤ readsBefore settings key :=
          createTicket_confirms _ _ hexec.runs hmay
        have hlength : (commits e.session st.world.log).length = reads.length + 1 := by
          rw [hcs, List.length_cons]
        have hreadsLength := hreads.length
        have hknown : (commits e.session st.world.log).length ≤ confirmed (ρ e.session) := hrolled
        omega
    exact ⟨halone, hpast.history.chained.replay_without fun c hc k hk => halone c hc k hk⟩

end Runs

/-- Session `i` answers a request for a ticket with the status. -/
def answersWith (i status : ℕ) (e : LogEntry) : Bool :=
  e.session = i && match e.actor, e.event with
    | .createTicket .., .answer _ (.ok (.response x)) => x.status = status
    | _, _ => false

/-- The log of a finished run shows which requests were answered with a status. -/
theorem exists_of_answersWith {i status : ℕ} {log : List LogEntry}
    (h : log.any (answersWith i status) = true) : ∃ settings xTenantId key body born x, ∃ e ∈ log,
      e.session = i ∧ e.actor = .createTicket settings xTenantId key body ∧
      e.event = .answer born (.ok (.response x)) ∧ x.status = status := by
  obtain ⟨e, he, hanswers⟩ := List.any_eq_true.mp h
  obtain ⟨hsession, hanswers⟩ := (Bool.and_eq_true _ _).mp hanswers
  split at hanswers
  · next settings xTenantId key body born x hactor hanswer =>
    exact ⟨settings, xTenantId, key, body, born, x, e, he, of_decide_eq_true hsession, hactor, hanswer,
      of_decide_eq_true hanswers⟩
  · cases hanswers

/-- A player gets a ticket, and then asks for another one in the same queue, with a key. -/
def rejectedScript : List (System.Move Reply Exn Actor) :=
  runs 0 (.migrate sampleSettings) ++ runs 1 (sampleRequest none "p1") ++
    runs 2 (sampleRequest (some "k") "p1")

/-- The state after both requests of one player. -/
def rejectedState : ServiceState := (service sampleRuntime).after rejectedScript (emptyState 0)

/-- The first request adds its ticket; the second one is answered 409 and leaves no trace of itself. -/
theorem create_all_or_nothing_sample : rejectedState.world.log.any (answersWith 1 201) = true ∧
    rejectedState.world.log.any (answersWith 2 409) = true ∧
    (∃ settings xTenantId key body,
      AddsOne sampleRuntime settings xTenantId key body (commits 1 rejectedState.world.log)) ∧
    NoTrace 2 rejectedState.world := by
  obtain ⟨ρ, htr, hknown⟩ : (service sampleRuntime).AllKnown (emptyState 0) rejectedState :=
    System.AllKnown.after rfl rfl
  have hcreated : rejectedState.world.log.any (answersWith 1 201) = true := by decide +kernel
  have hrejected : rejectedState.world.log.any (answersWith 2 409) = true := by decide +kernel
  refine ⟨hcreated, hrejected, ?_, ?_⟩
  · obtain ⟨settings, xTenantId, key, body, born, x, e, he, hsession, hactor, hanswer, hstatus⟩ :=
      exists_of_answersWith hcreated
    rw [← hsession]
    exact ⟨settings, xTenantId, key, body,
      (create_all_or_nothing htr he hactor hanswer).1 ⟨x, rfl, hstatus⟩⟩
  · obtain ⟨settings, xTenantId, key, body, born, x, e, he, hsession, hactor, hanswer, hstatus⟩ :=
      exists_of_answersWith hrejected
    rw [← hsession]
    refine (create_all_or_nothing htr he hactor hanswer).2 ?_ (hknown e.session)
    rintro ⟨x', hx', hstatus'⟩
    cases hx'
    cases hstatus.symm.trans hstatus'

end Matchmaking
