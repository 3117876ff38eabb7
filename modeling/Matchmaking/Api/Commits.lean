import Matchmaking.CommitSpec

/-!
# The commits of a ticket request

A request commits nothing until its checks are passed, and then one ticket, with the row of its key
if it carries one. The answer to a request with a key agrees with the row of the key.
-/

namespace Matchmaking

open ReadCommitted ReadCommitted.Triple

variable {rt : Runtime} {i : ℕ} {settings : Settings} {xTenantId key : Option String}
  {tenantId : String} {body : TicketCreate} {born : Tables}

/-! ## Reading -/

/-- Transactions that only read, of actors that may write the index. -/
theorem commitSpec_reads_of {l : Actor} (hindex : ∀ now tenantId playerId region queueName v v',
    l.rows now (.uqActiveTicket tenantId playerId region queueName) v v') :
    (commitSpec rt).Commits i l fun w t => ∃ now σs, t.Has IsIndexKey now [] σs w.committed := by
  rintro w t hfacts hstart habort hknown ⟨now, σs, hhas⟩
  exact commitSpec_unchanged hindex w t hfacts hstart habort hknown fun k hk => hhas.unwritten k hk rfl

/-- A transaction that has written nothing may always be committed: it adds no ticket and finalizes no key. -/
theorem commitSpec_reads : (commitSpec rt).Commits i (.createTicket settings xTenantId key body)
    fun w t => ∃ now σs, t.Has IsIndexKey now [] σs w.committed :=
  commitSpec_reads_of fun _ _ _ _ _ _ _ => trivial

/-- Queries outside a transaction. -/
theorem query_idle {l : Actor} {α : Type} {f : Time → Tables → α}
    (hindex : ∀ now tenantId playerId region queueName v v',
      l.rows now (.uqActiveTicket tenantId playerId region queueName) v v') :
    Triple (commitSpec rt) i l Idle (autocommit (perform (.select f))) (fun _ => Idle) anything :=
  ((Triple.autoselect commitSpec_logs (commitSpec_reads_of hindex) .trivial (fun _ => .trivial)
    fun _ _ _ _ _ => trivial).pre fun _ _ h => ⟨h, trivial⟩).post fun _ _ _ h => h.1

theorem shows_nil {s σ : Tables} (h : Shows IsIndexKey [] s σ) {k : Key} (hk : ¬ IsIndexKey k) :
    σ.lookup k = s.lookup k := h k hk

/-- That nothing is lost since the start of a request is a fact that other sessions keep. -/
theorem persist_lasting {l : Actor} (born : Tables) :
    (commitSpec rt).Lasting i l fun w => Persist born w.committed :=
  commitSpec_lasting (Persist born) fun _ _ hs h => h.trans hs

/-- Tenants are never deleted, so a tenant that was found stays known. -/
theorem tenantKnown_lasting {l : Actor} (tenantId : String) : (commitSpec rt).Lasting i l
    fun w => (w.committed.lookup (.tenants tenantId)).isSome = true :=
  commitSpec_lasting (fun s => (s.lookup (.tenants tenantId)).isSome = true) fun _ _ h => h.tenant

/-- The tenant of a request is known; a tenant that is not had no key when the request came in. -/
theorem getTenant_triple (hborn : KeysKnown born) :
    Triple (commitSpec rt) i (.createTicket settings xTenantId key body)
      (fun w T => Idle w T ∧ Persist born w.committed) (getTenant tenantId)
      (fun tenant w T => Idle w T ∧
        (tenant.isSome = true → (w.committed.lookup (.tenants tenantId)).isSome = true) ∧
        (tenant = none → ∀ k, born.lookup (.idempotencyKeys tenantId k) = none)) anything := by
  refine Triple.autoselect commitSpec_logs commitSpec_reads (persist_lasting born)
    (fun tenant => ?_) ?_
  · exact commitSpec_lasting (fun s =>
      (tenant.isSome = true → (s.lookup (.tenants tenantId)).isSome = true) ∧
      (tenant = none → ∀ k, born.lookup (.idempotencyKeys tenantId k) = none))
      fun _ _ hs h => ⟨fun ht => hs.tenant (h.1 ht), h.2⟩
  · intro now w σ hpersist hshows
    rw [shows_nil hshows (show ¬ IsIndexKey (.tenants tenantId) from id)]
    refine ⟨id, fun hnone k => ?_⟩
    cases hrow : born.lookup (.idempotencyKeys tenantId k) with
    | none => rfl
    | some row =>
      have hknown := hpersist.tenant (hborn tenantId k row hrow)
      rw [hnone] at hknown
      cases hknown

/-! ## Admission -/

section Admission

/-- An answer that turns the request down: neither a replay nor a new ticket. -/
def IsRejection (r : Response) : Prop := r.status ≠ 200 ∧ r.status ≠ 201

/-- The 429 of a tenant limit is a rejection: it is not 201, and shows no ticket. -/
theorem tenantRateLimitResponse_isRejection (tenantId : String) (seconds : ℤ) :
    IsRejection (tenantRateLimitResponse tenantId seconds) :=
  ⟨(by decide : (429 : ℕ) ≠ 200), (by decide : (429 : ℕ) ≠ 201)⟩

theorem partitionOverloadedResponse_isRejection : IsRejection partitionOverloadedResponse :=
  ⟨(by decide : (503 : ℕ) ≠ 200), (by decide : (503 : ℕ) ≠ 201)⟩

/-- A check leaves nothing behind; it turns the request down or says nothing. -/
def Check : Option Response → Condition := fun r w T =>
  (∀ x, r = some x → IsRejection x) ∧ Idle w T

/-- A check that lets the request pass leaves the session idle. -/
theorem Check.none {w : ServiceWorld} {T : Option (Txn Row)} (h : Idle w T) : Check none w T :=
  ⟨fun _ hx => (by cases hx), h⟩

/-- So does a check that turns it down. -/
theorem Check.some {x : Response} (hx : IsRejection x) {w : ServiceWorld} {T : Option (Txn Row)}
    (h : Idle w T) : Check (some x) w T :=
  ⟨fun _ hx' => Option.some.inj hx' ▸ hx, h⟩

/-- A query of its own leaves the session idle. -/
theorem query_triple {α : Type} {f : Time → Tables → α} :
    Triple (commitSpec rt) i (.createTicket settings xTenantId key body) Idle
      (autocommit (perform (.select f))) (fun _ => Idle) anything :=
  query_idle fun _ _ _ _ _ _ _ => trivial

/-- The rate limit answers by Redis, without a transaction. -/
theorem checkRateLimit_triple {l : Actor} {tenant : Tenant} :
    Triple (commitSpec rt) i l Idle (checkRateLimit tenantId tenant) Check anything := by
  have hseconds : Triple (commitSpec rt) i l Idle unixSeconds (fun _ => Idle) anything :=
    .bind (Triple.ask_ok commitSpec_logs Idle.stable Idle.unlogged) fun _ => .pure _ fun _ _ h => h
  exact .bind hseconds fun _ => .bind (Triple.ask_ok commitSpec_logs Idle.stable Idle.unlogged)
    fun _ => .ite (fun _ => .bind hseconds fun _ => .pure _ fun _ _ =>
      .some (tenantRateLimitResponse_isRejection ..)) fun _ => .pure _ fun _ _ => .none

/-- The quota is counted in a transaction of its own, which is over when the check returns. -/
theorem checkTenantQuota_triple {tenant : Tenant} :
    Triple (commitSpec rt) i (.createTicket settings xTenantId key body) Idle
      (checkTenantQuota tenantId tenant) Check anything := by
  refine .bind query_triple fun n => .pure _ fun _ _ h => ?_
  split
  · exact .none h
  · exact .some (tenantRateLimitResponse_isRejection ..) h

/-- The depth of the partition is counted in the same way. -/
theorem checkPartitionDepth_triple {tenant : Tenant} {partitionId : ℕ} :
    Triple (commitSpec rt) i (.createTicket settings xTenantId key body) Idle
      (checkPartitionDepth tenant partitionId) Check anything := by
  refine .bind query_triple fun n => .pure _ fun _ _ h => ?_
  split
  · exact .none h
  · exact .some partitionOverloadedResponse_isRejection h

theorem checkDbLoadShedding_triple {settings' : Settings} :
    Triple (commitSpec rt) i (.createTicket settings xTenantId key body) Idle
      (checkDbLoadShedding settings') Check anything := by
  refine .ite (fun _ => .pure _ fun _ _ => .none) fun _ => .bind (Triple.ask_ok commitSpec_logs
    Idle.stable Idle.unlogged) fun _ => .bind query_triple fun _ => .bind (Triple.ask_ok
    commitSpec_logs Idle.stable Idle.unlogged) fun _ => .pure _ fun _ _ h => ?_
  split
  · exact .some partitionOverloadedResponse_isRejection h
  · exact .none h

/-- All checks together either let the request pass or turn it down, and leave the session idle. -/
theorem admission_triple {settings' : Settings} {tenant : Tenant} {partitionId : ℕ} :
    Triple (commitSpec rt) i (.createTicket settings xTenantId key body) Idle
      (admission settings' tenantId tenant partitionId) Check anything := by
  have hreject : ∀ (reason : String) (x : Response),
      Triple (commitSpec rt) i (.createTicket settings xTenantId key body) (Check (some x)) (do
        record (.ticketsRejected tenantId reason)
        pure (some x)) Check anything := fun _ x => .pure_pre fun hx =>
    .bind (Triple.record commitSpec_logs Idle.stable Idle.unlogged) fun _ => .pure _ fun _ _ h =>
      ⟨hx, h⟩
  refine .bind checkRateLimit_triple ?_
  rintro (_ | x)
  swap
  · exact hreject "rate_limit" x
  refine .bind (checkTenantQuota_triple.pre fun _ _ h => h.2) ?_
  rintro (_ | x)
  swap
  · exact hreject "tenant_quota" x
  refine .bind (checkPartitionDepth_triple.pre fun _ _ h => h.2) ?_
  rintro (_ | x)
  swap
  · exact hreject "partition_overload" x
  refine .bind (checkDbLoadShedding_triple.pre fun _ _ h => h.2) ?_
  rintro (_ | x)
  · exact .pure _ fun _ _ h => h
  · exact hreject "load_shedding" x

end Admission

/-! ## The insert -/

section Insert

variable {l : Actor} {now : Time} {ps : Changes Row} {σs : List Tables} {partitionId : ℕ}

/-- The new ticket is among the pending changes after the insert, with the id that the database has given
it. -/
theorem insertTicket_triple (hps : ∀ id, ps.dlookup (.tickets id) = none) :
    Triple (commitSpec rt) i l (Pending now ps σs) (insertTicket tenantId body partitionId)
      (fun p w T => p.2 = newTicket tenantId body partitionId now ∧
        Pending now (⟨.tickets p.1, (none, some (newTicket tenantId body partitionId now))⟩ :: ps) σs
          w T) anything := by
  have hcheck : ∀ s, Triple (commitSpec rt) i l (Pending now ps σs) (checkText s)
      (fun _ => Pending now ps σs) anything := fun s =>
    .ite (fun _ => .throw _ fun _ _ _ => trivial) fun _ => .pure _ fun _ _ h => h
  have hint : ∀ n, Triple (commitSpec rt) i l (Pending now ps σs) (checkInt4 n)
      (fun _ => Pending now ps σs) anything := fun n =>
    .ite (fun _ => .pure _ fun _ _ h => h) fun _ => .throw _ fun _ _ _ => trivial
  refine .bind (hcheck _) fun _ => .bind (hcheck _) fun _ => .bind (hcheck _) fun _ =>
    .bind (hint body.skill) fun _ => .bind (hint partitionId) fun _ => .bind (Triple.ask_ok
    commitSpec_logs Stage.stable Pending.unlogged) fun ticketId =>
    .bind (Triple.insertRow (fun h => h) (hps ticketId)) fun row =>
    .pure_pre fun hrow => ?_
  subst hrow
  exact .bind Triple.indexTicket fun _ => .pure _ fun _ _ h => ⟨rfl, h⟩

/-- All that is pending is a new ticket, with its key if there is one, and `r` describes it. -/
def Inserted (rt : Runtime) (tenantId : String) (key : Option String) (body : TicketCreate)
    (partitionId : ℕ) (r : Response) : Condition := fun w T =>
  ∃ ticketId now σs,
    r = ⟨201, excludeNone (ticketResponse ticketId (newTicket tenantId body partitionId now))⟩ ∧
      Pending now ((⟨ticketId, tenantId, key, body, partitionId⟩ : NewTicket).changes rt now) σs w T

/-- What the transaction has written is not visible to others, so they cannot undo it. -/
theorem Inserted.stable {r : Response} : Stable (commitSpec rt) i l
    (Inserted rt tenantId key body partitionId r) :=
  .exists fun _ => .exists fun _ => .exists fun _ => Stable.and (.own fun _ => _) Stage.stable

/-- Without a key the transaction writes the ticket only, and the response shows it. -/
theorem insertAndFinalize_none :
    Triple (commitSpec rt) i l (Pending now [] σs) (insertAndFinalize tenantId none body partitionId)
      (Inserted rt tenantId none body partitionId) anything := by
  refine .bind (insertTicket_triple fun _ => rfl) ?_
  rintro ⟨ticketId, row⟩
  refine .pure_pre fun hrow => ?_
  subst hrow
  exact .bind (Triple.record commitSpec_logs Stage.stable Pending.unlogged) fun _ => .bind
    (Triple.record commitSpec_logs Stage.stable Pending.unlogged) fun _ => .pure _ fun _ _ h =>
      ⟨ticketId, now, σs, rfl, h⟩

/-- The row that claims a key, with a placeholder for the response until the ticket is there. -/
def reservedKey (requestHash : String) (now : Time) : IdempotencyKey where
  requestHash := requestHash
  responseStatus := 0
  responseBody := .obj []
  createdAt := now

/-- The reserved row, written by the same transaction, becomes the finalized one. -/
theorem finalizeIdempotencyKey_triple {key : String} {old : Option IdempotencyKey}
    {row : IdempotencyKey} {status : ℕ} {responseBody : Json} {ticketId : UUID}
    (hps : ps.dlookup (.idempotencyKeys tenantId key) = some (old, some row)) :
    Triple (commitSpec rt) i l (Pending now ps σs)
      (finalizeIdempotencyKey key tenantId status responseBody ticketId)
      (fun _ w T => ∃ σ, Pending now (⟨.idempotencyKeys tenantId key,
        (old, some (row.finalized status responseBody ticketId))⟩ :: ps) (σ :: σs) w T) anything :=
  .bind (Triple.updateByKey_own (.idempotencyKeys tenantId key) (fun h => h) hps) fun _ =>
    .pure _ fun _ _ h => h

/-- With a key the transaction writes the ticket and the finalized key, and the response shows the ticket. -/
theorem insertAndFinalize_some {key : String} :
    Triple (commitSpec rt) i l
      (Pending now [⟨.idempotencyKeys tenantId key,
        (none, some (reservedKey (computeRequestHashFromModel rt body.modelDump) now))⟩] σs)
      (insertAndFinalize tenantId (some key) body partitionId)
      (Inserted rt tenantId (some key) body partitionId) anything := by
  refine .bind (insertTicket_triple fun _ => by simp [List.dlookup_cons_ne]) ?_
  rintro ⟨ticketId, row⟩
  refine .pure_pre fun hrow => ?_
  subst hrow
  have hkey : List.dlookup (.idempotencyKeys tenantId key) ([
      ⟨.tickets ticketId, (none, some (newTicket tenantId body partitionId now))⟩,
      ⟨.idempotencyKeys tenantId key, (none, some (reservedKey (computeRequestHashFromModel rt
        body.modelDump) now))⟩] : Changes Row) = some (none, some (reservedKey _ now)) :=
    (List.dlookup_cons_ne _ _ (by simp)).trans (List.dlookup_cons_eq ..)
  refine .bind (Triple.record commitSpec_logs Stage.stable Pending.unlogged) fun _ => .bind
    (Triple.record commitSpec_logs Stage.stable Pending.unlogged) fun _ => .bind
    (finalizeIdempotencyKey_triple hkey) fun _ => .pure _ ?_
  rintro w T ⟨σ, t, rfl, hhas⟩
  -- the reserved row is overwritten by the finalized one
  exact ⟨ticketId, now, σ :: σs, rfl, t, rfl, hhas.congr fun k =>
    (dlookup_append_of_subset (by simp [List.keys, NewTicket.changes]) k).symm⟩

end Insert

/-! ## Replays -/

/-- What the look at a key found, where `born` is an older store. -/
structure Found (rt : Runtime) (tenantId key : String) (body : TicketCreate) (born : Tables)
    (res : Option (Json × Bool)) (s : Tables) : Prop where
  some : ∀ p, res = some p → ∃ row, s.lookup (.idempotencyKeys tenantId key) = some row ∧
    p = (row.responseBody, decide (row.requestHash = computeRequestHashFromModel rt body.modelDump))
  none : res = none → born.lookup (.idempotencyKeys tenantId key) = none

/-- A stored response is final, so what was found stays true. -/
theorem found_lasting {l : Actor} (tenantId key : String) (body : TicketCreate) (born : Tables)
    (res : Option (Json × Bool)) :
    (commitSpec rt).Lasting i l fun w => Found rt tenantId key body born res w.committed :=
  commitSpec_lasting (Found rt tenantId key body born res) fun _ _ hs h =>
    ⟨fun p hp => (h.some p hp).imp fun _ hrow => ⟨hs.key hrow.1, hrow.2⟩, h.none⟩

/-- The stored response that is found is that of the key's row, with the comparison of the hashes. -/
theorem fetchStoredResponse_triple {l : Actor} {now : Time} {σs : List Tables} {key : String} :
    Triple (commitSpec rt) i l (fun w T => Pending now [] σs w T ∧ Persist born w.committed)
      (fetchStoredResponse key tenantId (computeRequestHashFromModel rt body.modelDump))
      (fun res w T => (∃ σs, Pending now [] σs w T) ∧ Found rt tenantId key body born res w.committed)
      anything := by
  have hlook : Triple (commitSpec rt) i l
      (fun w T => Pending now [] σs w T ∧ Persist born w.committed)
      (perform (.select fun _ s => s.lookup (.idempotencyKeys tenantId key)))
      (fun row w T => (∃ σs, Pending now [] σs w T) ∧
        w.committed.lookup (.idempotencyKeys tenantId key) = row ∧ Persist born w.committed)
      anything := by
    refine (keep (persist_lasting born) stage_select).post ?_
    rintro row w T ⟨⟨σ, rfl, -, hshows, hstage⟩, hborn⟩
    exact ⟨⟨_, hstage⟩, (shows_nil hshows (show ¬ IsIndexKey (.idempotencyKeys tenantId key)
      from id)).symm, hborn⟩
  refine .bind hlook ?_
  rintro (_ | row)
  · refine .pure _ fun w T h => ⟨h.1, fun p hp => (by cases hp), fun _ => ?_⟩
    cases hrow : born.lookup (.idempotencyKeys tenantId key) with
    | none => rfl
    | some row => cases h.2.1.symm.trans (h.2.2.key hrow)
  · refine .pure _ fun w T h => ⟨h.1, fun p hp => ⟨row, h.2.1, (Option.some.inj hp).symm⟩, fun hn => ?_⟩
    cases hn

/-! ## The answer -/

/-- If the request carries a key, its answer agrees with the row of the key. -/
def Settled (rt : Runtime) (tenantId : String) (key : Option String) (body : TicketCreate)
    (born : Tables) (r : Response) (s : Tables) : Prop :=
  ∀ k, key = some k → AnswerOf rt tenantId k body born r s

/-- What a request has settled others do not undo. -/
theorem settled_lasting {l : Actor} (tenantId : String) (key : Option String) (body : TicketCreate)
    (born : Tables) (r : Response) :
    (commitSpec rt).Lasting i l fun w => Settled rt tenantId key body born r w.committed :=
  commitSpec_lasting (Settled rt tenantId key body born r) fun _ _ hs h k hk => (h k hk).persist hs

/-- An answer that repeats a stored response, or reports a conflict. -/
theorem AnswerOf.replay {key : String} {s : Tables} {row : IdempotencyKey}
    (hrow : s.lookup (.idempotencyKeys tenantId key) = some row) (hborn : Persist born s) :
    AnswerOf rt tenantId key body born (replayResponse row.responseBody
      (decide (row.requestHash = computeRequestHashFromModel rt body.modelDump))) s := by
  by_cases hhash : row.requestHash = computeRequestHashFromModel rt body.modelDump
  · simp only [hhash, decide_true, replayResponse, if_true]
    refine ⟨fun h => (by cases h), fun _ => ⟨row, hrow, hhash, rfl⟩, fun row' hrow' _ => ?_⟩
    rw [Option.some.inj (hrow.symm.trans (hborn.key hrow'))]
  · simp only [hhash, decide_false, replayResponse, Bool.false_eq_true, if_false]
    refine ⟨fun h => (by cases h), fun h => (by cases h), fun row' hrow' hhash' => ?_⟩
    rw [← Option.some.inj (hrow.symm.trans (hborn.key hrow'))] at hhash'
    exact (hhash hhash').elim

/-- A request that is turned down, when its key was not taken yet. -/
theorem AnswerOf.rejection {key : String} {s : Tables} {r : Response} (hr : IsRejection r)
    (hborn : born.lookup (.idempotencyKeys tenantId key) = none) :
    AnswerOf rt tenantId key body born r s :=
  ⟨fun h => (hr.2 h).elim, fun h => (hr.1 h).elim, fun _ hrow => by cases hborn.symm.trans hrow⟩

/-- A rejection settles a request if its key was new: the key is still without a row of this request. -/
theorem Settled.rejection {s : Tables} {r : Response} (hr : IsRejection r)
    (hnew : ∀ k, key = some k → born.lookup (.idempotencyKeys tenantId k) = none) :
    Settled rt tenantId key body born r s := fun k hk => .rejection hr (hnew k hk)

/-! ## The transaction -/

section Transaction

variable (hnew : ∀ k, key = some k → born.lookup (.idempotencyKeys tenantId k) = none)

/-- What a request knows about the world when its transaction starts. -/
abbrev Ready (tenantId : String) (born : Tables) (w : ServiceWorld) : Prop :=
  Persist born w.committed ∧ (w.committed.lookup (.tenants tenantId)).isSome = true

/-- A request that may start may start later as well. -/
theorem ready_lasting {l : Actor} (tenantId : String) (born : Tables) :
    (commitSpec rt).Lasting i l (Ready tenantId born) :=
  (persist_lasting born).and (tenantKnown_lasting tenantId)

/-- Before the commit: a new ticket is pending, or nothing is and the answer is settled. -/
def Finished (rt : Runtime) (tenantId : String) (key : Option String) (body : TicketCreate)
    (partitionId : ℕ) (born : Tables) (r : Response) : Condition := fun w T =>
  Inserted rt tenantId key body partitionId r w T ∨
    Clean IsIndexKey w T ∧ Settled rt tenantId key body born r w.committed

/-- Either the key has a row already, or the reserved row is among the pending changes. -/
theorem reserveIdempotencyKey_triple {l : Actor} {now : Time} {k requestHash : String} :
    Triple (commitSpec rt) i l (Pending now [] []) (reserveIdempotencyKey k tenantId requestHash)
      (fun b w T => b = false ∧ Pending now [] [] w T ∨ b = true ∧ Pending now
        [⟨.idempotencyKeys tenantId k, (none, some (reservedKey requestHash now))⟩] [] w T)
      anything := by
  refine .bind (Triple.insertRowIfAbsent (.idempotencyKeys tenantId k) (fun h => h) rfl) fun row =>
    .pure _ ?_
  rintro w T (⟨rfl, h⟩ | ⟨rfl, h⟩)
  · exact .inl ⟨rfl, h⟩
  · exact .inr ⟨rfl, h⟩

include hnew in
/-- Only an answer 201 leaves a new ticket. -/
theorem createInTransaction_triple {l : Actor} {now : Time} {requestHash : String} {partitionId : ℕ}
    (hhash : ∀ k, key = some k → requestHash = computeRequestHashFromModel rt body.modelDump) :
    Triple (commitSpec rt) i l (fun w T => Pending now [] [] w T ∧ Persist born w.committed)
      (createInTransaction tenantId key requestHash body partitionId)
      (fun r w T => Finished rt tenantId key body partitionId born r w T ∧
        (r.status = 201 → Inserted rt tenantId key body partitionId r w T)) anything := by
  cases key with
  | none => exact (insertAndFinalize_none.pre fun _ _ h => h.1).post fun _ _ _ h => ⟨.inl h, fun _ => h⟩
  | some k =>
    obtain rfl := hhash k rfl
    have hinsert := @insertAndFinalize_some rt i tenantId body l now [] partitionId k
    have hfetch := @fetchStoredResponse_triple rt i tenantId body born l now [] k
    refine .bind (keep (persist_lasting born) reserveIdempotencyKey_triple) fun reserved =>
      .ite (fun hreserved => (hinsert.pre ?_).post fun _ _ _ h => ⟨.inl h, fun _ => h⟩) fun hreserved =>
      .bind (any (retain (persist_lasting born) (hfetch.pre ?_))) ?_
    · rintro w T ⟨⟨rfl, -⟩ | ⟨-, h⟩, -⟩
      · cases hreserved
      · exact h
    · rintro w T ⟨⟨-, h⟩ | ⟨rfl, -⟩, hborn⟩
      · exact ⟨h, hborn⟩
      · cases hreserved rfl
    · rintro (_ | ⟨storedResponse, hashMatched⟩)
      · exact .pure _ fun w T h => ⟨.inr ⟨h.1.1.elim fun _ h => h.clean, .rejection
          ⟨(by decide : (409 : ℕ) ≠ 200), (by decide : (409 : ℕ) ≠ 201)⟩ hnew⟩, fun h => (by cases h)⟩
      · refine .pure _ fun w T h => ⟨.inr ⟨h.1.1.elim fun _ h => h.clean, fun k' hk' => ?_⟩,
          fun h => by cases hashMatched <;> cases h⟩
        obtain rfl := Option.some.inj hk'
        obtain ⟨row, hrow, hp⟩ := h.1.2.some _ rfl
        obtain ⟨rfl, rfl⟩ := Prod.mk.inj hp
        exact .replay hrow h.2

include hnew in
/-- The commit of a request settles it: its ticket and its key are there, or nothing was written. -/
theorem commit_finished {r : Response} :
    Triple (commitSpec rt) i (.createTicket settings (some tenantId) key body)
      (fun w T => Finished rt tenantId key body (computePartitionId rt tenantId body.region
        body.queueName settings.matchmakingPartitions) born r w T ∧ Ready tenantId born w)
      (perform .commit) (fun _ w _ => Settled rt tenantId key body born r w.committed)
      fun _ => Idle := by
  have hinserted : Triple (commitSpec rt) i (.createTicket settings (some tenantId) key body)
      (fun w T => Inserted rt tenantId key body (computePartitionId rt tenantId body.region
        body.queueName settings.matchmakingPartitions) r w T ∧ Ready tenantId born w)
      (perform .commit) (fun _ w _ => Settled rt tenantId key body born r w.committed)
      fun _ => Idle := by
    refine (stage_commit_then (Inserted.stable.and (ready_lasting tenantId born).stable)
      (fun _ _ _ h => h) (commitSpec_commits ?_) ?_).post fun _ _ _ h => h.2
    · rintro w t - ⟨⟨ticketId, now, σs, -, t', ⟨⟩, hhas⟩, -, hknown⟩
      obtain rfl := hhas.start
      exact .create ⟨ticketId, tenantId, key, body, _⟩ rfl rfl rfl rfl hknown hhas.changed
    · rintro w T - ⟨⟨ticketId, now, σs, rfl, hpending⟩, -⟩ k hk
      have hrow := Stage.committed hpending i (.createTicket settings (some tenantId) key body)
        (.idempotencyKeys tenantId k) (fun h => h)
        (NewTicket.dlookup_key ⟨ticketId, tenantId, key, body, _⟩ now hk)
      refine ⟨fun _ => ⟨_, hrow, rfl, rfl⟩, fun h => (by cases h), fun row hborn => ?_⟩
      cases (hnew k hk).symm.trans hborn
  have hindex : ∀ now tenantId' playerId region queueName v v',
      (Actor.createTicket settings (some tenantId) key body).rows now
        (.uqActiveTicket tenantId' playerId region queueName) v v' := fun _ _ _ _ _ _ _ => trivial
  have hclean := (frame (settled_lasting tenantId key body born r) (stage_commit Clean.stable
    (fun _ t _ h k hk => h t rfl k hk) (@commitSpec_unchanged rt i _ hindex))).conseq
    (fun _ _ h => h) (fun _ w _ (h : _ ∧ Settled rt tenantId key body born r w.committed) => h.2)
    fun _ _ _ h => h.1
  refine (or_pre hinserted hclean).pre ?_
  rintro w T ⟨h | h, hready⟩
  · exact .inl ⟨h, hready⟩
  · exact .inr h

end Transaction

/-! ## The endpoint -/

section Endpoint

variable {tenant : Tenant}

/-- A request that finds no stored response ends settled, by a ticket, by the response of a concurrent request
with its key, or by a rejection. -/
theorem createNewTicket_triple {requestHash : String}
    (hnew : ∀ k, key = some k → born.lookup (.idempotencyKeys tenantId k) = none)
    (hhash : ∀ k, key = some k → requestHash = computeRequestHashFromModel rt body.modelDump) :
    Triple (commitSpec rt) i (.createTicket settings (some tenantId) key body)
      (fun w T => Idle w T ∧ Ready tenantId born w)
      (createNewTicket rt settings tenantId tenant key requestHash body)
      (fun r w _ => Settled rt tenantId key body born r w.committed) anything := by
  refine .ite (fun _ => .throw _ fun _ _ _ => trivial) fun _ =>
    .bind (keep (ready_lasting tenantId born) admission_triple) ?_
  rintro (_ | rejection)
  swap
  · exact .pure _ fun _ _ h => .rejection (h.1.1 rejection rfl) hnew
  have hready := @ready_lasting rt i (.createTicket settings (some tenantId) key body) tenantId born
  have htransaction := Triple.asyncTransaction commitSpec_logs hready
    (fun now => (any (retain hready (((createInTransaction_triple hnew hhash).post
      fun _ _ _ h => h.1).pre fun _ _ h => ⟨h.1, h.2.1⟩)))) fun r => commit_finished hnew
  refine .bind (Triple.attempt (htransaction.pre fun _ _ h => ⟨h.1.2, h.2⟩)) ?_
  rintro (e | response)
  · cases e with
    | uniqueViolation =>
      exact .pure _ fun _ _ _ => .rejection
        ⟨(by decide : (409 : ℕ) ≠ 200), (by decide : (409 : ℕ) ≠ 201)⟩ hnew
    | _ => exact .throw _ fun _ _ _ => trivial
  · exact .pure _ fun _ _ h => h

/-- A request whose tenant is known ends settled. -/
theorem createTicket_triple :
    Triple (commitSpec rt) i (.createTicket settings (some tenantId) key body)
      (fun w T => Idle w T ∧ Ready tenantId born w)
      (createTicket rt settings key body tenantId tenant)
      (fun r w _ => Settled rt tenantId key body born r w.committed) anything := by
  cases key with
  | none => exact createNewTicket_triple (fun _ hk => by cases hk) fun _ hk => by cases hk
  | some k =>
    have hcheck : Triple (commitSpec rt) i (.createTicket settings (some tenantId) (some k) body)
        (fun w T => Idle w T ∧ Ready tenantId born w)
        (checkIdempotencyKey k tenantId (computeRequestHashFromModel rt body.modelDump))
        (fun res w T => (Idle w T ∧ Found rt tenantId k body born res w.committed) ∧
          Ready tenantId born w) anything :=
      any (retain (ready_lasting tenantId born) (Triple.autocommit_read commitSpec_logs
        commitSpec_reads (ready_lasting tenantId born) (found_lasting tenantId k body born)
        fun now => fetchStoredResponse_triple.pre fun _ _ h => ⟨h.1, h.2.1⟩))
    refine .bind hcheck ?_
    rintro (_ | ⟨storedResponse, hashMatched⟩)
    · refine pre (.pure_pre fun hnew => createNewTicket_triple ?_ fun _ _ => rfl)
        fun w T h => ⟨h.1.2.none rfl, h.1.1, h.2⟩
      intro k' hk'
      rwa [← Option.some.inj hk']
    · refine .pure _ fun w T h k' hk' => ?_
      obtain rfl := Option.some.inj hk'
      obtain ⟨row, hrow, hp⟩ := h.1.2.some _ rfl
      obtain ⟨rfl, rfl⟩ := Prod.mk.inj hp
      exact .replay hrow h.2.1

/-- The keys of reachable states are finalized, each with its ticket. -/
theorem keysKnown_of_facts {w : ServiceWorld} (h : (commitSpec rt).facts w) : KeysKnown w.committed :=
  h.2.chained.invariant (fun _ _ _ h => by cases h) fun e he t b hc hb =>
    (h.1.legal e he t b hc).keysKnown hb

/-- The same of the whole request, from the look-up of its tenant on. -/
theorem createTicket_request (hborn : KeysKnown born) :
    Triple (commitSpec rt) i (.createTicket settings (some tenantId) key body)
      (fun w T => Idle w T ∧ Persist born w.committed)
      (withTenant (some tenantId) (createTicket rt settings key body))
      (fun r w _ => Settled rt tenantId key body born r w.committed) anything := by
  refine .bind (any (retain (persist_lasting born) (getTenant_triple hborn))) ?_
  rintro (_ | tenant)
  · exact .pure _ fun w T h => .rejection
      ⟨(by decide : (403 : ℕ) ≠ 200), (by decide : (403 : ℕ) ≠ 201)⟩ fun k _ => h.1.2.2 rfl k
  · exact createTicket_triple.pre fun w T h => ⟨h.1.1, h.2, h.1.2.1 rfl⟩

/-- The commits of a ticket request are legal, and its answer agrees with the row of its key. -/
theorem createTicket_answered (hborn : KeysKnown born) :
    Triple (commitSpec rt) i (.createTicket settings xTenantId key body)
      (fun w T => Idle w T ∧ Persist born w.committed)
      (program rt (.createTicket settings xTenantId key body))
      (fun r w _ => Answered rt (.createTicket settings xTenantId key body) born (.ok r) w.committed)
      anything := by
  cases xTenantId with
  | none =>
    have hnone : Triple (commitSpec rt) i (.createTicket settings none key body)
        (fun w T => Idle w T ∧ Persist born w.committed)
        (withTenant none (createTicket rt settings key body)) anything anything :=
      .pure _ fun _ _ _ => trivial
    exact .bind hnone fun _ => .pure _ fun _ _ _ => trivial
  | some tenantId =>
    refine .bind (createTicket_request hborn) fun r => .pure _ ?_
    intro w T h
    cases key with
    | none => trivial
    | some k => exact h k rfl

end Endpoint

end Matchmaking
