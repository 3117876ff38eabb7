import Matchmaking.Commits

/-!
# Proof rules for calls, connections and statements

Triples for the programs of `Runtime`, for any specification of the service.
-/

namespace Matchmaking

open ReadCommitted

variable {S : Spec Row Reply Exn Metric Answer Actor} {i : ℕ} {l : Actor} {α β : Type}

/-- Conditions on the world and the session's transaction, for the service. -/
abbrev Condition := Assertion Row Reply Exn Metric Answer Actor

/-- Conditions that do not look at the log, so that calls and counters cannot break them. -/
def Unlogged (P : Condition) : Prop := ∀ w T i l ev, P w T → P (w.push i l ev) T

/-- No transaction is open on the connection. -/
def Idle : Condition := fun _ T => T = none

/-- The changes of a transaction that began at `now`, apart from index entries, and the snapshots that it has
seen. -/
abbrev Pending (now : Time) (ps : Changes Row) (σs : List Tables) : Condition :=
  Stage IsIndexKey now ps σs

/-- Whether this session has a transaction is not for others to change. -/
theorem Idle.stable : Stable S i l Idle := fun _ _ _ _ h => h

theorem Idle.unlogged : Unlogged Idle := fun _ _ _ _ _ h => h

theorem Idle.clean {w : ServiceWorld} {T : Option (Txn Row)} (h : Idle w T) :
    Clean IsIndexKey w T := fun t ht => by
  rw [h] at ht
  cases ht

theorem Pending.unlogged {now : Time} {ps : Changes Row} {σs : List Tables} :
    Unlogged (Pending now ps σs) := fun _ _ _ _ _ h => h

/-- The committed version of a row with a pending change. -/
theorem Pending.committed {now : Time} {ps : Changes Row} {σs : List Tables} {w : ServiceWorld}
    {T : Option (Txn Row)} (h : Pending now ps σs w T) (k : Key) (hk : ¬ IsIndexKey k)
    {old new : Option (Row k)} (hps : ps.dlookup k = some (old, new)) :
    w.committed.lookup k = old := by
  obtain ⟨t, -, ht⟩ := h
  exact (ht.written k hk old new hps).2

theorem Clean.unlogged : Unlogged (Clean IsIndexKey) := fun _ _ _ _ _ h => h

namespace Triple

open ReadCommitted.Triple

variable {P : Condition} {Q : α → Condition} {F : Exn → Condition}

/-! ## Calls and exceptions -/

/-- A call outside the database keeps what is stable and unlogged, whether it returns or raises. -/
theorem ask {c : Call} (hlog : S.Logs i l) (hP : Stable S i l P) (hU : Unlogged P) :
    Triple S i l P (ask c) (fun _ => P) fun _ => P := by
  refine call hP (fun w _ y hfacts _ => hlog w _ trivial hfacts) ?_
  rintro w T (e | y) - h <;> exact hU w T i l _ h

/-- The same where the exceptions of the call do not matter. -/
theorem ask_ok {c : Call} (hlog : S.Logs i l) (hP : Stable S i l P) (hU : Unlogged P) :
    Triple S i l P (Matchmaking.ask c) (fun _ => P) anything :=
  (ask hlog hP hU).any

/-- A counter keeps what is stable and unlogged, and cannot fail. -/
theorem record {m : Metric} (hlog : S.Logs i l) (hP : Stable S i l P) (hU : Unlogged P) :
    Triple S i l P (record m) (fun _ => P) F :=
  emit hP (fun w _ hfacts _ => hlog w _ trivial hfacts) fun w T _ h => hU w T i l _ h

/-- After a caught exception, the condition is that of the way in which the body has ended. -/
theorem attempt {x : Db α} {F' : Exn → Condition} (hx : Triple S i l P x Q F) :
    Triple S i l P (attempt x) (outcome Q F) F' :=
  .tryCatch (.bind hx fun _ => .pure _ fun _ _ h => h) fun _ => .pure _ fun _ _ h => h

/-- Going on after an attempt, one way for a result and one for an exception. -/
theorem finish {x : Db α} {f : α → Db β} {g : Exn → Db β} {R : β → Condition}
    {G : Exn → Condition} (hx : Triple S i l P x Q F) (hf : ∀ a, Triple S i l (Q a) (f a) R G)
    (hg : ∀ e, Triple S i l (F e) (g e) R G) :
    Triple S i l P (Matchmaking.attempt x >>= fun r => match r with
      | .ok a => f a
      | .error e => g e) R G := by
  refine .bind (attempt hx) ?_
  rintro (e | a)
  · exact hg e
  · exact hf a

/-- Giving up whatever transaction is open. -/
theorem discard : Triple S i l (fun _ _ => True) discard (fun _ => Idle) F := by
  have hrollback : Triple S i l (fun _ _ => True) (perform .rollback) (fun _ => Idle) fun _ => Idle :=
    rollback (fun _ _ _ _ _ => trivial) (fun _ _ _ _ => rfl) fun _ _ _ _ _ => rfl
  exact .tryCatch hrollback fun _ => .pure _ fun _ _ h => h

/-! ## Connections -/

/-- Nothing is committed where no transaction is open. -/
theorem commit_idle : Triple S i l Idle (perform .commit) (fun _ => Idle) fun _ => Idle :=
  commit Idle.stable (fun _ _ _ h => by cases h) (fun _ _ _ _ => rfl) fun _ _ _ _ _ => ⟨rfl, rfl⟩

section Connections

variable {C : ServiceWorld → Prop} {R : α → Condition} {x : Db α}

/-- Give up and raise again. -/
theorem giveUp {e : Exn} : Triple S i l (fun _ _ => True)
    (do Matchmaking.discard; throw e : Db α) R fun _ => Idle :=
  .bind discard fun _ => .throw _ fun _ _ h => h

/-- A connection of psycopg, by what is known once it is there; `F'` holds of all exceptions. -/
theorem withConnection_after {P' : Condition} {F' : Exn → Condition}
    (hask : Triple S i l P (Matchmaking.ask .getConnection) (fun _ => P') F')
    (hx : Triple S i l P' x Q F)
    (hcommit : ∀ a, Triple S i l (Q a) (perform .commit) (fun _ => R a) F')
    (hgiveUp : ∀ e, Triple S i l (F e) (do Matchmaking.discard; throw e : Db α) R F') :
    Triple S i l P (withConnection x) R F' :=
  .bind hask fun _ => finish hx (fun a => .bind (hcommit a) fun _ => .pure _ fun _ _ h => h) hgiveUp

/-- A connection of psycopg: only the commit at its end needs care. -/
theorem withConnection (hlog : S.Logs i l) (hC : S.Lasting i l C)
    (hx : Triple S i l (fun w T => Idle w T ∧ C w) x Q anything)
    (hcommit : ∀ a, Triple S i l (Q a) (perform .commit) (fun _ => R a) fun _ => Idle) :
    Triple S i l (fun w T => Idle w T ∧ C w) (withConnection x) R fun _ => Idle := by
  refine withConnection_after ?_ hx hcommit fun _ => giveUp
  exact (frame hC (ask hlog Idle.stable Idle.unlogged)).conseq (fun _ _ h => h) (fun _ _ _ h => h)
    fun _ _ _ h => h.1

/-- A transaction of asyncpg, by what is known once it is open; `F'` holds of exceptions at its end. -/
theorem asyncTransaction_after {P₁ P₂ : Condition} {F' : Condition}
    (hask : Triple S i l P (Matchmaking.ask .getConnection) (fun _ => P₁) fun _ => F')
    (hstart : Triple S i l P₁ (perform .start) (fun _ => P₂) fun _ => F') (hx : Triple S i l P₂ x Q F)
    (hcommit : ∀ a, Triple S i l (Q a) (perform .commit) (fun _ => R a) fun _ => F')
    (hrollback : ∀ e, Triple S i l (F e) (perform .rollback) (fun _ => F') fun _ => F') :
    Triple S i l P (asyncTransaction x) R fun _ => F' :=
  .bind hask fun _ => .bind hstart fun _ =>
    finish hx (fun a => .bind (hcommit a) fun _ => .pure _ fun _ _ h => h)
      fun e => .bind (hrollback e) fun _ => .throw e fun _ _ h => h

/-- A statement of asyncpg outside a transaction, likewise. -/
theorem autocommit_after {P₁ P₂ : Condition} {F' : Condition}
    (hask : Triple S i l P (Matchmaking.ask .getConnection) (fun _ => P₁) fun _ => F')
    (hstart : Triple S i l P₁ (perform .start) (fun _ => P₂) fun _ => F') (hx : Triple S i l P₂ x Q F)
    (hcommit : ∀ a, Triple S i l (Q a) (perform .commit) (fun _ => R a) fun _ => F')
    (hrollback : ∀ e, Triple S i l (F e) (perform .rollback) (fun _ => F') fun _ => F') :
    Triple S i l P (autocommit x) R fun _ => F' :=
  .bind hask fun _ => .bind hstart fun _ =>
    finish hx (fun a => .bind (hcommit a) fun _ => .pure _ fun _ _ h => h)
      fun e => .bind (.tryCatch (hrollback e) fun _ => .pure _ fun _ _ h => h) fun _ =>
        .throw e fun _ _ h => h

/-- Giving up a transaction without a word about it. -/
theorem rollback_any : Triple S i l (fun _ _ => True) (perform .rollback) anything anything :=
  rollback (fun _ _ _ _ _ => trivial) (fun _ _ _ _ => trivial) fun _ _ _ _ _ => trivial

/-- A transaction of asyncpg. -/
theorem asyncTransaction (hlog : S.Logs i l) (hC : S.Lasting i l C)
    (hx : ∀ now, Triple S i l (fun w T => Pending now [] [] w T ∧ C w) x Q anything)
    (hcommit : ∀ a, Triple S i l (Q a) (perform .commit) (fun _ => R a) fun _ => Idle) :
    Triple S i l (fun w T => Idle w T ∧ C w) (asyncTransaction x) R anything :=
  asyncTransaction_after (keep hC (ask_ok hlog Idle.stable Idle.unlogged)) (keep hC idle_start)
    (pre (.exists_pre hx) fun _ _ ⟨⟨now, h⟩, hc⟩ => ⟨now, h, hc⟩) (fun a => (hcommit a).any)
    fun _ => rollback_any

/-- A statement of asyncpg outside a transaction. -/
theorem autocommit (hlog : S.Logs i l) (hC : S.Lasting i l C)
    (hx : ∀ now, Triple S i l (fun w T => Pending now [] [] w T ∧ C w) x Q anything)
    (hcommit : ∀ a, Triple S i l (Q a) (perform .commit) (fun _ => R a) fun _ => Idle) :
    Triple S i l (fun w T => Idle w T ∧ C w) (autocommit x) R anything :=
  autocommit_after (keep hC (ask_ok hlog Idle.stable Idle.unlogged)) (keep hC idle_start)
    (pre (.exists_pre hx) fun _ _ ⟨⟨now, h⟩, hc⟩ => ⟨now, h, hc⟩) (fun a => (hcommit a).any)
    fun _ => rollback_any

end Connections

section Transactions

variable {R : α → Condition} {x : Db α}

/-- `conn.transaction()` in an open transaction; what its rollback does is of no account. -/
theorem transaction_nested {now : Time} {ps : Changes Row} {σs : List Tables}
    (hx : Triple S i l (Pending now ps σs) x Q anything)
    (hrelease : ∀ a, Triple S i l (Q a) (perform .releaseSavepoint) (fun _ => R a) anything) :
    Triple S i l (Pending now ps σs) (transaction x) R anything := by
  refine .bind stage_inTransaction fun nested => .pure_pre fun hnested => ?_
  subst hnested
  refine .bind stage_savepoint fun _ => finish hx
    (fun a => .bind (hrelease a) fun _ => .pure _ fun _ _ h => h) fun e => ?_
  have hrollback : Triple S i l (fun _ _ => True) (perform .rollbackToSavepoint) anything anything :=
    rollbackToSavepoint (fun _ _ _ _ _ => trivial) (fun _ _ _ _ _ _ _ => trivial)
      fun _ _ _ _ _ => trivial
  exact .bind (attempt hrollback) fun _ => .throw _ fun _ _ _ => trivial

/-- `conn.transaction()` on an idle connection, by what is known once the transaction is open; `F'` holds
of exceptions. -/
theorem transaction_after {P P' F' : Condition} (hP : Stable S i l P) (hidle : ∀ w T, P w T → T = none)
    (hstart : Triple S i l P (perform .start) (fun _ => P') fun _ => F') (hx : Triple S i l P' x Q F)
    (hcommit : ∀ a, Triple S i l (Q a) (perform .commit) (fun _ => R a) fun _ => F')
    (hrollback : ∀ e, Triple S i l (F e) (perform .rollback) (fun _ => F') fun _ => F') :
    Triple S i l P (transaction x) R fun _ => F' := by
  have hopen : Triple S i l P (perform .inTransaction) (fun b w T => b = false ∧ P w T) fun _ => F' :=
    inTransaction hP fun w T _ h => ⟨by rw [hidle w T h]; rfl, h⟩
  refine .bind hopen fun nested => .pure_pre fun hnested => ?_
  subst hnested
  refine .bind hstart fun _ => finish hx (fun a => .bind (hcommit a) fun _ => .pure _ fun _ _ h => h)
    fun e => .bind (attempt (hrollback e)) ?_
  rintro (e' | u)
  · exact .throw _ fun _ _ h => h
  · exact .throw _ fun _ _ h => h

/-- `conn.transaction()` on an idle connection. -/
theorem transaction_outer {C : ServiceWorld → Prop} (hC : S.Lasting i l C)
    (hx : ∀ now, Triple S i l (fun w T => Pending now [] [] w T ∧ C w) x Q anything)
    (hcommit : ∀ a, Triple S i l (Q a) (perform .commit) (fun _ => R a) fun _ => Idle) :
    Triple S i l (fun w T => Idle w T ∧ C w) (transaction x) R anything :=
  transaction_after (Idle.stable.and hC.stable) (fun _ _ h => h.1) (keep hC idle_start)
    (pre (.exists_pre hx) fun _ _ ⟨⟨now, h⟩, hc⟩ => ⟨now, h, hc⟩) (fun a => (hcommit a).any)
    fun _ => rollback_any

end Transactions

section Reading

variable {x : Db α} {C : ServiceWorld → Prop} {D : α → ServiceWorld → Prop}

/-- Statements outside a transaction that only read; what they find out is lasting. -/
theorem autocommit_read (hlog : S.Logs i l)
    (hread : S.Commits i l fun w t => ∃ now σs, t.Has IsIndexKey now [] σs w.committed)
    (hC : S.Lasting i l C) (hD : ∀ a, S.Lasting i l (D a))
    (hx : ∀ now, Triple S i l (fun w T => Pending now [] [] w T ∧ C w) x
      (fun a w T => (∃ σs, Pending now [] σs w T) ∧ D a w) anything) :
    Triple S i l (fun w T => Idle w T ∧ C w) (Matchmaking.autocommit x)
      (fun a w T => Idle w T ∧ D a w) anything := by
  have hbody : ∀ now, Triple S i l (fun w T => Pending now [] [] w T ∧ C w) x
      (fun a w T => (∃ now σs, Pending now [] σs w T) ∧ D a w) anything := fun now =>
    (hx now).post fun _ _ _ h => ⟨⟨now, h.1⟩, h.2⟩
  refine autocommit hlog hC hbody fun a => (frame (hD a) (stage_commit ?_ ?_ hread)).conseq
    (fun _ _ h => h) (fun _ _ _ h => h) fun _ _ _ h => h.1
  · exact .exists fun _ => .exists fun _ => Stage.stable
  · rintro w t - ⟨now, σs, t', ht, hhas⟩
    obtain rfl := Option.some.inj ht
    exact ⟨now, σs, hhas⟩

/-- A query outside a transaction: its result is right at the moment of its snapshot, and what lasts
of that is still true afterwards. -/
theorem autoselect {f : Time → Tables → α} (hlog : S.Logs i l)
    (hread : S.Commits i l fun w t => ∃ now σs, t.Has IsIndexKey now [] σs w.committed)
    (hC : S.Lasting i l C) (hD : ∀ a, S.Lasting i l (D a))
    (h : ∀ now w σ, C w → Shows IsIndexKey [] w.committed σ → D (f now σ) w) :
    Triple S i l (fun w T => Idle w T ∧ C w) (Matchmaking.autocommit (perform (.select f)))
      (fun a w T => Idle w T ∧ D a w) anything := by
  refine autocommit_read hlog hread hC hD fun now => (keep hC stage_select).post ?_
  rintro a w T ⟨⟨σ, rfl, -, hshows, hstage⟩, hc⟩
  exact ⟨⟨_, hstage⟩, h now w σ hc hshows⟩

end Reading

/-! ## Statements -/

section Statements

variable {now : Time} {ps : Changes Row} {σs : List Tables}

/-- An INSERT under a new key adds a row to the stage, and returns it. -/
theorem insertRow {k : Key} {row : Time → Row k} (hk : ¬ IsIndexKey k)
    (hps : ps.dlookup k = none) :
    Triple S i l (Pending now ps σs) (insertRow k row)
      (fun r w T => r = some (row now) ∧ Pending now (⟨k, (none, some (row now))⟩ :: ps) σs w T)
      anything := by
  refine (stage_row hk .trivial (fun h => by cases h) fun w old cur _ _ _ hseen => ?_).pre
    fun _ _ h => ⟨h, trivial⟩
  obtain ⟨-, rfl⟩ | hp := hseen
  · cases cur with
    | none => exact fun T hT => ⟨rfl, hT⟩
    | some v => trivial
  · cases hps.symm.trans hp

/-- With `ON CONFLICT DO NOTHING` there is a row or there is not; the stage grows in one case only. -/
theorem insertRowIfAbsent (k : Key) {row : Time → Row k} (hk : ¬ IsIndexKey k)
    (hps : ps.dlookup k = none) :
    Triple S i l (Pending now ps σs) (insertRowIfAbsent k row)
      (fun r w T => r = none ∧ Pending now ps σs w T ∨
        r = some (row now) ∧ Pending now (⟨k, (none, some (row now))⟩ :: ps) σs w T) anything := by
  refine (stage_row hk .trivial (fun h => by cases h) fun w old cur _ _ _ hseen => ?_).pre
    fun _ _ h => ⟨h, trivial⟩
  obtain ⟨-, rfl⟩ | hp := hseen
  · cases cur with
    | none => exact fun T hT => .inr ⟨rfl, hT⟩
    | some v => exact fun T hT => .inl ⟨rfl, hT⟩
  · cases hps.symm.trans hp

/-- The entry of the unique index is left out of account by stages. -/
theorem indexTicket {id : UUID} {t : Ticket} :
    Triple S i l (Pending now ps σs) (indexTicket id t) (fun _ => Pending now ps σs) anything :=
  .bind (stage_row_ign trivial) fun _ => .pure _ fun _ _ h => h

/-- An update by key, of a row that is there and has not been written yet. -/
theorem updateByKey (k : Key) {set : Time → Row k → Row k} {C : ServiceWorld → Prop}
    (hk : ¬ IsIndexKey k) (hps : ps.dlookup k = none) (hC : S.Lasting i l C)
    (hrow : ∀ w, S.facts w → C w → ∃ v, w.committed.lookup k = some v) :
    Triple S i l (fun w T => Pending now ps σs w T ∧ C w) (updateByKey k (fun _ _ => true) set)
      (fun _ w T => ∃ σ v, Pending now (⟨k, (some v, some (set now v))⟩ :: ps) (σ :: σs) w T)
      anything := by
  have hselect : Triple S i l (fun w T => Pending now ps σs w T ∧ C w)
      (perform (.select fun _ s => (s.lookup k).any fun _ => true))
      (fun found w T => found = true ∧ ∃ σ, Pending now ps (σ :: σs) w T ∧ C w) anything := by
    refine (frame hC stage_select).conseq (fun _ _ h => h) ?_ fun _ _ _ _ => trivial
    rintro found w T ⟨⟨σ, rfl, hfacts, hshows, hstage⟩, hc⟩
    obtain ⟨v, hv⟩ := hrow w hfacts hc
    refine ⟨?_, σ, hstage, hc⟩
    simp [hshows k hk, hps, hv]
  refine .bind hselect fun found => .pure_pre fun hfound => .exists_pre fun σ => ?_
  rw [if_pos hfound]
  refine stage_row hk hC (fun h => by cases h) fun w old cur hfacts hc hold hseen => ?_
  obtain ⟨v, hv⟩ := hrow w hfacts hc
  obtain ⟨-, rfl⟩ | hp := hseen
  · obtain rfl := hold.symm.trans hv
    exact fun T hT => ⟨σ, v, hT⟩
  · cases hps.symm.trans hp

/-- An update by key, of a row that the transaction has written itself. -/
theorem updateByKey_own (k : Key) {set : Time → Row k → Row k} (hk : ¬ IsIndexKey k)
    {old : Option (Row k)} {v : Row k} (hps : ps.dlookup k = some (old, some v)) :
    Triple S i l (Pending now ps σs) (Matchmaking.updateByKey k (fun _ _ => true) set)
      (fun _ w T => ∃ σ, Pending now (⟨k, (old, some (set now v))⟩ :: ps) (σ :: σs) w T)
      anything := by
  have hselect : Triple S i l (Pending now ps σs)
      (perform (.select fun _ s => (s.lookup k).any fun _ => true))
      (fun found w T => found = true ∧ ∃ σ, Pending now ps (σ :: σs) w T) anything := by
    refine stage_select.post ?_
    rintro found w T ⟨σ, rfl, -, hshows, hstage⟩
    exact ⟨by simp [hshows k hk, hps], σ, hstage⟩
  refine .bind hselect fun found => .pure_pre fun hfound => .exists_pre fun σ => ?_
  rw [if_pos hfound]
  refine (stage_row hk .trivial (fun h => by cases h) fun w old' cur _ _ _ hseen => ?_).pre
    fun _ _ h => ⟨h, trivial⟩
  obtain ⟨hn, -⟩ | hp := hseen
  · cases hn.symm.trans hps
  · cases hp.symm.trans hps
    exact fun T hT => ⟨σ, hT⟩

section Tickets

variable {id : UUID} {cond : Time → Ticket → Bool} {set : Time → Ticket → Ticket}

/-- What holds after an update of a ticket: if it took place, the ticket satisfied the condition when
it was locked. -/
def Updated (now : Time) (ps : Changes Row) (σs : List Tables) (id : UUID)
    (cond : Time → Ticket → Bool) (set : Time → Ticket → Ticket) : Option Ticket → Condition
  | none => Pending now ps σs
  | some t' => fun w T => ∃ old t, Seen ps (.tickets id) old (some t) ∧ cond now t = true ∧
      t' = set now t ∧ Pending now (⟨.tickets id, (old, some t')⟩ :: ps) σs w T

/-- A guarded UPDATE of a ticket returns the changed row and adds it to the stage, or finds no row that
satisfies the guard. -/
theorem updateTicketRow :
    Triple S i l (Pending now ps σs) (updateTicketRow id cond set) (Updated now ps σs id cond set)
      anything := by
  have hrow : Triple S i l (Pending now ps σs) (updateRow (.tickets id) cond set)
      (Updated now ps σs id cond set) anything := by
    refine (stage_row (fun h => h) .trivial (fun h => by cases h) fun w old cur _ _ _ hseen => ?_).pre
      fun _ _ h => ⟨h, trivial⟩
    cases cur with
    | none => exact fun T hT => hT
    | some t =>
      dsimp only
      split
      · exact fun T hT => ⟨old, t, hseen, ‹_›, rfl, hT⟩
      · exact fun T hT => hT
  refine .bind hrow ?_
  rintro (_ | t')
  · exact .pure _ fun _ _ h => h
  · refine .exists_pre fun old => .exists_pre fun t => .pure_pre fun hseen => .pure_pre fun hcond =>
      .pure_pre fun ht => .bind indexTicket fun _ => .pure _ fun _ _ h => ?_
    exact ⟨old, t, hseen, hcond, ht, h⟩

/-- The UPDATE with its query, which is the one more view that the stage has. -/
theorem updateTicket :
    Triple S i l (Pending now ps σs) (updateTicket id cond set)
      (fun r w T => ∃ σ, Updated now ps (σ :: σs) id cond set r w T) anything := by
  refine .bind stage_select fun found => .exists_pre fun σ => ?_
  refine pre (.ite (fun _ => updateTicketRow.post fun _ _ _ h => ⟨σ, h⟩)
    fun _ => .pure _ fun _ _ h => ⟨σ, h⟩) fun _ _ h => h.2.2.2

/-- An update of a ticket that may open the transaction. -/
theorem updateTicket_clean :
    Triple S i l (Clean IsIndexKey) (Matchmaking.updateTicket id cond set)
      (fun r w T => ∃ now σs, Updated now [] σs id cond set r w T) anything := by
  refine .bind clean_select fun found => .exists_pre fun now => .exists_pre fun σ => ?_
  refine pre (.ite (fun _ => updateTicketRow.post fun _ _ _ h => ⟨now, [σ], h⟩)
    fun _ => .pure _ fun _ _ h => ⟨now, [σ], h⟩) fun _ _ h => h.2.2.2

/-- An update of a ticket that the transaction has written itself and that satisfies the
condition. -/
theorem updateTicket_own {old : Option Ticket} {t : Ticket}
    (hps : ps.dlookup (.tickets id) = some (old, some t)) (hcond : cond now t = true) :
    Triple S i l (Pending now ps σs) (Matchmaking.updateTicket id cond set)
      (fun _ w T => ∃ σ, Pending now (⟨.tickets id, (old, some (set now t))⟩ :: ps) (σ :: σs) w T)
      anything := by
  have hselect : Triple S i l (Pending now ps σs)
      (perform (.select fun now s => (s.lookup (.tickets id)).any (cond now)))
      (fun found w T => found = true ∧ ∃ σ, Pending now ps (σ :: σs) w T) anything := by
    refine stage_select.post ?_
    rintro found w T ⟨σ, rfl, -, hshows, hstage⟩
    refine ⟨?_, σ, hstage⟩
    rw [hshows (.tickets id) fun h => h, hps]
    exact hcond
  refine .bind hselect fun found => .pure_pre fun hfound => .exists_pre fun σ => ?_
  rw [if_pos hfound]
  have hrow : Triple S i l (Pending now ps (σ :: σs)) (updateRow (.tickets id) cond set)
      (fun (r : Option Ticket) w T => r = some (set now t) ∧
        Pending now (⟨.tickets id, (old, some (set now t))⟩ :: ps) (σ :: σs) w T) anything := by
    refine (stage_row (fun h => h) .trivial (fun h => by cases h) fun w old' cur _ _ _ hseen => ?_).pre
      fun _ _ h => ⟨h, trivial⟩
    obtain ⟨hn, -⟩ | hp := hseen
    · cases hn.symm.trans hps
    · cases hp.symm.trans hps
      dsimp only
      rw [if_pos hcond]
      exact fun T hT => ⟨rfl, hT⟩
  refine .bind hrow fun r => .pure_pre fun hr => ?_
  subst hr
  exact .bind indexTicket fun _ => .pure _ fun _ _ h => ⟨σ, h⟩

end Tickets

end Statements

end Triple

end Matchmaking
