import Matchmaking.Composition
import Matchmaking.Integrity
import Matchmaking.ReadCommitted.Pending

/-!
# Active tickets

The partial unique index: every committed ticket that is waiting or reserved has the entry at its key,
so a player never has two of them in one queue. Since a match takes two waiting tickets of one queue
at once, its players are different.
-/

namespace Matchmaking

open ReadCommitted ReadCommitted.Triple

variable {rt : Runtime} {i : ℕ} {l : Actor} {s : Tables} {ws : Writes Row} {id : UUID} {tk : Ticket}

/-! ## The index -/

/-- Every active ticket has the entry of the unique index at its key. -/
def IndexSound (s : Tables) : Prop :=
  ∀ id t, s.lookup (.tickets id) = some t → t.status.isActive = true →
    s.lookup t.indexKey = some id

/-- An active ticket that is written, other than `id`, has its entry written. -/
def EntriesWritten (id : Option UUID) (ws : Writes Row) : Prop :=
  ∀ id' t, some id' ≠ id → ws.dlookup (.tickets id') = some (some t) → t.status.isActive = true →
    ws.dlookup t.indexKey = some (some id')

/-- An entry that is written stays that of its holder, unless the holder is written, too. -/
def HoldersKept (ws : Writes Row) (s : Tables) : Prop :=
  ∀ (t : Ticket) (o : Option UUID) (id : UUID), ws.dlookup t.indexKey = some o →
    s.lookup t.indexKey = some id → ws.dlookup (.tickets id) = none → o = some id

/-- Pending writes that keep the index. -/
structure KeepsIndex (ws : Writes Row) (s : Tables) : Prop where
  entries : EntriesWritten none ws
  holders : HoldersKept ws s

/-- Pending writes after ticket `id` was written as `tk`, and before its entry is. -/
structure Unindexed (id : UUID) (tk : Ticket) (ws : Writes Row) (s : Tables) : Prop where
  ticket : ws.dlookup (.tickets id) = some (some tk)
  entries : EntriesWritten (some id) ws
  holders : HoldersKept ws s

theorem HoldersKept.isLocal : IsLocal HoldersKept := fun _ _ _ hkeys h t o id ho hid hnone =>
  h t o id ho ((hkeys t.indexKey o ho).symm.trans hid) hnone

theorem Unindexed.isLocal (id : UUID) (tk : Ticket) : IsLocal (Unindexed id tk) :=
  fun _ _ _ hkeys h => ⟨h.ticket, h.entries, HoldersKept.isLocal _ _ _ hkeys h.holders⟩

theorem keepsIndex_condition : WritesCondition KeepsIndex where
  nil _ := ⟨fun _ _ _ h => (by cases h), fun _ _ _ h => by cases h⟩
  congr _ _ _ hkeys h := ⟨h.entries, HoldersKept.isLocal _ _ _ hkeys h.holders⟩

/-- A commit that keeps the index leaves it sound. -/
theorem KeepsIndex.sound (h : KeepsIndex ws s) (hs : IndexSound s) : IndexSound (patch ws s) := by
  intro id t ht hactive
  cases hticket : ws.dlookup (.tickets id) with
  | some o =>
    rw [lookup_patch_of_mem hticket] at ht
    subst ht
    exact lookup_patch_of_mem (h.entries id t (by simp) hticket hactive) s
  | none =>
    rw [lookup_patch_of_notMem hticket] at ht
    have hentry := hs id t ht hactive
    cases hkey : ws.dlookup t.indexKey with
    | none => rwa [lookup_patch_of_notMem hkey]
    | some o => rw [lookup_patch_of_mem hkey, h.holders t o id hkey hentry hticket]

/-- The holder of an entry, if it is not written, is still seen there. -/
theorem HoldersKept.seen (h : HoldersKept ws s) {t : Ticket} {id : UUID}
    (hid : s.lookup t.indexKey = some id) (hnone : ws.dlookup (.tickets id) = none) :
    (patch ws s).lookup t.indexKey = some id := by
  cases hkey : ws.dlookup t.indexKey with
  | none => rwa [lookup_patch_of_notMem hkey]
  | some o => rw [lookup_patch_of_mem hkey, h t o id hkey hid hnone]

/-! ## Writing a ticket and its entry -/

/-- Rows that the index does not depend on. -/
def IsPlainKey (k : Key) : Prop := (∀ id, k ≠ .tickets id) ∧ ¬ IsIndexKey k

theorem Ticket.indexKey_ne (t : Ticket) {k : Key} (hk : ¬ IsIndexKey k) : t.indexKey ≠ k := by
  rintro rfl
  exact hk trivial

theorem Ticket.indexKey_ne_tickets (t : Ticket) (id : UUID) : t.indexKey ≠ .tickets id :=
  t.indexKey_ne fun h => h

/-- What is found at the key of one ticket is found at the equal key of another. -/
theorem Ticket.lookup_indexKey {t t' : Ticket} (h : t.indexKey = t'.indexKey) {s : Tables} {id : UUID}
    (hid : s.lookup t.indexKey = some id) : s.lookup t'.indexKey = some id := by
  simp only [indexKey, Key.uqActiveTicket.injEq] at h
  obtain ⟨htenant, hplayer, hregion, hqueue⟩ := h
  unfold indexKey
  rw [← htenant, ← hplayer, ← hregion, ← hqueue]
  exact hid

theorem KeepsIndex.write_plain {k : Key} (hk : IsPlainKey k) {o : Option (Row k)}
    (h : KeepsIndex ws s) : KeepsIndex (⟨k, o⟩ :: ws) s := by
  obtain ⟨hticket, hindex⟩ := hk
  constructor
  · intro id t hne ht hactive
    rw [List.dlookup_cons_ne _ _ (Ne.symm (hticket id))] at ht
    rw [List.dlookup_cons_ne _ _ (t.indexKey_ne hindex)]
    exact h.entries id t hne ht hactive
  · intro t o' id ho hid hnone
    rw [List.dlookup_cons_ne _ _ (t.indexKey_ne hindex)] at ho
    rw [List.dlookup_cons_ne _ _ (Ne.symm (hticket id))] at hnone
    exact h.holders t o' id ho hid hnone

theorem KeepsIndex.write_ticket (h : KeepsIndex ws s) :
    Unindexed id tk (⟨.tickets id, some tk⟩ :: ws) s where
  ticket := List.dlookup_cons_eq ..
  entries id' t hne ht hactive := by
    rw [List.dlookup_cons_ne _ _ (by simpa using hne)] at ht
    rw [List.dlookup_cons_ne _ _ (t.indexKey_ne_tickets id)]
    exact h.entries id' t (by simp) ht hactive
  holders t o id' ho hid hnone := by
    rw [List.dlookup_cons_ne _ _ (t.indexKey_ne_tickets id)] at ho
    by_cases hne : Key.tickets id' = .tickets id
    · cases hne
      rw [List.dlookup_cons_eq] at hnone
      cases hnone
    · rw [List.dlookup_cons_ne _ _ hne] at hnone
      exact h.holders t o id' ho hid hnone

/-- The entry may be written if it is nobody else's, and must be the ticket's if that is active. -/
theorem Unindexed.write_entry (h : Unindexed id tk ws s) {o : Option UUID}
    (hown : ∀ id', (patch ws s).lookup tk.indexKey = some id' → id' = id)
    (ho : tk.status.isActive = true → o = some id) : KeepsIndex (⟨tk.indexKey, o⟩ :: ws) s := by
  have hticket : ∀ id', Key.tickets id' ≠ tk.indexKey := fun id' heq =>
    tk.indexKey_ne_tickets id' heq.symm
  constructor
  · intro id' t _ ht hactive
    rw [List.dlookup_cons_ne _ _ (hticket id')] at ht
    by_cases hid : id' = id
    · subst hid
      obtain rfl : tk = t := Option.some.inj (Option.some.inj (h.ticket.symm.trans ht))
      exact (List.dlookup_cons_eq ..).trans (congrArg some (ho hactive))
    · have hentry := h.entries id' t (by simpa using hid) ht hactive
      have hkey : t.indexKey ≠ tk.indexKey := fun heq => hid (hown id'
        (Ticket.lookup_indexKey heq (lookup_patch_of_mem hentry s)))
      rwa [List.dlookup_cons_ne _ _ hkey]
  · intro t o' id' ho' hholder hnone
    rw [List.dlookup_cons_ne _ _ (hticket id')] at hnone
    by_cases hkey : t.indexKey = tk.indexKey
    · -- the holder would be the ticket itself, which is written
      obtain rfl := hown id' (Ticket.lookup_indexKey hkey (h.holders.seen hholder hnone))
      cases hnone.symm.trans h.ticket
    · rw [List.dlookup_cons_ne _ _ hkey] at ho'
      exact h.holders t o' id' ho' hholder hnone

/-- The entry of an inactive ticket may stay as it is. -/
theorem Unindexed.leave_entry (h : Unindexed id tk ws s) (htk : tk.status.isActive = false) :
    KeepsIndex ws s := by
  refine ⟨fun id' t _ ht hactive => ?_, h.holders⟩
  by_cases hid : id' = id
  · subst hid
    obtain rfl : tk = t := Option.some.inj (Option.some.inj (h.ticket.symm.trans ht))
    cases htk.symm.trans hactive
  · exact h.entries id' t (by simpa using hid) ht hactive

/-! ## The programs -/

/-- A program that keeps the index. -/
abbrev IndexTriple (i : ℕ) (l : Actor) {α : Type} (x : Db α) : Prop :=
  Triple (Written.spec KeepsIndex : Spec Row Reply Exn Metric Answer Actor) i l (Keeping KeepsIndex) x
    (fun _ => Keeping KeepsIndex) fun _ => Keeping KeepsIndex

theorem indexTriple_composes (i : ℕ) (l : Actor) : Composite IsPlainKey True (fun _ => True) (IndexTriple i l) :=
  Keeping.composes keepsIndex_condition Written.spec_logs Written.spec_commits fun _ hk _ _ _ h =>
    h.write_plain hk

/-- Keeping the entry in step completes the write of the ticket. -/
theorem indexTicket_triple : Triple (Written.spec KeepsIndex : Spec Row Reply Exn Metric Answer Actor)
    i l (Midway (Unindexed id tk) KeepsIndex) (indexTicket id tk) (fun _ => Keeping KeepsIndex)
    fun _ => Keeping KeepsIndex := by
  refine .bind (Midway.leave keepsIndex_condition (Unindexed.isLocal id tk) ?_ ?_ ?_) fun _ =>
    .pure _ fun _ _ h => h
  · intro ws s now h hact
    refine h.leave_entry ?_
    split at hact
    · cases hact
    · split at hact <;> cases hact
    · assumption
    · assumption
  · intro ws s now v h hact
    split at hact
    · next _ hnone =>
      cases hact
      exact h.write_entry (fun id' hid => (by cases hnone.symm.trans hid)) fun _ => rfl
    · next holder _ hsome =>
      split at hact
      · next hid =>
        cases hact
        refine h.write_entry (fun id' hid' => ?_) fun _ => rfl
        rw [← hid]
        exact Option.some.inj (hid'.symm.trans hsome)
      · cases hact
    · split at hact <;> cases hact
    · cases hact
  · intro ws s now h hact
    split at hact
    · cases hact
    · split at hact <;> cases hact
    · next holder hinactive hsome =>
      split at hact
      · next hid =>
        refine h.write_entry (fun id' hid' => ?_) fun hactive => by cases hinactive.symm.trans hactive
        rw [← hid]
        exact Option.some.inj (hid'.symm.trans hsome)
      · cases hact
    · cases hact

/-- The statements on tickets keep the index. -/
theorem indexTriple_tickets (i : ℕ) (l : Actor) : Composite.Tickets (IndexTriple i l) where
  update id cond set := by
    have hwrite : Triple (Written.spec KeepsIndex : Spec Row Reply Exn Metric Answer Actor) i l
        (Keeping KeepsIndex) (updateRow (.tickets id) cond set)
        (fun r w T => r.elim (Keeping KeepsIndex w T) fun t => Midway (Unindexed id t) KeepsIndex w T)
        fun _ => Keeping KeepsIndex :=
      Midway.enter keepsIndex_condition (fun ws s now t h _ => h.write_ticket) fun ws s now _ hact => by
        split at hact
        · split at hact <;> cases hact
        · cases hact
    refine .bind hwrite ?_
    rintro (_ | t)
    · exact .pure _ fun _ _ h => h
    · exact .bind indexTicket_triple fun _ => .pure _ fun _ _ h => h
  insert tenantId body partitionId := by
    have h := indexTriple_composes i l
    have hwrite : ∀ id, Triple (Written.spec KeepsIndex : Spec Row Reply Exn Metric Answer Actor) i l
        (Keeping KeepsIndex) (insertRow (.tickets id) (newTicket tenantId body partitionId))
        (fun r w T => r.elim (Keeping KeepsIndex w T) fun t => Midway (Unindexed id t) KeepsIndex w T)
        fun _ => Keeping KeepsIndex := fun id =>
      Midway.enter keepsIndex_condition (fun ws s now t h _ => h.write_ticket) fun ws s now _ hact => by
        split at hact <;> cases hact
    have hcheck : ∀ text, IndexTriple i l (checkText text) := fun text =>
      .ite (fun _ => h.throw _) fun _ => h.pure _
    have hint : ∀ n, IndexTriple i l (checkInt4 n) := fun n =>
      .ite (fun _ => h.pure _) fun _ => h.throw _
    refine h.bind (hcheck _) fun _ => h.bind (hcheck _) fun _ => h.bind (hcheck _) fun _ =>
      h.bind (hint _) fun _ => h.bind (hint _) fun _ => h.bind (Composite.ask h _) fun id =>
      .bind (hwrite id) ?_
    rintro (_ | t)
    · exact h.throw _
    · exact .bind indexTicket_triple fun _ => .pure _ fun _ _ h => h

theorem program_index (i : ℕ) (l : Actor) : IndexTriple i l (program rt l) :=
  (indexTriple_composes i l).program (indexTriple_tickets i l) (fun _ hk hindex => ⟨hk, hindex⟩) trivial
    (fun _ => trivial) rt l

/-! ## Every run -/

/-- Every commit of the service keeps the index. -/
theorem index_written {clock : Time} {s : ServiceState}
    (hs : (service rt).Reachable (emptyState clock) s) : Written KeepsIndex s.world.log :=
  written (fun _ _ => rfl) (fun i l => program_index i l) hs

/-- Two active tickets of one player in one queue are one ticket. -/
theorem IndexSound.unique (hs : IndexSound s) {a b : UUID} {ta tb : Ticket}
    (ha : s.lookup (.tickets a) = some ta) (hb : s.lookup (.tickets b) = some tb)
    (hactive : ta.status.isActive = true) (hactive' : tb.status.isActive = true)
    (hkey : ta.indexKey = tb.indexKey) : a = b :=
  Option.some.inj ((Ticket.lookup_indexKey hkey (hs a ta ha hactive)).symm.trans (hs b tb hb hactive'))

/-- No match has two rows of one player. -/
def PlayersApart (s : Tables) : Prop :=
  ∀ m a b pa pb, s.lookup (.matchPlayers m a) = some pa → s.lookup (.matchPlayers m b) = some pb →
    a ≠ b → pa.playerId ≠ pb.playerId

/-- The players of a new match are different, since both tickets are active. -/
theorem Makes.players_ne {t : Txn Row} {n : NewMatch} (h : Makes l t s n) (hs : IndexSound s) :
    n.first.playerId ≠ n.second.playerId := by
  intro hplayer
  obtain ⟨hfirst, -⟩ := h.changed.lookup (.tickets n.firstId) (fun h => h)
    (n.dlookup_first t.start h.compatible.apart)
  obtain ⟨hsecond, -⟩ := h.changed.lookup (.tickets n.secondId) (fun h => h) (n.dlookup_second t.start)
  refine h.compatible.apart (hs.unique hfirst hsecond ?_ ?_ ?_)
  · rw [h.compatible.firstWaiting]
    rfl
  · rw [h.compatible.secondWaiting]
    rfl
  · unfold Ticket.indexKey
    rw [h.compatible.tenantId, hplayer, h.compatible.region, h.compatible.queueName]

theorem Makes.playersApart {t : Txn Row} {n : NewMatch} (h : Makes l t s n) (hs : IndexSound s)
    (hpaired : Paired s) (hapart : PlayersApart s) : PlayersApart (patch t.writes s) := by
  intro m a b pa pb ha hb hne
  by_cases hm : m = n.matchId
  · subst hm
    have hfirst := (h.changed.lookup (.matchPlayers n.matchId n.firstId) (fun h => h)
      (n.dlookup_firstPlayer t.start h.compatible.apart)).2
    have hsecond := (h.changed.lookup (.matchPlayers n.matchId n.secondId) (fun h => h)
      (n.dlookup_secondPlayer t.start)).2
    have hplayers := NewMatch.players_iff h.changed h.compatible hpaired
    -- one of the two is the first player, the other one the second
    rcases (hplayers a).mp (by rw [ha]; rfl) with rfl | rfl <;>
      rcases (hplayers b).mp (by rw [hb]; rfl) with rfl | rfl
    · exact absurd rfl hne
    · cases ha.symm.trans hfirst
      cases hb.symm.trans hsecond
      exact h.players_ne hs
    · cases ha.symm.trans hsecond
      cases hb.symm.trans hfirst
      exact (h.players_ne hs).symm
    · exact absurd rfl hne
  · rw [NewMatch.frame_player h.changed (.inl hm)] at ha hb
    exact hapart m a b pa pb ha hb hne

theorem Legal.playersApart {t : Txn Row} (h : Legal rt l t s) (hs : IndexSound s) (hpaired : Paired s)
    (hapart : PlayersApart s) : PlayersApart (patch t.writes s) := by
  obtain hun | ⟨n, hmakes⟩ := h.unpaired_or_makes
  · intro m a b pa pb ha hb hne
    rw [hun.players m a] at ha
    rw [hun.players m b] at hb
    exact hapart m a b pa pb ha hb hne
  · exact hmakes.playersApart hs hpaired hapart

/-- **Nobody plays himself.** In every committed state of every run, a player has at most one active
ticket in a queue, and the players of a match are different. -/
theorem players_apart {clock : Time} {s : ServiceState}
    (hs : (service rt).Reachable (emptyState clock) s) :
    IndexSound s.world.committed ∧ PlayersApart s.world.committed := by
  have hpast := service_past hs
  have hwritten := index_written hs
  have h₀ : IndexSound ∅ := fun _ _ h => by cases h
  have hstep : ∀ e ∈ s.world.log, ∀ t b, e.event.commit? = some (t, b) → IndexSound b →
      IndexSound (patch t.writes b) := fun e he t b hc => (hwritten e he t b hc).sound
  refine ⟨hpast.history.chained.invariant h₀ hstep, ?_⟩
  refine hpast.history.chained.invariant (fun _ _ _ _ _ h => by cases h) fun e he t b hc => ?_
  exact (hpast.legal he hc).playersApart (hpast.history.chained.before h₀ hstep he hc)
    (hpast.before .empty (fun _ _ _ => Legal.paired) he hc)

/-- The sample run makes a match. -/
theorem players_apart_sample :
    (∃ m, (sampleState.world.committed.lookup (.matches m)).isSome = true) ∧
      IndexSound sampleState.world.committed ∧ PlayersApart sampleState.world.committed :=
  ⟨⟨0x3f, by decide +kernel⟩, players_apart sampleState_reachable⟩

end Matchmaking
