import Matchmaking.CommitSpec

/-!
# The commits of a dispatcher

One round commits the claim of a batch and then, for each claimed event, its outcome; where the
outcome cannot be recorded, the claim is given back.
-/

namespace Matchmaking

open ReadCommitted ReadCommitted.Triple

variable {rt : Runtime} {i : ℕ} {l : Actor} {settings : Settings} {dispatcherId : String}

/-- A claimed event is an event of the database, for the same match. -/
def EventKnown (event : CallbackEvent) (s : Tables) : Prop :=
  ∃ row, s.lookup (.callbackEvents event.eventId) = some row ∧ row.matchId = event.matchId

/-- An event and its match stay in the tables, so what identifies them stays known. -/
theorem EventKnown.persist {event : CallbackEvent} {s s' : Tables} (hs : Persist s s')
    (h : EventKnown event s) : EventKnown event s' := by
  obtain ⟨row, hrow, hmatch⟩ := h
  obtain ⟨row', hrow', hkept⟩ := hs (.callbackEvents event.eventId) trivial row hrow
  exact ⟨row', hrow', (congrArg (fun p => p.2.1) hkept : row'.matchId = row.matchId).trans hmatch⟩

/-- Claimed events stay known: each is in the tables with its match, as the dispatcher has read it. -/
abbrev EventsKnown (events : List CallbackEvent) (w : ServiceWorld) : Prop :=
  ∀ event ∈ events, EventKnown event w.committed

/-- Commits of other sessions do not take that away from a batch. -/
theorem eventsKnown_lasting (events : List CallbackEvent) :
    (commitSpec rt).Lasting i l (EventsKnown events) :=
  commitSpec_lasting (fun s => ∀ event ∈ events, EventKnown event s)
    fun _ _ hs h event he => (h event he).persist hs

theorem eventKnown_lasting (event : CallbackEvent) :
    (commitSpec rt).Lasting i l fun w => EventKnown event w.committed :=
  commitSpec_lasting (EventKnown event) fun _ _ hs h => h.persist hs

/-- The entry is the commit of session `i` that claims the event; the event is the row it leaves. -/
def ClaimsEvent (settings : Settings) (dispatcherId : String) (i : ℕ) (event : CallbackEvent)
    (entry : LogEntry) : Prop :=
  entry.session = i ∧ entry.actor = .runOnce settings dispatcherId ∧
    ∃ t b row secret, entry.event.commit? = some (t, b) ∧
      b.lookup (.callbackEvents event.eventId) = some row ∧
      t.writes.dlookup (.callbackEvents event.eventId)
        = some (some (row.claimed dispatcherId settings.callbackTimeoutSeconds t.start)) ∧
      event = (row.claimed dispatcherId settings.callbackTimeoutSeconds t.start).toEvent event.eventId
        secret

/-- Session `i` has claimed the events, by a commit that is in the log. -/
abbrev Claimed (settings : Settings) (dispatcherId : String) (i : ℕ) (events : List CallbackEvent)
    (w : ServiceWorld) : Prop :=
  ∀ event ∈ events, ∃ entry ∈ w.log, ClaimsEvent settings dispatcherId i event entry

/-- The events of a batch that session `i` has claimed. -/
def Batch (settings : Settings) (dispatcherId : String) (i : ℕ) (events : List CallbackEvent)
    (w : ServiceWorld) : Prop :=
  EventsKnown events w ∧ Claimed settings dispatcherId i events w

/-- A claim is in the log for good, whatever is committed after it. -/
theorem claimed_lasting (events : List CallbackEvent) :
    (commitSpec rt).Lasting i l (Claimed settings dispatcherId i events) :=
  ⟨fun _ _ h _ hc event he => (hc event he).imp fun _ h' => ⟨h.log.subset h'.1, h'.2⟩,
    fun _ _ h _ hc event he => (hc event he).imp fun _ h' => ⟨h.log.subset h'.1, h'.2⟩⟩

/-- What is known of a claimed batch stays known while it is delivered. -/
theorem batch_lasting (events : List CallbackEvent) :
    (commitSpec rt).Lasting i l (Batch settings dispatcherId i events) :=
  (eventsKnown_lasting events).and (claimed_lasting events)

/-! ## Claiming -/

/-- What a claim of some of the events `ids` writes. -/
def claimWrites (dispatcherId : String) (timeoutSeconds : ℕ) (ids : List UUID) : RowRel Row :=
  fun now k =>
    match k with
    | .callbackEvents e => fun (v v' : Option CallbackEventRow) =>
      e ∈ ids ∧ ∃ a, v = some a ∧ v' = some (a.claimed dispatcherId timeoutSeconds now)
    | _ => fun _ _ => False

/-- A claim leaves a row as it is, or claims it. -/
theorem claimWrites_view {timeoutSeconds : ℕ} {ids : List UUID} {w : ServiceWorld} {T : Option (Txn Row)}
    (h : Follows (claimWrites dispatcherId timeoutSeconds ids) w T) (k : Key) :
    claimRel dispatcherId timeoutSeconds ids (w.txn T).start k (w.committed.lookup k)
      (((w.txn T).view w.committed).lookup k) := by
  refine Follows.view (claimRel_refl _ _ _) (fun t ht ws hws k o hk => ?_) k
  have hwrite := h t ht ws hws k o hk
  cases k with
  | callbackEvents e => exact .inr hwrite
  | _ => exact hwrite.elim

/-- A claim under way: it has read one snapshot, the events `ids` are eligible in it, and it has
written nothing but claims of such events. -/
def Claiming (settings : Settings) (dispatcherId : String) (ids : List UUID) : Condition := fun w T =>
  ∃ t tie σ, T = some t ∧ t.aborted = false ∧ t.reads = [σ] ∧
    (∀ id ∈ ids, id ∈ eligible settings tie t.start σ) ∧
    Follows (claimWrites dispatcherId settings.callbackTimeoutSeconds (eligible settings tie t.start σ))
      w T

/-- The candidates of the claim come from its own snapshot, which nobody can change. -/
theorem Claiming.stable {ids : List UUID} :
    Stable (commitSpec rt) i l (Claiming settings dispatcherId ids) := by
  rintro w w' T henv ⟨t, tie, σ, ht, hlive, hreads, hids, hfollows⟩
  exact ⟨t, tie, σ, ht, hlive, hreads, hids, Follows.stable _ w w' T henv hfollows⟩

/-- The transaction has claimed row `id` and holds it; `e` is what it has written. -/
def Taken (settings : Settings) (dispatcherId : String) (id : UUID) (e : CallbackEventRow) :
    Condition := fun w T =>
  ∃ t row, T = some t ∧ w.committed.lookup (.callbackEvents id) = some row ∧
    e = row.claimed dispatcherId settings.callbackTimeoutSeconds t.start ∧
    t.writes.dlookup (.callbackEvents id) = some (some e)

/-- A row that the claim has locked cannot be changed by the others until it commits. -/
theorem Taken.stable {id : UUID} {e : CallbackEventRow} :
    Stable (commitSpec rt) i l (Taken settings dispatcherId id e) := by
  rintro w w' T henv ⟨t, row, rfl, hrow, he, hwrite⟩
  have hholds : t.holds (.callbackEvents id) = true := holds_of_dlookup (.inl rfl) hwrite
  exact ⟨t, row, rfl, (henv.kept _ hholds).trans hrow, he, hwrite⟩

/-- All these rows are taken: locked by the claim and written as claimed. -/
abbrev AllTaken (settings : Settings) (dispatcherId : String) (rows : List (UUID × CallbackEventRow)) :
    Condition := fun w T =>
  ∀ r ∈ rows, Taken settings dispatcherId r.1 r.2 w T

/-- So all rows taken so far stay as they are. -/
theorem AllTaken.stable {rows : List (UUID × CallbackEventRow)} :
    Stable (commitSpec rt) i l (AllTaken settings dispatcherId rows) :=
  fun w w' T henv h r hr => Taken.stable w w' T henv (h r hr)

/-- Claiming one more row leaves the rows taken that are; a row claimed twice is claimed the same. -/
theorem Taken.claim {id id' : UUID} {e e' : CallbackEventRow} {w : ServiceWorld} {t : Txn Row}
    (h : Taken settings dispatcherId id e w (some t))
    (hlook : (t.view w.committed).lookup (.callbackEvents id') = some e') :
    Taken settings dispatcherId id e w (some (t.write (.callbackEvents id')
      (some (e'.claimed dispatcherId settings.callbackTimeoutSeconds t.start)))) := by
  obtain ⟨_, row, ⟨⟩, hrow, he, hwrite⟩ := h
  refine ⟨_, row, rfl, hrow, he, ?_⟩
  by_cases hid : id = id'
  · subst hid
    have hview : (t.view w.committed).lookup (.callbackEvents id) = some e :=
      lookup_patch_of_mem hwrite w.committed
    obtain rfl := Option.some.inj (hlook.symm.trans hview)
    rw [Txn.write, List.dlookup_cons_eq, he]
    rfl
  · rw [Txn.write, List.dlookup_cons_ne _ _ (by simp [hid])]
    exact hwrite

/-- Taking one of the eligible rows. -/
theorem claimRow_triple {ids : List UUID} {id : UUID} (hid : id ∈ ids)
    (rows : List (UUID × CallbackEventRow)) :
    Triple (commitSpec rt) i l
      (fun w T => Claiming settings dispatcherId ids w T ∧ AllTaken settings dispatcherId rows w T)
      (perform (.row (.callbackEvents id) true fun now (old : Option CallbackEventRow) =>
        match old with
        | some e => .put (e.claimed dispatcherId settings.callbackTimeoutSeconds now)
        | none => .leave))
      (fun r w T => Claiming settings dispatcherId ids w T ∧
        AllTaken settings dispatcherId (r.elim rows fun e => (id, e) :: rows) w T) anything := by
  refine row (Claiming.stable.and AllTaken.stable) ?_ ?_ fun _ _ _ _ _ => trivial
  · rintro - w _ - ⟨⟨t, tie, σ, rfl, h⟩, htaken⟩
    exact ⟨⟨t, tie, σ, rfl, h⟩, htaken⟩
  · rintro w _ - ⟨⟨t, tie, σ, rfl, hlive, hreads, hids, hfollows⟩, htaken⟩ -
    have hview := claimWrites_view hfollows (.callbackEvents id)
    simp only [World.txn, Option.getD_some] at hview ⊢
    cases hlook : (t.view w.committed).lookup (.callbackEvents id) with
    | none => exact ⟨⟨t, tie, σ, rfl, hlive, hreads, hids, hfollows⟩, htaken⟩
    | some e =>
      rw [hlook] at hview
      refine ⟨⟨t.write (.callbackEvents id) _, tie, σ, rfl, hlive, hreads, hids, ?_⟩, ?_⟩
      · refine hfollows.write ⟨hids id hid, ?_⟩
        rcases hview with hsame | ⟨-, a, ha, hclaimed⟩
        · exact ⟨e, hsame.symm, rfl⟩
        · cases hclaimed
          exact ⟨a, ha, rfl⟩
      · intro r hr
        rcases List.mem_cons.mp hr with rfl | hr
        · rcases hview with hsame | ⟨-, a, ha, hclaimed⟩
          · exact ⟨_, e, rfl, hsame.symm, rfl, List.dlookup_cons_eq ..⟩
          · cases hclaimed
            exact ⟨_, a, rfl, ha, rfl, List.dlookup_cons_eq ..⟩
        · exact (htaken r hr).claim hlook

/-- The events that are returned for rows taken. -/
abbrev Returned (secret : String → Option String) (rows : List (UUID × CallbackEventRow))
    (events : List CallbackEvent) : Prop :=
  ∀ event ∈ events, ∃ r ∈ rows, event = r.2.toEvent r.1 (secret r.2.tenantId)

/-- The loop over the candidates. After each, the rows taken so far are locked, marked as claimed, and make up
the batch. -/
theorem claimRows_triple {all : List UUID} {secret : String → Option String} (ids : List UUID)
    (hids : ∀ id ∈ ids, id ∈ all) (rows : List (UUID × CallbackEventRow)) :
    Triple (commitSpec rt) i l
      (fun w T => Claiming settings dispatcherId all w T ∧ AllTaken settings dispatcherId rows w T)
      (claimRows settings dispatcherId secret ids)
      (fun events w T => Claiming settings dispatcherId all w T ∧ ∃ rows', rows ⊆ rows' ∧
        Returned secret rows' events ∧ AllTaken settings dispatcherId rows' w T) anything := by
  induction ids generalizing rows with
  | nil =>
    exact .pure _ fun _ _ h => ⟨h.1, rows, List.Subset.refl _, fun _ he => (List.not_mem_nil he).elim, h.2⟩
  | cons id ids ih =>
    refine .bind (claimRow_triple (hids id List.mem_cons_self) rows) fun r => .bind
      (ih (fun id hid => hids id (List.mem_cons_of_mem _ hid)) _) fun rest => .pure _ ?_
    rintro w T ⟨hclaiming, rows', hsub, hreturned, htaken⟩
    refine ⟨hclaiming, rows', ?_, ?_, htaken⟩
    · cases r with
      | none => exact hsub
      | some e => exact List.Subset.trans (List.subset_cons_self _ _) hsub
    · cases r with
      | none => exact hreturned
      | some e =>
        intro event hevent
        rcases List.mem_cons.mp hevent with rfl | hevent
        · exact ⟨(id, e), hsub List.mem_cons_self, rfl⟩
        · exact hreturned event hevent

/-- A claim that is about to be committed, and the events it will return. -/
def ClaimReady (settings : Settings) (dispatcherId : String) (events : List CallbackEvent) : Condition :=
  fun w T => (∃ ids, Claiming settings dispatcherId ids w T) ∧ ∃ secret rows,
    Returned secret rows events ∧ AllTaken settings dispatcherId rows w T

/-- Before its COMMIT the claim is a matter of its own session. -/
theorem ClaimReady.stable {events : List CallbackEvent} :
    Stable (commitSpec rt) i l (ClaimReady settings dispatcherId events) := by
  rintro w w' T henv ⟨⟨ids, hclaiming⟩, secret, rows, hreturned, htaken⟩
  exact ⟨⟨ids, Claiming.stable w w' T henv hclaiming⟩, secret, rows, hreturned,
    AllTaken.stable w w' T henv htaken⟩

/-- It does not speak about the log, so counters may be moved. -/
theorem ClaimReady.unlogged {events : List CallbackEvent} :
    Unlogged (ClaimReady settings dispatcherId events) := by
  intro w T i l ev h
  exact h

/-- The query and the loop over its rows: what is then committed is a claim of the batch that is returned. -/
theorem claimCallbackEvents_triple :
    Triple (commitSpec rt) i l Idle (claimCallbackEvents dispatcherId settings)
      (ClaimReady settings dispatcherId) anything := by
  refine .bind (Triple.ask_ok commitSpec_logs Idle.stable Idle.unlogged) fun tie => ?_
  have hselect : Triple (commitSpec rt) i l Idle (perform (.select (claimSnapshot settings tie)))
      (fun snapshot w T => Claiming settings dispatcherId snapshot.1 w T ∧
        AllTaken settings dispatcherId [] w T) anything := by
    refine select Idle.stable (fun w T _ h _ => ?_) fun _ _ _ _ _ => trivial
    rw [h]
    refine ⟨⟨_, tie, w.committed, rfl, rfl, rfl, fun id hid => mem_orderBy.mp hid, ?_⟩,
      fun _ hr => (List.not_mem_nil hr).elim⟩
    rintro _ ⟨⟩ ws hws k o hk
    rcases hws with rfl | hws <;> simp [World.txn, Txn.read] at *
  refine .bind hselect fun snapshot => .bind (claimRows_triple _ (fun _ h => h) []) fun events => ?_
  refine .bind ((Triple.ask_ok commitSpec_logs ClaimReady.stable ClaimReady.unlogged).pre fun w T h =>
    ⟨⟨_, h.1⟩, snapshot.2, h.2.imp fun _ h => h.2⟩) fun order => .pure _ ?_
  rintro w T ⟨hclaiming, secret, rows, hreturned, htaken⟩
  exact ⟨hclaiming, secret, rows, fun event hevent => hreturned event (mem_orderBy.mp hevent), htaken⟩

/-! The events of a batch are different ones. -/

/-- Numbering the rows of each tenant does not change which rows there are. -/
theorem map_rowNumbers (rows : List (UUID × CallbackEventRow)) (before : List String) :
    (rowNumbers rows before).map Prod.fst = rows.map Prod.fst := by
  induction rows generalizing before with
  | nil => rfl
  | cons r rows ih => rw [rowNumbers, List.map_cons, List.map_cons, ih]

/-- A query over a table gives every row at most once, however the ties are broken. -/
theorem eligible_nodup {tie : UUID → ℕ} {now : Time} {s : Tables} :
    (eligible settings tie now s).Nodup := by
  have hranked : ∀ rows, (rows.map Prod.fst).Nodup →
      ((rowNumbers (orderBy (dueOrder tie) rows) []).map Prod.fst).Nodup := by
    intro rows hrows
    rw [map_rowNumbers]
    exact ((orderBy_perm _ rows).map Prod.fst).nodup_iff.mpr hrows
  unfold eligible
  refine List.Nodup.sublist ((List.take_sublist _ _).map Prod.fst) ?_
  rw [((orderBy_perm _ _).map Prod.fst).nodup_iff]
  exact (hranked _ ((eventIds_nodup s).sublist (List.filter_sublist.map _))).sublist
    (List.filter_sublist.map _)

/-- The batch is a part of the candidates, in their order: those that were not locked and still due. -/
theorem claimRows_ids {secret : String → Option String} (ids : List UUID) :
    Triple (commitSpec rt) i l (fun _ _ => True) (claimRows settings dispatcherId secret ids)
      (fun events _ _ => (events.map CallbackEvent.eventId).Sublist ids) anything := by
  induction ids with
  | nil => exact .pure _ fun _ _ _ => List.Sublist.refl []
  | cons id ids ih =>
    refine .bind (of_noCommit commitSpec_logs (by exact .perform trivial)) fun r => .bind ih
      fun rest => .pure _ fun _ _ h => ?_
    cases r with
    | none => exact h.cons id
    | some e => exact h.cons_cons id

theorem claimCallbackEvents_ids :
    Triple (commitSpec rt) i l (fun _ _ => True) (claimCallbackEvents dispatcherId settings)
      (fun events _ _ => (events.map CallbackEvent.eventId).Nodup) anything := by
  refine .bind (of_noCommit commitSpec_logs (by exact .perform trivial)) fun tie => ?_
  have hselect : Triple (commitSpec rt) i l (fun _ _ => True)
      (perform (.select (claimSnapshot settings tie))) (fun snapshot _ _ => snapshot.1.Nodup ∧ True)
      anything :=
    select (fun _ _ _ _ h => h)
      (fun w T _ _ _ => ⟨(orderBy_perm _ _).nodup_iff.mpr eligible_nodup, trivial⟩)
      fun _ _ _ _ _ => trivial
  refine .bind hselect fun snapshot => .pure_pre fun hids => .bind (claimRows_ids snapshot.1)
    fun events => ?_
  have hask : Triple (commitSpec rt) i l
      (fun _ _ => (events.map CallbackEvent.eventId).Sublist snapshot.1) (ask .tieBreak)
      (fun _ _ _ => (events.map CallbackEvent.eventId).Sublist snapshot.1) anything :=
    Triple.ask_ok commitSpec_logs (fun _ _ _ _ h => h) fun _ _ _ _ _ h => h
  refine .bind hask fun order => .pure _ fun _ _ h => ?_
  exact ((orderBy_perm _ events).map CallbackEvent.eventId).nodup_iff.mpr (hids.sublist h)

/-- Where a row taken is committed, the event returned for it is known and claimed. -/
theorem Taken.committed {id : UUID} {e : CallbackEventRow} {secret : Option String} {w : ServiceWorld}
    {t : Txn Row} (h : Taken settings dispatcherId id e w (some t)) (hlive : t.aborted = false) :
    Batch settings dispatcherId i [e.toEvent id secret]
      (w.commit i (.runOnce settings dispatcherId) t) := by
  obtain ⟨_, row, ⟨⟩, hrow, rfl, hwrite⟩ := h
  simp only [Batch, EventsKnown, Claimed, List.mem_singleton, forall_eq, World.commit, hlive,
    Bool.false_eq_true, if_false]
  refine ⟨⟨_, lookup_patch_of_mem hwrite w.committed, rfl⟩, _, List.mem_cons_self, rfl, rfl, t,
    w.committed, row, secret, rfl, hrow, hwrite, rfl⟩

/-- The claim is committed as it is. -/
theorem commit_claiming {events : List CallbackEvent} :
    Triple (commitSpec rt) i (.runOnce settings dispatcherId) (ClaimReady settings dispatcherId events)
      (perform .commit) (fun _ w T => Idle w T ∧ Batch settings dispatcherId i events w)
      fun _ => Idle := by
  refine stage_commit_then ClaimReady.stable (fun _ _ _ h => h) (commitSpec_commits ?_) ?_
  · rintro w _ - ⟨⟨ids, t, tie, σ, ⟨⟩, -, hreads, -, hfollows⟩, -⟩
    exact .claim tie σ hreads (claimWrites_view hfollows)
  · rintro w T - ⟨⟨ids, t, tie, σ, rfl, hlive, -⟩, secret, rows, hreturned, htaken⟩
    have hone : ∀ event ∈ events, Batch settings dispatcherId i [event]
        (w.commit i (.runOnce settings dispatcherId) t) := by
      intro event hevent
      obtain ⟨r, hr, rfl⟩ := hreturned event hevent
      exact (htaken r hr).committed hlive
    exact ⟨fun event he => (hone event he).1 event List.mem_cons_self,
      fun event he => (hone event he).2 event List.mem_cons_self⟩

/-! ## Outcomes -/

section Outcomes

variable {event : CallbackEvent} {now : Time} {ps : Changes Row} {σs : List Tables}

/-- An UPDATE of an event by its primary key adds the change of this row to the stage. -/
theorem updateEvent_triple {set : Time → CallbackEventRow → CallbackEventRow}
    (hps : ps.dlookup (.callbackEvents event.eventId) = none) :
    Triple (commitSpec rt) i l
      (fun w T => Pending now ps σs w T ∧ EventKnown event w.committed)
      (updateEvent event.eventId set)
      (fun _ w T => ∃ σ e, Pending now
        (⟨.callbackEvents event.eventId, (some e, some (set now e))⟩ :: ps) (σ :: σs) w T)
      anything :=
  .bind (Triple.updateByKey (.callbackEvents _) (fun h => h) hps (eventKnown_lasting event)
    fun _ _ h => h.imp fun _ h => h.1) fun _ => .pure _ fun _ _ h => h

/-- In every run, each event has its match. -/
theorem linked_of_facts {w : ServiceWorld} (h : (commitSpec rt).facts w) : Linked w.committed :=
  h.2.chained.invariant (fun _ _ h => by cases h) fun e he t b hc hb => (h.1.legal e he t b hc).linked hb

/-- The UPDATE of the match finds its row, since the event is linked to it. -/
theorem setMatchStatus_triple {status : MatchStatus}
    (hps : ps.dlookup (.matches event.matchId) = none) :
    Triple (commitSpec rt) i l
      (fun w T => Pending now ps σs w T ∧ EventKnown event w.committed)
      (setMatchStatus event.matchId status)
      (fun _ w T => ∃ σ m, Pending now (⟨.matches event.matchId,
        (some m, some { m with status := status })⟩ :: ps) (σ :: σs) w T ∧
        EventKnown event w.committed) anything := by
  refine .bind (any (retain (eventKnown_lasting event) (Triple.updateByKey (.matches _) (fun h => h)
    hps (eventKnown_lasting event) ?_))) fun _ => .pure _ ?_
  · rintro w hfacts ⟨row, hrow, hmatch⟩
    exact hmatch ▸ linked_of_facts hfacts _ _ hrow
  · rintro w T ⟨⟨σ, m, hpending⟩, hknown⟩
    exact ⟨σ, m, hpending, hknown⟩

/-- All that is pending is one outcome of the event, of the kind `p`. -/
def Recorded (event : CallbackEvent) (p : Outcome → Prop) : Condition := fun w T =>
  ∃ (o : Outcome) (now : Time) (σs : List Tables) (e : CallbackEventRow) (m : Match), p o ∧
    Pending now (o.changes event.eventId e m now) σs w T

/-- A record of an outcome with a property is one with every weaker property. -/
theorem Recorded.mono {event : CallbackEvent} {p q : Outcome → Prop} (hpq : ∀ o, p o → q o)
    {w : ServiceWorld} {T : Option (Txn Row)} (h : Recorded event p w T) : Recorded event q w T := by
  obtain ⟨o, now, σs, e, m, ho, hpending⟩ := h
  exact ⟨o, now, σs, e, m, hpq o ho, hpending⟩

/-- The entry is the commit of an outcome of the event `e` by session `i`, of the kind `p`. -/
def RecordsOutcome (i : ℕ) (e : UUID) (p : Outcome → Prop) (entry : LogEntry) : Prop :=
  entry.session = i ∧ ∃ (o : Outcome) (t : Txn Row) (b : Tables) (ev : CallbackEventRow), p o ∧
    entry.event.commit? = some (t, b) ∧ b.lookup (.callbackEvents e) = some ev ∧
    t.writes.dlookup (.callbackEvents e) = some (some (o.apply t.start ev))

/-- Session `i` has committed an outcome of the event, and the outcome has the property `p`. -/
abbrev OutcomeLogged (i : ℕ) (event : CallbackEvent) (p : Outcome → Prop) (w : ServiceWorld) : Prop :=
  ∃ entry ∈ w.log, RecordsOutcome i event.eventId p entry

/-- The COMMIT of an outcome is allowed by the service's rules, and it is in the log afterwards. -/
theorem commit_recorded {p : Outcome → Prop} :
    Triple (commitSpec rt) i (.runOnce settings dispatcherId) (Recorded event p)
      (perform .commit) (fun _ w T => Idle w T ∧ OutcomeLogged i event p w) fun _ => Idle := by
  refine stage_commit_then ?_ (fun _ _ _ h => h) (commitSpec_commits ?_) ?_
  · exact .exists fun _ => .exists fun _ => .exists fun _ => .exists fun _ => .exists fun _ =>
      Stable.and (.own fun _ => _) Stage.stable
  · rintro w t hfacts ⟨o, now, σs, e, m, -, hpending⟩
    have he := hpending.committed (.callbackEvents event.eventId) (fun h => h)
      (List.dlookup_cons_eq ..)
    obtain ⟨m', hm'⟩ := linked_of_facts hfacts _ _ he
    -- where the outcome sets the status of the match, the match locked is the one committed
    have hchanges : o.changes event.eventId e m now = o.changes event.eventId e m' now := by
      cases hst : o.matchStatus? with
      | none => simp only [Outcome.changes, hst]
      | some status =>
        have hm := hpending.committed (.matches e.matchId) (fun h => h) (by
          simp only [Outcome.changes, hst]
          exact (List.dlookup_cons_ne _ _ (by simp)).trans (List.dlookup_cons_eq ..))
        rw [Option.some.inj (hm'.symm.trans hm)]
    obtain ⟨t', ⟨⟩, hhas⟩ := hpending
    obtain rfl := hhas.start
    exact .outcome o event.eventId e m' hm' (hchanges ▸ hhas.changed)
  · rintro w T - ⟨o, now, σs, e, m, hp, t, rfl, hhas⟩
    obtain rfl := hhas.start
    obtain ⟨hnew, hold⟩ := hhas.written (.callbackEvents event.eventId) (fun h => h) _ _
      (o.dlookup_event ..)
    simp only [Option.elim, World.commit, hhas.live, Bool.false_eq_true, if_false]
    exact ⟨_, List.mem_cons_self, rfl, o, t, w.committed, e, hp, rfl, hold, hnew⟩

/-- An outcome that leaves the match alone. -/
theorem updateEvent_recorded (p : Outcome → Prop) (o : Outcome) (ho : o.matchStatus? = none)
    (hp : p o) :
    Triple (commitSpec rt) i l (fun w T => Pending now [] σs w T ∧ EventKnown event w.committed)
      (updateEvent event.eventId o.apply) (fun _ => Recorded event p) anything := by
  refine (updateEvent_triple rfl).post ?_
  rintro - w T ⟨σ, e, hpending⟩
  refine ⟨o, now, σ :: σs, e, default, hp, ?_⟩
  simp only [Outcome.changes, ho]
  exact hpending

/-- An outcome that goes with a status of the match, which is set already. -/
theorem updateEvent_recorded_set (p : Outcome → Prop) (o : Outcome) {status : MatchStatus}
    (ho : o.matchStatus? = some status) (hp : p o) :
    Triple (commitSpec rt) i l (fun w T => ∃ σ m, Pending now [⟨.matches event.matchId,
        (some m, some { m with status := status })⟩] (σ :: σs) w T ∧ EventKnown event w.committed)
      (updateEvent event.eventId o.apply) (fun _ => Recorded event p) anything := by
  refine .exists_pre fun σ => .exists_pre fun m => ?_
  refine post (any (retain (eventKnown_lasting event) (updateEvent_triple (by
    simp [List.dlookup_cons_ne])))) ?_
  rintro - w T ⟨⟨σ', e, hpending⟩, row, hrow, hmatch⟩
  have he := hpending.committed (.callbackEvents event.eventId) (fun h => h) (List.dlookup_cons_eq ..)
  obtain rfl := Option.some.inj (hrow.symm.trans he)
  refine ⟨o, now, σ' :: σ :: σs, row, m, hp, ?_⟩
  simp only [Outcome.changes, ho]
  exact hmatch ▸ hpending

/-- The two statements of `mark_delivered` make up the outcome `delivered`. -/
theorem markDelivered_body (now : Time) :
    Triple (commitSpec rt) i l (fun w T => Pending now [] [] w T ∧ EventKnown event w.committed) (do
      setMatchStatus event.matchId .callbackDelivered
      updateEvent event.eventId CallbackEventRow.markDelivered)
      (fun _ => Recorded event (· = .delivered)) anything :=
  .bind (setMatchStatus_triple rfl) fun _ => updateEvent_recorded_set (· = .delivered) _ rfl rfl

/-- The one statement of `release_claim` makes up the outcome `released`. -/
theorem releaseClaim_body {error : Option String} (now : Time) :
    Triple (commitSpec rt) i l (fun w T => Pending now [] [] w T ∧ EventKnown event w.committed)
      (updateEvent event.eventId fun _ e => e.release error)
      (fun _ => Recorded event (· = .released error)) anything :=
  updateEvent_recorded (· = .released error) _ rfl rfl

/-- The transaction around them commits that outcome, or leaves no trace of it. -/
theorem markDelivered_triple :
    Triple (commitSpec rt) i (.runOnce settings dispatcherId)
      (fun w T => Idle w T ∧ EventKnown event w.committed) (markDelivered event)
      (fun _ w T => Idle w T ∧ OutcomeLogged i event (· = .delivered) w) anything :=
  Triple.transaction_outer (eventKnown_lasting event)
    markDelivered_body fun _ => commit_recorded

/-- The transaction of `release_claim`, in the same way. -/
theorem releaseClaim_triple {error : Option String} :
    Triple (commitSpec rt) i (.runOnce settings dispatcherId)
      (fun w T => Idle w T ∧ EventKnown event w.committed) (releaseClaim event error)
      (fun _ w T => Idle w T ∧ OutcomeLogged i event (· = .released error) w) anything :=
  Triple.transaction_outer (eventKnown_lasting event)
    releaseClaim_body fun _ => commit_recorded

/-- What `next_backoff_seconds` computes before it adds the jitter: the doubled base, up to the maximum. -/
def cappedBackoff (attempts : ℕ) (settings : Settings) : ℕ :=
  min (settings.callbackBaseBackoffSeconds * 2 ^ (attempts - 1)) settings.callbackMaxBackoffSeconds

/-- The outcome of a failed attempt: the last one fails the event, the others put it off. -/
def FailedAttempt (settings : Settings) (event : CallbackEvent) (error : String) (o : Outcome) : Prop :=
  if settings.callbackMaxAttempts ≤ event.attempts + 1 then o = .failed error
  else ∃ jitter, o = .retry (cappedBackoff (event.attempts + 1) settings + jitter) error

/-- A retry is put off by the backoff and the jitter, and no longer. -/
def Timely (settings : Settings) (event : CallbackEvent) (o : Outcome) : Prop :=
  ∀ backoff error, o = .retry backoff error →
    backoff ≤ cappedBackoff (event.attempts + 1) settings + settings.callbackJitterSeconds

/-- A failed attempt is a failure for good or a retry with jitter, by the number of attempts that the claim
has read. -/
theorem markFailedAttempt_body {error : String} (now : Time) :
    Triple (commitSpec rt) i l (fun w T => Pending now [] [] w T ∧ EventKnown event w.committed) (do
      if settings.callbackMaxAttempts ≤ event.attempts + 1 then do
        setMatchStatus event.matchId .callbackFailed
        updateEvent event.eventId fun _ e => e.markFailed error
        pure true
      else do
        let backoff ← nextBackoffSeconds (event.attempts + 1) settings
        updateEvent event.eventId (CallbackEventRow.markRetry backoff error)
        pure false)
      (fun _ => Recorded event fun o => FailedAttempt settings event error o ∧ Timely settings event o)
      anything := by
  refine .ite (fun hlast => ?_) fun hmore => ?_
  -- the last attempt: failed for good
  · have hfailed : FailedAttempt settings event error (.failed error) ∧
        Timely settings event (.failed error) := by
      rw [FailedAttempt, if_pos hlast]
      exact ⟨rfl, fun _ _ h => by cases h⟩
    exact .bind (setMatchStatus_triple rfl) fun _ => .bind (updateEvent_recorded_set
      (fun o => FailedAttempt settings event error o ∧ Timely settings event o) (.failed error) rfl
      hfailed) fun _ => .pure _ fun _ _ h => h
  -- attempts are left: the backoff of the next one, with some jitter
  · have hbackoff : Triple (commitSpec rt) i l
        (fun w T => Pending now [] [] w T ∧ EventKnown event w.committed)
        (nextBackoffSeconds (event.attempts + 1) settings)
        (fun backoff w T => (∃ jitter ≤ settings.callbackJitterSeconds,
          backoff = cappedBackoff (event.attempts + 1) settings + jitter) ∧
          Pending now [] [] w T ∧ EventKnown event w.committed) anything :=
      .bind (keep (eventKnown_lasting event) (Triple.ask_ok commitSpec_logs Stage.stable
        Pending.unlogged)) fun jitter => .pure _ fun _ _ h =>
          ⟨⟨jitter.val, (jitter.property (Nat.zero_le _)).2, rfl⟩, h⟩
    refine .bind hbackoff fun backoff => .pure_pre ?_
    rintro ⟨jitter, hjitter, rfl⟩
    have hretry : FailedAttempt settings event error
        (.retry (cappedBackoff (event.attempts + 1) settings + jitter) error) ∧
        Timely settings event
          (.retry (cappedBackoff (event.attempts + 1) settings + jitter) error) := by
      rw [FailedAttempt, if_neg hmore]
      refine ⟨⟨jitter, rfl⟩, ?_⟩
      rintro _ _ ⟨⟩
      exact Nat.add_le_add_left hjitter _
    exact .bind (updateEvent_recorded
      (fun o => FailedAttempt settings event error o ∧ Timely settings event o) (.retry _ error) rfl
      hretry) fun _ => .pure _ fun _ _ h => h

/-- The transaction of `mark_failed_attempt` commits one of the two. -/
theorem markFailedAttempt_triple {error : String} :
    Triple (commitSpec rt) i (.runOnce settings dispatcherId)
      (fun w T => Idle w T ∧ EventKnown event w.committed) (markFailedAttempt event settings error)
      (fun _ w T => Idle w T ∧ OutcomeLogged i event (FailedAttempt settings event error) w) anything :=
  Triple.transaction_outer (eventKnown_lasting event)
    (fun now => (markFailedAttempt_body now).post fun _ _ _ h => h.mono fun _ ho => ho.1)
    fun _ => commit_recorded

/-- The outcomes that a try to persist may record, for a POST that has ended with this error or without
one. -/
def OutcomeOf (settings : Settings) (event : CallbackEvent) : Option String → Outcome → Prop
  | none => (· = .delivered)
  | some error => FailedAttempt settings event error

/-- A logged outcome is not forgotten when the connection is given back. -/
theorem commit_logged {p : Outcome → Prop} :
    Triple (commitSpec rt) i (.runOnce settings dispatcherId)
      (fun w T => Idle w T ∧ OutcomeLogged i event p w) (perform .commit)
      (fun _ w T => Idle w T ∧ OutcomeLogged i event p w) fun _ => Idle :=
  (frame (commitSpec_logged _) Triple.commit_idle).conseq (fun _ _ h => h) (fun _ _ _ h => h)
    fun _ _ _ h => h.1

/-- A try to persist that succeeds has committed the outcome. -/
theorem persistOnce_triple (error : Option String) :
    Triple (commitSpec rt) i (.runOnce settings dispatcherId)
      (fun w T => Idle w T ∧ EventKnown event w.committed) (persistOnce event settings error)
      (fun _ w T => Idle w T ∧ OutcomeLogged i event (OutcomeOf settings event error) w) fun _ => Idle := by
  cases error with
  | none =>
    exact Triple.withConnection commitSpec_logs (eventKnown_lasting event)
      (.bind markDelivered_triple fun _ => .pure _ fun _ _ h => h) fun _ => commit_logged
  | some error =>
    exact Triple.withConnection commitSpec_logs (eventKnown_lasting event) markFailedAttempt_triple
      fun _ => commit_logged

/-- Giving a claim back, on a connection of its own. -/
theorem release_triple {error : Option String} :
    Triple (commitSpec rt) i (.runOnce settings dispatcherId)
      (fun w T => Idle w T ∧ EventKnown event w.committed) (withConnection (releaseClaim event error))
      (fun _ w T => Idle w T ∧ OutcomeLogged i event (· = .released error) w) fun _ => Idle :=
  Triple.withConnection commitSpec_logs (eventKnown_lasting event) releaseClaim_triple
    fun _ => commit_logged

/-- Of several tries, one that succeeds has committed the outcome. -/
theorem persistTries_triple {F : Exn → Condition} (error : Option String) (n : ℕ) :
    Triple (commitSpec rt) i (.runOnce settings dispatcherId)
      (fun w T => Idle w T ∧ EventKnown event w.committed) (persistTries event settings error n)
      (fun r w T => (Idle w T ∧ EventKnown event w.committed) ∧
        ∀ finalFailed, r = .ok finalFailed → OutcomeLogged i event (OutcomeOf settings event error) w) F := by
  induction n with
  | zero => exact .pure _ fun _ _ h => ⟨h, fun _ hr => by cases hr⟩
  | succ n ih =>
    have hattempt : Triple (commitSpec rt) i (.runOnce settings dispatcherId)
        (fun w T => Idle w T ∧ EventKnown event w.committed)
        (attempt (persistOnce event settings error))
        (fun r w T => (Idle w T ∧ ∀ finalFailed, r = .ok finalFailed →
          OutcomeLogged i event (OutcomeOf settings event error) w) ∧ EventKnown event w.committed) F := by
      refine (Triple.attempt (retain (eventKnown_lasting event) (persistOnce_triple error))).post ?_
      rintro (e | finalFailed) w T h
      · exact ⟨⟨h.1, fun _ hr => by cases hr⟩, h.2⟩
      · exact ⟨⟨h.1.1, fun _ _ => h.1.2⟩, h.2⟩
    refine .bind hattempt ?_
    rintro (e | finalFailed)
    · exact .ite (fun _ => .pure _ fun _ _ h => ⟨⟨h.1.1, h.2⟩, fun _ hr => by cases hr⟩)
        fun _ => ih.pre fun _ _ h => ⟨h.1.1, h.2⟩
    · exact .pure _ fun _ _ h => ⟨⟨h.1.1, h.2⟩, fun _ _ => h.1.2 finalFailed rfl⟩

/-- Whatever fails on the way, the retry loop ends without an open transaction. -/
theorem persistDeliveryOutcome_triple (error : Option String) :
    Triple (commitSpec rt) i (.runOnce settings dispatcherId)
      (fun w T => Idle w T ∧ EventKnown event w.committed)
      (persistDeliveryOutcome event settings error) (fun _ => Idle) fun _ => Idle := by
  refine .bind ((persistTries_triple error deadlockMaxRetries).post fun _ _ _ h => h.1) ?_
  rintro (e | finalFailed)
  · exact .bind (release_triple.post fun _ _ _ h => h.1) fun _ => .throw e fun _ _ h => h
  · exact .pure _ fun _ _ h => h.1

end Outcomes

/-! ## Delivery -/

/-- What `deliver_event` makes of the reply to its POST: the text of an error, or nothing for a status from
200 to 299. -/
def HttpResult.error? : HttpResult → Option String
  | .response statusCode =>
    if 200 ≤ statusCode ∧ statusCode < 300 then none
    else some ("callback returned HTTP " ++ toString statusCode)
  | .httpError msg => some msg

/-- What `build_headers` returns at the time `timestamp`, as a function of the event and of the body. -/
def headersAt (rt : Runtime) (event : CallbackEvent) (body timestamp : String) :
    List (String × String) :=
  [("Content-Type", "application/json"), ("X-PMS-Event-Id", uuidText event.eventId),
    ("X-PMS-Timestamp", timestamp), ("X-PMS-Signature",
      "sha256=" ++ signature rt (event.callbackSecret.getD "") timestamp body)]

/-- The POST of the event, with all that it is made of: URL, body, signed headers and timeout. -/
def postOf (rt : Runtime) (settings : Settings) (event : CallbackEvent) (timestamp : String) : Call :=
  .post event.callbackUrl (encodePayload event.payload)
    (headersAt rt event (encodePayload event.payload) timestamp) settings.callbackTimeoutSeconds

/-- The entry is a completed POST of the event by session `i` of the actor `l`; `error` is the error
it ended with. -/
def PostsEvent (rt : Runtime) (settings : Settings) (i : ℕ) (l : Actor) (event : CallbackEvent)
    (error : Option String) (entry : LogEntry) : Prop :=
  entry.session = i ∧ entry.actor = l ∧ ∃ timestamp, ∃ reply : HttpResult,
    entry.event = .call (postOf rt settings event timestamp) (.ok reply) ∧ error = reply.error?

/-- Session `i` has POSTed the event, and the reply was an error, or none, as `error` says. -/
abbrev Posted (rt : Runtime) (settings : Settings) (i : ℕ) (l : Actor) (event : CallbackEvent)
    (error : Option String) (w : ServiceWorld) : Prop :=
  ∃ entry ∈ w.log, PostsEvent rt settings i l event error entry

/-- A delivery that returns has made its POST. -/
theorem deliverEvent_posted {P : Condition} (hP : Stable (commitSpec rt) i l P) (hU : Unlogged P)
    {event : CallbackEvent} :
    Triple (commitSpec rt) i l P (deliverEvent rt event settings)
      (fun error w T => P w T ∧ Posted rt settings i l event error w) anything := by
  have hheaders : Triple (commitSpec rt) i l P
      (buildHeaders rt event (encodePayload event.payload)) (fun headers w T =>
        (∃ timestamp, headers = headersAt rt event (encodePayload event.payload) timestamp) ∧ P w T)
      anything :=
    .bind (Triple.ask_ok commitSpec_logs hP hU) fun now => .pure _ fun _ _ h => ⟨⟨_, rfl⟩, h⟩
  refine .bind hheaders fun headers => .pure_pre ?_
  rintro ⟨timestamp, rfl⟩
  have hpost : Triple (commitSpec rt) i l P (ask (postOf rt settings event timestamp))
      (fun (reply : HttpResult) w T => P w T ∧ Posted rt settings i l event reply.error? w) anything := by
    refine call hP (fun w _ y hfacts _ => commitSpec_logs w _ trivial hfacts) ?_
    rintro w T (e | reply) - h
    · trivial
    · exact ⟨hU w T i l _ h, _, List.mem_cons_self, rfl, rfl, timestamp, reply, rfl, rfl⟩
  refine .bind hpost ?_
  rintro (statusCode | msg)
  · refine .ite (fun hok => .pure _ fun _ _ h => ?_) fun hbad => .pure _ fun _ _ h => ?_
    · rw [HttpResult.error?, if_pos hok] at h
      exact h
    · rw [HttpResult.error?, if_neg hbad] at h
      exact h
  · exact .pure _ fun _ _ h => h

/-- A POST is made outside of any transaction, so all that holds of the tables still holds afterwards. -/
theorem deliverEvent_triple {P : Condition} (hP : Stable (commitSpec rt) i l P) (hU : Unlogged P)
    {event : CallbackEvent} :
    Triple (commitSpec rt) i l P (deliverEvent rt event settings) (fun _ => P) anything :=
  (deliverEvent_posted hP hU).post fun _ _ _ h => h.1

/-! ## One round -/

/-- The loop over the batch: each event is POSTed, its outcome persisted, and the next one finds the session
idle. -/
theorem deliverEvents_triple (events : List CallbackEvent) :
    Triple (commitSpec rt) i (.runOnce settings dispatcherId)
      (fun w T => Idle w T ∧ EventsKnown events w) (deliverEvents rt settings events)
      (fun _ => Idle) anything := by
  induction events with
  | nil => exact .pure _ fun _ _ h => h.1
  | cons event events ih =>
    have hrest : (commitSpec rt).Lasting i (.runOnce settings dispatcherId) (EventsKnown events) :=
      eventsKnown_lasting events
    refine .bind (deliverEvent_triple (Idle.stable.and (eventsKnown_lasting _).stable)
      fun _ _ _ _ _ h => h) fun error => .bind (Triple.attempt ((frame hrest
      (persistDeliveryOutcome_triple (error.map trim))).pre fun w T h => ⟨⟨h.1, h.2 event
        List.mem_cons_self⟩, fun e he => h.2 e (List.mem_cons_of_mem _ he)⟩)) ?_
    rintro (e | finalFailed)
    · exact ih
    · exact .bind (keep hrest (Triple.record commitSpec_logs Idle.stable Idle.unlogged)) fun _ => ih

/-- Claiming a batch, of which the events are different ones. -/
theorem claimBatch_triple :
    Triple (commitSpec rt) i (.runOnce settings dispatcherId) Idle (claimBatch settings dispatcherId)
      (fun events w T => (events.map CallbackEvent.eventId).Nodup ∧ Idle w T ∧
        Batch settings dispatcherId i events w) anything := by
  have hclaim : Triple (commitSpec rt) i (.runOnce settings dispatcherId) (fun w T => Idle w T ∧ True)
      (do
        let events ← claimCallbackEvents dispatcherId settings
        perform .commit
        pure events) (fun events w T => (events.map CallbackEvent.eventId).Nodup ∧ Idle w T ∧
          Batch settings dispatcherId i events w) anything := by
    refine .bind ((claimCallbackEvents_ids.and claimCallbackEvents_triple).any.pre
      fun _ _ h => ⟨trivial, h.1⟩) fun events => .pure_pre fun hids => ?_
    exact .bind commit_claiming.any fun _ => .pure _ fun _ _ h => ⟨hids, h⟩
  have hcommit : ∀ events : List CallbackEvent,
      Triple (commitSpec rt) i (.runOnce settings dispatcherId)
      (fun w T => (events.map CallbackEvent.eventId).Nodup ∧ Idle w T ∧
        Batch settings dispatcherId i events w) (perform .commit)
      (fun _ w T => (events.map CallbackEvent.eventId).Nodup ∧ Idle w T ∧
        Batch settings dispatcherId i events w) fun _ => Idle := fun events => .pure_pre fun hids =>
    (frame (batch_lasting events) Triple.commit_idle).conseq (fun _ _ h => h)
      (fun _ _ _ h => ⟨hids, h⟩) fun _ _ _ h => h.1
  exact (Triple.withConnection commitSpec_logs .trivial hclaim hcommit).any.pre fun _ _ h => ⟨h, trivial⟩

/-- The commits of one round of a dispatcher are legal. -/
theorem runOnce_triple :
    Triple (commitSpec rt) i (.runOnce settings dispatcherId) Idle
      (runOnce rt settings dispatcherId) (fun _ => Idle) anything :=
  .bind (claimBatch_triple.post fun _ _ _ h => ⟨h.2.1, h.2.2.1⟩) fun events => .bind (keep (eventsKnown_lasting events)
    (Triple.record commitSpec_logs Idle.stable Idle.unlogged)) fun _ =>
    .bind (deliverEvents_triple events) fun _ => .pure _ fun _ _ h => h

end Matchmaking
