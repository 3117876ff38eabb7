import Matchmaking.Refinement
import Matchmaking.ReadCommitted.Snapshots

/-!
# The snapshots of a dispatcher

A dispatcher makes no events and leaves alone what is fixed about them. So the events that one of its
transactions has read are still there when it commits, for the same tenants.
-/

namespace Matchmaking

open ReadCommitted

variable {rt : Runtime} {i : ℕ} {l : Actor} {settings : Settings} {dispatcherId : String}
  {event : CallbackEvent}

/-! ## The rows a dispatcher writes -/

/-- Every event written was there before, with the same fixed columns. -/
def eventRows : RowRel Row := fun _ k =>
  match k with
  | .callbackEvents e => fun v v' => RowKept (.callbackEvents e) v' v
  | _ => fun _ _ => True

/-- A row that is kept over two steps is kept over both. -/
theorem RowKept.trans {k : Key} {v v' v'' : Option (Row k)} (h : RowKept k v v')
    (h' : RowKept k v' v'') : RowKept k v v'' := by
  intro hk a ha
  obtain ⟨b, hb, hab⟩ := h hk a ha
  obtain ⟨c, hc, hbc⟩ := h' hk b hb
  exact ⟨c, hc, hab.trans hbc⟩

/-- A row that is not written is kept. -/
theorem eventRows_refl (now : Time) (k : Key) (v : Option (Row k)) : eventRows now k v v := by
  cases k <;> first | exact RowKept.of_eq rfl | trivial

/-- Rows of events are kept over two writes. -/
theorem eventRows_trans (now : Time) (k : Key) (v v' v'' : Option (Row k)) (h : eventRows now k v v')
    (h' : eventRows now k v' v'') : eventRows now k v v'' := by
  cases k <;> first | exact RowKept.trans h' h | trivial

/-- A change of an event's other columns. -/
theorem eventRows_of_identity {now : Time} {e : UUID} {ev ev' : CallbackEventRow}
    (h : ev'.identity = ev.identity) : eventRows now (.callbackEvents e) (some ev) (some ev') := by
  rintro - a ⟨⟩
  exact ⟨ev, rfl, h.symm⟩

/-- The relation permits every outcome of the event `e`, and every status of a match. -/
structure PermitsOutcomes (Φ : RowRel Row) (e : UUID) : Prop where
  event : ∀ (o : Outcome) now ev, Φ now (.callbackEvents e) (some ev) (some (o.apply now ev))
  matchRow : ∀ now m v v', Φ now (.matches m) v v'

/-- The statements of outcomes keep the rows of events, as far as snapshots are compared with them. -/
theorem eventRows_permits (e : UUID) : PermitsOutcomes eventRows e where
  event o now ev := eventRows_of_identity (o.identity_apply now ev)
  matchRow _ _ _ _ := trivial

namespace UsesRows

variable {Φ : RowRel Row}

/-- An UPDATE by primary key follows a relation that allows the change of its row. -/
theorem updateByKey {k : Key} {cond : Time → Row k → Bool} {set : Time → Row k → Row k}
    (h : ∀ now v, cond now v = true → Φ now k (some v) (some (set now v))) :
    UsesRows Φ (updateByKey k cond set) :=
  .bind select fun _ => .ite (fun _ => updateRow h) fun _ => .pure _

/-- An outcome is written. -/
theorem updateEvent {e : UUID} (hΦ : PermitsOutcomes Φ e) (o : Outcome) :
    UsesRows Φ (updateEvent e o.apply) :=
  .bind (updateByKey fun now ev _ => hΦ.event o now ev) fun _ => .pure _

theorem setMatchStatus {e : UUID} (hΦ : PermitsOutcomes Φ e) {matchId : UUID} {status : MatchStatus} :
    UsesRows Φ (setMatchStatus matchId status) :=
  .bind (updateByKey fun _ _ _ => hΦ.matchRow _ _ _ _) fun _ => .pure _

theorem releaseClaim (hΦ : PermitsOutcomes Φ event.eventId) {error : Option String} :
    UsesRows Φ (releaseClaim event error) :=
  Uses.transaction blocks (updateEvent hΦ (.released error))

theorem persistOnce (hΦ : PermitsOutcomes Φ event.eventId) (error : Option String) :
    UsesRows Φ (persistOnce event settings error) := by
  cases error with
  | none =>
    refine withConnection (.bind (Uses.transaction blocks ?_) fun _ => .pure _)
    exact .bind (setMatchStatus hΦ) fun _ => updateEvent hΦ .delivered
  | some error =>
    refine withConnection (Uses.transaction blocks (.ite (fun _ => ?_) fun _ => ?_))
    · exact .bind (setMatchStatus hΦ) fun _ => .bind (updateEvent hΦ (.failed error)) fun _ => .pure _
    · exact .bind (.bind (ask _) fun _ => .pure _) fun _ =>
        .bind (updateEvent hΦ (.retry _ error)) fun _ => .pure _

theorem persistTries (hΦ : PermitsOutcomes Φ event.eventId) (error : Option String) (n : ℕ) :
    UsesRows Φ (persistTries event settings error n) := by
  induction n with
  | zero => exact .pure _
  | succ n ih =>
    refine .bind (attempt (persistOnce hΦ error)) ?_
    rintro (e | finalFailed)
    · exact .ite (fun _ => .pure _) fun _ => ih
    · exact .pure _

/-- The tries and the release at the end of them are all allowed. -/
theorem persistDeliveryOutcome (hΦ : PermitsOutcomes Φ event.eventId) (error : Option String) :
    UsesRows Φ (persistDeliveryOutcome event settings error) := by
  refine .bind (persistTries hΦ error deadlockMaxRetries) ?_
  rintro (e | finalFailed)
  · exact .bind (withConnection (releaseClaim hΦ)) fun _ => .throw e
  · exact .pure _

theorem deliverEvent : UsesRows Φ (deliverEvent rt event settings) := by
  refine .bind (.bind (ask _) fun _ => .pure _) fun _ => .bind (ask _) ?_
  rintro (statusCode | msg)
  · exact .ite (fun _ => .pure _) fun _ => .pure _
  · exact .pure _

/-- After its claim a dispatcher writes outcomes only. -/
theorem deliverEvents {events : List CallbackEvent}
    (hΦ : ∀ event ∈ events, PermitsOutcomes Φ event.eventId) :
    UsesRows Φ (deliverEvents rt settings events) := by
  induction events with
  | nil => exact .pure _
  | cons event events ih =>
    obtain ⟨hevent, hevents⟩ := List.forall_mem_cons.mp hΦ
    refine .bind deliverEvent fun error => .bind (attempt (persistDeliveryOutcome hevent _)) ?_
    rintro (e | finalFailed)
    · exact ih hevents
    · exact .bind (record _) fun _ => ih hevents

/-- A claim writes claimed versions of rows. -/
theorem claimBatch (hΦ : ∀ now e ev,
      Φ now (.callbackEvents e) (some ev) (some (ev.claimed dispatcherId settings.callbackTimeoutSeconds now))) :
    UsesRows Φ (claimBatch settings dispatcherId) := by
  have hrows : ∀ (secret : String → Option String) ids,
      UsesRows Φ (claimRows settings dispatcherId secret ids) := by
    intro secret ids
    induction ids with
    | nil => exact .pure _
    | cons id ids ih =>
      refine .bind (.perform fun now v => ?_) fun _ => .bind ih fun _ => .pure _
      cases v with
      | none => trivial
      | some ev => exact hΦ now id ev
  have hclaim : UsesRows Φ (claimCallbackEvents dispatcherId settings) :=
    .bind (ask _) fun _ => .bind select fun _ => .bind (hrows _ _) fun _ => .bind (ask _) fun _ =>
      .pure _
  exact withConnection (.bind hclaim fun _ => .bind commit fun _ => .pure _)

/-- All that an iteration writes keeps the rows of events. -/
theorem runOnce : UsesRows eventRows (runOnce rt settings dispatcherId) :=
  .bind (claimBatch fun now e ev => @eventRows_of_identity now e ev _ rfl) fun _ =>
    .bind (record _) fun _ => .bind (deliverEvents fun event _ => eventRows_permits event.eventId) fun _ =>
      .pure _

end UsesRows

/-! ## What a dispatcher has read -/

/-- The events of the snapshot are in the store, with the same fixed columns. -/
def EventsKept (σ s : Tables) : Prop :=
  ∀ e, RowKept (.callbackEvents e) (σ.lookup (.callbackEvents e)) (s.lookup (.callbackEvents e))

/-- The snapshots of the dispatchers' commits: every event in them is in the tables of the commit, with the
same identity. -/
def SnapshotsKept (log : List LogEntry) : Prop :=
  ∀ entry ∈ log, ∀ settings d, entry.actor = .runOnce settings d → ∀ t b,
    entry.event.commit? = some (t, b) → ∀ σ ∈ t.reads, EventsKept σ b

/-- One more entry keeps the rule if the tables it is committed to have the events of its snapshots. -/
theorem SnapshotsKept.cons {log : List LogEntry} (h : SnapshotsKept log) {entry : LogEntry}
    (he : ∀ settings d, entry.actor = .runOnce settings d → ∀ t b,
      entry.event.commit? = some (t, b) → ∀ σ ∈ t.reads, EventsKept σ b) :
    SnapshotsKept (entry :: log) := by
  intro entry' hentry'
  rcases List.mem_cons.mp hentry' with rfl | hentry'
  · exact he
  · exact h entry' hentry'

/-- Everybody relies on the events to stay, and all commits see to it. -/
def snapshotSpec (rt : Runtime) : Spec Row Reply Exn Metric Answer Actor where
  inv w := SnapshotsKept w.log
  known := Past rt
  rely _ _ := Grows
  guar _ _ := Grows
  post _ _ _ _ _ := True

/-- Entries that are no commits keep the rule. -/
theorem snapshotSpec_push {w : ServiceWorld} (h : SnapshotsKept w.log)
    {ev : Event Row Reply Exn Metric Answer} (hev : ev.commit? = none) :
    (snapshotSpec rt).guar i l w (w.push i l ev) ∧ (snapshotSpec rt).inv (w.push i l ev) := by
  refine ⟨.push .., h.cons fun _ _ _ t b hc => ?_⟩
  cases hev.symm.trans hc

/-- What each actor guarantees, the others rely on. -/
theorem snapshotSpec_lawful {sys : System Row Reply Exn Metric Answer Actor}
    (hsymm : ∀ l l', sys.exclusive l l' = sys.exclusive l' l) : (snapshotSpec rt).Lawful sys where
  exclusive_symm := hsymm
  rely_refl _ _ _ := .refl _
  rely_trans _ _ _ _ _ h h' := h.trans h'
  guar_rely _ _ _ _ _ _ _ _ _ h := h
  post_stable _ _ _ _ _ _ _ _ h := h
  tick _ _ _ h := ⟨h, fun _ _ => ⟨.refl _, List.suffix_refl _⟩⟩
  begun _ _ _ h := snapshotSpec_push h rfl
  answer _ _ _ _ _ h _ := snapshotSpec_push h rfl

theorem snapshotSpec_logs : (snapshotSpec rt).Logs i l := by
  intro w ev hev h
  refine snapshotSpec_push h.1 ?_
  cases ev <;> first | rfl | cases hev

/-- Commits of dispatchers whose snapshots are kept, and all commits of others. -/
theorem snapshotSpec_commits : (snapshotSpec rt).Commits i l fun w t =>
    (∃ settings d, l = .runOnce settings d) → ∀ σ ∈ t.reads, EventsKept σ w.committed := by
  intro w t hfacts _ hlive hknown hkept
  simp only [World.commit, hlive, Bool.false_eq_true, if_false] at hknown ⊢
  have hlegal : Legal rt l t w.committed := hknown.legal List.mem_cons_self rfl
  refine ⟨⟨hlegal.persist, List.suffix_cons _ _⟩, SnapshotsKept.cons hfacts.1 ?_⟩
  rintro settings d hactor _ _ ⟨⟩
  exact hkept ⟨settings, d, hactor⟩

/-- A commit that is allowed under a condition is allowed under a stronger one. -/
theorem Spec.Commits.mono {S : Spec Row Reply Exn Metric Answer Actor}
    {C C' : ServiceWorld → Txn Row → Prop} (h : S.Commits i l C) (hC : ∀ w t, C' w t → C w t) :
    S.Commits i l C' :=
  fun w t hfacts hstart hlive hknown hc => h w t hfacts hstart hlive hknown (hC w t hc)

/-- Each snapshot of an iteration has events that the tables still have when it commits. -/
theorem runOnce_snapshots : Triple (snapshotSpec rt) i (.runOnce settings dispatcherId) Idle
    (runOnce rt settings dispatcherId) anything anything := by
  have hreads : Triple (snapshotSpec rt) i (.runOnce settings dispatcherId)
      (fun w T => Follows eventRows w T ∧ ReadsRelate EventsKept w T)
      (runOnce rt settings dispatcherId) anything anything := by
    refine Triple.readsRelate eventRows_refl eventRows_trans (fun w w' hgrows σ hσ e => ?_)
      (fun now s s' h e => h (.callbackEvents e)) snapshotSpec_logs
      (Spec.Commits.mono snapshotSpec_commits fun w t h _ => h) UsesRows.runOnce
    exact (hσ e).trans (hgrows.persist (.callbackEvents e))
  refine hreads.pre fun w T h => ⟨Follows.idle h, fun t ht => ?_⟩
  cases h.symm.trans ht

/-- **Snapshots of dispatchers.** In every run the events that a dispatcher's transaction has read are in
the store that it is committed on. -/
theorem snapshots_kept {exclusive : Actor → Actor → Bool}
    (hsymm : ∀ l l', exclusive l l' = exclusive l' l) {clock : Time} {s : ServiceState}
    (hs : (actors rt exclusive).Reachable (emptyState clock) s) : SnapshotsKept s.world.log := by
  refine (Spec.sound (snapshotSpec_lawful hsymm) (fun i l w _ _ => ?_) ?_ rfl rfl
    (fun _ h => past_of_reachable hsymm h) hs).inv
  case refine_2 => exact fun _ he => (List.not_mem_nil he).elim
  have hprogram : Triple (snapshotSpec rt) i l Idle (program rt l) anything anything := by
    have hother : (∀ settings d, l ≠ .runOnce settings d) →
        Triple (snapshotSpec rt) i l Idle (program rt l) anything anything := fun hl =>
      .of_commits snapshotSpec_logs (Spec.Commits.mono snapshotSpec_commits
        fun _ _ _ ⟨settings, d, h⟩ => absurd h (hl settings d))
    cases l with
    | runOnce settings dispatcherId =>
      exact .bind runOnce_snapshots fun _ => .pure _ fun _ _ _ => trivial
    | _ => exact hother fun _ _ h => by cases h
  exact wp_mono (fun _ _ _ _ => trivial) _ w none (hprogram.sound w none rfl)

end Matchmaking
