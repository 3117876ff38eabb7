import Matchmaking.Dispatcher.Snapshots
import Matchmaking.EntryRules

/-!
# Claims of callback events

A claim decides on its snapshot which events are free, and locks their newest versions later. So every
claim has a window in the log, from its snapshot to its commit. It takes no event away from another
dispatcher if no other dispatcher commits a claim of the event in that window.
-/

namespace Matchmaking

open ReadCommitted

variable {rt : Runtime} {l : Actor} {t : Txn Row} {b s : Tables} {d : String} {e : UUID}
  {row row' : CallbackEventRow}

/-! ## Claims in the log -/

/-- Another dispatcher holds the event: `in_progress`, locked by it, and `locked_until > now`. -/
def CallbackEventRow.isHeldByOther (dispatcherId : String) (now : Time) (e : CallbackEventRow) :
    Bool :=
  e.isInFlight now && e.lockedBy.any fun d => d ≠ dispatcherId

/-- Transaction `t`, committed on the store `b`, claims the event `e` for the dispatcher `d`: it finds
the newest committed version `row` and writes `row'`. -/
structure Claims (l : Actor) (t : Txn Row) (b : Tables) (d : String) (e : UUID)
    (row row' : CallbackEventRow) : Prop where
  dispatcher : ∃ settings, l = .runOnce settings d ∧
    row' = row.claimed d settings.callbackTimeoutSeconds t.start
  found : b.lookup (.callbackEvents e) = some row
  taken : t.writes.dlookup (.callbackEvents e) = some (some row')

namespace Claims

variable (h : Claims l t b d e row row')

include h

theorem status : row'.status = .inProgress := by
  obtain ⟨settings, -, rfl⟩ := h.dispatcher
  rfl

/-- It is locked by the dispatcher that has claimed it. -/
theorem lockedBy : row'.lockedBy = some d := by
  obtain ⟨settings, -, rfl⟩ := h.dispatcher
  rfl

/-- After the commit, the tables have the claimed row. -/
theorem lookup_patch : (patch t.writes b).lookup (.callbackEvents e) = some row' :=
  lookup_patch_of_mem h.taken b

end Claims

/-- No claim takes an event that another dispatcher holds. -/
def ClaimsExclusive (log : List LogEntry) : Prop :=
  ∀ entry ∈ log, ∀ t b, entry.event.commit? = some (t, b) → ∀ d e row row',
    Claims entry.actor t b d e row row' → row.isHeldByOther d t.start = false

/-- From its snapshot until it holds its locks, no claim is disturbed: nothing is logged in the
meantime that `disturbs` a claim of the event by the dispatcher. -/
def ClaimsUndisturbed (disturbs : String → UUID → LogEntry → Prop) (log : List LogEntry) : Prop :=
  ∀ newer entry older, log = newer ++ entry :: older → ∀ t b, entry.event.commit? = some (t, b) →
    ∀ d e row row', Claims entry.actor t b d e row row' → row' ≠ row →
      ∃ between, Window t older between ∧ ∀ entry' ∈ between, ¬ disturbs d e entry'

/-- The entry commits a claim of the event. -/
def IsClaimOf (e : UUID) (entry : LogEntry) : Prop :=
  ∃ t b d row row', entry.event.commit? = some (t, b) ∧ Claims entry.actor t b d e row row'

/-- The entry commits a claim of the event `e` by another dispatcher than `d`. -/
def ClaimedByOther (d : String) (e : UUID) (entry : LogEntry) : Prop :=
  ∃ t b d' row row', entry.event.commit? = some (t, b) ∧ Claims entry.actor t b d' e row row' ∧ d' ≠ d

/-- The entry is a commit that changes the row of the event. -/
def ChangesEvent (e : UUID) (entry : LogEntry) : Prop :=
  ∃ t b, entry.event.commit? = some (t, b) ∧
    (patch t.writes b).lookup (.callbackEvents e) ≠ b.lookup (.callbackEvents e)

/-! ## Where locks come from -/

/-- A commit leaves an event that is in progress alone, or it claims it. -/
theorem Legal.inProgress (h : Legal rt l t s)
    (hrow' : (patch t.writes s).lookup (.callbackEvents e) = some row')
    (hst : row'.status = .inProgress) :
    s.lookup (.callbackEvents e) = some row' ∨ ∃ d row, Claims l t s d e row row' := by
  have hold : (patch t.writes s).lookup (.callbackEvents e) = s.lookup (.callbackEvents e) →
      s.lookup (.callbackEvents e) = some row' := fun h => h.symm.trans hrow'
  cases h with
  | rows h => exact .inl (hold (l.rows_callbackEvents (h (.callbackEvents e))))
  | pair n hn hurl h =>
    by_cases he : e = n.eventId
    · subst he
      obtain rfl := Option.some.inj (hrow'.symm.trans
        (h.lookup (.callbackEvents n.eventId) (fun h => h) (n.dlookup_event t.start)).2)
      cases hst
    · exact .inl (hold (h.frame (.callbackEvents e) (fun h => h)
        (n.dlookup_eq_none t.start (by simp [he]))))
  | @claim settings dispatcherId _ _ tie σ hσ h =>
    obtain hsame | ⟨-, row, hrow, hclaimed⟩ := h (.callbackEvents e)
    · exact .inl (hold hsame)
    obtain rfl := Option.some.inj (hrow'.symm.trans hclaimed)
    cases hw : t.writes.dlookup (.callbackEvents e) with
    | none => exact .inl (hold (lookup_patch_of_notMem hw s))
    | some o =>
      refine .inr ⟨dispatcherId, row, ⟨settings, rfl, rfl⟩, hrow, ?_⟩
      rw [hw, ← hclaimed, lookup_patch_of_mem hw]
  | outcome o eventId row m hm h =>
    by_cases he : e = eventId
    · subst he
      obtain rfl := Option.some.inj (hrow'.symm.trans
        (h.lookup (.callbackEvents e) (fun h => h) (o.dlookup_event ..)).2)
      exact absurd hst (o.status_apply t.start row)
    · exact .inl (hold (h.frame (.callbackEvents e) (fun h => h)
        (o.dlookup_eq_none _ _ _ _ (by simp [he]) (by simp))))
  | create n htenant hkey hbody hpart hknown h =>
    exact .inl (hold (h.frame (.callbackEvents e) (fun h => h)
      (n.dlookup_eq_none t.start (by simp) (by simp))))

/-- An event that is in progress was so at any earlier point of the log, in the same version, or was
claimed since. -/
theorem Past.inProgress_since {w : ServiceWorld} (h : Past rt w) {σ : Tables} {between : List LogEntry}
    (hlog : between ⊆ w.log) (hb : Chained σ between b)
    (hrow : b.lookup (.callbackEvents e) = some row) (hst : row.status = .inProgress) :
    σ.lookup (.callbackEvents e) = some row ∨ ∃ entry ∈ between, ∃ t b d row₀,
      entry.event.commit? = some (t, b) ∧ Claims entry.actor t b d e row₀ row := by
  refine hb.invariant (I := fun s => s.lookup (.callbackEvents e) = some row →
    σ.lookup (.callbackEvents e) = some row ∨ ∃ entry ∈ between, ∃ t b d row₀,
      entry.event.commit? = some (t, b) ∧ Claims entry.actor t b d e row₀ row) .inl
    (fun entry he t b hc ih hrow => ?_) hrow
  obtain hold | ⟨d, row₀, hclaims⟩ := (h.legal (hlog he) hc).inProgress hrow hst
  · exact ih hold
  · exact .inr ⟨entry, he, t, b, d, row₀, hc, hclaims⟩

/-! ## Eligible events -/

theorem mem_rowNumbers {id : UUID} {p : String × ℕ} {rows : List (UUID × CallbackEventRow)}
    {before : List String} (h : (id, p) ∈ rowNumbers rows before) : ∃ row, (id, row) ∈ rows := by
  induction rows generalizing before with
  | nil => cases h
  | cons r rows ih =>
    obtain ⟨id', row⟩ := r
    rcases List.mem_cons.mp h with heq | h
    · obtain ⟨rfl, -⟩ := Prod.mk.inj heq
      exact ⟨row, List.mem_cons_self⟩
    · exact (ih h).imp fun _ => List.mem_cons_of_mem _

/-- An eligible event is due in the snapshot. -/
theorem isDue_of_eligible {settings : Settings} {tie : UUID → ℕ} {now : Time} {σ : Tables}
    (h : e ∈ eligible settings tie now σ) :
    ∃ row, σ.lookup (.callbackEvents e) = some row ∧ row.isDue now = true := by
  obtain ⟨⟨id, p⟩, hmem, rfl⟩ := List.mem_map.mp h
  have hranked := (List.mem_filter.mp (mem_orderBy.mp (List.mem_of_mem_take hmem))).1
  obtain ⟨row, hrow⟩ := mem_rowNumbers hranked
  obtain ⟨hevent, hdue⟩ := List.mem_filter.mp (mem_orderBy.mp hrow)
  exact ⟨row, mem_rowsOf_eventRow.mp hevent, hdue⟩

/-- An event in flight is not due. -/
theorem CallbackEventRow.not_isDue {now : Time} (h : row.isInFlight now = true) :
    row.isDue now = false := by
  simp only [isInFlight, Bool.and_eq_true, decide_eq_true_eq] at h
  obtain ⟨u, hu, hnow⟩ := Option.any_eq_true _ _ |>.mp h.2
  have hlate : ¬ u ≤ now := Int.not_le.mpr (of_decide_eq_true hnow)
  simp [isDue, h.1, hu, hlate]

/-- An event under a lock that has not expired is in flight, now and before. -/
theorem CallbackEventRow.isInFlight_of_locked {now time : Time} (hst : row.status = .inProgress)
    (hlock : (row.lockedUntil.any fun u => now < u) = true) (h : time ≤ now) : row.isInFlight time = true := by
  obtain ⟨u, hu, hlater⟩ := Option.any_eq_true _ _ |>.mp hlock
  rw [isInFlight, hst, hu]
  simpa using Int.lt_of_le_of_lt h (of_decide_eq_true hlater)

/-- A commit that changes the row of an event by a claim has one snapshot, in which all such events are
eligible. -/
theorem Legal.eligible_of_claims (h : Legal rt l t b) (hclaims : Claims l t b d e row row')
    (hne : row' ≠ row) : ∃ settings tie σ, l = .runOnce settings d ∧ t.reads = [σ] ∧
      ∀ d e row row', Claims l t b d e row row' → row' ≠ row →
        e ∈ eligible settings tie t.start σ := by
  have hchanged : ∀ d e row row', Claims l t b d e row row' → row' ≠ row →
      (patch t.writes b).lookup (.callbackEvents e) ≠ b.lookup (.callbackEvents e) := by
    intro d e row row' hclaims hne hsame
    rw [hclaims.lookup_patch, hclaims.found] at hsame
    exact hne (Option.some.inj hsame)
  obtain ⟨settings, rfl, -⟩ := hclaims.dispatcher
  cases h with
  | rows h =>
    exact absurd (Actor.rows_callbackEvents _ (h (.callbackEvents e))) (hchanged d e row row' hclaims hne)
  | claim tie σ hσ h =>
    refine ⟨settings, tie, σ, rfl, hσ, fun d e row row' hclaims hne => ?_⟩
    obtain hsame | ⟨heligible, -⟩ := h (.callbackEvents e)
    · exact absurd hsame (hchanged d e row row' hclaims hne)
    · exact heligible
  | outcome o eventId row m hm h =>
    by_cases he : e = eventId
    · subst he
      obtain rfl := Option.some.inj (hclaims.lookup_patch.symm.trans
        (h.lookup (.callbackEvents e) (fun h => h) (o.dlookup_event ..)).2)
      exact absurd hclaims.status (o.status_apply t.start row)
    · exact absurd (h.frame (.callbackEvents e) (fun h => h)
        (o.dlookup_eq_none _ _ _ _ (by simp [he]) (by simp))) (hchanged d e _ row' hclaims hne)

/-- A claim that changes the row of an event has not seen it locked. -/
theorem Legal.claim_unlocked (h : Legal rt l t b) (hclaims : Claims l t b d e row row')
    (hne : row' ≠ row) {seen : CallbackEventRow} (hseen : seen.isInFlight t.start = true) :
    ∀ σ ∈ t.reads, σ.lookup (.callbackEvents e) ≠ some seen := by
  obtain ⟨settings, tie, σ, -, hσ, heligible⟩ := h.eligible_of_claims hclaims hne
  rw [hσ]
  intro σ' hσ' hrow
  obtain rfl := List.mem_singleton.mp hσ'
  obtain ⟨found, hfound, hdue⟩ := isDue_of_eligible (heligible d e row row' hclaims hne)
  obtain rfl := Option.some.inj (hfound.symm.trans hrow)
  cases hdue.symm.trans (CallbackEventRow.not_isDue hseen)

/-- A claim that takes an event from another dispatcher has seen an older version of it. -/
theorem Legal.claim_stale (h : Legal rt l t b) (hclaims : Claims l t b d e row row')
    (hheld : row.isHeldByOther d t.start = true) :
    ∀ σ ∈ t.reads, σ.lookup (.callbackEvents e) ≠ some row := by
  simp only [CallbackEventRow.isHeldByOther, Bool.and_eq_true] at hheld
  refine h.claim_unlocked hclaims ?_ hheld.1
  -- the claim changes the row, since the lock was not its own
  rintro rfl
  rw [hclaims.lockedBy] at hheld
  simp at hheld

/-! ## Windows of claims -/

/-- Each claim owes a moment of its session, at which its snapshot was taken. -/
def claimRule : EntryRule where
  due entry older := ∀ t b d e row row', entry.event.commit? = some (t, b) →
    Claims entry.actor t b d e row row' → row' ≠ row →
      ∃ mid σ, Moment entry.session older mid σ ∧ t.reads = [σ]
  quiet _ _ hquiet _ _ _ _ _ _ _ hc := by cases hquiet.symm.trans hc
  mono _ _ _ _ h t b d e row row' hc hclaims hne := by
    obtain ⟨mid, σ, hm, hreads⟩ := h t b d e row row' hc hclaims hne
    exact ⟨mid, σ, hm.mono (List.suffix_append _ _), hreads⟩

/-- The open transaction has one snapshot, taken while session `i` runs. -/
def SnapshotTaken (i : ℕ) : Condition := fun w T =>
  ∃ t, T = some t ∧ SeenAt i (fun _ σ => t.reads = [σ]) w

/-- The snapshot belongs to the session and is never taken back. -/
theorem SnapshotTaken.stable {i : ℕ} : Stable (entrySpec rt claimRule) i l (SnapshotTaken i) :=
  .exists fun t => .and (.own fun T => T = some t) (seenAt_lasting _).stable

theorem SnapshotTaken.unlogged {i : ℕ} : Unlogged (SnapshotTaken i) := by
  rintro w T j l' ev ⟨t, rfl, mid, σ, hm, hreads⟩
  exact ⟨t, rfl, mid, σ, hm.mono (List.suffix_cons _ _), hreads⟩

section Triples

variable {i : ℕ} {settings : Settings} {dispatcherId : String}

/-- The loop over the candidates keeps the snapshot that they come from. -/
theorem claimRows_taken {secret : String → Option String} (ids : List UUID) :
    Triple (entrySpec rt claimRule) i l (SnapshotTaken i) (claimRows settings dispatcherId secret ids)
      (fun _ => SnapshotTaken i) anything := by
  induction ids with
  | nil => exact .pure _ fun _ _ h => h
  | cons id ids ih =>
    have hrow : ∀ f, Triple (entrySpec rt claimRule) i l (SnapshotTaken i)
        (perform (.row (.callbackEvents id) true f)) (fun _ => SnapshotTaken i) anything := by
      intro f
      refine Triple.row SnapshotTaken.stable ?_ ?_ fun _ _ _ _ _ => trivial
      · rintro - w _ - ⟨t, rfl, h⟩
        exact ⟨t, rfl, h⟩
      · rintro w _ - ⟨t, rfl, h⟩ -
        simp only [World.txn, Option.getD_some]
        cases f t.start ((t.view w.committed).lookup (.callbackEvents id)) with
        | leave => exact ⟨t, rfl, h⟩
        | raise e => trivial
        | _ => exact ⟨_, rfl, h⟩
    exact .bind (hrow _) fun r => .bind ih fun rest => .pure _ fun _ _ h => h

/-- The query takes a snapshot of committed tables that were there while the session ran. -/
theorem claimCallbackEvents_taken : Triple (entrySpec rt claimRule) i l
    (fun w T => Idle w T ∧ Begun i w) (claimCallbackEvents dispatcherId settings)
    (fun _ => SnapshotTaken i) anything := by
  refine .bind (Triple.keep begun_lasting (Triple.ask_ok entrySpec_logs Idle.stable Idle.unlogged)) fun tie => ?_
  have hselect : Triple (entrySpec rt claimRule) i l (fun w T => Idle w T ∧ Begun i w)
      (perform (.select (claimSnapshot settings tie))) (fun _ => SnapshotTaken i) anything := by
    refine Triple.select (Idle.stable.and begun_lasting.stable) ?_ fun _ _ _ _ _ => trivial
    rintro w T hfacts ⟨hidle, hbegun⟩ -
    rw [show T = none from hidle]
    exact ⟨_, rfl, w.log, w.committed, hbegun.moment hfacts.2, rfl⟩
  refine .bind hselect fun snapshot => .bind (claimRows_taken _) fun events => ?_
  exact .bind (Triple.ask_ok entrySpec_logs SnapshotTaken.stable SnapshotTaken.unlogged) fun order =>
    .pure _ fun _ _ h => h

/-- The commit of a claim. -/
theorem commit_taken : Triple (entrySpec rt claimRule) i l (SnapshotTaken i) (perform .commit)
    (fun _ => Idle) fun _ => Idle := by
  refine Triple.stage_commit SnapshotTaken.stable (C := fun w t => SeenAt i (fun _ σ => t.reads = [σ]) w) ?_ ?_
  · rintro w t - ⟨t', ⟨⟩, h⟩
    exact h
  · refine entrySpec_commits fun w t _ hseen t' b d e row row' hc _ _ => ?_
    obtain ⟨mid, σ, hm, hreads⟩ := hseen
    cases hc
    exact ⟨mid, σ, hm, hreads⟩

/-- With its COMMIT the claim is an entry of the log, and the snapshot with it. -/
theorem claimBatch_taken : Triple (entrySpec rt claimRule) i (.runOnce settings dispatcherId)
    (fun w T => Idle w T ∧ Begun i w) (claimBatch settings dispatcherId) (fun _ => Idle) anything := by
  have hclaim : Triple (entrySpec rt claimRule) i (.runOnce settings dispatcherId)
      (fun w T => Idle w T ∧ Begun i w) (do
        let events ← claimCallbackEvents dispatcherId settings
        perform .commit
        pure events) (fun _ => Idle) anything :=
    .bind claimCallbackEvents_taken fun events => .bind commit_taken.any fun _ => .pure _ fun _ _ h => h
  exact (Triple.withConnection entrySpec_logs begun_lasting hclaim fun _ => Triple.commit_idle).any

/-- Whoever follows this puts no event in progress. -/
def outcomeRows : RowRel Row := fun _ k =>
  match k with
  | .callbackEvents _ => fun v v' => v' = v ∨ ∀ ev : CallbackEventRow, v' = some ev → ev.status ≠ .inProgress
  | _ => fun _ _ => True

/-- A row that is not written is no outcome. -/
theorem outcomeRows_refl (now : Time) (k : Key) (v : Option (Row k)) : outcomeRows now k v v := by
  cases k <;> first | exact .inl rfl | trivial

/-- Outcomes follow each other within a transaction as one. -/
theorem outcomeRows_trans (now : Time) (k : Key) (v v' v'' : Option (Row k)) (h : outcomeRows now k v v')
    (h' : outcomeRows now k v' v'') : outcomeRows now k v v'' := by
  cases k with
  | callbackEvents e =>
    obtain rfl | h' := h'
    · exact h
    · exact .inr h'
  | _ => trivial

/-- The statements of the three outcomes are within these rows. -/
theorem outcomeRows_permits (e : UUID) : PermitsOutcomes outcomeRows e where
  event o now ev := by
    refine .inr fun ev' heq => ?_
    obtain rfl := Option.some.inj heq
    exact o.status_apply now ev
  matchRow _ _ _ _ := trivial

/-- The commits of outcomes are no claims. -/
theorem deliverEvents_taken (events : List CallbackEvent) :
    Triple (entrySpec rt claimRule) i l Idle (deliverEvents rt settings events) anything anything := by
  have hcommits : (entrySpec rt claimRule).Commits i l fun w t =>
      ∀ k, outcomeRows t.start k (w.committed.lookup k) ((patch t.writes w.committed).lookup k) := by
    refine entrySpec_commits fun w t _ hrows t' b d e row row' hc hclaims hne => ?_
    cases hc
    have hrow := hrows (.callbackEvents e)
    rw [hclaims.lookup_patch, hclaims.found] at hrow
    obtain hsame | hst := hrow
    · exact absurd (Option.some.inj hsame) hne
    · exact absurd hclaims.status (hst row' rfl)
  exact ((Triple.of_uses outcomeRows_refl outcomeRows_trans entrySpec_logs hcommits
    (UsesRows.deliverEvents fun event (_ : event ∈ events) => outcomeRows_permits event.eventId)).pre
      fun _ _ h => Follows.idle h).any.post
      fun _ _ _ _ => trivial

/-- All that an iteration commits apart from its claim are outcomes, so the rule on claims holds of it. -/
theorem runOnce_taken : Triple (entrySpec rt claimRule) i (.runOnce settings dispatcherId)
    (fun w T => Idle w T ∧ Begun i w) (runOnce rt settings dispatcherId) anything anything :=
  .bind claimBatch_taken fun events => .bind (Triple.record entrySpec_logs Idle.stable Idle.unlogged) fun _ =>
    .bind (deliverEvents_taken events) fun _ => .pure _ fun _ _ _ => trivial

end Triples

/-- In every run the snapshot of each claim was taken at a moment of its session. -/
theorem claims_justified {clock : Time} {s : ServiceState}
    (hs : (service rt).Reachable (emptyState clock) s) : Justified claimRule.due s.world.log := by
  refine service_justified (fun i l born => ?_) hs
  have hanswer : ∀ (r : Except Exn Answer) (w : ServiceWorld) time,
      claimRule.due ⟨i, l, time, .answer born r⟩ w.log := by
    rintro r w time _ _ _ _ _ _ ⟨⟩
  by_cases hl : ∃ settings d, l = .runOnce settings d
  · obtain ⟨settings, d, rfl⟩ := hl
    have honce : Triple (entrySpec rt claimRule) i (.runOnce settings d)
        (fun w T => Idle w T ∧ Since born i w) (program rt (.runOnce settings d)) anything anything :=
      .bind (runOnce_taken.pre fun _ _ h => ⟨h.1, h.2.2⟩) fun _ => .pure _ fun _ _ _ => trivial
    exact honce.conseq (fun _ _ h => h) (fun _ w _ _ => hanswer _ w) fun _ w _ _ => hanswer _ w
  · have hcommits : (entrySpec rt claimRule).Commits i l fun _ _ => True := by
      refine entrySpec_commits fun _ _ _ _ t b d e row row' _ hclaims _ => ?_
      obtain ⟨settings, hactor, -⟩ := hclaims.dispatcher
      exact absurd ⟨settings, d, hactor⟩ hl
    exact (Triple.of_commits entrySpec_logs hcommits).conseq (fun _ _ h => h) (fun _ w _ _ => hanswer _ w)
      fun _ w _ _ => hanswer _ w

/-- A claim that takes an event from another dispatcher is disturbed: that dispatcher's claim lies in its
window. -/
theorem Window.claimed_between {w : ServiceWorld} (hpast : Past rt w) {older between : List LogEntry}
    (h : Window t older between) (hlog : older ⊆ w.log) (hb : Chained ∅ older b) (hlegal : Legal rt l t b)
    (hclaims : Claims l t b d e row row') (hheld : row.isHeldByOther d t.start = true) :
    ∃ entry ∈ between, ClaimedByOther d e entry := by
  have hsnapshot := h
  obtain ⟨-, σ, -, -, hreads⟩ := hsnapshot
  obtain ⟨hbetween, hsub⟩ := h.chained hb hreads
  have hstale := hlegal.claim_stale hclaims hheld
  simp only [CallbackEventRow.isHeldByOther, CallbackEventRow.isInFlight, Bool.and_eq_true,
    decide_eq_true_eq] at hheld
  obtain ⟨⟨hst, -⟩, hother⟩ := hheld
  -- the snapshot has not shown this row, so it was written since
  obtain hold | ⟨entry, hentry, t', b', d', row₀, hc', hclaims'⟩ := hpast.inProgress_since
    (fun _ he => hlog (hsub he)) hbetween hclaims.found hst
  · exact absurd hold (hstale _ (by rw [hreads]; exact List.mem_singleton_self _))
  · refine ⟨entry, hentry, t', b', d', row₀, row, hc', hclaims', ?_⟩
    rw [hclaims'.lockedBy] at hother
    simpa using hother

/-- **Claims of events.** In every run each claim has a window, from its snapshot to its commit. If no
other dispatcher commits a claim of an event in the window of a claim of this event, no claim takes an
event that another dispatcher holds. -/
theorem claims_exclusive {clock : Time} {s : ServiceState}
    (hs : (service rt).Reachable (emptyState clock) s) :
    ClaimsUndisturbed (fun _ _ _ => False) s.world.log ∧
      (ClaimsUndisturbed ClaimedByOther s.world.log → ClaimsExclusive s.world.log) := by
  have hpast := service_past hs
  constructor
  · intro newer entry older hlog t b hc d e row row' hclaims hne
    obtain ⟨mid, σ, hm, hreads⟩ := claims_justified hs newer entry older hlog t b d e row row' hc hclaims hne
    obtain ⟨between, rfl⟩ := hm.suffix
    exact ⟨between, ⟨mid, σ, rfl, hm.store, hreads⟩, fun _ _ h => h⟩
  · intro h entry hentry t b hc d e row row' hclaims
    by_contra hheld
    rw [Bool.not_eq_false] at hheld
    have hne : row' ≠ row := by
      rintro rfl
      simp [CallbackEventRow.isHeldByOther, hclaims.lockedBy] at hheld
    obtain ⟨newer, older, hlog⟩ := List.append_of_mem hentry
    obtain ⟨between, hwindow, hfree⟩ := h newer entry older hlog t b hc d e row row' hclaims hne
    have hb : Chained ∅ older b := (Chained.cut (hlog ▸ hpast.history.chained) hc).1
    obtain ⟨entry', hentry', hother⟩ := hwindow.claimed_between hpast
      (fun _ he => hlog ▸ List.mem_append_right _ (List.mem_cons_of_mem _ he)) hb (hpast.legal hentry hc)
      hclaims hheld
    exact hfree entry' hentry' hother

/-! ## Two claims at once -/

/-- Transaction `t` takes an event that another dispatcher holds. -/
def steals (t : Txn Row) (b : Tables) : Bool :=
  (rowsOf eventRow b).any fun (e, row) =>
    ((patch t.writes b).lookup (.callbackEvents e)).any fun (row' : CallbackEventRow) =>
      row'.status = .inProgress && row'.lockedBy.any fun d => row.isHeldByOther d t.start

/-- A claim of an event that is held by another dispatcher is against exclusiveness. -/
theorem not_claimsExclusive {w : ServiceWorld} (hpast : Past rt w)
    (h : w.log.any (fun entry => entry.event.commit?.any fun c => steals c.1 c.2) = true) :
    ¬ ClaimsExclusive w.log := by
  intro hexclusive
  obtain ⟨entry, hentry, hany⟩ := List.any_eq_true.mp h
  obtain ⟨⟨t, b⟩, hc, hany⟩ := Option.any_eq_true _ _ |>.mp hany
  obtain ⟨⟨e, row⟩, hrow, hany⟩ := List.any_eq_true.mp hany
  obtain ⟨row', hrow', hany⟩ := Option.any_eq_true _ _ |>.mp hany
  simp only [Bool.and_eq_true, decide_eq_true_eq] at hany
  obtain ⟨d, hd, hheld⟩ := Option.any_eq_true _ _ |>.mp hany.2
  rw [mem_rowsOf_eventRow] at hrow
  obtain hsame | ⟨d', row₀, hclaims⟩ := (hpast.legal hentry hc).inProgress hrow' hany.1
  · obtain rfl := Option.some.inj (hrow.symm.trans hsame)
    simp [CallbackEventRow.isHeldByOther, hd] at hheld
  · obtain rfl := Option.some.inj (hrow.symm.trans hclaims.found)
    obtain rfl := Option.some.inj (hd.symm.trans hclaims.lockedBy)
    cases hheld.symm.trans (hexclusive entry hentry t b hc d e row row' hclaims)

/-- A match with its event is there; then `a` takes its snapshot, `b` claims the event, and `a` takes
the event's row. -/
def overtakenScript : List (System.Move Reply Exn Actor) :=
  runs 0 (.migrate sampleSettings) ++ runs 1 (sampleRequest none "p1") ++
    runs 2 (sampleRequest none "p2") ++ runs 3 (.runLoop sampleSettings "w" 0) ++
    [.act (.start (.runOnce sampleSettings "a")), .advance sampleReply 4 3,
      .act (.start (.runOnce sampleSettings "b")), .advance sampleReply 5 8,
      .advance sampleReply 4 8]

/-- The state after the run in which a claim takes an event that another dispatcher has claimed. -/
def overtakenState : ServiceState := (service sampleRuntime).after overtakenScript (emptyState 0)

/-- The run is made of steps of the service. -/
theorem overtakenState_reachable :
    (service sampleRuntime).Reachable (emptyState 0) overtakenState :=
  System.reachable_after overtakenScript _

/-- A claim that is overtaken takes the event from the other dispatcher. -/
theorem claim_steals : (service sampleRuntime).Reachable (emptyState 0) overtakenState ∧
    ¬ ClaimsExclusive overtakenState.world.log :=
  ⟨overtakenState_reachable, not_claimsExclusive (service_past overtakenState_reachable)
    (by decide +kernel)⟩

/-! ## A lock that has expired -/

/-- The entry commits a version of the event. -/
def writesEvent (e : UUID) (entry : LogEntry) : Bool :=
  entry.event.commit?.any fun c => (c.1.writes.dlookup (.callbackEvents e)).isSome

/-- The key of an event. -/
def Key.isEvent : Key → Bool
  | .callbackEvents _ => true
  | _ => false

/-- It commits a version of some event. -/
def writesEvents (entry : LogEntry) : Bool :=
  entry.event.commit?.any fun c => c.1.writes.keys.any Key.isEvent

/-- It commits a claim. -/
def claimsEvents (entry : LogEntry) : Bool :=
  entry.event.commit?.any fun c => (rowsOf eventRow c.2).any fun r =>
    (c.1.writes.dlookup (Key.callbackEvents r.1)).any fun o =>
      o.any fun (row : CallbackEventRow) => row.status = .inProgress

/-- Sessions that claim events have begun after all that was written before about events. -/
def writesApart : List LogEntry → Bool
  | [] => true
  | entry :: older => (!claimsEvents entry || older.tails.all fun tail =>
      !tail.head?.any writesEvents || tail.tail.all fun x => x.session ≠ entry.session) && writesApart older

theorem writesEvents_of_writes {entry : LogEntry} (h : writesEvent e entry = true) :
    writesEvents entry = true := by
  obtain ⟨c, hc, hsome⟩ := Option.any_eq_true _ _ |>.mp h
  rw [writesEvents, show entry.event.commit? = some c from hc, Option.any_some, List.any_eq_true]
  exact ⟨.callbackEvents e, List.dlookup_isSome.mp hsome, rfl⟩

/-- A claim writes the event that it takes. -/
theorem Claims.writesEvent {entry : LogEntry} (h : Claims entry.actor t b d e row row')
    (hc : entry.event.commit? = some (t, b)) : writesEvent e entry = true := by
  rw [Matchmaking.writesEvent, hc, Option.any_some, h.taken]
  rfl

/-- It is found by the check on claims. -/
theorem Claims.claimsEvents {entry : LogEntry} (h : Claims entry.actor t b d e row row')
    (hc : entry.event.commit? = some (t, b)) : claimsEvents entry = true := by
  rw [Matchmaking.claimsEvents, hc, Option.any_some, List.any_eq_true]
  refine ⟨(e, row), mem_rowsOf_eventRow.mpr h.found, ?_⟩
  rw [h.taken]
  simpa using h.status

/-- The claim of another dispatcher writes events too. -/
theorem ClaimedByOther.writesEvents {entry : LogEntry} (h : ClaimedByOther d e entry) :
    writesEvents entry = true := by
  obtain ⟨t, b, d', row, row', hc, hclaims, -⟩ := h
  exact writesEvents_of_writes (hclaims.writesEvent hc)

theorem ChangesEvent.writesEvent {entry : LogEntry} (h : ChangesEvent e entry) :
    writesEvent e entry = true := by
  obtain ⟨t, b, hc, hne⟩ := h
  rw [Matchmaking.writesEvent, hc, Option.any_some]
  by_contra hnone
  exact hne (lookup_patch_of_notMem (Option.not_isSome_iff_eq_none.mp hnone) b)

/-- Of a log in which writes are apart, each older part has the property. -/
theorem writesApart_of_append {newer older : List LogEntry} (h : writesApart (newer ++ older) = true) :
    writesApart older = true := by
  induction newer with
  | nil => exact h
  | cons entry newer ih => exact ih ((Bool.and_eq_true _ _).mp h).2

/-- What was written before a session has begun is not in the window of its claim. -/
theorem claimsUndisturbed_of_apart {clock : Time} {s : ServiceState}
    (hs : (service rt).Reachable (emptyState clock) s) (h : writesApart s.world.log = true)
    {disturbs : String → UUID → LogEntry → Prop}
    (hwrites : ∀ d e entry, disturbs d e entry → writesEvents entry = true) :
    ClaimsUndisturbed disturbs s.world.log := by
  intro newer entry older hlog t b hc d e row row' hclaims hne
  obtain ⟨mid, σ, hm, hreads⟩ := claims_justified hs newer entry older hlog t b d e row row' hc hclaims hne
  obtain ⟨between, rfl⟩ := hm.suffix
  refine ⟨between, ⟨mid, σ, rfl, hm.store, hreads⟩, fun x hx hother => ?_⟩
  have hwritten := hwrites d e x hother
  obtain ⟨own, hown, hsession⟩ := hm.begun
  obtain ⟨xs, ys, rfl⟩ := List.append_of_mem hx
  have hapart := writesApart_of_append (hlog ▸ h)
  rw [writesApart, hclaims.claimsEvents hc, Bool.not_true, Bool.false_or, Bool.and_eq_true, List.all_eq_true] at hapart
  have htail := hapart.1 (x :: (ys ++ mid)) ((List.mem_tails _ _).mpr ⟨xs, by simp⟩)
  rw [List.head?_cons, Option.any_some, hwritten, Bool.not_true, Bool.false_or, List.tail_cons,
    List.all_eq_true] at htail
  exact absurd hsession (of_decide_eq_true (htail own (List.mem_append_right ys hown)))

/-- `a` claims the event and its POST hangs; when the lock has expired, `b` claims the event and
delivers it. -/
def reclaimedScript : List (System.Move Reply Exn Actor) :=
  runs 0 (.migrate sampleSettings) ++ runs 1 (sampleRequest none "p1") ++
    runs 2 (sampleRequest none "p2") ++ runs 3 (.runLoop sampleSettings "w" 0) ++
    [.act (.start (.runOnce sampleSettings "a")), .advance sampleReply 4 9, .act (.tick 4000000)] ++
    runs 5 (.runOnce sampleSettings "b")

/-- The state after the run in which an expired claim is taken over. -/
def reclaimedState : ServiceState := (service sampleRuntime).after reclaimedScript (emptyState 0)

/-- The run is made of steps of the service. -/
theorem reclaimedState_reachable : (service sampleRuntime).Reachable (emptyState 0) reclaimedState :=
  System.reachable_after reclaimedScript _

/-- The second claim takes the event when the lock of the first one has expired. -/
theorem claims_exclusive_reclaimed : reclaimedState.world.log.countP claimsEvents = 2 ∧
    ClaimsExclusive reclaimedState.world.log :=
  ⟨by decide +kernel, (claims_exclusive reclaimedState_reachable).2
    (claimsUndisturbed_of_apart reclaimedState_reachable (by decide +kernel)
      fun _ _ _ h => h.writesEvents)⟩

end Matchmaking
