import Matchmaking.Dispatcher.Protocol

/-!
# Events stay eligible until they are final

An event that is claimed has a lock that expires. So whatever happens to its dispatcher, the event is
due again from some time on, unless it is final; and it is not final before somebody has POSTed it.
-/

namespace Matchmaking

open ReadCommitted

variable {rt : Runtime} {l : Actor} {t : Txn Row} {b s : Tables} {e : UUID}
  {ev : CallbackEventRow} {v v' : Option CallbackEventRow}

/-! ## The locks of events -/

/-- Every event in progress has a lock with an end. -/
def LocksEnd (s : Tables) : Prop :=
  ∀ e ev, s.lookup (.callbackEvents e) = some ev → ev.status = .inProgress → ev.lockedUntil.isSome

/-- The steps of an event do not leave it in progress without an end of the lock. -/
theorem EventStep.lockedUntil (h : EventStep l t e v v')
    (hv : ∀ ev, v = some ev → ev.status = .inProgress → ev.lockedUntil.isSome) :
    ∀ ev', v' = some ev' → ev'.status = .inProgress → ev'.lockedUntil.isSome := by
  rintro ev' rfl hst
  cases h with
  | same => exact hv ev' rfl hst
  | made n he => cases hst
  | claimed hl tie σ hσ he ev => exact rfl
  | outcome hl o ev => exact absurd hst (o.status_apply t.start ev)

theorem Legal.locksEnd (h : Legal rt l t s) (hs : LocksEnd s) : LocksEnd (patch t.writes s) :=
  fun e => (h.eventStep e).lockedUntil (hs e)

/-! ## Eligibility -/

/-- From some time on the row satisfies the condition of `claim_callback_events`. -/
def EventuallyDue (ev : CallbackEventRow) : Prop :=
  ∃ T, ∀ now, T ≤ now → ev.isDue now = true

/-- What is not final waits for its next attempt or for the end of its lock. -/
theorem eventuallyDue_of_lock (hlock : ev.status = .inProgress → ev.lockedUntil.isSome)
    (hfinal : ev.status.isFinal = false) : EventuallyDue ev := by
  cases hst : ev.status with
  | pending =>
    refine ⟨ev.nextAttemptAt, fun now hnow => ?_⟩
    simp [CallbackEventRow.isDue, hst, hnow]
  | inProgress =>
    obtain ⟨u, hu⟩ := Option.isSome_iff_exists.mp (hlock hst)
    refine ⟨max ev.nextAttemptAt u, fun now hnow => ?_⟩
    obtain ⟨hnext, hunlocked⟩ := Int.max_le.mp hnow
    simp [CallbackEventRow.isDue, hst, hu, hnext, hunlocked]
  | delivered =>
    rw [hst] at hfinal
    cases hfinal
  | failed =>
    rw [hst] at hfinal
    cases hfinal

/-! ## POSTs before final outcomes -/

/-- The entry is a POST of the event `e`, by the header that names the event. -/
def IsPostOf (e : UUID) (entry : LogEntry) : Prop :=
  ∃ url body headers timeout reply,
    entry.event = .call (.post url body headers timeout) (.ok reply) ∧
      ("X-PMS-Event-Id", uuidText e) ∈ headers

theorem PostsEvent.isPostOf {settings : Settings} {i : ℕ} {event : CallbackEvent}
    {error : Option String} {entry : LogEntry} (h : PostsEvent rt settings i l event error entry) :
    IsPostOf event.eventId entry := by
  obtain ⟨-, -, timestamp, reply, hcall, -⟩ := h
  refine ⟨_, _, _, _, reply, hcall, ?_⟩
  simp [headersAt]

/-- The row has no final status. -/
def Unfinished (v : Option CallbackEventRow) : Prop := ∀ ev, v = some ev → ev.status.isFinal = false

/-- A step that makes an event final counts an attempt of it. -/
theorem EventStep.counts (h : EventStep l t e (b.lookup (.callbackEvents e))
      ((patch t.writes b).lookup (.callbackEvents e))) (hv : Unfinished (b.lookup (.callbackEvents e)))
    {ev' : CallbackEventRow} (hev' : (patch t.writes b).lookup (.callbackEvents e) = some ev')
    (hfinal : ev'.status.isFinal = true) :
    ∃ settings d ev, l = .runOnce settings d ∧ Counts t b e ev ev' := by
  rw [hev'] at h
  generalize hev : b.lookup (.callbackEvents e) = v at h hv
  cases h with
  | same => cases (hv ev' rfl).symm.trans hfinal
  | made n he => cases hfinal
  | claimed hl tie σ hσ he ev => cases hfinal
  | @outcome settings d hl o ev =>
    refine ⟨settings, d, ev, hl, hev, hev', ?_⟩
    -- giving the claim back and retrying are not final
    cases o with
    | delivered | failed error => exact Nat.succ_ne_self ev.attempts
    | retry backoff error | released error => cases hfinal

/-- An event that becomes final has been POSTed before. -/
def FinalAfterPost (log : List LogEntry) : Prop :=
  ∀ newer entry older, log = newer ++ entry :: older → ∀ t b, entry.event.commit? = some (t, b) →
    ∀ e ev', Unfinished (b.lookup (.callbackEvents e)) →
      (patch t.writes b).lookup (.callbackEvents e) = some ev' → ev'.status.isFinal = true →
        ∃ post ∈ older, IsPostOf e post

theorem Protocol.finalAfterPost {w : ServiceWorld} (h : Protocol rt w.log) (hpast : Past rt w) :
    FinalAfterPost w.log := by
  intro newer entry older hlog t b hc e ev' hv hev' hfinal
  have hentry : entry ∈ w.log := hlog ▸ List.mem_append_right _ List.mem_cons_self
  obtain ⟨settings, d, ev, hactor, hcounts⟩ :=
    ((hpast.legal hentry hc).eventStep e).counts hv hev' hfinal
  obtain ⟨o, -, event, error, rfl, -, ⟨post, hpost, hposts⟩, -⟩ :=
    h.due newer entry older hlog settings d hactor t b hc e ev ev' hcounts
  exact ⟨post, hpost, hposts.isPostOf⟩

/-- **No event is stranded.** In every reachable state every event is delivered, or failed, or due from
some time on as it is; and no event has become final without a POST. -/
theorem never_stranded {clock : Time} {s : ServiceState}
    (hs : (service rt).Reachable (emptyState clock) s) :
    (∀ e ev, s.world.committed.lookup (.callbackEvents e) = some ev →
      ev.status = .delivered ∨ ev.status = .failed ∨ EventuallyDue ev) ∧
    FinalAfterPost s.world.log := by
  have hpast := service_past hs
  refine ⟨fun e ev hev => ?_, (protocol (fun _ _ => rfl) hs).finalAfterPost hpast⟩
  have hlocks : LocksEnd s.world.committed :=
    hpast.invariant (fun _ _ h => by cases h) fun _ _ _ h => h.locksEnd
  cases hst : ev.status with
  | delivered => exact .inl rfl
  | failed => exact .inr (.inl rfl)
  | pending | inProgress =>
    exact .inr (.inr (eventuallyDue_of_lock (hlocks e ev hev) (by rw [hst]; rfl)))

/-- The event of the sample run is delivered after its POST. -/
theorem never_stranded_sample :
    (∀ e ev, sampleState.world.committed.lookup (.callbackEvents e) = some ev →
      ev.status = .delivered ∨ ev.status = .failed ∨ EventuallyDue ev) ∧
    FinalAfterPost sampleState.world.log :=
  never_stranded sampleState_reachable

end Matchmaking
