import Matchmaking.CallbackClaims
import Matchmaking.Outbox

/-!
# Outcomes of callback events

The updates that record an outcome test no column of the event, so they hit whatever has become of it.
Final outcomes stay, and agree with the matches, as long as sessions record outcomes of events that they
hold: under a lock that has not expired, or at least before anybody else has claimed the event.
-/

namespace Matchmaking

open ReadCommitted

variable {rt : Runtime} {l : Actor} {t : Txn Row} {b s s' : Tables} {e : UUID}
  {ev ev' : CallbackEventRow}

/-! ## Final outcomes -/

/-- The status of an event and that of its match say the same about the callback. -/
def Agrees (s : Tables) : Prop :=
  ∀ e ev, s.lookup (.callbackEvents e) = some ev → ∃ row, s.lookup (.matches ev.matchId) = some row ∧
    (ev.status = .delivered ↔ row.status = .callbackDelivered) ∧
    (ev.status = .failed ↔ row.status = .callbackFailed)

/-- The event has the status. -/
def HasStatus (e : UUID) (status : EventStatus) (s : Tables) : Prop :=
  ∃ ev, s.lookup (.callbackEvents e) = some ev ∧ ev.status = status

/-- In a history, what is final once stays so for ever, and events always agree with their
matches. -/
structure OutcomesFinal (log : List LogEntry) : Prop where
  stays : ∀ newer between older m m', log = newer ++ (between ++ older) → Chained ∅ older m →
    Chained m between m' → ∀ e ev, m.lookup (.callbackEvents e) = some ev →
      ev.status.isFinal = true → HasStatus e ev.status m'
  agrees : ∀ newer older m, log = newer ++ older → Chained ∅ older m → Agrees m

/-- The entry commits an outcome of the event, with the transaction `t` on the store `b`, which finds the
row `ev`. -/
structure CommitsOutcome (entry : LogEntry) (t : Txn Row) (b : Tables) (e : UUID) (o : Outcome)
    (ev : CallbackEventRow) : Prop where
  commit : entry.event.commit? = some (t, b)
  found : b.lookup (.callbackEvents e) = some ev
  left : (patch t.writes b).lookup (.callbackEvents e) = some (o.apply t.start ev)
  changed : o.apply t.start ev ≠ ev

/-- The entry commits an outcome of the event. -/
def IsOutcomeOf (e : UUID) (entry : LogEntry) : Prop := ∃ t b o ev, CommitsOutcome entry t b e o ev

/-- The session of `entry` holds the event at that entry, before which `older` was logged: it has claimed
the event by `claim`, no outcome was recorded since, and its lock has not expired or nobody has claimed
the event since. -/
def HoldsEvent (e : UUID) (entry : LogEntry) (older : List LogEntry) : Prop :=
  ∃ between claim oldest t b d row row', older = between ++ claim :: oldest ∧
    claim.session = entry.session ∧ claim.event.commit? = some (t, b) ∧
    Claims claim.actor t b d e row row' ∧ (∀ x ∈ between, ¬ IsOutcomeOf e x) ∧
    ((row'.lockedUntil.any fun u => entry.time < u) = true ∨ ∀ x ∈ between, ¬ IsClaimOf e x)

/-- Sessions record outcomes of events that they hold. -/
def OutcomesHeld (log : List LogEntry) : Prop :=
  Justified (fun entry older => ∀ e, IsOutcomeOf e entry → HoldsEvent e entry older) log

/-! ## One commit -/

/-- The commit takes no final status back. -/
def KeepsFinal (t : Txn Row) (b : Tables) : Prop :=
  ∀ e ev, b.lookup (.callbackEvents e) = some ev → ev.status.isFinal = true →
    HasStatus e ev.status (patch t.writes b)

theorem KeepsFinal.notFinal (h : KeepsFinal t b) (hev : b.lookup (.callbackEvents e) = some ev)
    (hev' : (patch t.writes b).lookup (.callbackEvents e) = some ev')
    (hst : ev'.status.isFinal = false) : ev.status.isFinal = false := by
  by_contra hfinal
  rw [Bool.not_eq_false] at hfinal
  obtain ⟨ev₁, hev₁, hsame⟩ := h e ev hev hfinal
  obtain rfl := Option.some.inj (hev₁.symm.trans hev')
  rw [hsame, hfinal] at hst
  cases hst

/-! ## Who holds an event -/

/-- A claim that nobody disturbs finds the event as it has seen it, and so it is due. -/
theorem ClaimsUndisturbed.isDue {w : ServiceWorld} (hpast : Past rt w)
    (h : ClaimsUndisturbed (fun _ => ChangesEvent) w.log) {entry : LogEntry} (hentry : entry ∈ w.log)
    (hc : entry.event.commit? = some (t, b)) {d : String} (hclaims : Claims entry.actor t b d e ev ev')
    (hne : ev' ≠ ev) : ev.isDue t.start = true := by
  obtain ⟨newer, older, hlog⟩ := List.append_of_mem hentry
  obtain ⟨settings, tie, σ, -, hreads, heligible⟩ :=
    (hpast.legal hentry hc).eligible_of_claims hclaims hne
  obtain ⟨seen, hseen, hdue⟩ := isDue_of_eligible (heligible d e ev ev' hclaims hne)
  obtain ⟨between, hwindow, hsame⟩ := h newer entry older hlog t b hc d e ev ev' hclaims hne
  obtain ⟨hbetween, -⟩ := hwindow.chained (Chained.cut (hlog ▸ hpast.history.chained) hc).1 hreads
  -- nobody changes the row in the window
  have hrow : b.lookup (.callbackEvents e) = some seen :=
    hbetween.invariant (I := fun s => s.lookup (.callbackEvents e) = some seen) hseen
      fun x hx t' b' hc' hrow => by
        by_contra hchanged
        exact hsame x hx ⟨t', b', hc', fun heq => hchanged (heq.trans hrow)⟩
  obtain rfl := Option.some.inj (hclaims.found.symm.trans hrow)
  exact hdue

/-- A claimed row stays as it is while no outcome of the event is recorded, and its lock has not expired or
nobody claims it. -/
theorem ClaimsUndisturbed.row_kept {w : ServiceWorld} (hpast : Past rt w)
    (hundisturbed : ClaimsUndisturbed (fun _ => ChangesEvent) w.log) {between : List LogEntry}
    (hmem : between ⊆ w.log) {now : Time} (htime : ∀ x ∈ between, x.time ≤ now) (hb : Chained s between s')
    (hrow : s.lookup (.callbackEvents e) = some ev) (hst : ev.status = .inProgress)
    (hnone : ∀ x ∈ between, ¬ IsOutcomeOf e x)
    (hheld : (ev.lockedUntil.any fun u => now < u) = true ∨ ∀ x ∈ between, ¬ IsClaimOf e x) :
    s'.lookup (.callbackEvents e) = some ev := by
  refine hb.invariant (I := fun s => s.lookup (.callbackEvents e) = some ev) hrow
    fun x hx t' s hcx hrow => ?_
  have hlegal := hpast.legal (hmem hx) hcx
  have hstep := hlegal.eventStep e
  rw [hrow] at hstep
  generalize hnew : (patch t'.writes s).lookup (.callbackEvents e) = v at hstep
  cases hstep with
  | same => rfl
  | @claimed settings d hl tie σ hσ he =>
    by_contra hchanged
    obtain hsame | ⟨d', row₀, hclaims⟩ := hlegal.inProgress hnew rfl
    · exact hchanged (hsame.symm.trans hrow)
    obtain rfl := Option.some.inj (hclaims.found.symm.trans hrow)
    obtain hlock | hfree := hheld
    · -- the lock has not expired yet, so the event is not due
      have hdue := hundisturbed.isDue hpast (hmem hx) hcx hclaims fun heq => hchanged (congrArg some heq)
      have hstart : t'.start ≤ now := Int.le_trans (hpast.history.opened x (hmem hx) t' s hcx) (htime x hx)
      cases hdue.symm.trans (CallbackEventRow.not_isDue
        (CallbackEventRow.isInFlight_of_locked hst hlock hstart))
    · exact hfree x hx ⟨t', s, d', _, _, hcx, hclaims⟩
  | outcome hl o =>
    refine absurd ⟨t', s, o, ev, hcx, hrow, hnew, fun heq => ?_⟩ (hnone x hx)
    exact o.status_apply t'.start ev ((congrArg CallbackEventRow.status heq).trans hst)

/-- A session that holds an event finds it in progress, as its claim has left it. -/
theorem HoldsEvent.inProgress {w : ServiceWorld} (hpast : Past rt w)
    (hundisturbed : ClaimsUndisturbed (fun _ => ChangesEvent) w.log) {newer older : List LogEntry}
    {entry : LogEntry} (hlog : w.log = newer ++ entry :: older) (hb : Chained ∅ older b)
    (h : HoldsEvent e entry older) :
    ∃ ev, b.lookup (.callbackEvents e) = some ev ∧ ev.status = .inProgress := by
  obtain ⟨between, claim, oldest, t, b', d, row, row', rfl, -, hc, hclaim, hnone, hheld⟩ := h
  obtain ⟨-, hbetween⟩ := hb.cut hc
  have hordered := (List.pairwise_append.mp (hlog ▸ hpast.history.ordered)).2.1
  have htime := (List.pairwise_cons.mp hordered).1
  refine ⟨row', hundisturbed.row_kept hpast (fun x hx => ?_) (fun x hx => htime x (List.mem_append_left _ hx))
    hbetween hclaim.lookup_patch hclaim.status hnone hheld, hclaim.status⟩
  exact hlog ▸ List.mem_append_right _ (List.mem_cons_of_mem _ (List.mem_append_left _ hx))

/-- Where sessions hold the events whose outcomes they record, nobody takes a final status back. -/
theorem keepsFinal_of_held {w : ServiceWorld} (hpast : Past rt w)
    (hundisturbed : ClaimsUndisturbed (fun _ => ChangesEvent) w.log) (hheld : OutcomesHeld w.log)
    {entry : LogEntry} (hentry : entry ∈ w.log) (hc : entry.event.commit? = some (t, b)) :
    KeepsFinal t b := by
  intro e ev hev hfinal
  have hlegal := hpast.legal hentry hc
  have hstep := hlegal.eventStep e
  rw [hev] at hstep
  generalize hnew : (patch t.writes b).lookup (.callbackEvents e) = v at hstep
  suffices v = some ev from ⟨ev, hnew.trans this, rfl⟩
  by_contra hchanged
  cases hstep with
  | same => exact hchanged rfl
  | @claimed settings d hl tie σ hσ he =>
    obtain hsame | ⟨d', row, hclaims⟩ := hlegal.inProgress hnew rfl
    · exact hchanged (hsame.symm.trans hev)
    obtain rfl := Option.some.inj (hclaims.found.symm.trans hev)
    have hdue := hundisturbed.isDue hpast hentry hc hclaims fun heq => hchanged (congrArg some heq)
    -- a final event is not due
    cases hst : row.status <;> simp [CallbackEventRow.isDue, EventStatus.isFinal, hst] at hdue hfinal
  | outcome hl o =>
    obtain ⟨newer, older, hlog⟩ := List.append_of_mem hentry
    have hout : IsOutcomeOf e entry := ⟨t, b, o, ev, hc, hev, hnew, fun heq => hchanged (congrArg some heq)⟩
    obtain ⟨ev', hev', hst⟩ := (hheld newer entry older hlog e hout).inProgress hpast hundisturbed hlog
      (Chained.cut (hlog ▸ hpast.history.chained) hc).1
    obtain rfl := Option.some.inj (hev'.symm.trans hev)
    rw [hst] at hfinal
    cases hfinal

/-! ## Agreement -/

theorem Agrees.empty : Agrees ∅ := fun _ _ h => by cases h

/-- Commits that touch neither events nor matches. -/
theorem Agrees.of_eq (h : Agrees s)
    (hevents : ∀ e, s'.lookup (.callbackEvents e) = s.lookup (.callbackEvents e))
    (hmatches : ∀ m, s'.lookup (.matches m) = s.lookup (.matches m)) : Agrees s' := by
  intro e ev hev
  rw [hevents] at hev
  rw [hmatches]
  exact h e ev hev

theorem EventStatus.isFinal_eq_false {st : EventStatus} :
    st.isFinal = false ↔ st ≠ .delivered ∧ st ≠ .failed := by
  cases st <;> simp [isFinal]

/-- An event that is not final before and after the commit goes with its unchanged match. -/
theorem Agrees.notFinal (h : Agrees s) (hev : s.lookup (.callbackEvents e) = some ev)
    (hst : ev.status.isFinal = false) (hst' : ev'.status.isFinal = false)
    (hm : ev'.matchId = ev.matchId)
    (hmatch : s'.lookup (.matches ev.matchId) = s.lookup (.matches ev.matchId)) :
    ∃ row, s'.lookup (.matches ev'.matchId) = some row ∧
      (ev'.status = .delivered ↔ row.status = .callbackDelivered) ∧
      (ev'.status = .failed ↔ row.status = .callbackFailed) := by
  obtain ⟨row, hrow, hdelivered, hfailed⟩ := h e ev hev
  rw [EventStatus.isFinal_eq_false] at hst hst'
  refine ⟨row, by rw [hm, hmatch, hrow], ?_, ?_⟩
  · exact iff_of_false hst'.1 fun h => hst.1 (hdelivered.mpr h)
  · exact iff_of_false hst'.2 fun h => hst.2 (hfailed.mpr h)

/-- An outcome sets event and match together, or leaves both not final. -/
theorem Agrees.outcome {o : Outcome} {eventId : UUID} {m : Match} {log : List LogEntry}
    (h : Agrees b) (houtbox : Outbox log b) (hkeeps : KeepsFinal t b)
    (hchanged : Changed IsIndexKey (o.changes eventId ev m t.start) b (patch t.writes b)) :
    Agrees (patch t.writes b) := by
  intro e ev' hev'
  obtain ⟨hold, hnew⟩ := hchanged.lookup (.callbackEvents eventId) (fun h => h) (o.dlookup_event ..)
  by_cases he : e = eventId
  · subst he
    obtain rfl := Option.some.inj (hnew.symm.trans hev')
    have hid : (o.apply t.start ev).matchId = ev.matchId :=
      congrArg (fun p => p.2.1) (o.identity_apply t.start ev)
    cases hst : o.matchStatus? with
    | some status =>
      have hmatch := (hchanged.lookup (.matches ev.matchId) (fun h => h)
        (o.dlookup_match _ _ _ _ hst)).2
      refine ⟨_, hid ▸ hmatch, ?_⟩
      cases o <;> cases hst <;> simp [Outcome.apply, CallbackEventRow.markDelivered,
        CallbackEventRow.markFailed]
    | none =>
      have hpending : (o.apply t.start ev).status.isFinal = false := by
        cases o <;> first | rfl | cases hst
      exact h.notFinal hold (hkeeps.notFinal hold hev' hpending) hpending hid
        (hchanged.frame (.matches ev.matchId) (fun h => h) (o.dlookup_match_none _ _ _ _ hst))
  · have hev : b.lookup (.callbackEvents e) = some ev' :=
      (hchanged.frame (.callbackEvents e) (fun h => h)
        (o.dlookup_eq_none _ _ _ _ (by simp [he]) (by simp))).symm.trans hev'
    have hmatch : ev'.matchId ≠ ev.matchId := fun heq =>
      he (houtbox.oneEvent e eventId ev' ev hev hold heq)
    obtain ⟨row, hrow, hagree⟩ := h e ev' hev
    refine ⟨row, ?_, hagree⟩
    exact (hchanged.frame (.matches ev'.matchId) (fun h => h)
      (o.dlookup_eq_none _ _ _ _ (by simp) (by simp [hmatch]))).trans hrow

theorem Agrees.makes {n : NewMatch} (h : Agrees b) (hmakes : Makes l t b n) :
    Agrees (patch t.writes b) := by
  intro e ev hev
  by_cases he : e = n.eventId
  · subst he
    obtain rfl := Option.some.inj (hmakes.event_new.symm.trans hev)
    exact ⟨_, hmakes.match_new, by simp [NewMatch.event, NewMatch.matchRow]⟩
  · obtain ⟨row, hrow, hagree⟩ := h e ev ((hmakes.frame_event he).symm.trans hev)
    have hm : ev.matchId ≠ n.matchId := fun heq => by
      cases (heq ▸ hrow).symm.trans hmakes.match_fresh
    exact ⟨row, (NewMatch.frame_match hmakes.changed hm).trans hrow, hagree⟩

theorem Legal.agrees {log : List LogEntry} (h : Legal rt l t b) (hb : Agrees b)
    (houtbox : Outbox log b) (hkeeps : KeepsFinal t b) : Agrees (patch t.writes b) := by
  cases h with
  | rows h =>
    exact hb.of_eq (fun e => l.rows_callbackEvents (h (.callbackEvents e)))
      fun m => @Actor.rows_record l _ (.matches m) trivial _ _ (h (.matches m))
  | @pair settings workerId offset _ _ n hn hurl h =>
    have hmakes : Makes (.runLoop settings workerId offset) t b n := ⟨⟨_, _, _, rfl⟩, hn, hurl, h⟩
    exact hb.makes hmakes
  | claim tie σ hσ h =>
    intro e ev' hev'
    obtain hsame | ⟨-, ev, hev, hclaimed⟩ := h (.callbackEvents e)
    · rw [show _ = _ from h (.matches ev'.matchId)]
      exact hb e ev' (hsame.symm.trans hev')
    · obtain rfl := Option.some.inj (hclaimed.symm.trans hev')
      exact hb.notFinal hev (hkeeps.notFinal hev hev' rfl) rfl rfl (h (.matches ev.matchId))
  | outcome o eventId ev m hm h => exact hb.outcome houtbox hkeeps h
  | create n htenant hkey hbody hpart hknown h =>
    exact hb.of_eq (fun e => h.frame (.callbackEvents e) (fun h => h)
        (n.dlookup_eq_none t.start (by simp) (by simp)))
      fun m => h.frame (.matches m) (fun h => h) (n.dlookup_eq_none t.start (by simp) (by simp))

/-! ## Runs -/

/-- An outbox whose events agree with their matches. -/
structure InAgreement (log : List LogEntry) (s : Tables) : Prop extends Outbox log s where
  agrees : Agrees s

theorem agrees_of_keepsFinal {w : ServiceWorld} (hpast : Past rt w)
    (hkeeps : ∀ entry ∈ w.log, ∀ t b, entry.event.commit? = some (t, b) → KeepsFinal t b)
    {newer older : List LogEntry} {m : Tables} (hlog : w.log = newer ++ older) (hm : Chained ∅ older m) :
    Agrees m := by
  have hagree : InAgreement w.log m := by
    refine hm.invariant ⟨.empty, .empty⟩ fun entry hentry t b hc hb => ?_
    have hmem : entry ∈ w.log := hlog ▸ List.mem_append_right newer hentry
    have hlegal := hpast.legal hmem hc
    refine ⟨?_, hlegal.agrees hb.agrees hb.toOutbox (hkeeps entry hmem t b hc)⟩
    obtain hun | ⟨n, hmakes⟩ := hlegal.unpaired_or_makes
    · exact hb.toOutbox.unpaired hun
    · exact hb.toOutbox.makes hmakes ⟨entry, hmem, t, b, hc, hmakes, rfl⟩
  exact hagree.agrees

/-- **Final outcomes.** In every run in which no event is changed between the snapshot of a claim and its
commit, and sessions record outcomes only of events that they hold, outcomes are final and agree with
the matches. -/
theorem outcomes_final {clock : Time} {s : ServiceState} (hs : (service rt).Reachable (emptyState clock) s)
    (hundisturbed : ClaimsUndisturbed (fun _ => ChangesEvent) s.world.log)
    (hheld : OutcomesHeld s.world.log) : OutcomesFinal s.world.log := by
  have hpast := service_past hs
  have hkeeps : ∀ entry ∈ s.world.log, ∀ t b, entry.event.commit? = some (t, b) → KeepsFinal t b :=
    fun entry hentry t b hc => keepsFinal_of_held hpast hundisturbed hheld hentry hc
  refine ⟨fun newer between older m m' hlog _ hbetween e ev hev hfinal => ?_,
    fun newer older m hlog hm => agrees_of_keepsFinal hpast hkeeps hlog hm⟩
  refine hbetween.invariant ⟨ev, hev, rfl⟩ fun entry hentry t b hc hb => ?_
  have hmem : entry ∈ s.world.log := by
    rw [hlog]
    exact List.mem_append_right _ (List.mem_append_left _ hentry)
  obtain ⟨ev₁, hev₁, hst₁⟩ := hb
  obtain ⟨ev₂, hev₂, hst₂⟩ := hkeeps entry hmem t b hc e ev₁ hev₁ (hst₁ ▸ hfinal)
  exact ⟨ev₂, hev₂, hst₂.trans hst₁⟩

/-! ## A late dispatcher -/

/-- Transaction `t` takes a final status back. -/
def unsettles (t : Txn Row) (b : Tables) : Bool :=
  (rowsOf eventRow b).any fun (e, ev) => ev.status.isFinal &&
    ((patch t.writes b).lookup (.callbackEvents e)).all fun (ev' : CallbackEventRow) =>
      ev'.status ≠ ev.status

theorem not_outcomesFinal {w : ServiceWorld} (hpast : Past rt w)
    (h : w.log.any (fun entry => entry.event.commit?.any fun c => unsettles c.1 c.2) = true) :
    ¬ OutcomesFinal w.log := by
  intro houtcomes
  obtain ⟨entry, hentry, hany⟩ := List.any_eq_true.mp h
  obtain ⟨⟨t, b⟩, hc, hany⟩ := Option.any_eq_true _ _ |>.mp hany
  obtain ⟨⟨e, ev⟩, hrow, hany⟩ := List.any_eq_true.mp hany
  simp only [Bool.and_eq_true] at hany
  obtain ⟨newer, older, hlog⟩ := List.append_of_mem hentry
  have hb : Chained ∅ older b := (Chained.cut (hlog ▸ hpast.history.chained) hc).1
  obtain ⟨ev', hev', hst⟩ := houtcomes.stays newer [entry] older b _ hlog hb (.commit hc .nil) e ev
    (mem_rowsOf_eventRow.mp hrow) hany.1
  have hne := hany.2
  rw [hev'] at hne
  simp [hst] at hne

/-- `a` claims the event and its POST hangs; its lock expires, `b` claims the event and delivers it;
then `a` records a retry. -/
def lateScript : List (System.Move Reply Exn Actor) :=
  runs 0 (.migrate sampleSettings) ++ runs 1 (sampleRequest none "p1") ++
    runs 2 (sampleRequest none "p2") ++ runs 3 (.runLoop sampleSettings "w" 0) ++
    [.act (.start (.runOnce sampleSettings "a")), .advance sampleReply 4 9, .act (.tick 4000000)] ++
    runs 5 (.runOnce sampleSettings "b") ++ [.advance timeoutReply 4 100]

def lateState : ServiceState := (service sampleRuntime).after lateScript (emptyState 0)

theorem lateState_reachable : (service sampleRuntime).Reachable (emptyState 0) lateState :=
  System.reachable_after lateScript _

/-- A late dispatcher takes a delivery back. -/
theorem delivery_unsettled : (service sampleRuntime).Reachable (emptyState 0) lateState ∧
    ¬ OutcomesFinal lateState.world.log :=
  ⟨lateState_reachable, not_outcomesFinal (service_past lateState_reachable) (by decide +kernel)⟩

/-! ## A dispatcher in time -/

/-- The newest version of the event in the log is a claim of it by session `i`, which has changed it. -/
def claimedLast (i : ℕ) (e : UUID) (log : List LogEntry) : Bool :=
  (log.find? (writesEvent e)).any fun claim => claim.session = i && claim.event.commit?.any fun c =>
    (c.1.writes.dlookup (Key.callbackEvents e)).any fun o => o.any fun (ev' : CallbackEventRow) =>
      ev'.status = .inProgress && (c.2.lookup (.callbackEvents e)).any fun (ev : CallbackEventRow) =>
        ev.lockedUntil ≠ ev'.lockedUntil

/-- Every outcome is recorded by the session whose claim has written the event last. -/
def outcomesOfLast : List LogEntry → Bool
  | [] => true
  | entry :: older => (entry.event.commit?.all fun c => (rowsOf eventRow c.2).all fun r =>
      (c.1.writes.dlookup (Key.callbackEvents r.1)).all fun o => o.all fun (ev' : CallbackEventRow) =>
        ev'.status = .inProgress || claimedLast entry.session r.1 older) && outcomesOfLast older

theorem CommitsOutcome.writesEvent {entry : LogEntry} {o : Outcome} (h : CommitsOutcome entry t b e o ev) :
    writesEvent e entry = true :=
  ChangesEvent.writesEvent ⟨t, b, h.commit, by
    rw [h.found, h.left]
    exact fun heq => h.changed (Option.some.inj heq)⟩

theorem HoldsEvent.of_claimedLast {w : ServiceWorld} (hpast : Past rt w) {entry : LogEntry}
    {older : List LogEntry} (hlog : older ⊆ w.log) (h : claimedLast entry.session e older = true) :
    HoldsEvent e entry older := by
  obtain ⟨claim, hfind, h⟩ := Option.any_eq_true _ _ |>.mp h
  obtain ⟨hsession, h⟩ := (Bool.and_eq_true _ _).mp h
  obtain ⟨⟨t, b⟩, hc, h⟩ := Option.any_eq_true _ _ |>.mp h
  obtain ⟨o, hwrite, h⟩ := Option.any_eq_true _ _ |>.mp h
  obtain ⟨ev', rfl, h⟩ := Option.any_eq_true _ _ |>.mp h
  obtain ⟨hst, h⟩ := (Bool.and_eq_true _ _).mp h
  obtain ⟨ev, hev, hne⟩ := Option.any_eq_true _ _ |>.mp h
  obtain ⟨-, between, oldest, rfl, hnone⟩ := List.find?_eq_some_iff_append.mp hfind
  have hnew : (patch t.writes b).lookup (.callbackEvents e) = some ev' := lookup_patch_of_mem hwrite b
  obtain hsame | ⟨d, row, hclaims⟩ := (hpast.legal (hlog (by simp)) hc).inProgress hnew (of_decide_eq_true hst)
  · obtain rfl := Option.some.inj (hev.symm.trans hsame)
    exact absurd rfl (of_decide_eq_true hne)
  refine ⟨between, claim, oldest, t, b, d, row, ev', rfl, of_decide_eq_true hsession, hc, hclaims, ?_, .inr ?_⟩
  · rintro x hx ⟨t', b', o, ev₀, hsettles⟩
    simpa [hsettles.writesEvent] using hnone x hx
  · rintro x hx ⟨t', b', d', row₀, row', hcx, hclaimsx⟩
    simpa [hclaimsx.writesEvent hcx] using hnone x hx

theorem outcomesHeld_of_last {w : ServiceWorld} (hpast : Past rt w) (h : outcomesOfLast w.log = true) :
    OutcomesHeld w.log := by
  have hall : ∀ log : List LogEntry, log ⊆ w.log → outcomesOfLast log = true → OutcomesHeld log := by
    intro log
    induction log with
    | nil => exact fun _ _ => .nil
    | cons entry older ih =>
      intro hlog h
      obtain ⟨hentry, hrest⟩ := (Bool.and_eq_true _ _).mp h
      have holder : older ⊆ w.log := fun _ hx => hlog (List.mem_cons_of_mem _ hx)
      refine (ih holder hrest).cons fun e hout => HoldsEvent.of_claimedLast hpast holder ?_
      obtain ⟨t, b, o, ev, hsettles⟩ := hout
      have hwrite := hsettles.writesEvent
      rw [writesEvent, hsettles.commit, Option.any_some] at hwrite
      obtain ⟨o', ho'⟩ := Option.isSome_iff_exists.mp hwrite
      obtain rfl : o' = some (o.apply t.start ev) :=
        (lookup_patch_of_mem ho' b).symm.trans hsettles.left
      rw [hsettles.commit, Option.all_some, List.all_eq_true] at hentry
      have hevent := hentry (e, ev) (mem_rowsOf_eventRow.mpr hsettles.found)
      rw [ho', Option.all_some, Option.all_some, Bool.or_eq_true, decide_eq_true_eq] at hevent
      exact hevent.resolve_left (o.status_apply t.start ev)
  exact hall w.log (fun _ h => h) h

/-- The event is claimed a second time when the lock of the first claim has expired; the outcome that is
recorded then is final. -/
theorem outcomes_final_reclaimed : reclaimedState.world.log.countP claimsEvents = 2 ∧
    OutcomesFinal reclaimedState.world.log :=
  ⟨by decide +kernel, outcomes_final reclaimedState_reachable
    (claimsUndisturbed_of_apart reclaimedState_reachable (by decide +kernel)
      fun _ _ _ h => writesEvents_of_writes h.writesEvent)
    (outcomesHeld_of_last (service_past reclaimedState_reachable) (by decide +kernel))⟩

end Matchmaking
