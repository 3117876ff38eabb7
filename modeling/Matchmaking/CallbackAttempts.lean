import Matchmaking.Dispatcher.Protocol

/-!
# The limit on attempts

The update that counts an attempt increments the number in the row, while the number that decides
whether it was the last one is a copy from the claim. The limit holds in a run exactly as long as the
two agree whenever it matters.
-/

namespace Matchmaking

open ReadCommitted

variable {rt : Runtime} {l : Actor} {t : Txn Row} {b : Tables} {e : UUID} {M : ℕ}
  {ev ev' : CallbackEventRow}

/-! ## The limit -/

/-- The limit that an actor works with, if it is a dispatcher. -/
def Actor.maxAttempts? : Actor → Option ℕ
  | .runOnce settings _ => some settings.callbackMaxAttempts
  | _ => none

/-- All dispatchers of the run are configured with the limit `M`. -/
def Limited (M : ℕ) (log : List LogEntry) : Prop :=
  ∀ entry ∈ log, ∀ m ∈ entry.actor.maxAttempts?, m = M

/-- The row of an event respects the limit. -/
structure WithinLimit (M : ℕ) (ev : CallbackEventRow) : Prop where
  bounded : ev.attempts ≤ M
  unfinished : ev.status = .pending ∨ ev.status = .inProgress → ev.attempts < M
  failed : ev.status = .failed ↔ ev.attempts = M ∧ ev.deliveredAt = none

/-- In a history, the rows of all events respect the limit at all times. -/
def LimitHolds (M : ℕ) (log : List LogEntry) : Prop :=
  ∀ newer older m, log = newer ++ older → Chained ∅ older m → ∀ e ev,
    m.lookup (.callbackEvents e) = some ev → WithinLimit M ev

/-! ## Its condition -/

/-- The commit of `t` on `b` changes the row `ev` of the event `e`. -/
def Touches (t : Txn Row) (b : Tables) (e : UUID) (ev : CallbackEventRow) : Prop :=
  b.lookup (.callbackEvents e) = some ev ∧ (patch t.writes b).lookup (.callbackEvents e) ≠ some ev

/-- The commit of `t` on `b` records a failed attempt of the event `e`. -/
def RecordsFailure (t : Txn Row) (b : Tables) (e : UUID) (ev : CallbackEventRow) : Prop :=
  ∃ ev', Counts t b e ev ev' ∧ ev'.status ≠ .delivered

/-- No dispatcher is misled by an old number: its transactions touch only events that have an attempt
left in their newest committed row; where one records a failure, the attempts that its claim has read
tell whether it is the last just as the newest row does; and no last failure hits an event that was
delivered. -/
structure CountsCurrent (M : ℕ) (log : List LogEntry) : Prop where
  left : ∀ entry ∈ log, ∀ settings d, entry.actor = .runOnce settings d → ∀ t b,
    entry.event.commit? = some (t, b) → ∀ e ev, Touches t b e ev → ev.attempts < M
  decided : ∀ newer entry older, log = newer ++ entry :: older → ∀ settings d,
    entry.actor = .runOnce settings d → ∀ t b, entry.event.commit? = some (t, b) → ∀ e ev,
      RecordsFailure t b e ev → ∀ claim ∈ older, ∀ event,
        ClaimsEvent settings d entry.session event claim → event.eventId = e →
          (M ≤ event.attempts + 1 ↔ M ≤ ev.attempts + 1)
  undelivered : ∀ entry ∈ log, ∀ settings d, entry.actor = .runOnce settings d → ∀ t b,
    entry.event.commit? = some (t, b) → ∀ e ev, RecordsFailure t b e ev → M ≤ ev.attempts + 1 →
      ev.deliveredAt = none

/-! ## One commit -/

/-- A failed attempt, as the newest row has to see it: it is the last one, or the event is retried. -/
inductive Failure (M : ℕ) (now : Time) (ev : CallbackEventRow) : ℕ → CallbackEventRow → Prop
  | last {c : ℕ} {error : String} (h : M ≤ c + 1) : Failure M now ev c (ev.markFailed error)
  | retry {c backoff : ℕ} {error : String} (h : ¬ M ≤ c + 1) :
      Failure M now ev c (ev.markRetry backoff error now)

/-- The copies of one claim agree on the number of attempts. -/
theorem ClaimsEvent.attempts_eq {settings settings' : Settings} {d d' : String} {i i' : ℕ}
    {event event' : CallbackEvent} {entry : LogEntry} (h : ClaimsEvent settings d i event entry)
    (h' : ClaimsEvent settings' d' i' event' entry) (he : event.eventId = event'.eventId) :
    event.attempts = event'.attempts := by
  obtain ⟨-, -, t, b, row, secret, hc, hrow, -, hevent⟩ := h
  obtain ⟨-, -, t', b', row', secret', hc', hrow', -, hevent'⟩ := h'
  obtain ⟨rfl, rfl⟩ := Prod.mk.inj (Option.some.inj (hc.symm.trans hc'))
  rw [he] at hrow
  obtain rfl := Option.some.inj (hrow.symm.trans hrow')
  have hattempts : event.attempts = row.attempts := by rw [hevent]; rfl
  have hattempts' : event'.attempts = row.attempts := by rw [hevent']; rfl
  rw [hattempts, hattempts']

/-- A recorded failure is decided by what the session's claim has read. -/
theorem Protocol.failure {log newer older : List LogEntry} {entry : LogEntry} (h : Protocol rt log)
    (hlog : log = newer ++ entry :: older) {settings : Settings} {d : String}
    (hM : settings.callbackMaxAttempts = M) (hactor : entry.actor = .runOnce settings d)
    (hc : entry.event.commit? = some (t, b)) (hcounts : Counts t b e ev ev')
    (hst : ev'.status ≠ .delivered) :
    ∃ claim ∈ older, ∃ event, ClaimsEvent settings d entry.session event claim ∧
      event.eventId = e ∧ Failure M t.start ev event.attempts ev' := by
  obtain ⟨o, rfl, event, error, he, ⟨claim, hclaim, hclaims⟩, -, hof, -⟩ :=
    h.due newer entry older hlog settings d hactor t b hc e ev ev' hcounts
  refine ⟨claim, hclaim, event, hclaims, he, ?_⟩
  cases error with
  | none =>
    -- a delivery is no failure
    obtain rfl : o = .delivered := hof
    exact absurd rfl hst
  | some error =>
    have hof : FailedAttempt settings event (trim error) o := hof
    unfold FailedAttempt at hof
    split at hof
    · next hlast =>
      subst hof
      exact .last (hM ▸ hlast)
    · next hmore =>
      obtain ⟨jitter, rfl⟩ := hof
      exact .retry (hM ▸ hmore)

/-- What counts nothing leaves the delivery on record alone. -/
theorem Failure.deliveredAt {now : Time} {c : ℕ} (h : Failure M now ev c ev') :
    ev'.deliveredAt = ev.deliveredAt ∧ ev'.attempts = ev.attempts + 1 := by
  cases h <;> exact ⟨rfl, rfl⟩

/-- Where the limit holds after a failure, the failure was decided by the newest row. -/
theorem Failure.decided {now : Time} {c : ℕ} (h : Failure M now ev c ev') (hev' : WithinLimit M ev') :
    (M ≤ c + 1 ↔ M ≤ ev.attempts + 1) ∧ (M ≤ ev.attempts + 1 → ev.deliveredAt = none) := by
  cases h with
  | last hlast =>
    obtain ⟨hM, hnone⟩ := hev'.failed.mp rfl
    have hM : ev.attempts + 1 = M := hM
    exact ⟨iff_of_true hlast (by omega), fun _ => hnone⟩
  | retry hmore =>
    have hless : ev.attempts + 1 < M := hev'.unfinished (.inl rfl)
    exact ⟨iff_of_false hmore (by omega), fun hM => by omega⟩

/-- A failure that is decided by the newest row keeps the limit. -/
theorem Failure.within {now : Time} {c : ℕ} (h : Failure M now ev c ev') (hleft : ev.attempts < M)
    (hdecided : M ≤ c + 1 ↔ M ≤ ev.attempts + 1)
    (hundelivered : M ≤ ev.attempts + 1 → ev.deliveredAt = none) : WithinLimit M ev' := by
  cases h with
  | last hlast =>
    have hM : M ≤ ev.attempts + 1 := hdecided.mp hlast
    refine ⟨show ev.attempts + 1 ≤ M by omega, ?_, iff_of_true rfl ⟨?_, hundelivered hM⟩⟩
    · rintro (hst | hst) <;> cases hst
    · show ev.attempts + 1 = M
      omega
  | retry hmore =>
    have hless : ev.attempts + 1 < M := by
      rw [hdecided] at hmore
      omega
    refine ⟨show ev.attempts + 1 ≤ M by omega, fun _ => hless, iff_of_false (fun hst => by cases hst) ?_⟩
    rintro ⟨hM, -⟩
    have hM : ev.attempts + 1 = M := hM
    omega

/-- Where the limit holds after a commit that touches an event, the event had an attempt left. -/
theorem EventStep.left {v' : Option CallbackEventRow} (h : EventStep l t e (some ev) v')
    (hne : v' ≠ some ev) (hv' : ∀ ev', v' = some ev' → WithinLimit M ev') : ev.attempts < M := by
  cases h with
  | same => exact absurd rfl hne
  | claimed hl tie σ hσ he => exact (hv' _ rfl).unfinished (.inr rfl)
  | outcome hl o =>
    have hev' := hv' _ rfl
    cases o with
    | released error => exact hev'.unfinished (.inl rfl)
    | _ => exact Nat.lt_of_succ_le hev'.bounded

theorem NewMatch.within (n : NewMatch) {now : Time} (hM : 1 ≤ M) : WithinLimit M (n.event now) where
  bounded := Nat.zero_le M
  unfinished _ := hM
  failed := iff_of_false (fun hst => by cases hst) fun h => by
    have hzero : 0 = M := h.1
    omega

theorem WithinLimit.claimed {d : String} {timeoutSeconds : ℕ} {now : Time} (h : WithinLimit M ev)
    (hleft : ev.attempts < M) : WithinLimit M (ev.claimed d timeoutSeconds now) where
  bounded := h.bounded
  unfinished _ := hleft
  failed := iff_of_false (fun hst => by cases hst) fun h => by
    have hM : ev.attempts = M := h.1
    omega

theorem WithinLimit.released {error : Option String} (h : WithinLimit M ev) (hleft : ev.attempts < M) :
    WithinLimit M (ev.release error) where
  bounded := h.bounded
  unfinished _ := hleft
  failed := iff_of_false (fun hst => by cases hst) fun h => by
    have hM : ev.attempts = M := h.1
    omega

theorem WithinLimit.delivered {now : Time} (hleft : ev.attempts < M) :
    WithinLimit M (ev.markDelivered now) where
  bounded := hleft
  unfinished h := by rcases h with hst | hst <;> cases hst
  failed := iff_of_false (fun hst => by cases hst) fun h => by cases h.2

/-! ## Runs -/

/-- The stores around a commit of the history. -/
theorem LimitHolds.around {w : ServiceWorld} (h : LimitHolds M w.log) (hpast : Past rt w)
    {newer older : List LogEntry} {entry : LogEntry} (hlog : w.log = newer ++ entry :: older)
    (hc : entry.event.commit? = some (t, b)) :
    ∀ e ev', (patch t.writes b).lookup (.callbackEvents e) = some ev' → WithinLimit M ev' := by
  have hb : Chained ∅ older b := (Chained.cut (hlog ▸ hpast.history.chained) hc).1
  exact h newer (entry :: older) _ hlog (.commit hc hb)

theorem LimitHolds.current {w : ServiceWorld} (h : LimitHolds M w.log) (hpast : Past rt w)
    (hprotocol : Protocol rt w.log) (hlimited : Limited M w.log) : CountsCurrent M w.log where
  left entry hentry settings d hactor t b hc e ev htouch := by
    obtain ⟨newer, older, hlog⟩ := List.append_of_mem hentry
    have hstep := (hpast.legal hentry hc).eventStep e
    rw [htouch.1] at hstep
    exact hstep.left htouch.2 (h.around hpast hlog hc e)
  decided newer entry older hlog settings d hactor t b hc e ev hfails claim hclaim event hclaims he := by
    obtain ⟨ev', hcounts, hst⟩ := hfails
    have hentry : entry ∈ w.log := hlog ▸ List.mem_append_right _ List.mem_cons_self
    have hM : settings.callbackMaxAttempts = M :=
      hlimited entry hentry _ (by rw [hactor]; exact rfl)
    obtain ⟨claim', hclaim', event', hclaims', he', hfailure⟩ :=
      hprotocol.failure hlog hM hactor hc hcounts hst
    have hmem : ∀ entry' ∈ older, entry' ∈ w.log := fun _ he =>
      hlog ▸ List.mem_append_right _ (List.mem_cons_of_mem _ he)
    -- the session has claimed once, so both claims are the same
    obtain rfl := hprotocol.claim_eq (hmem _ hclaim) (hmem _ hclaim') hclaims.isClaim
      hclaims'.isClaim (hclaims.1.trans hclaims'.1.symm)
    rw [hclaims.attempts_eq hclaims' (he.trans he'.symm)]
    exact (hfailure.decided (h.around hpast hlog hc e ev' hcounts.left)).1
  undelivered entry hentry settings d hactor t b hc e ev hfails := by
    obtain ⟨ev', hcounts, hst⟩ := hfails
    obtain ⟨newer, older, hlog⟩ := List.append_of_mem hentry
    have hM : settings.callbackMaxAttempts = M :=
      hlimited entry hentry _ (by rw [hactor]; exact rfl)
    obtain ⟨-, -, event, -, -, hfailure⟩ := hprotocol.failure hlog hM hactor hc hcounts hst
    exact (hfailure.decided (h.around hpast hlog hc e ev' hcounts.left)).2

/-- One commit that is not misled keeps the limit. -/
theorem CountsCurrent.step {w : ServiceWorld} (h : CountsCurrent M w.log) (hpast : Past rt w)
    (hprotocol : Protocol rt w.log) (hlimited : Limited M w.log) (hM : 1 ≤ M)
    {newer older : List LogEntry} {entry : LogEntry} (hlog : w.log = newer ++ entry :: older)
    (hc : entry.event.commit? = some (t, b))
    (hb : ∀ e ev, b.lookup (.callbackEvents e) = some ev → WithinLimit M ev) :
    ∀ e ev', (patch t.writes b).lookup (.callbackEvents e) = some ev' → WithinLimit M ev' := by
  intro e ev' hev'
  have hentry : entry ∈ w.log := hlog ▸ List.mem_append_right _ List.mem_cons_self
  have hstep := (hpast.legal hentry hc).eventStep e
  rw [hev'] at hstep
  generalize hev : b.lookup (.callbackEvents e) = v at hstep
  cases hstep with
  | same => exact hb e ev' hev
  | made n he => exact n.within hM
  | @claimed settings d hl tie σ hσ he ev =>
    by_cases hsame : ev.claimed d settings.callbackTimeoutSeconds t.start = ev
    · rw [hsame]
      exact hb e ev hev
    · refine (hb e ev hev).claimed (h.left entry hentry settings d hl t b hc e ev ⟨hev, fun heq => ?_⟩)
      exact hsame (Option.some.inj (hev'.symm.trans heq))
  | @outcome settings d hl o ev =>
    by_cases hsame : o.apply t.start ev = ev
    · rw [hsame]
      exact hb e ev hev
    have hleft := h.left entry hentry settings d hl t b hc e ev
      ⟨hev, fun heq => hsame (Option.some.inj (hev'.symm.trans heq))⟩
    -- a failure that counts: the number that the claim has copied decides as the newest row does
    have hfailed : (o.apply t.start ev).attempts ≠ ev.attempts →
        (o.apply t.start ev).status ≠ .delivered → WithinLimit M (o.apply t.start ev) := by
      intro hcounted hst
      have hmax : settings.callbackMaxAttempts = M :=
        hlimited entry hentry _ (by rw [hl]; exact rfl)
      have hcounts : Counts t b e ev (o.apply t.start ev) := ⟨hev, hev', hcounted⟩
      obtain ⟨claim, hclaim, event, hclaims, he, hfailure⟩ :=
        hprotocol.failure hlog hmax hl hc hcounts hst
      exact hfailure.within hleft
        (h.decided newer entry older hlog settings d hl t b hc e ev ⟨_, hcounts, hst⟩ claim hclaim event
          hclaims he)
        (h.undelivered entry hentry settings d hl t b hc e ev ⟨_, hcounts, hst⟩)
    cases o with
    | delivered => exact .delivered hleft
    | released error => exact (hb e ev hev).released hleft
    | failed error => exact hfailed (Nat.succ_ne_self _) fun hst => by cases hst
    | retry backoff error => exact hfailed (Nat.succ_ne_self _) fun hst => by cases hst

/-- **The limit on attempts.** In a run of dispatchers with the limit `M` the limit holds at all times if
and only if no dispatcher is misled by an old number of attempts. The condition is on the rows that commits
find and on the number that the dispatcher has copied with its claim; it does not speak about what the
commits leave. -/
theorem limit_holds_iff {clock : Time} {s : ServiceState}
    (hs : (service rt).Reachable (emptyState clock) s) (hM : 1 ≤ M)
    (hlimited : Limited M s.world.log) :
    LimitHolds M s.world.log ↔ CountsCurrent M s.world.log := by
  have hpast := service_past hs
  have hprotocol : Protocol rt s.world.log := protocol (fun _ _ => rfl) hs
  refine ⟨fun h => h.current hpast hprotocol hlimited, fun h newer older m hlog hm => ?_⟩
  -- along the history, one commit after the other
  induction hm generalizing newer with
  | nil => exact fun e ev hev => by cases hev
  | commit hc hm ih =>
    exact h.step hpast hprotocol hlimited hM hlog hc (ih _ (hlog.trans (List.append_cons ..)))
  | other hc hm ih => exact ih _ (hlog.trans (List.append_cons ..))

/-! ## Two holders of one event -/

theorem not_limitHolds {w : ServiceWorld} (hpast : Past rt w)
    (h : (rowsOf eventRow w.committed).any (fun row => M < row.2.attempts) = true) :
    ¬ LimitHolds M w.log := by
  intro hlimit
  obtain ⟨⟨e, ev⟩, hrow, hmore⟩ := List.any_eq_true.mp h
  have hwithin := hlimit [] w.log w.committed rfl hpast.history.chained e ev
    (mem_rowsOf_eventRow.mp hrow)
  have hmore : M < ev.attempts := of_decide_eq_true hmore
  exact Nat.not_le_of_lt hmore hwithin.bounded

/-- One attempt is all that an event gets. -/
def onceSettings : Settings := { sampleSettings with callbackMaxAttempts := 1 }

/-- `a` claims the event and its POST hangs; its lock expires, `b` claims the event, fails and records
that; then `a` records its failure as well. -/
def twiceScript : List (System.Move Reply Exn Actor) :=
  runs 0 (.migrate sampleSettings) ++ runs 1 (sampleRequest none "p1") ++
    runs 2 (sampleRequest none "p2") ++ runs 3 (.runLoop sampleSettings "w" 0) ++
    [.act (.start (.runOnce onceSettings "a")), .advance timeoutReply 4 9, .act (.tick 10000000),
      .act (.start (.runOnce onceSettings "b")), .advance timeoutReply 5 100,
      .advance timeoutReply 4 100]

def twiceState : ServiceState := (service sampleRuntime).after twiceScript (emptyState 0)

theorem twiceState_reachable : (service sampleRuntime).Reachable (emptyState 0) twiceState :=
  System.reachable_after twiceScript _

theorem twiceState_limited : Limited 1 twiceState.world.log := by
  unfold Limited
  decide +kernel

/-- An event that may be tried once is tried twice. -/
theorem limit_exceeded : (service sampleRuntime).Reachable (emptyState 0) twiceState ∧
    Limited 1 twiceState.world.log ∧ ¬ LimitHolds 1 twiceState.world.log :=
  ⟨twiceState_reachable, twiceState_limited,
    not_limitHolds (service_past twiceState_reachable) (by decide +kernel)⟩

/-- In that run a dispatcher is misled by an old number of attempts, which is why the limit does not hold.
-/
theorem limit_holds_iff_twice : ¬ CountsCurrent 1 twiceState.world.log := fun h =>
  not_limitHolds (service_past twiceState_reachable) (by decide +kernel)
    ((limit_holds_iff twiceState_reachable (Nat.le_refl 1) twiceState_limited).mpr h)

end Matchmaking
