import Matchmaking.CallbackClaims
import Matchmaking.Dispatcher.Posts
import Mathlib.Data.List.Infix

/-!
# Retries

As long as outcomes are recorded in time and claims take only events that are due, one session at a
time holds an event: it POSTs it once and records what came of that. So the attempts in the row count
the POSTs, and their number and the answers decide what happens next.
-/

namespace Matchmaking

open ReadCommitted

variable {rt : Runtime} {settings : Settings} {w : ServiceWorld} {e : UUID} {i : ℕ} {l : Actor}
  {t : Txn Row} {b m : Tables} {ev ev' : CallbackEventRow} {v : Option CallbackEventRow}
  {entry post : LogEntry} {log newer older : List LogEntry}

/-! ## POSTs and their records -/

/-- Only the iterations of a dispatcher POST callbacks. -/
def Actor.isDispatcher : Actor → Bool
  | .runOnce .. => true
  | _ => false

/-- The entry is a POST of the event `e` by a dispatcher. -/
def isAttempt (e : UUID) (entry : LogEntry) : Bool := entry.actor.isDispatcher && posts e entry

/-- The POSTs of the event, newest first. -/
def attemptsOf (e : UUID) (log : List LogEntry) : List LogEntry := log.filter (isAttempt e)

/-- The POST was answered with a status that `deliver_event` takes for success. -/
def isAccepted (post : LogEntry) : Bool :=
  match post.event with
  | .call (.post ..) (.ok (reply : HttpResult)) => reply.error?.isNone
  | _ => false

/-- The number of attempts that the tables have for the event. -/
def attemptsIn (e : UUID) (s : Tables) : Option ℕ :=
  (s.lookup (.callbackEvents e)).map fun (ev : CallbackEventRow) => ev.attempts

/-- The entry commits a change of this number: it records an attempt. -/
def records (e : UUID) (entry : LogEntry) : Bool :=
  entry.event.commit?.any fun (t, b) =>
    (attemptsIn e b).any fun n => (attemptsIn e (patch t.writes b)).any fun n' => n' ≠ n

/-- The session that has made the POST has recorded an attempt of the event. -/
def isCompleted (e : UUID) (log : List LogEntry) (post : LogEntry) : Bool :=
  log.any fun entry => entry.session = post.session && records e entry

/-- The POSTs of the event whose outcomes their sessions have recorded. -/
def completedPosts (e : UUID) (log : List LogEntry) : List LogEntry :=
  (attemptsOf e log).filter (isCompleted e log)

/-- The status of an event after these POSTs, with `maxAttempts` of them at most. -/
def statusAfter (maxAttempts : ℕ) (posts : List LogEntry) : EventStatus :=
  if posts.any isAccepted then .delivered
  else if maxAttempts ≤ posts.length then .failed
  else .pending

/-! ## The protocol -/

/-- What the record of an attempt leaves, after the POSTs `posts`: a row that counts them all, and that
is due again, if at all, after the capped backoff, and not later than the jitter allows. -/
structure AttemptRecorded (settings : Settings) (now : Time) (posts : List LogEntry)
    (ev' : CallbackEventRow) : Prop where
  attempts : ev'.attempts = posts.length
  status : ev'.status = statusAfter settings.callbackMaxAttempts posts
  early : ∀ time, ev'.status = .pending →
    time < now + seconds (cappedBackoff posts.length settings) → ev'.isDue time = false
  late : ∀ time, ev'.status = .pending →
    now + seconds (cappedBackoff posts.length settings + settings.callbackJitterSeconds) ≤ time →
      ev'.isDue time = true

/-- The event `e` is retried as the settings say. -/
structure RetryProtocol (settings : Settings) (e : UUID) (w : ServiceWorld) : Prop where
  /-- The row counts the completed POSTs. All are completed but one of a claim in progress. -/
  counted : ∀ ev, w.committed.lookup (.callbackEvents e) = some ev →
    ev.attempts = (completedPosts e w.log).length ∧
      (ev.status = .inProgress ∧ (attemptsOf e w.log).length ≤ ev.attempts + 1 ∨
        completedPosts e w.log = attemptsOf e w.log ∧
          ev.status = statusAfter settings.callbackMaxAttempts (attemptsOf e w.log))
  /-- It is POSTed only as long as attempts are left and none was accepted, and after the backoff
  of every failure on record. -/
  posted : Justified (fun post older => isAttempt e post = true →
    statusAfter settings.callbackMaxAttempts (attemptsOf e older) = .pending ∧
      ∀ entry ∈ older, ∀ t b ev ev', entry.event.commit? = some (t, b) → Counts t b e ev ev' →
        ev'.status = .pending →
          t.start + seconds (cappedBackoff ev'.attempts settings) ≤ post.time) w.log
  /-- Each record follows a POST, and leaves what the POSTs until then have led to. -/
  recorded : Justified (fun entry older => ∀ t b ev ev', entry.event.commit? = some (t, b) →
    Counts t b e ev ev' → AttemptRecorded settings t.start (attemptsOf e older) ev') w.log

/-! ## Its conditions -/

/-- What the settings say about retries. -/
def Settings.retries (settings : Settings) : ℕ × ℕ × ℕ × ℕ :=
  (settings.callbackMaxAttempts, settings.callbackBaseBackoffSeconds,
    settings.callbackMaxBackoffSeconds, settings.callbackJitterSeconds)

/-- The settings on retries that an actor works with, for dispatchers. -/
def Actor.retries? : Actor → Option (ℕ × ℕ × ℕ × ℕ)
  | .runOnce settings _ => some settings.retries
  | _ => none

/-- All dispatchers of the run retry in the same way. -/
def RetriesAlike (settings : Settings) (log : List LogEntry) : Prop :=
  ∀ entry ∈ log, ∀ r ∈ entry.actor.retries?, r = settings.retries

/-- Locks are undisturbed: before the lock of a claim expires, its session has recorded the outcome of
the event; it does so once, and no claim is given back. -/
structure LocksKept (w : ServiceWorld) : Prop where
  inTime : ∀ claim ∈ w.log, ∀ t b d e ev ev' u, claim.event.commit? = some (t, b) →
    Claims claim.actor t b d e ev ev' → ev'.lockedUntil = some u → u ≤ w.clock →
      ∃ entry ∈ w.log, entry.session = claim.session ∧ records e entry = true ∧ entry.time < u
  once : ∀ e, Justified (fun entry older => records e entry = true →
    ∀ entry' ∈ older, entry'.session = entry.session → records e entry' = false) w.log
  kept : ∀ entry ∈ w.log, ∀ t b, entry.event.commit? = some (t, b) → ∀ e ev error,
    b.lookup (.callbackEvents e) = some ev →
      (patch t.writes b).lookup (.callbackEvents e) = some (ev.release error) →
        ev.release error = ev

/-- Claims take only events that are due in their newest committed version. -/
def ClaimsDue (log : List LogEntry) : Prop :=
  ∀ entry ∈ log, ∀ t b d e ev ev', entry.event.commit? = some (t, b) →
    Claims entry.actor t b d e ev ev' → ev.isDue t.start = true

/-! ## Entries about an event -/

/-- An entry records an attempt of the event exactly if its commit changes the number that the row has. -/
theorem records_iff (hc : entry.event.commit? = some (t, b)) :
    records e entry = true ↔ ∃ ev ev', Counts t b e ev ev' := by
  simp only [records, hc, Option.any_some, attemptsIn, Option.any_map, Option.any_eq_true,
    decide_eq_true_eq]
  exact ⟨fun ⟨ev, hev, ev', hev', h⟩ => ⟨ev, ev', hev, hev', h⟩,
    fun ⟨ev, ev', h⟩ => ⟨ev, h.found, ev', h.left, h.counted⟩⟩

/-- Who records an attempt has committed it, and the row is there before and after. -/
theorem commit_of_records (h : records e entry = true) :
    ∃ t b ev ev', entry.event.commit? = some (t, b) ∧ Counts t b e ev ev' := by
  obtain ⟨⟨t, b⟩, hc, -⟩ := Option.any_eq_true _ _ |>.mp h
  obtain ⟨ev, ev', hcounts⟩ := (records_iff hc).mp h
  exact ⟨t, b, ev, ev', hc, hcounts⟩

/-- Session `i` has claimed the event. -/
def HasClaimed (e : UUID) (i : ℕ) (log : List LogEntry) : Prop :=
  ∃ entry ∈ log, entry.session = i ∧ IsClaimOf e entry

/-- It has POSTed it. -/
def HasPosted (e : UUID) (i : ℕ) (log : List LogEntry) : Prop :=
  ∃ entry ∈ log, entry.session = i ∧ isAttempt e entry = true

/-- It has recorded an attempt of it. -/
def HasRecorded (e : UUID) (i : ℕ) (log : List LogEntry) : Prop :=
  ∃ entry ∈ log, entry.session = i ∧ records e entry = true

/-- A claim of this event is a claim of some event. -/
theorem IsClaimOf.isClaim (h : IsClaimOf e entry) : IsClaim entry := by
  obtain ⟨t, b, d, ev, ev', hc, hclaims⟩ := h
  obtain ⟨settings, hactor, -⟩ := hclaims.dispatcher
  exact ⟨⟨settings, d, hactor⟩, t, b, e, ev', hc, hclaims.taken, hclaims.status⟩

/-- What a session has claimed, as the protocol of dispatchers describes it, is a claim of that event in the
log. -/
theorem ClaimsEvent.isClaimOf {d : String} {event : CallbackEvent}
    (h : ClaimsEvent settings d i event entry) : IsClaimOf event.eventId entry := by
  obtain ⟨-, hactor, t, b, row, secret, hc, hrow, hwrite, -⟩ := h
  exact ⟨t, b, d, row, _, hc, ⟨settings, hactor, rfl⟩, hrow, hwrite⟩

/-- A claim leaves the number of attempts as it is. -/
theorem IsClaimOf.not_records (h : IsClaimOf e entry) : records e entry = false := by
  obtain ⟨t, b, d, ev, ev', hc, hclaims⟩ := h
  obtain ⟨settings, -, rfl⟩ := hclaims.dispatcher
  rw [Bool.eq_false_iff, Ne, records_iff hc]
  rintro ⟨ev₁, ev₂, hcounts⟩
  obtain rfl := Option.some.inj (hcounts.found.symm.trans hclaims.found)
  obtain rfl := Option.some.inj (hcounts.left.symm.trans hclaims.lookup_patch)
  exact hcounts.counted rfl

/-- Commits are no POSTs. -/
theorem isAttempt_commit {c : Txn Row × Tables} (h : entry.event.commit? = some c) :
    isAttempt e entry = false := by
  rw [isAttempt, (noPost_of_commit h).posts, Bool.and_false]

/-- Only dispatchers record attempts. -/
theorem Legal.dispatcher_of_counts (h : Legal rt l t b) (hcounts : Counts t b e ev ev') :
    ∃ settings d, l = .runOnce settings d := by
  have hstep := h.eventStep e
  rw [hcounts.found, hcounts.left] at hstep
  cases hstep with
  | same => exact absurd rfl hcounts.counted
  | claimed hl => exact absurd rfl hcounts.counted
  | outcome hl => exact ⟨_, _, hl⟩

/-! ## Who POSTs and who records -/

/-- A run whose locks are undisturbed and whose claims are due, with what is known about all runs. -/
structure RetryRun (rt : Runtime) (settings : Settings) (w : ServiceWorld) : Prop where
  past : Past rt w
  protocol : Protocol rt w.log
  posts : Justified (PostDue rt) w.log
  alike : RetriesAlike settings w.log
  kept : LocksKept w
  due : ClaimsDue w.log
  limit : 1 ≤ settings.callbackMaxAttempts

namespace RetryRun

variable (h : RetryRun rt settings w)

include h

/-- Who POSTs an event has claimed it, and has not POSTed it before. -/
theorem claimed_of_attempt (hlog : w.log = newer ++ post :: older) (hpost : isAttempt e post = true) :
    HasClaimed e post.session older ∧ ¬ HasPosted e post.session older := by
  obtain ⟨hdispatcher, hposts⟩ := (Bool.and_eq_true _ _).mp hpost
  obtain ⟨settings', d, hactor⟩ : ∃ settings' d, post.actor = .runOnce settings' d := by
    cases hl : post.actor with
    | runOnce settings' d => exact ⟨settings', d, rfl⟩
    | _ =>
      rw [hl] at hdispatcher
      cases hdispatcher
  obtain ⟨url, body, headers, timeout, reply, hevent⟩ : ∃ url body headers timeout reply,
      post.event = .call (.post url body headers timeout) reply := by
    unfold Matchmaking.posts at hposts
    split at hposts
    · next hevent => exact ⟨_, _, _, _, _, hevent⟩
    · cases hposts
  obtain ⟨event, timestamp, hcall, ⟨claim, hclaim, hclaims⟩, hnone⟩ :=
    h.posts newer post older hlog settings' d hactor url body headers timeout reply hevent
  cases hcall
  have hcall : post.event = .call (postOf rt settings' event timestamp) reply := hevent
  obtain rfl := (posts_postOf hcall).mp hposts
  refine ⟨⟨claim, hclaim, hclaims.1, hclaims.isClaimOf⟩, ?_⟩
  rintro ⟨post', hpost', hsession, hattempt⟩
  cases ((Bool.and_eq_true _ _).mp hattempt).2.symm.trans (hnone post' hpost' hsession)

/-- A recorded attempt is the outcome of a POST, decided by what the session's claim has read. -/
theorem attempt_of_counts (hlog : w.log = newer ++ entry :: older)
    (hc : entry.event.commit? = some (t, b)) (hcounts : Counts t b e ev ev') :
    ∃ (settings' : Settings) (d : String) (o : Outcome) (event : CallbackEvent) (error : Option String),
      settings'.retries = settings.retries ∧ event.eventId = e ∧
      (∃ claim ∈ older, ClaimsEvent settings' d entry.session event claim) ∧
      (∃ post ∈ older, post.session = entry.session ∧ isAttempt e post = true ∧
        isAccepted post = error.isNone) ∧
      ev' = o.apply t.start ev ∧ OutcomeOf settings' event (error.map trim) o ∧
      Timely settings' event o := by
  have hentry : entry ∈ w.log := hlog ▸ List.mem_append_right _ List.mem_cons_self
  obtain ⟨settings', d, hactor⟩ := (h.past.legal hentry hc).dispatcher_of_counts hcounts
  obtain ⟨o, rfl, event, error, rfl, hclaim, ⟨post, hpost, hposts⟩, hof, htimely⟩ :=
    h.protocol.due newer entry older hlog settings' d hactor t b hc e ev ev' hcounts
  obtain ⟨hsession, hpostActor, timestamp, reply, hevent, rfl⟩ := hposts
  refine ⟨settings', d, o, event, _, h.alike entry hentry _ (by rw [hactor]; rfl), rfl, hclaim,
    ⟨post, hpost, hsession, ?_, ?_⟩, rfl, hof, htimely⟩
  · rw [isAttempt, hpostActor, (posts_postOf hevent).mpr rfl]
    rfl
  · rw [isAccepted, hevent]
    rfl

/-- A session that has recorded the outcome of an event has POSTed it before. -/
theorem posted_of_recorded (hlog : w.log = newer ++ older) (hrecorded : HasRecorded e i older) :
    HasPosted e i older := by
  obtain ⟨entry, hentry, rfl, hrecords⟩ := hrecorded
  obtain ⟨between, oldest, rfl⟩ := List.append_of_mem hentry
  obtain ⟨t, b, ev, ev', hc, hcounts⟩ := commit_of_records hrecords
  have hcut : w.log = (newer ++ between) ++ entry :: oldest := by rw [hlog, List.append_assoc]
  obtain ⟨-, -, -, -, -, -, -, -, ⟨post, hpost, hsession, hattempt, -⟩, -⟩ :=
    h.attempt_of_counts hcut hc hcounts
  exact ⟨post, List.mem_append_right _ (List.mem_cons_of_mem _ hpost), hsession, hattempt⟩

/-- A session that has POSTed an event has claimed it before. -/
theorem claimed_of_posted (hlog : w.log = newer ++ older) (hposted : HasPosted e i older) :
    HasClaimed e i older := by
  obtain ⟨post, hpost, rfl, hattempt⟩ := hposted
  obtain ⟨between, oldest, rfl⟩ := List.append_of_mem hpost
  have hcut : w.log = (newer ++ between) ++ post :: oldest := by rw [hlog, List.append_assoc]
  obtain ⟨⟨claim, hclaim, hsession, hclaims⟩, -⟩ := h.claimed_of_attempt hcut hattempt
  exact ⟨claim, List.mem_append_right _ (List.mem_cons_of_mem _ hclaim), hsession, hclaims⟩

/-- A session claims once. -/
theorem not_claimed_before (hlog : w.log = newer ++ entry :: older) (hclaim : IsClaim entry) :
    ¬ HasClaimed e entry.session older := by
  rintro ⟨claim, hmem, hsession, hclaims⟩
  exact h.protocol.single newer entry older hlog hclaim claim hmem hclaims.isClaim hsession

/-- The POSTs of an event are POSTs of different sessions. -/
theorem attempts_nodup (hlog : w.log = newer ++ older) :
    ((attemptsOf e older).map Entry.session).Nodup := by
  induction older generalizing newer with
  | nil => exact List.nodup_nil
  | cons post older ih =>
    have hrest := ih (hlog.trans (List.append_cons ..))
    by_cases hpost : isAttempt e post = true
    · rw [attemptsOf, List.filter_cons_of_pos hpost, List.map_cons, List.nodup_cons]
      refine ⟨fun hmem => (h.claimed_of_attempt hlog hpost).2 ?_, hrest⟩
      obtain ⟨post', hpost', hsession⟩ := List.mem_map.mp hmem
      obtain ⟨hpost', hattempt⟩ := List.mem_filter.mp hpost'
      exact ⟨post', hpost', hsession, hattempt⟩
    · rw [attemptsOf, List.filter_cons_of_neg hpost]
      exact hrest

end RetryRun

/-! ## The states of an event -/

/-- Nobody holds the event: every session that has claimed it has recorded its outcome. -/
structure Unheld (settings : Settings) (e : UUID) (log : List LogEntry) (ev : CallbackEventRow) : Prop where
  recorded : ∀ i, HasClaimed e i log → HasRecorded e i log
  attempts : ev.attempts = (attemptsOf e log).length
  status : ev.status = statusAfter settings.callbackMaxAttempts (attemptsOf e log)

/-- Session `i` holds the event: the row is the one its claim has left. Of the POSTs, the newest may
be its own; `done` are the others, which are recorded. -/
structure Held (settings : Settings) (e : UUID) (log : List LogEntry) (i : ℕ) (ev : CallbackEventRow)
    (done : List LogEntry) : Prop where
  claim : ∃ claim ∈ log, claim.session = i ∧ ∃ t b d ev₀, claim.event.commit? = some (t, b) ∧
    Claims claim.actor t b d e ev₀ ev
  unrecorded : ¬ HasRecorded e i log
  others : ∀ j, HasClaimed e j log → j ≠ i → HasRecorded e j log
  posts : attemptsOf e log = done ∧ ¬ HasPosted e i log ∨
    ∃ post, attemptsOf e log = post :: done ∧ post.session = i
  attempts : ev.attempts = done.length
  pending : statusAfter settings.callbackMaxAttempts done = .pending

/-- What the log says about an event, given its row. -/
inductive EventState (settings : Settings) (e : UUID) (log : List LogEntry) :
    Option CallbackEventRow → Prop
  | absent (hclaimed : ∀ i, ¬ HasClaimed e i log) (hposts : attemptsOf e log = []) :
      EventState settings e log none
  | unheld {ev : CallbackEventRow} (h : Unheld settings e log ev) : EventState settings e log (some ev)
  | held {ev : CallbackEventRow} {i : ℕ} {done : List LogEntry} (h : Held settings e log i ev done) :
      EventState settings e log (some ev)

/-- The backoff of every failure on record is still ahead of the event, or has passed. -/
def Waits (settings : Settings) (e : UUID) (log : List LogEntry) (v : Option CallbackEventRow) : Prop :=
  ∀ entry ∈ log, ∀ t b ev ev', entry.event.commit? = some (t, b) → Counts t b e ev ev' →
    ev'.status = .pending →
      (∃ row, v = some row ∧ row.status = .pending ∧
        t.start + seconds (cappedBackoff ev'.attempts settings) ≤ row.nextAttemptAt) ∨
      ∃ x ∈ log, t.start + seconds (cappedBackoff ev'.attempts settings) ≤ x.time

/-- POSTs decide whether an event is delivered, failed or pending; only a claim puts it in progress. -/
theorem statusAfter_ne_inProgress {M : ℕ} {posts : List LogEntry} :
    statusAfter M posts ≠ .inProgress := by
  unfold statusAfter
  split
  · exact fun h => by cases h
  · split <;> exact fun h => by cases h

/-- While a session holds an event its row is in progress, since the row is the one that the claim has
left. -/
theorem Held.status {done : List LogEntry} (h : Held settings e log i ev done) :
    ev.status = .inProgress := by
  obtain ⟨claim, -, -, t, b, d, ev₀, -, hclaims⟩ := h.claim
  exact hclaims.status

/-- An event stays pending as long as no POST was accepted and attempts are left. -/
theorem statusAfter_eq_pending {M : ℕ} {posts : List LogEntry} :
    statusAfter M posts = .pending ↔ posts.any isAccepted = false ∧ posts.length < M := by
  unfold statusAfter
  cases posts.any isAccepted with
  | true => simp
  | false =>
    by_cases hM : M ≤ posts.length
    · simp [hM]
    · simp [hM, Nat.lt_of_not_le hM]

/-- A retry is due from the time that the backoff has added, and not before. -/
theorem isDue_retry {backoff : ℕ} {error : String} {now time : Time} :
    (ev.markRetry backoff error now).isDue time = decide (now + seconds backoff ≤ time) :=
  Bool.true_and _

theorem seconds_le {m n : ℕ} (h : m ≤ n) : seconds m ≤ seconds n :=
  Int.mul_le_mul_of_nonneg_right (Int.ofNat_le.mpr h) (by decide)

/-- Settings that retry in the same way. -/
theorem retries_eq {settings' : Settings} (h : settings'.retries = settings.retries) :
    settings'.callbackMaxAttempts = settings.callbackMaxAttempts ∧
      (∀ n, cappedBackoff n settings' = cappedBackoff n settings) ∧
      settings'.callbackJitterSeconds = settings.callbackJitterSeconds := by
  simp only [Settings.retries, Prod.mk.injEq] at h
  obtain ⟨hM, hbase, hmax, hjitter⟩ := h
  exact ⟨hM, fun n => by rw [cappedBackoff, cappedBackoff, hbase, hmax], hjitter⟩

/-- The outcome of the newest POST, after POSTs that have left the event pending. -/
theorem OutcomeOf.recorded {settings' : Settings} {event : CallbackEvent} {error : Option String}
    {o : Outcome} {now : Time} {done : List LogEntry} (hof : OutcomeOf settings' event (error.map trim) o)
    (htimely : Timely settings' event o) (halike : settings'.retries = settings.retries)
    (hevent : event.attempts = ev.attempts) (hdone : ev.attempts = done.length)
    (hpending : statusAfter settings.callbackMaxAttempts done = .pending)
    (haccepted : isAccepted post = error.isNone) :
    AttemptRecorded settings now (post :: done) (o.apply now ev) := by
  obtain ⟨hM, hcapped, hjitter⟩ := retries_eq halike
  obtain ⟨hnone, hless⟩ := statusAfter_eq_pending.mp hpending
  cases error with
  | none =>
    obtain rfl : o = .delivered := hof
    refine ⟨congrArg Nat.succ hdone, ?_, fun _ hst => (by cases hst), fun _ hst => by cases hst⟩
    rw [statusAfter, if_pos (by rw [List.any_cons, haccepted]; rfl)]
    rfl
  | some error =>
    have hany : (post :: done).any isAccepted = false := by
      rw [List.any_cons, haccepted, hnone]
      rfl
    have hfailed : FailedAttempt settings' event (trim error) o := hof
    unfold FailedAttempt at hfailed
    rw [hM, hevent, hdone] at hfailed
    split at hfailed
    · next hlast =>
      subst hfailed
      refine ⟨congrArg Nat.succ hdone, ?_, fun _ hst => (by cases hst), fun _ hst => by cases hst⟩
      rw [statusAfter, hany, if_neg Bool.false_ne_true, if_pos (by simpa using hlast)]
      rfl
    · next hmore =>
      obtain ⟨jitter, rfl⟩ := hfailed
      have hbound := htimely _ _ rfl
      rw [hcapped, hcapped, hevent, hdone, hjitter] at hbound
      rw [hcapped] at *
      refine ⟨congrArg Nat.succ hdone, ?_, fun time _ hearly => ?_, fun time _ hlate => ?_⟩
      · rw [statusAfter_eq_pending.mpr ⟨hany, Nat.lt_of_not_le (by simpa using hmore)⟩]
        rfl
      · refine isDue_retry.trans (decide_eq_false fun hdue => ?_)
        have hcap := seconds_le (Nat.le_add_right (cappedBackoff (done.length + 1) settings) jitter)
        exact absurd (Int.lt_of_lt_of_le hearly (Int.add_le_add_left hcap now)) (Int.not_lt.mpr hdue)
      · exact isDue_retry.trans (decide_eq_true
          (Int.le_trans (Int.add_le_add_left (seconds_le hbound) now) hlate))

/-! ## Entries that leave the event alone -/

/-- A session has claimed the event by its newest entry or by an older one. -/
theorem hasClaimed_cons : HasClaimed e i (entry :: log) ↔
    entry.session = i ∧ IsClaimOf e entry ∨ HasClaimed e i log := by
  simp [HasClaimed]

theorem hasPosted_cons : HasPosted e i (entry :: log) ↔
    entry.session = i ∧ isAttempt e entry = true ∨ HasPosted e i log := by
  simp [HasPosted]

theorem hasRecorded_cons : HasRecorded e i (entry :: log) ↔
    entry.session = i ∧ records e entry = true ∨ HasRecorded e i log := by
  simp [HasRecorded]

/-- A POST is completed when its session has recorded the outcome. -/
theorem isCompleted_iff : isCompleted e log post = true ↔ HasRecorded e post.session log := by
  simp [isCompleted, HasRecorded]

/-- Commits are no POSTs, so they leave the list of attempts as it is. -/
theorem attemptsOf_cons_commit {c : Txn Row × Tables} (h : entry.event.commit? = some c) :
    attemptsOf e (entry :: log) = attemptsOf e log := by
  rw [attemptsOf, List.filter_cons_of_neg (by rw [isAttempt_commit h]; exact Bool.false_ne_true)]
  rfl

/-- An entry that is no claim, no POST and no record of the event. -/
theorem EventState.other (h : EventState settings e log v) (hclaim : ¬ IsClaimOf e entry)
    (hpost : isAttempt e entry = false) (hrecord : records e entry = false) :
    EventState settings e (entry :: log) v := by
  have hclaimed : ∀ i, HasClaimed e i (entry :: log) ↔ HasClaimed e i log := by
    simp [hasClaimed_cons, hclaim]
  have hposted : ∀ i, HasPosted e i (entry :: log) ↔ HasPosted e i log := by
    simp [hasPosted_cons, hpost]
  have hrecorded : ∀ i, HasRecorded e i (entry :: log) ↔ HasRecorded e i log := by
    simp [hasRecorded_cons, hrecord]
  have hattempts : attemptsOf e (entry :: log) = attemptsOf e log := by
    rw [attemptsOf, List.filter_cons_of_neg (by rw [hpost]; exact Bool.false_ne_true)]
    rfl
  cases h with
  | absent hnone hposts =>
    exact .absent (fun i hi => hnone i ((hclaimed i).mp hi)) (hattempts.trans hposts)
  | unheld h =>
    refine .unheld ⟨fun i hi => (hrecorded i).mpr (h.recorded i ((hclaimed i).mp hi)), ?_, ?_⟩
    · rw [hattempts]
      exact h.attempts
    · rw [hattempts]
      exact h.status
  | @held ev i done h =>
    refine .held ⟨?_, fun hi => h.unrecorded ((hrecorded i).mp hi), fun j hj hne =>
      (hrecorded j).mpr (h.others j ((hclaimed j).mp hj) hne), ?_, h.attempts, h.pending⟩
    · obtain ⟨claim, hmem, hclaim⟩ := h.claim
      exact ⟨claim, List.mem_cons_of_mem _ hmem, hclaim⟩
    · rw [hattempts, hposted]
      exact h.posts

/-- An entry that records no attempt of the event, if the row stays. -/
theorem Waits.other (h : Waits settings e log v) (hrecord : records e entry = false) :
    Waits settings e (entry :: log) v := by
  intro x hx t b ev ev' hc hcounts hst
  rcases List.mem_cons.mp hx with rfl | hx
  · rw [Bool.eq_false_iff, Ne, records_iff hc] at hrecord
    exact absurd ⟨ev, ev', hcounts⟩ hrecord
  · exact (h x hx t b ev ev' hc hcounts hst).imp_right fun hpast =>
      hpast.imp fun _ hy => ⟨List.mem_cons_of_mem _ hy.1, hy.2⟩

/-! ## Claims, POSTs and records -/

namespace RetryRun

variable (h : RetryRun rt settings w)

include h

/-- What lies before an entry is not newer. -/
theorem time_le (hlog : w.log = newer ++ entry :: older) {x : LogEntry} (hx : x ∈ older) :
    x.time ≤ entry.time := by
  have hordered := (List.pairwise_append.mp (hlog ▸ h.past.history.ordered)).2.1
  exact (List.pairwise_cons.mp hordered).1 x hx

/-- A claim finds the event pending, and nobody holds it. -/
theorem unheld_of_claim (hlog : w.log = newer ++ entry :: older) {d : String}
    (hc : entry.event.commit? = some (t, b)) (hclaims : Claims entry.actor t b d e ev ev')
    (hstate : EventState settings e older (some ev)) :
    Unheld settings e older ev ∧ ev.status = .pending ∧ ev.nextAttemptAt ≤ t.start := by
  have hentry : entry ∈ w.log := hlog ▸ List.mem_append_right _ List.mem_cons_self
  have hdue := h.due entry hentry t b d e ev ev' hc hclaims
  simp only [CallbackEventRow.isDue, Bool.and_eq_true, Bool.or_eq_true, decide_eq_true_eq] at hdue
  obtain ⟨hdue, hnext⟩ := hdue
  cases hstate with
  | unheld hunheld =>
    refine ⟨hunheld, ?_, hnext⟩
    rcases hdue with hpending | ⟨hst, -⟩
    · exact hpending
    · rw [hunheld.status] at hst
      exact absurd hst statusAfter_ne_inProgress
  | held hheld =>
    -- the lock has expired, so the holder has recorded an outcome by now
    rcases hdue with hpending | ⟨-, hlock⟩
    · rw [hheld.status] at hpending
      cases hpending
    obtain ⟨u, hu, hexpired⟩ := Option.any_eq_true _ _ |>.mp hlock
    have hexpired : u ≤ t.start := of_decide_eq_true hexpired
    obtain ⟨claim, hclaim, rfl, t', b', d', ev₀, hc', hclaims'⟩ := hheld.claim
    have hstart : t.start ≤ entry.time := h.past.history.opened entry hentry t b hc
    have hclaimMem : claim ∈ w.log := hlog ▸ List.mem_append_right _ (List.mem_cons_of_mem _ hclaim)
    obtain ⟨record, hrecord, hsession, hrecords, htime⟩ := h.kept.inTime claim hclaimMem t' b' d' e ev₀ ev
      u hc' hclaims' hu (Int.le_trans hexpired (Int.le_trans hstart (h.past.history.past entry hentry)))
    have hearlier : record.time < entry.time :=
      Int.lt_of_lt_of_le htime (Int.le_trans hexpired hstart)
    refine absurd ⟨record, ?_, hsession, hrecords⟩ hheld.unrecorded
    have hordered := List.pairwise_append.mp (hlog ▸ h.past.history.ordered)
    rw [hlog] at hrecord
    rcases List.mem_append.mp hrecord with hnewer | hrest
    · exact absurd (hordered.2.2 record hnewer entry List.mem_cons_self) (Int.not_le.mpr hearlier)
    · rcases List.mem_cons.mp hrest with rfl | holder
      · exact absurd hearlier (Int.lt_irrefl _)
      · exact holder

/-- Who POSTs an event holds it, and POSTs it for the first time. -/
theorem held_of_attempt (hlog : w.log = newer ++ post :: older) (hpost : isAttempt e post = true)
    (hstate : EventState settings e older v) :
    ∃ ev done, v = some ev ∧ Held settings e older post.session ev done ∧ attemptsOf e older = done := by
  obtain ⟨hclaimed, hfresh⟩ := h.claimed_of_attempt hlog hpost
  have hunrecorded : ¬ HasRecorded e post.session older := fun hrecorded =>
    hfresh (h.posted_of_recorded (hlog.trans (List.append_cons ..)) hrecorded)
  cases hstate with
  | absent hnone hposts => exact absurd hclaimed (hnone _)
  | unheld hunheld => exact absurd (hunheld.recorded _ hclaimed) hunrecorded
  | @held ev i done hheld =>
    by_cases hi : post.session = i
    · subst hi
      refine ⟨ev, done, rfl, hheld, ?_⟩
      obtain ⟨hdone, -⟩ | ⟨post', hposts, hsession⟩ := hheld.posts
      · exact hdone
      · have hmem : post' ∈ attemptsOf e older := by
          rw [hposts]
          exact List.mem_cons_self
        obtain ⟨hmem, hattempt⟩ := List.mem_filter.mp hmem
        exact absurd ⟨post', hmem, hsession, hattempt⟩ hfresh
    · exact absurd (hheld.others _ hclaimed hi) hunrecorded

/-- Who records an attempt holds the event and has POSTed it last; the outcome is that of this POST. -/
theorem held_of_counts (hlog : w.log = newer ++ entry :: older)
    (hc : entry.event.commit? = some (t, b)) (hcounts : Counts t b e ev ev')
    (hstate : EventState settings e older (some ev)) :
    ∃ post done, Held settings e older entry.session ev done ∧ attemptsOf e older = post :: done ∧
      AttemptRecorded settings t.start (post :: done) ev' := by
  have hrecords : records e entry = true := (records_iff hc).mpr ⟨ev, ev', hcounts⟩
  have hfirst : ¬ HasRecorded e entry.session older := by
    rintro ⟨record, hmem, hsession, hrecord⟩
    cases hrecord.symm.trans (h.kept.once e newer entry older hlog hrecords record hmem hsession)
  have hsuffix : w.log = (newer ++ [entry]) ++ older := hlog.trans (List.append_cons ..)
  obtain ⟨settings', d, o, event, error, halike, rfl, ⟨claim, hclaim, hclaims⟩,
    ⟨post', hpost', hsession', hattempt', haccepted⟩, rfl, hof, htimely⟩ :=
      h.attempt_of_counts hlog hc hcounts
  have hclaimed : HasClaimed event.eventId entry.session older :=
    ⟨claim, hclaim, hclaims.1, hclaims.isClaimOf⟩
  cases hstate with
  | unheld hunheld => exact absurd (hunheld.recorded _ hclaimed) hfirst
  | @held ev i done hheld =>
    by_cases hi : entry.session = i
    case neg => exact absurd (hheld.others _ hclaimed hi) hfirst
    subst hi
    obtain ⟨-, hnone⟩ | ⟨post, hposts, hsession⟩ := hheld.posts
    · exact absurd ⟨post', hpost', hsession', hattempt'⟩ hnone
    -- the session has POSTed once and claimed once
    have hpost : post' = post := by
      refine List.inj_on_of_nodup_map (h.attempts_nodup hsuffix)
        (List.mem_filter.mpr ⟨hpost', hattempt'⟩) ?_ (hsession'.trans hsession.symm)
      rw [hposts]
      exact List.mem_cons_self
    obtain ⟨claim', hclaim', hholder, t', b', d', ev₀, hc', hclaims'⟩ := hheld.claim
    have hmem : ∀ x ∈ older, x ∈ w.log := fun x hx => hsuffix ▸ List.mem_append_right _ hx
    obtain rfl := h.protocol.claim_eq (hmem _ hclaim) (hmem _ hclaim') hclaims.isClaim
      (IsClaimOf.isClaim ⟨t', b', d', ev₀, ev, hc', hclaims'⟩) (hclaims.1.trans hholder.symm)
    have hattempts : event.attempts = ev.attempts := by
      obtain ⟨-, -, t'', b'', row, secret, hc'', -, hwrite, hevent⟩ := hclaims
      obtain ⟨rfl, rfl⟩ := Prod.mk.inj (Option.some.inj (hc'.symm.trans hc''))
      have hrow := Option.some.inj (Option.some.inj (hwrite.symm.trans hclaims'.taken))
      rw [hevent, ← hrow]
      rfl
    refine ⟨post, done, hheld, hposts, ?_⟩
    exact hof.recorded htimely halike hattempts hheld.attempts hheld.pending (hpost ▸ haccepted)

/-! What they make of the event. -/

/-- A claim of an event that nobody holds makes the session its holder, with all earlier POSTs recorded. -/
theorem held_after_claim (hlog : w.log = newer ++ entry :: older) {d : String}
    (hc : entry.event.commit? = some (t, b)) (hclaims : Claims entry.actor t b d e ev ev')
    (hunheld : Unheld settings e older ev) (hpending : ev.status = .pending) :
    Held settings e (entry :: older) entry.session ev' (attemptsOf e older) := by
  have hclaim : IsClaimOf e entry := ⟨t, b, d, ev, ev', hc, hclaims⟩
  have hsuffix : w.log = (newer ++ [entry]) ++ older := hlog.trans (List.append_cons ..)
  have hnew := h.not_claimed_before hlog hclaim.isClaim (e := e)
  have hunposted : ¬ HasPosted e entry.session older := fun hposted =>
    hnew (h.claimed_of_posted hsuffix hposted)
  refine ⟨⟨entry, List.mem_cons_self, rfl, t, b, d, ev, hc, hclaims⟩, ?_, ?_,
    .inl ⟨attemptsOf_cons_commit hc, ?_⟩, ?_, hunheld.status ▸ hpending⟩
  · rw [hasRecorded_cons]
    rintro (⟨-, hrecords⟩ | hrecorded)
    · cases hrecords.symm.trans hclaim.not_records
    · exact hunposted (h.posted_of_recorded hsuffix hrecorded)
  · intro j hj hne
    rcases hasClaimed_cons.mp hj with ⟨hsession, -⟩ | hj
    · exact absurd hsession.symm hne
    · exact hasRecorded_cons.mpr (.inr (hunheld.recorded j hj))
  · rw [hasPosted_cons, isAttempt_commit hc]
    rintro (⟨-, hpost⟩ | hposted)
    · cases hpost
    · exact hunposted hposted
  · obtain ⟨settings', -, rfl⟩ := hclaims.dispatcher
    exact hunheld.attempts

omit h in
/-- The POST of the holder is its own, and is not recorded yet. -/
theorem held_after_attempt {done : List LogEntry} (hpost : isAttempt e post = true)
    (hheld : Held settings e older post.session ev done) (hdone : attemptsOf e older = done) :
    Held settings e (post :: older) post.session ev done := by
  have hc : post.event.commit? = none := by
    cases hcommit : post.event.commit? with
    | none => rfl
    | some c => cases hpost.symm.trans (isAttempt_commit hcommit)
  refine ⟨?_, ?_, ?_, .inr ⟨post, ?_, rfl⟩, hheld.attempts, hheld.pending⟩
  · obtain ⟨claim, hmem, hclaim⟩ := hheld.claim
    exact ⟨claim, List.mem_cons_of_mem _ hmem, hclaim⟩
  · rw [hasRecorded_cons]
    rintro (⟨-, hrecords⟩ | hrecorded)
    · obtain ⟨t, b, -, -, hcommit, -⟩ := commit_of_records hrecords
      cases hc.symm.trans hcommit
    · exact hheld.unrecorded hrecorded
  · intro j hj hne
    rcases hasClaimed_cons.mp hj with ⟨hsession, -⟩ | hj
    · exact absurd hsession.symm hne
    · exact hasRecorded_cons.mpr (.inr (hheld.others j hj hne))
  · rw [attemptsOf, List.filter_cons_of_pos hpost]
    exact congrArg (post :: ·) hdone

omit h in
/-- The record of the holder's POST gives the event free: the row now counts that POST too. -/
theorem unheld_after_record {done : List LogEntry} (hc : entry.event.commit? = some (t, b))
    (hrecords : records e entry = true) (hheld : Held settings e older entry.session ev done)
    (hposts : attemptsOf e older = post :: done)
    (hrecord : AttemptRecorded settings t.start (post :: done) ev') :
    Unheld settings e (entry :: older) ev' := by
  refine ⟨fun j hj => hasRecorded_cons.mpr ?_, ?_, ?_⟩
  · by_cases hj' : entry.session = j
    · exact .inl ⟨hj', hrecords⟩
    · rcases hasClaimed_cons.mp hj with ⟨hsession, -⟩ | hj
      · exact absurd hsession hj'
      · exact .inr (hheld.others j hj (Ne.symm hj'))
  · rw [attemptsOf_cons_commit hc, hposts]
    exact hrecord.attempts
  · rw [attemptsOf_cons_commit hc, hposts]
    exact hrecord.status

/-- A claim comes after all backoffs. -/
theorem waits_after_claim (hlog : w.log = newer ++ entry :: older) {d : String}
    (hc : entry.event.commit? = some (t, b)) (hclaims : Claims entry.actor t b d e ev ev')
    (hnext : ev.nextAttemptAt ≤ t.start) (hwaits : Waits settings e older (some ev)) :
    Waits settings e (entry :: older) (some ev') := by
  have hentry : entry ∈ w.log := hlog ▸ List.mem_append_right _ List.mem_cons_self
  have hstart : t.start ≤ entry.time := h.past.history.opened entry hentry t b hc
  have hclaim : IsClaimOf e entry := ⟨t, b, d, ev, ev', hc, hclaims⟩
  intro x hx t' b' ev₁ ev₂ hc' hcounts hst
  obtain ⟨row, hrow, -, hahead⟩ | hpast :=
    hwaits.other hclaim.not_records x hx t' b' ev₁ ev₂ hc' hcounts hst
  · cases hrow
    exact .inr ⟨entry, List.mem_cons_self, Int.le_trans hahead (Int.le_trans hnext hstart)⟩
  · exact .inr hpast

omit h in
/-- The record of an attempt waits as long as it says; the others have waited. -/
theorem waits_after_record {done : List LogEntry} (hc : entry.event.commit? = some (t, b))
    (hcounts : Counts t b e ev ev') (hheld : Held settings e older entry.session ev done)
    (hrecord : AttemptRecorded settings t.start (post :: done) ev')
    (hwaits : Waits settings e older (some ev)) : Waits settings e (entry :: older) (some ev') := by
  intro x hx t' b' ev₁ ev₂ hc' hcounts' hst
  rcases List.mem_cons.mp hx with rfl | hx
  · obtain ⟨rfl, rfl⟩ := Prod.mk.inj (Option.some.inj (hc.symm.trans hc'))
    obtain rfl := Option.some.inj (hcounts.left.symm.trans hcounts'.left)
    refine .inl ⟨ev', rfl, hst, Int.not_lt.mp fun hless => ?_⟩
    rw [hrecord.attempts] at hless
    have hdue : ev'.isDue ev'.nextAttemptAt = true := by
      simp [CallbackEventRow.isDue, hst]
    cases hdue.symm.trans (hrecord.early _ hst hless)
  · obtain ⟨row, hrow, hpending, -⟩ | hpast := hwaits x hx t' b' ev₁ ev₂ hc' hcounts' hst
    · cases hrow
      cases hheld.status.symm.trans hpending
    · exact .inr (hpast.imp fun _ hy => ⟨List.mem_cons_of_mem _ hy.1, hy.2⟩)

/-- A commit that neither claims the event nor records an attempt of it leaves its row alone, unless it
makes the event. -/
theorem unaffected (hentry : entry ∈ w.log) (hc : entry.event.commit? = some (t, b))
    (hclaim : ¬ IsClaimOf e entry) (hrecord : records e entry = false) :
    (patch t.writes b).lookup (.callbackEvents e) = b.lookup (.callbackEvents e) ∨
      b.lookup (.callbackEvents e) = none ∧ ∃ n : NewMatch,
        (patch t.writes b).lookup (.callbackEvents e) = some (n.event t.start) := by
  have hlegal := h.past.legal hentry hc
  have hstep := hlegal.eventStep e
  have hcounted : ∀ ev ev', Counts t b e ev ev' → False := by
    intro ev ev' hcounts
    cases hrecord.symm.trans ((records_iff hc).mpr ⟨ev, ev', hcounts⟩)
  generalize hold : b.lookup (.callbackEvents e) = v at hstep ⊢
  generalize hnew : (patch t.writes b).lookup (.callbackEvents e) = v' at hstep ⊢
  cases hstep with
  | same => exact .inl rfl
  | made n he => exact .inr ⟨rfl, n, rfl⟩
  | @claimed settings' d hl tie σ hσ he ev =>
    obtain hsame | ⟨d', row, hclaims⟩ := hlegal.inProgress hnew rfl
    · exact .inl (hsame.symm.trans hold)
    · exact absurd ⟨t, b, d', row, _, hc, hclaims⟩ hclaim
  | outcome hl o ev =>
    cases o with
    | released error =>
      exact .inl (congrArg some (h.kept.kept entry hentry t b hc e ev error hold hnew))
    | delivered | failed error | retry backoff error =>
      exact (hcounted ev _ ⟨hold, hnew, Nat.succ_ne_self _⟩).elim

/-- **The state of an event**, at every point of the history. -/
theorem state (hlog : w.log = newer ++ older) (hm : Chained ∅ older m) :
    EventState settings e older (m.lookup (.callbackEvents e)) ∧
      Waits settings e older (m.lookup (.callbackEvents e)) := by
  induction hm generalizing newer with
  | nil =>
    exact ⟨.absent (fun i hi => hi.elim fun _ hx => (List.not_mem_nil hx.1).elim) rfl,
      fun _ hx => (List.not_mem_nil hx).elim⟩
  | @other entry m log hc hm ih =>
    obtain ⟨hstate, hwaits⟩ := ih (hlog.trans (List.append_cons ..))
    have hclaim : ¬ IsClaimOf e entry := by
      rintro ⟨t, b, d, ev, ev', hcommit, -⟩
      cases hc.symm.trans hcommit
    have hrecord : records e entry = false := by
      rw [records, hc]
      rfl
    refine ⟨?_, hwaits.other hrecord⟩
    by_cases hpost : isAttempt e entry = true
    · obtain ⟨ev, done, hrow, hheld, hdone⟩ := h.held_of_attempt hlog hpost hstate
      rw [hrow]
      exact .held (held_after_attempt hpost hheld hdone)
    · exact hstate.other hclaim (Bool.eq_false_iff.mpr hpost) hrecord
  | @commit entry t m log hc hm ih =>
    obtain ⟨hstate, hwaits⟩ := ih (hlog.trans (List.append_cons ..))
    have hentry : entry ∈ w.log := hlog ▸ List.mem_append_right _ List.mem_cons_self
    by_cases hclaim : IsClaimOf e entry
    -- a claim takes up an event that nobody holds
    · obtain ⟨t', b', d, ev, ev', hc', hclaims⟩ := hclaim
      obtain ⟨rfl, rfl⟩ := Prod.mk.inj (Option.some.inj (hc.symm.trans hc'))
      rw [hclaims.found] at hstate hwaits
      rw [hclaims.lookup_patch]
      obtain ⟨hunheld, hpending, hnext⟩ := h.unheld_of_claim hlog hc hclaims hstate
      exact ⟨.held (h.held_after_claim hlog hc hclaims hunheld hpending),
        h.waits_after_claim hlog hc hclaims hnext hwaits⟩
    -- a record ends the hold, after the POST of the holder
    by_cases hrecord : records e entry = true
    · obtain ⟨ev, ev', hcounts⟩ := (records_iff hc).mp hrecord
      rw [hcounts.found] at hstate hwaits
      rw [hcounts.left]
      obtain ⟨post, done, hheld, hposts, hrecorded⟩ := h.held_of_counts hlog hc hcounts hstate
      exact ⟨.unheld (unheld_after_record hc hrecord hheld hposts hrecorded),
        waits_after_record hc hcounts hheld hrecorded hwaits⟩
    have hrecord := Bool.eq_false_iff.mpr hrecord
    have hother := hstate.other hclaim (isAttempt_commit hc) hrecord
    -- any other commit leaves the row alone, or inserts it with its match
    obtain hsame | ⟨hnone, n, hmade⟩ := h.unaffected hentry hc hclaim hrecord
    · rw [hsame]
      exact ⟨hother, hwaits.other hrecord⟩
    · rw [hnone] at hother hwaits
      rw [hmade]
      cases hother with
      | absent hclaimed hposts =>
        refine ⟨.unheld ⟨fun i hi => absurd hi (hclaimed i), ?_, ?_⟩, fun x hx t' b' ev ev' hc' hcounts hst => ?_⟩
        · rw [hposts]
          rfl
        · rw [hposts, statusAfter_eq_pending.mpr ⟨rfl, h.limit⟩]
          rfl
        · obtain ⟨row, hrow, -⟩ | hpast := hwaits.other hrecord x hx t' b' ev ev' hc' hcounts hst
          · cases hrow
          · exact .inr hpast

/-! ## The protocol is kept -/

/-- The POSTs of sessions other than the holder are completed. -/
theorem completed_of_others {posts : List LogEntry} (hlog : w.log = newer ++ older)
    (hposts : ∀ post ∈ posts, post ∈ attemptsOf e older)
    (hothers : ∀ post ∈ posts, HasClaimed e post.session older → HasRecorded e post.session older) :
    posts.filter (isCompleted e older) = posts := by
  refine List.filter_eq_self.mpr fun post hpost => ?_
  obtain ⟨hmem, hattempt⟩ := List.mem_filter.mp (hposts post hpost)
  exact isCompleted_iff.mpr (hothers post hpost
    (h.claimed_of_posted hlog ⟨post, hmem, rfl, hattempt⟩))

/-- Of an event that nobody holds, every POST is completed. -/
theorem completed_of_unheld (hlog : w.log = newer ++ older) (hunheld : Unheld settings e older ev) :
    completedPosts e older = attemptsOf e older :=
  h.completed_of_others hlog (fun _ hpost => hpost) fun _ _ => hunheld.recorded _

/-- The holder's own POST is not completed, the others are. -/
theorem completed_of_held {done : List LogEntry} (hlog : w.log = newer ++ older)
    (hheld : Held settings e older i ev done) :
    completedPosts e older = done ∧ (attemptsOf e older).length ≤ done.length + 1 := by
  unfold completedPosts
  obtain ⟨hdone, hunposted⟩ | ⟨post, hposts, rfl⟩ := hheld.posts
  · rw [hdone]
    refine ⟨h.completed_of_others hlog (fun _ hpost => hdone ▸ hpost) fun post hpost hclaimed => ?_,
      Nat.le_succ _⟩
    refine hheld.others _ hclaimed fun hi => hunposted ?_
    rw [← hdone] at hpost
    obtain ⟨hmem, hattempt⟩ := List.mem_filter.mp hpost
    exact ⟨post, hmem, hi, hattempt⟩
  · rw [hposts]
    have hown : ¬ isCompleted e older post = true := fun hcompleted =>
      hheld.unrecorded (isCompleted_iff.mp hcompleted)
    rw [List.filter_cons_of_neg hown]
    have hnodup := h.attempts_nodup hlog (e := e)
    rw [hposts, List.map_cons, List.nodup_cons] at hnodup
    refine ⟨h.completed_of_others hlog (fun _ hpost => ?_) fun post' hpost' hclaimed => ?_, Nat.le_refl _⟩
    · rw [hposts]
      exact List.mem_cons_of_mem _ hpost
    · refine hheld.others _ hclaimed fun hi => hnodup.1 ?_
      rw [← hi]
      exact List.mem_map_of_mem hpost'

/-- The first part of the protocol, read off the state of the event in the newest committed tables. -/
theorem counted (hev : w.committed.lookup (.callbackEvents e) = some ev) :
    ev.attempts = (completedPosts e w.log).length ∧
      (ev.status = .inProgress ∧ (attemptsOf e w.log).length ≤ ev.attempts + 1 ∨
        completedPosts e w.log = attemptsOf e w.log ∧
          ev.status = statusAfter settings.callbackMaxAttempts (attemptsOf e w.log)) := by
  have hlog : w.log = [] ++ w.log := rfl
  have hstate := (h.state hlog h.past.history.chained (e := e)).1
  rw [hev] at hstate
  cases hstate with
  | unheld hunheld =>
    have hcompleted := h.completed_of_unheld hlog hunheld
    rw [hcompleted]
    exact ⟨hunheld.attempts, .inr ⟨rfl, hunheld.status⟩⟩
  | held hheld =>
    obtain ⟨hcompleted, hlength⟩ := h.completed_of_held hlog hheld
    rw [hcompleted, hheld.attempts]
    exact ⟨rfl, .inl ⟨hheld.status, hlength⟩⟩

/-- The second part: at a POST the event is held, and being held means that attempts were left and all
backoffs have passed. -/
theorem posted (hlog : w.log = newer ++ post :: older) (hpost : isAttempt e post = true) :
    statusAfter settings.callbackMaxAttempts (attemptsOf e older) = .pending ∧
      ∀ entry ∈ older, ∀ t b ev ev', entry.event.commit? = some (t, b) → Counts t b e ev ev' →
        ev'.status = .pending →
          t.start + seconds (cappedBackoff ev'.attempts settings) ≤ post.time := by
  have hsuffix : w.log = (newer ++ [post]) ++ older := hlog.trans (List.append_cons ..)
  obtain ⟨m, hm, -⟩ := Chained.split (hsuffix ▸ h.past.history.chained)
  obtain ⟨hstate, hwaits⟩ := h.state hsuffix hm (e := e)
  obtain ⟨ev, done, hrow, hheld, hdone⟩ := h.held_of_attempt hlog hpost hstate
  refine ⟨hdone ▸ hheld.pending, fun entry hentry t b ev₁ ev₂ hc hcounts hst => ?_⟩
  -- the event is in progress, so all backoffs have passed
  obtain ⟨row, hpending, hst', -⟩ | ⟨x, hx, hpast⟩ := hwaits entry hentry t b ev₁ ev₂ hc hcounts hst
  · obtain rfl := Option.some.inj (hrow.symm.trans hpending)
    cases hheld.status.symm.trans hst'
  · exact Int.le_trans hpast (h.time_le hlog hx)

/-- The third part: whoever records an attempt holds the event, and leaves the row that its POST has led
to. -/
theorem recorded (hlog : w.log = newer ++ entry :: older) (hc : entry.event.commit? = some (t, b))
    (hcounts : Counts t b e ev ev') :
    AttemptRecorded settings t.start (attemptsOf e older) ev' := by
  have hsuffix : w.log = (newer ++ [entry]) ++ older := hlog.trans (List.append_cons ..)
  have hb : Chained ∅ older b := (Chained.cut (hlog ▸ h.past.history.chained) hc).1
  have hstate := (h.state hsuffix hb (e := e)).1
  rw [hcounts.found] at hstate
  obtain ⟨post, done, -, hposts, hrecorded⟩ := h.held_of_counts hlog hc hcounts hstate
  rw [hposts]
  exact hrecorded

end RetryRun

/-- **Retries.** In a run of dispatchers that retry in the same way, with undisturbed locks and claims that
take only events that are due, every event is retried as the settings say: its row counts its completed
POSTs, it is POSTed only while attempts are left and after the backoff of every failure, and each record
leaves what the POSTs until then have led to. -/
theorem retry_protocol {clock : Time} {s : ServiceState}
    (hs : (service rt).Reachable (emptyState clock) s) (hM : 1 ≤ settings.callbackMaxAttempts)
    (halike : RetriesAlike settings s.world.log) (hkept : LocksKept s.world)
    (hdue : ClaimsDue s.world.log) (e : UUID) : RetryProtocol settings e s.world := by
  have h : RetryRun rt settings s.world :=
    { past := service_past hs
      protocol := protocol (fun _ _ => rfl) hs
      posts := posts_claimed (fun _ _ => rfl) hs
      alike := halike
      kept := hkept
      due := hdue
      limit := hM }
  exact ⟨fun ev hev => h.counted hev, fun newer post older hlog hpost => h.posted hlog hpost,
    fun newer entry older hlog t b ev ev' hc hcounts => h.recorded hlog hc hcounts⟩

/-! ## Two runs -/

/-- No event that the entry writes has a lock that has expired at `clock`, or is pending again without
another attempt. -/
def keepsLocks (clock : Time) (entry : LogEntry) : Bool :=
  entry.event.commit?.all fun (t, b) => t.writes.all fun p => match p with
    | ⟨.callbackEvents e, some (ev : CallbackEventRow)⟩ =>
      !(ev.lockedUntil.any fun u => u ≤ clock) &&
        (ev.status ≠ .pending || attemptsIn e b ≠ some ev.attempts)
    | _ => true

/-- The entry records an attempt of some event. -/
def recordsAny (entry : LogEntry) : Bool :=
  entry.event.commit?.any fun (_, b) => (rowsOf eventRow b).any fun p => records p.1 entry

/-- What the entry claims is due. -/
def claimsDue (entry : LogEntry) : Bool :=
  entry.event.commit?.all fun (t, b) => (rowsOf eventRow b).all fun p =>
    (t.writes.dlookup (.callbackEvents p.1)).all fun o => o.all fun (ev : CallbackEventRow) =>
      ev.status ≠ .inProgress || p.2.isDue t.start

/-- The event that an entry records is one of those that the tables name. -/
theorem recordsAny_of_records (h : records e entry = true) : recordsAny entry = true := by
  obtain ⟨t, b, ev, ev', hc, hcounts⟩ := commit_of_records h
  rw [recordsAny, hc, Option.any_some]
  exact List.any_eq_true.mpr ⟨(e, ev), mem_rowsOf_eventRow.mpr hcounts.found, h⟩

/-- What the check says of one row that an entry writes. -/
theorem keepsLocks_written {clock : Time} (h : keepsLocks clock entry = true)
    (hc : entry.event.commit? = some (t, b))
    (hwrite : t.writes.dlookup (.callbackEvents e) = some (some ev)) :
    (∀ u, ev.lockedUntil = some u → clock < u) ∧
      (ev.status = .pending → attemptsIn e b ≠ some ev.attempts) := by
  rw [keepsLocks, hc, Option.all_some] at h
  have hcheck := List.all_eq_true.mp h _ (List.of_mem_dlookup hwrite)
  simp only [Bool.and_eq_true, Bool.not_eq_true', Bool.or_eq_true, decide_eq_true_eq] at hcheck
  refine ⟨fun u hu => ?_, fun hst => hcheck.2.resolve_left fun hne => hne hst⟩
  rw [hu, Option.any_some, decide_eq_false_iff_not] at hcheck
  exact Int.not_le.mp hcheck.1

/-- A log in which no lock has expired, no event becomes pending without an attempt, and no session records
twice, is one with undisturbed locks. -/
theorem locksKept_of_checks (hkept : w.log.all (keepsLocks w.clock) = true)
    (honce : w.log.Pairwise fun entry older => recordsAny entry = true → recordsAny older = true →
      older.session ≠ entry.session) : LocksKept w where
  inTime claim hclaim t b d e ev ev' u hc hclaims hu hexpired := by
    have hlock := (keepsLocks_written (List.all_eq_true.mp hkept claim hclaim) hc hclaims.taken).1 u hu
    exact absurd hexpired (Int.not_le.mpr hlock)
  once e newer entry older hlog hrecords entry' hentry' hsession := by
    have hpairs := (List.pairwise_append.mp (hlog ▸ honce)).2.1
    rw [Bool.eq_false_iff]
    intro hrecords'
    exact (List.pairwise_cons.mp hpairs).1 entry' hentry' (recordsAny_of_records hrecords)
      (recordsAny_of_records hrecords') hsession
  kept entry hentry t b hc e ev error hold hnew := by
    cases hwrite : t.writes.dlookup (.callbackEvents e) with
    | none =>
      rw [lookup_patch_of_notMem hwrite, hold] at hnew
      exact (Option.some.inj hnew).symm
    | some o =>
      rw [lookup_patch_of_mem hwrite] at hnew
      subst hnew
      refine absurd ?_ ((keepsLocks_written (List.all_eq_true.mp hkept entry hentry) hc hwrite).2 rfl)
      rw [attemptsIn, hold]
      rfl

/-- The condition on claims, from the check of each entry against the tables that it was committed to. -/
theorem claimsDue_of_checks (h : log.all claimsDue = true) : ClaimsDue log := by
  intro entry hentry t b d e ev ev' hc hclaims
  have hcheck := List.all_eq_true.mp h entry hentry
  rw [claimsDue, hc, Option.all_some] at hcheck
  have hrow := List.all_eq_true.mp hcheck (e, ev) (mem_rowsOf_eventRow.mpr hclaims.found)
  rw [hclaims.taken, Option.all_some, Option.all_some, hclaims.status] at hrow
  simpa using hrow

/-- A match with its event is there; the first POST of the event fails, and after the backoff another
dispatcher delivers it. -/
def retriedScript : List (System.Move Reply Exn Actor) :=
  runs 0 (.migrate sampleSettings) ++ runs 1 (sampleRequest none "p1") ++
    runs 2 (sampleRequest none "p2") ++ runs 3 (.runLoop sampleSettings "w" 0) ++
    [.act (.start (.runOnce sampleSettings "a")), .advance timeoutReply 4 100,
      .act (.tick 2000000)] ++ runs 5 (.runOnce sampleSettings "b")

/-- The state after the retry, with two POSTs of the event. -/
def retriedState : ServiceState := (service sampleRuntime).after retriedScript (emptyState 0)

/-- In this run, all conditions of the protocol hold, and the event is POSTed a second time. -/
theorem retry_protocol_retried : RetryProtocol sampleSettings 62 retriedState.world ∧
    (attemptsOf 62 retriedState.world.log).length = 2 :=
  ⟨retry_protocol (System.reachable_after retriedScript _) (by decide)
    (by unfold RetriesAlike; decide +kernel)
    (locksKept_of_checks (by decide +kernel) (by decide +kernel))
    (claimsDue_of_checks (by decide +kernel)) 62, by decide +kernel⟩

/-- `a` takes its snapshot; `b` claims the event, POSTs it, and records that it is delivered; then `a`
claims the event and POSTs it again. -/
def repostedScript : List (System.Move Reply Exn Actor) :=
  runs 0 (.migrate sampleSettings) ++ runs 1 (sampleRequest none "p1") ++
    runs 2 (sampleRequest none "p2") ++ runs 3 (.runLoop sampleSettings "w" 0) ++
    [.act (.start (.runOnce sampleSettings "a")), .advance sampleReply 4 3] ++
    runs 5 (.runOnce sampleSettings "b") ++ [.advance sampleReply 4 7]

/-- The state after the second POST of a delivered event. -/
def repostedState : ServiceState := (service sampleRuntime).after repostedScript (emptyState 0)

/-- The newest entry is a POST of the event, which is final by then. -/
def postsFinal (M : ℕ) (e : UUID) : List LogEntry → Bool
  | [] => false
  | post :: older => isAttempt e post && statusAfter M (attemptsOf e older) ≠ .pending

/-- A POST of an event whose POSTs have already made it final is against the protocol. -/
theorem not_retryProtocol
    (h : w.log.tails.any (postsFinal settings.callbackMaxAttempts e) = true) :
    ¬ RetryProtocol settings e w := by
  intro hretries
  obtain ⟨tail, htail, hpost⟩ := List.any_eq_true.mp h
  obtain ⟨newer, hlog⟩ := (List.mem_tails _ _).mp htail
  cases tail with
  | nil => cases hpost
  | cons post older =>
    simp only [postsFinal, Bool.and_eq_true, decide_eq_true_eq] at hpost
    exact hpost.2 (hretries.posted newer post older hlog.symm hpost.1).1

/-- An event that is delivered is POSTed once more, although all outcomes are recorded in time. -/
theorem delivered_reposted : (service sampleRuntime).Reachable (emptyState 0) repostedState ∧
    1 ≤ sampleSettings.callbackMaxAttempts ∧ RetriesAlike sampleSettings repostedState.world.log ∧
    LocksKept repostedState.world ∧ ¬ RetryProtocol sampleSettings 62 repostedState.world :=
  ⟨System.reachable_after repostedScript _, by decide, by unfold RetriesAlike; decide +kernel,
    locksKept_of_checks (by decide +kernel) (by decide +kernel), not_retryProtocol (by decide +kernel)⟩

end Matchmaking
