import Matchmaking.CallbackOutcomes
import Matchmaking.Dispatcher.Posts
import Mathlib.Algebra.BigOperators.Group.List.Basic
import Mathlib.Algebra.Group.Int.Defs
import Mathlib.Algebra.Order.BigOperators.Group.List
import Mathlib.Algebra.Order.Group.Int
import Mathlib.Algebra.Ring.Int.Defs
import Mathlib.Data.List.Infix

/-!
# Locks of events and the time of their POSTs

A claim locks its whole batch for the timeout of one request, and the events are then delivered one
after the other. The locks cover all POSTs where the timeout leaves room for the requests of the whole
batch; requests that take the timeout together leave none of the later events locked.
-/

namespace Matchmaking

open ReadCommitted

variable {rt : Runtime} {log : List LogEntry} {e : UUID} {d : String} {t : Txn Row}
  {row' : CallbackEventRow} {post claim : LogEntry} {between : List LogEntry}

/-! ## Deliveries in the log -/

/-- The entry is a POST. -/
def isPost (entry : LogEntry) : Bool :=
  match entry.event with
  | .call (.post ..) _ => true
  | _ => false

/-- A session commits the claim `claim` of the event `e` with the transaction `t`, which leaves the row
`row'`, and POSTs the event by `post`; the entries `between` lie between the two. -/
structure Delivers (log : List LogEntry) (e : UUID) (d : String) (t : Txn Row)
    (row' : CallbackEventRow) (post : LogEntry) (between : List LogEntry) (claim : LogEntry) : Prop where
  order : ∃ newer older, log = newer ++ post :: (between ++ claim :: older)
  session : claim.session = post.session
  posts : posts e post = true
  claims : ∃ b row, claim.event.commit? = some (t, b) ∧ Claims claim.actor t b d e row row'

/-- The entry commits `t`, which takes the event `e` for another dispatcher than `d`. -/
def TakenByOther (d : String) (e : UUID) (entry : LogEntry) (t : Txn Row) : Prop :=
  ∃ b d' row row', entry.event.commit? = some (t, b) ∧ Claims entry.actor t b d' e row row' ∧
    row' ≠ row ∧ d' ≠ d

/-- When a dispatcher POSTs an event, the lock of its claim has not expired, and no other dispatcher
has taken the event since. -/
def LocksCover (log : List LogEntry) : Prop :=
  ∀ e d t row' post between claim, Delivers log e d t row' post between claim →
    (row'.lockedUntil.any fun u => post.time < u) = true ∧
      ∀ entry ∈ between, ∀ t', ¬ TakenByOther d e entry t'

/-! ## Durations -/

/-- How long the entries lasted, newest first: each until the next one, the newest until `now`. -/
def durations (now : Time) : List LogEntry → List (LogEntry × Time)
  | [] => []
  | entry :: older => (entry, now - entry.time) :: durations entry.time older

/-- The steps that a session has logged from its claim on. -/
def stepsSince (claim : LogEntry) (between : List LogEntry) : List LogEntry :=
  between.filter (fun entry => entry.session = claim.session) ++ [claim]

/-- The time that the session's requests have taken since its claim. -/
def latencies (now : Time) (steps : List LogEntry) : Time :=
  (((durations now steps).filter fun step => isPost step.1).map Prod.snd).sum

/-- The time that everything else has taken since: recording outcomes, and waiting for that. -/
def overheads (now : Time) (steps : List LogEntry) : Time :=
  (((durations now steps).filter fun step => !isPost step.1).map Prod.snd).sum

/-- The events that the entry's commit puts in progress. -/
def claimedIds (entry : LogEntry) : List UUID :=
  entry.event.commit?.elim [] fun c => ((rowsOf eventRow c.2).filter fun r =>
    (c.1.writes.dlookup (Key.callbackEvents r.1)).any fun o =>
      o.any fun (row : CallbackEventRow) => row.status = .inProgress).map Prod.fst

/-- Up to the POST `post` no request of the batch has taken longer than `latency`, and everything else no
longer than `other`, the claim's transaction `t` included. -/
structure WithinBounds (latency other : Time) (t : Txn Row) (claim : LogEntry) (between : List LogEntry)
    (post : LogEntry) : Prop where
  requests : ∀ step ∈ durations post.time (stepsSince claim between), isPost step.1 = true → step.2 ≤ latency
  rest : claim.time - t.start + overheads post.time (stepsSince claim between) ≤ other

/-- The timeout leaves room for the requests of all events of the batch but the one that is POSTed, and for
everything else. -/
def BatchesInTime (log : List LogEntry) : Prop :=
  ∀ e d t row' post between claim, Delivers log e d t row' post between claim →
    ∃ latency other : Time, 0 ≤ latency ∧ WithinBounds latency other t claim between post ∧
      ∀ settings, claim.actor = .runOnce settings d →
        ((claimedIds claim).length - 1 : ℕ) * latency + other < seconds settings.callbackTimeoutSeconds

/-- Between the claim of an event and its POST no other session records an outcome of the event. -/
def NoneInterferes (log : List LogEntry) : Prop :=
  ∀ e d t row' post between claim, Delivers log e d t row' post between claim →
    ∀ entry ∈ between, IsOutcomeOf e entry → entry.session = claim.session

/-- The durations since the claim add up to the time that has passed. -/
theorem sum_durations (now : Time) (steps : List LogEntry) (claim : LogEntry) :
    ((durations now (steps ++ [claim])).map Prod.snd).sum = now - claim.time := by
  induction steps generalizing now with
  | nil => simp [durations]
  | cons entry steps ih =>
    simp only [durations, List.cons_append, List.map_cons, List.sum_cons]
    rw [ih]
    exact sub_add_sub_cancel ..

/-- Requests and everything else make up the whole time. -/
theorem latencies_add_overheads (now : Time) (claim : LogEntry) (between : List LogEntry) :
    latencies now (stepsSince claim between) + overheads now (stepsSince claim between)
      = now - claim.time := by
  rw [← sum_durations now (between.filter fun entry => entry.session = claim.session) claim,
    latencies, overheads, ← List.sum_append, ← List.map_append]
  exact ((List.filter_append_perm _ _).map Prod.snd).sum_eq

/-! ## The lock and the time -/

namespace Delivers

variable (h : Delivers log e d t row' post between claim)

include h

/-- The lock that the claim has taken. -/
theorem lockedUntil {settings : Settings} (hactor : claim.actor = .runOnce settings d) :
    row'.status = .inProgress ∧
      row'.lockedUntil = some (t.start + seconds settings.callbackTimeoutSeconds) := by
  obtain ⟨b, row, -, hclaims⟩ := h.claims
  obtain ⟨settings', hactor', rfl⟩ := hclaims.dispatcher
  obtain rfl : settings = settings' := by
    rw [hactor] at hactor'
    cases hactor'
    rfl
  exact ⟨rfl, rfl⟩

theorem actor : ∃ settings, claim.actor = .runOnce settings d := by
  obtain ⟨b, row, -, hclaims⟩ := h.claims
  exact hclaims.dispatcher.imp fun _ h => h.1

/-- What lies between was logged before the POST. -/
theorem time_le {w : ServiceWorld} (hpast : Past rt w) (hlog : log = w.log) {entry : LogEntry}
    (hentry : entry ∈ between) : entry ∈ w.log ∧ entry.time ≤ post.time := by
  obtain ⟨newer, older, horder⟩ := h.order
  rw [hlog] at horder
  have hordered := horder ▸ hpast.history.ordered
  refine ⟨horder ▸ ?_, ?_⟩
  · exact List.mem_append_right _ (List.mem_cons_of_mem _ (List.mem_append_left _ hentry))
  · exact (List.pairwise_cons.mp (List.pairwise_append.mp hordered).2.1).1 entry
      (List.mem_append_left _ hentry)

/-- The lock holds at the POST exactly if the durations add up to less than the timeout. -/
theorem locked_iff {settings : Settings} (hactor : claim.actor = .runOnce settings d) :
    (row'.lockedUntil.any fun u => post.time < u) = true ↔
      claim.time - t.start + latencies post.time (stepsSince claim between)
        + overheads post.time (stepsSince claim between)
          < seconds settings.callbackTimeoutSeconds := by
  have hsum := latencies_add_overheads post.time claim between
  have harith : ∀ a b c p s m : ℤ, a + b = p - c → (p < s + m ↔ c - s + a + b < m) := by omega
  rw [(h.lockedUntil hactor).2, Option.any_some, decide_eq_true_eq]
  exact harith _ _ _ _ _ _ hsum

end Delivers

/-- A POST of an event is a POST. -/
theorem isPost_of_posts {entry : LogEntry} (h : posts e entry = true) : isPost entry = true := by
  unfold posts at h
  split at h
  · next hevent => rw [isPost, hevent]
  · cases h

/-- A POST that is due is one of a claimed event. -/
theorem PostDue.of_isPost {older : List LogEntry} (h : PostDue rt post older) {settings : Settings}
    (hactor : post.actor = .runOnce settings d) (hcall : isPost post = true) :
    ∃ event, (∀ e, posts e post = true ↔ e = event.eventId) ∧
      (∃ claim ∈ older, ClaimsEvent settings d post.session event claim) ∧
      ∀ x ∈ older, x.session = post.session → posts event.eventId x = false := by
  unfold isPost at hcall
  split at hcall
  case h_2 => cases hcall
  case h_1 url body headers timeout reply hevent =>
  obtain ⟨event, timestamp, hcall, hclaim, hfirst⟩ :=
    h settings d hactor url body headers timeout reply hevent
  cases hcall
  exact ⟨event, fun _ => posts_postOf hevent, hclaim, hfirst⟩

/-- Every POST of a dispatcher is a delivery. -/
theorem exists_delivers (hdue : Justified (PostDue rt) log) {settings : Settings}
    (hpost : post ∈ log) (hactor : post.actor = .runOnce settings d) (hcall : isPost post = true) :
    ∃ e t row' between claim, Delivers log e d t row' post between claim := by
  obtain ⟨newer, older, hlog⟩ := List.append_of_mem hpost
  obtain ⟨event, hposts, ⟨claim, hclaim, hclaims⟩, -⟩ :=
    (hdue newer post older hlog).of_isPost hactor hcall
  obtain ⟨between, oldest, rfl⟩ := List.append_of_mem hclaim
  obtain ⟨hsession, hdispatcher, t, b, row, secret, hc, hfound, htaken, -⟩ := hclaims
  exact ⟨event.eventId, t, _, between, claim, ⟨newer, oldest, hlog⟩, hsession, (hposts _).mpr rfl, b, row, hc,
    ⟨settings, hdispatcher, rfl⟩, hfound, htaken⟩

/-! ## Slow batches -/

/-- No step takes a negative time, since the log is in the order of the clock. -/
theorem durations_nonneg {now : Time} {steps : List LogEntry} (hnow : ∀ step ∈ steps, step.time ≤ now)
    (h : steps.Pairwise fun step older => older.time ≤ step.time) :
    ∀ step ∈ durations now steps, 0 ≤ step.2 := by
  induction steps generalizing now with
  | nil => exact fun step hstep => (List.not_mem_nil hstep).elim
  | cons entry steps ih =>
    obtain ⟨hentry, hsteps⟩ := List.pairwise_cons.mp h
    intro step hstep
    rcases List.mem_cons.mp hstep with rfl | hstep
    · exact Int.sub_nonneg_of_le (hnow entry List.mem_cons_self)
    · exact ih hentry hsteps step hstep

/-- Requests that take the timeout together leave none of the later events of the batch locked,
however fast everything else is. -/
theorem Delivers.not_locked {w : ServiceWorld} (h : Delivers w.log e d t row' post between claim)
    (hpast : Past rt w) {settings : Settings} (hactor : claim.actor = .runOnce settings d)
    (hslow : seconds settings.callbackTimeoutSeconds
      ≤ latencies post.time (stepsSince claim between)) :
    (row'.lockedUntil.any fun u => post.time < u) = false := by
  obtain ⟨newer, older, horder⟩ := h.order
  obtain ⟨b, row, hc, -⟩ := h.claims
  have hordered := (List.pairwise_append.mp (horder ▸ hpast.history.ordered)).2.1
  obtain ⟨hpost, hordered⟩ := List.pairwise_cons.mp hordered
  have hsub : (stepsSince claim between).Sublist (between ++ claim :: older) := by
    rw [List.append_cons between]
    exact (List.filter_sublist.append_right [claim]).trans (List.sublist_append_left _ older)
  have hover : 0 ≤ overheads post.time (stepsSince claim between) := by
    refine List.sum_nonneg fun x hx => ?_
    obtain ⟨step, hstep, rfl⟩ := List.mem_map.mp hx
    exact durations_nonneg (fun step hstep => hpost step (hsub.subset hstep)) (hordered.sublist hsub)
      step (List.mem_filter.mp hstep).1
  have hclaim : t.start ≤ claim.time := by
    refine hpast.history.opened claim ?_ t b hc
    rw [horder]
    simp
  rw [Bool.eq_false_iff, Ne, h.locked_iff hactor]
  have harith : ∀ c s a b m : ℤ, s ≤ c → 0 ≤ b → m ≤ a → ¬ c - s + a + b < m := by omega
  exact harith _ _ _ _ _ hclaim hover hslow

/-! ## The requests of a batch -/

/-- An event that a commit puts in progress is one that it claims. -/
theorem mem_claimedIds {b : Tables} {row : CallbackEventRow} (hc : claim.event.commit? = some (t, b))
    (hfound : b.lookup (.callbackEvents e) = some row)
    (htaken : t.writes.dlookup (.callbackEvents e) = some (some row')) (hst : row'.status = .inProgress) :
    e ∈ claimedIds claim := by
  rw [claimedIds, hc, Option.elim_some]
  refine List.mem_map.mpr ⟨(e, row), List.mem_filter.mpr ⟨mem_rowsOf_eventRow.mpr hfound, ?_⟩, rfl⟩
  rw [htaken]
  simpa using hst

/-- A session POSTs different events, all of which its claim has taken. -/
theorem exists_posted (hdue : Justified (PostDue rt) log) (hprotocol : Protocol rt log)
    {settings : Settings} (hclaim : claim ∈ log) (hisClaim : IsClaim claim)
    (hactor : ∀ x ∈ log, x.session = claim.session → x.actor = .runOnce settings d) {newer steps : List LogEntry}
    (hlog : log = newer ++ steps) :
    ∃ ids : List UUID, ids.length = ((steps.filter fun x => x.session = claim.session).filter isPost).length ∧
      ids.Nodup ∧ ∀ e ∈ ids, e ∈ claimedIds claim ∧
        ∃ x ∈ steps, x.session = claim.session ∧ posts e x = true := by
  induction steps generalizing newer with
  | nil => exact ⟨[], rfl, List.nodup_nil, fun _ he => (List.not_mem_nil he).elim⟩
  | cons x steps ih =>
    have holder : log = (newer ++ [x]) ++ steps := by simp [hlog]
    obtain ⟨ids, hlength, hnodup, hids⟩ := ih holder
    by_cases hx : x.session = claim.session ∧ isPost x = true
    -- a step that is no POST of the session adds no event
    case neg =>
      refine ⟨ids, ?_, hnodup, fun e he => ⟨(hids e he).1, ?_⟩⟩
      · rw [hlength]
        by_cases hsession : x.session = claim.session
        · have hcall : ¬ isPost x = true := fun h => hx ⟨hsession, h⟩
          rw [List.filter_cons_of_pos (by simpa using hsession), List.filter_cons_of_neg hcall]
        · rw [List.filter_cons_of_neg (by simpa using hsession)]
      · obtain ⟨y, hy, h⟩ := (hids e he).2
        exact ⟨y, List.mem_cons_of_mem _ hy, h⟩
    obtain ⟨hsession, hcall⟩ := hx
    have hmem : x ∈ log := hlog ▸ List.mem_append_right _ List.mem_cons_self
    obtain ⟨event, hposts, ⟨claim', hclaim', hclaims⟩, hfirst⟩ :=
      PostDue.of_isPost (hdue newer x steps hlog) (hactor x hmem hsession) hcall
    -- the event was taken by the session's only claim
    have hsame : claim' = claim := by
      refine hprotocol.claim_eq ?_ hclaim hclaims.isClaim hisClaim (hclaims.1.trans hsession)
      exact hlog ▸ List.mem_append_right _ (List.mem_cons_of_mem _ hclaim')
    subst hsame
    obtain ⟨-, -, t, b, row, secret, hc, hfound, htaken, -⟩ := hclaims
    refine ⟨event.eventId :: ids, ?_, List.nodup_cons.mpr ⟨fun hagain => ?_, hnodup⟩, ?_⟩
    · rw [List.filter_cons_of_pos (by simpa using hsession), List.filter_cons_of_pos hcall,
        List.length_cons, List.length_cons, hlength]
    · -- an event that was POSTed before is not POSTed again
      obtain ⟨-, y, hy, hown, hbefore⟩ := hids _ hagain
      cases hbefore.symm.trans (hfirst y hy (hown.trans hsession.symm))
    · intro e he
      rcases List.mem_cons.mp he with rfl | he
      · exact ⟨mem_claimedIds hc hfound htaken rfl, x, List.mem_cons_self, hsession, (hposts _).mpr rfl⟩
      · obtain ⟨y, hy, h⟩ := (hids e he).2
        exact ⟨(hids e he).1, y, List.mem_cons_of_mem _ hy, h⟩

/-- The steps are listed with their durations, none left out. -/
theorem durations_fst (now : Time) (steps : List LogEntry) : (durations now steps).map Prod.fst = steps := by
  induction steps generalizing now with
  | nil => rfl
  | cons entry steps ih => rw [durations, List.map_cons, ih]

/-- Requests that take no longer than `latency` each. -/
theorem latencies_le {now latency : Time} {steps : List LogEntry}
    (h : ∀ step ∈ durations now steps, isPost step.1 = true → step.2 ≤ latency) :
    latencies now steps ≤ (steps.filter isPost).length * latency := by
  have hcount : (((durations now steps).filter fun step => isPost step.1).map Prod.snd).length
      = (steps.filter isPost).length := by
    conv_rhs => rw [← durations_fst now steps, List.filter_map, List.length_map]
    rw [List.length_map]
    rfl
  rw [← hcount, ← nsmul_eq_mul]
  refine List.sum_le_card_nsmul _ _ fun x hx => ?_
  obtain ⟨step, hstep, rfl⟩ := List.mem_map.mp hx
  obtain ⟨hmem, hcall⟩ := List.mem_filter.mp hstep
  exact h step hmem hcall

section Runs

variable {clock : Time} {s : ServiceState} (hs : (service rt).Reachable (emptyState clock) s)
  (h : Delivers s.world.log e d t row' post between claim)

include hs h

/-- Before the POST of an event its session has made fewer requests than its claim has taken events. -/
theorem Delivers.requests_lt :
    ((stepsSince claim between).filter isPost).length + 1 ≤ (claimedIds claim).length := by
  obtain ⟨newer, older, horder⟩ := h.order
  obtain ⟨settings, hactor⟩ := h.actor
  obtain ⟨b, row, hc, hclaims⟩ := h.claims
  have hclaim : claim ∈ s.world.log := horder ▸ by simp
  have hisClaim : IsClaim claim := ⟨⟨settings, d, hactor⟩, t, b, e, row', hc, hclaims.taken, hclaims.status⟩
  obtain ⟨ids, hlength, hnodup, hids⟩ := exists_posted (posts_claimed (fun _ _ => rfl) hs)
    (protocol (fun _ _ => rfl) hs) hclaim hisClaim
    (fun x hx hsession => (System.Reachable.same_actor hs hx hclaim hsession).trans hactor) horder
  have hle : ids.length ≤ (claimedIds claim).length :=
    (hnodup.subperm fun e he => (hids e he).1).length_le
  refine Nat.le_trans ?_ (hlength ▸ hle)
  have hnoPost : isPost claim = false := by
    unfold isPost
    split
    · next hevent => rw [hevent] at hc; cases hc
    · rfl
  rw [List.filter_cons_of_pos (by simpa using h.session.symm), List.filter_cons_of_pos (isPost_of_posts h.posts),
    stepsSince, List.filter_append, List.filter_append, List.filter_append,
    List.filter_cons_of_neg (by simp [hnoPost])]
  simp

/-- The lock of an event covers its POST if the timeout leaves room for the batch. -/
theorem Delivers.locked {latency other : Time} (hnonneg : 0 ≤ latency)
    (hbounds : WithinBounds latency other t claim between post)
    (hroom : ∀ settings, claim.actor = .runOnce settings d →
      ((claimedIds claim).length - 1 : ℕ) * latency + other < seconds settings.callbackTimeoutSeconds) :
    (row'.lockedUntil.any fun u => post.time < u) = true := by
  obtain ⟨settings, hactor⟩ := h.actor
  have hcount : (((stepsSince claim between).filter isPost).length : ℤ) ≤ ((claimedIds claim).length - 1 : ℕ) :=
    Int.ofNat_le.mpr (Nat.le_sub_one_of_lt (h.requests_lt hs))
  have hrequests : latencies post.time (stepsSince claim between)
      ≤ ((claimedIds claim).length - 1 : ℕ) * latency :=
    Int.le_trans (latencies_le hbounds.requests) (Int.mul_le_mul_of_nonneg_right hcount hnonneg)
  have harith : ∀ c a b r o m : ℤ, a ≤ r → c + b ≤ o → r + o < m → c + a + b < m := by omega
  exact (h.locked_iff hactor).mpr (harith _ _ _ _ _ _ hrequests hbounds.rest (hroom settings hactor))

/-- Before its POST of an event a session records no outcome of it. -/
theorem Delivers.no_outcome (hfree : ∀ x ∈ between, IsOutcomeOf e x → x.session = claim.session) :
    ∀ x ∈ between, ¬ IsOutcomeOf e x := by
  intro x hx houtcome
  have hsession := hfree x hx houtcome
  obtain ⟨newer, older, horder⟩ := h.order
  obtain ⟨settings, hactor⟩ := h.actor
  obtain ⟨between', older', rfl⟩ := List.append_of_mem hx
  have hclaim : claim ∈ s.world.log := horder ▸ by simp
  have hxmem : x ∈ s.world.log := horder ▸ by simp
  have hpost : post ∈ s.world.log := horder ▸ by simp
  have hposts : Justified (PostDue rt) s.world.log := posts_claimed (fun _ _ => rfl) hs
  have hxactor : x.actor = .runOnce settings d := (System.Reachable.same_actor hs hxmem hclaim hsession).trans hactor
  obtain ⟨t', b', o, ev, hcommits⟩ := houtcome
  -- the session has POSTed the event before that
  have hwrite := dlookup_of_patch_ne (by
    rw [hcommits.left, hcommits.found]
    exact fun h => hcommits.changed (Option.some.inj h))
  obtain ⟨-, event, error, rfl, first, hfirst, hown, -, timestamp, reply, hevent, -⟩ :=
    (protocol (fun _ _ => rfl) hs).ends (newer ++ post :: between') x (older' ++ claim :: older) (by simp [horder])
      settings d hxactor t' b' hcommits.commit _ _ (hwrite.trans (congrArg some hcommits.left))
      (o.status_apply t'.start ev)
  -- and POSTs it once
  obtain ⟨event', hposted, -, honce⟩ := (hposts newer post _ horder).of_isPost
    ((System.Reachable.same_actor hs hpost hclaim h.session.symm).trans hactor) (isPost_of_posts h.posts)
  have hbefore := honce first (by simp [hfirst]) ((hown.trans hsession).trans h.session)
  rw [← (hposted _).mp h.posts, Bool.eq_false_iff, Ne, posts_postOf hevent] at hbefore
  exact hbefore rfl

end Runs

/-- **Locks and deliveries.** In every run each POST of a dispatcher is of an event that its session has
claimed. The locks cover all POSTs if the timeouts leave room for the batches, nobody changes an event
between the snapshot and the commit of a claim of it, and no other session records its outcome before the
POST. Requests that take the timeout together leave none of the later events of their batch locked. -/
theorem locks_cover {clock : Time} {s : ServiceState}
    (hs : (service rt).Reachable (emptyState clock) s) :
    (∀ post ∈ s.world.log, ∀ settings d, post.actor = .runOnce settings d → isPost post = true →
      ∃ e t row' between claim, Delivers s.world.log e d t row' post between claim) ∧
    (BatchesInTime s.world.log → ClaimsUndisturbed (fun _ => ChangesEvent) s.world.log →
      NoneInterferes s.world.log → LocksCover s.world.log) ∧
    ∀ e d t row' post between claim, Delivers s.world.log e d t row' post between claim →
      ∀ settings, claim.actor = .runOnce settings d →
        seconds settings.callbackTimeoutSeconds ≤ latencies post.time (stepsSince claim between) →
        (row'.lockedUntil.any fun u => post.time < u) = false := by
  have hpast := service_past hs
  refine ⟨fun post hpost settings d hactor hcall =>
    exists_delivers (posts_claimed (fun _ _ => rfl) hs) hpost hactor hcall, ?_, ?_⟩
  · intro htimes hundisturbed hfree e d t row' post between claim h
    obtain ⟨latency, other, hnonneg, hbounds, hroom⟩ := htimes e d t row' post between claim h
    have hlock := h.locked hs hnonneg hbounds hroom
    have hnone := h.no_outcome hs (hfree e d t row' post between claim h)
    refine ⟨hlock, ?_⟩
    rintro x hx t' ⟨b', d', row₁, row₂, hc', hclaims', hne, -⟩
    obtain ⟨newer, older, horder⟩ := h.order
    obtain ⟨b, row, hc, hclaims⟩ := h.claims
    obtain ⟨between', older', rfl⟩ := List.append_of_mem hx
    have hlog : s.world.log = (newer ++ post :: between') ++ x :: (older' ++ claim :: older) := by simp [horder]
    have hchained : Chained ∅ (older' ++ claim :: older) b' :=
      (Chained.cut (hlog ▸ hpast.history.chained) hc').1
    have hmem : older' ⊆ s.world.log := fun y hy => horder ▸ by simp [hy]
    -- until then the row is as the claim has left it
    have htime : ∀ y ∈ older', y.time ≤ post.time := fun y hy =>
      (h.time_le hpast rfl (List.mem_append_right _ (List.mem_cons_of_mem _ hy))).2
    have hkept := hundisturbed.row_kept hpast hmem htime (hchained.cut hc).2 hclaims.lookup_patch
      hclaims.status (fun y hy => hnone y (List.mem_append_right _ (List.mem_cons_of_mem _ hy))) (.inl hlock)
    obtain rfl := Option.some.inj (hclaims'.found.symm.trans hkept)
    have hxmem : x ∈ s.world.log := hlog ▸ by simp
    have hdue := hundisturbed.isDue hpast hxmem hc' hclaims' hne
    -- the lock has not expired yet, so the event is not due
    have hstart : t'.start ≤ post.time := Int.le_trans (hpast.history.opened x hxmem t' b' hc')
      (h.time_le hpast rfl hx).2
    cases hdue.symm.trans (CallbackEventRow.not_isDue
      (CallbackEventRow.isInFlight_of_locked hclaims.status hlock hstart))
  · exact fun e d t row' post between claim h settings hactor hslow => h.not_locked hpast hactor hslow

/-! ## A batch with a slow request -/

/-- The newest entry is a POST, after the lock of the session's claim has expired. -/
def uncovered : List LogEntry → Bool
  | [] => false
  | post :: older => older.any fun claim => claim.session = post.session &&
      claim.event.commit?.any fun (t, b) => (rowsOf eventRow b).any fun (e, row) =>
        posts e post && row.status = .pending &&
          (t.writes.dlookup (Key.callbackEvents e)).any fun o =>
            o.any fun (row' : CallbackEventRow) => row'.status = .inProgress &&
              !row'.lockedUntil.any fun u => post.time < u

/-- A POST after the expiry of its lock shows that the locks do not cover all POSTs. -/
theorem not_locksCover {w : ServiceWorld} (hpast : Past rt w) (h : w.log.tails.any uncovered = true) :
    ¬ LocksCover w.log := by
  intro hcover
  obtain ⟨tail, htail, hany⟩ := List.any_eq_true.mp h
  obtain ⟨newer, hlog⟩ := (List.mem_tails _ _).mp htail
  cases tail with
  | nil => cases hany
  | cons post rest =>
    obtain ⟨claim, hclaim, hany⟩ := List.any_eq_true.mp hany
    simp only [Bool.and_eq_true, decide_eq_true_eq] at hany
    obtain ⟨hsession, hany⟩ := hany
    obtain ⟨⟨t, b⟩, hc, hany⟩ := Option.any_eq_true _ _ |>.mp hany
    obtain ⟨⟨e, row⟩, hrow, hany⟩ := List.any_eq_true.mp hany
    simp only [Bool.and_eq_true, decide_eq_true_eq] at hany
    obtain ⟨⟨hposts, hpending⟩, hany⟩ := hany
    obtain ⟨o, hwrite, hany⟩ := Option.any_eq_true _ _ |>.mp hany
    obtain ⟨row', rfl, hany⟩ := Option.any_eq_true _ _ |>.mp hany
    obtain ⟨hst, hexpired⟩ := (Bool.and_eq_true _ _).mp hany
    have hst : row'.status = .inProgress := of_decide_eq_true hst
    rw [Bool.not_eq_true'] at hexpired
    rw [mem_rowsOf_eventRow] at hrow
    have hmem : claim ∈ w.log := hlog ▸ List.mem_append_right _ (List.mem_cons_of_mem _ hclaim)
    obtain ⟨between, older, rfl⟩ := List.append_of_mem hclaim
    obtain hsame | ⟨d, row₀, hclaims⟩ :=
      (hpast.legal hmem hc).inProgress (lookup_patch_of_mem hwrite b) hst
    · obtain rfl := Option.some.inj (hrow.symm.trans hsame)
      cases hpending.symm.trans hst
    · have hlocked := (hcover e d t row' post between claim
        ⟨⟨newer, older, hlog.symm⟩, hsession, hposts, b, row₀, hc, hclaims⟩).1
      cases hexpired.symm.trans hlocked

/-- Two matches are made and `a` claims both events. Its first POST takes as long as a request may
take; meanwhile `b` claims both events as well; then `a` POSTs the second one. -/
def slowScript : List (System.Move Reply Exn Actor) :=
  runs 0 (.migrate sampleSettings) ++ runs 1 (sampleRequest none "p1") ++
    runs 2 (sampleRequest none "p2") ++ runs 3 (sampleRequest none "p3") ++
    runs 4 (sampleRequest none "p4") ++
    [.act (.start (.runLoop sampleSettings "w" 0)), .advance sampleReply 5 200,
      .act (.start (.runOnce sampleSettings "a")), .advance sampleReply 6 11, .act (.tick 3000000),
      .act (.start (.runOnce sampleSettings "b")), .advance sampleReply 7 7,
      .advance sampleReply 6 100]

/-- The state after this run, whose second request is made late. -/
def slowState : ServiceState := (service sampleRuntime).after slowScript (emptyState 0)

/-- The run is made of steps of the service. -/
theorem slowState_reachable : (service sampleRuntime).Reachable (emptyState 0) slowState :=
  System.reachable_after slowScript _

/-- In it, a POST is made after the lock of its event has expired. -/
theorem slowState_uncovered : slowState.world.log.tails.any uncovered = true := by decide +kernel

/-- No request of session `i` has taken more than the timeout. -/
def Prompt (settings : Settings) (s : ServiceState) (i : ℕ) : Prop :=
  ∀ step ∈ durations s.world.clock (s.world.log.filter fun entry => entry.session = i),
    isPost step.1 = true → step.2 ≤ seconds settings.callbackTimeoutSeconds

/-- With requests that keep to the timeout an event is POSTed after its lock has expired. -/
theorem lock_expires : (service sampleRuntime).Reachable (emptyState 0) slowState ∧
    Prompt sampleSettings slowState 6 ∧ ¬ LocksCover slowState.world.log := by
  refine ⟨slowState_reachable, ?_,
    not_locksCover (service_past slowState_reachable) slowState_uncovered⟩
  unfold Prompt
  decide +kernel

/-! ## A batch in time -/

/-- `p` holds of each entry, given the entries logged after it, which `newer` begins. -/
def everyEntry (p : List LogEntry → LogEntry → Bool) : List LogEntry → List LogEntry → Bool
  | _, [] => true
  | newer, entry :: older => p newer entry && everyEntry p (newer ++ [entry]) older

/-- A check of every entry with those after it says so of each place in the log. -/
theorem everyEntry_append {p : List LogEntry → LogEntry → Bool} {newer between older : List LogEntry}
    {entry : LogEntry} (h : everyEntry p newer (between ++ entry :: older) = true) :
    p (newer ++ between) entry = true := by
  induction between generalizing newer with
  | nil =>
    rw [List.append_nil]
    exact ((Bool.and_eq_true _ _).mp h).1
  | cons x between ih =>
    rw [List.append_cons]
    exact ih ((Bool.and_eq_true _ _).mp h).2

/-- If `claim` is the claim behind the POST `post`, the batch is in time, and only its session has written
events since. -/
def inTimeSince (latency other : Time) (post : LogEntry) (between : List LogEntry) (claim : LogEntry) : Bool :=
  claim.session ≠ post.session || (claimedIds claim).isEmpty ||
    ((durations post.time (stepsSince claim between)).all fun step => !isPost step.1 || step.2 ≤ latency) &&
    (claim.event.commit?.all fun c =>
      claim.time - c.1.start + overheads post.time (stepsSince claim between) ≤ other) &&
    (match claim.actor with
      | .runOnce settings _ =>
        ((claimedIds claim).length - 1 : ℕ) * latency + other < seconds settings.callbackTimeoutSeconds
      | _ => true) &&
    between.all fun x => !writesEvents x || x.session = claim.session

/-- All batches of the log are in time. -/
def inTime (latency other : Time) (log : List LogEntry) : Bool :=
  log.tails.all fun tail => match tail with
    | [] => true
    | post :: older => !isPost post || everyEntry (inTimeSince latency other post) [] older

/-- The check looks at every POST of a claimed event. -/
theorem Delivers.inTimeSince {latency other : Time} (hcheck : inTime latency other log = true)
    (h : Delivers log e d t row' post between claim) :
    Matchmaking.inTimeSince latency other post between claim = true := by
  obtain ⟨newer, older, rfl⟩ := h.order
  have htail := List.all_eq_true.mp hcheck (post :: (between ++ claim :: older))
    ((List.mem_tails _ _).mpr (List.suffix_append _ _))
  simp only [isPost_of_posts h.posts, Bool.not_true, Bool.false_or] at htail
  exact everyEntry_append htail

/-- A log that passes the check, for some bounds, is one in which batches are in time and nobody
interferes. -/
theorem batchesInTime_of_check {latency other : Time} (hcheck : inTime latency other log = true)
    (hnonneg : 0 ≤ latency) : BatchesInTime log ∧ NoneInterferes log := by
  have hfine : ∀ e d t row' post between claim, Delivers log e d t row' post between claim →
      WithinBounds latency other t claim between post ∧ (∀ settings, claim.actor = .runOnce settings d →
        ((claimedIds claim).length - 1 : ℕ) * latency + other < seconds settings.callbackTimeoutSeconds) ∧
      ∀ x ∈ between, writesEvents x = true → x.session = claim.session := by
    intro e d t row' post between claim h
    have hsince := h.inTimeSince hcheck
    obtain ⟨b, row, hc, hclaims⟩ := h.claims
    have hids : (claimedIds claim).isEmpty = false := by
      rw [List.isEmpty_eq_false_iff_exists_mem]
      exact ⟨e, mem_claimedIds hc hclaims.found hclaims.taken hclaims.status⟩
    rw [Matchmaking.inTimeSince, hids, hc, h.session] at hsince
    simp only [ne_eq, not_true_eq_false, decide_false, Bool.false_or, Bool.or_false, Bool.and_eq_true, List.all_eq_true,
      Option.all_some, decide_eq_true_eq] at hsince
    obtain ⟨⟨⟨hrequests, hrest⟩, hroom⟩, hwrites⟩ := hsince
    refine ⟨⟨fun step hstep hcall => ?_, hrest⟩, fun settings hactor => ?_, fun x hx hwrite => ?_⟩
    · simpa [hcall] using hrequests step hstep
    · rw [hactor] at hroom
      exact of_decide_eq_true hroom
    · simpa [hwrite, h.session] using hwrites x hx
  refine ⟨fun e d t row' post between claim h => ?_, fun e d t row' post between claim h x hx houtcome => ?_⟩
  · obtain ⟨hbounds, hroom, -⟩ := hfine e d t row' post between claim h
    exact ⟨latency, other, hnonneg, hbounds, hroom⟩
  · obtain ⟨t', b', o, ev, hcommits⟩ := houtcome
    exact (hfine e d t row' post between claim h).2.2 x hx (writesEvents_of_writes hcommits.writesEvent)

/-- As in the slow run, but the requests of `a` take a second each; meanwhile `b` finds nothing to claim. -/
def quickScript : List (System.Move Reply Exn Actor) :=
  runs 0 (.migrate sampleSettings) ++ runs 1 (sampleRequest none "p1") ++
    runs 2 (sampleRequest none "p2") ++ runs 3 (sampleRequest none "p3") ++
    runs 4 (sampleRequest none "p4") ++
    [.act (.start (.runLoop sampleSettings "w" 0)), .advance sampleReply 5 200,
      .act (.start (.runOnce sampleSettings "a")), .advance sampleReply 6 11, .act (.tick 1000000),
      .act (.start (.runOnce sampleSettings "b")), .advance sampleReply 7 100,
      .advance sampleReply 6 100]

/-- The state after the run in which each request takes a second. -/
def quickState : ServiceState := (service sampleRuntime).after quickScript (emptyState 0)

/-- The run is made of steps of the service. -/
theorem quickState_reachable : (service sampleRuntime).Reachable (emptyState 0) quickState :=
  System.reachable_after quickScript _

/-- With a second for each request the locks of both events cover their POSTs. -/
theorem locks_cover_quick : quickState.world.log.countP isPost = 2 ∧ LocksCover quickState.world.log := by
  have hcheck : inTime 1000000 0 quickState.world.log = true := by decide +kernel
  obtain ⟨htimes, hfree⟩ := batchesInTime_of_check hcheck (by decide)
  refine ⟨by decide +kernel, (locks_cover quickState_reachable).2.1 htimes ?_ hfree⟩
  exact claimsUndisturbed_of_apart quickState_reachable (by decide +kernel)
    fun _ _ _ h => writesEvents_of_writes h.writesEvent

end Matchmaking
