import Matchmaking.Dispatcher.Posts
import Matchmaking.Dispatcher.Protocol
import Matchmaking.JsonEncoding
import Matchmaking.Outbox

/-!
# What tenants receive

A POST says what the database says: it goes to the URL of a committed event, its body is the event's
payload, and its signature is one under the tenant's secret as the claim has read it. An event is recorded
as delivered only after the tenant has answered such a POST with success.
-/

namespace Matchmaking

open ReadCommitted ReadCommitted.Triple

variable {rt : Runtime} {i : ℕ} {l : Actor} {settings : Settings} {dispatcherId : String}
  {event : CallbackEvent} {w : ServiceWorld}

/-! ## Events and the claims of them -/

/-- The event has the columns of the row that are fixed. -/
structure OfRow (event : CallbackEvent) (ev : CallbackEventRow) : Prop where
  tenantId : event.tenantId = ev.tenantId
  callbackUrl : event.callbackUrl = ev.callbackUrl
  payload : event.payload = ev.payload

/-- A claimed event is still there, and what its row says of it. -/
theorem Past.claimed_row (h : Past rt w) {claim : LogEntry} (hclaim : claim ∈ w.log)
    (hc : ClaimsEvent settings dispatcherId i event claim) : ∃ ev : CallbackEventRow,
      w.committed.lookup (.callbackEvents event.eventId) = some ev ∧ OfRow event ev := by
  obtain ⟨-, -, t, b, row, secret, hcommit, hrow, -, hevent⟩ := hc
  have hpersist : Persist b w.committed := (h.legal hclaim hcommit).persist.trans (h.later hclaim hcommit)
  obtain ⟨ev, hev, hid⟩ := hpersist (.callbackEvents event.eventId) trivial row hrow
  simp only [Kept, CallbackEventRow.identity, Prod.mk.injEq] at hid
  refine ⟨ev, hev, ?_, ?_, ?_⟩
  · rw [hid.1, hevent]
    rfl
  · rw [hid.2.2.2.1, hevent]
    rfl
  · rw [hid.2.2.2.2.1, hevent]
    rfl

/-! ## Deliveries -/

/-- The entry is a POST of the event `e` that the tenant has answered with success; the event's row is
`ev`. -/
def Acknowledges (e : UUID) (ev : CallbackEventRow) (entry : LogEntry) : Prop :=
  ∃ headers timeout statusCode,
    entry.event = .call (.post ev.callbackUrl ev.payload.dumps headers timeout) (.ok (.response statusCode)) ∧
      200 ≤ statusCode ∧ statusCode < 300 ∧ ("X-PMS-Event-Id", uuidText e) ∈ headers

/-- `deliver_event` takes exactly the statuses from 200 to 299 for success. -/
theorem HttpResult.error?_eq_none {reply : HttpResult} (h : reply.error? = none) :
    ∃ statusCode, reply = .response statusCode ∧ 200 ≤ statusCode ∧ statusCode < 300 := by
  cases reply with
  | response statusCode =>
    rw [error?] at h
    split at h
    · next hok => exact ⟨statusCode, rfl, hok⟩
    · cases h
  | httpError msg => cases h

/-- A POST without an error is an acknowledged one, to the URL that the row of the event has. -/
theorem PostsEvent.acknowledges {entry : LogEntry} (h : PostsEvent rt settings i l event none entry)
    {ev : CallbackEventRow} (hev : OfRow event ev) : Acknowledges event.eventId ev entry := by
  obtain ⟨-, -, timestamp, reply, hcall, herror⟩ := h
  obtain ⟨statusCode, rfl, hlow, hhigh⟩ := HttpResult.error?_eq_none herror.symm
  refine ⟨headersAt rt event (encodePayload event.payload) timestamp, settings.callbackTimeoutSeconds,
    statusCode, ?_, hlow, hhigh, ?_⟩
  · rw [← hev.callbackUrl, ← hev.payload]
    exact hcall
  · simp [headersAt]

/-- An outcome that leaves an event delivered is its delivery. -/
theorem Outcome.of_delivered {o : Outcome} {now : Time} {ev : CallbackEventRow}
    (h : (o.apply now ev).status = .delivered) : o = .delivered := by
  cases o <;> first | rfl | cases h

/-- An event with success on record has been POSTed with success. -/
def DeliveredAcknowledged (log : List LogEntry) (s : Tables) : Prop :=
  ∀ e (ev : CallbackEventRow), s.lookup (.callbackEvents e) = some ev → ev.status = .delivered →
    ∃ post ∈ log, Acknowledges e ev post

/-- The session that has made the POST with success has claimed the event. -/
def PostedByClaimer (rt : Runtime) (log : List LogEntry) (e : UUID) : Prop :=
  ∃ settings d event, event.eventId = e ∧ ∃ claim ∈ log, ∃ post ∈ log,
    ClaimsEvent settings d post.session event claim ∧
      PostsEvent rt settings post.session (.runOnce settings d) event none post

/-- A commit that makes an event delivered has its POST behind it. -/
theorem Protocol.posted (h : Protocol rt w.log) {newer older : List LogEntry} {entry : LogEntry}
    (hlog : w.log = newer ++ entry :: older) (hactor : entry.actor = .runOnce settings dispatcherId)
    {t : Txn Row} {b : Tables} (hc : entry.event.commit? = some (t, b)) {e : UUID} {ev ev' : CallbackEventRow}
    (hcounts : Counts t b e ev ev') (hst : ev'.status = .delivered) : PostedByClaimer rt w.log e := by
  obtain ⟨o, rfl, event, error, rfl, ⟨claim, hclaim, hclaims⟩, ⟨post, hpost, hposts⟩, hof, -⟩ :=
    h.due newer entry older hlog settings dispatcherId hactor t b hc e ev _ hcounts
  obtain rfl : o = .delivered := Outcome.of_delivered hst
  have holder : older ⊆ w.log := fun _ he => hlog ▸ List.mem_append_right _ (List.mem_cons_of_mem _ he)
  cases error with
  | none =>
    rw [← hposts.1] at hclaims hposts
    exact ⟨settings, dispatcherId, event, rfl, claim, holder hclaim, post, holder hpost, hclaims, hposts⟩
  | some error =>
    -- what failed is not recorded as delivered
    have hof : FailedAttempt settings event (trim error) .delivered := hof
    unfold FailedAttempt at hof
    split at hof
    · cases hof
    · obtain ⟨_, hretry⟩ := hof
      cases hretry

/-- An event is delivered only by an outcome that is due, and so after such a POST. -/
theorem Protocol.acknowledged (h : Protocol rt w.log) (hpast : Past rt w) :
    DeliveredAcknowledged w.log w.committed := by
  have hposted : ∀ e (ev : CallbackEventRow), w.committed.lookup (.callbackEvents e) = some ev →
      ev.status = .delivered → PostedByClaimer rt w.log e := by
    refine hpast.history.chained.invariant (I := fun s => ∀ e (ev : CallbackEventRow),
      s.lookup (.callbackEvents e) = some ev → ev.status = .delivered → PostedByClaimer rt w.log e)
      (fun _ _ h => by cases h) fun entry hentry t b hc hb e ev' hev' hst => ?_
    have hstep := (hpast.legal hentry hc).eventStep e
    rw [hev'] at hstep
    generalize hold : b.lookup (.callbackEvents e) = v at hstep
    cases hstep with
    | same => exact hb e ev' hold hst
    | made n => cases hst
    | claimed => cases hst
    | outcome hactor o ev =>
      obtain rfl := Outcome.of_delivered hst
      obtain ⟨newer, older, hlog⟩ := List.append_of_mem hentry
      exact h.posted hlog hactor hc ⟨hold, hev', Nat.succ_ne_self ev.attempts⟩ hst
  intro e ev hev hst
  obtain ⟨settings, d, event, rfl, claim, hclaim, post, hpost, hclaims, hposts⟩ := hposted e ev hev hst
  obtain ⟨ev', hev', hof⟩ := hpast.claimed_row hclaim hclaims
  obtain rfl := Option.some.inj (hev.symm.trans hev')
  exact ⟨post, hpost, hposts.acknowledges hof⟩

/-- **Delivered means acknowledged.** In every reachable state, for every event that is recorded as
delivered, its URL has answered a POST of its payload with a status from 200 to 299. -/
theorem delivered_acknowledged {clock : Time} {s : ServiceState}
    (hs : (service rt).Reachable (emptyState clock) s) :
    DeliveredAcknowledged s.world.log s.world.committed :=
  (protocol (fun _ _ => rfl) hs).acknowledged (service_past hs)

/-- The sample run delivers its event. -/
theorem delivered_acknowledged_sample :
    ((sampleState.world.committed.lookup (.callbackEvents 0x40)).any fun (ev : CallbackEventRow) =>
      ev.status = .delivered) = true ∧
    DeliveredAcknowledged sampleState.world.log sampleState.world.committed :=
  ⟨by decide +kernel, delivered_acknowledged sampleState_reachable⟩

/-! ## Claims and secrets -/

/-- The tenant's secret. -/
def secretIn (σ : Tables) (tenantId : String) : Option String :=
  (σ.lookup (.tenants tenantId)).bind fun (tenant : Tenant) => tenant.callbackSecret

/-- The claim of the event has read the secret that the event carries. -/
def ClaimsSigned (settings : Settings) (dispatcherId : String) (i : ℕ) (event : CallbackEvent)
    (claim : LogEntry) : Prop :=
  ClaimsEvent settings dispatcherId i event claim ∧ ∃ t b σ, claim.event.commit? = some (t, b) ∧
    t.reads = [σ] ∧ event.callbackSecret = secretIn σ event.tenantId

/-- The transaction has read one snapshot, with these secrets. -/
def SecretsRead (secret : String → Option String) : Condition := fun _ T =>
  ∃ t σ, T = some t ∧ t.reads = [σ] ∧ secret = secretIn σ

/-- The events carry these secrets. -/
def Carry (secret : String → Option String) (events : List CallbackEvent) : Prop :=
  ∀ event ∈ events, event.callbackSecret = secret event.tenantId

/-- Each event of the batch carries the secret that the claim's query has read for its tenant. -/
theorem claimRows_secrets {secret : String → Option String} (ids : List UUID) :
    Triple (commitSpec rt) i l (SecretsRead secret) (claimRows settings dispatcherId secret ids)
      (fun events w T => Carry secret events ∧ SecretsRead secret w T) anything := by
  induction ids with
  | nil => exact .pure _ fun _ _ h => ⟨fun _ he => (List.not_mem_nil he).elim, h⟩
  | cons id ids ih =>
    have hrow : ∀ f, Triple (commitSpec rt) i l (SecretsRead secret)
        (perform (.row (.callbackEvents id) true f)) (fun _ => SecretsRead secret) anything := by
      intro f
      refine row (.own _) ?_ ?_ fun _ _ _ _ _ => trivial
      · rintro - w _ - ⟨t, σ, rfl, h⟩
        exact ⟨t, σ, rfl, h⟩
      · rintro w _ - ⟨t, σ, rfl, h⟩ -
        simp only [World.txn, Option.getD_some]
        cases f t.start ((t.view w.committed).lookup (.callbackEvents id)) with
        | leave => exact ⟨t, σ, rfl, h⟩
        | raise e => trivial
        | _ => exact ⟨_, σ, rfl, h⟩
    refine .bind (hrow _) fun r => .bind ih fun rest => .pure _ fun w T h => ⟨?_, h.2⟩
    cases r with
    | none => exact h.1
    | some e =>
      intro event hevent
      rcases List.mem_cons.mp hevent with rfl | hevent
      · rfl
      · exact h.1 event hevent

/-- The claim as a whole has one query for the secrets, whose answer all events carry. -/
theorem claimCallbackEvents_secrets : Triple (commitSpec rt) i l Idle
    (claimCallbackEvents dispatcherId settings)
    (fun events w T => ∃ secret, Carry secret events ∧ SecretsRead secret w T) anything := by
  refine .bind (Triple.ask_ok commitSpec_logs Idle.stable Idle.unlogged) fun tie => ?_
  have hselect : Triple (commitSpec rt) i l Idle (perform (.select (claimSnapshot settings tie)))
      (fun snapshot => SecretsRead snapshot.2) anything :=
    select Idle.stable (fun w T _ h _ => by
      rw [h]
      exact ⟨_, w.committed, rfl, rfl, rfl⟩) fun _ _ _ _ _ => trivial
  refine .bind hselect fun snapshot => .bind (claimRows_secrets _) fun events => .pure_pre fun hcarry => ?_
  refine .bind (Triple.ask_ok commitSpec_logs (.own _) fun _ _ _ _ _ h => h) fun order => .pure _ ?_
  exact fun w T h => ⟨snapshot.2, fun event he => hcarry event (mem_orderBy.mp he), h⟩

/-- Session `i` has claimed the events, with their secrets. -/
abbrev AllSigned (settings : Settings) (dispatcherId : String) (i : ℕ) (events : List CallbackEvent)
    (w : ServiceWorld) : Prop :=
  ∀ event ∈ events, ∃ claim ∈ w.log, ClaimsSigned settings dispatcherId i event claim

/-- That the secrets were read by the claim is in the log for good. -/
theorem allSigned_lasting (events : List CallbackEvent) :
    (commitSpec rt).Lasting i l (AllSigned settings dispatcherId i events) :=
  ⟨fun _ _ h _ hc event he => h.logged (hc event he), fun _ _ h _ hc event he => h.logged (hc event he)⟩

/-- With the COMMIT, claim and secrets are known together. -/
theorem commit_signed {events : List CallbackEvent} : Triple (commitSpec rt) i (.runOnce settings dispatcherId)
    (fun w T => ClaimReady settings dispatcherId events w T ∧
      ∃ secret, Carry secret events ∧ SecretsRead secret w T)
    (perform .commit) (fun _ w T => Idle w T ∧ AllSigned settings dispatcherId i events w) fun _ => Idle := by
  refine stage_commit_then (ClaimReady.stable.and (.own fun T => ∃ secret, Carry secret events ∧
    ∃ t σ, T = some t ∧ t.reads = [σ] ∧ secret = secretIn σ)) (fun _ _ _ h => h) (commitSpec_commits ?_) ?_
  · rintro w _ - ⟨⟨⟨ids, t, tie, σ, ⟨⟩, -, hreads, -, hfollows⟩, -⟩, -⟩
    exact .claim tie σ hreads (claimWrites_view hfollows)
  · rintro w T - ⟨⟨⟨ids, t, tie, σ, rfl, hlive, -⟩, secret, rows, hreturned, htaken⟩, secret', hcarry,
      t', σ', ht', hreads, rfl⟩
    obtain rfl := Option.some.inj ht'
    intro event hevent
    obtain ⟨r, hr, rfl⟩ := hreturned event hevent
    obtain ⟨_, row, ⟨⟩, hrow, he, hwrite⟩ := htaken r hr
    simp only [Option.elim_some, World.commit, hlive, Bool.false_eq_true, if_false]
    refine ⟨_, List.mem_cons_self, ⟨rfl, rfl, t, w.committed, row, secret r.2.tenantId, rfl, hrow, he ▸ hwrite,
      he ▸ rfl⟩, t, w.committed, σ', rfl, hreads, hcarry _ hevent⟩

/-- Claiming a batch, with the secrets. -/
theorem claimBatch_signed : Triple (commitSpec rt) i (.runOnce settings dispatcherId) Idle
    (claimBatch settings dispatcherId)
    (fun events w _ => AllSigned settings dispatcherId i events w) anything := by
  have hclaim : Triple (commitSpec rt) i (.runOnce settings dispatcherId) (fun w T => Idle w T ∧ True)
      (do
        let events ← claimCallbackEvents dispatcherId settings
        perform .commit
        pure events) (fun events w T => Idle w T ∧ AllSigned settings dispatcherId i events w) anything := by
    refine .bind ((claimCallbackEvents_triple.and claimCallbackEvents_secrets).any.pre
      fun _ _ h => ⟨h.1, h.1⟩) fun events => ?_
    exact .bind commit_signed.any fun _ => .pure _ fun _ _ h => h
  have hcommit : ∀ events : List CallbackEvent, Triple (commitSpec rt) i (.runOnce settings dispatcherId)
      (fun w T => Idle w T ∧ AllSigned settings dispatcherId i events w) (perform .commit)
      (fun _ w _ => AllSigned settings dispatcherId i events w) fun _ => Idle := fun events =>
    (frame (allSigned_lasting events) Triple.commit_idle).conseq (fun _ _ h => h) (fun _ _ _ h => h.2)
      fun _ _ _ h => h.1
  exact (Triple.withConnection commitSpec_logs .trivial hclaim hcommit).any.pre fun _ _ h => ⟨h, trivial⟩

/-! ## POSTs and signatures -/

/-- Each POST of a dispatcher is that of an event that its session has claimed with the secret. -/
def SignDue (rt : Runtime) (entry : LogEntry) (older : List LogEntry) : Prop :=
  ∀ settings dispatcherId, entry.actor = .runOnce settings dispatcherId →
    ∀ url body headers timeout reply, entry.event = .call (.post url body headers timeout) reply →
      ∃ event timestamp, postOf rt settings event timestamp = .post url body headers timeout ∧
        ∃ claim ∈ older, ClaimsSigned settings dispatcherId entry.session event claim

/-- Entries that are no POSTs need no signature. -/
theorem NoPost.signDue {entry : LogEntry} (h : NoPost entry) (older : List LogEntry) : SignDue rt entry older :=
  fun _ _ _ _ _ _ _ _ hpost => (h _ _ _ _ _ hpost).elim

/-- The specification that all POSTs are signed so. -/
def signSpec (rt : Runtime) : Spec Row Reply Exn Metric Answer Actor where
  inv w := Justified (SignDue rt) w.log
  known := Past rt
  rely _ _ := Grows
  guar _ _ := Grows
  post _ _ _ _ _ := True

/-- An entry keeps the rule if it is signed as it should be. -/
theorem signSpec_push (h : Justified (SignDue rt) w.log) {ev : Event Row Reply Exn Metric Answer}
    (hev : SignDue rt ⟨i, l, w.clock, ev⟩ w.log) :
    (signSpec rt).guar i l w (w.push i l ev) ∧ (signSpec rt).inv (w.push i l ev) :=
  ⟨.push .., h.cons hev⟩

/-- What each actor guarantees, the others rely on. -/
theorem signSpec_lawful {sys : System Row Reply Exn Metric Answer Actor}
    (hsymm : ∀ l l', sys.exclusive l l' = sys.exclusive l' l) : (signSpec rt).Lawful sys where
  exclusive_symm := hsymm
  rely_refl _ _ w := .refl w
  rely_trans _ _ _ _ _ h h' := h.trans h'
  guar_rely _ _ _ _ _ _ _ _ _ h := h
  post_stable _ _ _ _ _ _ _ _ h := h
  tick w _ _ h := ⟨h, fun _ _ => ⟨.refl _, List.suffix_refl _⟩⟩
  begun i l _ h := signSpec_push h fun _ _ _ _ _ _ _ _ hcall => by cases hcall
  answer i l _ _ _ h _ := signSpec_push h fun _ _ _ _ _ _ _ _ hcall => by cases hcall

/-- What the specification of the commits establishes can be used here. -/
theorem signSpec_env {T : Option (Txn Row)} {w w' : ServiceWorld} (h : (signSpec rt).env i l T w w') :
    (commitSpec rt).env i l T w w' where
  rely := h.rely
  facts := ⟨h.facts.2.story, h.facts.2.history⟩
  clock := h.clock
  kept := h.kept

/-- Other sessions do not take the secrets of a batch away. -/
theorem signSpec_signed (events : List CallbackEvent) :
    (signSpec rt).Lasting i l (AllSigned settings dispatcherId i events) :=
  ⟨fun _ _ h _ hc event he => h.logged (hc event he), fun _ _ h _ hc event he => h.logged (hc event he)⟩

/-- A commit is no POST. -/
theorem signSpec_commits : (signSpec rt).Commits i l fun _ _ => True := by
  intro w t hfacts _ hlive hknown _
  simp only [World.commit, hlive, Bool.false_eq_true, if_false] at hknown ⊢
  have hlegal : Legal rt l t w.committed := hknown.legal List.mem_cons_self rfl
  exact ⟨⟨hlegal.persist, List.suffix_cons _ _⟩,
    Justified.cons hfacts.1 (NoPost.signDue (noPost_of_commit rfl) _)⟩

/-- A part of a program without deliveries makes no POST. -/
theorem unsigned {α : Type} {x : Db α} (hx : x.Uses NoDelivery) :
    Triple (signSpec rt) i l (fun _ _ => True) x anything anything := by
  refine of_ops (P := fun _ _ => True) (fun _ _ _ _ _ => trivial)
    (fun {β o locked c w w' T T' r} ho hfacts hturn hexec hknown _ => ?_) hx
  obtain rfl | ⟨t, rfl, hlive, rfl, -⟩ | ⟨ev, hev, rfl⟩ := exec_world hexec
  · exact ⟨.inl rfl, trivial⟩
  · exact ⟨.inr (signSpec_commits w t hfacts (hturn.opened t rfl) hlive hknown trivial), trivial⟩
  · have hquiet : NoPost ⟨i, l, w.clock, ev⟩ := by
      intro url body headers timeout reply h
      -- the call that is logged is the operation itself
      obtain ⟨new, hlog, -, hlogged, -⟩ := exec_logged hexec
      obtain rfl : new = [⟨i, l, w.clock, ev⟩] := List.append_cancel_right hlog.symm
      obtain ⟨o', ho', hcall⟩ := List.mem_filterMap.mp
        ((hlogged _ _).mpr ⟨_, List.mem_cons_self, rfl, h⟩)
      obtain rfl := List.mem_singleton.mp ho'
      cases o <;> simp only [Exchange.call?, Option.some.injEq, Sigma.mk.injEq, reduceCtorEq] at hcall
      obtain ⟨rfl, -⟩ := hcall
      cases ho
    exact ⟨.inr (signSpec_push hfacts.1 (hquiet.signDue _)), trivial⟩

/-- An event that is claimed with its secret may be POSTed. -/
theorem deliverEvent_signed : Triple (signSpec rt) i (.runOnce settings dispatcherId)
    (fun w _ => AllSigned settings dispatcherId i [event] w) (deliverEvent rt event settings) anything anything := by
  have hlasting : (signSpec rt).Lasting i (.runOnce settings dispatcherId)
    (AllSigned settings dispatcherId i [event]) := signSpec_signed [event]
  have hclock : Triple (signSpec rt) i (.runOnce settings dispatcherId)
      (fun w _ => AllSigned settings dispatcherId i [event] w)
      (buildHeaders rt event (encodePayload event.payload)) (fun headers w _ =>
        (∃ timestamp, headers = headersAt rt event (encodePayload event.payload) timestamp) ∧
          AllSigned settings dispatcherId i [event] w) anything := by
    have hquiet : ∀ {w : ServiceWorld} {y : Except Exn Time},
        NoPost ⟨i, .runOnce settings dispatcherId, w.clock, .call .wallClock y⟩ :=
      fun _ _ _ _ _ h => by cases h
    refine .bind (Triple.call hlasting.stable
      (fun w T y hfacts _ => signSpec_push hfacts.1 (hquiet.signDue _)) ?_) fun now => .pure _
        fun _ _ h => ⟨⟨_, rfl⟩, h⟩
    rintro w T (e | y) - h
    · trivial
    · exact fun e he => (h e he).imp fun _ h => ⟨List.mem_cons_of_mem _ h.1, h.2⟩
  refine .bind hclock fun headers => .pure_pre ?_
  rintro ⟨timestamp, rfl⟩
  have hpost : Triple (signSpec rt) i (.runOnce settings dispatcherId)
      (fun w _ => AllSigned settings dispatcherId i [event] w) (ask (postOf rt settings event timestamp))
      anything anything := by
    refine Triple.call hlasting.stable (fun w T y hfacts h => signSpec_push hfacts.1 ?_) ?_
    · rintro _ _ ⟨⟩ url body headers timeout reply hcall
      refine ⟨event, timestamp, ?_, h event List.mem_cons_self⟩
      cases hcall
      rfl
    · rintro w T (e | y) - h <;> trivial
  refine .bind hpost ?_
  rintro (statusCode | msg)
  · exact .ite (fun _ => .pure _ fun _ _ _ => trivial) fun _ => .pure _ fun _ _ _ => trivial
  · exact .pure _ fun _ _ _ => trivial

/-- Each event of the batch is POSTed with the secret that it carries. -/
theorem deliverEvents_signed (events : List CallbackEvent) :
    Triple (signSpec rt) i (.runOnce settings dispatcherId)
      (fun w _ => AllSigned settings dispatcherId i events w) (deliverEvents rt settings events) anything
      anything := by
  induction events with
  | nil => exact .pure _ fun _ _ _ => trivial
  | cons event events ih =>
    have hrest : (signSpec rt).Lasting i (.runOnce settings dispatcherId)
        (AllSigned settings dispatcherId i events) := signSpec_signed events
    have hquiet : ∀ {α : Type} {x : Db α}, x.Uses NoDelivery → Triple (signSpec rt) i
        (.runOnce settings dispatcherId) (fun w _ => AllSigned settings dispatcherId i events w) x
        (fun _ w _ => AllSigned settings dispatcherId i events w) anything := fun hx =>
      ((keep hrest (unsigned hx)).pre fun _ _ h => ⟨trivial, h⟩).post fun _ _ _ h => h.2
    have hdeliver : Triple (signSpec rt) i (.runOnce settings dispatcherId)
        (fun w _ => AllSigned settings dispatcherId i (event :: events) w) (deliverEvent rt event settings)
        (fun _ w _ => AllSigned settings dispatcherId i events w) anything :=
      ((keep hrest deliverEvent_signed).pre fun w _ h => ⟨fun e he => h e (List.mem_cons.mpr
        (.inl (List.mem_singleton.mp he))), fun e he => h e (List.mem_cons_of_mem _ he)⟩).post
          fun _ _ _ h => h.2
    refine .bind hdeliver fun error => .bind (hquiet (Uses.attempt
      (persistDeliveryOutcome_noDelivery (error.map trim)))) ?_
    rintro (e | finalFailed)
    · exact ih
    · exact .bind (hquiet (.perform trivial)) fun _ => ih

/-- All POSTs of an iteration are signed with secrets that its own claim has read. -/
theorem runOnce_signed : Triple (signSpec rt) i (.runOnce settings dispatcherId) Idle
    (runOnce rt settings dispatcherId) anything anything := by
  have hclaim := (@claimBatch_signed rt i settings dispatcherId).transfer (fun _ _ _ => signSpec_env)
    (fun _ h => h.history) (unsigned claimBatch_noDelivery)
  refine .bind (hclaim.any.pre fun _ _ h => ⟨h, trivial⟩) fun events => ?_
  have hrecord : Triple (signSpec rt) i (.runOnce settings dispatcherId) (fun _ _ => True)
      (record (.recordClaimed events.length)) anything anything := unsigned (.perform trivial)
  exact .bind ((keep (signSpec_signed events) hrecord).pre fun _ _ h => ⟨trivial, h.1⟩) fun _ =>
    .bind ((deliverEvents_signed events).pre fun _ _ h => h.2) fun _ => .pure _ fun _ _ _ => trivial

/-- All POSTs of a run are signed for claimed events. -/
theorem posts_signed {clock : Time} {s : ServiceState}
    (hs : (service rt).Reachable (emptyState clock) s) : Justified (SignDue rt) s.world.log := by
  refine (Spec.sound (signSpec_lawful fun _ _ => rfl) (fun i l w _ _ => ?_) ?_ rfl rfl
    (fun _ h => service_past h) hs).inv
  case refine_2 => exact Justified.nil
  have hprogram : Triple (signSpec rt) i l Idle (program rt l) anything anything := by
    have hother : (∀ settings d, l ≠ .runOnce settings d) →
        Triple (signSpec rt) i l Idle (program rt l) anything anything := fun hl =>
      of_commits (fun _ _ _ hfacts => signSpec_push hfacts.1 fun settings d h => absurd h (hl settings d))
        signSpec_commits
    cases l with
    | runOnce settings dispatcherId => exact .bind runOnce_signed fun _ => .pure _ fun _ _ _ => trivial
    | _ => exact hother fun _ _ h => by cases h
  exact wp_mono (fun _ _ _ _ => trivial) _ w none (hprogram.sound w none rfl)

/-! ## What a tenant can check -/

/-- The signature is that of `timestamp + "." + raw_body` under the secret. -/
def verifies (rt : Runtime) (secret : String) (headers : List (String × String)) (body : String) : Bool :=
  (headers.lookup "X-PMS-Timestamp").any fun timestamp =>
    headers.lookup "X-PMS-Signature" = some ("sha256=" ++ signature rt secret timestamp body)

/-- A receiver that computes the signature from the body and the timestamp gets the one in the headers. -/
theorem verifies_headersAt {body timestamp : String} :
    verifies rt (event.callbackSecret.getD "") (headersAt rt event body timestamp) body = true := by
  simp [verifies, headersAt, List.lookup_cons]

/-- A POST with these contents tells of a committed event. -/
structure Tells (w : ServiceWorld) (url body : String) (headers : List (String × String)) (e : UUID)
    (ev : CallbackEventRow) : Prop where
  row : w.committed.lookup (.callbackEvents e) = some ev
  notifies : ∃ row, w.committed.lookup (.matches ev.matchId) = some row ∧
    Notifies w.log w.committed e ev row
  toUrl : url = ev.callbackUrl
  carries : body = ev.payload.dumps
  names : headers.lookup "X-PMS-Event-Id" = some (uuidText e)

/-- The POST is signed as the claim of session `i` has it. -/
structure Authentic (rt : Runtime) (w : ServiceWorld) (i : ℕ) (older : List LogEntry) (url body : String)
    (headers : List (String × String)) (e : UUID) (ev : CallbackEventRow) : Prop
    extends Tells w url body headers e ev where
  signed : ∃ claim ∈ older, ∃ t b σ, claim.session = i ∧ claim.event.commit? = some (t, b) ∧
    t.reads = [σ] ∧ verifies rt ((secretIn σ ev.tenantId).getD "") headers body = true

/-- The POST of a claimed event tells of it. -/
theorem Past.postOf_tells (h : Past rt w) {claim : LogEntry} (hclaim : claim ∈ w.log)
    (hc : ClaimsEvent settings dispatcherId i event claim) (timestamp : String) : ∃ ev, OfRow event ev ∧
      Tells w event.callbackUrl (encodePayload event.payload)
        (headersAt rt event (encodePayload event.payload) timestamp) event.eventId ev := by
  obtain ⟨ev, hev, hof⟩ := h.claimed_row hclaim hc
  refine ⟨ev, hof, hev, h.outbox.notifies hev, hof.callbackUrl, congrArg Json.dumps hof.payload, ?_⟩
  simp [headersAt, List.lookup_cons]

/-- **Authentic callbacks.** Whatever a dispatcher POSTs, and whenever: it goes to the URL of a committed
event, carries the event's id and the payload that describes the event's match, and is signed with the
secret of the event's tenant as the session's claim has read it. -/
theorem posts_authentic {clock : Time} {s : ServiceState}
    (hs : (service rt).Reachable (emptyState clock) s) : ∀ newer entry older,
      s.world.log = newer ++ entry :: older → ∀ settings dispatcherId,
        entry.actor = .runOnce settings dispatcherId → ∀ url body headers timeout reply,
          entry.event = .call (.post url body headers timeout) reply →
            ∃ e ev, Authentic rt s.world entry.session older url body headers e ev := by
  intro newer entry older hlog settings dispatcherId hactor url body headers timeout reply hcall
  obtain ⟨event, timestamp, hpost, claim, hclaim, hclaims, t, b, σ, hc, hreads, hsecret⟩ :=
    posts_signed hs newer entry older hlog settings dispatcherId hactor url body headers timeout reply hcall
  obtain ⟨ev, hof, htells⟩ := (service_past hs).postOf_tells
    (hlog ▸ List.mem_append_right _ (List.mem_cons_of_mem _ hclaim)) hclaims timestamp
  cases hpost
  refine ⟨event.eventId, ev, { htells with signed := ⟨claim, hclaim, t, b, σ, hclaims.1, hc, hreads, ?_⟩ }⟩
  rw [← hof.tenantId, ← hsecret]
  exact verifies_headersAt

/-- The sample run POSTs its event. -/
theorem posts_authentic_sample : sampleState.world.log.any (posts 0x40) = true ∧
    ∀ newer entry older, sampleState.world.log = newer ++ entry :: older → ∀ settings dispatcherId,
      entry.actor = .runOnce settings dispatcherId → ∀ url body headers timeout reply,
        entry.event = .call (.post url body headers timeout) reply →
          ∃ e ev, Authentic sampleRuntime sampleState.world entry.session older url body headers e ev :=
  ⟨by decide +kernel, posts_authentic sampleState_reachable⟩

/-! ## What tenants can tell apart -/

/-- A logged POST by a dispatcher. -/
def IsPost (entry : LogEntry) (url body : String) (headers : List (String × String)) : Prop :=
  ∃ settings dispatcherId timeout reply, entry.actor = .runOnce settings dispatcherId ∧
    entry.event = .call (.post url body headers timeout) reply

/-- Every POST of a run tells of an event of the tables, whose row names its URL and payload. -/
theorem isPost_tells {clock : Time} {s : ServiceState}
    (hs : (service rt).Reachable (emptyState clock) s) {entry : LogEntry} (hentry : entry ∈ s.world.log)
    {url body : String} {headers : List (String × String)} (h : IsPost entry url body headers) :
    ∃ e ev, Tells s.world url body headers e ev := by
  obtain ⟨settings, dispatcherId, timeout, reply, hactor, hcall⟩ := h
  obtain ⟨newer, older, hlog⟩ := List.append_of_mem hentry
  obtain ⟨event, timestamp, hpost, claim, hclaim, hclaims, -⟩ :=
    posts_signed hs newer entry older hlog settings dispatcherId hactor url body headers timeout reply hcall
  obtain ⟨ev, -, htells⟩ := (service_past hs).postOf_tells
    (hlog ▸ List.mem_append_right _ (List.mem_cons_of_mem _ hclaim)) hclaims timestamp
  cases hpost
  exact ⟨_, ev, htells⟩

/-- The body is the text of a document that names the match. -/
def AboutMatch (body : String) (m : UUID) : Prop :=
  ∃ payload : Json, body = payload.dumps ∧ payload.get? "match_id" = some (.str (uuidText m))

/-- A body is about one match. -/
theorem AboutMatch.unique {body : String} {m m' : UUID} (h : AboutMatch body m) (h' : AboutMatch body m') :
    m = m' := by
  obtain ⟨payload, hbody, hm⟩ := h
  obtain ⟨payload', hbody', hm'⟩ := h'
  exact uuidText_inj (Json.get?_str_eq (hbody.symm.trans hbody') hm hm')

/-- The body of such a POST names the match of the event. -/
theorem Tells.aboutMatch {url body : String} {headers : List (String × String)} {e : UUID}
    {ev : CallbackEventRow} (h : Tells w url body headers e ev) : AboutMatch body ev.matchId := by
  obtain ⟨row, -, hnotifies⟩ := h.notifies
  exact ⟨ev.payload, h.carries, hnotifies.payload.matchId⟩

/-- **Deduplication.** Each POST is about one match, and of two POSTs of a run it is the same to say that
they name one event in their headers, that they are about one match and that their bodies are equal; they
then go to one URL. -/
theorem posts_deduplicate {clock : Time} {s : ServiceState}
    (hs : (service rt).Reachable (emptyState clock) s) : ∀ entry ∈ s.world.log, ∀ entry' ∈ s.world.log,
      ∀ url body headers url' body' headers', IsPost entry url body headers →
        IsPost entry' url' body' headers' → ∃ m m', AboutMatch body m ∧ AboutMatch body' m' ∧
          (m = m' ↔ body = body') ∧ (body = body' → url = url') ∧
          (headers.lookup "X-PMS-Event-Id" = headers'.lookup "X-PMS-Event-Id" ↔ body = body') := by
  intro entry hentry entry' hentry' url body headers url' body' headers' hpost hpost'
  obtain ⟨e, ev, h⟩ := isPost_tells hs hentry hpost
  obtain ⟨e', ev', h'⟩ := isPost_tells hs hentry' hpost'
  have hsame : e = e' → url = url' ∧ body = body' := by
    rintro rfl
    obtain rfl := Option.some.inj (h.row.symm.trans h'.row)
    exact ⟨h.toUrl.trans h'.toUrl.symm, h.carries.trans h'.carries.symm⟩
  -- one event for each match
  have hevent : ev.matchId = ev'.matchId → e = e' := (service_past hs).outbox.oneEvent e e' ev ev' h.row h'.row
  have hmatch : body = body' → ev.matchId = ev'.matchId := by
    rintro rfl
    exact h.aboutMatch.unique h'.aboutMatch
  refine ⟨ev.matchId, ev'.matchId, h.aboutMatch, h'.aboutMatch, ⟨fun hm => (hsame (hevent hm)).2, hmatch⟩,
    fun hbody => (hsame (hevent (hmatch hbody))).1, ?_⟩
  rw [h.names, h'.names, Option.some.injEq]
  exact ⟨fun hid => (hsame (uuidText_inj hid)).2, fun hbody => congrArg uuidText (hevent (hmatch hbody))⟩

/-- Two matches are made; the POSTs of `a` time out, and after the backoff `b` POSTs both events again. -/
def repostScript : List (System.Move Reply Exn Actor) :=
  runs 0 (.migrate sampleSettings) ++ runs 1 (sampleRequest none "p1") ++
    runs 2 (sampleRequest none "p2") ++ runs 3 (sampleRequest none "p3") ++
    runs 4 (sampleRequest none "p4") ++
    [.act (.start (.runLoop sampleSettings "w" 0)), .advance sampleReply 5 200,
      .act (.start (.runOnce sampleSettings "a")), .advance timeoutReply 6 100, .act (.tick 2000000)] ++
    runs 7 (.runOnce sampleSettings "b")

/-- The state after this run, in which two events are POSTed twice each. -/
def repostState : ServiceState := (service sampleRuntime).after repostScript (emptyState 0)

/-- Each of the two events is POSTed twice. -/
theorem posts_deduplicate_sample :
    repostState.world.log.countP (posts 0x66) = 2 ∧ repostState.world.log.countP (posts 0x6b) = 2 ∧
    ∀ entry ∈ repostState.world.log, ∀ entry' ∈ repostState.world.log,
      ∀ url body headers url' body' headers', IsPost entry url body headers →
        IsPost entry' url' body' headers' → ∃ m m', AboutMatch body m ∧ AboutMatch body' m' ∧
          (m = m' ↔ body = body') ∧ (body = body' → url = url') ∧
          (headers.lookup "X-PMS-Event-Id" = headers'.lookup "X-PMS-Event-Id" ↔ body = body') :=
  ⟨by decide +kernel, by decide +kernel, posts_deduplicate (System.reachable_after repostScript _)⟩

end Matchmaking
