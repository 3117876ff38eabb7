import Matchmaking.Dispatcher.Protocol

/-!
# Batches of callback events

One round of a dispatcher delivers the events it has claimed one after the other. An exception of a
delivery that is not an `httpx.HTTPError` leaves the loop, and with it the event and the rest of the
batch. Everything else is confined to its event.
-/

namespace Matchmaking

open ReadCommitted ReadCommitted.Triple

variable {rt : Runtime} {i : ℕ} {settings : Settings} {dispatcherId : String}
  {event : CallbackEvent} {events : List CallbackEvent}

/-! ## What becomes of the events -/

/-- What becomes of a claimed event in a round. -/
inductive Fate
  /-- `persist_delivery_outcome` returned; `error` is the error of the delivery. -/
  | recorded (error : Option String)
  /-- Persisting the outcome failed with the exception, and `release_claim` returned. -/
  | released (lastExc : Exn)
  /-- Persisting the outcome failed, and `release_claim` failed as well. -/
  | held
  /-- `deliver_event` raised. -/
  | escaped
  /-- The loop was left before. -/
  | untouched

/-- The outcomes with which an event is dealt with: its own; after its persistence failed, the release of
its claim, or whichever of the two the database has carried out without an acknowledgement. -/
def Fate.allows (settings : Settings) (event : CallbackEvent) : Fate → Outcome → Prop
  | .recorded error => OutcomeOf settings event error
  | .released lastExc => (· = .released (some (trim lastExc.str)))
  | .held => fun _ => True
  | .escaped | .untouched => fun o => ∃ error, OutcomeOf settings event error o

/-- The event is dealt with: the session has committed such an outcome. -/
def Fate.Settled (settings : Settings) (log : List LogEntry) (i : ℕ) (event : CallbackEvent) (fate : Fate) :
    Prop :=
  ∃ entry ∈ log, RecordsOutcome i event.eventId (fate.allows settings event) entry

/-- The session itself knows that the event is dealt with. -/
def Fate.isSettled : Fate → Bool
  | .recorded _ | .released _ => true
  | .held | .escaped | .untouched => false

/-- The event is left without a try to persist its outcome. -/
def Fate.isOpen : Fate → Bool
  | .escaped | .untouched => true
  | .recorded _ | .released _ | .held => false

/-- One turn of the loop that stays in the loop. -/
inductive Turned (rt : Runtime) (settings : Settings) (event : CallbackEvent) :
    ServiceTrace → Fate → Prop
  | recorded {error : Option String} {finalFailed : Bool} {m : Metric} {τ₁ τ₂ : ServiceTrace}
      (hdeliver : (deliverEvent rt event settings).Runs τ₁ (.ok error))
      (hpersist : (persistTries event settings (error.map trim) deadlockMaxRetries).Runs τ₂
        (.ok (.ok finalFailed))) :
      Turned rt settings event (τ₁ ++ (τ₂ ++ [⟨.emit m, .ok ()⟩])) (.recorded (error.map trim))
  | released {error : Option String} {lastExc : Exn} {τ₁ τ₂ τ₃ : ServiceTrace}
      (hdeliver : (deliverEvent rt event settings).Runs τ₁ (.ok error))
      (hpersist : (persistTries event settings (error.map trim) deadlockMaxRetries).Runs τ₂
        (.ok (.error lastExc)))
      (hrelease : (withConnection (releaseClaim event (some (trim lastExc.str)))).Runs τ₃ (.ok ())) :
      Turned rt settings event (τ₁ ++ (τ₂ ++ τ₃)) (.released lastExc)
  | held {error : Option String} {lastExc e : Exn} {τ₁ τ₂ τ₃ : ServiceTrace}
      (hdeliver : (deliverEvent rt event settings).Runs τ₁ (.ok error))
      (hpersist : (persistTries event settings (error.map trim) deadlockMaxRetries).Runs τ₂
        (.ok (.error lastExc)))
      (hrelease : (withConnection (releaseClaim event (some (trim lastExc.str)))).Runs τ₃
        (.error e)) :
      Turned rt settings event (τ₁ ++ (τ₂ ++ τ₃)) .held

/-- The loop over the claimed events, with the fates of the events. -/
inductive Fates (rt : Runtime) (settings : Settings) :
    List CallbackEvent → ServiceTrace → List Fate → Prop
  | nil : Fates rt settings [] [] []
  | turn {event : CallbackEvent} {events : List CallbackEvent} {τ₁ τ₂ : ServiceTrace} {fate : Fate}
      {fates : List Fate} (h : Turned rt settings event τ₁ fate) (hrest : Fates rt settings events τ₂ fates) :
      Fates rt settings (event :: events) (τ₁ ++ τ₂) (fate :: fates)
  | leave {event : CallbackEvent} {events : List CallbackEvent} {τ : ServiceTrace} {e : Exn}
      (h : (deliverEvent rt event settings).Runs τ (.error e)) :
      Fates rt settings (event :: events) τ (.escaped :: events.map fun _ => .untouched)

/-- A round with the trace `τ` claims the batch `events`, whose fates are `fates`. -/
def Round (rt : Runtime) (settings : Settings) (dispatcherId : String) (τ : ServiceTrace)
    (events : List CallbackEvent) (fates : List Fate) : Prop :=
  ∃ τ₁ τ₂, τ = τ₁ ++ (⟨.emit (.recordClaimed events.length), .ok ()⟩ :: τ₂) ∧
    (claimBatch settings dispatcherId).Runs τ₁ (.ok events) ∧ Fates rt settings events τ₂ fates

/-- Every event of the batch is dealt with. -/
def BatchSettled (settings : Settings) (log : List LogEntry) (i : ℕ) (events : List CallbackEvent)
    (fates : List Fate) : Prop :=
  List.Forall₂ (fun event fate => fate.Settled settings log i event) events fates

/-- The database has carried out a COMMIT of session `i` that ends its claim of the event `e`. -/
def CarriedOut (log : List LogEntry) (i : ℕ) (e : UUID) : Prop :=
  ∃ entry ∈ log, entry.session = i ∧ ∃ t b row, entry.event.commit? = some (t, b) ∧
    t.writes.dlookup (.callbackEvents e) = some (some row) ∧ row.status ≠ .inProgress

/-- Where neither the persistence of an event nor the release of its claim has returned, one of them was
carried out all the same: only the acknowledgement of its COMMIT was lost. -/
def AckLost (log : List LogEntry) (i : ℕ) (events : List CallbackEvent) (fates : List Fate) : Prop :=
  List.Forall₂ (fun event fate => fate = .held → CarriedOut log i event.eventId) events fates

/-! ## The calls of a delivery -/

/-- The calls of `deliver_event`: the POST, and the clock for its headers. -/
def Call.delivers : Call → Bool
  | .post .. | .wallClock => true
  | _ => false

/-- No call of a delivery raises an exception; an `httpx.HTTPError` is none, since `deliver_event`
handles it. -/
def Calm (τ : ServiceTrace) : Prop := ∀ c e, ⟨c, .error e⟩ ∈ calls τ → c.delivers = false

/-- A trace is calm if its parts are. -/
theorem calm_append {τ₁ τ₂ : ServiceTrace} : Calm (τ₁ ++ τ₂) ↔ Calm τ₁ ∧ Calm τ₂ := by
  constructor
  · intro h
    refine ⟨fun c e hc => h c e ?_, fun c e hc => h c e ?_⟩
    · rw [calls, List.filterMap_append]
      exact List.mem_append_left _ hc
    · rw [calls, List.filterMap_append]
      exact List.mem_append_right _ hc
  · intro h c e hc
    rw [calls, List.filterMap_append] at hc
    rcases List.mem_append.mp hc with hc | hc
    · exact h.1 c e hc
    · exact h.2 c e hc

/-- Operations other than the calls of a delivery. -/
def NoDelivery : {β : Type} → Op Row Reply Exn Metric β → Prop
  | _, .call c => c.delivers = false
  | _, _ => True

theorem calm_of_uses {τ : ServiceTrace} (h : ∀ x ∈ τ, NoDelivery x.op) : Calm τ := by
  intro c e hc
  obtain ⟨⟨o, r⟩, hx, hcall⟩ := List.mem_filterMap.mp hc
  have ho := h _ hx
  cases o <;> simp only [Exchange.call?, Option.some.injEq, Sigma.mk.injEq, reduceCtorEq] at hcall
  rw [← hcall.1]
  exact ho

/-- The blocks of the source that hold a connection deliver nothing by themselves. -/
theorem noDelivery_blocks : Uses.Blocks NoDelivery :=
  ⟨⟨rfl, trivial, trivial⟩, trivial, trivial, trivial, trivial, trivial⟩

/-- An UPDATE of an event is no delivery. -/
theorem updateEvent_noDelivery {eventId : UUID} {set : Time → CallbackEventRow → CallbackEventRow} :
    (updateEvent eventId set).Uses NoDelivery :=
  .bind (.bind (.perform trivial) fun _ => .ite (fun _ => .perform trivial) fun _ => .pure _)
    fun _ => .pure _

theorem setMatchStatus_noDelivery {matchId : UUID} {status : MatchStatus} :
    (setMatchStatus matchId status).Uses NoDelivery :=
  .bind (.bind (.perform trivial) fun _ => .ite (fun _ => .perform trivial) fun _ => .pure _)
    fun _ => .pure _

theorem releaseClaim_noDelivery {error : Option String} :
    (withConnection (releaseClaim event error)).Uses NoDelivery :=
  Uses.withConnection noDelivery_blocks.toEnds (Uses.transaction noDelivery_blocks
    updateEvent_noDelivery)

/-- The transactions that write an outcome make no POST either. -/
theorem persistOnce_noDelivery (error : Option String) :
    (persistOnce event settings error).Uses NoDelivery := by
  cases error with
  | none =>
    refine Uses.withConnection noDelivery_blocks.toEnds (.bind (Uses.transaction noDelivery_blocks ?_)
      fun _ => .pure _)
    exact .bind setMatchStatus_noDelivery fun _ => updateEvent_noDelivery
  | some error =>
    refine Uses.withConnection noDelivery_blocks.toEnds (Uses.transaction noDelivery_blocks ?_)
    refine .ite (fun _ => ?_) fun _ => ?_
    · exact .bind setMatchStatus_noDelivery fun _ => .bind updateEvent_noDelivery fun _ => .pure _
    · exact .bind (.bind (.perform rfl) fun _ => .pure _) fun _ =>
        .bind updateEvent_noDelivery fun _ => .pure _

/-- So the retries of a transaction do not POST the event again. -/
theorem persistTries_noDelivery (error : Option String) (n : ℕ) :
    (persistTries event settings error n).Uses NoDelivery := by
  induction n with
  | zero => exact .pure _
  | succ n ih =>
    refine .bind (Uses.attempt (persistOnce_noDelivery error)) ?_
    rintro (e | finalFailed)
    · exact .ite (fun _ => .pure _) fun _ => ih
    · exact .pure _

theorem claimRows_noDelivery {secret : String → Option String} (ids : List UUID) :
    (claimRows settings dispatcherId secret ids).Uses NoDelivery := by
  induction ids with
  | nil => exact .pure _
  | cons id ids ih => exact .bind (.perform trivial) fun _ => .bind ih fun _ => .pure _

/-- So the batch is claimed before the first of its events is POSTed. -/
theorem claimBatch_noDelivery : (claimBatch settings dispatcherId).Uses NoDelivery := by
  refine Uses.withConnection noDelivery_blocks.toEnds (.bind ?_ fun _ => .bind (.perform trivial)
    fun _ => .pure _)
  exact .bind (.perform rfl) fun _ => .bind (.perform trivial) fun _ =>
    .bind (claimRows_noDelivery _) fun _ => .bind (.perform rfl) fun _ => .pure _

/-! ## Calm and fates -/

/-- A delivery reads the clock and makes its POST; it raises where one of these calls does. -/
theorem deliverEvent_trace {τ : ServiceTrace} {r : Except Exn (Option String)}
    (h : (deliverEvent rt event settings).Runs τ r) :
    (∃ e, r = .error e ∧ τ = [⟨.call .wallClock, .error e⟩]) ∨ ∃ (now : Time) (timestamp : String)
      (reply : Except Exn HttpResult), (reply.isOk = true ↔ ∃ error, r = .ok error) ∧
        τ = [⟨.call .wallClock, .ok now⟩, ⟨.call (postOf rt settings event timestamp), reply⟩] := by
  obtain ⟨e, rfl, hheaders⟩ | ⟨headers, τ₁, τ₂, rfl, hheaders, hrest⟩ := h.of_bind
  · obtain ⟨e', heq, hcall⟩ | ⟨now, τ₁, τ₂, rfl, -, hpure⟩ := hheaders.of_bind
    · cases heq
      exact .inl ⟨_, rfl, hcall.of_perform.1⟩
    · cases hpure.of_pure.2
  obtain ⟨e', heq, -⟩ | ⟨now, τ₃, τ₄, rfl, hclock, hpure⟩ := hheaders.of_bind
  · cases heq
  obtain ⟨rfl, -⟩ := hclock.of_perform
  obtain ⟨rfl, hresult⟩ := hpure.of_pure
  obtain rfl := Except.ok.inj hresult
  obtain ⟨e, rfl, hpost⟩ | ⟨reply, τ₅, τ₆, rfl, hpost, hreply⟩ := hrest.of_bind
  · obtain ⟨rfl, -⟩ := hpost.of_perform
    exact .inr ⟨now, secondsText now ++ "Z", .error e, by simp [Except.isOk, Except.toBool], rfl⟩
  · obtain ⟨rfl, -⟩ := hpost.of_perform
    have hpure : τ₆ = [] ∧ ∃ error, r = .ok error := by
      cases reply with
      | response statusCode =>
        dsimp only at hreply
        split at hreply
        · exact ⟨hreply.of_pure.1, _, hreply.of_pure.2⟩
        · exact ⟨hreply.of_pure.1, _, hreply.of_pure.2⟩
      | httpError msg => exact ⟨hreply.of_pure.1, _, hreply.of_pure.2⟩
    obtain ⟨rfl, hr⟩ := hpure
    exact .inr ⟨now, secondsText now ++ "Z", .ok reply, iff_of_true rfl hr, rfl⟩

/-- A delivery raises exactly if one of its calls does. -/
theorem deliverEvent_calm {τ : ServiceTrace} {r : Except Exn (Option String)}
    (h : (deliverEvent rt event settings).Runs τ r) : Calm τ ↔ ∃ error, r = .ok error := by
  obtain ⟨e, rfl, rfl⟩ | ⟨now, timestamp, reply, hr, rfl⟩ := deliverEvent_trace h
  · refine iff_of_false (fun h => ?_) (fun ⟨_, h⟩ => by cases h)
    cases h .wallClock e List.mem_cons_self
  · rw [← hr]
    constructor
    · intro h
      cases reply with
      | ok y => rfl
      | error e => cases h (postOf rt settings event timestamp) e (List.mem_cons_of_mem _ List.mem_cons_self)
    · rintro hok c e hc
      cases reply with
      | error e => cases hok
      | ok y =>
        rcases List.mem_cons.mp hc with hc | hc
        · cases hc
        · cases List.mem_singleton.mp hc

/-- The turn of an event has no delivery that raises, since it goes on to the outcome. -/
theorem Turned.calm {τ : ServiceTrace} {fate : Fate} (h : Turned rt settings event τ fate) :
    Calm τ := by
  have hpersist : ∀ {error r τ}, (persistTries event settings error deadlockMaxRetries).Runs τ r →
      Calm τ := fun h => calm_of_uses (h.uses (persistTries_noDelivery _ _))
  cases h with
  | recorded hd hp =>
    refine calm_append.mpr ⟨(deliverEvent_calm hd).mpr ⟨_, rfl⟩, calm_append.mpr ⟨hpersist hp, ?_⟩⟩
    exact calm_of_uses fun x hx => List.mem_singleton.mp hx ▸ trivial
  | released hd hp hr =>
    exact calm_append.mpr ⟨(deliverEvent_calm hd).mpr ⟨_, rfl⟩,
      calm_append.mpr ⟨hpersist hp, calm_of_uses (hr.uses releaseClaim_noDelivery)⟩⟩
  | held hd hp hr =>
    exact calm_append.mpr ⟨(deliverEvent_calm hd).mpr ⟨_, rfl⟩,
      calm_append.mpr ⟨hpersist hp, calm_of_uses (hr.uses releaseClaim_noDelivery)⟩⟩

theorem Turned.isOpen {τ : ServiceTrace} {fate : Fate} (h : Turned rt settings event τ fate) :
    fate.isOpen = false := by
  cases h <;> rfl

/-- No event is left open exactly if no delivery raises. -/
theorem Fates.calm_iff {τ : ServiceTrace} {fates : List Fate} (h : Fates rt settings events τ fates) :
    Calm τ ↔ ∀ fate ∈ fates, fate.isOpen = false := by
  induction h with
  | nil => exact iff_of_true (fun _ _ hc => (List.not_mem_nil hc).elim) (by simp)
  | turn hturn _ ih =>
    rw [List.forall_mem_cons, ← ih, calm_append, and_iff_right hturn.calm, and_iff_right hturn.isOpen]
  | leave hd =>
    refine iff_of_false (fun h => ?_) fun h => ?_
    · obtain ⟨error, he⟩ := (deliverEvent_calm hd).mp h
      cases he
    · cases h _ List.mem_cons_self

/-! ## POSTs and fates -/

/-- The trace has a POST of the event `e` that was answered. -/
def HasPost (rt : Runtime) (τ : ServiceTrace) (e : UUID) : Prop :=
  ∃ settings event timestamp, ∃ reply : HttpResult, event.eventId = e ∧
    ⟨postOf rt settings event timestamp, .ok reply⟩ ∈ calls τ

/-- A POST in a trace is one in a part of it. -/
theorem hasPost_append {τ₁ τ₂ : ServiceTrace} {e : UUID} :
    HasPost rt (τ₁ ++ τ₂) e ↔ HasPost rt τ₁ e ∨ HasPost rt τ₂ e := by
  simp only [HasPost, calls, List.filterMap_append, List.mem_append, and_or_left, exists_or]

/-- The parts of a round other than deliveries make no POST. -/
theorem not_hasPost_of_uses {τ : ServiceTrace} (h : ∀ x ∈ τ, NoDelivery x.op) (e : UUID) :
    ¬ HasPost rt τ e := by
  rintro ⟨settings, event, timestamp, reply, -, hpost⟩
  obtain ⟨⟨o, r⟩, hx, hcall⟩ := List.mem_filterMap.mp hpost
  have ho := h _ hx
  cases o <;> simp only [Exchange.call?, Option.some.injEq, Sigma.mk.injEq, reduceCtorEq] at hcall
  obtain ⟨rfl, -⟩ := hcall
  cases ho

/-- The POST of a delivery is one of its own event; if it is answered, the delivery returns. -/
theorem deliverEvent_hasPost {τ : ServiceTrace} {r : Except Exn (Option String)}
    (h : (deliverEvent rt event settings).Runs τ r) {e : UUID} (hpost : HasPost rt τ e) :
    e = event.eventId ∧ ∃ error, r = .ok error := by
  obtain ⟨settings', event', timestamp', reply', rfl, hmem⟩ := hpost
  obtain ⟨e, rfl, rfl⟩ | ⟨now, timestamp, reply, hr, rfl⟩ := deliverEvent_trace h
  · cases List.mem_singleton.mp hmem
  · rcases List.mem_cons.mp hmem with hmem | hmem
    · cases hmem
    · have heq := List.mem_singleton.mp hmem
      simp only [Sigma.mk.injEq, postOf, Call.post.injEq, headersAt, List.cons.injEq, Prod.mk.injEq,
        true_and] at heq
      obtain ⟨⟨-, -, ⟨hid, -⟩, -⟩, hreply⟩ := heq
      refine ⟨uuidText_inj hid, hr.mp ?_⟩
      cases hreply
      rfl

/-- A turn POSTs its own event only. -/
theorem Turned.hasPost {τ : ServiceTrace} {fate : Fate} (h : Turned rt settings event τ fate) {e : UUID}
    (hpost : HasPost rt τ e) : e = event.eventId := by
  cases h with
  | recorded hd hp =>
    rcases hasPost_append.mp hpost with hpost | hpost
    · exact (deliverEvent_hasPost hd hpost).1
    · rcases hasPost_append.mp hpost with hpost | hpost
      · exact absurd hpost (not_hasPost_of_uses (hp.uses (persistTries_noDelivery _ _)) e)
      · refine absurd hpost (not_hasPost_of_uses (fun x hx => ?_) e)
        obtain rfl := List.mem_singleton.mp hx
        trivial
  | released hd hp hr | held hd hp hr =>
    rcases hasPost_append.mp hpost with hpost | hpost
    · exact (deliverEvent_hasPost hd hpost).1
    · rcases hasPost_append.mp hpost with hpost | hpost
      · exact absurd hpost (not_hasPost_of_uses (hp.uses (persistTries_noDelivery _ _)) e)
      · exact absurd hpost (not_hasPost_of_uses (hr.uses releaseClaim_noDelivery) e)

/-- The events that are left open are not POSTed, or their POST was not answered. -/
theorem Fates.unposted {τ σ : ServiceTrace} {fates : List Fate} (h : Fates rt settings events τ fates)
    (hids : (events.map CallbackEvent.eventId).Nodup)
    (hσ : ∀ event ∈ events, ¬ HasPost rt σ event.eventId) :
    List.Forall₂ (fun event fate => fate.isOpen = true → ¬ HasPost rt (σ ++ τ) event.eventId) events
      fates := by
  induction h generalizing σ with
  | nil => exact .nil
  | @turn event events τ₁ τ₂ fate fates hturn _ ih =>
    obtain ⟨hevent, hids⟩ := List.nodup_cons.mp hids
    refine .cons (fun hopen => by cases hturn.isOpen.symm.trans hopen) ?_
    rw [← List.append_assoc]
    refine ih hids fun event' he' hpost => ?_
    rcases hasPost_append.mp hpost with hpost | hpost
    · exact hσ event' (List.mem_cons_of_mem _ he') hpost
    · -- the turn has POSTed another event
      exact hevent (hturn.hasPost hpost ▸ List.mem_map_of_mem he')
  | @leave event events τ e hd =>
    have hnone : ∀ event' ∈ event :: events, ¬ HasPost rt (σ ++ τ) event'.eventId := by
      intro event' he' hpost
      rcases hasPost_append.mp hpost with hpost | hpost
      · exact hσ event' he' hpost
      · obtain ⟨-, error, herror⟩ := deliverEvent_hasPost hd hpost
        cases herror
    refine .cons (fun _ => hnone _ List.mem_cons_self) (List.forall₂_map_right_iff.mpr ?_)
    exact List.forall₂_same.mpr fun event' he' _ => hnone event' (List.mem_cons_of_mem _ he')

/-! ## Executions of a round -/

section Executions

variable {α : Type} {l : Actor} {w w₁ : ServiceWorld} {T T₁ : Option (Txn Row)} {τ : ServiceTrace}

theorem executes_log {x : Db α} {r : Except Exn α}
    (h : x.Executes (commitSpec rt) i l w T τ r w₁ T₁) : w.log <:+ w₁.log :=
  Prog.Executes.log (fun _ _ hrely => Grows.log hrely) h

theorem OutcomeLogged.mono {p : Outcome → Prop} (h : OutcomeLogged i event p w)
    (hlog : w.log <:+ w₁.log) : OutcomeLogged i event p w₁ :=
  h.imp fun _ h => ⟨hlog.subset h.1, h.2⟩

/-- A fate that the log shows is shown by every longer log. -/
theorem Fate.Settled.mono {fate : Fate} (h : fate.Settled settings w.log i event) (hlog : w.log <:+ w₁.log) :
    fate.Settled settings w₁.log i event :=
  OutcomeLogged.mono h hlog

/-- The loop over the tries raises nothing. -/
theorem persistTries_ok {error : Option String} {n : ℕ} {r : Except Exn (Except Exn Bool)}
    (h : (persistTries event settings error n).Executes (commitSpec rt) i l w T τ r w₁ T₁) :
    ∃ r', r = .ok r' := by
  induction n generalizing w T τ with
  | zero =>
    cases h
    exact ⟨_, rfl⟩
  | succ n ih =>
    obtain ⟨e, -, hattempt⟩ | ⟨r', w', T', τ₁, τ₂, -, -, hrest⟩ := h.of_bind
    · obtain ⟨_, heq, -⟩ := of_attempt hattempt
      cases heq
    · cases r' with
      | ok finalFailed =>
        cases hrest
        exact ⟨_, rfl⟩
      | error e =>
        dsimp only at hrest
        split at hrest
        · cases hrest
          exact ⟨_, rfl⟩
        · exact ih hrest

/-- Persisting the outcome of a delivered event completes a turn; if it returns, the outcome is
committed, and where the claim was released, that is. -/
theorem persistDeliveryOutcome_turned {error : Option String} {τ₁ : ServiceTrace}
    (hdeliver : (deliverEvent rt event settings).Runs τ₁ (.ok error)) {r : Except Exn Bool}
    (h : (persistDeliveryOutcome event settings (error.map trim)).Executes (commitSpec rt) i
      (.runOnce settings dispatcherId) w T τ r w₁ T₁)
    (hw : Idle w T ∧ EventKnown event w.committed) :
    (∀ finalFailed, r = .ok finalFailed → OutcomeLogged i event (OutcomeOf settings event (error.map trim)) w₁ ∧
      ∀ m, Turned rt settings event (τ₁ ++ (τ ++ [⟨.emit m, .ok ()⟩])) (.recorded (error.map trim))) ∧
    (∀ e, r = .error e → ∃ fate, Turned rt settings event (τ₁ ++ τ) fate ∧
      (fate.isSettled = true → fate.Settled settings w₁.log i event)) := by
  obtain ⟨e, -, htries⟩ | ⟨r', w', T', τ₂, τ₃, rfl, htries, hrest⟩ := h.of_bind
  · obtain ⟨_, heq⟩ := persistTries_ok htries
    cases heq
  have htried := (@persistTries_triple rt i settings dispatcherId event anything (error.map trim)
    deadlockMaxRetries).executes htries hw
  cases r' with
  | ok finalFailed =>
    cases hrest
    rw [List.append_nil]
    exact ⟨fun _ _ => ⟨htried.2 finalFailed rfl, fun m => .recorded hdeliver htries.runs⟩,
      fun _ hr => by cases hr⟩
  | error lastExc =>
    obtain ⟨e, rfl, hrelease⟩ | ⟨u, w'', T'', τ₄, τ₅, rfl, hrelease, hthrow⟩ := hrest.of_bind
    · exact ⟨fun _ hr => (by cases hr), fun _ _ =>
        ⟨.held, .held hdeliver htries.runs hrelease.runs, fun h => (by cases h)⟩⟩
    · cases hthrow
      rw [List.append_nil]
      exact ⟨fun _ hr => (by cases hr), fun _ _ =>
        ⟨.released lastExc, .released hdeliver htries.runs hrelease.runs,
          fun _ => (release_triple.executes hrelease htried.1).2⟩⟩

/-- The loop deals with the events as `Fates` says, and what is settled is committed. -/
theorem deliverEvents_fates {r : Except Exn Unit}
    (h : (deliverEvents rt settings events).Executes (commitSpec rt) i (.runOnce settings dispatcherId)
      w T τ r w₁ T₁) (hw : Idle w T ∧ EventsKnown events w) :
    ∃ fates, Fates rt settings events τ fates ∧ List.Forall₂ (fun event fate =>
      fate.isSettled = true → fate.Settled settings w₁.log i event) events fates := by
  induction events generalizing w T τ with
  | nil =>
    cases h
    exact ⟨[], .nil, .nil⟩
  | cons event events ih =>
    obtain ⟨e, -, hdeliver⟩ | ⟨error, w', T', τ₁, τ₂, rfl, hdeliver, hrest⟩ := h.of_bind
    -- the delivery raises: the loop is left, this event and the rest are not settled
    · refine ⟨_, .leave hdeliver.runs, .cons (fun h => by cases h) ?_⟩
      exact List.forall₂_map_right_iff.mpr (List.forall₂_same.mpr fun _ _ h => by cases h)
    have hw' := (deliverEvent_triple (Idle.stable.and (eventsKnown_lasting (event :: events)).stable)
      fun _ _ _ _ _ h => h).executes hdeliver hw
    obtain ⟨e, -, hattempt⟩ | ⟨r', w'', T'', τ₃, τ₄, rfl, hattempt, hrest⟩ := hrest.of_bind
    · obtain ⟨_, heq, -⟩ := of_attempt hattempt
      cases heq
    obtain ⟨r'', heq, hpersist⟩ := of_attempt hattempt
    obtain rfl := Except.ok.inj heq
    have hknown : EventKnown event w'.committed := hw'.2 event List.mem_cons_self
    have hturned := persistDeliveryOutcome_turned hdeliver.runs hpersist ⟨hw'.1, hknown⟩
    -- whatever the persistence did, the session is idle again and knows the rest of the batch
    have hw'' : Idle w'' T'' ∧ EventsKnown events w'' := by
      have hlast := (frame (eventsKnown_lasting events)
        (persistDeliveryOutcome_triple (error.map trim))).executes hpersist ⟨⟨hw'.1, hknown⟩, fun e he =>
          hw'.2 e (List.mem_cons_of_mem _ he)⟩
      cases r' <;> exact hlast
    cases r' with
    -- the error is caught, and the loop goes on with the next event
    | error e =>
      obtain ⟨fate, hturn, hsettled⟩ := hturned.2 e rfl
      obtain ⟨fates, hfates, hall⟩ := ih hrest hw''
      exact ⟨fate :: fates, List.append_assoc .. ▸ .turn hturn hfates,
        .cons (fun h => (hsettled h).mono (executes_log hrest)) hall⟩
    | ok finalFailed =>
      obtain ⟨e, -, hrecord⟩ | ⟨u, w₃, T₃, τ₅, τ₆, rfl, hrecord, hloop⟩ := hrest.of_bind
      · exact hrecord.runs.of_perform.2.elim
      have hw₃ := (keep (eventsKnown_lasting events) (Triple.record commitSpec_logs Idle.stable
        Idle.unlogged)).any.executes hrecord hw''
      obtain ⟨rfl, -⟩ := hrecord.runs.of_perform
      obtain ⟨fates, hfates, hall⟩ := ih hloop hw₃
      obtain ⟨hlogged, hturn⟩ := hturned.1 finalFailed rfl
      refine ⟨.recorded (error.map trim) :: fates, ?_,
        .cons (fun _ => hlogged.mono ((executes_log hrecord).trans (executes_log hloop))) hall⟩
      rw [← List.append_assoc τ₃, ← List.append_assoc τ₁]
      exact .turn (hturn _) hfates

/-- A round that has claimed a batch, of different events; what its session knows to be dealt with is
committed. -/
theorem runOnce_round {r : Except Exn ℕ}
    (h : (runOnce rt settings dispatcherId).Executes (commitSpec rt) i
      (.runOnce settings dispatcherId) w T τ r w₁ T₁) (hw : Idle w T) :
    (∃ e, (claimBatch settings dispatcherId).Runs τ (.error e)) ∨
      ∃ events fates, Round rt settings dispatcherId τ events fates ∧
        (events.map CallbackEvent.eventId).Nodup ∧ List.Forall₂ (fun event fate =>
          fate.isSettled = true → fate.Settled settings w₁.log i event) events fates := by
  obtain ⟨e, -, hclaim⟩ | ⟨events, w', T', τ₁, τ₂, rfl, hclaim, hrest⟩ := h.of_bind
  · exact .inl ⟨e, hclaim.runs⟩
  have hclaimed := claimBatch_triple.executes hclaim hw
  have hw' : Idle w' T' ∧ EventsKnown events w' := ⟨hclaimed.2.1, hclaimed.2.2.1⟩
  obtain ⟨e, -, hrecord⟩ | ⟨u, w'', T'', τ₃, τ₄, rfl, hrecord, hdeliver⟩ := hrest.of_bind
  · exact hrecord.runs.of_perform.2.elim
  have hw'' := (keep (eventsKnown_lasting events) (Triple.record commitSpec_logs Idle.stable
    Idle.unlogged)).any.executes hrecord hw'
  obtain ⟨rfl, -⟩ := hrecord.runs.of_perform
  refine .inr ⟨events, ?_⟩
  obtain ⟨e, -, hloop⟩ | ⟨u', w₃, T₃, τ₅, τ₆, rfl, hloop, hpure⟩ := hdeliver.of_bind
  · obtain ⟨fates, hfates, hall⟩ := deliverEvents_fates hloop hw''
    exact ⟨fates, ⟨τ₁, τ₄, rfl, hclaim.runs, hfates⟩, hclaimed.1, hall⟩
  · cases hpure
    obtain ⟨fates, hfates, hall⟩ := deliverEvents_fates hloop hw''
    exact ⟨fates, ⟨τ₁, τ₅, by simp, hclaim.runs, hfates⟩, hclaimed.1, hall⟩

end Executions

/-! ## Runs -/

/-- A dispatcher's session that has answered, in a run with traces. -/
structure RoundEnded (rt : Runtime) (settings : Settings) (dispatcherId : String) (s : ServiceState)
    (ρ : ℕ → ServiceTrace) (i : ℕ) : Prop where
  traced : ∃ clock, (service rt).Traced (emptyState clock) s ρ
  answered : ∃ e ∈ s.world.log, e.session = i ∧ e.actor = .runOnce settings dispatcherId ∧
    ∃ born r, e.event = .answer born r

/-- The trace of an iteration that has ended is an execution by the rules on commits. -/
theorem RoundEnded.executed {s : ServiceState} {ρ : ℕ → ServiceTrace}
    (h : RoundEnded rt settings dispatcherId s ρ i) : Executed (service rt) (commitSpec rt) s ρ := by
  obtain ⟨clock, htr⟩ := h.traced
  exact Spec.executed (commitSpec_lawful fun _ _ => rfl) (fun s hs =>
    ⟨commitSpec_good (fun _ _ => rfl) hs, history (fun _ _ => rfl) hs⟩) htr

/-- Such an iteration has failed in its claim, or has a fate for each event of its batch, in order. -/
theorem RoundEnded.round {s : ServiceState} {ρ : ℕ → ServiceTrace}
    (h : RoundEnded rt settings dispatcherId s ρ i) :
    (∃ e, (claimBatch settings dispatcherId).Runs (ρ i) (.error e)) ∨
      ∃ events fates, Round rt settings dispatcherId (ρ i) events fates ∧
        (events.map CallbackEvent.eventId).Nodup ∧ List.Forall₂ (fun event fate =>
          fate.isSettled = true → fate.Settled settings s.world.log i event) events fates := by
  obtain ⟨e, he, rfl, hactor, born, r, hans⟩ := h.answered
  obtain ⟨-, w₀, w₁, T₁, -, hex, hlog⟩ := h.executed.ended e he born r hans
  rw [hactor] at hex
  have hround : (∃ e', (claimBatch settings dispatcherId).Runs (ρ e.session) (.error e')) ∨
      ∃ events fates, Round rt settings dispatcherId (ρ e.session) events fates ∧
        (events.map CallbackEvent.eventId).Nodup ∧ List.Forall₂ (fun event fate =>
          fate.isSettled = true → fate.Settled settings w₁.log e.session event) events fates := by
    obtain ⟨e', -, hround⟩ | ⟨n, w', T', τ₁, τ₂, heq, hround, hpure⟩ := hex.of_bind
    · exact runOnce_round hround rfl
    · cases hpure
      rw [heq, List.append_nil]
      exact runOnce_round hround rfl
  exact hround.imp_right fun ⟨events, fates, hr, hids, hall⟩ =>
    ⟨events, fates, hr, hids, hall.imp fun _ _ h hst => (h hst).mono hlog⟩

/-- The commits of the session are those of a dispatcher. -/
theorem RoundEnded.protocol_entry {s : ServiceState} {ρ : ℕ → ServiceTrace}
    (h : RoundEnded rt settings dispatcherId s ρ i) {entry : LogEntry} (hmem : entry ∈ s.world.log)
    (hsession : entry.session = i) :
    entry.actor = .runOnce settings dispatcherId ∧ ∃ older, older ⊆ s.world.log ∧ EndsPosted rt entry older := by
  obtain ⟨clock, htr⟩ := h.traced
  obtain ⟨e, he, hi, hactor, -⟩ := h.answered
  refine ⟨(System.Reachable.same_actor htr.reachable hmem he (hsession.trans hi.symm)).trans hactor, ?_⟩
  obtain ⟨newer, older, horder⟩ := List.append_of_mem hmem
  refine ⟨older, fun x hx => horder ▸ ?_, (protocol (fun _ _ => rfl) htr.reachable).ends newer entry older horder⟩
  exact List.mem_append_right _ (List.mem_cons_of_mem _ hx)

/-- Whatever outcome the session commits, it has POSTed the event. -/
theorem RoundEnded.hasPost {s : ServiceState} {ρ : ℕ → ServiceTrace}
    (h : RoundEnded rt settings dispatcherId s ρ i) {entry : LogEntry} (hmem : entry ∈ s.world.log) {e : UUID}
    {p : Outcome → Prop} (hrecords : RecordsOutcome i e p entry) : HasPost rt (ρ i) e := by
  obtain ⟨hsession, o, t, b, ev, -, hc, -, hwrite⟩ := hrecords
  obtain ⟨hactor, older, hsub, hends⟩ := h.protocol_entry hmem hsession
  obtain ⟨-, event, error, he, post, hpost, hi, -, timestamp, reply, hcall, -⟩ :=
    hends _ _ hactor t b hc e _ hwrite (o.status_apply t.start ev)
  exact ⟨settings, event, timestamp, reply, he,
    (h.executed.logged i _ _).mpr ⟨post, hsub hpost, hi.trans hsession, hcall⟩⟩

/-- What the session has carried out, is an outcome. -/
theorem RoundEnded.settled_held {s : ServiceState} {ρ : ℕ → ServiceTrace}
    (h : RoundEnded rt settings dispatcherId s ρ i) (event : CallbackEvent) :
    Fate.held.Settled settings s.world.log i event ↔ CarriedOut s.world.log i event.eventId := by
  constructor
  · rintro ⟨entry, hmem, hsession, o, t, b, ev, -, hc, -, hwrite⟩
    exact ⟨entry, hmem, hsession, t, b, _, hc, hwrite, o.status_apply t.start ev⟩
  · rintro ⟨entry, hmem, hsession, t, b, row, hc, hwrite, hst⟩
    obtain ⟨hactor, older, -, hends⟩ := h.protocol_entry hmem hsession
    obtain ⟨⟨o, ev, hfound, rfl⟩, -⟩ := hends _ _ hactor t b hc _ _ hwrite hst
    exact ⟨entry, hmem, hsession, o, t, b, ev, trivial, hc, hfound, hwrite⟩

/-- Event by event: what is left open is not dealt with, and what is held is if it was carried out. -/
theorem batchSettled_iff {log : List LogEntry} {fates : List Fate}
    (h : List.Forall₂ (fun event fate => fate.Settled settings log i event ↔
      fate.isOpen = false ∧ (fate = .held → CarriedOut log i event.eventId)) events fates) :
    BatchSettled settings log i events fates ↔
      (∀ fate ∈ fates, fate.isOpen = false) ∧ AckLost log i events fates := by
  induction h with
  | nil => exact iff_of_true .nil ⟨by simp, .nil⟩
  | @cons event fate events fates hfate _ ih =>
    rw [BatchSettled, List.forall₂_cons, ← BatchSettled, ih, hfate, List.forall_mem_cons, AckLost, AckLost,
      List.forall₂_cons, and_and_and_comm]

/-- The batch of a round is dealt with, except for what is left open or held. -/
theorem RoundEnded.batchSettled_iff {s : ServiceState} {ρ : ℕ → ServiceTrace} {fates : List Fate}
    (h : RoundEnded rt settings dispatcherId s ρ i)
    (hround : Round rt settings dispatcherId (ρ i) events fates)
    (hids : (events.map CallbackEvent.eventId).Nodup)
    (hall : List.Forall₂ (fun event fate => fate.isSettled = true →
      fate.Settled settings s.world.log i event) events fates) :
    BatchSettled settings s.world.log i events fates ↔
      Calm (ρ i) ∧ AckLost s.world.log i events fates := by
  obtain ⟨τ₁, τ₂, hτ, hclaim, hfates⟩ := hround
  have hquiet : ∀ x ∈ τ₁ ++ [⟨.emit (.recordClaimed events.length), .ok ()⟩], NoDelivery x.op := by
    intro x hx
    rcases List.mem_append.mp hx with hx | hx
    · exact hclaim.uses claimBatch_noDelivery x hx
    · obtain rfl := List.mem_singleton.mp hx
      trivial
  rw [List.append_cons] at hτ
  have hunposted := hfates.unposted hids fun event _ => not_hasPost_of_uses hquiet event.eventId
  rw [← hτ] at hunposted
  rw [hτ, calm_append, and_iff_right (calm_of_uses hquiet), hfates.calm_iff]
  refine Matchmaking.batchSettled_iff ?_
  obtain ⟨hlen, hunposted⟩ := List.forall₂_iff_zip.mp hunposted
  obtain ⟨-, hall⟩ := List.forall₂_iff_zip.mp hall
  refine List.forall₂_iff_zip.mpr ⟨hlen, fun {event fate} hmem => ?_⟩
  have hopen := hunposted hmem
  have hsettled := hall hmem
  have hpost : fate.Settled settings s.world.log i event → HasPost rt (ρ i) event.eventId :=
    fun ⟨entry, hentry, hrecords⟩ => h.hasPost hentry hrecords
  cases fate with
  | recorded error => exact iff_of_true (hsettled rfl) ⟨rfl, fun h => by cases h⟩
  | released lastExc => exact iff_of_true (hsettled rfl) ⟨rfl, fun h => by cases h⟩
  | held => exact (h.settled_held event).trans ⟨fun h => ⟨rfl, fun _ => h⟩, fun h => h.2 rfl⟩
  | escaped | untouched => exact iff_of_false (fun h => hopen rfl (hpost h)) fun h => by cases h.1

/-- Session `i` has committed a claim of the event. -/
def ClaimCommitted (settings : Settings) (dispatcherId : String) (log : List LogEntry) (i : ℕ)
    (event : CallbackEvent) : Prop :=
  ∃ claim ∈ log, ClaimsEvent settings dispatcherId i event claim

/-- **Batches.** When a round of a dispatcher has ended that has claimed a batch, every event of the
batch is dealt with, if and only if no call of a delivery has raised an exception that is not an
`httpx.HTTPError`, and an event of which neither the persistence nor the release has returned had one of
them carried out without an acknowledgement. Where the block of the claim has raised, the events are dealt
with if and only if none was claimed: its COMMIT was not carried out. -/
theorem batch_settled_iff {s : ServiceState} {ρ : ℕ → ServiceTrace}
    (h : RoundEnded rt settings dispatcherId s ρ i) :
    (∃ e, (claimBatch settings dispatcherId).Runs (ρ i) (.error e)) ∧
        ((∀ event, ClaimCommitted settings dispatcherId s.world.log i event →
            Fate.untouched.Settled settings s.world.log i event) ↔
          ∀ event, ¬ ClaimCommitted settings dispatcherId s.world.log i event) ∨
      ∃ events fates, Round rt settings dispatcherId (ρ i) events fates ∧
        (BatchSettled settings s.world.log i events fates ↔
          Calm (ρ i) ∧ AckLost s.world.log i events fates) := by
  obtain ⟨e, hclaim⟩ | ⟨events, fates, hround, hids, hall⟩ := h.round
  · refine .inl ⟨⟨e, hclaim⟩, fun hsettled event hclaimed => ?_, fun hnone event hclaimed =>
      absurd hclaimed (hnone event)⟩
    obtain ⟨entry, hmem, hrecords⟩ := hsettled event hclaimed
    exact not_hasPost_of_uses (hclaim.uses claimBatch_noDelivery) _ (h.hasPost hmem hrecords)
  · exact .inr ⟨events, fates, hround, h.batchSettled_iff hround hids hall⟩

/-! ## A callback URL that cannot be parsed -/

/-- A round with a delivery that raises is not calm. -/
theorem RoundEnded.not_calm {s : ServiceState} {ρ : ℕ → ServiceTrace}
    (h : RoundEnded rt settings dispatcherId s ρ i) {c : Call} {e : Exn}
    (hcall : Called s.world.log i c (.error e)) (hc : c.delivers = true) : ¬ Calm (ρ i) := by
  intro hcalm
  have hmem : ⟨c, .error e⟩ ∈ calls (ρ i) := (h.executed.logged i c (.error e)).mpr hcall
  cases hc.symm.trans (hcalm c e hmem)

/-- A reply of surroundings in which the callback URLs cannot be parsed. -/
def invalidUrlReply (k : ℕ) : (c : Call) → Except Exn (Reply c)
  | .post .. => .error (.invalidUrl "Invalid port: 'x'")
  | c => sampleReply k c

/-- Two matches are made; one dispatcher claims both events, and its first POST raises. -/
def strandedScript : List (System.Move Reply Exn Actor) :=
  runs 0 (.migrate sampleSettings) ++ runs 1 (sampleRequest none "p1") ++
    runs 2 (sampleRequest none "p2") ++ runs 3 (sampleRequest none "p3") ++
    runs 4 (sampleRequest none "p4") ++
    [.act (.start (.runLoop sampleSettings "w" 0)), .advance sampleReply 5 200,
      .act (.start (.runOnce sampleSettings "d")), .advance invalidUrlReply 6 100]

/-- The state after a run in which an event is left claimed. -/
def strandedState : ServiceState := (service sampleRuntime).after strandedScript (emptyState 0)

/-- The run is made of steps of the service. -/
theorem strandedState_reachable : (service sampleRuntime).Reachable (emptyState 0) strandedState :=
  System.reachable_after strandedScript _

/-- The events, their attempts, and whether they are still claimed. -/
def eventStates (s : ServiceState) : List (ℕ × Bool) :=
  (rowsOf eventRow s.world.committed).map fun (_, e) => (e.attempts, e.status = .inProgress)

/-- Both events stay claimed, without an attempt. -/
example : eventStates strandedState = [(0, true), (0, true)] := by decide +kernel

/-- Session 6 has answered as a dispatcher. -/
def endsRound (e : LogEntry) : Bool :=
  e.session = 6 && (match e.actor with
    | .runOnce settings d => settings = sampleSettings && d = "d"
    | _ => false) && (answer? e.event).isSome

/-- A POST of session 6 has raised. -/
def postRaised (e : LogEntry) : Bool :=
  e.session = 6 && match e.event with | .call (.post ..) (.error _) => true | _ => false

/-- In it the iteration has ended, and one of its deliveries has raised. -/
theorem stranded_ended : ∃ ρ, RoundEnded sampleRuntime sampleSettings "d" strandedState ρ 6 ∧
    ¬ Calm (ρ 6) := by
  obtain ⟨ρ, hρ⟩ := strandedState_reachable.traced
  have hends : strandedState.world.log.any endsRound = true := by decide +kernel
  obtain ⟨e, he, hend⟩ := List.any_eq_true.mp hends
  simp only [endsRound, Bool.and_eq_true, decide_eq_true_eq] at hend
  obtain ⟨⟨hi, hactor⟩, hans⟩ := hend
  have hended : RoundEnded sampleRuntime sampleSettings "d" strandedState ρ 6 := by
    split at hactor
    · next settings d heq =>
      simp only [Bool.and_eq_true, decide_eq_true_eq] at hactor
      obtain ⟨rfl, rfl⟩ := hactor
      refine ⟨⟨0, hρ⟩, e, he, hi, heq, ?_⟩
      cases hev : e.event with
      | answer born r => exact ⟨born, r, rfl⟩
      | _ => rw [hev] at hans; cases hans
    · cases hactor
  have hany : strandedState.world.log.any postRaised = true := by decide +kernel
  obtain ⟨post, hmem, hpost⟩ := List.any_eq_true.mp hany
  simp only [postRaised, Bool.and_eq_true, decide_eq_true_eq] at hpost
  obtain ⟨hsession, hpost⟩ := hpost
  split at hpost
  · next heq => exact ⟨ρ, hended, hended.not_calm ⟨post, hmem, hsession, heq⟩ rfl⟩
  · cases hpost

/-- One URL that cannot be parsed leaves the whole batch behind. -/
theorem batch_stranded : ∃ ρ, RoundEnded sampleRuntime sampleSettings "d" strandedState ρ 6 ∧
    ∃ events fates, Round sampleRuntime sampleSettings "d" (ρ 6) events fates ∧
      ¬ BatchSettled sampleSettings strandedState.world.log 6 events fates := by
  obtain ⟨ρ, h, hstorm⟩ := stranded_ended
  obtain ⟨e, hclaim⟩ | ⟨events, fates, hround, hids, hall⟩ := h.round
  · exact absurd (calm_of_uses (hclaim.uses claimBatch_noDelivery)) hstorm
  · exact ⟨ρ, h, events, fates, hround, fun hsettled =>
      hstorm ((h.batchSettled_iff hround hids hall).mp hsettled).1⟩

/-- This round has claimed a batch, and is not calm. -/
theorem batch_settled_iff_stranded : ∃ ρ, RoundEnded sampleRuntime sampleSettings "d" strandedState ρ 6 ∧
    ¬ Calm (ρ 6) ∧ ∃ events fates, Round sampleRuntime sampleSettings "d" (ρ 6) events fates ∧
      (BatchSettled sampleSettings strandedState.world.log 6 events fates ↔
        Calm (ρ 6) ∧ AckLost strandedState.world.log 6 events fates) := by
  obtain ⟨ρ, h, hstorm⟩ := stranded_ended
  obtain ⟨⟨e, hclaim⟩, -⟩ | hbatch := batch_settled_iff h
  · exact absurd (calm_of_uses (hclaim.uses claimBatch_noDelivery)) hstorm
  · exact ⟨ρ, h, hstorm, hbatch⟩

end Matchmaking
