import Matchmaking.Refinement

/-!
# What a dispatcher has done before it records an outcome

A commit of a dispatcher that counts an attempt of an event comes after the dispatcher's own claim of
the event and after its own POST; it records what the POST ended with, and the number of attempts it
decides by is the one its claim has read. Whatever a session leaves not in progress, it has given an
outcome, and has POSTed before. One session commits one claim at most.
-/

namespace Matchmaking

open ReadCommitted ReadCommitted.Triple

variable {rt : Runtime} {i : ℕ} {l : Actor} {settings : Settings} {dispatcherId : String}
  {event : CallbackEvent} {log : List LogEntry}

/-! ## The protocol -/

/-- The commit of `t` on `b` counts an attempt of the event `e`: its row `ev` becomes `ev'`. -/
structure Counts (t : Txn Row) (b : Tables) (e : UUID) (ev ev' : CallbackEventRow) : Prop where
  found : b.lookup (.callbackEvents e) = some ev
  left : (patch t.writes b).lookup (.callbackEvents e) = some ev'
  counted : ev'.attempts ≠ ev.attempts

/-- Session `i` has claimed the event `e` and POSTed it, and `o` is the outcome of that. -/
def OutcomeDue (rt : Runtime) (settings : Settings) (dispatcherId : String) (i : ℕ)
    (older : List LogEntry) (e : UUID) (o : Outcome) : Prop :=
  ∃ event error, event.eventId = e ∧
    (∃ entry ∈ older, ClaimsEvent settings dispatcherId i event entry) ∧
    (∃ entry ∈ older, PostsEvent rt settings i (.runOnce settings dispatcherId) event error entry) ∧
    OutcomeOf settings event (error.map trim) o ∧ Timely settings event o

/-- The entry commits a claim, of at least one event. -/
def IsClaim (entry : LogEntry) : Prop :=
  (∃ settings dispatcherId, entry.actor = .runOnce settings dispatcherId) ∧
    ∃ t b e row, entry.event.commit? = some (t, b) ∧
      t.writes.dlookup (.callbackEvents e) = some (some row) ∧ row.status = .inProgress

/-- The attempts that the entry counts are due after the log `older`. -/
def CountsDue (rt : Runtime) (entry : LogEntry) (older : List LogEntry) : Prop :=
  ∀ settings dispatcherId, entry.actor = .runOnce settings dispatcherId → ∀ t b,
    entry.event.commit? = some (t, b) → ∀ e ev ev', Counts t b e ev ev' →
      ∃ o, ev' = o.apply t.start ev ∧
        OutcomeDue rt settings dispatcherId entry.session older e o

/-- A commit by which the entry leaves an event not in progress gives it an outcome, and comes after a POST
of the event by the same session. -/
def EndsPosted (rt : Runtime) (entry : LogEntry) (older : List LogEntry) : Prop :=
  ∀ settings dispatcherId, entry.actor = .runOnce settings dispatcherId → ∀ t b,
    entry.event.commit? = some (t, b) → ∀ e (row : CallbackEventRow),
      t.writes.dlookup (.callbackEvents e) = some (some row) → row.status ≠ .inProgress →
        (∃ (o : Outcome) (ev : CallbackEventRow), b.lookup (.callbackEvents e) = some ev ∧
          row = o.apply t.start ev) ∧
        ∃ event error, event.eventId = e ∧
          ∃ post ∈ older, PostsEvent rt settings entry.session entry.actor event error post

/-- What the log says about dispatchers: outcomes are due to POSTs of the session's own claim, and a session
claims once. -/
structure Protocol (rt : Runtime) (log : List LogEntry) : Prop where
  due : Justified (CountsDue rt) log
  ends : Justified (EndsPosted rt) log
  single : Justified (fun entry older => IsClaim entry → ∀ entry' ∈ older, IsClaim entry' →
    entry'.session ≠ entry.session) log

/-- Session `i` has not committed anything yet, so that its next commit is its first. -/
def NoCommits (i : ℕ) (w : ServiceWorld) : Prop :=
  ∀ entry ∈ w.log, entry.session = i → entry.event.commit? = none

/-- The claim of an event is a claim. -/
theorem ClaimsEvent.isClaim {entry : LogEntry} (h : ClaimsEvent settings dispatcherId i event entry) :
    IsClaim entry := by
  obtain ⟨-, hactor, t, b, row, secret, hc, -, hwrite, -⟩ := h
  exact ⟨⟨_, _, hactor⟩, t, b, _, _, hc, hwrite, rfl⟩

/-- The claims of one session are one claim. -/
theorem Protocol.claim_eq (h : Protocol rt log) {claim claim' : LogEntry} (hmem : claim ∈ log)
    (hmem' : claim' ∈ log) (hclaim : IsClaim claim) (hclaim' : IsClaim claim')
    (hsession : claim.session = claim'.session) : claim = claim' := by
  obtain ⟨newer, older, rfl⟩ := List.append_of_mem hmem
  rcases List.mem_append.mp hmem' with hnewer | hmem'
  · obtain ⟨newest, between, rfl⟩ := List.append_of_mem hnewer
    refine absurd hsession (h.single newest claim' (between ++ claim :: older) (by simp) hclaim' claim
      ?_ hclaim)
    exact List.mem_append_right _ List.mem_cons_self
  · rcases List.mem_cons.mp hmem' with rfl | holder
    · rfl
    · exact absurd hsession.symm (h.single newer claim older rfl hclaim claim' holder hclaim')

/-- One more entry, which counts only what is due, ends only what was POSTed, and is the first claim of its
session, if it is one. -/
theorem Protocol.cons (h : Protocol rt log) {entry : LogEntry} (hdue : CountsDue rt entry log)
    (hposted : EndsPosted rt entry log)
    (hsingle : IsClaim entry → ∀ entry' ∈ log, IsClaim entry' → entry'.session ≠ entry.session) :
    Protocol rt (entry :: log) :=
  ⟨Justified.cons h.due hdue, Justified.cons h.ends hposted, Justified.cons h.single hsingle⟩

/-- Entries without a commit do not matter. -/
theorem Protocol.push (h : Protocol rt log) {entry : LogEntry} (hc : entry.event.commit? = none) :
    Protocol rt (entry :: log) := by
  refine h.cons (fun _ _ _ t b hc' => ?_) (fun _ _ _ t b hc' => ?_) ?_
  · cases hc.symm.trans hc'
  · cases hc.symm.trans hc'
  · rintro ⟨-, t, b, e, row, hc', -⟩
    cases hc.symm.trans hc'

/-! ## Its specification -/

/-- Everybody relies on the others for entries that are theirs. -/
def protocolSpec (rt : Runtime) : Spec Row Reply Exn Metric Answer Actor where
  inv w := Protocol rt w.log
  known := Past rt
  rely i _ w w' := Grows w w' ∧ Added (fun e => e.session ≠ i) w w'
  guar i _ w w' := Grows w w' ∧ Added (fun e => e.session = i) w w'
  post _ _ _ _ _ := True

/-- Entries that are no commits keep the protocol, whoever writes them. -/
theorem protocolSpec_push {w : ServiceWorld} (h : Protocol rt w.log)
    {ev : Event Row Reply Exn Metric Answer} (hev : ev.commit? = none) :
    (protocolSpec rt).guar i l w (w.push i l ev) ∧ (protocolSpec rt).inv (w.push i l ev) :=
  ⟨⟨.push .., .push ..⟩, h.push hev⟩

/-- What each actor guarantees, the others rely on, for every system of these actors. -/
theorem protocolSpec_lawful {sys : System Row Reply Exn Metric Answer Actor}
    (hsymm : ∀ l l', sys.exclusive l l' = sys.exclusive l' l) : (protocolSpec rt).Lawful sys where
  exclusive_symm := hsymm
  rely_refl _ _ w := ⟨.refl w, .refl w⟩
  rely_trans _ _ _ _ _ h h' := ⟨h.1.trans h'.1, h.2.trans h'.2⟩
  guar_rely i j _ _ _ _ hij _ _ h := by
    obtain ⟨hgrows, new, hnew, hsession⟩ := h
    exact ⟨hgrows, new, hnew, fun e he heq => hij (heq.symm.trans (hsession e he))⟩
  post_stable _ _ _ _ _ _ _ _ h := h
  tick w _ _ h := ⟨h, fun _ _ => ⟨⟨.refl _, List.suffix_refl _⟩, .refl w⟩⟩
  begun _ _ _ h := protocolSpec_push h rfl
  answer _ _ _ _ _ h _ := protocolSpec_push h rfl

/-- Every actor may move counters and ask for times at any point. -/
theorem protocolSpec_logs : (protocolSpec rt).Logs i l := by
  intro w ev hev h
  refine protocolSpec_push h.1 ?_
  cases ev <;> first | rfl | cases hev

/-- What the specification of the commits establishes can be used here. -/
theorem protocolSpec_env {T : Option (Txn Row)} {w w' : ServiceWorld}
    (h : (protocolSpec rt).env i l T w w') : (commitSpec rt).env i l T w w' where
  rely := h.rely.1
  facts := ⟨h.facts.2.story, h.facts.2.history⟩
  clock := h.clock
  kept := h.kept

/-- Established for the commits, used here. -/
theorem transferred {α : Type} {P P' : Condition} {x : Db α} {Q Q' : α → Condition}
    {F F' : Exn → Condition} (h : Triple (commitSpec rt) i l P x Q F)
    (h' : Triple (protocolSpec rt) i l P' x Q' F') :
    Triple (protocolSpec rt) i l (fun w T => P w T ∧ P' w T) x (fun a w T => Q a w T ∧ Q' a w T)
      (fun e w T => F e w T ∧ F' e w T) :=
  h.transfer (fun _ _ _ => protocolSpec_env) (fun _ h => h.history) h'

/-- A program without commits cannot break the protocol. -/
theorem harmless {α : Type} {x : Db α} (hx : x.Uses Op.NoCommit) :
    Triple (protocolSpec rt) i l (fun _ _ => True) x anything anything :=
  of_noCommit protocolSpec_logs hx

/-- What is not undone as the world grows, lasts. -/
theorem protocolSpec_lasting {C : ServiceWorld → Prop} (hC : ∀ w w', Grows w w' → C w → C w') :
    (protocolSpec rt).Lasting i l C :=
  ⟨fun w w' h _ => hC w w' h.1, fun w w' h _ => hC w w' h.1⟩

/-- Commits keep the protocol that count only what is due, end only what was POSTed, and are no second
claims. -/
theorem protocolSpec_commits {C : ServiceWorld → Txn Row → Prop}
    (hdue : ∀ w t, (protocolSpec rt).facts w → C w t →
      CountsDue rt ⟨i, l, w.clock, .commit t w.committed⟩ w.log)
    (hposted : ∀ w t, (protocolSpec rt).facts w → C w t →
      EndsPosted rt ⟨i, l, w.clock, .commit t w.committed⟩ w.log)
    (hsingle : ∀ w t, C w t → IsClaim ⟨i, l, w.clock, .commit t w.committed⟩ → NoCommits i w) :
    (protocolSpec rt).Commits i l C := by
  intro w t hfacts _ hlive hknown hC
  simp only [World.commit, hlive, Bool.false_eq_true, if_false] at hknown ⊢
  have hlegal : Legal rt l t w.committed := hknown.legal List.mem_cons_self rfl
  refine ⟨⟨⟨hlegal.persist, List.suffix_cons _ _⟩, [_], rfl, fun _ he => List.mem_singleton.mp he ▸ rfl⟩,
    Protocol.cons hfacts.1 (hdue w t hfacts hC) (hposted w t hfacts hC) fun hclaim entry' he' hclaim' hsession => ?_⟩
  obtain ⟨-, t', b', e, row, hc, -⟩ := hclaim'
  cases hc.symm.trans (hsingle w t hC hclaim entry' he' hsession)

/-- Who is no dispatcher may commit anything. -/
theorem protocolSpec_others (hl : ∀ settings d, l ≠ .runOnce settings d) :
    (protocolSpec rt).Commits i l fun _ _ => True :=
  protocolSpec_commits (fun _ _ _ _ settings d h => absurd h (hl settings d))
    (fun _ _ _ _ settings d h => absurd h (hl settings d)) fun _ _ _ ⟨⟨settings, d, h⟩, _⟩ => absurd h (hl settings d)

/-! ## Dispatchers keep it -/

section Outcomes

/-- What a session knows about an event it has delivered. -/
def Delivered (rt : Runtime) (settings : Settings) (dispatcherId : String) (i : ℕ)
    (event : CallbackEvent) (error : Option String) (w : ServiceWorld) : Prop :=
  EventKnown event w.committed ∧
    (∃ entry ∈ w.log, ClaimsEvent settings dispatcherId i event entry) ∧
    Posted rt settings i (.runOnce settings dispatcherId) event error w

/-- That an event was claimed and POSTed with this result stays in the log. -/
theorem delivered_lasting (error : Option String) :
    (protocolSpec rt).Lasting i l (Delivered rt settings dispatcherId i event error) :=
  protocolSpec_lasting fun _ _ h hd => ⟨hd.1.persist h.persist, h.logged hd.2.1, h.logged hd.2.2⟩

/-- The outcomes of one kind are due after a delivery that ended with `error`, or count nothing. -/
def Fits (settings : Settings) (event : CallbackEvent) (error : Option String) (p : Outcome → Prop) :
    Prop :=
  ∀ o, p o → OutcomeOf settings event (error.map trim) o ∧ Timely settings event o ∨
    ∀ now ev, (o.apply now ev).attempts = ev.attempts

/-- What is written is the outcome, applied to the committed row of the event. -/
theorem Recorded.write {p : Outcome → Prop} {w : ServiceWorld} {t : Txn Row}
    (h : Recorded event p w (some t)) {e : UUID} {row : CallbackEventRow}
    (hwrite : t.writes.dlookup (.callbackEvents e) = some (some row)) :
    e = event.eventId ∧ ∃ o ev, p o ∧ w.committed.lookup (.callbackEvents e) = some ev ∧
      row = o.apply t.start ev := by
  obtain ⟨o, now, σs, ev, m, ho, t', ⟨⟩, hhas⟩ := h
  obtain rfl := hhas.start
  by_cases he : e = event.eventId
  · subst he
    obtain ⟨hnew, hold⟩ := hhas.written (.callbackEvents event.eventId) (fun h => h) _ _
      (o.dlookup_event ..)
    cases hwrite.symm.trans hnew
    exact ⟨rfl, o, ev, ho, hold, rfl⟩
  · have hnone := hhas.unwritten (.callbackEvents e) (fun h => h)
      (o.dlookup_eq_none _ _ _ _ (by simp [he]) (by simp))
    cases hwrite.symm.trans hnone

/-- The commit of an outcome that is due. -/
theorem commit_due {p : Outcome → Prop} {error : Option String}
    (hp : Fits settings event error p) :
    Triple (protocolSpec rt) i (.runOnce settings dispatcherId)
      (fun w T => Recorded event p w T ∧ Delivered rt settings dispatcherId i event error w)
      (perform .commit) (fun _ => Idle) fun _ => Idle := by
  have hstable : Stable (protocolSpec rt) i (.runOnce settings dispatcherId) (Recorded event p) :=
    .exists fun _ => .exists fun _ => .exists fun _ => .exists fun _ => .exists fun _ =>
      Stable.and (.own fun _ => _) Stage.stable
  refine stage_commit (hstable.and (delivered_lasting error).stable) (fun _ _ _ h => h)
    (protocolSpec_commits ?_ ?_ ?_)
  · rintro w t - ⟨⟨o, now, σs, ev₀, m, ho, t', ⟨⟩, hhas⟩, hknown, hclaim, hposted⟩
    rintro _ _ ⟨⟩ _ _ ⟨⟩ e ev ev' h
    obtain rfl := hhas.start
    by_cases he : e = event.eventId
    · subst he
      obtain ⟨hold, hnew⟩ := hhas.changed.lookup (.callbackEvents event.eventId) (fun h => h)
        (o.dlookup_event ..)
      obtain rfl := Option.some.inj (h.found.symm.trans hold)
      obtain rfl := Option.some.inj (h.left.symm.trans hnew)
      obtain hof | hsame := hp o ho
      · exact ⟨o, rfl, event, error, rfl, hclaim, hposted, hof⟩
      · exact absurd (hsame t.start ev) h.counted
    · have hframe := hhas.changed.frame (.callbackEvents e) (fun h => h)
        (o.dlookup_eq_none _ _ _ _ (by simp [he]) (by simp))
      rw [h.left, h.found] at hframe
      exact absurd (congrArg CallbackEventRow.attempts (Option.some.inj hframe)) h.counted
  · rintro w t - ⟨hrecorded, -, -, hposted⟩ _ _ ⟨⟩ _ _ ⟨⟩ e row hwrite -
    obtain ⟨he, o, ev, -, hfound, hrow⟩ := hrecorded.write hwrite
    exact ⟨⟨o, ev, hfound, hrow⟩, event, error, he.symm, hposted⟩
  · rintro w t ⟨hrecorded, -⟩ ⟨-, _, _, e, row, ⟨⟩, hwrite, hst⟩
    -- no outcome leaves an event in progress
    obtain ⟨-, o, ev, -, -, rfl⟩ := hrecorded.write hwrite
    exact absurd hst (o.status_apply t.start ev)

/-- A transaction that records an outcome that is due. -/
theorem transaction_due {α : Type} {x : Db α} {p : Outcome → Prop} {error : Option String}
    (hp : Fits settings event error p) (hu : x.Uses Op.NoCommit)
    (hx : ∀ now, Triple (commitSpec rt) i (.runOnce settings dispatcherId)
      (fun w T => Pending now [] [] w T ∧ EventKnown event w.committed) x
      (fun _ => Recorded event p) anything) :
    Triple (protocolSpec rt) i (.runOnce settings dispatcherId)
      (fun w T => Idle w T ∧ Delivered rt settings dispatcherId i event error w) (transaction x)
      (fun _ => Idle) anything := by
  refine Triple.transaction_outer (delivered_lasting error) (fun now => ?_) fun _ => commit_due hp
  have hbody := transferred (hx now) (harmless hu)
  refine any (retain (delivered_lasting error) (hbody.conseq ?_ (fun _ _ _ h => h.1) fun _ _ _ h => h))
  exact fun w T h => ⟨⟨h.1, h.2.1⟩, trivial⟩

/-- The UPDATE of the match does not commit. -/
theorem setMatchStatus_noCommit {matchId : UUID} {status : MatchStatus} :
    (setMatchStatus matchId status).Uses Op.NoCommit :=
  .bind (.bind (.perform trivial) fun _ => .ite (fun _ => .perform trivial) fun _ => .pure _)
    fun _ => .pure _

theorem updateEvent_noCommit {eventId : UUID} {set : Time → CallbackEventRow → CallbackEventRow} :
    (updateEvent eventId set).Uses Op.NoCommit :=
  .bind (.bind (.perform trivial) fun _ => .ite (fun _ => .perform trivial) fun _ => .pure _)
    fun _ => .pure _

/-- An outcome `delivered` is committed only for an event that the session has claimed and POSTed with
success. -/
theorem markDelivered_due :
    Triple (protocolSpec rt) i (.runOnce settings dispatcherId)
      (fun w T => Idle w T ∧ Delivered rt settings dispatcherId i event none w)
      (markDelivered event) (fun _ => Idle) anything := by
  refine transaction_due (fun o ho => .inl ⟨ho, fun _ _ h => ?_⟩)
    (.bind setMatchStatus_noCommit fun _ => updateEvent_noCommit) markDelivered_body
  cases ho.symm.trans h

/-- A failed attempt is committed only after a POST that has failed, with its error. -/
theorem markFailedAttempt_due {error : String} :
    Triple (protocolSpec rt) i (.runOnce settings dispatcherId)
      (fun w T => Idle w T ∧ Delivered rt settings dispatcherId i event (some error) w)
      (markFailedAttempt event settings (trim error)) (fun _ => Idle) anything := by
  refine transaction_due (fun _ ho => .inl ho) (.ite (fun _ => ?_) fun _ => ?_) markFailedAttempt_body
  · exact .bind setMatchStatus_noCommit fun _ => .bind updateEvent_noCommit fun _ => .pure _
  · exact .bind (.bind (.perform trivial) fun _ => .pure _) fun _ =>
      .bind updateEvent_noCommit fun _ => .pure _

/-- Giving a claim back counts nothing. -/
theorem releaseClaim_due (error : Option String) {text : Option String} :
    Triple (protocolSpec rt) i (.runOnce settings dispatcherId)
      (fun w T => Idle w T ∧ Delivered rt settings dispatcherId i event error w)
      (releaseClaim event text) (fun _ => Idle) anything := by
  refine transaction_due (fun o ho => .inr fun now ev => ?_) updateEvent_noCommit releaseClaim_body
  rw [ho]
  rfl

/-- A connection on which one transaction has been committed already. -/
theorem connection_due {α : Type} {x : Db α} {error : Option String}
    (hx : Triple (protocolSpec rt) i l
      (fun w T => Idle w T ∧ Delivered rt settings dispatcherId i event error w) x
      (fun _ => Idle) anything) :
    Triple (protocolSpec rt) i l
      (fun w T => Idle w T ∧ Delivered rt settings dispatcherId i event error w)
      (withConnection x) (fun _ => Idle) fun _ => Idle :=
  Triple.withConnection protocolSpec_logs (delivered_lasting error) hx fun _ => Triple.commit_idle

/-- One try commits the outcome that the POST has had, or ends without a transaction. -/
theorem persistOnce_due (error : Option String) :
    Triple (protocolSpec rt) i (.runOnce settings dispatcherId)
      (fun w T => Idle w T ∧ Delivered rt settings dispatcherId i event error w)
      (persistOnce event settings (error.map trim)) (fun _ => Idle) fun _ => Idle := by
  cases error with
  | none => exact connection_due (.bind markDelivered_due fun _ => .pure _ fun _ _ h => h)
  | some error => exact connection_due markFailedAttempt_due

/-- Later tries commit the same outcome, since the event and the error are those of the first. -/
theorem persistTries_due {F : Exn → Condition} (error : Option String) (n : ℕ) :
    Triple (protocolSpec rt) i (.runOnce settings dispatcherId)
      (fun w T => Idle w T ∧ Delivered rt settings dispatcherId i event error w)
      (persistTries event settings (error.map trim) n)
      (fun _ w T => Idle w T ∧ Delivered rt settings dispatcherId i event error w) F := by
  induction n with
  | zero => exact .pure _ fun _ _ h => h
  | succ n ih =>
    have hattempt : Triple (protocolSpec rt) i (.runOnce settings dispatcherId)
        (fun w T => Idle w T ∧ Delivered rt settings dispatcherId i event error w)
        (attempt (persistOnce event settings (error.map trim)))
        (fun _ w T => Idle w T ∧ Delivered rt settings dispatcherId i event error w) F := by
      refine (Triple.attempt (retain (delivered_lasting error) (persistOnce_due error))).post ?_
      rintro (e | finalFailed) w T h <;> exact h
    refine .bind hattempt ?_
    rintro (e | finalFailed)
    · exact .ite (fun _ => .pure _ fun _ _ h => h) fun _ => ih
    · exact .pure _ fun _ _ h => h

/-- When all tries fail the claim is given back, which is no attempt. -/
theorem persistDeliveryOutcome_due (error : Option String) :
    Triple (protocolSpec rt) i (.runOnce settings dispatcherId)
      (fun w T => Idle w T ∧ Delivered rt settings dispatcherId i event error w)
      (persistDeliveryOutcome event settings (error.map trim)) (fun _ => Idle) fun _ => Idle := by
  refine .bind (persistTries_due error deadlockMaxRetries) ?_
  rintro (e | finalFailed)
  · exact .bind (connection_due (releaseClaim_due error)) fun _ => .throw e fun _ _ h => h
  · exact .pure _ fun _ _ h => h.1

end Outcomes

/-! ## One round -/

/-- Other sessions do not take the batch away from what is known. -/
theorem protocolSpec_batch (events : List CallbackEvent) :
    (protocolSpec rt).Lasting i l (Batch settings dispatcherId i events) :=
  protocolSpec_lasting fun _ _ h hb =>
    ⟨fun event he => (hb.1 event he).persist h.persist, fun event he => h.logged (hb.2 event he)⟩

/-- The POST is made between transactions, so it commits nothing. -/
theorem deliverEvent_noCommit : (deliverEvent rt event settings).Uses Op.NoCommit := by
  refine .bind (.bind (.perform trivial) fun _ => .pure _) fun _ => .bind (.perform trivial) ?_
  rintro (statusCode | msg)
  · exact .ite (fun _ => .pure _) fun _ => .pure _
  · exact .pure _

/-- For each event of the batch in turn, what is committed is due to its own POST. -/
theorem deliverEvents_due (events : List CallbackEvent) :
    Triple (protocolSpec rt) i (.runOnce settings dispatcherId)
      (fun w T => Idle w T ∧ Batch settings dispatcherId i events w)
      (deliverEvents rt settings events) (fun _ => Idle) anything := by
  induction events with
  | nil => exact .pure _ fun _ _ h => h.1
  | cons event events ih =>
    have hrest : (protocolSpec rt).Lasting i (.runOnce settings dispatcherId)
        (Batch settings dispatcherId i events) := protocolSpec_batch events
    have hdeliver : Triple (protocolSpec rt) i (.runOnce settings dispatcherId)
        (fun w T => Idle w T ∧ Batch settings dispatcherId i (event :: events) w)
        (deliverEvent rt event settings) (fun error w T => (Idle w T ∧
          Delivered rt settings dispatcherId i event error w) ∧ Batch settings dispatcherId i events w)
        anything := by
      have hposted := transferred (@deliverEvent_posted rt i (.runOnce settings dispatcherId) settings
        Idle Idle.stable Idle.unlogged event) (harmless deliverEvent_noCommit)
      refine (keep (protocolSpec_batch (event :: events)) (any hposted)).conseq
        (fun _ _ h => ⟨⟨h.1, trivial⟩, h.2⟩) ?_ fun _ _ _ h => h
      rintro error w T ⟨⟨⟨hidle, hposted⟩, -⟩, hknown, hclaimed⟩
      exact ⟨⟨hidle, hknown event List.mem_cons_self, hclaimed event List.mem_cons_self, hposted⟩,
        fun e he => hknown e (List.mem_cons_of_mem _ he),
        fun e he => hclaimed e (List.mem_cons_of_mem _ he)⟩
    refine .bind hdeliver fun error => .bind (Triple.attempt (frame hrest
      (persistDeliveryOutcome_due error))) ?_
    rintro (e | finalFailed)
    · exact ih
    · exact .bind (keep hrest (Triple.record protocolSpec_logs Idle.stable Idle.unlogged)) fun _ => ih

/-- The commits of others are not this session's. -/
theorem noCommits_stable : Stable (protocolSpec rt) i l fun w _ => NoCommits i w := by
  rintro w w' _ henv h e he hsession
  obtain ⟨new, hnew, hothers⟩ := henv.rely.2
  rw [hnew] at he
  rcases List.mem_append.mp he with he | he
  · exact absurd hsession (hothers e he)
  · exact h e he hsession

/-- Entries that are no commits leave it without one. -/
theorem noCommits_push (w : ServiceWorld) (ev : Event Row Reply Exn Metric Answer) (hev : ev.IsQuiet)
    (h : NoCommits i w) : NoCommits i (w.push i l ev) := by
  intro e he hsession
  rcases List.mem_cons.mp he with rfl | he
  · cases ev <;> first | rfl | cases hev
  · exact h e he hsession

/-- A session that has just begun has committed nothing. -/
theorem noCommits_fresh {w : ServiceWorld} (h : w.Fresh i l) : NoCommits i w := by
  obtain ⟨older, hlog, hothers⟩ := h
  intro e he hsession
  rw [hlog] at he
  rcases List.mem_cons.mp he with rfl | he
  · rfl
  · exact absurd hsession (hothers e he)

theorem claimRows_noCommit {secret : String → Option String} (ids : List UUID) :
    (claimRows settings dispatcherId secret ids).Uses Op.NoCommit := by
  induction ids with
  | nil => exact .pure _
  | cons id ids ih => exact .bind (.perform trivial) fun _ => .bind ih fun _ => .pure _

/-- The claim is made in one transaction, whose COMMIT comes after it. -/
theorem claimCallbackEvents_noCommit :
    (claimCallbackEvents dispatcherId settings).Uses Op.NoCommit :=
  .bind (.perform trivial) fun _ => .bind (.perform trivial) fun _ =>
    .bind (claimRows_noCommit _) fun _ => .bind (.perform trivial) fun _ => .pure _

/-- The commit of the first claim, which counts no attempts and leaves its events in progress. -/
theorem commit_claim {events : List CallbackEvent} :
    Triple (protocolSpec rt) i (.runOnce settings dispatcherId)
      (fun w T => ClaimReady settings dispatcherId events w T ∧ NoCommits i w)
      (perform .commit) (fun _ w T => Idle w T ∧ Batch settings dispatcherId i events w) anything := by
  have hcommit : Triple (protocolSpec rt) i (.runOnce settings dispatcherId)
      (fun w T => (∃ ids, Claiming settings dispatcherId ids w T) ∧ NoCommits i w)
      (perform .commit) (fun _ => Idle) fun _ => Idle := by
    refine stage_commit (Stable.and ?_ noCommits_stable) (fun _ _ _ h => h)
      (protocolSpec_commits ?_ ?_ fun _ _ h _ => h.2)
    · rintro w w' T henv ⟨ids, t, tie, σ, ht, hlive, hreads, hids, hfollows⟩
      exact ⟨ids, t, tie, σ, ht, hlive, hreads, hids, Follows.stable _ w w' T henv hfollows⟩
    · rintro w t - ⟨⟨ids, _, tie, σ, ⟨⟩, -, -, -, hfollows⟩, -⟩ _ _ ⟨⟩ _ _ ⟨⟩ e ev ev' h
      have hview := claimWrites_view hfollows (.callbackEvents e)
      rw [h.found] at hview
      rcases hview.imp h.left.symm.trans id with hsame | ⟨-, a, ha, hclaimed⟩
      · exact absurd (congrArg CallbackEventRow.attempts (Option.some.inj hsame)) h.counted
      · cases ha
        exact absurd (congrArg CallbackEventRow.attempts
          (Option.some.inj (h.left.symm.trans hclaimed))) h.counted
    · rintro w t - ⟨⟨ids, _, tie, σ, ⟨⟩, -, -, -, hfollows⟩, -⟩ _ _ ⟨⟩ _ _ ⟨⟩ e row hwrite hst
      -- every event that a claim writes is in progress
      obtain ⟨-, a, -, hclaimed⟩ := hfollows _ rfl _ (.inl rfl) (.callbackEvents e) _ hwrite
      cases hclaimed
      exact absurd rfl hst
  exact (transferred commit_claiming hcommit).conseq (fun _ _ h => ⟨h.1, h.1.1, h.2⟩)
    (fun _ _ _ h => h.1) fun _ _ _ _ => trivial

/-- The first commit of a session is its claim, and it makes the batch known. -/
theorem claimBatch_due :
    Triple (protocolSpec rt) i (.runOnce settings dispatcherId)
      (fun w T => Idle w T ∧ NoCommits i w) (claimBatch settings dispatcherId)
      (fun events w T => Idle w T ∧ Batch settings dispatcherId i events w) anything := by
  have hquiet : ∀ {α : Type} {x : Db α}, x.Uses Op.NoCommit → Triple (protocolSpec rt) i
      (.runOnce settings dispatcherId) (fun w _ => NoCommits i w) x (fun _ w _ => NoCommits i w)
      fun _ w _ => NoCommits i w :=
    fun hx => quiet protocolSpec_logs noCommits_stable noCommits_push hx
  have hconnect : Client.Uses Op.NoCommit (ask .getConnection) := .perform trivial
  have hask : Triple (protocolSpec rt) i (.runOnce settings dispatcherId)
      (fun w T => Idle w T ∧ NoCommits i w) (ask .getConnection)
      (fun _ w T => Idle w T ∧ NoCommits i w) fun _ => Idle :=
    ((Triple.ask protocolSpec_logs Idle.stable Idle.unlogged).and (hquiet hconnect)).conseq
      (fun _ _ h => h) (fun _ _ _ h => h) fun _ _ _ h => h.1
  have hclaim := transferred (@claimCallbackEvents_triple rt i (.runOnce settings dispatcherId)
    settings dispatcherId) (hquiet claimCallbackEvents_noCommit)
  have hcommit : ∀ events, Triple (protocolSpec rt) i (.runOnce settings dispatcherId)
      (fun w T => Idle w T ∧ Batch settings dispatcherId i events w) (perform .commit)
      (fun _ w T => Idle w T ∧ Batch settings dispatcherId i events w) fun _ => Idle := fun events =>
    (frame (protocolSpec_batch events) Triple.commit_idle).conseq (fun _ _ h => h) (fun _ _ _ h => h)
      fun _ _ _ h => h.1
  refine (Triple.withConnection_after hask ?_ hcommit fun _ => Triple.giveUp).any
  exact .bind hclaim.any fun events => .bind commit_claim fun _ => .pure _ fun _ _ h => h

/-- One iteration of a dispatcher: a single claim, then for each event of the batch an outcome that is due. -/
theorem runOnce_due :
    Triple (protocolSpec rt) i (.runOnce settings dispatcherId)
      (fun w T => Idle w T ∧ NoCommits i w) (runOnce rt settings dispatcherId) (fun _ => Idle)
      anything :=
  .bind claimBatch_due fun events => .bind (keep (protocolSpec_batch events)
    (Triple.record protocolSpec_logs Idle.stable Idle.unlogged)) fun _ =>
    .bind (deliverEvents_due events) fun _ => .pure _ fun _ _ h => h

/-- Every actor keeps the protocol. -/
theorem program_due (l : Actor) :
    Triple (protocolSpec rt) i l (fun w T => Idle w T ∧ NoCommits i w) (program rt l) anything
      anything := by
  have hother : (∀ settings d, l ≠ .runOnce settings d) → Triple (protocolSpec rt) i l
      (fun w T => Idle w T ∧ NoCommits i w) (program rt l) anything anything := fun hl =>
    of_commits protocolSpec_logs (protocolSpec_others hl)
  cases l with
  | runOnce settings dispatcherId => exact .bind runOnce_due fun _ => .pure _ fun _ _ _ => trivial
  | _ => exact hother fun _ _ h => by cases h

/-- **The protocol of the dispatchers.** It is kept in every run. -/
theorem protocol {exclusive : Actor → Actor → Bool}
    (hsymm : ∀ l l', exclusive l l' = exclusive l' l) {clock : Time} {s : ServiceState}
    (hs : (actors rt exclusive).Reachable (emptyState clock) s) : Protocol rt s.world.log := by
  refine (Spec.sound (protocolSpec_lawful hsymm) (fun i l w _ hfresh => ?_)
    ⟨Justified.nil, Justified.nil, Justified.nil⟩ rfl rfl (fun _ h => past_of_reachable hsymm h) hs).inv
  exact wp_mono (fun _ _ _ _ => trivial) _ w none
    ((program_due l).sound w none ⟨rfl, noCommits_fresh hfresh⟩)

end Matchmaking
