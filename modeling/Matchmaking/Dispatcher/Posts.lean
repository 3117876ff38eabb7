import Matchmaking.CallbackBatches
import Matchmaking.Dispatcher.Protocol

/-!
# The POSTs of a dispatcher

A session POSTs only events that it has claimed before.
-/

namespace Matchmaking

open ReadCommitted ReadCommitted.Triple

variable {rt : Runtime} {i : ℕ} {l : Actor} {settings : Settings} {dispatcherId : String}
  {event : CallbackEvent} {log : List LogEntry}

/-- The entry is a POST of the event `e`, by the header that names the event. -/
def posts (e : UUID) (entry : LogEntry) : Bool :=
  match entry.event with
  | .call (.post _ _ headers _) _ => headers.contains ("X-PMS-Event-Id", uuidText e)
  | _ => false

/-- The POST of an event is one of that event only. -/
theorem posts_postOf {entry : LogEntry} {timestamp : String} {reply : Except Exn HttpResult}
    (h : entry.event = .call (postOf rt settings event timestamp) reply) {e : UUID} :
    posts e entry = true ↔ e = event.eventId := by
  unfold posts
  rw [h]
  have hheader : (headersAt rt event (encodePayload event.payload) timestamp).contains
      ("X-PMS-Event-Id", uuidText e) = true ↔ uuidText e = uuidText event.eventId := by
    simp [headersAt]
  exact hheader.trans ⟨uuidText_inj, congrArg uuidText⟩

/-- The entry, if it is a POST of a dispatcher, is one of an event that its session has claimed in the
log `older`, and has not POSTed in it. -/
def PostDue (rt : Runtime) (entry : LogEntry) (older : List LogEntry) : Prop :=
  ∀ settings dispatcherId, entry.actor = .runOnce settings dispatcherId →
    ∀ url body headers timeout reply, entry.event = .call (.post url body headers timeout) reply →
      ∃ event timestamp, postOf rt settings event timestamp = .post url body headers timeout ∧
        (∃ claim ∈ older, ClaimsEvent settings dispatcherId entry.session event claim) ∧
        ∀ post ∈ older, post.session = entry.session → posts event.eventId post = false

/-- The entry is no POST, by whomever it was logged. -/
def NoPost (entry : LogEntry) : Prop :=
  ∀ url body headers timeout reply, entry.event ≠ .call (.post url body headers timeout) reply

theorem NoPost.due {entry : LogEntry} (h : NoPost entry) (older : List LogEntry) :
    PostDue rt entry older :=
  fun _ _ _ _ _ _ _ _ hpost => (h _ _ _ _ _ hpost).elim

theorem NoPost.posts {entry : LogEntry} (h : NoPost entry) (e : UUID) : posts e entry = false := by
  unfold Matchmaking.posts
  split
  · next hevent => exact (h _ _ _ _ _ hevent).elim
  · rfl

theorem noPost_of_commit {entry : LogEntry} {c : Txn Row × Tables}
    (h : entry.event.commit? = some c) : NoPost entry := by
  intro url body headers timeout reply hevent
  rw [hevent] at h
  cases h

/-- Session `i` has not POSTed the events of which `p` holds. -/
def Unposted (i : ℕ) (p : UUID → Prop) (w : ServiceWorld) : Prop :=
  ∀ post ∈ w.log, post.session = i → ∀ e, p e → posts e post = false

theorem Unposted.mono {p q : UUID → Prop} {w : ServiceWorld} (h : Unposted i p w)
    (hpq : ∀ e, q e → p e) : Unposted i q w :=
  fun post hpost hsession e he => h post hpost hsession e (hpq e he)

theorem Unposted.cons {p : UUID → Prop} {w w' : ServiceWorld} (h : Unposted i p w) {entry : LogEntry}
    (hlog : w'.log = entry :: w.log) (hentry : ∀ e, p e → posts e entry = false) :
    Unposted i p w' := by
  intro post hpost hsession e he
  rw [hlog] at hpost
  rcases List.mem_cons.mp hpost with rfl | hpost
  · exact hentry e he
  · exact h post hpost hsession e he

theorem unposted_fresh {p : UUID → Prop} {w : ServiceWorld} (h : w.Fresh i l) : Unposted i p w := by
  obtain ⟨older, hlog, hothers⟩ := h
  intro post hpost hsession e _
  rw [hlog] at hpost
  rcases List.mem_cons.mp hpost with rfl | hpost
  · rfl
  · exact absurd hsession (hothers post hpost)

/-! ## Its specification -/

/-- The POSTs of dispatchers are due; everybody relies on the others for entries that are theirs. -/
def postSpec (rt : Runtime) : Spec Row Reply Exn Metric Answer Actor where
  inv w := Justified (PostDue rt) w.log
  known := Past rt
  rely i _ w w' := Grows w w' ∧ Added (fun e => e.session ≠ i) w w'
  guar i _ w w' := Grows w w' ∧ Added (fun e => e.session = i) w w'
  post _ _ _ _ _ := True

theorem postSpec_push {w : ServiceWorld} (h : Justified (PostDue rt) w.log)
    {ev : Event Row Reply Exn Metric Answer} (hev : PostDue rt ⟨i, l, w.clock, ev⟩ w.log) :
    (postSpec rt).guar i l w (w.push i l ev) ∧ (postSpec rt).inv (w.push i l ev) :=
  ⟨⟨.push .., .push ..⟩, h.cons hev⟩

theorem postSpec_lawful {sys : System Row Reply Exn Metric Answer Actor}
    (hsymm : ∀ l l', sys.exclusive l l' = sys.exclusive l' l) : (postSpec rt).Lawful sys where
  exclusive_symm := hsymm
  rely_refl _ _ w := ⟨.refl w, .refl w⟩
  rely_trans _ _ _ _ _ h h' := ⟨h.1.trans h'.1, h.2.trans h'.2⟩
  guar_rely i j _ _ _ _ hij _ _ h := by
    obtain ⟨hgrows, new, hnew, hsession⟩ := h
    exact ⟨hgrows, new, hnew, fun e he heq => hij (heq.symm.trans (hsession e he))⟩
  post_stable _ _ _ _ _ _ _ _ h := h
  tick w _ _ h := ⟨h, fun _ _ => ⟨⟨.refl _, List.suffix_refl _⟩, .refl w⟩⟩
  begun _ _ _ h := postSpec_push h (NoPost.due (fun _ _ _ _ _ h => by cases h) _)
  answer _ _ _ _ _ h _ := postSpec_push h (NoPost.due (fun _ _ _ _ _ h => by cases h) _)

/-- What the specification of the commits establishes can be used here. -/
theorem postSpec_env {T : Option (Txn Row)} {w w' : ServiceWorld}
    (h : (postSpec rt).env i l T w w') : (commitSpec rt).env i l T w w' where
  rely := h.rely.1
  facts := ⟨h.facts.2.story, h.facts.2.history⟩
  clock := h.clock
  kept := h.kept

/-- What is not undone as the world grows, lasts. -/
theorem postSpec_lasting {C : ServiceWorld → Prop} (hC : ∀ w w', Grows w w' → C w → C w') :
    (postSpec rt).Lasting i l C :=
  ⟨fun w w' h _ => hC w w' h.1, fun w w' h _ => hC w w' h.1⟩

theorem unposted_stable {p : UUID → Prop} :
    Stable (postSpec rt) i l fun w _ => Unposted i p w := by
  rintro w w' _ henv h post hpost hsession e he
  obtain ⟨new, hnew, hothers⟩ := henv.rely.2
  rw [hnew] at hpost
  rcases List.mem_append.mp hpost with hpost | hpost
  · exact absurd hsession (hothers post hpost)
  · exact h post hpost hsession e he

/-- Commits are no POSTs. -/
theorem postSpec_commits : (postSpec rt).Commits i l fun _ _ => True := by
  intro w t hfacts _ hlive hknown _
  simp only [World.commit, hlive, Bool.false_eq_true, if_false] at hknown ⊢
  have hlegal : Legal rt l t w.committed := hknown.legal List.mem_cons_self rfl
  refine ⟨⟨⟨hlegal.persist, List.suffix_cons _ _⟩, [_], rfl, fun _ he => ?_⟩,
    Justified.cons hfacts.1 (NoPost.due (noPost_of_commit rfl) _)⟩
  rw [List.mem_singleton.mp he]

/-- Who is no dispatcher may do anything. -/
theorem postSpec_others (hl : ∀ settings d, l ≠ .runOnce settings d) : (postSpec rt).Logs i l :=
  fun _ _ _ hfacts => postSpec_push hfacts.1 fun settings d h => absurd h (hl settings d)

/-- A part of a program without deliveries makes no POST. -/
theorem undelivered {α : Type} {x : Db α} (hx : x.Uses NoDelivery) (p : UUID → Prop) :
    Triple (postSpec rt) i l (fun w _ => Unposted i p w) x (fun _ w _ => Unposted i p w)
      (fun _ w _ => Unposted i p w) := by
  refine of_ops unposted_stable
    (fun {β o locked c w w' T T' r} ho hfacts hturn hexec hknown hw => ?_) hx
  obtain rfl | ⟨t, rfl, hlive, rfl, -⟩ | ⟨ev, hev, rfl⟩ := exec_world hexec
  · exact ⟨.inl rfl, hw⟩
  · refine ⟨.inr (postSpec_commits w t hfacts (hturn.opened t rfl) hlive hknown trivial), ?_⟩
    have hlog : (w.commit i l t).log = ⟨i, l, w.clock, .commit t w.committed⟩ :: w.log := by
      simp only [World.commit, hlive, Bool.false_eq_true, if_false]
      rfl
    exact hw.cons hlog fun e _ => NoPost.posts (noPost_of_commit rfl) e
  · have hquiet : NoPost ⟨i, l, w.clock, ev⟩ := by
      intro url body headers timeout reply h
      -- the call that is logged is the operation itself
      obtain ⟨new, hlog, -, hlogged, -⟩ := exec_logged hexec
      obtain rfl : new = [⟨i, l, w.clock, ev⟩] := List.append_cancel_right hlog.symm
      obtain ⟨o', ho', hcall⟩ := List.mem_filterMap.mp
        ((hlogged _ _).mpr ⟨_, List.mem_cons_self, rfl, h⟩)
      obtain rfl := List.mem_singleton.mp ho'
      cases o <;> simp only [Exchange.call?, Option.some.injEq, Sigma.mk.injEq, reduceCtorEq] at hcall
      obtain ⟨rfl, -⟩ := hcall
      cases ho
    exact ⟨.inr (postSpec_push hfacts.1 (hquiet.due _)), hw.cons rfl fun e _ => hquiet.posts e⟩

/-- Established for the commits, used here. -/
theorem claimed_undelivered {α : Type} {P : Condition} {x : Db α} {Q : α → Condition} {F : Exn → Condition}
    (h : Triple (commitSpec rt) i l P x Q F) (hx : x.Uses NoDelivery) (p : UUID → Prop) :
    Triple (postSpec rt) i l (fun w T => P w T ∧ Unposted i p w) x
      (fun a w T => Q a w T ∧ Unposted i p w) (fun e w T => F e w T ∧ Unposted i p w) :=
  h.transfer (fun _ _ _ => postSpec_env) (fun _ h => h.history) (undelivered hx p)

/-! ## Dispatchers keep it -/

theorem postSpec_claimed (events : List CallbackEvent) :
    (postSpec rt).Lasting i l (Claimed settings dispatcherId i events) :=
  postSpec_lasting fun _ _ h hb event he => h.logged (hb event he)

/-- A claimed event may be POSTed once. -/
theorem deliverEvent_due {p : UUID → Prop} (hp : p event.eventId) :
    Triple (postSpec rt) i (.runOnce settings dispatcherId)
      (fun w _ => Unposted i p w ∧ Claimed settings dispatcherId i [event] w)
      (deliverEvent rt event settings)
      (fun _ w _ => Unposted i (fun e => p e ∧ e ≠ event.eventId) w) anything := by
  have hstable : Stable (postSpec rt) i (.runOnce settings dispatcherId) fun w _ =>
      Unposted i p w ∧ Claimed settings dispatcherId i [event] w :=
    unposted_stable.and (postSpec_claimed [event]).stable
  -- building the headers reads the clock and POSTs nothing
  have hclock : Triple (postSpec rt) i (.runOnce settings dispatcherId)
      (fun w _ => Unposted i p w ∧ Claimed settings dispatcherId i [event] w)
      (buildHeaders rt event (encodePayload event.payload)) (fun headers w _ =>
        (∃ timestamp, headers = headersAt rt event (encodePayload event.payload) timestamp) ∧
          Unposted i p w ∧ Claimed settings dispatcherId i [event] w) anything := by
    have hquiet : ∀ {w : ServiceWorld} {y : Except Exn Time},
        NoPost ⟨i, .runOnce settings dispatcherId, w.clock, .call .wallClock y⟩ :=
      fun _ _ _ _ _ h => by cases h
    refine .bind (Triple.call hstable
      (fun w T y hfacts _ => postSpec_push hfacts.1 (hquiet.due _)) ?_) fun now => .pure _
        fun _ _ h => ⟨⟨_, rfl⟩, h⟩
    rintro w T (e | y) - h
    · trivial
    · refine ⟨h.1.cons rfl fun e _ => hquiet.posts e, fun e he => ?_⟩
      exact (h.2 e he).imp fun _ h => ⟨List.mem_cons_of_mem _ h.1, h.2⟩
  refine .bind hclock fun headers => .pure_pre ?_
  rintro ⟨timestamp, rfl⟩
  -- the POST is due, since the session has POSTed no event of `p`; after it this event is none of them
  have hpost : Triple (postSpec rt) i (.runOnce settings dispatcherId)
      (fun w _ => Unposted i p w ∧ Claimed settings dispatcherId i [event] w)
      (ask (postOf rt settings event timestamp))
      (fun _ w _ => Unposted i (fun e => p e ∧ e ≠ event.eventId) w) anything := by
    refine Triple.call hstable (fun w T y hfacts h => postSpec_push hfacts.1 ?_) ?_
    · rintro _ _ ⟨⟩ url body headers timeout reply hcall
      refine ⟨event, timestamp, ?_, h.2 event List.mem_cons_self, fun post hpost hsession =>
        h.1 post hpost hsession event.eventId hp⟩
      cases hcall
      rfl
    · rintro w T (e | y) - h
      · trivial
      · refine (h.1.mono fun e he => he.1).cons rfl fun e he => ?_
        rw [Bool.eq_false_iff, Ne, posts_postOf rfl]
        exact he.2
  refine .bind hpost ?_
  rintro (statusCode | msg)
  · exact .ite (fun _ => .pure _ fun _ _ h => h) fun _ => .pure _ fun _ _ h => h
  · exact .pure _ fun _ _ h => h

theorem persistDeliveryOutcome_noDelivery (error : Option String) :
    (persistDeliveryOutcome event settings error).Uses NoDelivery := by
  refine .bind (persistTries_noDelivery error deadlockMaxRetries) ?_
  rintro (e | finalFailed)
  · exact .bind releaseClaim_noDelivery fun _ => .throw e
  · exact .pure _

theorem deliverEvents_posts (events : List CallbackEvent)
    (hids : (events.map CallbackEvent.eventId).Nodup) :
    Triple (postSpec rt) i (.runOnce settings dispatcherId)
      (fun w _ => Unposted i (· ∈ events.map CallbackEvent.eventId) w ∧
        Claimed settings dispatcherId i events w)
      (deliverEvents rt settings events) anything anything := by
  induction events with
  | nil => exact .pure _ fun _ _ _ => trivial
  | cons event events ih =>
    obtain ⟨hevent, hids⟩ := List.nodup_cons.mp hids
    have hrest : (postSpec rt).Lasting i (.runOnce settings dispatcherId)
        (Claimed settings dispatcherId i events) := postSpec_claimed events
    -- the ids of the later events are other ones
    have hdeliver : Triple (postSpec rt) i (.runOnce settings dispatcherId)
        (fun w _ => Unposted i (· ∈ (event :: events).map CallbackEvent.eventId) w ∧
          Claimed settings dispatcherId i (event :: events) w)
        (deliverEvent rt event settings) (fun _ w _ =>
          Unposted i (· ∈ events.map CallbackEvent.eventId) w ∧
            Claimed settings dispatcherId i events w) anything := by
      refine (keep hrest (@deliverEvent_due rt i settings dispatcherId event
        (· ∈ (event :: events).map CallbackEvent.eventId) List.mem_cons_self)).conseq ?_ ?_ fun _ _ _ h => h
      · exact fun w _ h => ⟨⟨h.1, fun e he => h.2 e (List.mem_cons.mpr
          (.inl (List.mem_singleton.mp he)))⟩, fun e he => h.2 e (List.mem_cons_of_mem _ he)⟩
      · refine fun _ w _ h => ⟨h.1.mono fun e he => ⟨List.mem_cons_of_mem _ he, ?_⟩, h.2⟩
        rintro rfl
        exact hevent he
    have hquiet : ∀ {α : Type} {x : Db α}, x.Uses NoDelivery → Triple (postSpec rt) i
        (.runOnce settings dispatcherId) (fun w _ =>
          Unposted i (· ∈ events.map CallbackEvent.eventId) w ∧
            Claimed settings dispatcherId i events w) x (fun _ w _ =>
          Unposted i (· ∈ events.map CallbackEvent.eventId) w ∧
            Claimed settings dispatcherId i events w) anything :=
      fun hx => keep hrest (undelivered hx _).any
    refine .bind hdeliver fun error => .bind (hquiet (Uses.attempt
      (persistDeliveryOutcome_noDelivery (error.map trim)))) ?_
    rintro (e | finalFailed)
    · exact ih hids
    · exact .bind (hquiet (.perform trivial)) fun _ => ih hids

theorem runOnce_posts : Triple (postSpec rt) i (.runOnce settings dispatcherId)
    (fun w T => Idle w T ∧ Unposted i (fun _ => True) w) (runOnce rt settings dispatcherId) anything
    anything := by
  have hclaim := claimed_undelivered (@claimBatch_triple rt i settings dispatcherId)
    claimBatch_noDelivery fun _ => True
  refine .bind hclaim.any fun events => ?_
  have hrecord : Client.Uses NoDelivery (record (.recordClaimed events.length)) := .perform trivial
  have hbatch : Triple (postSpec rt) i (.runOnce settings dispatcherId)
      (fun w _ => Unposted i (fun _ => True) w ∧ Claimed settings dispatcherId i events w)
      (record (.recordClaimed events.length))
      (fun _ w _ => Unposted i (fun _ => True) w ∧ Claimed settings dispatcherId i events w)
      anything := keep (postSpec_claimed events) (undelivered hrecord _).any
  have hdeliver : (events.map CallbackEvent.eventId).Nodup → Triple (postSpec rt) i
      (.runOnce settings dispatcherId)
      (fun w _ => Unposted i (fun _ => True) w ∧ Claimed settings dispatcherId i events w)
      (do
        record (.recordClaimed events.length)
        deliverEvents rt settings events
        pure events.length) anything anything := fun hids =>
    .bind hbatch fun _ => .bind ((deliverEvents_posts events hids).pre
      fun _ _ h => ⟨h.1.mono fun _ _ => trivial, h.2⟩) fun _ => .pure _ fun _ _ _ => trivial
  exact (Triple.pure_pre hdeliver).pre fun w T h => ⟨h.1.1, h.2, h.1.2.2.2⟩

/-- **POSTs follow claims.** In every run a dispatcher POSTs only events that its session has claimed,
and each of them once. -/
theorem posts_claimed {exclusive : Actor → Actor → Bool}
    (hsymm : ∀ l l', exclusive l l' = exclusive l' l) {clock : Time} {s : ServiceState}
    (hs : (actors rt exclusive).Reachable (emptyState clock) s) :
    Justified (PostDue rt) s.world.log := by
  refine (Spec.sound (postSpec_lawful hsymm) (fun i l w _ hfresh => ?_) ?_ rfl rfl
    (fun _ h => past_of_reachable hsymm h) hs).inv
  case refine_2 => exact Justified.nil
  have hprogram : Triple (postSpec rt) i l (fun w T => Idle w T ∧ Unposted i (fun _ => True) w)
      (program rt l) anything anything := by
    have hother : (∀ settings d, l ≠ .runOnce settings d) →
        Triple (postSpec rt) i l (fun w T => Idle w T ∧ Unposted i (fun _ => True) w) (program rt l)
          anything anything := fun hl => of_commits (postSpec_others hl) postSpec_commits
    cases l with
    | runOnce settings dispatcherId => exact .bind runOnce_posts fun _ => .pure _ fun _ _ _ => trivial
    | _ => exact hother fun _ _ h => by cases h
  exact wp_mono (fun _ _ _ _ => trivial) _ w none
    (hprogram.sound w none ⟨rfl, unposted_fresh hfresh⟩)

end Matchmaking
