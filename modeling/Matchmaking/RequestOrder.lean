import Matchmaking.CreateOutcomes
import Matchmaking.DataIsolation
import Matchmaking.EntryRules
import Matchmaking.TicketOutcomes

/-!
# Requests take effect at one moment

The requests about tickets and matches make several queries, each on what is committed at its own time.
Still the answer of each is the one it would get from a single committed state that held while it ran,
and what it writes is committed on that state.
-/

namespace Matchmaking

open ReadCommitted ReadCommitted.Triple

variable {rt : Runtime} {i : ℕ} {l : Actor} {w : ServiceWorld} {tenantId text : String} {s s' : Tables}
  {α : Type}

/-! ## Accounts of answers -/

/-- When the request `l` of session `i` takes effect, if it is answered `r`. -/
inductive TakesEffect (rt : Runtime) (i : ℕ) (l : Actor) (log : List LogEntry) (r : Response) : Prop
  /-- A request that changes nothing is served from a committed state. -/
  | reads {tenantId : String} {now : Time} {mid : List LogEntry} {σ : Tables} (moment : Moment i log mid σ)
    (served : Serves rt tenantId now σ l (.ok (.response r)) σ)
  /-- One that changes something is served by a commit of its session. -/
  | writes {tenantId : String} {mid : List LogEntry} {σ : Tables} {e : LogEntry} {t : Txn Row}
    (moment : Moment i log mid σ) (next : e :: mid <:+ log) (own : e.session = i)
    (commits : e.event.commit? = some (t, σ))
    (served : Serves rt tenantId t.start σ l (.ok (.response r)) (patch t.writes σ))
  /-- A new ticket is answered as it is committed. -/
  | creates {mid : List LogEntry} {σ : Tables} {e : LogEntry} {t : Txn Row} {n : NewTicket}
    (moment : Moment i log mid σ) (next : e :: mid <:+ log) (own : e.session = i)
    (commits : e.event.commit? = some (t, σ)) (created : Creates rt l t σ n)
    (answer : r = ⟨201, excludeNone (ticketResponse n.ticketId (n.ticket t.start))⟩)

/-- An effect that the log shows is shown by every longer log. -/
theorem TakesEffect.mono {log log' : List LogEntry} {r : Response} (h : TakesEffect rt i l log r)
    (hlog : log <:+ log') : TakesEffect rt i l log' r := by
  cases h with
  | reads moment served => exact .reads (moment.mono hlog) served
  | writes moment next own commits served => exact .writes (moment.mono hlog) (next.trans hlog) own commits served
  | creates moment next own commits created answer =>
    exact .creates (moment.mono hlog) (next.trans hlog) own commits created answer

/-- The answers that the account is about: those to requests for data, as a tenant that was known when the
request came in, and the 201 to requests for a new ticket. -/
inductive Accounted (born : Tables) (r : Response) : Actor → Prop
  | data {l : Actor} {tenantId : String} (h : MadeAs tenantId l born) : Accounted born r l
  | created {settings : Settings} {xTenantId key : Option String} {body : TicketCreate}
    (h : r.status = 201) : Accounted born r (.createTicket settings xTenantId key body)

/-- An answer of session `i` that is due. -/
def EffectDue (rt : Runtime) (i : ℕ) (l : Actor) (born : Tables) (answer : Except Exn Answer)
    (log : List LogEntry) : Prop :=
  ∀ r, answer = .ok (.response r) → Accounted born r l → TakesEffect rt i l log r

/-- All answers are those of a moment. -/
def orderRule (rt : Runtime) : EntryRule where
  due e older := ∀ born r, answer? e.event = some (born, r) → EffectDue rt e.session e.actor born r older
  quiet _ _ _ hanswer _ _ hr := by cases hanswer.symm.trans hr
  mono _ _ _ _ h born r hr x hx haccounted := (h born r hr x hx haccounted).mono (List.suffix_append _ _)

/-- All entries are free but answers, which must have taken effect. -/
abbrev orderSpec (rt : Runtime) : Spec Row Reply Exn Metric Answer Actor := entrySpec rt (orderRule rt)

/-- All commits may be made. -/
theorem orderSpec_commits {C : ServiceWorld → Txn Row → Prop} : (orderSpec rt).Commits i l C :=
  entrySpec_commits fun _ _ _ _ _ _ hr => by cases hr

/-! ## Queries -/

/-- A transaction that has written nothing. -/
def Unwritten : Condition := fun _ T => ∃ t, T = some t ∧ t.writes = []

section Selects

variable {f : Tables → α} {C : ServiceWorld → Prop} {D : α → ServiceWorld → Prop}
  (hC : (orderSpec rt).Lasting i l C) (hD : ∀ a, (orderSpec rt).Lasting i l (D a))
  (h : ∀ w, (orderSpec rt).facts w → C w → D (f w.committed) w)

include hC hD h

/-- A query on a connection sees what is committed at its moment. -/
theorem onConnection_sees : Triple (orderSpec rt) i l (fun w T => Idle w T ∧ C w)
    (onConnection (perform (.select fun _ => f))) (fun a w T => Idle w T ∧ D a w) anything := by
  have hstart : Triple (orderSpec rt) i l Idle (perform .start) (fun _ => Unwritten) anything :=
    start Idle.stable (fun w T _ hT => ⟨_, rfl, by rw [hT]; rfl⟩) fun _ _ _ _ _ => trivial
  have hselect : Triple (orderSpec rt) i l (fun w T => Unwritten w T ∧ C w)
      (perform (.select fun _ => f)) (fun a w T => Unwritten w T ∧ D a w) anything := by
    refine select ((Stable.own _).and hC.stable) ?_ fun _ _ _ _ _ => trivial
    rintro w _ hfacts ⟨⟨t, rfl, hwrites⟩, hc⟩ -
    have hview : t.view w.committed = w.committed := by
      rw [Txn.view, hwrites]
      rfl
    show Unwritten _ _ ∧ D (f (t.view w.committed)) w
    rw [hview]
    exact ⟨⟨_, rfl, hwrites⟩, h w hfacts hc⟩
  have hcommit : ∀ a, Triple (orderSpec rt) i l (fun w T => Unwritten w T ∧ D a w) (perform .commit)
      (fun _ w T => Idle w T ∧ D a w) anything := fun a =>
    keep (hD a) (stage_commit (.own _) (fun _ _ _ _ => trivial) (@orderSpec_commits _ _ _ fun _ _ => True)).any
  exact .bind (keep hC hstart) fun _ => Triple.finish hselect (fun a => .bind (hcommit a) fun _ =>
    .pure _ fun _ _ h => h) fun e => .bind Triple.discard fun _ => .throw e fun _ _ _ => trivial

/-- The same with a connection of its own. -/
theorem autocommit_sees : Triple (orderSpec rt) i l (fun w T => Idle w T ∧ C w)
    (autocommit (perform (.select fun _ => f))) (fun a w T => Idle w T ∧ D a w) anything :=
  .bind (keep hC (Triple.ask_ok entrySpec_logs Idle.stable Idle.unlogged)) fun _ => onConnection_sees hC hD h

end Selects

/-! ## Requests that read -/

/-- What the commits keep holds from a moment on. -/
theorem Past.since (h : Past rt w) {mid : List LogEntry} {σ : Tables} (hmid : mid <:+ w.log)
    (hσ : Chained ∅ mid σ) {I : Tables → Prop} (h₀ : I σ)
    (hstep : ∀ l t b, Legal rt l t b → I b → I (patch t.writes b)) : I w.committed := by
  obtain ⟨newer, hlog⟩ := hmid
  have hchain := h.history.chained
  rw [← hlog] at hchain
  obtain ⟨σ', hold, hnew⟩ := hchain.split
  obtain rfl := hσ.unique hold
  exact hnew.invariant h₀ fun e he t b hc hb =>
    hstep _ t b (h.legal (hlog ▸ List.mem_append_left _ he) hc) hb

/-- The players of a match that is there stay as they are. -/
theorem Legal.players_kept {t : Txn Row} {m : UUID} (h : Legal rt l t s)
    (hm : (s.lookup (.matches m)).isSome = true) (id : UUID) :
    (patch t.writes s).lookup (.matchPlayers m id) = s.lookup (.matchPlayers m id) := by
  obtain hun | ⟨n, hmakes⟩ := h.unpaired_or_makes
  · exact hun.players m id
  · refine NewMatch.frame_player hmakes.changed (.inl ?_)
    rintro rfl
    rw [hmakes.match_fresh] at hm
    cases hm

theorem Persist.isSome (h : Persist s s') {k : Key} (hk : IsDurable k) (hrow : (s.lookup k).isSome = true) :
    (s'.lookup k).isSome = true := by
  obtain ⟨v, hv⟩ := Option.isSome_iff_exists.mp hrow
  obtain ⟨v', hv', -⟩ := h k hk v hv
  rw [hv']
  rfl

/-- A match has all its players from the moment it is there. -/
theorem Past.players_since (h : Past rt w) {mid : List LogEntry} {σ : Tables} (hmid : mid <:+ w.log)
    (hσ : Chained ∅ mid σ) {m : UUID} (hm : (σ.lookup (.matches m)).isSome = true) :
    (rowsOf (playerRow m) w.committed).Perm (rowsOf (playerRow m) σ) := by
  have hkept := h.since hmid hσ
    (I := fun s => (s.lookup (.matches m)).isSome = true ∧
      ∀ id, s.lookup (.matchPlayers m id) = σ.lookup (.matchPlayers m id)) ⟨hm, fun _ => rfl⟩
    fun _ _ _ hlegal hb => ⟨@Persist.isSome _ _ hlegal.persist (.matches m) trivial hb.1, fun id =>
      (hlegal.players_kept hb.1 id).trans (hb.2 id)⟩
  refine (List.perm_ext_iff_of_nodup (playerRows_nodup m _) (playerRows_nodup m _)).mpr ?_
  rintro ⟨id, p⟩
  rw [mem_rowsOf_playerRow, mem_rowsOf_playerRow, hkept.2]

section Requests

variable {born : Tables}

/-- The endpoint is run for a tenant that was known. -/
theorem withTenant_order {endpoint : String → Tenant → Db Response} {Q : Response → Condition}
    (hknown : (born.lookup (.tenants tenantId)).isSome = true)
    (h : ∀ tenant, Triple (orderSpec rt) i l (fun w T => Idle w T ∧ Since born i w)
      (endpoint tenantId tenant) Q anything) :
    Triple (orderSpec rt) i l (fun w T => Idle w T ∧ Since born i w) (withTenant (some tenantId) endpoint)
      Q anything := by
  have htenant : Triple (orderSpec rt) i l (fun w T => Idle w T ∧ Since born i w) (getTenant tenantId)
      (fun found w T => Idle w T ∧ found.isSome = true ∧ Since born i w) anything :=
    autocommit_sees since_lasting (fun _ => entrySpec_lasting fun _ _ hg hc =>
      ⟨hc.1, hc.2.1.trans hg.persist, hg.logged hc.2.2⟩) fun w _ hc => ⟨Persist.tenant hc.1 hknown, hc⟩
  refine .bind htenant ?_
  rintro (_ | tenant)
  · exact (Triple.pure_pre fun hfound => (by cases hfound)).pre fun _ _ h => h.2
  · exact (h tenant).pre fun _ _ h => ⟨h.1, h.2.2⟩

/-- A text that is no `uuid` raises. -/
theorem checkUuid_order {P : Condition} {f : UUID → Db α} {Q : α → Condition}
    (h : ∀ id, rt.uuidIn text = some id → Triple (orderSpec rt) i l P (f id) Q anything) :
    Triple (orderSpec rt) i l P (checkUuid rt text >>= f) Q anything := by
  have hcheck : Triple (orderSpec rt) i l P (checkUuid rt text)
      (fun id w T => rt.uuidIn text = some id ∧ P w T) anything := by
    unfold checkUuid
    split
    · next id hid => exact .pure _ fun _ _ hp => ⟨hid, hp⟩
    · exact .throw _ fun _ _ _ => trivial
  exact .bind hcheck fun id => .pure_pre fun hid => h id hid

/-- The one query of `get_ticket` is the moment at which it takes effect. -/
theorem getTicket_order : Triple (orderSpec rt) i (.getTicket (some tenantId) text)
    (fun w T => Idle w T ∧ Since born i w) (getTicket rt text tenantId)
    (fun r w _ => TakesEffect rt i (.getTicket (some tenantId) text) w.log r) anything := by
  refine checkUuid_order fun id hid => ?_
  have hselect : Triple (orderSpec rt) i (.getTicket (some tenantId) text)
      (fun w T => Idle w T ∧ Since born i w) (autocommit (perform (.select fun _ => ownTicket? tenantId id)))
      (fun row w T => Idle w T ∧ SeenAt i (fun _ σ => row = ownTicket? tenantId id σ) w) anything :=
    autocommit_sees since_lasting (fun _ => seenAt_lasting _) fun w hfacts hc =>
      ⟨_, _, hc.2.moment hfacts.2, rfl⟩
  have hanswer : ∀ row (w : ServiceWorld) (T : Option (Txn Row)),
      Idle w T ∧ SeenAt i (fun _ σ => row = ownTicket? tenantId id σ) w →
        TakesEffect rt i (.getTicket (some tenantId) text) w.log (ticketAnswer id row) := by
    rintro row w T ⟨-, mid, σ, hm, rfl⟩
    exact .reads hm (@Serves.get rt tenantId 0 σ text id hid)
  refine .bind hselect ?_
  rintro (_ | t)
  · exact .pure _ (hanswer none)
  · exact .pure _ (hanswer (some t))

/-- The one query of `list_tickets` is its moment. -/
theorem listTickets_order : Triple (orderSpec rt) i (.listTickets (some tenantId))
    (fun w T => Idle w T ∧ Since born i w) (listTickets tenantId)
    (fun r w _ => TakesEffect rt i (.listTickets (some tenantId)) w.log r) anything := by
  have hask : Triple (orderSpec rt) i (.listTickets (some tenantId))
      (fun w T => Idle w T ∧ Since born i w) (ask .tieBreak) (fun _ w T => Idle w T ∧ Since born i w) anything :=
    keep since_lasting (Triple.ask_ok entrySpec_logs Idle.stable Idle.unlogged)
  have hselect : Triple (orderSpec rt) i (.listTickets (some tenantId))
      (fun w T => Idle w T ∧ Since born i w) (autocommit (perform (.select fun _ => waitingRows tenantId)))
      (fun rows w T => Idle w T ∧ SeenAt i (fun _ σ => rows = waitingRows tenantId σ) w) anything :=
    autocommit_sees since_lasting (fun _ => seenAt_lasting _) fun w hfacts hc =>
      ⟨_, _, hc.2.moment hfacts.2, rfl⟩
  refine .bind hask fun tie => .bind hselect fun rows => .pure _ ?_
  rintro w T ⟨-, mid, σ, hm, rfl⟩
  exact .reads hm (@Serves.list rt tenantId 0 σ _ (orderBy_perm _ _))

/-- The players are read later than the match, but they are those of the match as it was read. -/
theorem getMatch_order : Triple (orderSpec rt) i (.getMatch (some tenantId) text)
    (fun w T => Idle w T ∧ Since born i w) (getMatch rt text tenantId)
    (fun r w _ => TakesEffect rt i (.getMatch (some tenantId) text) w.log r) anything := by
  refine checkUuid_order fun id hid => ?_
  have hselect : Triple (orderSpec rt) i (.getMatch (some tenantId) text)
      (fun w T => Idle w T ∧ Since born i w) (autocommit (perform (.select fun _ => ownMatch? tenantId id)))
      (fun row w T => Idle w T ∧ SeenAt i (fun _ σ => row = ownMatch? tenantId id σ) w) anything :=
    autocommit_sees since_lasting (fun _ => seenAt_lasting _) fun w hfacts hc =>
      ⟨_, _, hc.2.moment hfacts.2, rfl⟩
  refine .bind hselect ?_
  rintro (_ | m)
  · refine .pure _ ?_
    rintro w T ⟨-, mid, σ, hm, hrow⟩
    have hanswer := @Serves.getMatch rt tenantId 0 σ text id _ hid (.refl _)
    rw [← hrow] at hanswer
    exact .reads hm hanswer
  have hmoment : (orderSpec rt).Lasting i (.getMatch (some tenantId) text)
      (SeenAt i fun _ σ => some m = ownMatch? tenantId id σ) := seenAt_lasting _
  have hask : Triple (orderSpec rt) i (.getMatch (some tenantId) text)
      (fun w T => Idle w T ∧ SeenAt i (fun _ σ => some m = ownMatch? tenantId id σ) w) (ask .tieBreak)
      (fun _ w T => Idle w T ∧ SeenAt i (fun _ σ => some m = ownMatch? tenantId id σ) w) anything :=
    keep hmoment (Triple.ask_ok entrySpec_logs Idle.stable Idle.unlogged)
  have hplayers : Triple (orderSpec rt) i (.getMatch (some tenantId) text)
      (fun w T => Idle w T ∧ SeenAt i (fun _ σ => some m = ownMatch? tenantId id σ) w)
      (onConnection (perform (.select fun _ => rowsOf (playerRow id))))
      (fun players w T => Idle w T ∧ SeenAt i (fun _ σ => some m = ownMatch? tenantId id σ ∧
        players.Perm (rowsOf (playerRow id) σ)) w) anything := by
    refine onConnection_sees hmoment (fun _ => seenAt_lasting _) ?_
    rintro w hfacts ⟨mid, σ, hm, hrow⟩
    have hthere : σ.lookup (.matches id) = some m := (Option.filter_eq_some_iff.mp hrow.symm).1
    exact ⟨mid, σ, hm, hrow, hfacts.2.players_since hm.suffix hm.store (by rw [hthere]; rfl)⟩
  refine .bind hask fun tie => .bind hplayers fun players => .pure _ ?_
  rintro w T ⟨-, mid, σ, hm, hrow, hperm⟩
  have hordered : (orderBy (fun a b => tie a.1 ≤ tie b.1) players).Perm (rowsOf (playerRow id) σ) :=
    (orderBy_perm _ players).trans hperm
  have hanswer := @Serves.getMatch rt tenantId 0 σ text id _ hid hordered
  rw [← hrow] at hanswer
  exact .reads hm hanswer

/-! ## The request to cancel -/

/-- Before the commit: the cancelled ticket is pending, or there was none to cancel. -/
def CancelReady (tenantId : String) (id : UUID) (i : ℕ) : Option Ticket → Condition
  | none => fun w _ => SeenAt i (fun _ σ => cancellable? tenantId id σ = none) w
  | some tk' => fun w T => Begun i w ∧ ∃ now tk σs, tk.isCancellable tenantId = true ∧
      tk' = tk.cancelled now ∧ Pending now [⟨.tickets id, (some tk, some tk')⟩] σs w T

/-- A ticket that cannot be cancelled is none to cancel. -/
theorem cancellable?_eq_none {id : UUID}
    (h : ∀ tk, s.lookup (.tickets id) = some tk → tk.isCancellable tenantId = false) :
    cancellable? tenantId id s = none := by
  rw [cancellable?, Option.filter_eq_none_iff]
  exact fun tk htk => by rw [h tk htk]; decide

/-- The guarded UPDATE finds the ticket cancellable in the newest committed row, or finds none. -/
theorem cancelUpdate_order {id : UUID} (now : Time) : Triple (orderSpec rt) i l
    (fun w T => Pending now [] [] w T ∧ Begun i w)
    (updateTicket id (fun _ tk => tk.isCancellable tenantId) Ticket.cancelled)
    (CancelReady tenantId id i) anything := by
  -- the statement's snapshot
  have hselect : Triple (orderSpec rt) i l (fun w T => Pending now [] [] w T ∧ Begun i w)
      (perform (.select fun _ s => (s.lookup (.tickets id)).any fun (tk : Ticket) =>
        tk.isCancellable tenantId))
      (fun found w T => (∃ σ, Pending now [] [σ] w T) ∧ Begun i w ∧
        (found = false → SeenAt i (fun _ σ => cancellable? tenantId id σ = none) w)) anything := by
    refine (keep begun_lasting stage_select).post ?_
    rintro found w T ⟨⟨σ, rfl, hfacts, hshows, hstage⟩, hbegun⟩
    refine ⟨⟨σ, hstage⟩, hbegun, fun hfound => ⟨_, _, hbegun.moment hfacts.2, cancellable?_eq_none fun tk htk => ?_⟩⟩
    have hσ : σ.lookup (.tickets id) = some tk := (hshows (.tickets id) fun h => h).trans htk
    rw [hσ] at hfound
    exact hfound
  -- the newest version of the row
  have hrow : ∀ σ, Triple (orderSpec rt) i l (fun w T => Pending now [] [σ] w T ∧ Begun i w)
      (updateRow (.tickets id) (fun _ tk => tk.isCancellable tenantId) Ticket.cancelled)
      (fun found w T => Begun i w ∧ CancelReady tenantId id i found w T ∧ ∀ tk', found = some tk' →
        ∃ tk, tk.isCancellable tenantId = true ∧ tk' = tk.cancelled now ∧
          Pending now [⟨.tickets id, (some tk, some tk')⟩] [σ] w T) anything := by
    refine fun σ => stage_row (fun h => h) begun_lasting (fun h => by cases h)
      fun w old cur hfacts hbegun hold hseen => ?_
    obtain ⟨-, rfl⟩ | hp := hseen
    -- a row that cannot be cancelled now is the moment at which the request finds none
    · have hleave : (∀ tk, cur = some tk → tk.isCancellable tenantId = false) →
          SeenAt i (fun _ σ => cancellable? tenantId id σ = none) w := fun h =>
        ⟨_, _, hbegun.moment hfacts.2, cancellable?_eq_none fun tk htk => h tk (hold.symm.trans htk)⟩
      cases cur with
      | none => exact fun T _ => ⟨hbegun, hleave fun _ h => (by cases h), fun _ h => by cases h⟩
      | some tk =>
        dsimp only
        split
        · next hcan =>
          refine fun T hT => ⟨hbegun, ⟨hbegun, now, tk, [σ], hcan, rfl, hT⟩, fun _ h => ?_⟩
          cases h
          exact ⟨tk, hcan, rfl, hT⟩
        · next hcan =>
          refine fun T _ => ⟨hbegun, hleave fun _ h => ?_, fun _ h => by cases h⟩
          cases h
          exact Bool.eq_false_iff.mpr hcan
    · cases hp
  have hlocked : ∀ σ, Triple (orderSpec rt) i l (fun w T => Pending now [] [σ] w T ∧ Begun i w)
      (updateTicketRow id (fun _ tk => tk.isCancellable tenantId) Ticket.cancelled)
      (CancelReady tenantId id i) anything := by
    refine fun σ => .bind (hrow σ) ?_
    rintro (_ | tk')
    · exact .pure _ fun _ _ h => h.2.1
    · have hindex : ∀ tk, tk.isCancellable tenantId = true ∧ tk' = tk.cancelled now →
          Triple (orderSpec rt) i l (fun w T => Pending now [⟨.tickets id, (some tk, some tk')⟩] [σ] w T ∧
            Begun i w) (indexTicket id tk') (fun _ => CancelReady tenantId id i (some tk')) anything :=
        fun tk htk => (keep begun_lasting Triple.indexTicket).post fun _ _ _ h =>
          ⟨h.2, now, tk, [σ], htk.1, htk.2, h.1⟩
      refine .bind ((Triple.exists_pre fun tk => .pure_pre fun htk => hindex tk htk).pre ?_) fun _ =>
        .pure _ fun _ _ h => h
      rintro w T ⟨hbegun, -, hset⟩
      obtain ⟨tk, hcan, hset, hpending⟩ := hset tk' rfl
      exact ⟨tk, ⟨hcan, hset⟩, hpending, hbegun⟩
  refine .bind hselect fun found => .ite (fun _ => ?_) fun hfound => .pure _ fun w T h =>
    h.2.2 (Bool.eq_false_iff.mpr hfound)
  refine (Triple.exists_pre hlocked).pre ?_
  rintro w T ⟨⟨σ, hσ⟩, hbegun, -⟩
  exact ⟨σ, hσ, hbegun⟩

/-- The answer about the ticket that was cancelled, if there was one. -/
def cancelResponse (id : UUID) : Option Ticket → Response
  | none => httpException 404 "Ticket not found"
  | some tk' => ⟨200, .obj [
      ("ticket_id", .str (uuidText id)),
      ("status", .str tk'.status.text),
      ("cancelled_at", tk'.cancelledAt.elim .null fun u => .str (isoText u))]⟩

/-- The commit is the moment of a cancellation. -/
theorem commit_cancel_order {id : UUID} (hid : rt.uuidIn text = some id) (found : Option Ticket) :
    Triple (orderSpec rt) i (.cancelTicket (some tenantId) text) (CancelReady tenantId id i found)
      (perform .commit) (fun _ w T => Idle w T ∧
        TakesEffect rt i (.cancelTicket (some tenantId) text) w.log (cancelResponse id found))
      fun _ => Idle := by
  cases found with
  | none =>
    have hcommit : Triple (orderSpec rt) i (.cancelTicket (some tenantId) text) (fun _ _ => True)
        (perform .commit) (fun _ => Idle) fun _ => Idle :=
      stage_commit (fun _ _ _ _ h => h) (fun _ _ _ _ => trivial) (@orderSpec_commits _ _ _ fun _ _ => True)
    refine (frame (seenAt_lasting fun _ σ => cancellable? tenantId id σ = none) hcommit).conseq
      (fun _ _ h => ⟨trivial, h⟩) ?_ fun _ _ _ h => h.1
    rintro - w T ⟨hidle, mid, σ, hm, hnone⟩
    have hserved := @Serves.cancel rt tenantId 0 σ text id σ hid (by rw [hnone]; exact rfl)
    rw [hnone] at hserved
    exact ⟨hidle, .reads hm hserved⟩
  | some tk' =>
    refine stage_commit_then (begun_lasting.stable.and (.exists fun _ => .exists fun _ => .exists fun _ =>
      Stable.and (.own fun _ => _) (Stable.and (.own fun _ => _) Stage.stable))) (fun _ _ _ _ => trivial)
      (@orderSpec_commits _ _ _ fun _ _ => True) ?_
    rintro w T hfacts ⟨hbegun, now, tk, σs, hcan, rfl, t, rfl, hhas⟩
    obtain rfl := hhas.start
    have hlook : List.dlookup (.tickets id) ([⟨.tickets id, (some tk, some (tk.cancelled t.start))⟩] :
        Changes Row) = some (some tk, some (tk.cancelled t.start)) := List.dlookup_cons_eq ..
    obtain ⟨hold, hnew⟩ := hhas.changed.lookup (.tickets id) (fun h => h) hlook
    have hrow : cancellable? tenantId id w.committed = some tk := by
      rw [cancellable?, hold, Option.filter_some, if_pos hcan]
    have heffect : CancelEffect id t.start w.committed (patch t.writes w.committed)
        (cancellable? tenantId id w.committed) := by
      rw [hrow]
      refine ⟨hnew, fun k hk hne => hhas.changed.frame k hk ?_⟩
      exact List.dlookup_cons_ne _ _ hne
    have hserved := @Serves.cancel rt tenantId t.start w.committed text id _ hid heffect
    rw [hrow] at hserved
    simp only [Option.elim_some, World.commit, hhas.live, Bool.false_eq_true, if_false]
    exact .writes ((hbegun.moment hfacts.2).mono (List.suffix_cons _ _)) (List.suffix_refl _) rfl rfl hserved

/-- A cancellation takes effect with its COMMIT, and a refusal at the query that looks for the reason. -/
theorem cancelTicket_order : Triple (orderSpec rt) i (.cancelTicket (some tenantId) text)
    (fun w T => Idle w T ∧ Since born i w) (cancelTicket rt text tenantId)
    (fun r w _ => TakesEffect rt i (.cancelTicket (some tenantId) text) w.log r) anything := by
  refine checkUuid_order fun id hid => ?_
  have hupdate := @Triple.autocommit (orderSpec rt) i (.cancelTicket (some tenantId) text) _ _ _ _ _
    entrySpec_logs begun_lasting cancelUpdate_order (commit_cancel_order hid)
  have hlasting : ∀ r, (orderSpec rt).Lasting i (.cancelTicket (some tenantId) text) fun w =>
      TakesEffect rt i (.cancelTicket (some tenantId) text) w.log r := fun r =>
    entrySpec_lasting fun _ _ h hr => hr.mono h.log
  have hrecord : ∀ m r, Triple (orderSpec rt) i (.cancelTicket (some tenantId) text)
      (fun w T => Idle w T ∧ TakesEffect rt i (.cancelTicket (some tenantId) text) w.log r) (record m)
      (fun _ w T => Idle w T ∧ TakesEffect rt i (.cancelTicket (some tenantId) text) w.log r) anything :=
    fun m r => keep (hlasting r) (Triple.record entrySpec_logs Idle.stable Idle.unlogged)
  refine .bind (hupdate.pre fun _ _ h => ⟨h.1, h.2.2⟩) ?_
  rintro (_ | tk')
  · exact .pure _ fun _ _ h => h.2
  · exact .bind (hrecord _ _) fun _ => .bind (hrecord _ _) fun _ => .pure _ fun _ _ h => h.2

end Requests

/-! ## The request for a new ticket -/

section Creation

variable {settings : Settings} {xTenantId key : Option String} {body : TicketCreate}

/-- What holds of the commits holds here. -/
theorem ordered {P : Condition} {x : Db α} {Q : α → Condition} {F : Exn → Condition}
    (h : Triple (commitSpec rt) i l P x Q F) : Triple (orderSpec rt) i l P x Q F := by
  have hany : Triple (orderSpec rt) i l P x anything anything := of_commits entrySpec_logs orderSpec_commits
  exact (h.transfer (fun _ _ _ => entrySpec_env) (fun _ h => h.history) hany).conseq
    (fun _ _ h => ⟨h, h⟩) (fun _ _ _ h => h.1) fun _ _ _ h => h.1

/-- The session has begun, for a tenant that is known. -/
def BegunFor (tenantId : String) (i : ℕ) (w : ServiceWorld) : Prop :=
  (w.committed.lookup (.tenants tenantId)).isSome = true ∧ Begun i w

/-- That the session has begun, with its tenant known, stays so. -/
theorem begunFor_lasting : (orderSpec rt).Lasting i l (BegunFor tenantId i) :=
  entrySpec_lasting fun _ _ h hc => ⟨h.persist.tenant hc.1, h.logged hc.2⟩

/-- A 201 is that of a moment. -/
abbrev CreatedAtOnce (rt : Runtime) (i : ℕ) (l : Actor) (r : Response) (w : ServiceWorld) : Prop :=
  r.status = 201 → TakesEffect rt i l w.log r

/-- The commit is the moment of a new ticket. -/
theorem commit_created (r : Response) : Triple (orderSpec rt) i (.createTicket settings (some tenantId) key body)
    (fun w T => (r.status = 201 → Inserted rt tenantId key body (computePartitionId rt tenantId body.region
      body.queueName settings.matchmakingPartitions) r w T) ∧ BegunFor tenantId i w)
    (perform .commit) (fun _ w T => Idle w T ∧
      CreatedAtOnce rt i (.createTicket settings (some tenantId) key body) r w) fun _ => Idle := by
  by_cases hr : r.status = 201
  case neg =>
    have hcommit : Triple (orderSpec rt) i (.createTicket settings (some tenantId) key body)
        (fun _ _ => True) (perform .commit) (fun _ => Idle) fun _ => Idle :=
      stage_commit (fun _ _ _ _ h => h) (fun _ _ _ _ => trivial) (@orderSpec_commits _ _ _ fun _ _ => True)
    exact hcommit.conseq (fun _ _ _ => trivial) (fun _ _ _ h => ⟨h, fun h' => absurd h' hr⟩) fun _ _ _ h => h
  case pos =>
    have hstable : Stable (orderSpec rt) i (.createTicket settings (some tenantId) key body)
        (Inserted rt tenantId key body (computePartitionId rt tenantId body.region body.queueName
          settings.matchmakingPartitions) r) := fun w w' T henv => Inserted.stable w w' T (entrySpec_env henv)
    refine (stage_commit_then (hstable.and begunFor_lasting.stable) (fun _ _ _ _ => trivial)
      (@orderSpec_commits _ _ _ fun _ _ => True) ?_).pre fun _ _ h => ⟨h.1 hr, h.2⟩
    rintro w T hfacts ⟨⟨ticketId, now, σs, rfl, t, rfl, hhas⟩, hknown, hbegun⟩ -
    obtain rfl := hhas.start
    have hcreates : Creates rt (.createTicket settings (some tenantId) key body) t w.committed
        ⟨ticketId, tenantId, key, body, _⟩ :=
      ⟨⟨settings, some tenantId, key, body, rfl, rfl, rfl, rfl, rfl⟩, hknown, hhas.changed⟩
    simp only [Option.elim_some, World.commit, hhas.live, Bool.false_eq_true, if_false]
    exact .creates ((hbegun.moment hfacts.2).mono (List.suffix_cons _ _)) (List.suffix_refl _) rfl rfl hcreates rfl

/-- A 201 takes effect with the COMMIT of the ticket. -/
theorem createNewTicket_order {tenant : Tenant} {requestHash : String}
    (hhash : ∀ k, key = some k → requestHash = computeRequestHashFromModel rt body.modelDump) :
    Triple (orderSpec rt) i (.createTicket settings (some tenantId) key body)
      (fun w T => Idle w T ∧ BegunFor tenantId i w)
      (createNewTicket rt settings tenantId tenant key requestHash body)
      (fun r w _ => CreatedAtOnce rt i (.createTicket settings (some tenantId) key body) r w) anything := by
  refine .ite (fun _ => .throw _ fun _ _ _ => trivial) fun _ =>
    .bind (keep begunFor_lasting (ordered admission_triple)) ?_
  rintro (_ | rejection)
  swap
  · exact .pure _ fun _ _ h hr => absurd hr (h.1.1 rejection rfl).2
  have hcreate : ∀ now, Triple (orderSpec rt) i (.createTicket settings (some tenantId) key body)
      (fun w T => Pending now [] [] w T ∧ BegunFor tenantId i w)
      (createInTransaction tenantId key requestHash body (computePartitionId rt tenantId body.region
        body.queueName settings.matchmakingPartitions))
      (fun r w T => (r.status = 201 → Inserted rt tenantId key body (computePartitionId rt tenantId
        body.region body.queueName settings.matchmakingPartitions) r w T) ∧ BegunFor tenantId i w) anything :=
    fun now => (keep begunFor_lasting (ordered (@createInTransaction_triple rt i key tenantId body ∅
      (fun _ _ => rfl) (.createTicket settings (some tenantId) key body) now requestHash _ hhash))).conseq
        (fun _ _ h => ⟨⟨h.1, .empty _⟩, h.2⟩) (fun _ _ _ h => ⟨h.1.2, h.2⟩) fun _ _ _ h => h
  have htransaction := Triple.asyncTransaction entrySpec_logs begunFor_lasting hcreate commit_created
  refine .bind (Triple.attempt (htransaction.pre fun _ _ h => ⟨h.1.2, h.2⟩)) ?_
  rintro (e | response)
  · cases e with
    | uniqueViolation => exact .pure _ fun _ _ _ hr => by cases hr
    | _ => exact .throw _ fun _ _ _ => trivial
  · exact .pure _ fun _ _ h => h.2

/-- So does that of a request with a key; other answers are not spoken of. -/
theorem createTicket_order : Triple (orderSpec rt) i (.createTicket settings xTenantId key body)
    (fun w T => Idle w T ∧ Begun i w) (withTenant xTenantId (createTicket rt settings key body))
    (fun r w _ => CreatedAtOnce rt i (.createTicket settings xTenantId key body) r w) anything := by
  cases xTenantId with
  | none => exact .pure _ fun _ _ _ hr => by cases hr
  | some tenantId =>
    have htenant : Triple (orderSpec rt) i (.createTicket settings (some tenantId) key body)
        (fun w T => Idle w T ∧ Begun i w) (getTenant tenantId)
        (fun found w T => Idle w T ∧ (found.isSome = true → BegunFor tenantId i w)) anything :=
      autocommit_sees begun_lasting (fun _ => entrySpec_lasting fun _ _ hg hc hfound =>
        ⟨hg.persist.tenant (hc hfound).1, hg.logged (hc hfound).2⟩) fun w _ hc hfound => ⟨hfound, hc⟩
    refine .bind htenant ?_
    rintro (_ | tenant)
    · exact .pure _ fun _ _ _ hr => by cases hr
    cases key with
    | none => exact (createNewTicket_order fun _ hk => by cases hk).pre fun _ _ h => ⟨h.1, h.2 rfl⟩
    | some k =>
      have hlook : Triple (orderSpec rt) i (.createTicket settings (some tenantId) (some k) body)
          (fun w T => Idle w T ∧ BegunFor tenantId i w)
          (checkIdempotencyKey k tenantId (computeRequestHashFromModel rt body.modelDump))
          (fun _ w T => Idle w T ∧ BegunFor tenantId i w) anything := by
        have hcommit : Triple (orderSpec rt) i (.createTicket settings (some tenantId) (some k) body)
            (fun _ _ => True) (perform .commit) (fun _ => Idle) fun _ => Idle :=
          stage_commit (fun _ _ _ _ h => h) (fun _ _ _ _ => trivial) (@orderSpec_commits _ _ _ fun _ _ => True)
        exact Triple.autocommit entrySpec_logs begunFor_lasting
          (fun _ => keep begunFor_lasting (of_commits entrySpec_logs orderSpec_commits))
          fun _ => (frame begunFor_lasting hcommit).conseq (fun _ _ h => h) (fun _ _ _ h => h)
            fun _ _ _ h => h.1
      refine .bind (hlook.pre fun _ _ h => ⟨h.1, h.2 rfl⟩) ?_
      rintro (_ | ⟨storedResponse, hashMatched⟩)
      · exact createNewTicket_order fun _ _ => rfl
      · exact .pure _ fun _ _ _ hr => by cases hashMatched <;> cases hr

end Creation

/-! ## All requests -/

/-- Every actor's answer is due: those of requests by the lemmas above, and the others are not asked for. -/
theorem program_order {born : Tables} (l : Actor) : Triple (orderSpec rt) i l
    (fun w T => Idle w T ∧ Since born i w) (program rt l)
    (fun a w _ => EffectDue rt i l born (.ok a) w.log) anything := by
  by_cases hdata : ∃ tenantId, MadeAs tenantId l born
  · obtain ⟨tenantId, hl, hknown⟩ := hdata
    have hrespond : ∀ {x : Db Response}, Triple (orderSpec rt) i l (fun w T => Idle w T ∧ Since born i w) x
        (fun r w _ => TakesEffect rt i l w.log r) anything → Triple (orderSpec rt) i l
          (fun w T => Idle w T ∧ Since born i w) (respond x)
          (fun a w _ => EffectDue rt i l born (.ok a) w.log) anything := fun hx =>
      .bind hx fun r => .pure _ fun w T h r' hr _ => by
        cases hr
        exact h
    cases hl with
    | list => exact hrespond (withTenant_order hknown fun _ => listTickets_order)
    | get text => exact hrespond (withTenant_order hknown fun _ => getTicket_order)
    | cancel text => exact hrespond (withTenant_order hknown fun _ => cancelTicket_order)
    | getMatch text => exact hrespond (withTenant_order hknown fun _ => getMatch_order)
  have hother : (∀ settings xTenantId key body, l ≠ .createTicket settings xTenantId key body) →
      Triple (orderSpec rt) i l (fun w T => Idle w T ∧ Since born i w) (program rt l)
        (fun a w _ => EffectDue rt i l born (.ok a) w.log) anything := fun hl =>
    (of_commits entrySpec_logs orderSpec_commits).post fun _ _ _ _ _ _ haccounted => by
      cases haccounted with
      | data h => exact absurd ⟨_, h⟩ hdata
      | created => exact absurd rfl (hl _ _ _ _)
  cases l with
  | createTicket settings xTenantId key body =>
    refine .bind (createTicket_order.pre fun _ _ h => ⟨h.1, h.2.2⟩) fun r => .pure _ fun w T h r' hr haccounted => ?_
    cases hr
    cases haccounted with
    | data h' => exact absurd ⟨_, h'⟩ hdata
    | created hstatus => exact h hstatus
  | _ => exact hother fun _ _ _ _ h => by cases h

/-- In every run, every answer has taken effect by the time it is given. -/
theorem order_holds {clock : Time} {s : ServiceState} (hs : (service rt).Reachable (emptyState clock) s) :
    Justified (orderRule rt).due s.world.log := by
  refine service_justified (fun i l born => (program_order l).conseq (fun _ _ h => h) ?_ ?_) hs
  · intro a w T h time born' r hr
    cases hr
    exact h
  · intro e w T _ time born' r hr
    cases hr
    exact fun _ hr => by cases hr

/-- **Every answer is that of one moment.** In every run, the answer to a request for tickets or matches
by a tenant that was known, and each 201, is what the request gets from what is committed at one moment
between its start and its answer, and what it changes is committed at that moment. -/
theorem answers_at_once {clock : Time} {s : ServiceState}
    (hs : (service rt).Reachable (emptyState clock) s) : ∀ newer entry older,
      s.world.log = newer ++ entry :: older → ∀ born r, entry.event = .answer born (.ok (.response r)) →
        Accounted born r entry.actor → TakesEffect rt entry.session entry.actor older r :=
  fun newer entry older hlog born r hanswer =>
    order_holds hs newer entry older hlog born _ (by rw [hanswer]; rfl) r rfl

/-- A 201 of the sample's run, with the moment at which its ticket was committed. -/
theorem answers_at_once_sample : ∃ newer entry older r,
    sampleState.world.log = newer ++ entry :: older ∧ r.status = 201 ∧
      TakesEffect sampleRuntime entry.session entry.actor older r := by
  have hcreated : sampleState.world.log.any (answersWith 1 201) = true := by decide +kernel
  obtain ⟨settings, xTenantId, key, body, born, r, e, he, -, hactor, hanswer, hstatus⟩ :=
    exists_of_answersWith hcreated
  obtain ⟨newer, older, hlog⟩ := List.append_of_mem he
  exact ⟨newer, e, older, r, hlog, hstatus, answers_at_once sampleState_reachable newer e older hlog born r
    hanswer (hactor ▸ .created hstatus)⟩

end Matchmaking
