import Matchmaking.IdempotentCreates
import Matchmaking.RunAlone

/-!
# One ticket for each key

What the requests of a tenant with one key lead to, whatever runs at the same time and fails: at most
one ticket, a finalized row for the key, and answers that name the ticket.
-/

namespace Matchmaking

open ReadCommitted

/-! ## Requests and their tickets -/

/-- The body of a request with a key. -/
def Actor.keyedBody? : Actor → Option TicketCreate
  | .createTicket _ _ (some _) body => some body
  | _ => none

/-- SHA-256 tells the canonical texts of the bodies apart that the requests of a run have. -/
def NoCollisions (rt : Runtime) (log : List LogEntry) : Prop :=
  ∀ e ∈ log, ∀ e' ∈ log, ∀ body body', e.actor.keyedBody? = some body →
    e'.actor.keyedBody? = some body' →
    rt.sha256 body.modelDump.dumps = rt.sha256 body'.modelDump.dumps →
      body.modelDump.dumps = body'.modelDump.dumps

/-- The commit of a request of the tenant with the key and the body, which creates the ticket. -/
def CreatesFor (tenantId key : String) (body : TicketCreate) (ticketId : UUID) (e : LogEntry) : Prop :=
  ∃ settings t b, e.actor = .createTicket settings (some tenantId) (some key) body ∧
    e.event.commit? = some (t, b) ∧ b.lookup (.tickets ticketId) = none ∧
    ((patch t.writes b).lookup (.tickets ticketId)).isSome = true

/-- The answer `r` to a request of the tenant with the key and the body; `born` is what was committed
when it came in. -/
def Responds (tenantId key : String) (body : TicketCreate) (born : Tables) (r : Response)
    (e : LogEntry) : Prop :=
  ∃ settings, e.actor = .createTicket settings (some tenantId) (some key) body ∧
    e.event = .answer born (.ok (.response r))

/-- The answer names the ticket. -/
def Response.Names (r : Response) (ticketId : UUID) : Prop :=
  r.body.get? "ticket_id" = some (.str (uuidText ticketId))

/-- The row of a key has the 201 for the ticket `id` of the tenant, with the values of the body that its
hash is of. -/
structure IdempotencyKey.Finalized (rt : Runtime) (s : Tables) (tenantId : String)
    (row : IdempotencyKey) (body : TicketCreate) (id : UUID) : Prop where
  responseStatus : row.responseStatus = 201
  ticketId : row.ticketId = some id
  requestHash : row.requestHash = computeRequestHashFromModel rt body.modelDump
  ticket : ∃ ticket, s.lookup (.tickets id) = some ticket ∧ ticket.tenantId = tenantId ∧
    ticket.playerId = body.playerId ∧ ticket.region = body.region ∧
    ticket.queueName = body.queueName ∧ ticket.skill = body.skill ∧
    row.responseBody = ticketResponse id (newTicket tenantId body ticket.partitionId ticket.createdAt)

/-- Creating tickets with the key is idempotent. -/
structure Idempotent (rt : Runtime) (w : ServiceWorld) (tenantId key : String) : Prop where
  /-- At most one ticket is created, for one body. -/
  once : ∀ e ∈ w.log, ∀ e' ∈ w.log, ∀ body body' ticketId ticketId',
    CreatesFor tenantId key body ticketId e → CreatesFor tenantId key body' ticketId' e' →
      ticketId' = ticketId ∧ body' = body
  /-- The row of the key is that of the ticket. -/
  finalized : ∀ row, w.committed.lookup (.idempotencyKeys tenantId key) = some row →
    ∃ body ticketId, row.Finalized rt w.committed tenantId body ticketId ∧
      ∃ e ∈ w.log, CreatesFor tenantId key body ticketId e
  /-- A 200 or 201 names the ticket, which was created for the same body; it is no placeholder. -/
  named : ∀ e ∈ w.log, ∀ body born r, Responds tenantId key body born r e →
    r.status = 200 ∨ r.status = 201 → r.body ≠ replayOf (.obj []) ∧
      ∃ ticketId, r.Names ticketId ∧ ∃ e₀ ∈ w.log, CreatesFor tenantId key body ticketId e₀
  /-- Other bodies get neither. -/
  refused : ∀ e₀ ∈ w.log, ∀ body₀ ticketId, CreatesFor tenantId key body₀ ticketId e₀ →
    ∀ e ∈ w.log, ∀ body born r, Responds tenantId key body born r e → body ≠ body₀ →
      r.status ≠ 200 ∧ r.status ≠ 201
  /-- A request with the body that comes in after the commit gets no other answer than a 200. -/
  repeated : ∀ e₀ ∈ w.log, ∀ body ticketId, CreatesFor tenantId key body ticketId e₀ →
    ∀ e ∈ w.log, ∀ born r, Responds tenantId key body born r e →
      (born.lookup (.idempotencyKeys tenantId key)).isSome = true →
        r.status = 200 ∧ r.Names ticketId
  /-- It gets this answer if it is left alone, whatever the surroundings say. -/
  returns : ∀ e₀ ∈ w.log, ∀ body ticketId, CreatesFor tenantId key body ticketId e₀ →
    ∀ settings answer i l, Client.Gives answer i l
      (program rt (.createTicket settings (some tenantId) (some key) body))
      (fun a _ _ => ∃ r, a = .response r ∧ r.status = 200 ∧ r.Names ticketId) w none

variable {rt : Runtime} {w : ServiceWorld} {tenantId key : String} {body : TicketCreate}
  {ticketId : UUID} {e : LogEntry} {n : NewTicket} {now : Time}

/-! ## Names -/

theorem NewTicket.replay_names (n : NewTicket) (now : Time) :
    Response.Names ⟨200, replayOf (ticketResponse n.ticketId (n.ticket now))⟩ n.ticketId := by
  rw [Response.Names, replayOf, n.response_fields, Json.get?_set, if_neg (by decide)]
  rfl

theorem NewTicket.original_names (n : NewTicket) (now : Time) (status : ℕ) :
    Response.Names ⟨status, excludeNone (ticketResponse n.ticketId (n.ticket now))⟩ n.ticketId := by
  rw [Response.Names, n.excludeNone_response]
  rfl

/-- A placeholder names no ticket. -/
theorem Response.Names.no_placeholder {r : Response} (h : r.Names ticketId) :
    r.body ≠ replayOf (.obj []) := by
  intro hbody
  rw [Names, hbody] at h
  cases h

/-! ## The commit that creates a ticket -/

theorem CreatedBy.creates_for (h : CreatedBy rt n now e) (hkey : n.key = some key) :
    CreatesFor n.tenantId key n.body n.ticketId e := by
  obtain ⟨t, b, hc, rfl, ⟨settings, xTenantId, key', body, hactor, hrequest⟩, -, hchanged⟩ := h
  obtain ⟨hold, hnew⟩ := hchanged.lookup (.tickets n.ticketId) (fun h => h) (n.dlookup_ticket t.start)
  refine ⟨settings, t, b, ?_, hc, hold, by rw [hnew]; rfl⟩
  rw [hactor, hrequest.tenantId, ← hrequest.key, hkey, hrequest.body]

theorem Past.created_for (h : Past rt w) (he : e ∈ w.log) (hc : CreatesFor tenantId key body ticketId e) :
    ∃ n now, CreatedBy rt n now e ∧ n.tenantId = tenantId ∧ n.key = some key ∧ n.body = body ∧
      n.ticketId = ticketId := by
  obtain ⟨settings, t, b, hactor, hcommit, hold, hnew⟩ := hc
  obtain ⟨ticket, hnew⟩ := Option.isSome_iff_exists.mp hnew
  obtain ⟨n, hid, -, hcreates⟩ := (h.legal he hcommit).new_ticket hold hnew
  obtain ⟨settings', xTenantId, key', body', hactor', hrequest⟩ := hcreates.request
  obtain ⟨-, htenant, hkey, hbody⟩ := Actor.createTicket.inj (hactor.symm.trans hactor')
  refine ⟨n, t.start, ⟨t, b, hcommit, rfl, hcreates⟩, ?_, ?_, ?_, hid⟩
  · exact (Option.some.inj (htenant.trans hrequest.tenantId)).symm
  · exact hrequest.key.trans hkey.symm
  · exact hrequest.body.trans hbody.symm

/-- The row of the key stays as it was committed. -/
theorem Past.key_row (h : Past rt w) (he : e ∈ w.log) (hc : CreatedBy rt n now e) (hkey : n.key = some key) :
    w.committed.lookup (.idempotencyKeys n.tenantId key) = some (n.keyRow rt now) := by
  obtain ⟨t, b, hcommit, rfl, hcreates⟩ := hc
  refine (h.later he hcommit).key ?_
  exact (hcreates.changed.lookup (.idempotencyKeys n.tenantId key) (fun h => h)
    (n.dlookup_key t.start hkey)).2

/-- The ticket keeps what it was created with. -/
theorem Past.ticket_row (h : Past rt w) (he : e ∈ w.log) (hc : CreatedBy rt n now e) :
    ∃ ticket, w.committed.lookup (.tickets n.ticketId) = some ticket ∧
      ticket.identity = (n.ticket now).identity := by
  obtain ⟨t, b, hcommit, rfl, hcreates⟩ := hc
  have hnew := (hcreates.changed.lookup (.tickets n.ticketId) (fun h => h) (n.dlookup_ticket t.start)).2
  exact h.later he hcommit (.tickets n.ticketId) trivial _ hnew

/-- The row of the key says all about the request that it is of. -/
theorem Past.created_unique (h : Past rt w) {e' : LogEntry} {n' : NewTicket} {now' : Time}
    (he : e ∈ w.log) (hc : CreatedBy rt n now e) (hkey : n.key = some key) (he' : e' ∈ w.log)
    (hc' : CreatedBy rt n' now' e') (hkey' : n'.key = some key) (htenant : n'.tenantId = n.tenantId) :
    n'.ticketId = n.ticketId ∧ n'.body = n.body := by
  have hrow := h.key_row he hc hkey
  have hrow' := h.key_row he' hc' hkey'
  rw [htenant] at hrow'
  have hid : n'.ticketId = n.ticketId :=
    Option.some.inj (congrArg IdempotencyKey.ticketId (Option.some.inj (hrow'.symm.trans hrow)))
  refine ⟨hid, ?_⟩
  -- the values of the bodies are those of one ticket
  obtain ⟨ticket, hticket, hidentity⟩ := h.ticket_row he hc
  obtain ⟨ticket', hticket', hidentity'⟩ := h.ticket_row he' hc'
  rw [hid] at hticket'
  obtain rfl := Option.some.inj (hticket.symm.trans hticket')
  have hsame := hidentity'.symm.trans hidentity
  simp only [Ticket.identity, NewTicket.ticket, newTicket, Prod.mk.injEq] at hsame
  obtain ⟨-, hplayer, hregion, hqueue, hskill, -, -⟩ := hsame
  exact TicketCreate.ext hplayer hregion hqueue hskill

theorem Past.finalized (h : Past rt w) (he : e ∈ w.log) (hc : CreatedBy rt n now e) :
    (n.keyRow rt now).Finalized rt w.committed n.tenantId n.body n.ticketId where
  responseStatus := rfl
  ticketId := rfl
  requestHash := rfl
  ticket := by
    obtain ⟨ticket, hticket, hidentity⟩ := h.ticket_row he hc
    simp only [Ticket.identity, NewTicket.ticket, newTicket, Prod.mk.injEq] at hidentity
    obtain ⟨htenant, hplayer, hregion, hqueue, hskill, hpartition, hcreated⟩ := hidentity
    refine ⟨ticket, hticket, htenant, hplayer, hregion, hqueue, hskill, ?_⟩
    rw [hpartition, hcreated]
    rfl

/-! ## Answers -/

theorem Responds.keyedBody {born : Tables} {r : Response} (h : Responds tenantId key body born r e) :
    e.actor.keyedBody? = some body := by
  obtain ⟨settings, hactor, -⟩ := h
  rw [hactor]
  rfl

theorem CreatesFor.keyedBody (h : CreatesFor tenantId key body ticketId e) :
    e.actor.keyedBody? = some body := by
  obtain ⟨settings, t, b, hactor, -⟩ := h
  rw [hactor]
  rfl

theorem Past.answer_of (h : Past rt w) (he : e ∈ w.log) {born : Tables} {r : Response}
    (hr : Responds tenantId key body born r e) : AnswerOf rt tenantId key body born r w.committed := by
  obtain ⟨settings, hactor, hevent⟩ := hr
  have hanswered := h.story.answered e he born _ (by rw [hevent]; rfl)
  rw [hactor] at hanswered
  exact hanswered

/-- A 200 or 201 has the hash of the row that it is read from. -/
theorem Past.answer_names (h : Past rt w) (he : e ∈ w.log) {born : Tables} {r : Response}
    (hr : Responds tenantId key body born r e) (hstatus : r.status = 200 ∨ r.status = 201) :
    ∃ n : NewTicket, r.Names n.ticketId ∧ (∃ e₀ ∈ w.log, CreatesFor tenantId key n.body n.ticketId e₀) ∧
      computeRequestHashFromModel rt n.body.modelDump = computeRequestHashFromModel rt body.modelDump := by
  have hanswer := h.answer_of he hr
  obtain hstatus | hstatus := hstatus
  · obtain ⟨row, hrow, hhash, hbody⟩ := hanswer.replayed hstatus
    obtain ⟨n, now, e₀, he₀, hcreated, rfl, hkey, rfl⟩ := h.key_created hrow
    refine ⟨n, ?_, ⟨e₀, he₀, hcreated.creates_for hkey⟩, hhash⟩
    rw [Response.Names, hbody]
    exact n.replay_names now
  · obtain ⟨row, hrow, hhash, hbody⟩ := hanswer.created hstatus
    obtain ⟨n, now, e₀, he₀, hcreated, rfl, hkey, rfl⟩ := h.key_created hrow
    refine ⟨n, ?_, ⟨e₀, he₀, hcreated.creates_for hkey⟩, hhash⟩
    rw [Response.Names, hbody]
    exact n.original_names now 201

/-- Requests whose hashes are the same have the same body. -/
theorem NoCollisions.body_eq {log : List LogEntry} (h : NoCollisions rt log) {e' : LogEntry} (he : e ∈ log)
    (he' : e' ∈ log) {body' : TicketCreate} (hbody : e.actor.keyedBody? = some body)
    (hbody' : e'.actor.keyedBody? = some body')
    (hhash : computeRequestHashFromModel rt body.modelDump
      = computeRequestHashFromModel rt body'.modelDump) : body = body' :=
  TicketCreate.dumps_inj (h e he e' he' body body' hbody hbody' (computeRequestHash_inj hhash))

/-- Whoever repeats a request with a key that is committed, and is left alone, is answered from the
row of the key. -/
theorem replay_gives (hknown : KeysKnown w.committed) {row : IdempotencyKey}
    (hrow : w.committed.lookup (.idempotencyKeys tenantId key) = some row)
    (hhash : row.requestHash = computeRequestHashFromModel rt body.modelDump) (settings : Settings)
    (answer : ℕ → (c : Call) → Reply c) (i : ℕ) (l : Actor) :
    Client.Gives answer i l (program rt (.createTicket settings (some tenantId) (some key) body))
      (fun a _ _ => a = .response ⟨200, replayOf row.responseBody⟩) w none := by
  obtain ⟨tenant, htenant⟩ := Option.isSome_iff_exists.mp (hknown tenantId key row hrow)
  refine .bind (withTenant_gives htenant fun w₁ hs₁ _ => ?_)
  refine .bind (checkIdempotencyKey_gives.mono fun found w₂ T₂ hfound => ?_)
  obtain ⟨rfl, -, rfl⟩ := hfound
  rw [hs₁, hrow, Option.map_some, hhash, decide_eq_true rfl]
  exact .pure (.pure rfl)

/-- **Idempotent creation.** In every run in which SHA-256 has no collisions on the bodies, creating
tickets with a key is idempotent, for every key of every tenant. -/
theorem create_idempotent {clock : Time} {s : ServiceState}
    (hs : (service rt).Reachable (emptyState clock) s) (hsha : NoCollisions rt s.world.log)
    (tenantId key : String) : Idempotent rt s.world tenantId key := by
  have hpast := service_past hs
  -- a 200 or 201 names a ticket, and one that was created for the same body, since the hashes agree
  have hnamed : ∀ e ∈ s.world.log, ∀ body born r, Responds tenantId key body born r e →
      r.status = 200 ∨ r.status = 201 → ∃ ticketId, r.Names ticketId ∧
        ∃ e₀ ∈ s.world.log, CreatesFor tenantId key body ticketId e₀ := by
    intro e he body born r hr hstatus
    obtain ⟨n, hnames, ⟨e₀, he₀, hcreates⟩, hhash⟩ := hpast.answer_names he hr hstatus
    obtain rfl := hsha.body_eq he₀ he hcreates.keyedBody hr.keyedBody hhash
    exact ⟨n.ticketId, hnames, e₀, he₀, hcreates⟩
  -- the key row is written once, so one ticket is created for the key
  have honce : ∀ e ∈ s.world.log, ∀ e' ∈ s.world.log, ∀ body body' ticketId ticketId',
      CreatesFor tenantId key body ticketId e → CreatesFor tenantId key body' ticketId' e' →
        ticketId' = ticketId ∧ body' = body := by
    intro e he e' he' body body' ticketId ticketId' hc hc'
    obtain ⟨n, now, hcreated, rfl, hkey, rfl, rfl⟩ := hpast.created_for he hc
    obtain ⟨n', now', hcreated', htenant, hkey', rfl, rfl⟩ := hpast.created_for he' hc'
    exact hpast.created_unique he hcreated hkey he' hcreated' hkey' htenant
  constructor
  case once => exact honce
  case finalized =>
    intro row hrow
    obtain ⟨n, now, e, he, hcreated, rfl, hkey, rfl⟩ := hpast.key_created hrow
    exact ⟨n.body, n.ticketId, hpast.finalized he hcreated, e, he, hcreated.creates_for hkey⟩
  case named =>
    intro e he body born r hr hstatus
    obtain ⟨ticketId, hnames, hcreates⟩ := hnamed e he body born r hr hstatus
    exact ⟨hnames.no_placeholder, ticketId, hnames, hcreates⟩
  case refused =>
    intro e₀ he₀ body₀ ticketId hcreates e he body born r hr hbody
    rw [← not_or]
    intro hstatus
    obtain ⟨ticketId', -, e₁, he₁, hcreates'⟩ := hnamed e he body born r hr hstatus
    exact hbody (honce e₀ he₀ e₁ he₁ body₀ body ticketId ticketId' hcreates hcreates').2
  case repeated =>
    intro e₀ he₀ body ticketId hcreates e he born r hr hborn
    obtain ⟨n, now, hcreated, rfl, hkey, rfl, rfl⟩ := hpast.created_for he₀ hcreates
    obtain ⟨row, hrow⟩ := Option.isSome_iff_exists.mp hborn
    have hanswer := hpast.answer_of he hr
    obtain ⟨-, -, hevent⟩ := hr
    have hlater := (born_persists hs he hevent).key hrow
    obtain rfl := Option.some.inj (hlater.symm.trans (hpast.key_row he₀ hcreated hkey))
    obtain rfl := hanswer.repeated _ hrow rfl
    exact ⟨rfl, n.replay_names now⟩
  -- a later request, run on its own, finds the key row and replays it
  case returns =>
    intro e₀ he₀ body ticketId hcreates settings answer i l
    obtain ⟨n, now, hcreated, rfl, hkey, rfl, rfl⟩ := hpast.created_for he₀ hcreates
    have hknown : KeysKnown s.world.committed :=
      hpast.invariant (fun _ _ _ h => by cases h) fun _ _ _ => Legal.keysKnown
    refine (replay_gives hknown (hpast.key_row he₀ hcreated hkey) rfl settings answer i l).mono
      fun a _ _ ha => ⟨_, ha, rfl, n.replay_names now⟩

/-! ## Three requests with one key -/

/-- The digests of the bodies of two players, and of their queue. -/
def sampleDigests : List (String × BitVec 256) := [
  ("\x7b\"player_id\":\"p2\",\"queue_name\":\"ranked\",\"region\":\"eu\",\"skill\":0\x7d",
    0xce741a8ed73c289a9b7d83a66c7b1aad49ae810f657253f2be88dd4387d0fab6),
  ("\x7b\"player_id\":\"p3\",\"queue_name\":\"ranked\",\"region\":\"eu\",\"skill\":0\x7d",
    0xbda9dfa285a294b5b595613982bd6191d68a8315421d46d42faeb960b16c3042),
  ("studio_a:eu:ranked", 0xac63284f818b3a46bc1378777e85e21b5e7f7a8384b98a2aab06d94432454dae)]

def digestRuntime : Runtime :=
  { sampleRuntime with sha256 := fun text => (sampleDigests.lookup text).getD 0 }

/-- A request, the same again, and one of another player with the same key. -/
def keyedState : ServiceState :=
  (service digestRuntime).after (runs 0 (.migrate sampleSettings) ++ runs 1 (sampleRequest (some "k") "p2") ++
    runs 2 (sampleRequest (some "k") "p2") ++ runs 3 (sampleRequest (some "k") "p3")) (emptyState 0)

/-- The digests of the two bodies differ. -/
theorem keyed_noCollisions : NoCollisions digestRuntime keyedState.world.log := by
  have hall : keyedState.world.log.all (fun e => keyedState.world.log.all fun e' =>
      e.actor.keyedBody?.all fun body => e'.actor.keyedBody?.all fun body' => body = body' ||
        digestRuntime.sha256 body.modelDump.dumps != digestRuntime.sha256 body'.modelDump.dumps) = true := by
    decide +kernel
  intro e he e' he' body body' hbody hbody' hsha
  have hsame := List.all_eq_true.mp (List.all_eq_true.mp hall e he) e' he'
  rw [hbody, hbody'] at hsame
  simp only [Option.all_some, Bool.or_eq_true, decide_eq_true_eq, bne_iff_ne] at hsame
  exact hsame.elim (fun h => h ▸ rfl) fun h => absurd hsha h

/-- In the run of three requests with one key, whose bodies the digests tell apart, the key is idempotent.
-/
theorem create_idempotent_sample : Idempotent digestRuntime keyedState.world "studio_a" "k" :=
  create_idempotent (System.reachable_after _ _) keyed_noCollisions "studio_a" "k"

end Matchmaking
