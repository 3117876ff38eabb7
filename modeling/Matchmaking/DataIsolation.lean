import Matchmaking.Integrity
import Matchmaking.RunAlone

/-!
# Isolation of the tenants' data

What the requests that read and cancel tickets and matches show and change depends on the rows of their
own tenant alone. The query for the players of a match does not ask for the tenant; that it shows no
other tenant's players rests on the invariant that the players of a match belong to its tenant.
-/

namespace Matchmaking

open ReadCommitted

/-! ## Rows of a tenant -/

/-- The ticket is one of the tenant's. -/
def OwnTicket (tenantId : String) (s : Tables) (id : UUID) : Prop :=
  ∃ t, s.lookup (.tickets id) = some t ∧ t.tenantId = tenantId

/-- The tables agree on the tickets and matches of the tenant, and on the players with its tickets. -/
structure AgreeOnRows (tenantId : String) (s s' : Tables) : Prop where
  tickets : ∀ id t, t.tenantId = tenantId →
    (s'.lookup (.tickets id) = some t ↔ s.lookup (.tickets id) = some t)
  matchRows : ∀ id m, m.tenantId = tenantId →
    (s'.lookup (.matches id) = some m ↔ s.lookup (.matches id) = some m)
  players : ∀ m id, OwnTicket tenantId s id →
    s'.lookup (.matchPlayers m id) = s.lookup (.matchPlayers m id)

/-- A request of the tenant for its tickets and matches. -/
inductive DataRequest (tenantId : String) : Actor → Prop
  | list : DataRequest tenantId (.listTickets (some tenantId))
  | get (text : String) : DataRequest tenantId (.getTicket (some tenantId) text)
  | cancel (text : String) : DataRequest tenantId (.cancelTicket (some tenantId) text)
  | getMatch (text : String) : DataRequest tenantId (.getMatch (some tenantId) text)

/-- It is made as the tenant: `require_tenant` finds the tenant. -/
def MadeAs (tenantId : String) (l : Actor) (s : Tables) : Prop :=
  DataRequest tenantId l ∧ (s.lookup (.tenants tenantId)).isSome = true

/-- Two outcomes that are the same up to the order of rows and the time of a cancellation. -/
inductive SameOutcome : Except Exn Answer → Except Exn Answer → Prop
  | same (r : Except Exn Answer) : SameOutcome r r
  | rows {items items' : List Json} (h : items.Perm items') :
    SameOutcome (.ok (.response ⟨200, .arr items⟩)) (.ok (.response ⟨200, .arr items'⟩))
  | players (fields : List (String × Json)) {items items' : List Json} (h : items.Perm items') :
    SameOutcome (.ok (.response ⟨200, .obj (fields ++ [("players", .arr items)])⟩))
      (.ok (.response ⟨200, .obj (fields ++ [("players", .arr items')])⟩))
  | cancelled (fields : List (String × Json)) (u u' : Time) :
    SameOutcome (.ok (.response ⟨200, .obj (fields ++ [("cancelled_at", .str (isoText u))])⟩))
      (.ok (.response ⟨200, .obj (fields ++ [("cancelled_at", .str (isoText u'))])⟩))

namespace Json

mutual

/-- The values of the fields `name`, at any depth. -/
def valuesAt (name : String) : Json → List Json
  | .obj fields => valuesAtFields name fields
  | .arr items => valuesAtItems name items
  | _ => []

/-- What the items of an array have under the name. -/
def valuesAtItems (name : String) : List Json → List Json
  | [] => []
  | j :: js => j.valuesAt name ++ valuesAtItems name js

/-- What the fields of an object have under the name, including those of the values inside them. -/
def valuesAtFields (name : String) : List (String × Json) → List Json
  | [] => []
  | (n, j) :: fs => (if n = name then [j] else []) ++ (j.valuesAt name ++ valuesAtFields name fs)

end

/-- A value under a name in an array is one in some item. -/
theorem mem_valuesAtItems {name : String} {items : List Json} {v : Json} :
    v ∈ valuesAtItems name items ↔ ∃ j ∈ items, v ∈ j.valuesAt name := by
  induction items with
  | nil => simp [valuesAtItems]
  | cons j js ih => simp [valuesAtItems, ih]

/-- A value under a name in an object is the field itself or stands within some field. -/
theorem mem_valuesAtFields {name : String} {fields : List (String × Json)} {v : Json} :
    v ∈ valuesAtFields name fields ↔
      ∃ f ∈ fields, f.1 = name ∧ v = f.2 ∨ v ∈ f.2.valuesAt name := by
  induction fields with
  | nil => simp [valuesAtFields]
  | cons f fs ih =>
    obtain ⟨n, j⟩ := f
    by_cases hn : n = name <;> simp [valuesAtFields, ih, hn, or_assoc]

end Json

/-- Every ticket that the document names is one of the tenant's, and every player is that of such a
ticket. -/
structure ShowsOwn (tenantId : String) (s : Tables) (body : Json) : Prop where
  ticketIds : ∀ v ∈ body.valuesAt "ticket_id", ∃ id, v = .str (uuidText id) ∧ OwnTicket tenantId s id
  playerIds : ∀ v ∈ body.valuesAt "player_id", ∃ id t, s.lookup (.tickets id) = some t ∧
    t.tenantId = tenantId ∧ v = .str t.playerId

/-- No row has changed but a ticket of the tenant, which stays the tenant's. -/
def ChangesOwn (tenantId : String) (s s' : Tables) : Prop :=
  s' = s ∨ ∃ id, OwnTicket tenantId s id ∧ OwnTicket tenantId s' id ∧
    ∀ k, ¬ IsIndexKey k → k ≠ .tickets id → s'.lookup k = s.lookup k

/-! ## What the requests do -/

section Requests

variable {rt : Runtime} {answer : ℕ → (c : Call) → Reply c} {i : ℕ} {l : Actor} {w : ServiceWorld}
  {tenantId text : String}

/-- The waiting tickets of the tenant. -/
def waitingRows (tenantId : String) (s : Tables) : List (UUID × Ticket) :=
  (rowsOf ticketRow s).filter fun p => p.2.tenantId = tenantId && p.2.status = .waiting

/-- Run alone, `list_tickets` answers with the waiting tickets of the tenant, in some order, and changes
nothing. -/
theorem listTickets_gives : Client.Gives answer i l (listTickets tenantId)
    (fun r w' T => T = none ∧ w'.committed = w.committed ∧
      ∃ rows : List (UUID × Ticket), rows.Perm (waitingRows tenantId w.committed) ∧
        r = ⟨200, .arr (rows.map fun p => ticketResponse p.1 p.2)⟩) w none := by
  refine .bind (.call_now (.bind (autocommit_select_gives fun w' hs _ => .pure ⟨rfl, hs, ?_⟩)))
  exact ⟨_, orderBy_perm _ _, rfl⟩

/-- A text that is no `uuid` raises. -/
theorem checkUuid_malformed {α : Type} {f : UUID → Db α} (hid : rt.uuidIn text = none) :
    Client.Ends answer i l (checkUuid rt text >>= f)
      (fun r w' T => T = none ∧ w' = w ∧ r = .error (.other "invalid UUID")) w none := by
  unfold checkUuid
  rw [hid]
  exact .bind (.throw ⟨rfl, rfl, rfl⟩)

/-- Else the request goes on with the id. -/
theorem checkUuid_gives {α : Type} {f : UUID → Db α} {id : UUID} (hid : rt.uuidIn text = some id)
    {Q : α → ServiceWorld → Option (Txn Row) → Prop} (h : Client.Gives answer i l (f id) Q w none) :
    Client.Gives answer i l (checkUuid rt text >>= f) Q w none := by
  unfold checkUuid
  rw [hid]
  exact .bind (.pure h)

/-- The row that a request for the ticket `id` gets to see. -/
def ownTicket? (tenantId : String) (id : UUID) (s : Tables) : Option Ticket :=
  (s.lookup (.tickets id)).filter fun t => t.tenantId = tenantId

/-- The row that a request for the match `id` gets to see. -/
def ownMatch? (tenantId : String) (id : UUID) (s : Tables) : Option Match :=
  (s.lookup (.matches id)).filter fun m => m.tenantId = tenantId

/-- The answer about a ticket. -/
def ticketAnswer (id : UUID) : Option Ticket → Response
  | none => httpException 404 "Ticket not found"
  | some t => ⟨200, excludeNone (ticketResponse id t)⟩

/-- Run alone, `get_ticket` answers with the tenant's own ticket of that id or with a 404, and changes
nothing. -/
theorem getTicket_gives {id : UUID} (hid : rt.uuidIn text = some id) :
    Client.Gives answer i l (getTicket rt text tenantId) (fun r w' T => T = none ∧
      w'.committed = w.committed ∧ r = ticketAnswer id (ownTicket? tenantId id w.committed)) w none := by
  refine checkUuid_gives hid (.bind (autocommit_select_gives fun w' hs _ => ?_))
  show Client.Gives answer i l (match ownTicket? tenantId id w.committed with
    | none => pure (httpException 404 "Ticket not found")
    | some t => pure ⟨200, excludeNone (ticketResponse id t)⟩) _ w' none
  cases ownTicket? tenantId id w.committed with
  | none => exact .pure ⟨rfl, hs, rfl⟩
  | some t => exact .pure ⟨rfl, hs, rfl⟩

/-- The fields of a match before its players. -/
def matchFields (id : UUID) (m : Match) : List (String × Json) := [
  ("match_id", .str (uuidText id)),
  ("tenant_id", .str m.tenantId),
  ("region", .str m.region),
  ("queue_name", .str m.queueName),
  ("partition_id", .int m.partitionId),
  ("status", .str m.status.text),
  ("created_at", .str (isoText m.createdAt))]

/-- The answer about a match with these players. -/
def matchAnswer (id : UUID) (players : List (UUID × MatchPlayer)) : Option Match → Response
  | none => httpException 404 "Match not found"
  | some m => ⟨200, .obj (matchFields id m ++ [("players", .arr (players.map fun p =>
      .obj [("player_id", .str p.2.playerId), ("ticket_id", .str (uuidText p.1))]))])⟩

/-- Run alone, `get_match` answers with the tenant's own match of that id and with its players, in some
order. -/
theorem getMatch_gives {id : UUID} (hid : rt.uuidIn text = some id) :
    Client.Gives answer i l (getMatch rt text tenantId) (fun r w' T => T = none ∧
      w'.committed = w.committed ∧ ∃ players : List (UUID × MatchPlayer),
        players.Perm (rowsOf (playerRow id) w.committed) ∧
          r = matchAnswer id players (ownMatch? tenantId id w.committed)) w none := by
  refine checkUuid_gives hid (.bind (autocommit_select_gives fun w₁ hs₁ _ => ?_))
  change Client.Gives answer i l (match ownMatch? tenantId id w.committed with
    | none => pure (httpException 404 "Match not found")
    | some m => _) _ w₁ none
  cases ownMatch? tenantId id w.committed with
  | none => exact .pure ⟨rfl, hs₁, _, .refl _, rfl⟩
  | some m =>
    refine .bind (.call_now (.bind (onConnection_select_gives fun w₂ hs₂ _ => .pure ⟨rfl, hs₂.trans hs₁, ?_⟩)))
    have hs : (w₁.push i l (.call .tieBreak (.ok (answer w₁.log.length .tieBreak)))).committed = w.committed := hs₁
    rw [hs]
    exact ⟨_, orderBy_perm _ _, rfl⟩

/-- The ticket as it is cancelled, if the tenant can cancel it. -/
def cancellable? (tenantId : String) (id : UUID) (s : Tables) : Option Ticket :=
  (s.lookup (.tickets id)).filter fun t => t.isCancellable tenantId

/-- The answer to the request to cancel a ticket at time `now`. -/
def cancelAnswer (id : UUID) (now : Time) : Option Ticket → Response
  | none => httpException 404 "Ticket not found"
  | some _ => ⟨200, .obj ([("ticket_id", .str (uuidText id)), ("status", .str TicketStatus.cancelled.text)] ++
      [("cancelled_at", .str (isoText now))])⟩

/-- The tables after the request. -/
def CancelEffect (id : UUID) (now : Time) (s s' : Tables) : Option Ticket → Prop
  | none => s' = s
  | some t => s'.lookup (.tickets id) = some (t.cancelled now) ∧
      ∀ k, ¬ IsIndexKey k → k ≠ .tickets id → s'.lookup k = s.lookup k

/-- A ticket that is over has no entry in the index. -/
theorem indexTicket_gives {now : Time} {s : Tables} {T : Option (Txn Row)} {t : Ticket} {id : UUID}
    (ht : t.status.isActive = false) (h : SeesAt now s w T)
    {Q : Unit → ServiceWorld → Option (Txn Row) → Prop}
    (hQ : ∀ s' T', SeesAt now s' w T' → (∀ k, ¬ IsIndexKey k → s'.lookup k = s.lookup k) → Q () w T') :
    Client.Gives answer i l (indexTicket id t) Q w T := by
  have hframe : ∀ k, ¬ IsIndexKey k → (writeRow ⟨t.indexKey, none⟩ s).lookup k = s.lookup k := by
    intro k hk
    have hne : k ≠ t.indexKey := by
      rintro rfl
      exact hk trivial
    exact @lookup_writeRow_ne _ _ _ k ⟨t.indexKey, none⟩ hne s
  have hleave : ∀ T', SeesAt now s w T' → Client.Gives answer i l (pure () : Db Unit) Q w T' :=
    fun T' h' => .pure (hQ s T' h' fun _ _ => rfl)
  by_cases hown : ∃ id', s.lookup t.indexKey = some id' ∧ id' = id
  · obtain ⟨id', hentry, rfl⟩ := hown
    refine .bind (.row_delete h ?_ fun T' h' => .pure (hQ _ T' h' hframe))
    rw [ht, hentry]
    exact if_pos rfl
  · refine .bind (.row_leave h ?_ hleave)
    rw [ht]
    cases hentry : s.lookup t.indexKey with
    | none => rfl
    | some id' => exact if_neg fun hid => hown ⟨id', hentry, hid⟩

/-- The update as the session sees it. -/
theorem cancelUpdate_gives {now : Time} {s : Tables} {T : Option (Txn Row)} {id : UUID}
    (h : SeesAt now s w T) :
    Client.Gives answer i l (updateTicket id (fun _ t => t.isCancellable tenantId) Ticket.cancelled)
      (fun found w₁ T₁ => w₁ = w ∧ found = (cancellable? tenantId id s).map (Ticket.cancelled now) ∧
        ∃ s', SeesAt now s' w T₁ ∧ CancelEffect id now s s' (cancellable? tenantId id s)) w T := by
  refine .bind (.select_at h fun T₁ h₁ => ?_)
  cases hrow : s.lookup (.tickets id) with
  | none =>
    have hnone : cancellable? tenantId id s = none := by
      rw [cancellable?, hrow]
      rfl
    rw [hnone]
    exact .pure ⟨rfl, rfl, s, h₁, rfl⟩
  | some t =>
    rw [Option.any_some]
    dsimp only
    by_cases hcan : t.isCancellable tenantId = true
    case neg =>
      have hnone : cancellable? tenantId id s = none := by
        rw [cancellable?, hrow, Option.filter_some, if_neg hcan]
      rw [if_neg hcan, hnone]
      exact .pure ⟨rfl, rfl, s, h₁, rfl⟩
    case pos =>
      have hsome : cancellable? tenantId id s = some t := by
        rw [cancellable?, hrow, Option.filter_some, if_pos hcan]
      rw [if_pos hcan, hsome]
      have hput : Client.Gives answer i l (updateRow (.tickets id) (fun _ t => t.isCancellable tenantId)
          Ticket.cancelled) (fun found w₁ T => found = some (t.cancelled now) ∧ w₁ = w ∧
            SeesAt now (writeRow ⟨.tickets id, some (t.cancelled now)⟩ s) w₁ T) w T₁ := by
        refine .row_put h₁ ?_ fun T₂ h₂ => ⟨rfl, rfl, h₂⟩
        rw [hrow]
        exact if_pos hcan
      refine .bind (hput.mono fun found w₁ T₂ hfound => ?_)
      obtain ⟨rfl, rfl, h₂⟩ := hfound
      refine .bind (indexTicket_gives rfl h₂ fun s' T₃ h₃ hframe => .pure ⟨rfl, rfl, s', h₃, ?_, ?_⟩)
      · exact (hframe (.tickets id) fun h => h).trans (lookup_writeRow_self ..)
      · exact fun k hk hne => (hframe k hk).trans (lookup_writeRow_ne hne _)

/-- Run alone, `cancel_ticket` cancels the ticket if the tenant may, and else tells why not; nothing else is
changed. -/
theorem cancelTicket_gives {id : UUID} (hid : rt.uuidIn text = some id) :
    Client.Gives answer i l (cancelTicket rt text tenantId) (fun r w' T => T = none ∧
      r = cancelAnswer id w.clock (cancellable? tenantId id w.committed) ∧
      CancelEffect id w.clock w.committed w'.committed (cancellable? tenantId id w.committed)) w none := by
  have hupdate : Client.Gives answer i l
      (autocommit (updateTicket id (fun _ t => t.isCancellable tenantId) Ticket.cancelled))
      (fun found w' T => T = none ∧
        found = (cancellable? tenantId id w.committed).map (Ticket.cancelled w.clock) ∧
        CancelEffect id w.clock w.committed w'.committed (cancellable? tenantId id w.committed)) w none := by
    refine autocommit_gives fun w₁ T₁ hsees _ => (cancelUpdate_gives hsees).mono fun found w₂ T₂ h => ?_
    obtain ⟨rfl, hfound, s', hsees', heffect⟩ := h
    exact ⟨s', hsees'.toSees, fun w₃ hs _ => ⟨rfl, hfound, hs ▸ heffect⟩⟩
  refine checkUuid_gives hid (.bind (hupdate.mono fun found w₁ T₁ h => ?_))
  obtain ⟨rfl, rfl, heffect⟩ := h
  cases hfound : cancellable? tenantId id w.committed with
  | none =>
    rw [hfound] at heffect
    exact .pure ⟨rfl, rfl, heffect⟩
  | some t =>
    rw [hfound] at heffect
    exact .bind (.emit (.bind (.emit (.pure ⟨rfl, rfl, heffect⟩))))

end Requests

/-! ## Whose rows are shown -/

section Own

variable {tenantId : String} {s s' : Tables}

/-- A player has the name of the ticket. -/
def PlayersNamed (s : Tables) : Prop := ∀ m id p, s.lookup (.matchPlayers m id) = some p →
  ∃ t, s.lookup (.tickets id) = some t ∧ t.playerId = p.playerId

/-- A commit keeps each player of a match naming a ticket, with the ticket's own player: matches are only made
from tickets, and tickets keep their identity. -/
theorem Legal.playersNamed {rt : Runtime} {l : Actor} {t : Txn Row} (h : Legal rt l t s) (hs : PlayersNamed s) :
    PlayersNamed (patch t.writes s) := by
  have hstays : ∀ m id p, s.lookup (.matchPlayers m id) = some p →
      ∃ tk, (patch t.writes s).lookup (.tickets id) = some tk ∧ tk.playerId = p.playerId := by
    intro m id p hp
    obtain ⟨tk, htk, hname⟩ := hs m id p hp
    obtain ⟨tk', htk', hid⟩ := h.persist (.tickets id) trivial tk htk
    exact ⟨tk', htk', (congrArg (fun c => c.2.1) hid).trans hname⟩
  intro m id p hp
  obtain hun | ⟨n, -, hn, -, hchanged⟩ := h.unpaired_or_makes
  · exact hstays m id p ((hun.players m id).symm.trans hp)
  by_cases hnew : m = n.matchId ∧ (id = n.firstId ∨ id = n.secondId)
  · obtain ⟨rfl, rfl | rfl⟩ := hnew
    · have hplayer := (hchanged.lookup (.matchPlayers n.matchId n.firstId) (fun h => h)
        (n.dlookup_firstPlayer t.start hn.apart)).2
      obtain rfl := Option.some.inj (hplayer.symm.trans hp)
      exact ⟨_, (hchanged.lookup (.tickets n.firstId) (fun h => h)
        (n.dlookup_first t.start hn.apart)).2, rfl⟩
    · have hplayer := (hchanged.lookup (.matchPlayers n.matchId n.secondId) (fun h => h)
        (n.dlookup_secondPlayer t.start)).2
      obtain rfl := Option.some.inj (hplayer.symm.trans hp)
      exact ⟨_, (hchanged.lookup (.tickets n.secondId) (fun h => h) (n.dlookup_second t.start)).2, rfl⟩
  · rw [not_and_or, not_or] at hnew
    exact hstays m id p ((NewMatch.frame_player hchanged hnew).symm.trans hp)

/-- Tables in which matches, players and tickets agree. -/
structure PlayersOwn (s : Tables) : Prop where
  paired : Paired s
  named : PlayersNamed s

/-- In a state with a past, the players of a tenant's match come from tickets of that tenant. -/
theorem Past.playersOwn {rt : Runtime} {w : ServiceWorld} (h : Past rt w) : PlayersOwn w.committed where
  paired := h.invariant .empty fun _ _ _ => Legal.paired
  named := h.invariant (fun _ _ _ h => by cases h) fun _ _ _ => Legal.playersNamed

/-- The players of a match of the tenant are those of tickets of the tenant. -/
theorem PlayersOwn.ticket (h : PlayersOwn s) {m id : UUID} {row : Match} {p : MatchPlayer}
    (hrow : s.lookup (.matches m) = some row) (hp : s.lookup (.matchPlayers m id) = some p) :
    ∃ t, s.lookup (.tickets id) = some t ∧ t.tenantId = row.tenantId ∧ t.playerId = p.playerId := by
  obtain ⟨t, row', ht, hrow', -, -, htenant, -⟩ := h.paired.player m id (by rw [hp]; rfl)
  obtain ⟨t', ht', hname⟩ := h.named m id p hp
  obtain rfl := Option.some.inj (hrow.symm.trans hrow')
  obtain rfl := Option.some.inj (ht.symm.trans ht')
  exact ⟨t, ht, htenant, hname⟩

/-- States that agree on the rows of a tenant agree on which ids are tickets of the tenant. -/
theorem AgreeOnRows.ownTicket (h : AgreeOnRows tenantId s s') {id : UUID} :
    OwnTicket tenantId s' id ↔ OwnTicket tenantId s id := by
  constructor <;> rintro ⟨t, ht, htenant⟩
  · exact ⟨t, (h.tickets id t htenant).mp ht, htenant⟩
  · exact ⟨t, (h.tickets id t htenant).mpr ht, htenant⟩

/-- The players of a match of the tenant are the same in both. -/
theorem AgreeOnRows.players_perm (h : AgreeOnRows tenantId s s') (hs : PlayersOwn s) (hs' : PlayersOwn s')
    {m : UUID} {row : Match} (hrow : s.lookup (.matches m) = some row) (htenant : row.tenantId = tenantId) :
    (rowsOf (playerRow m) s').Perm (rowsOf (playerRow m) s) := by
  refine (List.perm_ext_iff_of_nodup (playerRows_nodup m s') (playerRows_nodup m s)).mpr ?_
  rintro ⟨id, p⟩
  rw [mem_rowsOf_playerRow, mem_rowsOf_playerRow]
  have hrow' := (h.matchRows m row htenant).mpr hrow
  constructor <;> intro hp
  · obtain ⟨t, ht, hown, -⟩ := hs'.ticket hrow' hp
    rw [← h.players m id (h.ownTicket.mp ⟨t, ht, hown.trans htenant⟩)]
    exact hp
  · obtain ⟨t, ht, hown, -⟩ := hs.ticket hrow hp
    rw [h.players m id ⟨t, ht, hown.trans htenant⟩]
    exact hp

/-- What is filtered by the tenant is the same in both. -/
theorem AgreeOnRows.filter_ticket (h : AgreeOnRows tenantId s s') {id : UUID} {p : Ticket → Bool}
    (hp : ∀ t, p t = true → t.tenantId = tenantId) :
    (s'.lookup (.tickets id)).filter p = (s.lookup (.tickets id)).filter p := by
  ext t
  rw [Option.filter_eq_some_iff, Option.filter_eq_some_iff]
  exact and_congr_left fun ht => h.tickets id t (hp t ht)

/-- States that agree on the rows of a tenant agree on the tenant's matches as well. -/
theorem AgreeOnRows.ownMatch (h : AgreeOnRows tenantId s s') {id : UUID} :
    ownMatch? tenantId id s' = ownMatch? tenantId id s := by
  ext m
  rw [ownMatch?, ownMatch?, Option.filter_eq_some_iff, Option.filter_eq_some_iff]
  exact and_congr_left fun hm => h.matchRows id m (of_decide_eq_true hm)

/-- Lists of waiting tickets have the same rows in both, if not in the same order. -/
theorem AgreeOnRows.waiting_perm (h : AgreeOnRows tenantId s s') :
    (waitingRows tenantId s').Perm (waitingRows tenantId s) := by
  refine (List.perm_ext_iff_of_nodup ((ticketRows_nodup s').filter _)
    ((ticketRows_nodup s).filter _)).mpr ?_
  rintro ⟨id, t⟩
  rw [List.mem_filter, List.mem_filter, mem_rowsOf_ticketRow, mem_rowsOf_ticketRow]
  refine and_congr_left fun hp => h.tickets id t ?_
  simp only [Bool.and_eq_true, decide_eq_true_eq] at hp
  exact hp.1

end Own

/-! ## What the answers show -/

section Shown

variable {tenantId : String} {s : Tables} {id : UUID}

theorem Json.mem_valuesAt_excludeNone {name : String} {j v : Json}
    (h : v ∈ (excludeNone j).valuesAt name) : v ∈ j.valuesAt name := by
  cases j with
  | obj fields =>
    obtain ⟨f, hf, hv⟩ := Json.mem_valuesAtFields.mp h
    exact Json.mem_valuesAtFields.mpr ⟨f, (List.mem_filter.mp hf).1, hv⟩
  | _ => exact h

/-- The fields that are absent or a text name nothing. -/
theorem Json.valuesAt_elim {α : Type} (name : String) (o : Option α) (f : α → String) :
    (o.elim Json.null fun a => .str (f a)).valuesAt name = [] := by
  cases o <;> rfl

/-- The representation of a ticket shows one ticket id, its own. -/
theorem ticketResponse_ids (t : Ticket) :
    (ticketResponse id t).valuesAt "ticket_id" = [.str (uuidText id)] := by
  simp [ticketResponse, Json.valuesAt, Json.valuesAtFields, Json.valuesAt_elim]

/-- It shows one player, who has asked for the ticket. -/
theorem ticketResponse_players (t : Ticket) :
    (ticketResponse id t).valuesAt "player_id" = [.str t.playerId] := by
  simp [ticketResponse, Json.valuesAt, Json.valuesAtFields, Json.valuesAt_elim]

/-- A ticket of the tenant can be shown to it. -/
theorem ShowsOwn.ticket {t : Ticket} (ht : s.lookup (.tickets id) = some t) (htenant : t.tenantId = tenantId) :
    ShowsOwn tenantId s (ticketResponse id t) where
  ticketIds v hv := by
    rw [ticketResponse_ids] at hv
    exact ⟨id, List.mem_singleton.mp hv, t, ht, htenant⟩
  playerIds v hv := by
    rw [ticketResponse_players] at hv
    exact ⟨id, t, ht, htenant, List.mem_singleton.mp hv⟩

/-- An answer that shows only a tenant's own data still does so without its null fields. -/
theorem ShowsOwn.excludeNone {j : Json} (h : ShowsOwn tenantId s j) : ShowsOwn tenantId s (excludeNone j) where
  ticketIds v hv := h.ticketIds v (Json.mem_valuesAt_excludeNone hv)
  playerIds v hv := h.playerIds v (Json.mem_valuesAt_excludeNone hv)

/-- A list shows own data only if each of its items does. -/
theorem ShowsOwn.arr {items : List Json} (h : ∀ j ∈ items, ShowsOwn tenantId s j) :
    ShowsOwn tenantId s (.arr items) where
  ticketIds v hv := by
    obtain ⟨j, hj, hv⟩ := Json.mem_valuesAtItems.mp hv
    exact (h j hj).ticketIds v hv
  playerIds v hv := by
    obtain ⟨j, hj, hv⟩ := Json.mem_valuesAtItems.mp hv
    exact (h j hj).playerIds v hv

/-- A document that names nothing. -/
theorem ShowsOwn.none {j : Json} (hids : j.valuesAt "ticket_id" = []) (hplayers : j.valuesAt "player_id" = []) :
    ShowsOwn tenantId s j where
  ticketIds v hv := by
    rw [hids] at hv
    exact (List.not_mem_nil hv).elim
  playerIds v hv := by
    rw [hplayers] at hv
    exact (List.not_mem_nil hv).elim

/-- What `get_ticket` answers is the tenant's own, also when it is an error. -/
theorem ticketAnswer_own : ShowsOwn tenantId s (ticketAnswer id (ownTicket? tenantId id s)).body := by
  cases hrow : ownTicket? tenantId id s with
  | none => exact .none rfl rfl
  | some t =>
    obtain ⟨ht, htenant⟩ := Option.filter_eq_some_iff.mp hrow
    exact (ShowsOwn.ticket ht (of_decide_eq_true htenant)).excludeNone

/-- What `list_tickets` answers is the tenant's own, whatever the order of the rows. -/
theorem waitingRows_own {rows : List (UUID × Ticket)} (h : rows.Perm (waitingRows tenantId s)) :
    ShowsOwn tenantId s (.arr (rows.map fun p => ticketResponse p.1 p.2)) := by
  refine .arr fun j hj => ?_
  obtain ⟨⟨id, t⟩, hp, rfl⟩ := List.mem_map.mp hj
  obtain ⟨hrow, hwaiting⟩ := List.mem_filter.mp (h.subset hp)
  simp only [Bool.and_eq_true, decide_eq_true_eq] at hwaiting
  exact .ticket (mem_rowsOf_ticketRow.mp hrow) hwaiting.1

/-- One player of the tenant. -/
theorem ShowsOwn.player {t : Ticket} {p : MatchPlayer} (ht : s.lookup (.tickets id) = some t)
    (htenant : t.tenantId = tenantId) (hname : t.playerId = p.playerId) : ShowsOwn tenantId s
      (.obj [("player_id", .str p.playerId), ("ticket_id", .str (uuidText id))]) where
  ticketIds v hv := by
    obtain rfl := List.mem_singleton.mp hv
    exact ⟨id, rfl, t, ht, htenant⟩
  playerIds v hv := by
    obtain rfl := List.mem_singleton.mp hv
    exact ⟨id, t, ht, htenant, by rw [hname]⟩

/-- Apart from its players, a match names no ticket and no player. -/
theorem ShowsOwn.match_players {row : Match} {players : Json} (h : ShowsOwn tenantId s players) :
    ShowsOwn tenantId s (.obj (matchFields id row ++ [("players", players)])) where
  ticketIds v hv := h.ticketIds v (List.append_nil (players.valuesAt "ticket_id") ▸ hv)
  playerIds v hv := h.playerIds v (List.append_nil (players.valuesAt "player_id") ▸ hv)

/-- What `get_match` answers is the tenant's own, since so are the players of its match. -/
theorem matchAnswer_own (hs : PlayersOwn s) {players : List (UUID × MatchPlayer)}
    (h : players.Perm (rowsOf (playerRow id) s)) :
    ShowsOwn tenantId s (matchAnswer id players (ownMatch? tenantId id s)).body := by
  cases hrow : ownMatch? tenantId id s with
  | none => exact .none rfl rfl
  | some row =>
    obtain ⟨hmatch, htenant⟩ := Option.filter_eq_some_iff.mp hrow
    refine .match_players (.arr fun j hj => ?_)
    obtain ⟨⟨x, p⟩, hp, rfl⟩ := List.mem_map.mp hj
    obtain ⟨t, ht, hown, hname⟩ := hs.ticket hmatch (mem_rowsOf_playerRow.mp (h.subset hp))
    exact .player ht (hown.trans (of_decide_eq_true htenant)) hname

theorem cancelAnswer_own {now : Time} :
    ShowsOwn tenantId s (cancelAnswer id now (cancellable? tenantId id s)).body := by
  cases hrow : cancellable? tenantId id s with
  | none => exact .none rfl rfl
  | some t =>
    obtain ⟨ht, hcan⟩ := Option.filter_eq_some_iff.mp hrow
    simp only [Ticket.isCancellable, Bool.and_eq_true, decide_eq_true_eq] at hcan
    constructor <;> intro v hv
    · obtain rfl := List.mem_singleton.mp hv
      exact ⟨id, rfl, t, ht, hcan.1⟩
    · exact (List.not_mem_nil hv).elim

end Shown

/-! ## Isolation -/

/-- The text by which a request names a ticket or a match. -/
def Actor.namedId? : Actor → Option String
  | .getTicket _ text | .cancelTicket _ text | .getMatch _ text => some text
  | _ => none

/-- How a request of the tenant ends on the tables `s` at the time `now`: its outcome, and the tables
afterwards. -/
inductive Serves (rt : Runtime) (tenantId : String) (now : Time) (s : Tables) :
    Actor → Except Exn Answer → Tables → Prop
  | list {rows : List (UUID × Ticket)} (h : rows.Perm (waitingRows tenantId s)) :
    Serves rt tenantId now s (.listTickets (some tenantId))
      (.ok (.response ⟨200, .arr (rows.map fun p => ticketResponse p.1 p.2)⟩)) s
  | get {text : String} {id : UUID} (hid : rt.uuidIn text = some id) :
    Serves rt tenantId now s (.getTicket (some tenantId) text)
      (.ok (.response (ticketAnswer id (ownTicket? tenantId id s)))) s
  | cancel {text : String} {id : UUID} {s' : Tables} (hid : rt.uuidIn text = some id)
    (h : CancelEffect id now s s' (cancellable? tenantId id s)) :
    Serves rt tenantId now s (.cancelTicket (some tenantId) text)
      (.ok (.response (cancelAnswer id now (cancellable? tenantId id s)))) s'
  | getMatch {text : String} {id : UUID} {players : List (UUID × MatchPlayer)}
    (hid : rt.uuidIn text = some id) (h : players.Perm (rowsOf (playerRow id) s)) :
    Serves rt tenantId now s (.getMatch (some tenantId) text)
      (.ok (.response (matchAnswer id players (ownMatch? tenantId id s)))) s
  | malformed {l : Actor} {text : String} (hl : l.namedId? = some text) (hid : rt.uuidIn text = none) :
    Serves rt tenantId now s l (.error (.other "invalid UUID")) s

section Isolation

variable {rt : Runtime} {answer : ℕ → (c : Call) → Reply c} {i : ℕ} {l : Actor} {w : ServiceWorld}
  {tenantId : String} {now now' : Time} {s s' s₁ s₁' : Tables} {r r' : Except Exn Answer}

/-- Requests of the tenant are served. -/
theorem MadeAs.served (h : MadeAs tenantId l w.committed) : Client.Ends answer i l (program rt l)
    (fun r w' T => T = none ∧ Serves rt tenantId w.clock w.committed l r w'.committed) w none := by
  obtain ⟨hl, hknown⟩ := h
  obtain ⟨tenant, htenant⟩ := Option.isSome_iff_exists.mp hknown
  cases hl with
  | list =>
    refine .of_gives (.bind (withTenant_gives htenant fun w₁ hs _ => ?_))
    refine listTickets_gives.mono fun r w₂ T h => .pure ?_
    obtain ⟨rfl, hs₂, rows, hrows, rfl⟩ := h
    rw [hs] at hs₂ hrows
    rw [hs₂]
    exact ⟨rfl, .list hrows⟩
  | get text =>
    refine .bind (withTenant_ends htenant fun w₁ hs hclock => ?_)
    cases hid : rt.uuidIn text with
    | none =>
      refine (checkUuid_malformed hid).mono fun r w₂ T h => ?_
      obtain ⟨rfl, rfl, rfl⟩ := h
      rw [hs]
      exact ⟨rfl, .malformed rfl hid⟩
    | some id =>
      refine .of_gives ((getTicket_gives hid).mono fun r w₂ T h => .pure ?_)
      obtain ⟨rfl, hs₂, rfl⟩ := h
      rw [hs₂, hs]
      exact ⟨rfl, .get hid⟩
  | cancel text =>
    refine .bind (withTenant_ends htenant fun w₁ hs hclock => ?_)
    cases hid : rt.uuidIn text with
    | none =>
      refine (checkUuid_malformed hid).mono fun r w₂ T h => ?_
      obtain ⟨rfl, rfl, rfl⟩ := h
      rw [hs]
      exact ⟨rfl, .malformed rfl hid⟩
    | some id =>
      refine .of_gives ((cancelTicket_gives hid).mono fun r w₂ T h => .pure ?_)
      obtain ⟨rfl, rfl, heffect⟩ := h
      rw [hs, hclock] at heffect ⊢
      exact ⟨rfl, .cancel hid heffect⟩
  | getMatch text =>
    refine .bind (withTenant_ends htenant fun w₁ hs hclock => ?_)
    cases hid : rt.uuidIn text with
    | none =>
      refine (checkUuid_malformed hid).mono fun r w₂ T h => ?_
      obtain ⟨rfl, rfl, rfl⟩ := h
      rw [hs]
      exact ⟨rfl, .malformed rfl hid⟩
    | some id =>
      refine .of_gives ((getMatch_gives hid).mono fun r w₂ T h => .pure ?_)
      obtain ⟨rfl, hs₂, players, hplayers, rfl⟩ := h
      rw [hs] at hs₂ hplayers ⊢
      rw [hs₂]
      exact ⟨rfl, .getMatch hid hplayers⟩

/-- Where the rows of the tenant are the same, so are the outcomes. -/
theorem Serves.same (h : Serves rt tenantId now s l r s₁) (h' : Serves rt tenantId now' s' l r' s₁')
    (hagree : AgreeOnRows tenantId s s') (hs : PlayersOwn s) (hs' : PlayersOwn s') : SameOutcome r r' := by
  cases h with
  | list h =>
    cases h' with
    | list h' => exact .rows (((h.trans hagree.waiting_perm.symm).trans h'.symm).map _)
    | malformed hl => cases hl
  | @get text id hid =>
    cases h' with
    | get hid' =>
      obtain rfl := Option.some.inj (hid.symm.trans hid')
      -- the rows of the tenant decide about the ticket that is shown
      have hrow : ownTicket? tenantId id s' = ownTicket? tenantId id s :=
        hagree.filter_ticket fun t ht => of_decide_eq_true ht
      rw [hrow]
      exact .same _
    | malformed hl hid' =>
      cases hl
      cases hid.symm.trans hid'
  | @cancel text id _ hid h =>
    cases h' with
    | cancel hid' h' =>
      obtain rfl := Option.some.inj (hid.symm.trans hid')
      -- and about the ticket that is cancelled
      have hrow : cancellable? tenantId id s' = cancellable? tenantId id s :=
        hagree.filter_ticket fun t ht => by
          simp only [Ticket.isCancellable, Bool.and_eq_true, decide_eq_true_eq] at ht
          exact ht.1
      rw [hrow]
      cases cancellable? tenantId id s with
      | none => exact .same _
      | some t => exact .cancelled _ now now'
    | malformed hl hid' =>
      cases hl
      cases hid.symm.trans hid'
  | @getMatch text id players hid h =>
    cases h' with
    | getMatch hid' h' =>
      obtain rfl := Option.some.inj (hid.symm.trans hid')
      rw [hagree.ownMatch]
      cases hrow : ownMatch? tenantId id s with
      | none => exact .same _
      | some row =>
        obtain ⟨hmatch, htenant⟩ := Option.filter_eq_some_iff.mp hrow
        -- the players of a match may come in another order
        have hperm := hagree.players_perm hs hs' hmatch (of_decide_eq_true htenant)
        exact .players _ (((h.trans hperm.symm).trans h'.symm).map _)
    | malformed hl hid' =>
      cases hl
      cases hid.symm.trans hid'
  | malformed hl hid =>
    cases h' with
    | list => cases hl
    | malformed => exact .same _
    | get hid' | cancel hid' | getMatch hid' =>
      cases hl
      cases hid.symm.trans hid'

/-- Only what belongs to the tenant is shown. -/
theorem Serves.own {response : Response} (h : Serves rt tenantId now s l (.ok (.response response)) s₁)
    (hs : PlayersOwn s) : ShowsOwn tenantId s response.body := by
  cases h with
  | list h => exact waitingRows_own h
  | get hid => exact ticketAnswer_own
  | cancel hid h => exact cancelAnswer_own
  | getMatch hid h => exact matchAnswer_own hs h

/-- Only a ticket of the tenant is changed. -/
theorem Serves.changes (h : Serves rt tenantId now s l r s₁) : ChangesOwn tenantId s s₁ := by
  cases h with
  | @cancel text id _ hid h =>
    cases hrow : cancellable? tenantId id s with
    | none =>
      rw [hrow] at h
      exact .inl h
    | some t =>
      rw [hrow] at h
      obtain ⟨ht, hcan⟩ := Option.filter_eq_some_iff.mp hrow
      simp only [Ticket.isCancellable, Bool.and_eq_true, decide_eq_true_eq] at hcan
      exact .inr ⟨id, ⟨t, ht, hcan.1⟩, ⟨t.cancelled now, h.1, hcan.1⟩, h.2⟩
  | _ => exact .inl rfl

/-- **Isolation of the tenants' data.** A request of a tenant for tickets and matches, served in two
reachable states that agree on the rows of the tenant, ends in the same way up to the order of rows and
the time of a cancellation; what it shows belongs to the tenant, and it changes nothing but a ticket of
the tenant. -/
theorem data_isolated {clock clock' : Time} {st st' : ServiceState}
    (hst : (service rt).Reachable (emptyState clock) st)
    (hst' : (service rt).Reachable (emptyState clock') st')
    (hmade : MadeAs tenantId l st.world.committed) (hmade' : MadeAs tenantId l st'.world.committed)
    (hagree : AgreeOnRows tenantId st.world.committed st'.world.committed)
    (answer answer' : ℕ → (c : Call) → Reply c) (i i' : ℕ) : ∃ r w r' w',
      Prog.alone answer i l (program rt l).run st.world none = some (r, w, none) ∧
      Prog.alone answer' i' l (program rt l).run st'.world none = some (r', w', none) ∧
      SameOutcome r r' ∧
      (∀ response, r = .ok (.response response) → ShowsOwn tenantId st.world.committed response.body) ∧
      ChangesOwn tenantId st.world.committed w.committed := by
  obtain ⟨r, w, T, hrun, rfl, hserves⟩ := @MadeAs.served rt answer i l st.world tenantId hmade
  obtain ⟨r', w', T', hrun', rfl, hserves'⟩ := @MadeAs.served rt answer' i' l st'.world tenantId hmade'
  have hs := (service_past hst).playersOwn
  refine ⟨r, w, r', w', hrun, hrun', hserves.same hserves' hagree hs (service_past hst').playersOwn, ?_,
    hserves.changes⟩
  rintro response rfl
  exact hserves.own hs

end Isolation

/-! ## A match among the tickets of others -/

/-- `matches` rows with their ids. -/
def matchRow : (k : Key) → Row k → Option (UUID × Match)
  | .matches id, m => some (id, m)
  | _, _ => none

/-- `match_players` rows with their matches and tickets. -/
def anyPlayerRow : (k : Key) → Row k → Option ((UUID × UUID) × MatchPlayer)
  | .matchPlayers m id, p => some ((m, id), p)
  | _, _ => none

/-- The rows of the table of matches are those that a look-up by primary key finds. -/
theorem mem_rowsOf_matchRow {s : Tables} {id : UUID} {m : Match} :
    (id, m) ∈ rowsOf matchRow s ↔ s.lookup (.matches id) = some m := by
  rw [mem_rowsOf]
  constructor
  · rintro ⟨k, v, hs, hp⟩
    cases k <;> cases hp
    exact hs
  · exact fun h => ⟨.matches id, m, h, rfl⟩

/-- The same of the players, whose key has two columns. -/
theorem mem_rowsOf_anyPlayerRow {s : Tables} {m id : UUID} {p : MatchPlayer} :
    ((m, id), p) ∈ rowsOf anyPlayerRow s ↔ s.lookup (.matchPlayers m id) = some p := by
  rw [mem_rowsOf]
  constructor
  · rintro ⟨k, v, hs, hp⟩
    cases k <;> cases hp
    exact hs
  · exact fun h => ⟨.matchPlayers m id, p, h, rfl⟩

/-- Tables with the same rows of the tenant agree. -/
theorem AgreeOnRows.of_rows {tenantId : String} {s s' : Tables}
    (htickets : (rowsOf ticketRow s').filter (fun p => p.2.tenantId = tenantId)
      = (rowsOf ticketRow s).filter fun p => p.2.tenantId = tenantId)
    (hmatches : rowsOf matchRow s' = rowsOf matchRow s)
    (hplayers : rowsOf anyPlayerRow s' = rowsOf anyPlayerRow s) : AgreeOnRows tenantId s s' where
  tickets id t htenant := by
    have hmem : ∀ s : Tables, (id, t) ∈ (rowsOf ticketRow s).filter (fun p => p.2.tenantId = tenantId)
        ↔ s.lookup (.tickets id) = some t := fun s => by
      rw [List.mem_filter, mem_rowsOf_ticketRow]
      exact and_iff_left (decide_eq_true htenant)
    rw [← hmem s', ← hmem s, htickets]
  matchRows id m _ := by rw [← mem_rowsOf_matchRow, ← mem_rowsOf_matchRow, hmatches]
  players m id _ := by
    ext p
    rw [← mem_rowsOf_anyPlayerRow, ← mem_rowsOf_anyPlayerRow, hplayers]

/-- The id of the match of the sample run can be read. -/
def matchRuntime : Runtime :=
  { sampleRuntime with uuidIn := fun text => if text = uuidText 0x3f then some 0x3f else none }

/-- The sample's state, with nothing of any other tenant. -/
def sparseState : ServiceState := (service matchRuntime).after sampleScript (emptyState 0)

/-- Another tenant has a ticket. -/
def crowdedState : ServiceState := (service matchRuntime).after (sampleScript ++
  runs 5 (.createTicket sampleSettings (some "tenant-1") none ⟨"p1", "eu", "ranked", 0⟩)) (emptyState 0)

/-- The state with another tenant's rows agrees with it on the rows of `studio_a`. -/
theorem crowded_agrees :
    AgreeOnRows "studio_a" sparseState.world.committed crowdedState.world.committed :=
  .of_rows (by decide +kernel) (by decide +kernel) (by decide +kernel)

/-- The request for the match of the sample run. -/
def matchRequest : Actor := .getMatch (some "studio_a") (uuidText 0x3f)

/-- A request for a match, answered alike in both states although the other tenant's rows are in one of them
only. -/
theorem data_isolated_sample : ∃ r w r' w',
    Prog.alone quietAnswer 5 matchRequest (program matchRuntime matchRequest).run sparseState.world none
      = some (r, w, none) ∧
    Prog.alone quietAnswer 6 matchRequest (program matchRuntime matchRequest).run crowdedState.world none
      = some (r', w', none) ∧
    SameOutcome r r' ∧
    (∀ response, r = .ok (.response response) →
      ShowsOwn "studio_a" sparseState.world.committed response.body) ∧
    ChangesOwn "studio_a" sparseState.world.committed w.committed :=
  data_isolated (System.reachable_after _ _) (System.reachable_after _ _)
    ⟨.getMatch _, by decide +kernel⟩ ⟨.getMatch _, by decide +kernel⟩ crowded_agrees quietAnswer quietAnswer 5 6

end Matchmaking
