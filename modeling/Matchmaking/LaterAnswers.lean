import Matchmaking.RequestOrder

/-!
# What a tenant can rely on between requests

A request that comes in after another one has been answered sees at least what that answer has told,
whichever replicas serve the two: a ticket that was created, shown or cancelled is found again with the
same data, its final status stays, and the match it names can be fetched.
-/

namespace Matchmaking

open ReadCommitted

variable {rt : Runtime} {clock : Time} {s : ServiceState} {w : ServiceWorld} {e e₁ e₂ : LogEntry}
  {tenantId text : String} {id m : UUID} {l : Actor} {r r₁ r₂ : Response}

/-! ## The order of requests -/

/-- The request that is answered by `e₂` came in after `e₁` was logged. -/
def Later (log : List LogEntry) (e₁ e₂ : LogEntry) : Prop :=
  ∃ newer between older, log = newer ++ e₂ :: (between ++ e₁ :: older) ∧
    ∀ e ∈ e₁ :: older, e.session ≠ e₂.session

/-- `e` is the answer `r` to the request `l`; the tenant was known when the request came in. -/
structure AnsweredTo (l : Actor) (r : Response) (e : LogEntry) : Prop where
  actor : e.actor = l
  event : ∃ born, e.event = .answer born (.ok (.response r)) ∧ Accounted born r l

/-- The answer shows the tenant the ticket: the 201 that creates it, the 200 of a request for it, or the
200 of its cancellation. -/
inductive ShowsTicket (rt : Runtime) (tenantId : String) (id : UUID) (r : Response) (e : LogEntry) : Prop
  | created {settings : Settings} {key : Option String} {body : TicketCreate}
    (answered : AnsweredTo (.createTicket settings (some tenantId) key body) r e)
    (named : r.body.get? "ticket_id" = some (.str (uuidText id)))
  | fetched {text : String} (answered : AnsweredTo (.getTicket (some tenantId) text) r e)
    (named : rt.uuidIn text = some id) (success : r.status = 200)
  | cancelled {text : String} (answered : AnsweredTo (.cancelTicket (some tenantId) text) r e)
    (named : rt.uuidIn text = some id) (success : r.status = 200)

/-! ## Served requests -/

/-- The answers logged after `older` are those of a moment. -/
def InOrder (rt : Runtime) (e : LogEntry) (older : List LogEntry) : Prop :=
  ∀ born r, answer? e.event = some (born, r) → EffectDue rt e.session e.actor born r older

variable {older : List LogEntry}

/-- In a run whose requests take effect in order, the answer to a request of a known tenant takes effect at
one moment. -/
theorem AnsweredTo.effect (h : AnsweredTo l r e) (horder : InOrder rt e older) :
    TakesEffect rt e.session l older r := by
  obtain ⟨rfl, born, hanswer, haccounted⟩ := h
  exact horder born (.ok (.response r)) (by rw [hanswer]; rfl) r rfl haccounted

/-- A request for data is served at a moment, and the store that it leaves is committed. -/
theorem TakesEffect.served {i : ℕ} (h : TakesEffect rt i l older r) (hl : DataRequest tenantId l) :
    ∃ tenantId' now mid σ mid' σ', Moment i older mid σ ∧ StoreAt older mid' σ' ∧
      Serves rt tenantId' now σ l (.ok (.response r)) σ' := by
  cases h with
  | reads hm hserves => exact ⟨_, _, _, _, _, _, hm, hm.toStoreAt, hserves⟩
  | writes hm hnext _ hcommits hserves =>
    exact ⟨_, _, _, _, _, _, hm, ⟨hnext, .commit hcommits hm.store⟩, hserves⟩
  | creates _ _ _ _ hcreates _ =>
    obtain ⟨_, _, _, _, heq, -⟩ := hcreates.request
    cases hl <;> cases heq

/-- A ticket that is answered was shown by the committed tables of some moment of the request. -/
theorem AnsweredTo.get (h : AnsweredTo (.getTicket (some tenantId) text) r e) (horder : InOrder rt e older)
    (hid : rt.uuidIn text = some id) :
    ∃ mid σ, Moment e.session older mid σ ∧ r = ticketAnswer id (ownTicket? tenantId id σ) := by
  obtain ⟨_, _, mid, σ, _, _, hm, -, hserves⟩ := (h.effect horder).served (.get text)
  cases hserves with
  | get hid' =>
    obtain rfl := Option.some.inj (hid.symm.trans hid')
    exact ⟨mid, σ, hm, rfl⟩

theorem AnsweredTo.getMatch (h : AnsweredTo (.getMatch (some tenantId) text) r e) (horder : InOrder rt e older)
    (hid : rt.uuidIn text = some m) : ∃ mid σ players, Moment e.session older mid σ ∧
      players.Perm (rowsOf (playerRow m) σ) ∧ r = matchAnswer m players (ownMatch? tenantId m σ) := by
  obtain ⟨_, _, mid, σ, _, _, hm, -, hserves⟩ := (h.effect horder).served (.getMatch text)
  cases hserves with
  | getMatch hid' hplayers =>
    obtain rfl := Option.some.inj (hid.symm.trans hid')
    exact ⟨mid, σ, _, hm, hplayers, rfl⟩

/-! ## Fields of answers -/

section Fields

variable {fields : List (String × Json)} {name : String} {v : Json} {tk tk' : Ticket}

/-- In an object whose names differ, a name finds exactly the fields that have it. -/
theorem get?_iff_mem (hnames : (fields.map Prod.fst).Nodup) :
    (Json.obj fields).get? name = some v ↔ (name, v) ∈ fields := by
  induction fields with
  | nil => simp [Json.get?]
  | cons f fs ih =>
    obtain ⟨n, u⟩ := f
    obtain ⟨hn, hfs⟩ := List.nodup_cons.mp hnames
    rw [List.mem_cons, ← ih hfs]
    by_cases hname : n = name
    · subst hname
      have hnone : (Json.obj fs).get? n ≠ some v := fun h =>
        hn (List.mem_map.mpr ⟨(n, v), (ih hfs).mp h, rfl⟩)
      rw [or_iff_left hnone]
      simp [Json.get?, eq_comm]
    · simp [Json.get?, hname, Ne.symm hname]

/-- `response_model_exclude_none` drops the fields that are `None`. -/
theorem excludeNone_obj (fields : List (String × Json)) : ∃ p : String × Json → Bool,
    excludeNone (.obj fields) = .obj (fields.filter p) ∧ ∀ n u, p (n, u) = true ↔ u ≠ .null :=
  ⟨_, rfl, fun _ u => by cases u <;> simp⟩

/-- Leaving out null fields changes nothing but that nulls are not found. -/
theorem get?_excludeNone (hnames : (fields.map Prod.fst).Nodup) :
    (excludeNone (.obj fields)).get? name = some v ↔ (Json.obj fields).get? name = some v ∧ v ≠ .null := by
  obtain ⟨p, hp, hkept⟩ := excludeNone_obj fields
  have hsub : ((fields.filter p).map Prod.fst).Nodup := hnames.sublist (List.filter_sublist.map _)
  rw [hp, get?_iff_mem hsub, get?_iff_mem hnames, List.mem_filter, hkept]

/-- The fields of a ticket that never change. -/
def fixedFields : List String :=
  ["ticket_id", "tenant_id", "player_id", "region", "queue_name", "skill", "partition_id", "created_at"]

/-- The fields that identify a ticket are shown alike in all its states. -/
theorem get?_fixed (h : tk'.identity = tk.identity) (hname : name ∈ fixedFields) :
    (ticketResponse id tk').get? name = (ticketResponse id tk).get? name := by
  simp only [Ticket.identity, Prod.mk.injEq] at h
  obtain ⟨htenant, hplayer, hregion, hqueue, hskill, hpartition, hcreated⟩ := h
  simp only [ticketResponse, htenant, hplayer, hregion, hqueue, hskill, hpartition, hcreated]
  simp only [fixedFields, List.mem_cons, List.not_mem_nil, or_false] at hname
  rcases hname with rfl | rfl | rfl | rfl | rfl | rfl | rfl | rfl <;> rfl

/-- The names of the fields are distinct. -/
theorem ticketResponse_get? : (excludeNone (ticketResponse id tk)).get? name = some v ↔
    (ticketResponse id tk).get? name = some v ∧ v ≠ .null :=
  get?_excludeNone (by simp)

end Fields

/-! ## What an answer tells -/

/-- The ticket has the fields that the answer shows. -/
structure Told (tenantId : String) (id : UUID) (r : Response) (σ : Tables) (tk : Ticket) : Prop where
  row : σ.lookup (.tickets id) = some tk
  tenant : tk.tenantId = tenantId
  shown : ∀ name v, r.body.get? name = some v → (ticketResponse id tk).get? name = some v ∧ v ≠ .null

/-- An answer that shows a ticket of the tenant tells of that ticket. -/
theorem Told.own {σ : Tables} {tk : Ticket} (h : ownTicket? tenantId id σ = some tk) :
    Told tenantId id (ticketAnswer id (some tk)) σ tk := by
  obtain ⟨hrow, htenant⟩ := Option.filter_eq_some_iff.mp h
  exact ⟨hrow, of_decide_eq_true htenant, fun _ _ => ticketResponse_get?.mp⟩

/-- A cancelled ticket has the three fields of the answer. -/
theorem Told.ofCancel {σ σ' : Tables} {now : Time} {tk : Ticket} (h : cancellable? tenantId id σ = some tk)
    (heffect : CancelEffect id now σ σ' (some tk)) :
    Told tenantId id (cancelAnswer id now (some tk)) σ' (tk.cancelled now) := by
  obtain ⟨-, hcan⟩ := Option.filter_eq_some_iff.mp h
  simp only [Ticket.isCancellable, Bool.and_eq_true, decide_eq_true_eq] at hcan
  refine ⟨heffect.1, hcan.1, fun name v hv => ?_⟩
  have hmem := (get?_iff_mem (by simp)).mp hv
  simp only [List.cons_append, List.nil_append, List.mem_cons, Prod.mk.injEq, List.not_mem_nil, or_false] at hmem
  rcases hmem with ⟨rfl, rfl⟩ | ⟨rfl, rfl⟩ | ⟨rfl, rfl⟩ <;> exact ⟨rfl, by simp⟩

/-- Each answer about a ticket tells of a row that was committed before it. -/
theorem ShowsTicket.told (h : ShowsTicket rt tenantId id r e) (horder : InOrder rt e older) :
    ∃ mid σ tk, StoreAt older mid σ ∧ Told tenantId id r σ tk := by
  cases h with
  | created answered named =>
    have heffect := answered.effect horder
    cases heffect with
    | reads _ hserves => cases hserves
    | writes _ _ _ _ hserves => cases hserves
    | @creates mid σ e t n hm hnext _ hcommits hcreates hanswer =>
      obtain ⟨_, _, _, _, heq, htenant, -⟩ := hcreates.request
      cases heq
      rw [hanswer] at named ⊢
      obtain rfl : n.ticketId = id := uuidText_inj (Json.str.inj (Option.some.inj named))
      have hrow := (hcreates.changed.lookup (.tickets n.ticketId) (fun h => h) (n.dlookup_ticket t.start)).2
      exact ⟨_, _, _, ⟨hnext, .commit hcommits hm.store⟩, hrow, (Option.some.inj htenant).symm,
        fun _ _ => ticketResponse_get?.mp⟩
  | fetched answered named success =>
    obtain ⟨mid, σ, hm, rfl⟩ := answered.get horder named
    cases hrow : ownTicket? tenantId id σ with
    | none =>
      rw [hrow] at success
      cases success
    | some tk => exact ⟨mid, σ, tk, hm.toStoreAt, .own hrow⟩
  | @cancelled text answered named success =>
    obtain ⟨_, now, _, σ, mid, σ', -, hafter, hserves⟩ := (answered.effect horder).served (.cancel text)
    cases hserves with
    | cancel hid heffect =>
      obtain rfl := Option.some.inj (named.symm.trans hid)
      cases hrow : cancellable? tenantId id σ with
      | none =>
        rw [hrow] at success
        cases success
      | some tk =>
        rw [hrow] at heffect
        exact ⟨mid, σ', _, hafter, .ofCancel hrow heffect⟩

/-! ## Requests after others -/

/-- At every moment of a run, players belong to the tenant of their match. -/
theorem StoreAt.playersOwn {mid : List LogEntry} {σ : Tables} (h : StoreAt older mid σ) (hpast : Past rt w)
    (hlog : older ⊆ w.log) : PlayersOwn σ where
  paired := h.invariant hpast hlog .empty fun _ _ _ => Legal.paired
  named := h.invariant hpast hlog (fun _ _ _ h => by cases h) fun _ _ _ => Legal.playersNamed

/-- The logs in which two answers were given, one after the other. -/
structure Succeeds (rt : Runtime) (log : List LogEntry) (e₁ e₂ : LogEntry) (older₁ older₂ : List LogEntry) :
    Prop where
  first : InOrder rt e₁ older₁
  second : InOrder rt e₂ older₂
  subset₁ : older₁ ⊆ log
  subset₂ : older₂ ⊆ log
  closes : ∀ mid σ mid' σ', StoreAt older₁ mid σ → Moment e₂.session older₂ mid' σ' → Closes σ σ'

/-- The later request is served from a store that comes after those behind the first answer. -/
theorem Later.succeeds (hs : (service rt).Reachable (emptyState clock) s) (h : Later s.world.log e₁ e₂) :
    ∃ older₁ older₂, Succeeds rt s.world.log e₁ e₂ older₁ older₂ := by
  obtain ⟨newer, between, older, hlog, hafter⟩ := h
  have hsub₂ : between ++ e₁ :: older ⊆ s.world.log := by
    rw [hlog]
    exact fun _ he => List.mem_append_right _ (List.mem_cons_of_mem _ he)
  have hsub₁ : older ⊆ between ++ e₁ :: older :=
    fun _ he => List.mem_append_right _ (List.mem_cons_of_mem _ he)
  refine ⟨older, between ++ e₁ :: older, ?_, order_holds hs newer e₂ _ hlog, List.Subset.trans hsub₁ hsub₂, hsub₂, ?_⟩
  · refine order_holds hs (newer ++ e₂ :: between) e₁ older ?_
    rw [hlog, List.append_assoc, List.cons_append]
  · intro mid σ mid' σ' hσ hσ'
    have hmid : mid <:+ mid' := by
      have hmid₂ : mid <:+ between ++ e₁ :: older :=
        hσ.suffix.trans ((List.suffix_cons _ _).trans (List.suffix_append _ _))
      refine (List.suffix_or_suffix_of_suffix hmid₂ hσ'.suffix).resolve_right fun hback => ?_
      obtain ⟨e, he, hsession⟩ := hσ'.begun
      exact hafter e (List.mem_cons_of_mem _ (hσ.suffix.subset (hback.subset he))) hsession
    obtain ⟨new, rfl⟩ := hmid
    obtain ⟨σ₀, hold, hnew⟩ := hσ'.store.split
    obtain rfl := hσ.store.unique hold
    have hlogged : new ⊆ s.world.log := fun _ he => hsub₂ (hσ'.suffix.subset (List.mem_append_left _ he))
    exact (service_past hs).closes hlogged hnew

/-- The answer shows a final status. -/
def Final (r : Response) : Prop :=
  r.body.get? "status" = some (.str TicketStatus.matched.text) ∨
    r.body.get? "status" = some (.str TicketStatus.cancelled.text)

/-- An answer with a final status tells of a closed ticket. -/
theorem Told.closed {σ : Tables} {tk : Ticket} (h : Told tenantId id r σ tk) (hfinal : Final r) :
    tk.IsClosed := by
  have hstatus : ∀ st : TicketStatus, r.body.get? "status" = some (.str st.text) → tk.status.text = st.text :=
    fun st hst => Json.str.inj (Option.some.inj (h.shown _ _ hst).1)
  rcases hfinal with hfinal | hfinal
  · have htext := hstatus _ hfinal
    left
    cases hst : tk.status <;> simp [hst, TicketStatus.text] at htext ⊢
  · have htext := hstatus _ hfinal
    right
    cases hst : tk.status <;> simp [hst, TicketStatus.text] at htext ⊢

/-- The ticket is still there. -/
theorem Told.later {σ σ' : Tables} {tk : Ticket} (h : Told tenantId id r σ tk) (hcloses : Closes σ σ') :
    ∃ tk', ownTicket? tenantId id σ' = some tk' ∧ tk'.identity = tk.identity ∧ (tk.IsClosed → tk' = tk) := by
  obtain ⟨tk', hrow, hid⟩ := hcloses.persist (.tickets id) trivial tk h.row
  have htenant : tk'.tenantId = tk.tenantId := congrArg Prod.fst hid
  refine ⟨tk', ?_, hid, fun hclosed => ?_⟩
  · rw [ownTicket?, hrow, Option.filter_some, if_pos (decide_eq_true (htenant.trans h.tenant))]
  · exact Option.some.inj (hrow.symm.trans (hcloses.closed id tk h.row hclosed))

/-- **Answers about a ticket keep up with what was told.** Once an answer has shown a ticket to its tenant,
every request for it that comes in later finds it, with the same data; and a ticket that was shown matched
or cancelled is from then on shown as it was. -/
theorem tickets_keep_up (hs : (service rt).Reachable (emptyState clock) s) (hlater : Later s.world.log e₁ e₂)
    (h₁ : ShowsTicket rt tenantId id r₁ e₁) (h₂ : AnsweredTo (.getTicket (some tenantId) text) r₂ e₂)
    (hid : rt.uuidIn text = some id) : r₂.status = 200 ∧ ∀ name v, r₁.body.get? name = some v →
      name ∈ fixedFields ∨ Final r₁ → r₂.body.get? name = some v := by
  obtain ⟨older₁, older₂, hsucceeds⟩ := hlater.succeeds hs
  obtain ⟨mid, σ, tk, hσ, htold⟩ := h₁.told hsucceeds.first
  obtain ⟨mid', σ', hm, rfl⟩ := h₂.get hsucceeds.second hid
  obtain ⟨tk', hown, hidentity, hclosed⟩ := htold.later (hsucceeds.closes _ _ _ _ hσ hm)
  rw [hown]
  refine ⟨rfl, fun name v hv hname => ticketResponse_get?.mpr ?_⟩
  obtain ⟨hshown, hnull⟩ := htold.shown name v hv
  refine ⟨?_, hnull⟩
  rcases hname with hfixed | hfinal
  · exact (get?_fixed hidentity hfixed).trans hshown
  · rw [hclosed (htold.closed hfinal)]
    exact hshown

/-! ## Matches of tickets -/

/-- The ids of a ticket's match as its answer shows them. -/
theorem shown_matchId {tk : Ticket}
    (h : (ticketAnswer id (some tk)).body.get? "match_id" = some (.str (uuidText m))) :
    tk.matchId = some m := by
  obtain ⟨hshown, -⟩ := ticketResponse_get?.mp h
  have hvalue : (tk.matchId.elim .null fun m => .str (uuidText m) : Json) = .str (uuidText m) :=
    Option.some.inj hshown
  cases hmatch : tk.matchId with
  | none =>
    rw [hmatch] at hvalue
    cases hvalue
  | some m' =>
    rw [hmatch] at hvalue
    exact congrArg some (uuidText_inj (Json.str.inj hvalue))

/-- The players of a match are two. -/
theorem Paired.two_players {σ : Tables} (h : Paired σ) {row : Match} (hrow : σ.lookup (.matches m) = some row) :
    (rowsOf (playerRow m) σ).length = 2 := by
  obtain ⟨a, b, hab, hplayers⟩ := h.players m row hrow
  obtain ⟨pa, hpa⟩ := Option.isSome_iff_exists.mp ((hplayers a).mpr (.inl rfl))
  obtain ⟨pb, hpb⟩ := Option.isSome_iff_exists.mp ((hplayers b).mpr (.inr rfl))
  have hperm : (rowsOf (playerRow m) σ).Perm [(a, pa), (b, pb)] := by
    refine (List.perm_ext_iff_of_nodup (playerRows_nodup m σ) (by simp [hab])).mpr ?_
    rintro ⟨x, p⟩
    rw [mem_rowsOf_playerRow, List.mem_pair, Prod.mk.injEq, Prod.mk.injEq]
    constructor
    · intro hp
      rcases (hplayers x).mp (by rw [hp]; rfl) with rfl | rfl
      · exact .inl ⟨rfl, Option.some.inj (hp.symm.trans hpa)⟩
      · exact .inr ⟨rfl, Option.some.inj (hp.symm.trans hpb)⟩
    · rintro (⟨rfl, rfl⟩ | ⟨rfl, rfl⟩)
      · exact hpa
      · exact hpb
  exact hperm.length_eq

/-- The entry of a player in the answer about a match. -/
def listedPlayer (player : Json) (id : UUID) : Json :=
  .obj [("player_id", player), ("ticket_id", .str (uuidText id))]

/-- **The match of a ticket is found.** Once an answer has named the match of a ticket to its tenant, every
request of the tenant for that match that comes in later finds it, with the tenant, region and queue of the
ticket, and with two players, of which the ticket's is one. -/
theorem matches_found {text₁ text₂ : String} (hs : (service rt).Reachable (emptyState clock) s)
    (hlater : Later s.world.log e₁ e₂) (h₁ : AnsweredTo (.getTicket (some tenantId) text₁) r₁ e₁)
    (hid₁ : rt.uuidIn text₁ = some id) (hmatch : r₁.body.get? "match_id" = some (.str (uuidText m)))
    (h₂ : AnsweredTo (.getMatch (some tenantId) text₂) r₂ e₂) (hid₂ : rt.uuidIn text₂ = some m) :
    r₂.status = 200 ∧ r₂.body.get? "match_id" = some (.str (uuidText m)) ∧
      (∀ name ∈ ["tenant_id", "region", "queue_name"], r₂.body.get? name = r₁.body.get? name) ∧
      ∃ players player, r₂.body.get? "players" = some (.arr players) ∧ players.length = 2 ∧
        r₁.body.get? "player_id" = some player ∧ listedPlayer player id ∈ players := by
  have hpast := service_past hs
  obtain ⟨older₁, older₂, hsucceeds⟩ := hlater.succeeds hs
  obtain ⟨mid, σ, hσ, rfl⟩ := h₁.get hsucceeds.first hid₁
  obtain ⟨mid', σ', players, hσ', hperm, rfl⟩ := h₂.getMatch hsucceeds.second hid₂
  cases hown : ownTicket? tenantId id σ with
  | none =>
    rw [hown] at hmatch
    cases hmatch
  | some tk =>
    rw [hown] at hmatch
    have hmatchId := shown_matchId hmatch
    have htold : Told tenantId id _ σ tk := .own hown
    -- only matched tickets have a match, and they stay as they are
    have hsound : MatchIdsSound σ := hσ.toStoreAt.invariant hpast hsucceeds.subset₁
      (fun _ _ h => by cases h) fun _ _ _ => Legal.matchIdsSound
    have hstatus : tk.status = .matched := by
      by_contra hst
      cases (hsound id tk htold.row hst).symm.trans hmatchId
    have hrow' := (hsucceeds.closes _ _ _ _ hσ.toStoreAt hσ').closed id tk htold.row (.inl hstatus)
    -- so the later store has the match
    have hown' := hσ'.toStoreAt.playersOwn hpast hsucceeds.subset₂
    obtain ⟨m', hplayer⟩ := hown'.paired.matched id tk hrow' hstatus
    obtain ⟨tk₀, row, htk₀, hrow, -, hm', htenant, hregion, hqueue⟩ := hown'.paired.player m' id hplayer
    obtain rfl := Option.some.inj (hrow'.symm.trans htk₀)
    obtain rfl : m = m' := Option.some.inj (hmatchId.symm.trans hm')
    obtain ⟨p, hp⟩ := Option.isSome_iff_exists.mp hplayer
    obtain ⟨tk₁, htk₁, hname⟩ := hown'.named m id p hp
    obtain rfl := Option.some.inj (hrow'.symm.trans htk₁)
    have hmatchRow : ownMatch? tenantId m σ' = some row := by
      rw [ownMatch?, hrow, Option.filter_some, if_pos (decide_eq_true (htenant.symm.trans htold.tenant))]
    rw [hmatchRow]
    refine ⟨rfl, rfl, ?_, _, .str tk.playerId, rfl, ?_, rfl, ?_⟩
    -- tenant, region and queue are those of the ticket, which the pool has kept
    · intro name hname
      rcases List.mem_cons.mp hname with rfl | hname
      · show some (Json.str row.tenantId) = some (.str tk.tenantId)
        rw [htenant]
      rcases List.mem_pair.mp hname with rfl | rfl
      · show some (Json.str row.region) = some (.str tk.region)
        rw [hregion]
      · show some (Json.str row.queueName) = some (.str tk.queueName)
        rw [hqueue]
    · rw [List.length_map, hperm.length_eq, hown'.paired.two_players hrow]
    · exact List.mem_map.mpr ⟨(id, p), hperm.mem_iff.mpr (mem_rowsOf_playerRow.mpr hp), by rw [hname]; rfl⟩

/-- **The tickets of a match are found.** Once an answer has listed a ticket in a match to its tenant, every
request of the tenant for that ticket that comes in later shows it matched, in that match, for that player. -/
theorem match_tickets_found {text₁ text₂ : String} {players : List Json} {player : Json}
    (hs : (service rt).Reachable (emptyState clock) s) (hlater : Later s.world.log e₁ e₂)
    (h₁ : AnsweredTo (.getMatch (some tenantId) text₁) r₁ e₁) (hid₁ : rt.uuidIn text₁ = some m)
    (hplayers : r₁.body.get? "players" = some (.arr players)) (hlisted : listedPlayer player id ∈ players)
    (h₂ : AnsweredTo (.getTicket (some tenantId) text₂) r₂ e₂) (hid₂ : rt.uuidIn text₂ = some id) :
    r₂.status = 200 ∧ r₂.body.get? "status" = some (.str TicketStatus.matched.text) ∧
      r₂.body.get? "match_id" = some (.str (uuidText m)) ∧ r₂.body.get? "player_id" = some player := by
  have hpast := service_past hs
  obtain ⟨older₁, older₂, hsucceeds⟩ := hlater.succeeds hs
  obtain ⟨mid, σ, rows, hσ, hperm, rfl⟩ := h₁.getMatch hsucceeds.first hid₁
  obtain ⟨mid', σ', hσ', rfl⟩ := h₂.get hsucceeds.second hid₂
  cases hown : ownMatch? tenantId m σ with
  | none =>
    rw [hown] at hplayers
    cases hplayers
  | some row =>
    rw [hown] at hplayers
    obtain ⟨hrow, htenant⟩ := Option.filter_eq_some_iff.mp hown
    obtain rfl : _ = players := Json.arr.inj (Option.some.inj hplayers)
    obtain ⟨⟨id', p⟩, hmem, hentry⟩ := List.mem_map.mp hlisted
    have hfields := Json.obj.inj hentry
    simp only [List.cons.injEq, Prod.mk.injEq, true_and, and_true, Json.str.injEq] at hfields
    obtain ⟨rfl, hid'⟩ := hfields
    obtain rfl := uuidText_inj hid'
    -- the player's ticket is matched, and stays as it is
    have hp := mem_rowsOf_playerRow.mp (hperm.mem_iff.mp hmem)
    have hplayersOwn := hσ.toStoreAt.playersOwn hpast hsucceeds.subset₁
    obtain ⟨tk, row', htk, hrow', hstatus, hmatchId, hsame, -⟩ :=
      hplayersOwn.paired.player m id' (by rw [hp]; rfl)
    obtain rfl := Option.some.inj (hrow.symm.trans hrow')
    obtain ⟨tk₁, htk₁, hname⟩ := hplayersOwn.named m id' p hp
    obtain rfl := Option.some.inj (htk.symm.trans htk₁)
    have hlater' := (hsucceeds.closes _ _ _ _ hσ.toStoreAt hσ').closed id' tk htk (.inl hstatus)
    have hown' : ownTicket? tenantId id' σ' = some tk := by
      rw [ownTicket?, hlater', Option.filter_some, if_pos (decide_eq_true (hsame.trans (of_decide_eq_true htenant)))]
    rw [hown']
    refine ⟨rfl, ?_, ticketResponse_get?.mpr ⟨?_, by simp⟩, ?_⟩
    · show some (Json.str tk.status.text) = _
      rw [hstatus]
    · show some (tk.matchId.elim .null fun m => .str (uuidText m) : Json) = _
      rw [hmatchId]
      rfl
    · show some (Json.str tk.playerId) = _
      rw [hname]

/-! ## Requests after the sample run -/

/-- The ids of the sample run can be read. -/
def lookupRuntime : Runtime :=
  { sampleRuntime with
    uuidIn := fun text => if text = uuidText 0x16 then some 0x16 else if text = uuidText 0x3f then some 0x3f else none }

/-- The request for the first ticket of the sample. -/
def ticketRequest : Actor := .getTicket (some "studio_a") (uuidText 0x16)

/-- The tenant fetches a ticket, its match, and the ticket again. -/
def lookupState : ServiceState := (service lookupRuntime).after (sampleScript ++ runs 5 ticketRequest ++
  runs 6 matchRequest ++ runs 7 ticketRequest) (emptyState 0)

/-- An answer to a request for a ticket. -/
def getsTicket (p : Response → Bool) (e : LogEntry) : Bool :=
  match e.actor, e.event with
  | .getTicket (some tenantId) text, .answer born (.ok (.response r)) => tenantId = "studio_a" &&
      text = uuidText 0x16 && (born.lookup (.tenants "studio_a")).isSome && p r
  | _, _ => false

/-- An answer to a request for a match. -/
def getsMatch (p : Response → Bool) (e : LogEntry) : Bool :=
  match e.actor, e.event with
  | .getMatch (some tenantId) text, .answer born (.ok (.response r)) => tenantId = "studio_a" &&
      text = uuidText 0x3f && (born.lookup (.tenants "studio_a")).isSome && p r
  | _, _ => false

/-- What the check finds is an answer to the request for the ticket. -/
theorem getsTicket_iff {p : Response → Bool} (h : getsTicket p e = true) :
    ∃ r, AnsweredTo ticketRequest r e ∧ p r = true := by
  unfold getsTicket at h
  split at h
  · next tenantId text born r hactor hevent =>
    simp only [Bool.and_eq_true, decide_eq_true_eq] at h
    obtain ⟨⟨⟨rfl, rfl⟩, hknown⟩, hp⟩ := h
    exact ⟨r, ⟨hactor, born, hevent, .data ⟨.get _, hknown⟩⟩, hp⟩
  · cases h

/-- What the check finds is an answer to the request for the match. -/
theorem getsMatch_iff {p : Response → Bool} (h : getsMatch p e = true) :
    ∃ r, AnsweredTo matchRequest r e ∧ p r = true := by
  unfold getsMatch at h
  split at h
  · next tenantId text born r hactor hevent =>
    simp only [Bool.and_eq_true, decide_eq_true_eq] at h
    obtain ⟨⟨⟨rfl, rfl⟩, hknown⟩, hp⟩ := h
    exact ⟨r, ⟨hactor, born, hevent, .data ⟨.getMatch _, hknown⟩⟩, hp⟩
  · cases h

/-- The last entry of a kind came in after one of another kind. -/
def later? (p₁ p₂ : LogEntry → Bool) (log : List LogEntry) : Bool :=
  match log.dropWhile fun e => !p₂ e with
  | [] => false
  | e₂ :: rest => match rest.dropWhile fun e => !p₁ e with
    | [] => false
    | e₁ :: older => p₂ e₂ && p₁ e₁ && (e₁ :: older).all fun e => e.session != e₂.session

/-- The check finds two entries of which the second comes from a session that began after the first. -/
theorem later?_iff {p₁ p₂ : LogEntry → Bool} {log : List LogEntry} (h : later? p₁ p₂ log = true) :
    ∃ e₁ e₂, Later log e₁ e₂ ∧ p₁ e₁ = true ∧ p₂ e₂ = true := by
  unfold later? at h
  split at h
  · cases h
  · next e₂ rest hrest =>
    split at h
    · cases h
    · next e₁ older holder =>
      simp only [Bool.and_eq_true, List.all_eq_true, bne_iff_ne] at h
      refine ⟨e₁, e₂, ⟨log.takeWhile fun e => !p₂ e, rest.takeWhile fun e => !p₁ e, older, ?_, h.2⟩, h.1.2, h.1.1⟩
      rw [← holder, List.takeWhile_append_dropWhile, ← hrest, List.takeWhile_append_dropWhile]

/-- The run is made of steps of the service. -/
theorem lookupState_reachable : (service lookupRuntime).Reachable (emptyState 0) lookupState :=
  System.reachable_after _ _

/-- The text in the path is read as the ticket's id. -/
theorem ticketId_read : lookupRuntime.uuidIn (uuidText 0x16) = some 0x16 := by decide +kernel

/-- The text in the path is read as the id of the match. -/
theorem matchId_read : lookupRuntime.uuidIn (uuidText 0x3f) = some 0x3f := by decide +kernel

/-- The ticket is asked for twice, before and after it is matched, and answered both times. -/
theorem tickets_keep_up_sample : ∃ e₁ e₂ r₁ r₂, Later lookupState.world.log e₁ e₂ ∧
    AnsweredTo ticketRequest r₁ e₁ ∧ AnsweredTo ticketRequest r₂ e₂ ∧ r₂.status = 200 ∧
    ∀ name v, r₁.body.get? name = some v → name ∈ fixedFields ∨ Final r₁ → r₂.body.get? name = some v := by
  obtain ⟨e₁, e₂, hlater, hp₁, hp₂⟩ := @later?_iff (getsTicket fun r => r.status = 200) (getsTicket fun _ => true)
    lookupState.world.log (by decide +kernel)
  obtain ⟨r₁, h₁, hstatus⟩ := getsTicket_iff hp₁
  obtain ⟨r₂, h₂, -⟩ := getsTicket_iff hp₂
  exact ⟨e₁, e₂, r₁, r₂, hlater, h₁, h₂, tickets_keep_up lookupState_reachable hlater
    (.fetched h₁ ticketId_read (of_decide_eq_true hstatus)) h₂ ticketId_read⟩

/-- The match of the sample run is named. -/
def namesMatch (r : Response) : Bool :=
  match r.body.get? "match_id" with
  | some (.str text) => text = uuidText 0x3f
  | _ => false

/-- A matched ticket shows the id of its match, which a later request finds. -/
theorem matches_found_sample : ∃ e₁ e₂ r₁ r₂, Later lookupState.world.log e₁ e₂ ∧
    AnsweredTo ticketRequest r₁ e₁ ∧ AnsweredTo matchRequest r₂ e₂ ∧
    r₂.status = 200 ∧ r₂.body.get? "match_id" = some (.str (uuidText 0x3f)) ∧
      (∀ name ∈ ["tenant_id", "region", "queue_name"], r₂.body.get? name = r₁.body.get? name) ∧
      ∃ players player, r₂.body.get? "players" = some (.arr players) ∧ players.length = 2 ∧
        r₁.body.get? "player_id" = some player ∧ listedPlayer player 0x16 ∈ players := by
  obtain ⟨e₁, e₂, hlater, hp₁, hp₂⟩ := @later?_iff (getsTicket namesMatch) (getsMatch fun _ => true)
    lookupState.world.log (by decide +kernel)
  obtain ⟨r₁, h₁, hnames⟩ := getsTicket_iff hp₁
  obtain ⟨r₂, h₂, -⟩ := getsMatch_iff hp₂
  have hmatch : r₁.body.get? "match_id" = some (.str (uuidText 0x3f)) := by
    unfold namesMatch at hnames
    split at hnames
    · next text htext => rw [htext, of_decide_eq_true hnames]
    · cases hnames
  exact ⟨e₁, e₂, r₁, r₂, hlater, h₁, h₂, matches_found lookupState_reachable hlater h₁ ticketId_read hmatch h₂
    matchId_read⟩

/-- The first player that is listed. -/
def firstPlayer? (r : Response) : Option (String × String) :=
  match r.body.get? "players" with
  | some (.arr (.obj [("player_id", .str playerId), ("ticket_id", .str ticketId)] :: _)) => some (playerId, ticketId)
  | _ => none

/-- A match shows its tickets, one of which a later request finds as matched. -/
theorem match_tickets_found_sample : ∃ e₁ e₂ r₁ r₂ player, Later lookupState.world.log e₁ e₂ ∧
    AnsweredTo matchRequest r₁ e₁ ∧ AnsweredTo ticketRequest r₂ e₂ ∧
    r₂.status = 200 ∧ r₂.body.get? "status" = some (.str TicketStatus.matched.text) ∧
      r₂.body.get? "match_id" = some (.str (uuidText 0x3f)) ∧ r₂.body.get? "player_id" = some player := by
  obtain ⟨e₁, e₂, hlater, hp₁, hp₂⟩ := @later?_iff (getsMatch fun r => firstPlayer? r = some ("p1", uuidText 0x16))
    (getsTicket fun _ => true) lookupState.world.log (by decide +kernel)
  obtain ⟨r₁, h₁, hfirst⟩ := getsMatch_iff hp₁
  obtain ⟨r₂, h₂, -⟩ := getsTicket_iff hp₂
  have hplayers : ∃ players, r₁.body.get? "players" = some (.arr players) ∧
      listedPlayer (.str "p1") 0x16 ∈ players := by
    have hfirst := of_decide_eq_true hfirst
    unfold firstPlayer? at hfirst
    split at hfirst
    · next playerId ticketId rest hlist =>
      cases hfirst
      exact ⟨_, hlist, List.mem_cons_self⟩
    · cases hfirst
  obtain ⟨players, hplayers, hlisted⟩ := hplayers
  exact ⟨e₁, e₂, r₁, r₂, _, hlater, h₁, h₂, match_tickets_found lookupState_reachable hlater h₁ matchId_read
    hplayers hlisted h₂ ticketId_read⟩

end Matchmaking
