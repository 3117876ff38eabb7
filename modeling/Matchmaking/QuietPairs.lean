import Matchmaking.ActiveTickets
import Matchmaking.RunAlone
import Matchmaking.TableConstraints

/-!
# A pair that nobody disturbs

`create_match_from_pair` gives up where another session was faster. Where no other session runs, two
waiting tickets always become a match: the reservations succeed, and no key of the new rows is taken.
-/

namespace Matchmaking

open ReadCommitted

variable {answer : ℕ → (c : Call) → Reply c} {i : ℕ} {l : Actor} {w : ServiceWorld} {T : Option (Txn Row)}
  {now : Time} {s s' : Tables} {ps qs : Changes Row} {id : UUID} {t t₀ : Ticket} {workerId : String}

/-! ## Statements -/

/-- `ps` are the changes that lead from one store to another, and `qs` those of index entries. -/
structure Wrote (ps qs : Changes Row) (s s' : Tables) : Prop where
  rows : Changed IsIndexKey ps s s'
  entries : Changed (fun k => ¬ IsIndexKey k) qs s s'

theorem Wrote.row (h : Wrote ps qs s s') {k : Key} (hk : ¬ IsIndexKey k) {old : Option (Row k)}
    (hold : s.lookup k = old) (new : Option (Row k)) :
    Wrote (⟨k, (old, new)⟩ :: ps) qs s (writeRow ⟨k, new⟩ s') where
  rows := h.rows.write hold new
  entries k' hk' := by
    have hne : k' ≠ k := by
      rintro rfl
      exact hk' hk
    rw [lookup_writeRow_ne hne]
    exact h.entries k' hk'

theorem Wrote.entry (h : Wrote ps qs s s') {old : Option UUID} (hold : s.lookup t.indexKey = old)
    (new : Option UUID) : Wrote ps (⟨t.indexKey, (old, new)⟩ :: qs) s (writeRow ⟨t.indexKey, new⟩ s') where
  rows k' hk' := by
    rw [lookup_writeRow_ne (t.indexKey_ne hk').symm]
    exact h.rows k' hk'
  entries := h.entries.write hold new

/-- The session sees the store `s` with these changes. -/
def Following (now : Time) (s : Tables) (ps qs : Changes Row) (w : ServiceWorld) (T : Option (Txn Row)) :
    Prop :=
  ∃ s', SeesAt now s' w T ∧ Wrote ps qs s s'

/-- A new row is inserted. -/
theorem insertRow_gives {k : Key} (hk : ¬ IsIndexKey k) {row : Time → Row k}
    (h : Following now s ps qs w T) (hnew : s.lookup k = none) (hps : ps.dlookup k = none) :
    Client.Gives answer i l (insertRow k row) (fun v w' T' => v = some (row now) ∧ w' = w ∧
      Following now s (⟨k, (none, some (row now))⟩ :: ps) qs w' T') w T := by
  obtain ⟨s', hsees, hwrote⟩ := h
  have hnone : s'.lookup k = none := (hwrote.rows.frame k hk hps).trans hnew
  refine .row_put hsees (v := row now) ?_ fun T' hsees' => ⟨rfl, rfl, _, hsees', hwrote.row hk hnew _⟩
  rw [hnone]

/-- The entry of a ticket stays or goes with the ticket's activity. -/
theorem indexTicket_own_gives (h : SeesAt now s w T) (hown : s.lookup t.indexKey = some id) :
    Client.Gives answer i l (indexTicket id t) (fun _ w' T' => w' = w ∧
      SeesAt now (writeRow ⟨t.indexKey, if t.status.isActive then some id else none⟩ s) w' T') w T := by
  cases hactive : t.status.isActive with
  | true =>
    rw [if_pos rfl]
    refine .bind (.row_put h ?_ fun T' h' => .pure ⟨rfl, h'⟩)
    rw [hactive, hown]
    exact if_pos rfl
  | false =>
    refine .bind (.row_delete h ?_ fun T' h' => .pure ⟨rfl, h'⟩)
    rw [hactive, hown]
    exact if_pos rfl

/-- A ticket that has its entry in the index is updated. -/
theorem updateTicket_gives {cond : Time → Ticket → Bool} {set : Time → Ticket → Ticket}
    (h : Following now s ps qs w T) (hold : s.lookup (.tickets id) = some t₀)
    (hcur : ∀ s', Wrote ps qs s s' → s'.lookup (.tickets id) = some t) (hcond : cond now t = true)
    (hentry : s.lookup (set now t).indexKey = some id)
    (hown : ∀ s', Wrote ps qs s s' → s'.lookup (set now t).indexKey = some id) :
    Client.Gives answer i l (updateTicket id cond set) (fun v w' T' => v = some (set now t) ∧ w' = w ∧
      Following now s (⟨.tickets id, (some t₀, some (set now t))⟩ :: ps)
        (⟨(set now t).indexKey, (some id, if (set now t).status.isActive then some id else none)⟩ :: qs)
        w' T') w T := by
  obtain ⟨s', hsees, hwrote⟩ := h
  have hticket := hcur s' hwrote
  refine .bind (.select_at hsees fun T₁ h₁ => ?_)
  rw [hticket, Option.any_some, if_pos hcond]
  have hput : Client.Gives answer i l (updateRow (.tickets id) cond set) (fun v w₁ T₂ =>
      v = some (set now t) ∧ w₁ = w ∧ SeesAt now (writeRow ⟨.tickets id, some (set now t)⟩ s') w₁ T₂) w T₁ := by
    refine .row_put h₁ ?_ fun T₂ h₂ => ⟨rfl, rfl, h₂⟩
    rw [hticket]
    exact if_pos hcond
  refine .bind (hput.mono fun v w₁ T₂ hv => ?_)
  obtain ⟨rfl, rfl, h₂⟩ := hv
  have hindex : (writeRow ⟨.tickets id, some (set now t)⟩ s').lookup (set now t).indexKey = some id :=
    (lookup_writeRow_ne ((set now t).indexKey_ne_tickets id) s').trans (hown s' hwrote)
  refine .bind ((indexTicket_own_gives h₂ hindex).mono fun _ w₂ T₃ h₃ => .pure ⟨rfl, h₃.1, _, h₃.2, ?_⟩)
  exact (hwrote.row (k := .tickets id) (fun h => h) hold _).entry hentry _

/-- A question is answered. -/
theorem ask_gives {c : Call} (h : Following now s ps qs w T) : Client.Gives answer i l (ask c)
    (fun y w' T' => y = answer w.log.length c ∧ w'.log.length = w.log.length + 1 ∧
      Following now s ps qs w' T') w T := by
  obtain ⟨s', hsees, hwrote⟩ := h
  exact .call_now ⟨rfl, rfl, s', hsees.push .., hwrote⟩

/-! ## Reserving -/

/-- A waiting ticket that nobody else is after is reserved. -/
theorem reserveTicket_gives {reservationSeconds : ℕ} (h : Following now s ps qs w T)
    (hold : s.lookup (.tickets id) = some t) (hwaiting : t.status = .waiting)
    (hentry : s.lookup t.indexKey = some id) (hps : ps.dlookup (.tickets id) = none)
    (hqs : qs.dlookup t.indexKey = none) :
    Client.Gives answer i l (reserveTicket id workerId reservationSeconds) (fun reserved w' T' =>
      reserved = true ∧ w' = w ∧
      Following now s (⟨.tickets id, (some t, some (t.reservedFor workerId reservationSeconds now))⟩ :: ps)
        (⟨t.indexKey, (some id, some id)⟩ :: qs) w' T') w T := by
  have hentries : ∀ s', Wrote ps qs s s' → s'.lookup t.indexKey = some id := fun s' h' =>
    (h'.entries.frame t.indexKey (fun hk => hk trivial) hqs).trans hentry
  have hcur : ∀ s', Wrote ps qs s s' → s'.lookup (.tickets id) = some t := fun s' h' =>
    (h'.rows.frame (.tickets id) (fun h => h) hps).trans hold
  refine .bind ((updateTicket_gives h hold hcur (decide_eq_true hwaiting) hentry hentries).mono
    fun v w' T' hv => .pure ?_)
  obtain ⟨rfl, rfl, h'⟩ := hv
  exact ⟨rfl, rfl, h'⟩

/-! ## Making a match -/

/-- A reserved ticket is put into the match. -/
theorem addPlayer_gives (reservationSeconds : ℕ) {m : UUID} (h : Following now s ps qs w T)
    (hold : s.lookup (.tickets id) = some t) (hplayer : s.lookup (.matchPlayers m id) = none)
    (hps : ps.dlookup (.matchPlayers m id) = none)
    (hreserved : ps.dlookup (.tickets id) = some (some t, some (t.reservedFor workerId reservationSeconds now)))
    (hqs : qs.dlookup t.indexKey = some (some id, some id)) :
    Client.Gives answer i l (addPlayer m workerId (.ofRow (id, t))) (fun _ w' T' => w' = w ∧
      Following now s (⟨.tickets id, (some t, some (t.matchedWith m now))⟩ ::
          ⟨.matchPlayers m id, (none, some ⟨t.playerId⟩)⟩ :: ps)
        (⟨t.indexKey, (some id, none)⟩ :: qs) w' T') w T := by
  refine .bind ((insertRow_gives (k := .matchPlayers m id) (fun h => h) h hplayer hps).mono fun v w₁ T₁ hv => ?_)
  obtain ⟨-, rfl, h₁⟩ := hv
  have hentries : ∀ s', Wrote (⟨.matchPlayers m id, (none, some ⟨t.playerId⟩)⟩ :: ps) qs s s' →
      s'.lookup t.indexKey = some id := fun s' h' => (h'.entries.lookup t.indexKey (fun hk => hk trivial) hqs).2
  have hentry : s.lookup t.indexKey = some id := by
    obtain ⟨s', -, h'⟩ := h₁
    exact (h'.entries.lookup t.indexKey (fun hk => hk trivial) hqs).1
  have hcur : ∀ s', Wrote (⟨.matchPlayers m id, (none, some ⟨t.playerId⟩)⟩ :: ps) qs s s' →
      s'.lookup (.tickets id) = some (t.reservedFor workerId reservationSeconds now) := fun s' h' => by
    have hboth : (⟨.matchPlayers m id, (none, some ⟨t.playerId⟩)⟩ :: ps : Changes Row).dlookup (.tickets id)
        = some (some t, some (t.reservedFor workerId reservationSeconds now)) :=
      (List.dlookup_cons_ne _ _ (by simp)).trans hreserved
    exact (h'.rows.lookup (.tickets id) (fun h => h) hboth).2
  have hcond : (t.reservedFor workerId reservationSeconds now).isReservedBy workerId = true := by
    simp [Ticket.reservedFor, Ticket.isReservedBy]
  refine .bind (.mono (updateTicket_gives h₁ hold hcur hcond hentry hentries) fun v w₂ T₂ hv => .pure ?_)
  exact ⟨hv.2.1, hv.2.2⟩

/-- The tenant's URL is read. -/
theorem callbackUrl_gives {tenantId : String} {tenant : Tenant} (h : Following now s ps qs w T)
    (htenant : s.lookup (.tenants tenantId) = some tenant) (hps : ps.dlookup (.tenants tenantId) = none) :
    Client.Gives answer i l (callbackUrl tenantId) (fun url w' T' =>
      url = tenant.callbackUrl.getD defaultCallbackUrl ∧ w' = w ∧ Following now s ps qs w' T') w T := by
  obtain ⟨s', hsees, hwrote⟩ := h
  refine .bind (.select_at hsees fun T₁ h₁ => ?_)
  rw [hwrote.rows.frame (.tenants tenantId) (fun h => h) hps, htenant]
  exact .pure ⟨rfl, rfl, s', h₁, hwrote⟩

/-- The index entries that a pair leaves behind, newest first. -/
def pairEntries (first second : UUID × Ticket) : Changes Row := [
  ⟨second.2.indexKey, (some second.1, none)⟩,
  ⟨first.2.indexKey, (some first.1, none)⟩,
  ⟨second.2.indexKey, (some second.1, some second.1)⟩,
  ⟨first.2.indexKey, (some first.1, some first.1)⟩]

/-- What an undisturbed worker needs of the tables. -/
structure Orderly (s : Tables) : Prop where
  index : IndexSound s
  paired : Paired s
  known : TicketsKnown s

/-- `gen_random_uuid()` gives new ids where the log grows from `start` to `stop`. -/
structure FreshIds (answer : ℕ → (c : Call) → Reply c) (start stop : ℕ) (s : Tables) : Prop where
  apart : ∀ m n, start ≤ m → m < n → n < stop → (answer m .genRandomUuid : UUID) ≠ answer n .genRandomUuid
  matchIds : ∀ n, start ≤ n → n < stop → s.lookup (.matches (answer n .genRandomUuid)) = none
  eventIds : ∀ n, start ≤ n → n < stop → s.lookup (.callbackEvents (answer n .genRandomUuid)) = none

theorem FreshIds.later {start start' stop : ℕ} (h : FreshIds answer start stop s) (hstart : start ≤ start') :
    FreshIds answer start' stop s where
  apart m n hm := h.apart m n (Nat.le_trans hstart hm)
  matchIds n hn := h.matchIds n (Nat.le_trans hstart hn)
  eventIds n hn := h.eventIds n (Nat.le_trans hstart hn)

/-- The `k`-th answer, given between `start` and `stop`, is the id `x`. -/
def GivenAt (answer : ℕ → (c : Call) → Reply c) (start stop k : ℕ) (x : UUID) : Prop :=
  start ≤ k ∧ k < stop ∧ x = answer k .genRandomUuid

/-- The event of the new match goes to the URL of its tenant, or else to the default. -/
def NewMatch.Addressed (n : NewMatch) (s : Tables) : Prop :=
  ∃ tenant, s.lookup (.tenants n.first.tenantId) = some tenant ∧
    n.url = tenant.callbackUrl.getD defaultCallbackUrl

/-- A new match has no players. -/
theorem Paired.no_players (hs : Paired s) {m : UUID} (hm : s.lookup (.matches m) = none) (id : UUID) :
    s.lookup (.matchPlayers m id) = none := by
  cases hp : s.lookup (.matchPlayers m id) with
  | none => rfl
  | some p =>
    obtain ⟨t, row, -, hrow, -⟩ := hs.player m id (by rw [hp]; rfl)
    cases hm.symm.trans hrow

section Pair

variable {first second : UUID × Ticket} {reservationSeconds stop : ℕ}

theorem insertMatch_gives (hs : Orderly s) (hfresh : FreshIds answer w.log.length stop s)
    (hstop : w.log.length + 2 ≤ stop)
    (hfirst : s.lookup (.tickets first.1) = some first.2) (hsecond : s.lookup (.tickets second.1) = some second.2)
    (hne : first.1 ≠ second.1) (hkeys : first.2.indexKey ≠ second.2.indexKey)
    (h : Following now s (bothReserved workerId reservationSeconds now first second)
      [⟨second.2.indexKey, (some second.1, some second.1)⟩,
        ⟨first.2.indexKey, (some first.1, some first.1)⟩] w T) :
    Client.Gives answer i l (insertMatch (.ofRow first) (.ofRow second) workerId) (fun _ w' T' =>
      w'.log.length = w.log.length + 2 ∧ ∃ (n : NewMatch) (m e : ℕ), n.firstId = first.1 ∧
        n.first = first.2 ∧ n.secondId = second.1 ∧ n.second = second.2 ∧ n.Addressed s ∧
        GivenAt answer w.log.length w'.log.length m n.matchId ∧
        GivenAt answer w.log.length w'.log.length e n.eventId ∧
        Following now s (n.changes now ++ bothReserved workerId reservationSeconds now first second)
          (pairEntries first second) w' T') w T := by
  obtain ⟨firstId, a⟩ := first
  obtain ⟨secondId, b⟩ := second
  dsimp only at hfirst hsecond hne hkeys
  obtain ⟨tenant, htenant⟩ := Option.isSome_iff_exists.mp (hs.known firstId a hfirst)
  refine .bind ((ask_gives h).mono fun m w₁ T₁ hm => ?_)
  obtain ⟨rfl, hlog₁, h₁⟩ := hm
  -- the match gets the first id that is given, which no row has
  have hmatch := hfresh.matchIds _ (Nat.le_refl _) (by omega)
  generalize hmid : answer w.log.length .genRandomUuid = m at hmatch h₁ ⊢
  refine .bind ((insertRow_gives (k := .matches m) (fun h => h) h₁ hmatch (by simp [bothReserved])).mono
    fun row w₂ T₂ hrow => ?_)
  obtain ⟨rfl, rfl, h₂⟩ := hrow
  refine .bind ((addPlayer_gives reservationSeconds h₂ hfirst (hs.paired.no_players hmatch _)
    (by simp [bothReserved]) ?_ ?_).mono fun _ w₃ T₃ h₃ => ?_)
  · simp [bothReserved, List.dlookup_cons_ne, hne]
  · exact (List.dlookup_cons_ne _ _ hkeys).trans (List.dlookup_cons_eq ..)
  obtain ⟨rfl, h₃⟩ := h₃
  refine .bind ((addPlayer_gives reservationSeconds h₃ hsecond (hs.paired.no_players hmatch _)
    (by simp [bothReserved, List.dlookup_cons_ne, hne.symm]) ?_ ?_).mono fun _ w₄ T₄ h₄ => ?_)
  · simp [bothReserved, List.dlookup_cons_ne, hne.symm]
  · exact (List.dlookup_cons_ne _ _ hkeys.symm).trans (List.dlookup_cons_eq ..)
  obtain ⟨rfl, h₄⟩ := h₄
  refine .bind ((callbackUrl_gives h₄ htenant (by simp [bothReserved])).mono fun url w₅ T₅ h₅ => ?_)
  obtain ⟨hurl, rfl, h₅⟩ := h₅
  refine .bind ((ask_gives h₅).mono fun e w₆ T₆ he => ?_)
  obtain ⟨rfl, hlog₆, h₆⟩ := he
  have hlog : w.log.length ≤ w₅.log.length := by omega
  -- the event gets the second
  have hevent := hfresh.eventIds _ hlog (by omega)
  generalize heid : answer w₅.log.length .genRandomUuid = e at hevent h₆ ⊢
  refine .bind ((insertRow_gives (k := .callbackEvents e) (fun h => h) h₆ hevent (by simp [bothReserved])).mono
    fun row w₇ T₇ hrow => .pure ?_)
  obtain ⟨-, rfl, h₇⟩ := hrow
  exact ⟨by omega, ⟨firstId, secondId, m, e, a, b, url⟩, w.log.length, w₅.log.length, rfl, rfl, rfl, rfl,
    ⟨tenant, htenant, hurl⟩, ⟨Nat.le_refl _, by omega, hmid.symm⟩, ⟨hlog, by omega, heid.symm⟩, h₇⟩

/-- The pair has become a match, and nothing else has changed. -/
def MatchMade (now : Time) (first second : WaitingTicket) (s s' : Tables) : Prop :=
  ∃ n : NewMatch, first = .ofRow (n.firstId, n.first) ∧ second = .ofRow (n.secondId, n.second) ∧ n.Compatible ∧
    n.Addressed s ∧ Changed IsIndexKey (n.changes now) s s'

/-- The entries of the pair's tickets are gone, and all others are still there. -/
theorem IndexSound.pair {n : NewMatch} (hs : IndexSound s) (hn : n.Compatible)
    (hkeys : n.first.indexKey ≠ n.second.indexKey) (hchanged : Changed IsIndexKey (n.changes now) s s')
    (hentries : Changed (fun k => ¬ IsIndexKey k)
      (pairEntries (n.firstId, n.first) (n.secondId, n.second)) s s') : IndexSound s' := by
  intro id t ht hactive
  by_cases h₁ : id = n.firstId
  · subst h₁
    have hnew := (hchanged.lookup (.tickets n.firstId) (fun h => h) (n.dlookup_first now hn.apart)).2
    obtain rfl := Option.some.inj (hnew.symm.trans ht)
    cases hactive
  by_cases h₂ : id = n.secondId
  · subst h₂
    have hnew := (hchanged.lookup (.tickets n.secondId) (fun h => h) (n.dlookup_second now)).2
    obtain rfl := Option.some.inj (hnew.symm.trans ht)
    cases hactive
  rw [NewMatch.frame_ticket hchanged ⟨h₁, h₂⟩] at ht
  have hentry := hs id t ht hactive
  have hfirst := (hentries.lookup n.first.indexKey (fun hk => hk trivial)
    ((List.dlookup_cons_ne _ _ hkeys).trans (List.dlookup_cons_eq ..))).1
  have hsecond := (hentries.lookup n.second.indexKey (fun hk => hk trivial) (List.dlookup_cons_eq ..)).1
  have hne₁ : t.indexKey ≠ n.first.indexKey := fun heq =>
    h₁ (Option.some.inj ((Ticket.lookup_indexKey heq hentry).symm.trans hfirst))
  have hne₂ : t.indexKey ≠ n.second.indexKey := fun heq =>
    h₂ (Option.some.inj ((Ticket.lookup_indexKey heq hentry).symm.trans hsecond))
  refine (hentries.frame t.indexKey (fun hk => hk trivial) ?_).trans hentry
  exact List.dlookup_eq_none.mpr (by simp [pairEntries, List.keys, hne₁, hne₂])

theorem TicketsKnown.pair {n : NewMatch} (hs : TicketsKnown s) (hn : n.Compatible)
    (hchanged : Changed IsIndexKey (n.changes now) s s') : TicketsKnown s' := by
  intro id t ht
  have htenants : s'.lookup (.tenants t.tenantId) = s.lookup (.tenants t.tenantId) :=
    hchanged.frame (.tenants t.tenantId) (fun h => h) (n.dlookup_eq_none now (by simp))
  rw [htenants]
  by_cases h₁ : id = n.firstId
  · subst h₁
    obtain ⟨hold, hnew⟩ := hchanged.lookup (.tickets n.firstId) (fun h => h) (n.dlookup_first now hn.apart)
    obtain rfl := Option.some.inj (hnew.symm.trans ht)
    exact hs n.firstId n.first hold
  by_cases h₂ : id = n.secondId
  · subst h₂
    obtain ⟨hold, hnew⟩ := hchanged.lookup (.tickets n.secondId) (fun h => h) (n.dlookup_second now)
    obtain rfl := Option.some.inj (hnew.symm.trans ht)
    exact hs n.secondId n.second hold
  exact hs id t ((NewMatch.frame_ticket hchanged ⟨h₁, h₂⟩).symm.trans ht)

/-- The ids of later answers are still new. -/
theorem FreshIds.pair {n : NewMatch} {start start' m e : ℕ} (h : FreshIds answer start stop s)
    (hchanged : Changed IsIndexKey (n.changes now) s s') (hm : GivenAt answer start start' m n.matchId)
    (he : GivenAt answer start start' e n.eventId) : FreshIds answer start' stop s' := by
  obtain ⟨hm, hm', hmid⟩ := hm
  obtain ⟨he, he', heid⟩ := he
  have hlater : ∀ {j k x}, start ≤ j → j < start' → x = answer j .genRandomUuid → start' ≤ k → k < stop →
      (answer k .genRandomUuid : UUID) ≠ x := by
    rintro j k x hj hj' rfl hk hk'
    exact (h.apart j k hj (Nat.lt_of_lt_of_le hj' hk) hk').symm
  refine ⟨fun j k hj => h.apart j k (by omega), fun k hk hk' => ?_, fun k hk hk' => ?_⟩
  · rw [NewMatch.frame_match hchanged (hlater hm hm' hmid hk hk')]
    exact h.matchIds k (by omega) hk'
  · have hne := hlater he he' heid hk hk'
    rw [hchanged.frame (.callbackEvents _) (fun h => h) (n.dlookup_eq_none now (by simp [hne]))]
    exact h.eventIds k (by omega) hk'

/-- **An undisturbed pair becomes a match.** -/
theorem createMatchFromPair_gives (hs : Orderly s) (hfresh : FreshIds answer w.log.length stop s)
    (hstop : w.log.length + 2 ≤ stop)
    (hfirst : s.lookup (.tickets first.1) = some first.2) (hsecond : s.lookup (.tickets second.1) = some second.2)
    (hne : first.1 ≠ second.1) (hwaiting : first.2.status = .waiting) (hwaiting' : second.2.status = .waiting)
    (hsame : SameQueue (.ofRow first) (.ofRow second)) (h : SeesAt now s w T) :
    Client.Gives answer i l (createMatchFromPair (.ofRow first) (.ofRow second) workerId reservationSeconds)
      (fun made w' T' => made = true ∧ w'.log.length ≤ w.log.length + 3 ∧ ∃ s', SeesAt now s' w' T' ∧
        MatchMade now (.ofRow first) (.ofRow second) s s' ∧ Orderly s' ∧ FreshIds answer w'.log.length stop s')
      w T := by
  obtain ⟨firstId, a⟩ := first
  obtain ⟨secondId, b⟩ := second
  dsimp only at hfirst hsecond hne hwaiting hwaiting'
  have hactive : a.status.isActive = true := by
    rw [hwaiting]
    rfl
  have hactive' : b.status.isActive = true := by
    rw [hwaiting']
    rfl
  have hkeys : a.indexKey ≠ b.indexKey := fun hkey => hne (hs.index.unique hfirst hsecond hactive hactive' hkey)
  have hstart : Following now s [] [] w T := ⟨s, h, .refl _ s, .refl _ s⟩
  refine .bind ((reserveTicket_gives hstart hfirst hwaiting (hs.index firstId a hfirst hactive) rfl rfl).mono
    fun reserved w₁ T₁ h₁ => ?_)
  obtain ⟨rfl, rfl, h₁⟩ := h₁
  rw [if_neg (by simp)]
  refine .bind ((reserveTicket_gives h₁ hsecond hwaiting' (hs.index secondId b hsecond hactive')
    (by simp [List.dlookup_cons_ne, hne.symm]) ?_).mono fun reserved w₂ T₂ h₂ => ?_)
  · exact (List.dlookup_cons_ne _ _ hkeys.symm).trans (List.dlookup_nil _)
  obtain ⟨rfl, rfl, s₂, hsees₂, hwrote₂⟩ := h₂
  rw [if_neg (by simp)]
  refine .bind (attempt_gives (.of_gives (transaction_gives hsees₂ fun T₃ hsees₃ =>
    .mono (insertMatch_gives hs hfresh hstop hfirst hsecond hne hkeys ⟨s₂, hsees₃, hwrote₂⟩) ?_)))
  rintro _ w₄ T₄
    ⟨hlog₄, n, m, e, hn₁, hn₂, hn₃, hn₄, hurl, ⟨hm, hm', hmid⟩, ⟨he, he', heid⟩, s₄, hsees₄, hwrote₄⟩
  refine ⟨s₄, hsees₄, fun w₅ T₅ hsees₅ hlog₅ hlog₅' => .pure ⟨rfl, by omega, s₄, hsees₅, ?_⟩⟩
  subst hn₁ hn₂ hn₃ hn₄
  have hn : n.Compatible := ⟨hne, hwaiting, hwaiting', hsame.1, hsame.2.1, hsame.2.2⟩
  have hchanged : Changed IsIndexKey (n.changes now) s s₄ := hwrote₄.rows.congr fun k _ =>
    (dlookup_append_of_subset (keys_bothReserved n workerId reservationSeconds now) k).symm
  refine ⟨⟨n, rfl, rfl, hn, hurl, hchanged⟩, ⟨hs.index.pair hn hkeys hchanged hwrote₄.entries,
    NewMatch.paired hchanged hn hs.paired, hs.known.pair hn hchanged⟩, ?_⟩
  exact hfresh.pair hchanged ⟨hm, Nat.lt_of_lt_of_le hm' hlog₅, hmid⟩ ⟨he, Nat.lt_of_lt_of_le he' hlog₅, heid⟩

end Pair

end Matchmaking
