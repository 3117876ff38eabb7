import Matchmaking.PairSearch
import Matchmaking.Integrity
import Matchmaking.LogRules
import Matchmaking.Composition

/-!
# The skill rule

Whatever happens between the search for pairs and the commit of a match, and however long it takes: the
committed match consists of two tickets that the worker has compared before, by readings of its own
clock. The tolerance does not shrink while players wait, so the pair is within it at the commit as well.
-/

namespace Matchmaking

open ReadCommitted ReadCommitted.Triple

variable {rt : Runtime} {i : ℕ} {l : Actor} {settings : Settings} {workerId : String} {offset : ℕ}
  {log older : List LogEntry} {first second : WaitingTicket}

/-! ## What a worker has read -/

/-- The entry is a reading of the host's clock. -/
def readsClock (τ : Time) (entry : LogEntry) : Prop := entry.event = .call .wallClock (.ok τ)

/-- Session `i` has found the two tickets compatible. -/
def FoundCompatible (settings : Settings) (i : ℕ) (log : List LogEntry)
    (first second : WaitingTicket) : Prop :=
  ∃ t t', (∃ e ∈ log, e.session = i ∧ readsClock t e) ∧ (∃ e ∈ log, e.session = i ∧ readsClock t' e) ∧
    Compatible settings t t' first second

/-- The readings that a comparison rests on stay in the log. -/
theorem FoundCompatible.mono {log' : List LogEntry} (h : FoundCompatible settings i log first second)
    (hsub : ∀ e ∈ log, e ∈ log') : FoundCompatible settings i log' first second := by
  obtain ⟨t, t', ⟨e, he, hi, hread⟩, ⟨e', he', hi', hread'⟩, hc⟩ := h
  exact ⟨t, t', ⟨e, hsub e he, hi, hread⟩, ⟨e', hsub e' he', hi', hread'⟩, hc⟩

/-- The comparison treats its two tickets alike, with their readings exchanged. -/
theorem FoundCompatible.symm (h : FoundCompatible settings i log first second) :
    FoundCompatible settings i log second first := by
  obtain ⟨t, t', hread, hread', htenant, hregion, hqueue, hskill⟩ := h
  refine ⟨t', t, hread', hread, htenant.symm, hregion.symm, hqueue.symm, ?_⟩
  rw [← Int.natAbs_neg, Int.neg_sub, max_comm]
  exact hskill

/-- The match that the entry commits, if it commits one, is one of tickets that its session has found
compatible before. -/
def SkillDue (entry : LogEntry) (older : List LogEntry) : Prop :=
  ∀ settings workerId offset, entry.actor = .runLoop settings workerId offset → ∀ t b,
    entry.event.commit? = some (t, b) → ∀ n, Makes entry.actor t b n →
      FoundCompatible settings entry.session older (.ofRow (n.firstId, n.first))
        (.ofRow (n.secondId, n.second))

/-- Readings of the clock, and commits. -/
def skillMark (entry : LogEntry) : Option LogEntry :=
  match entry.event with
  | .call .wallClock (.ok _) | .commit .. => some entry
  | _ => none

/-- The mark of an entry is the entry. -/
theorem skillMark_eq {e e' : LogEntry} (h : skillMark e = some e') : e = e' := by
  unfold skillMark at h
  split at h <;> cases h <;> rfl

/-- Every match has been found before. -/
def skillRule : LogRule Row Reply Exn Metric Answer Actor LogEntry where
  mark := skillMark
  fine := Justified SkillDue
  start := .nil
  begun _ _ _ := rfl

/-- Entries that commit no match keep the rule. -/
theorem skillRule_push {w : ServiceWorld} (h : (ruleSpec rt skillRule).facts w)
    {ev : Event Row Reply Exn Metric Answer} (hev : ev.commit? = none) :
    Justified SkillDue (marks skillMark i (⟨i, l, w.clock, ev⟩ :: w.log)) := by
  cases hmark : skillMark ⟨i, l, w.clock, ev⟩ with
  | none =>
    rw [marks_cons_none hmark]
    exact h.1 i
  | some e =>
    rw [marks_cons_some rfl hmark]
    refine Justified.cons (h.1 i) fun _ _ _ _ t b hc => ?_
    rw [← skillMark_eq hmark] at hc
    cases hev.symm.trans hc

/-- Readings of the clock may be made at any point. -/
theorem skillRule_logs : (ruleSpec rt skillRule).Logs i l := by
  intro w ev hev h
  refine LogRule.spec_push grows_growth h.1 (skillRule_push h ?_)
  cases ev <;> first | rfl | cases hev

/-- The commits that are no matches, or due ones. -/
theorem skillRule_commits {C : ServiceWorld → Txn Row → Prop}
    (hC : ∀ w t, C w t → ∀ settings workerId offset, l = .runLoop settings workerId offset →
      ∀ n, Makes l t w.committed n → FoundCompatible settings i w.log (.ofRow (n.firstId, n.first))
        (.ofRow (n.secondId, n.second))) : (ruleSpec rt skillRule).Commits i l C := by
  refine ruleSpec_commits fun w t hfacts hc _ _ => ?_
  have hcommit : skillMark ⟨i, l, w.clock, .commit t w.committed⟩
      = some ⟨i, l, w.clock, .commit t w.committed⟩ := rfl
  show Justified SkillDue (marks skillMark i _)
  rw [marks_cons_some rfl hcommit]
  refine Justified.cons (hfacts.1 i) ?_
  rintro settings workerId offset hl _ _ ⟨⟩ n hn
  obtain ⟨t₁, t₂, ⟨e, he, hi, hread⟩, ⟨e', he', hi', hread'⟩, hcompat⟩ :=
    hC w t hc settings workerId offset hl n hn
  have hmark : ∀ {e : LogEntry} {τ : Time}, readsClock τ e → skillMark e = some e := fun h => by
    unfold skillMark
    rw [h]
  exact ⟨t₁, t₂, ⟨e, mem_marks.mpr ⟨e, he, hi, hmark hread⟩, hi, hread⟩,
    ⟨e', mem_marks.mpr ⟨e', he', hi', hmark hread'⟩, hi', hread'⟩, hcompat⟩

/-! ## The search -/

/-- What is kept while the tables persist and the log grows is not taken back by anyone. -/
theorem ruleSpec_lasting {C : ServiceWorld → Prop} (hC : ∀ w w', Grows w w' → C w → C w') :
    (ruleSpec rt skillRule).Lasting i l C := LogRule.spec_lasting hC

/-- That two tickets were found compatible is such a condition. -/
theorem foundCompatible_lasting : (ruleSpec rt skillRule).Lasting i l
    fun w => FoundCompatible settings i w.log first second :=
  ruleSpec_lasting fun _ _ hg h => h.mono fun _ he => hg.log.subset he

/-- The wait of a ticket is counted up to a reading of this session's clock, and is never negative. -/
theorem waitSeconds_read (createdAt : Time) :
    Triple (ruleSpec rt skillRule) i l (fun _ _ => True) (waitSeconds createdAt)
      (fun wait w _ => ∃ τ, wait = max 0 (τ - createdAt) ∧
        ∃ e ∈ w.log, e.session = i ∧ readsClock τ e) anything := by
  have hask : Triple (ruleSpec rt skillRule) i l (fun _ _ => True) (ask .wallClock)
      (fun τ w _ => ∃ e ∈ w.log, e.session = i ∧ readsClock τ e) anything := by
    refine Triple.call (fun _ _ _ _ _ => trivial)
      (fun w _ y hfacts _ => skillRule_logs w _ trivial hfacts) ?_
    rintro w T (e | τ) - -
    · trivial
    · exact ⟨_, List.mem_cons_self, rfl, rfl⟩
  exact .bind hask fun τ => .pure _ fun w T h => ⟨τ, rfl, h⟩

/-- Two tickets are called compatible only after both waits have been read. -/
theorem ticketsCompatible_found :
    Triple (ruleSpec rt skillRule) i l (fun _ _ => True) (ticketsCompatible first second settings)
      (fun b w _ => b = true → FoundCompatible settings i w.log first second) anything := by
  refine .ite (fun _ => .pure _ fun _ _ _ hb => by cases hb) fun hsame => ?_
  simp only [not_or, not_not] at hsame
  have hread : ∀ wait, (ruleSpec rt skillRule).Lasting i l fun w =>
      ∃ τ, wait = max 0 (τ - first.createdAt) ∧ ∃ e ∈ w.log, e.session = i ∧ readsClock τ e :=
    fun wait => ruleSpec_lasting fun _ _ hg ⟨τ, hτ, hread⟩ => ⟨τ, hτ, hg.logged hread⟩
  refine .bind (waitSeconds_read _) fun wait => .bind ((keep (hread wait) (waitSeconds_read _)).pre
    fun _ _ h => ⟨trivial, h⟩) fun wait' => .pure _ ?_
  rintro w T ⟨⟨τ', rfl, hread'⟩, τ, rfl, hread⟩ hb
  exact ⟨τ, τ', hread, hread', hsame.1, hsame.2.1, hsame.2.2, of_decide_eq_true hb⟩

/-- The partner that is found has been compared with the first ticket. -/
theorem findSecond_found {used : List UUID} (rest : List WaitingTicket) :
    Triple (ruleSpec rt skillRule) i l (fun _ _ => True) (findSecond settings first used rest)
      (fun r w _ => ∀ second, r = some second → FoundCompatible settings i w.log first second)
      anything := by
  induction rest with
  | nil => exact .pure _ fun _ _ _ _ h => by cases h
  | cons second rest ih =>
    refine .ite (fun _ => ih) fun _ => .bind ticketsCompatible_found fun compatible =>
      .ite (fun hc => .pure _ ?_) fun _ => ih.pre fun _ _ _ => trivial
    rintro w T hfound _ ⟨⟩
    exact hfound hc

/-- Each pair of the list has been compared, earlier ones in earlier rounds of the loop. -/
theorem findPairsFrom_found (tickets : List WaitingTicket) (used : List UUID) :
    Triple (ruleSpec rt skillRule) i l (fun _ _ => True) (findPairsFrom settings tickets used)
      (fun pairs w _ => ∀ p ∈ pairs, FoundCompatible settings i w.log p.1 p.2) anything := by
  induction tickets generalizing used with
  | nil => exact .pure _ fun _ _ _ _ hp => (List.not_mem_nil hp).elim
  | cons first rest ih =>
    refine .ite (fun _ => ih used) fun _ => .bind (findSecond_found rest) ?_
    rintro (_ | second)
    · exact (ih used).pre fun _ _ _ => trivial
    · refine .bind ((keep foundCompatible_lasting (ih _)).pre fun _ _ h => ⟨trivial, h second rfl⟩)
        fun pairs => .pure _ ?_
      rintro w T ⟨hpairs, hfound⟩ p hp
      rcases List.mem_cons.mp hp with rfl | hp
      · exact hfound
      · exact hpairs p hp

/-- So has each pair of the whole search; other sizes of a match find none. -/
theorem findPairs_found {tickets : List WaitingTicket} :
    Triple (ruleSpec rt skillRule) i l (fun _ _ => True) (findPairs tickets settings)
      (fun pairs w _ => ∀ p ∈ pairs, FoundCompatible settings i w.log p.1 p.2) anything :=
  .ite (fun _ => .throw _ fun _ _ _ => trivial) fun _ => findPairsFrom_found tickets []

/-! ## Commits -/

/-- What a session knows about a pair that it has found. -/
structure PairFound (settings : Settings) (i : ℕ) (p : WaitingTicket × WaitingTicket)
    (w : ServiceWorld) : Prop where
  first : IsFetched w.committed p.1
  second : IsFetched w.committed p.2
  found : FoundCompatible settings i w.log p.1 p.2

/-- That a pair was found stays true while the log grows. -/
theorem PairFound.grows {p : WaitingTicket × WaitingTicket} {w w' : ServiceWorld}
    (h : PairFound settings i p w) (hg : Grows w w') : PairFound settings i p w' :=
  ⟨h.first.persist hg.persist, h.second.persist hg.persist, h.found.mono fun _ he => hg.log.subset he⟩

/-- Commits whose rows follow `Φ` while `C` holds are no matches, or matches that have been found. -/
structure Covers (rt : Runtime) (settings : Settings) (workerId : String) (offset i : ℕ)
    (Φ : RowRel Row) (C : ServiceWorld → Prop) : Prop where
  refl : ∀ now k v, Φ now k v v
  trans : ∀ now k v v' v'', Φ now k v v' → Φ now k v' v'' → Φ now k v v''
  lasting : (ruleSpec rt skillRule).Lasting i (.runLoop settings workerId offset) C
  found : ∀ w t, (∀ k, Φ t.start k (w.committed.lookup k) ((patch t.writes w.committed).lookup k)) →
    C w → ∀ n, Makes (.runLoop settings workerId offset) t w.committed n →
      FoundCompatible settings i w.log (.ofRow (n.firstId, n.first)) (.ofRow (n.secondId, n.second))

namespace Covers

variable {Φ : RowRel Row} {C : ServiceWorld → Prop} {α : Type}

section

variable (h : Covers rt settings workerId offset i Φ C)

include h

/-- The rule for a commit of these rows, under a condition that lasts. -/
theorem commits : (ruleSpec rt skillRule).Commits i (.runLoop settings workerId offset) fun w t =>
    (∀ k, Φ t.start k (w.committed.lookup k) ((patch t.writes w.committed).lookup k)) ∧ C w := by
  refine skillRule_commits ?_
  rintro w t ⟨hrows, hc⟩ _ _ _ ⟨⟩ n hn
  exact h.found w t hrows hc n hn

/-- A program whose statements follow a relation on rows does so as a whole, and the condition lasts through
it. -/
theorem uses {x : Db α} (hx : UsesRows Φ x) :
    Triple (ruleSpec rt skillRule) i (.runLoop settings workerId offset)
      (fun w T => Follows Φ w T ∧ C w) x (fun _ w T => Follows Φ w T ∧ C w)
      fun _ w T => Follows Φ w T ∧ C w :=
  of_uses_lasting h.refl h.trans skillRule_logs h.lasting h.commits hx

/-- The COMMIT after such a program is allowed, and starts the next transaction from nothing. -/
theorem commit : Triple (ruleSpec rt skillRule) i (.runLoop settings workerId offset)
    (fun w T => Follows Φ w T ∧ C w) (perform .commit) (fun _ w T => Idle w T ∧ C w) anything := by
  have hcommit : Triple (ruleSpec rt skillRule) i (.runLoop settings workerId offset)
      (fun w T => Follows Φ w T ∧ C w) (perform .commit) (fun _ => Idle) fun _ => Idle :=
    .stage_commit ((Follows.stable Φ).and h.lasting.stable)
      (fun w t _ hp => ⟨hp.1.view h.refl, hp.2⟩) h.commits
  exact (keep h.lasting hcommit.any).pre fun _ _ hp => ⟨hp, hp.2⟩

end

/-- Where rows of `matches` stay as they are, no match is made. -/
theorem of_matches (hrefl : ∀ now k v, Φ now k v v)
    (htrans : ∀ now k v v' v'', Φ now k v v' → Φ now k v' v'' → Φ now k v v'')
    (hC : (ruleSpec rt skillRule).Lasting i (.runLoop settings workerId offset) C)
    (hmatches : ∀ now m v v', Φ now (.matches m) v v' → v' = v) :
    Covers rt settings workerId offset i Φ C := by
  refine ⟨hrefl, htrans, hC, fun w t hrows _ n hn => ?_⟩
  obtain ⟨hold, hnew⟩ := hn.changed.lookup (.matches n.matchId) (fun h => h) (n.dlookup_match t.start)
  cases (hold.symm.trans ((hmatches _ _ _ _ (hrows (.matches n.matchId))).symm.trans hnew))

end Covers

/-! ## One pair -/

/-- Tickets other than `ids` are left alone. -/
def onlyTickets (ids : List UUID) : RowRel Row := fun _ k =>
  match k with
  | .tickets id => fun v v' => id ∈ ids ∨ v' = v
  | _ => fun _ _ => True

/-- A row that is not written is covered. -/
theorem onlyTickets_refl (ids : List UUID) (now : Time) (k : Key) (v : Option (Row k)) :
    onlyTickets ids now k v v := by
  cases k <;> first | exact .inr rfl | trivial

/-- Two writes of these tickets follow each other. -/
theorem onlyTickets_trans (ids : List UUID) (now : Time) (k : Key) (v v' v'' : Option (Row k))
    (h : onlyTickets ids now k v v') (h' : onlyTickets ids now k v' v'') :
    onlyTickets ids now k v v'' := by
  cases k with
  | tickets id =>
    rcases h with h | h
    · exact .inl h
    · exact h'.imp (fun h => h) fun h' => Eq.trans h' h
  | _ => trivial

/-- A pair that has been found may be committed as a match. -/
theorem Covers.pair {C : ServiceWorld → Prop} {p : WaitingTicket × WaitingTicket}
    (hC : (ruleSpec rt skillRule).Lasting i (.runLoop settings workerId offset) C) :
    Covers rt settings workerId offset i (onlyTickets [p.1.ticketId, p.2.ticketId])
      fun w => PairFound settings i p w ∧ C w where
  refl := onlyTickets_refl _
  trans := onlyTickets_trans _
  lasting := (ruleSpec_lasting fun _ _ hg h => h.grows hg).and hC
  found w t hrows hp n hn := by
    obtain ⟨hfirst, hsecond, hfound⟩ := hp.1
    -- both tickets of the match change, so they are the two tickets of the pair
    have hmem : ∀ {id : UUID} {a a' : Ticket}, w.committed.lookup (.tickets id) = some a →
        (patch t.writes w.committed).lookup (.tickets id) = some a' → a'.status ≠ a.status →
        id = p.1.ticketId ∨ id = p.2.ticketId := by
      intro id a a' hold hnew hne
      obtain hid | hsame := hrows (.tickets id)
      · exact List.mem_pair.mp hid
      · rw [hold, hnew] at hsame
        exact absurd (congrArg Ticket.status (Option.some.inj hsame)) hne
    have h₁ := hn.changed.lookup (.tickets n.firstId) (fun h => h)
      (n.dlookup_first t.start hn.compatible.apart)
    have h₂ := hn.changed.lookup (.tickets n.secondId) (fun h => h) (n.dlookup_second t.start)
    have hid₁ := hmem h₁.1 h₁.2 (by rw [hn.compatible.firstWaiting]; exact fun h => by cases h)
    have hid₂ := hmem h₂.1 h₂.2 (by rw [hn.compatible.secondWaiting]; exact fun h => by cases h)
    have hrow : ∀ {wt : WaitingTicket} {id : UUID} {a : Ticket}, IsFetched w.committed wt →
        w.committed.lookup (.tickets id) = some a → id = wt.ticketId → wt = .ofRow (id, a) := by
      rintro wt id a hwt ha rfl
      exact hwt.eq_ofRow ha
    have hapart := hn.compatible.apart
    rcases hid₁ with heq₁ | heq₁ <;> rcases hid₂ with heq₂ | heq₂
    · exact absurd (heq₁.trans heq₂.symm) hapart
    · rw [← hrow hfirst h₁.1 heq₁, ← hrow hsecond h₂.1 heq₂]
      exact hfound
    · rw [← hrow hsecond h₁.1 heq₁, ← hrow hfirst h₂.1 heq₂]
      exact hfound.symm
    · exact absurd (heq₁.trans heq₂.symm) hapart

/-- An attempt touches the two tickets only. -/
theorem usesRows_createMatchFromPair (first second : WaitingTicket) (workerId : String)
    (reservationSeconds : ℕ) :
    UsesRows (onlyTickets [first.ticketId, second.ticketId])
      (createMatchFromPair first second workerId reservationSeconds) := by
  have hupdate : ∀ {id : UUID} {cond : Time → Ticket → Bool} {set : Time → Ticket → Ticket},
      id ∈ [first.ticketId, second.ticketId] →
      UsesRows (onlyTickets [first.ticketId, second.ticketId]) (updateTicket id cond set) :=
    fun hid => UsesRows.updateTicket (fun _ _ _ _ _ _ _ => trivial) fun _ _ _ => .inl hid
  have hfirst : first.ticketId ∈ [first.ticketId, second.ticketId] := List.mem_cons_self
  have hsecond : second.ticketId ∈ [first.ticketId, second.ticketId] :=
    List.mem_cons_of_mem _ List.mem_cons_self
  -- the rows that are inserted are no tickets
  have hinsert : ∀ {k : Key} {row : Time → Row k}, (∀ id, k ≠ .tickets id) →
      UsesRows (onlyTickets [first.ticketId, second.ticketId]) (insertRow k row) := by
    intro k row hk
    refine .perform fun now v => ?_
    cases v with
    | some v => trivial
    | none =>
      cases k with
      | tickets id => exact absurd rfl (hk id)
      | _ => trivial
  have hplayer : ∀ {m : UUID} {wt : WaitingTicket}, wt.ticketId ∈ [first.ticketId, second.ticketId] →
      UsesRows (onlyTickets [first.ticketId, second.ticketId]) (addPlayer m workerId wt) := fun hwt =>
    .bind (hinsert fun _ h => by cases h) fun _ => .bind (hupdate hwt) fun _ => .pure _
  have hurl : UsesRows (onlyTickets [first.ticketId, second.ticketId])
      (callbackUrl first.tenantId) := by
    refine .bind UsesRows.select ?_
    rintro (_ | url)
    · exact .throw _
    · exact .pure _
  have hmatch : UsesRows (onlyTickets [first.ticketId, second.ticketId])
      (insertMatch first second workerId) := by
    refine .bind (UsesRows.ask _) fun m => .bind (hinsert fun _ h => by cases h) ?_
    rintro (_ | row)
    · exact .throw _
    · exact .bind (hplayer hfirst) fun _ => .bind (hplayer hsecond) fun _ => .bind hurl fun _ =>
        .bind (UsesRows.ask _) fun _ => .bind (hinsert fun _ h => by cases h) fun _ => .pure _
  have hreserve : ∀ {id : UUID}, id ∈ [first.ticketId, second.ticketId] →
      UsesRows (onlyTickets [first.ticketId, second.ticketId])
        (reserveTicket id workerId reservationSeconds) := fun hid =>
    .bind (hupdate hid) fun _ => .pure _
  have hrelease : ∀ {id : UUID}, id ∈ [first.ticketId, second.ticketId] →
      UsesRows (onlyTickets [first.ticketId, second.ticketId]) (releaseTicket id workerId) :=
    fun hid => .bind (hupdate hid) fun _ => .pure _
  -- the steps of the function in order
  refine .bind (hreserve hfirst) fun _ => .ite (fun _ => .pure _) fun _ =>
    .bind (hreserve hsecond) fun _ => .ite (fun _ => .bind (hrelease hfirst) fun _ => .pure _)
      fun _ => .bind (UsesRows.attempt (Uses.transaction UsesRows.blocks hmatch)) ?_
  rintro (e | _)
  · exact .ite (fun _ => .bind (hrelease hfirst) fun _ => .bind (hrelease hsecond) fun _ => .throw _)
      fun _ => .throw _
  · exact .pure _

/-! ## The loop -/

/-- What is read only stays the same. -/
abbrev still : RowRel Row := fun _ _ v v' => v' = v

/-- Transactions that touch no match are allowed at every point of an iteration. -/
theorem Covers.still {C : ServiceWorld → Prop}
    (hC : (ruleSpec rt skillRule).Lasting i (.runLoop settings workerId offset) C) :
    Covers rt settings workerId offset i Matchmaking.still C :=
  of_matches (fun _ _ _ => rfl) (fun _ _ _ _ _ h h' => Eq.trans h' h) hC fun _ _ _ _ h => h

/-- Programs that write no rows follow everything. -/
theorem usesRows_composite {Φ : RowRel Row} :
    Composite (fun _ => False) True (fun _ => True) fun {α : Type} (x : Db α) => UsesRows Φ x where
  perform {β o} ho := by
    refine .perform ?_
    cases o with
    | row k skip f => exact ho.elim
    | _ => trivial
  pure := .pure
  throw := .throw
  bind := .bind
  tryCatch := .tryCatch

/-- What a session knows about the pairs that it has found. -/
def PairsFound (settings : Settings) (i : ℕ) (pairs : List (WaitingTicket × WaitingTicket))
    (w : ServiceWorld) : Prop :=
  ∀ p ∈ pairs, PairFound settings i p w

/-- That all pairs of a list were found is not taken back by anyone. -/
theorem pairsFound_lasting (pairs : List (WaitingTicket × WaitingTicket)) :
    (ruleSpec rt skillRule).Lasting i l (PairsFound settings i pairs) :=
  ruleSpec_lasting fun _ _ hg h p hp => (h p hp).grows hg

/-- The loop over the pairs: before each the pairs still to come have been found, so the match it commits is
of a pair that was. -/
theorem processPairs_skill {loopStart : Time} (pairs : List (WaitingTicket × WaitingTicket)) :
    ∀ matchesCreated processedPairs,
      Triple (ruleSpec rt skillRule) i (.runLoop settings workerId offset)
        (fun w T => Follows still w T ∧ PairsFound settings i pairs w)
        (processPairs settings workerId loopStart pairs matchesCreated processedPairs)
        (fun _ => Follows still) anything := by
  induction pairs with
  | nil => exact fun _ _ => .pure _ fun _ _ h => h.1
  | cons p pairs ih =>
    intro matchesCreated processedPairs
    obtain ⟨first, second⟩ := p
    have hlasting := @pairsFound_lasting rt i (.runLoop settings workerId offset) settings pairs
    have hrest := fun n m => (ih n m).pre
      fun w T (h : Idle w T ∧ PairsFound settings i pairs w) => ⟨Follows.idle h.1, h.2⟩
    -- a failed attempt is rolled back
    have hany : Stable (ruleSpec rt skillRule) i (.runLoop settings workerId offset)
        fun _ _ => True := .own fun _ => True
    have hmark : ∀ m, Triple (ruleSpec rt skillRule) i (.runLoop settings workerId offset)
        (fun w T => True ∧ PairsFound settings i pairs w) (record m)
        (fun _ w T => True ∧ PairsFound settings i pairs w) anything := fun m =>
      keep hlasting (Triple.record skillRule_logs hany fun _ _ _ _ _ _ => trivial)
    have hfail : ∀ n m, Triple (ruleSpec rt skillRule) i (.runLoop settings workerId offset)
        (fun w T => True ∧ PairsFound settings i pairs w) (do
          record .recordMatchFailure
          record .recordRollback
          perform .rollback
          processPairs settings workerId loopStart pairs n m) (fun _ => Follows still)
        anything := fun n m =>
      .bind (hmark _) fun _ => .bind (hmark _) fun _ =>
      .bind (keep hlasting (rollback hany (fun _ _ _ _ => rfl) fun _ _ _ _ _ => trivial)) fun _ =>
      hrest n m
    refine .ite (fun _ => .pure _ fun _ _ h => h.1) fun _ => ?_
    refine .bind ((Covers.still (pairsFound_lasting _)).uses (UsesRows.ask _)).any fun now =>
      .ite (fun _ => .pure _ fun _ _ h => h.1) fun _ => ?_
    have hpair := Covers.pair (p := (first, second)) hlasting
    have hattempt := ((hpair.uses (usesRows_createMatchFromPair first second workerId
      (reservationSeconds settings))).pre
      fun w T (h : Follows still w T ∧ PairsFound settings i ((first, second) :: pairs) w) =>
        ⟨Follows.of_same (onlyTickets_refl _) h.1, h.2 _ List.mem_cons_self,
          fun p hp => h.2 p (List.mem_cons_of_mem _ hp)⟩)
    refine .bind (Triple.attempt hattempt) ?_
    rintro (e | _ | _)
    · exact .ite (fun _ => (hfail _ _).pre fun _ _ h => ⟨trivial, h.2.2⟩)
        fun _ => .throw _ fun _ _ _ => trivial
    · exact (hfail _ _).pre fun _ _ h => ⟨trivial, h.2.2⟩
    · exact .bind (hpair.uses (UsesRows.record _)).any fun _ => .bind hpair.commit fun _ =>
        (hrest _ _).pre fun _ _ h => ⟨h.1, h.2.2⟩

/-- Everything before the loop touches no match, and the search before it finds the pairs. -/
theorem matchTickets_skill {loopStart : Time} :
    Triple (ruleSpec rt skillRule) i (.runLoop settings workerId offset) Idle
      (matchTickets settings workerId loopStart) (fun _ => Follows still) anything := by
  have hcleanup : Covers rt settings workerId offset i (workerRows workerId settings.workerLeaseSeconds)
      fun _ => True :=
    .of_matches (Actor.rows_refl (.runLoop settings workerId offset)) (workerRows_trans _ _) .trivial
      fun _ _ _ _ h => h
  have hread : ∀ {α : Type} {x : Db α} {P : Condition} {Q : α → Condition},
      Triple (commitSpec rt) i (.runLoop settings workerId offset) P x Q anything → UsesRows still x →
      Triple (ruleSpec rt skillRule) i (.runLoop settings workerId offset)
        (fun w T => P w T ∧ Follows still w T ∧ True) x
        (fun a w T => Q a w T ∧ Follows still w T ∧ True) anything :=
    fun h hx => any (ruled h ((Covers.still .trivial).uses hx))
  refine .bind ((hcleanup.uses (.cleanupExpiredReservations ..)).any.pre
    fun _ _ h => ⟨Follows.idle h, trivial⟩) fun expired =>
    .bind (hcleanup.uses (.record _)).any fun _ => .bind hcleanup.commit fun _ => ?_
  refine .bind ((hread listOwnedPartitions_triple (usesRows_composite.listOwnedPartitions workerId)).pre
    fun _ _ h => ⟨Idle.clean h.1, Follows.idle h.1, trivial⟩) fun owned =>
    .bind (hread (Triple.record commitSpec_logs Clean.stable Clean.unlogged) (.record _)) fun _ =>
    .bind (hread fetchWaitingTickets_triple (usesRows_composite.fetchWaitingTickets _ _ _ _))
    fun tickets => .bind (Q := fun pairs w T => Follows still w T ∧ PairsFound settings i pairs w) ?_
    fun pairs => .bind (processPairs_skill pairs 0 0) fun counts => ?_
  · have hfind := ruled (@findPairs_known rt i (.runLoop settings workerId offset) settings tickets)
      (((Covers.still .trivial).uses (usesRows_composite.findPairs tickets settings)).and
        findPairs_found)
    refine hfind.conseq (fun w T h => ⟨h.1, h.2, trivial⟩) ?_ fun _ _ _ _ => trivial
    rintro pairs w T ⟨⟨-, -, hknown⟩, ⟨hstill, -⟩, hfound⟩
    exact ⟨hstill, fun p hp => ⟨(hknown p hp).1, (hknown p hp).2, hfound p hp⟩⟩
  · exact ((Covers.still .trivial).uses (.record _)).conseq (fun _ _ h => ⟨h, trivial⟩)
      (fun _ _ _ h => h.1) fun _ _ _ _ => trivial

/-- Every match of an iteration has been found before. -/
theorem runLoop_skill :
    Triple (ruleSpec rt skillRule) i (.runLoop settings workerId offset) Idle
      (runLoop settings workerId offset) (fun _ => Idle) anything := by
  have hlease : Covers rt settings workerId offset i (workerRows workerId settings.workerLeaseSeconds)
      fun _ => True :=
    .of_matches (Actor.rows_refl (.runLoop settings workerId offset)) (workerRows_trans _ _) .trivial
      fun _ _ _ _ h => h
  have htransaction : Triple (ruleSpec rt skillRule) i (.runLoop settings workerId offset) Idle
      (leaseTransaction settings workerId offset) (fun _ => Idle) anything :=
    .bind ((hlease.uses (.leaseOperations settings offset)).any.pre
      fun _ _ h => ⟨Follows.idle h, trivial⟩) fun counts =>
      .bind hlease.commit fun _ => .pure _ fun _ _ h => h.1
  have hidle : ∀ m, Triple (ruleSpec rt skillRule) i (.runLoop settings workerId offset) Idle
      (record m) (fun _ => Idle) anything := fun m =>
    Triple.record skillRule_logs Idle.stable Idle.unlogged
  have hstill : Covers rt settings workerId offset i still fun _ => True := .still .trivial
  have hcommit : Triple (ruleSpec rt skillRule) i (.runLoop settings workerId offset) (Follows still)
      (perform .commit) (fun _ => Idle) fun _ => Idle :=
    .stage_commit (Follows.stable _) (fun _ _ _ h => ⟨h.view hstill.refl, trivial⟩) hstill.commits
  refine .bind (Triple.ask_ok skillRule_logs Idle.stable Idle.unlogged) fun loopStart =>
    pre (Triple.any (Triple.withConnection skillRule_logs .trivial (.bind ((Triple.attempt
      htransaction).pre fun _ _ h => h.1) ?_) fun _ => hcommit)) fun _ _ h => ⟨h, trivial⟩
  rintro (e | ⟨renewed, newlyClaimed, released⟩)
  · refine .ite (fun _ => .bind ?_ fun _ => .bind (Triple.record skillRule_logs Idle.stable
      Idle.unlogged) fun _ => .throw e fun _ _ _ => trivial) fun _ => .throw e fun _ _ _ => trivial
    exact rollback (.own fun _ => True) (fun _ _ _ _ => rfl) fun _ _ _ _ _ => trivial
  · exact .bind (hidle _) fun _ => .bind (hidle _) fun _ => .bind (hidle _) fun _ => matchTickets_skill

/-- In every run, the matches of workers have been found before. -/
theorem skill_due {clock : Time} {s : ServiceState}
    (hs : (service rt).Reachable (emptyState clock) s) (j : ℕ) :
    Justified SkillDue (marks skillMark j s.world.log) := by
  have hanswer : ∀ {i l} {r : Except Exn Answer} {log}, skillRule.Answers i l r log :=
    LogRule.answers_of_none fun _ _ => rfl
  have hother : ∀ {i l}, (∀ settings workerId offset, l ≠ .runLoop settings workerId offset) →
      Triple (ruleSpec rt skillRule) i l (fun w T => Idle w T ∧ skillRule.Marked i [] w T)
        (program rt l) (fun a w _ => skillRule.Answers i l (.ok a) w.log)
        fun e w _ => skillRule.Answers i l (.error e) w.log := fun hl =>
    (of_commits skillRule_logs (skillRule_commits fun _ _ _ _ _ _ h => absurd h (hl _ _ _))).conseq
      (fun _ _ h => h) (fun _ _ _ _ => hanswer) fun _ _ _ _ => hanswer
  show skillRule.fine (marks skillRule.mark j s.world.log)
  refine service_fine (fun i l => ?_) hs j
  cases l with
  | runLoop settings workerId offset =>
    have hloop : Triple (ruleSpec rt skillRule) i (.runLoop settings workerId offset)
        (fun w T => Idle w T ∧ skillRule.Marked i [] w T)
        (program rt (.runLoop settings workerId offset)) anything anything :=
      .bind (runLoop_skill.pre fun _ _ h => h.1) fun _ => .pure _ fun _ _ _ => trivial
    exact hloop.conseq (fun _ _ h => h) (fun _ _ _ _ => hanswer) fun _ _ _ _ => hanswer
  | _ => exact hother fun _ _ _ h => by cases h

/-! ## Main result -/

/-- The entry commits the match `m`. -/
def CommitsMatch (m : UUID) (entry : LogEntry) : Prop :=
  ∃ t b, entry.event.commit? = some (t, b) ∧ b.lookup (.matches m) = none ∧
    ((patch t.writes b).lookup (.matches m)).isSome = true

/-- The clock of session `i`, which does not go back, may show `τ` after the readings in the log. -/
def ClockMayShow (i : ℕ) (log : List LogEntry) (τ : Time) : Prop :=
  ∀ e ∈ log, e.session = i → ∀ t, readsClock t e → t ≤ τ

/-- The match `m` has two players, and the skills of their tickets are as close as players are to be
who have waited until `τ`. -/
def SkillRespected (settings : Settings) (τ : Time) (m : UUID) (s : Tables) : Prop :=
  ∃ id id' a a', id ≠ id' ∧ (∀ x, (s.lookup (.matchPlayers m x)).isSome = true ↔ x = id ∨ x = id') ∧
    s.lookup (.tickets id) = some a ∧ s.lookup (.tickets id') = some a' ∧
    (a.skill - a'.skill).natAbs ≤ max (skillDelta (max 0 (τ - a.createdAt)) settings)
      (skillDelta (max 0 (τ - a'.createdAt)) settings)

/-- A match that is there has been committed. -/
theorem Past.commitsMatch {w : ServiceWorld} (h : Past rt w) {m : UUID}
    (hm : (w.committed.lookup (.matches m)).isSome = true) : ∃ entry ∈ w.log, CommitsMatch m entry := by
  by_contra hnone
  have hnever : w.committed.lookup (.matches m) = none := by
    refine h.history.chained.invariant (I := fun s => s.lookup (.matches m) = none) rfl ?_
    intro e he t b hc hb
    cases hrow : (patch t.writes b).lookup (.matches m) with
    | none => rfl
    | some row => exact absurd ⟨e, he, t, b, hc, hb, by rw [hrow]; rfl⟩ hnone
  rw [hnever] at hm
  cases hm

/-- Who commits a match makes it. -/
theorem Legal.makes_of_commits {t : Txn Row} {b : Tables} (h : Legal rt l t b) {m : UUID}
    (hold : b.lookup (.matches m) = none)
    (hnew : ((patch t.writes b).lookup (.matches m)).isSome = true) :
    ∃ n, Makes l t b n ∧ n.matchId = m := by
  obtain hun | ⟨n, hn⟩ := h.unpaired_or_makes
  · obtain ⟨row, hrow⟩ := Option.isSome_iff_exists.mp hnew
    obtain ⟨row', hrow', -⟩ := exists_of_map_eq (hun.matchRows m) hrow
    cases hold.symm.trans hrow'
  · refine ⟨n, hn, ?_⟩
    by_contra hne
    rw [NewMatch.frame_match hn.changed (Ne.symm hne), hold] at hnew
    cases hnew

/-- The two players of a match that is committed stay its two players. -/
theorem Past.players_iff {w : ServiceWorld} (h : Past rt w) {t : Txn Row} {b : Tables} {n : NewMatch}
    (hn : Makes l t b n) (hb : Paired b) (hlater : Persist (patch t.writes b) w.committed) (id : UUID) :
    (w.committed.lookup (.matchPlayers n.matchId id)).isSome = true
      ↔ id = n.firstId ∨ id = n.secondId := by
  have hpaired : Paired w.committed := h.invariant .empty fun _ _ _ => Legal.paired
  have hstays : ∀ x, x = n.firstId ∨ x = n.secondId →
      (w.committed.lookup (.matchPlayers n.matchId x)).isSome = true := by
    intro x hx
    have hthen := (NewMatch.players_iff hn.changed hn.compatible hb x).mpr hx
    obtain ⟨p, hp⟩ := Option.isSome_iff_exists.mp hthen
    obtain ⟨p', hp', -⟩ := hlater (.matchPlayers n.matchId x) trivial p hp
    exact Option.isSome_iff_exists.mpr ⟨p', hp'⟩
  have hrow := (hn.changed.lookup (.matches n.matchId) (fun h => h) (n.dlookup_match t.start)).2
  obtain ⟨row, hrow', -⟩ := hlater (.matches n.matchId) trivial _ hrow
  obtain ⟨x, y, -, hplayers⟩ := hpaired.players n.matchId row hrow'
  have hfirst := (hplayers n.firstId).mp (hstays n.firstId (.inl rfl))
  have hsecond := (hplayers n.secondId).mp (hstays n.secondId (.inr rfl))
  have hapart := hn.compatible.apart
  refine ⟨fun hid => ?_, hstays id⟩
  -- two of two players are all
  rcases hfirst with hfirst | hfirst <;> rcases hsecond with hsecond | hsecond <;>
    rcases (hplayers id).mp hid with hid | hid
  all_goals first
    | exact absurd (hfirst.trans hsecond.symm) hapart
    | exact .inl (hid.trans hfirst.symm)
    | exact .inr (hid.trans hsecond.symm)

/-- The tickets of a committed match are as compatible as its session has found them, and stay so. -/
theorem Past.skillRespected {w : ServiceWorld} (h : Past rt w) {m : UUID} {entry : LogEntry}
    {newer older : List LogEntry} (hlog : w.log = newer ++ entry :: older) {t : Txn Row} {b : Tables}
    (hc : entry.event.commit? = some (t, b)) {n : NewMatch} (hn : Makes entry.actor t b n)
    (hm : n.matchId = m) (hwide : settings.Widening)
    (hfound : FoundCompatible settings entry.session older (.ofRow (n.firstId, n.first))
      (.ofRow (n.secondId, n.second))) {τ : Time} (hτ : ClockMayShow entry.session older τ) :
    SkillRespected settings τ m w.committed := by
  subst hm
  have hentry : entry ∈ w.log := hlog ▸ List.mem_append_right _ List.mem_cons_self
  have hlater := h.later hentry hc
  have hb : Paired b := h.before .empty (fun _ _ _ => Legal.paired) hentry hc
  -- the two tickets of the match, then and now
  have hfirst := (hn.changed.lookup (.tickets n.firstId) (fun h => h)
    (n.dlookup_first t.start hn.compatible.apart)).2
  have hsecond := (hn.changed.lookup (.tickets n.secondId) (fun h => h)
    (n.dlookup_second t.start)).2
  obtain ⟨a, ha, hida⟩ := hlater (.tickets n.firstId) trivial _ hfirst
  obtain ⟨a', ha', hida'⟩ := hlater (.tickets n.secondId) trivial _ hsecond
  obtain ⟨u, u', ⟨e, he, hsession, hread⟩, ⟨e', he', hsession', hread'⟩, hcompat⟩ := hfound
  have hnow := hcompat.later hwide (hτ e he hsession u hread) (hτ e' he' hsession' u' hread')
  have hsame : ∀ (id : UUID) (x y : Ticket), y.identity = x.identity →
      WaitingTicket.ofRow (id, y) = .ofRow (id, x) := fun id x y => WaitingTicket.ofRow_congr
  rw [← hsame n.firstId n.first a hida, ← hsame n.secondId n.second a' hida'] at hnow
  exact ⟨n.firstId, n.secondId, a, a', hn.compatible.apart, h.players_iff hn hb hlater, ha, ha',
    hnow.2.2.2⟩

/-- **Matches respect the skill rule.** Tickets that are compatible stay so while their players wait.
Every committed match has been committed by an iteration of a worker; whatever time the worker's clock
shows at the commit, if it has not gone back since the iteration read it, the skills of the two tickets
are within the tolerance of that time. -/
theorem matches_respect_skill {clock : Time} {s : ServiceState}
    (hs : (service rt).Reachable (emptyState clock) s) :
    (∀ settings : Settings, settings.Widening → ∀ t t' u u' left right,
      Compatible settings t t' left right → t ≤ u → t' ≤ u' → Compatible settings u u' left right) ∧
    ∀ m, (s.world.committed.lookup (.matches m)).isSome = true →
      ∃ newer entry older settings workerId offset, s.world.log = newer ++ entry :: older ∧
        entry.actor = .runLoop settings workerId offset ∧ CommitsMatch m entry ∧
        (settings.Widening → ∀ τ, ClockMayShow entry.session older τ →
          SkillRespected settings τ m s.world.committed) := by
  refine ⟨fun settings hwide t t' u u' left right hc ht ht' => hc.later hwide ht ht', fun m hm => ?_⟩
  have hpast := service_past hs
  obtain ⟨entry, hentry, t, b, hc, hold, hnew⟩ := hpast.commitsMatch hm
  obtain ⟨n, hn, hid⟩ := (hpast.legal hentry hc).makes_of_commits hold hnew
  obtain ⟨settings, workerId, offset, hl⟩ := hn.worker
  obtain ⟨newer, older, hlog⟩ := List.append_of_mem hentry
  have hfound : FoundCompatible settings entry.session older (.ofRow (n.firstId, n.first))
      (.ofRow (n.secondId, n.second)) := by
    have hmark : skillMark entry = some entry := by
      unfold skillMark
      cases hev : entry.event <;> first | rfl | (rw [hev] at hc; cases hc)
    have hdue := skill_due hs entry.session
    rw [hlog, marks_append, marks_cons_some rfl hmark] at hdue
    exact (hdue _ entry _ rfl settings workerId offset hl t b hc n hn).mono fun e he => by
      obtain ⟨e', he', -, hmark'⟩ := mem_marks.mp he
      rwa [skillMark_eq hmark'] at he'
  exact ⟨newer, entry, older, settings, workerId, offset, hlog, hl, ⟨t, b, hc, hold, hnew⟩,
    fun hwide τ hτ => hpast.skillRespected hlog hc hn hid hwide hfound hτ⟩

/-- The sample run makes a match. -/
theorem matches_respect_skill_sample :
    ∃ m newer entry older settings workerId offset, sampleState.world.log = newer ++ entry :: older ∧
      entry.actor = .runLoop settings workerId offset ∧ CommitsMatch m entry ∧
      (settings.Widening → ∀ τ, ClockMayShow entry.session older τ →
        SkillRespected settings τ m sampleState.world.committed) :=
  ⟨0x3f, (matches_respect_skill sampleState_reachable).2 0x3f (by decide +kernel)⟩

end Matchmaking
