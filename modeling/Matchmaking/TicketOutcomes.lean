import Matchmaking.Reservations

/-!
# Outcomes of tickets

A ticket that is matched or cancelled keeps its row for ever. Hence the answers to cancel requests can
be relied on: after a success the ticket is in no match, and never has been; and an existing ticket
that is not found is matched or cancelled.
-/

namespace Matchmaking

open ReadCommitted ReadCommitted.Triple

variable {rt : Runtime} {i : ℕ} {l : Actor} {now : Time} {t : Txn Row} {s s' : Tables}

/-! ## Closed tickets -/

/-- The ticket is matched or cancelled. -/
def Ticket.IsClosed (tk : Ticket) : Prop := tk.status = .matched ∨ tk.status = .cancelled

/-- A ticket is closed exactly if it is neither waiting nor reserved. -/
theorem Ticket.isClosed_iff {tk : Ticket} : tk.IsClosed ↔ tk.status ≠ .waiting ∧ tk.status ≠ .reserved := by
  unfold Ticket.IsClosed
  cases tk.status <;> simp

/-- Closed tickets stay as they are. -/
theorem TicketStep.closed {v' : Option Ticket} {tk : Ticket} (h : TicketStep rt l now (some tk) v')
    (htk : tk.IsClosed) : v' = some tk := by
  cases h with
  | same => rfl
  | unreserved hres => exact absurd hres (Ticket.isClosed_iff.mp htk).2
  | cancelled hcan =>
    rcases htk with hst | hst <;> simp [Ticket.isCancellable, TicketStatus.isActive, hst] at hcan

/-- What a commit keeps of the tickets: all rows, and closed ones as they are. -/
structure Closes (s s' : Tables) : Prop where
  persist : Persist s s'
  closed : ∀ id tk, s.lookup (.tickets id) = some tk → tk.IsClosed → s'.lookup (.tickets id) = some tk

theorem Closes.refl (s : Tables) : Closes s s := ⟨.refl s, fun _ _ h _ => h⟩

/-- A closed ticket stays closed over two steps. -/
theorem Closes.trans {s'' : Tables} (h : Closes s s') (h' : Closes s' s'') : Closes s s'' where
  persist := h.persist.trans h'.persist
  closed id tk htk hclosed := h'.closed id tk (h.closed id tk htk hclosed) hclosed

/-- No commit of the service reopens a ticket: each changes it by one of the steps, and none leads back. -/
theorem Legal.closes (h : Legal rt l t s) : Closes s (patch t.writes s) where
  persist := h.persist
  closed id tk htk hclosed := by
    obtain hun | ⟨n, hmakes⟩ := h.unpaired_or_makes
    · exact (htk ▸ hun.tickets id).closed hclosed
    -- the tickets of a new match were waiting
    have hapart : id ≠ n.firstId ∧ id ≠ n.secondId := by
      rw [Ticket.isClosed_iff] at hclosed
      constructor <;> rintro rfl
      · have hfirst := (hmakes.changed.lookup (.tickets n.firstId) (fun h => h)
          (n.dlookup_first t.start hmakes.compatible.apart)).1
        obtain rfl := Option.some.inj (htk.symm.trans hfirst)
        exact hclosed.1 hmakes.compatible.firstWaiting
      · have hsecond := (hmakes.changed.lookup (.tickets n.secondId) (fun h => h)
          (n.dlookup_second t.start)).1
        obtain rfl := Option.some.inj (htk.symm.trans hsecond)
        exact hclosed.1 hmakes.compatible.secondWaiting
    exact (NewMatch.frame_ticket hmakes.changed hapart).trans htk

/-! ## Cancelled tickets have no match -/

/-- Only matched tickets have a match. -/
def MatchIdsSound (s : Tables) : Prop :=
  ∀ id tk, s.lookup (.tickets id) = some tk → tk.status ≠ .matched → tk.matchId = none

/-- A ticket that is not matched after a step has no match id, if it had none before. -/
theorem TicketStep.matchId {v : Option Ticket} {tk' : Ticket} (h : TicketStep rt l now v (some tk'))
    (hv : ∀ tk, v = some tk → tk.status ≠ .matched → tk.matchId = none)
    (hst : tk'.status ≠ .matched) : tk'.matchId = none := by
  cases h with
  | same => exact hv tk' rfl hst
  | @unreserved a hres => exact hv a rfl fun h => by cases hres.symm.trans h
  | @cancelled a tenantId hcan =>
    exact hv a rfl fun h => by simp [Ticket.isCancellable, TicketStatus.isActive, h] at hcan
  | created => rfl

/-- So every commit keeps match ids to matched tickets. -/
theorem Legal.matchIdsSound (h : Legal rt l t s) (hs : MatchIdsSound s) :
    MatchIdsSound (patch t.writes s) := by
  intro id tk' htk' hst
  obtain hun | ⟨n, hmakes⟩ := h.unpaired_or_makes
  · exact (htk' ▸ hun.tickets id).matchId (hs id) hst
  by_cases h₁ : id = n.firstId
  · subst h₁
    obtain rfl := Option.some.inj ((hmakes.changed.lookup (.tickets n.firstId) (fun h => h)
      (n.dlookup_first t.start hmakes.compatible.apart)).2.symm.trans htk')
    exact absurd rfl hst
  by_cases h₂ : id = n.secondId
  · subst h₂
    obtain rfl := Option.some.inj ((hmakes.changed.lookup (.tickets n.secondId) (fun h => h)
      (n.dlookup_second t.start)).2.symm.trans htk')
    exact absurd rfl hst
  exact hs id tk' ((NewMatch.frame_ticket hmakes.changed ⟨h₁, h₂⟩).symm.trans htk') hst

/-! ## Answers to cancel requests -/

/-- What the answer to a cancel request says about the ticket, where `born` is the committed store
when the request came in and `s` a later one. -/
structure CancelAnswer (rt : Runtime) (tenantId text : String) (born : Tables) (r : Response)
    (s : Tables) : Prop where
  success : r.status = 200 → ∃ id tk, rt.uuidIn text = some id ∧
    s.lookup (.tickets id) = some tk ∧ tk.status = .cancelled
  notFound : r.status = 404 → ∀ id tk, rt.uuidIn text = some id →
    born.lookup (.tickets id) = some tk → tk.tenantId = tenantId →
      ∃ tk', s.lookup (.tickets id) = some tk' ∧ tk'.IsClosed

/-- `CancelAnswer` for the actors it is about; an exception leaves no answer. -/
def CancelAnswered (rt : Runtime) : Actor → Tables → Except Exn Answer → Tables → Prop
  | .cancelTicket (some tenantId) text, born, .ok (.response r), s =>
    CancelAnswer rt tenantId text born r s
  | _, _, _, _ => True

/-- What a cancellation was told of a closed ticket stays true of later tables. -/
theorem CancelAnswer.closes {tenantId text : String} {born : Tables} {r : Response}
    (h : CancelAnswer rt tenantId text born r s) (hs : Closes s s') :
    CancelAnswer rt tenantId text born r s' where
  success hr := by
    obtain ⟨id, tk, hid, htk, hst⟩ := h.success hr
    exact ⟨id, tk, hid, hs.closed id tk htk (.inr hst), hst⟩
  notFound hr id tk hid htk htenant := by
    obtain ⟨tk', htk', hclosed⟩ := h.notFound hr id tk hid htk htenant
    exact ⟨tk', hs.closed id tk' htk' hclosed, hclosed⟩

/-- The same of whatever an actor has answered. -/
theorem CancelAnswered.closes {born : Tables} {r : Except Exn Answer}
    (h : CancelAnswered rt l born r s) (hs : Closes s s') : CancelAnswered rt l born r s' := by
  unfold CancelAnswered at h ⊢
  split at h
  · exact CancelAnswer.closes h hs
  · trivial

/-- The specification that cancel requests are answered truly. -/
def cancelSpec (rt : Runtime) : Spec Row Reply Exn Metric Answer Actor where
  inv w := ∀ e ∈ w.log, ∀ born r, answer? e.event = some (born, r) →
    CancelAnswered rt e.actor born r w.committed
  known := Past rt
  rely _ _ w w' := Closes w.committed w'.committed
  guar _ _ w w' := Closes w.committed w'.committed
  post _ l born r w := CancelAnswered rt l born r w.committed

/-- An entry that is no commit keeps the rule if an answer among them is true of the tables. -/
theorem cancelSpec_push {w : ServiceWorld} (h : (cancelSpec rt).inv w)
    {ev : Event Row Reply Exn Metric Answer}
    (hans : ∀ born r, answer? ev = some (born, r) → CancelAnswered rt l born r w.committed) :
    (cancelSpec rt).guar i l w (w.push i l ev) ∧ (cancelSpec rt).inv (w.push i l ev) := by
  refine ⟨.refl _, fun e he born r hr => ?_⟩
  rcases List.mem_cons.mp he with rfl | he
  · exact hans born r hr
  · exact h e he born r hr

/-- What each actor guarantees, the others rely on. -/
theorem cancelSpec_lawful {sys : System Row Reply Exn Metric Answer Actor}
    (hsymm : ∀ l l', sys.exclusive l l' = sys.exclusive l' l) : (cancelSpec rt).Lawful sys where
  exclusive_symm := hsymm
  rely_refl _ _ w := .refl w.committed
  rely_trans _ _ _ _ _ h h' := Closes.trans h h'
  guar_rely _ _ _ _ _ _ _ _ _ h := h
  post_stable _ _ _ _ _ _ h _ hpost := hpost.closes h
  tick w _ _ h := ⟨h, fun _ _ => .refl w.committed⟩
  begun _ _ _ h := cancelSpec_push h fun _ _ hr => by cases hr
  answer _ _ _ _ _ h hpost := cancelSpec_push h fun _ _ hr => by cases hr; exact hpost

/-- Entries other than commits and answers are free. -/
theorem cancelSpec_logs : (cancelSpec rt).Logs i l := by
  intro w ev hev h
  refine cancelSpec_push h.1 fun _ _ hr => ?_
  cases ev <;> first | exact hev.elim | cases hr

/-- All commits are legal, and so they keep what has been answered. -/
theorem cancelSpec_commits {C : ServiceWorld → Txn Row → Prop} : (cancelSpec rt).Commits i l C := by
  intro w t hfacts _ hlive hknown _
  simp only [World.commit, hlive, Bool.false_eq_true, if_false] at hknown ⊢
  have hlegal : Legal rt l t w.committed := hknown.legal List.mem_cons_self rfl
  refine ⟨hlegal.closes, fun e he born r hr => ?_⟩
  rcases List.mem_cons.mp he with rfl | he
  · cases hr
  · exact (hfacts.1 e he born r hr).closes hlegal.closes

/-- Conditions that closing steps keep are not taken back by anyone. -/
theorem cancelSpec_lasting {C : Tables → Prop} (hC : ∀ s s', Closes s s' → C s → C s') :
    (cancelSpec rt).Lasting i l fun w => C w.committed :=
  ⟨fun _ _ h _ => hC _ _ h, fun _ _ h _ => hC _ _ h⟩

/-! ## The request -/

section Request

variable {tenantId text : String} {id : UUID} {born : Tables}

/-- The ticket was there when the request came in, and is closed by now, or it was not there. -/
def Refused (tenantId : String) (id : UUID) (born s : Tables) : Prop :=
  ∀ tk, born.lookup (.tickets id) = some tk → tk.tenantId = tenantId →
    ∃ tk', s.lookup (.tickets id) = some tk' ∧ tk'.IsClosed

/-- The ticket is cancelled. -/
def IsCancelled (id : UUID) (s : Tables) : Prop :=
  ∃ tk, s.lookup (.tickets id) = some tk ∧ tk.status = .cancelled

/-- The reason for which a cancellation is refused stays true. -/
theorem refused_lasting : (cancelSpec rt).Lasting i l fun w => Refused tenantId id born w.committed :=
  cancelSpec_lasting fun _ _ hs h tk htk htenant => by
    obtain ⟨tk', htk', hclosed⟩ := h tk htk htenant
    exact ⟨tk', hs.closed id tk' htk' hclosed, hclosed⟩

theorem cancelled_lasting : (cancelSpec rt).Lasting i l fun w => IsCancelled id w.committed :=
  cancelSpec_lasting fun _ _ hs ⟨tk, htk, hst⟩ => ⟨tk, hs.closed id tk htk (.inr hst), hst⟩

/-- The tables that a request has found when it began persist. -/
theorem born_lasting : (cancelSpec rt).Lasting i l fun w => Persist born w.committed :=
  cancelSpec_lasting fun _ _ hs h => h.trans hs.persist

/-- A ticket that the condition of the update rejects is closed, or of another tenant. -/
theorem refused_of_rejected (hborn : Persist born s)
    (h : ∀ tk, s.lookup (.tickets id) = some tk → tk.isCancellable tenantId = false) :
    Refused tenantId id born s := by
  intro tk htk htenant
  obtain ⟨tk', htk', hid⟩ := hborn (.tickets id) trivial tk htk
  have hsame : tk'.tenantId = tk.tenantId := congrArg Prod.fst hid
  have hrejected := h tk' htk'
  refine ⟨tk', htk', Ticket.isClosed_iff.mpr ?_⟩
  rw [Ticket.isCancellable, hsame, htenant] at hrejected
  constructor <;> intro hst <;> simp [TicketStatus.isActive, hst] at hrejected

/-- What the update leaves: a cancelled ticket to be committed, or a ticket that is closed. -/
def CancelDone (tenantId : String) (id : UUID) (born : Tables) : Option Ticket → Condition
  | none => fun w _ => Refused tenantId id born w.committed
  | some tk' => fun w T => tk'.status = .cancelled ∧ ∃ now σs old,
      Pending now [⟨.tickets id, (old, some tk')⟩] σs w T

/-- The guarded UPDATE finds the ticket cancellable and cancels it, or finds it not to be. -/
theorem cancelUpdate_triple :
    Triple (cancelSpec rt) i l (fun w T => Pending now [] [] w T ∧ Persist born w.committed)
      (updateTicket id (fun _ tk => tk.isCancellable tenantId) Ticket.cancelled)
      (CancelDone tenantId id born) anything := by
  -- the statement's snapshot
  have hselect : Triple (cancelSpec rt) i l
      (fun w T => Pending now [] [] w T ∧ Persist born w.committed)
      (perform (.select fun _ s => (s.lookup (.tickets id)).any fun (tk : Ticket) =>
        tk.isCancellable tenantId))
      (fun found w T => (∃ σ, Pending now [] [σ] w T) ∧ Persist born w.committed ∧
        (found = false → Refused tenantId id born w.committed)) anything := by
    refine (keep born_lasting stage_select).post ?_
    rintro found w T ⟨⟨σ, rfl, -, hshows, hstage⟩, hborn⟩
    refine ⟨⟨σ, hstage⟩, hborn, fun hfound => refused_of_rejected hborn fun tk htk => ?_⟩
    have hσ : σ.lookup (.tickets id) = some tk := (hshows (.tickets id) fun h => h).trans htk
    rw [hσ] at hfound
    exact hfound
  -- the newest version of the row
  have hrow : ∀ σ, Triple (cancelSpec rt) i l
      (fun w T => Pending now [] [σ] w T ∧ Persist born w.committed)
      (updateRow (.tickets id) (fun _ tk => tk.isCancellable tenantId) Ticket.cancelled)
      (fun r w T => CancelDone tenantId id born r w T ∧ ∀ tk', r = some tk' →
        ∃ old, Pending now [⟨.tickets id, (old, some tk')⟩] [σ] w T) anything := by
    refine fun σ => stage_row (fun h => h) born_lasting (fun h => by cases h)
      fun w old cur _ hborn hold hseen => ?_
    obtain ⟨-, rfl⟩ | hp := hseen
    -- a row that cannot be cancelled now is closed, or never was one of the tenant
    · have hleave : (∀ tk, cur = some tk → tk.isCancellable tenantId = false) →
          Refused tenantId id born w.committed := fun h =>
        refused_of_rejected hborn fun tk htk => h tk (hold.symm.trans htk)
      cases cur with
      | none => exact fun T _ => ⟨hleave fun _ h => (by cases h), fun _ h => by cases h⟩
      | some tk =>
        dsimp only
        split
        · exact fun T hT => ⟨⟨rfl, now, [σ], _, hT⟩, fun _ h => by cases h; exact ⟨_, hT⟩⟩
        · next hcan =>
          refine fun T _ => ⟨hleave fun _ h => ?_, fun _ h => by cases h⟩
          cases h
          exact Bool.eq_false_iff.mpr hcan
    · cases hp
  have hlocked : ∀ σ, Triple (cancelSpec rt) i l
      (fun w T => Pending now [] [σ] w T ∧ Persist born w.committed)
      (updateTicketRow id (fun _ tk => tk.isCancellable tenantId) Ticket.cancelled)
      (CancelDone tenantId id born) anything := by
    refine fun σ => .bind (hrow σ) ?_
    rintro (_ | tk')
    · exact .pure _ fun _ _ h => h.1
    · have hindex : Triple (cancelSpec rt) i l
          (fun w T => tk'.status = .cancelled ∧ ∃ old,
            Pending now [⟨.tickets id, (old, some tk')⟩] [σ] w T) (indexTicket id tk')
          (fun _ => CancelDone tenantId id born (some tk')) anything :=
        .pure_pre fun hst => .exists_pre fun old =>
          Triple.indexTicket.post fun _ _ _ h => ⟨hst, now, [σ], old, h⟩
      exact .bind (hindex.pre fun w T h => ⟨h.1.1, h.2 tk' rfl⟩) fun _ => .pure _ fun _ _ h => h
  refine .bind hselect fun found => .ite (fun _ => ?_) fun hfound => .pure _ fun w T h => ?_
  · refine (Triple.exists_pre hlocked).pre ?_
    rintro w T ⟨⟨σ, hσ⟩, hborn, -⟩
    exact ⟨σ, hσ, hborn⟩
  · exact h.2.2 (Bool.eq_false_iff.mpr hfound)

/-- What is known after the commit of the update. -/
def CancelKnown (tenantId : String) (id : UUID) (born : Tables) : Option Ticket → ServiceWorld → Prop
  | none => fun w => Refused tenantId id born w.committed
  | some _ => fun w => IsCancelled id w.committed

/-- The COMMIT of the UPDATE is one of the steps of a ticket, and makes its result lasting. -/
theorem commit_cancel (r : Option Ticket) :
    Triple (cancelSpec rt) i l (CancelDone tenantId id born r) (perform .commit)
      (fun _ w T => Idle w T ∧ CancelKnown tenantId id born r w) fun _ => Idle := by
  have hcommit : ∀ {P : Condition}, Stable (cancelSpec rt) i l P → Triple (cancelSpec rt) i l P
      (perform .commit) (fun _ => Idle) fun _ => Idle := fun hP =>
    @stage_commit _ _ _ _ _ _ _ _ _ (cancelSpec rt) i l _ (fun _ _ => True) hP
      (fun _ _ _ _ => trivial) cancelSpec_commits
  cases r with
  | none =>
    exact (frame refused_lasting (hcommit fun _ _ _ _ (h : True) => h)).conseq (fun _ _ h => ⟨trivial, h⟩)
      (fun _ _ _ h => h) fun _ _ _ h => h.1
  | some tk' =>
    refine @stage_commit_then _ _ _ _ _ _ _ _ _ (cancelSpec rt) i l _ (fun _ _ => True) _ ?_
      (fun _ _ _ _ => trivial) cancelSpec_commits ?_
    · exact Stable.and (.own fun _ => _) (.exists fun _ => .exists fun _ => .exists fun _ =>
        Stage.stable)
    · rintro w T - ⟨hst, now, σs, old, hstage⟩
      exact ⟨tk', Stage.committed hstage i l (.tickets id) (fun h => h) (List.dlookup_cons_eq ..), hst⟩

/-- The endpoint answers truly. -/
theorem cancelTicket_triple :
    Triple (cancelSpec rt) i l (fun w T => Idle w T ∧ Persist born w.committed)
      (cancelTicket rt text tenantId)
      (fun r w _ => CancelAnswer rt tenantId text born r w.committed) anything := by
  have hcheck : Triple (cancelSpec rt) i l (fun w T => Idle w T ∧ Persist born w.committed)
      (checkUuid rt text) (fun id w T => rt.uuidIn text = some id ∧ Idle w T ∧ Persist born w.committed)
      anything := by
    unfold checkUuid
    split
    · next id hid => exact .pure _ fun _ _ h => ⟨hid, h⟩
    · exact .throw _ fun _ _ _ => trivial
  refine .bind hcheck fun id => .pure_pre fun hid => ?_
  have hupdate := @Triple.autocommit (cancelSpec rt) i l _ _ _ _ _ cancelSpec_logs born_lasting
    (fun now => @cancelUpdate_triple rt i l now tenantId id born) commit_cancel
  refine .bind hupdate ?_
  rintro (_ | tk)
  · refine .pure _ fun w T h => ⟨fun hr => (by cases hr), fun _ id' tk' hid' htk' htenant => ?_⟩
    obtain rfl := Option.some.inj (hid.symm.trans hid')
    exact h.2 tk' htk' htenant
  · refine .bind (keep cancelled_lasting (Triple.record cancelSpec_logs Idle.stable Idle.unlogged)) fun _ =>
      .bind (keep cancelled_lasting (Triple.record cancelSpec_logs Idle.stable Idle.unlogged)) fun _ =>
      .pure _ fun w T h => ⟨fun _ => ?_, fun hr => by cases hr⟩
    obtain ⟨tk, htk, hst⟩ := h.2
    exact ⟨id, tk, hid, htk, hst⟩

end Request

/-- Every actor answers cancel requests truly. -/
theorem program_cancelAnswered {born : Tables} (l : Actor) :
    Triple (cancelSpec rt) i l (fun w T => Idle w T ∧ Persist born w.committed) (program rt l)
      (fun a w _ => CancelAnswered rt l born (.ok a) w.committed) anything := by
  have hother : (∀ a s, CancelAnswered rt l born (.ok a) s) → Triple (cancelSpec rt) i l
      (fun w T => Idle w T ∧ Persist born w.committed) (program rt l)
      (fun a w _ => CancelAnswered rt l born (.ok a) w.committed) anything := fun h =>
    (of_commits cancelSpec_logs cancelSpec_commits).post fun a w _ _ => h a w.committed
  cases l with
  | cancelTicket xTenantId text =>
    cases xTenantId with
    | none => exact hother fun _ _ => trivial
    | some tenantId =>
      have hreads : (cancelSpec rt).Commits i (.cancelTicket (some tenantId) text) fun w t =>
          ∃ now σs, t.Has IsIndexKey now [] σs w.committed := cancelSpec_commits
      have htenant : Triple (cancelSpec rt) i (.cancelTicket (some tenantId) text)
          (fun w T => Idle w T ∧ Persist born w.committed) (getTenant tenantId)
          (fun _ w T => Idle w T ∧ Persist born w.committed) anything :=
        Triple.autoselect cancelSpec_logs hreads born_lasting (fun _ => born_lasting)
          fun _ _ _ h _ => h
      refine .bind (.bind htenant ?_) fun r => .pure _ fun w T h => h
      rintro (_ | tenant)
      · exact .pure _ fun w T h => ⟨fun hr => (by cases hr), fun hr => by cases hr⟩
      · exact cancelTicket_triple
  | _ => exact hother fun _ _ => trivial

/-- All answers to cancel requests are true. -/
theorem cancel_answered {clock : Time} {s : ServiceState}
    (hs : (service rt).Reachable (emptyState clock) s) : (cancelSpec rt).inv s.world := by
  refine (Spec.sound (cancelSpec_lawful fun _ _ => rfl) (fun i l w _ _ => ?_)
    (fun _ he => (List.not_mem_nil he).elim) rfl rfl (fun _ h => service_past h) hs).inv
  have hprog := (@program_cancelAnswered rt i w.committed l).sound w none ⟨rfl, .refl _⟩
  refine wp_mono ?_ _ w none hprog
  rintro (e | a) w' T' h
  · show CancelAnswered rt l w.committed (.error e) w'.committed
    unfold CancelAnswered
    split <;> trivial
  · exact h

/-! ## Outcomes are terminal -/

/-- In a history, tickets that are matched stay so, with their match, and tickets that are cancelled
stay so, without a match. -/
def TicketsTerminal (log : List LogEntry) : Prop :=
  ∀ newer between older m m', log = newer ++ (between ++ older) → Chained ∅ older m →
    Chained m between m' → ∀ id tk, m.lookup (.tickets id) = some tk →
      (tk.status = .matched → ∃ tk', m'.lookup (.tickets id) = some tk' ∧ tk'.status = .matched ∧
        tk'.matchId = tk.matchId) ∧
      (tk.status = .cancelled → ∃ tk', m'.lookup (.tickets id) = some tk' ∧
        tk'.status = .cancelled ∧ tk'.matchId = none)

/-- Between two stores of the history, rows stay and closed tickets stay as they are. -/
theorem Past.closes {w : ServiceWorld} (h : Past rt w) {log : List LogEntry} (hlog : log ⊆ w.log)
    (hm : Chained s log s') : Closes s s' :=
  hm.invariant (.refl s) fun _ he _ _ hc hs => hs.trans (h.legal (hlog he) hc).closes

/-- Each older part of the log is a run of its own, from whose tables the later commits lead on. -/
theorem Past.ticketsTerminal {w : ServiceWorld} (h : Past rt w) : TicketsTerminal w.log := by
  intro newer between older m m' hlog hm hbetween id tk htk
  have hbetween' : between ⊆ w.log := fun e he => by
    rw [hlog]
    exact List.mem_append_right _ (List.mem_append_left _ he)
  have holder : older ⊆ w.log := fun e he => by
    rw [hlog]
    exact List.mem_append_right _ (List.mem_append_right _ he)
  have hcloses : Closes m m' := h.closes hbetween' hbetween
  have hsound : MatchIdsSound m :=
    hm.invariant (fun _ _ h => by cases h) fun entry he t b hc hb =>
      (h.legal (holder he) hc).matchIdsSound hb
  refine ⟨fun hst => ⟨tk, hcloses.closed id tk htk (.inl hst), hst, rfl⟩, fun hst => ?_⟩
  exact ⟨tk, hcloses.closed id tk htk (.inr hst), hst, hsound id tk htk fun h => by cases hst.symm.trans h⟩

/-- The entry is the answer `r` to the request of the tenant to cancel the ticket named by `text`;
`born` is the committed store when the request came in. -/
def AnswersCancel (tenantId text : String) (born : Tables) (r : Response) (entry : LogEntry) : Prop :=
  entry.actor = .cancelTicket (some tenantId) text ∧
    answer? entry.event = some (born, .ok (.response r))

/-- **Outcomes of tickets.** In every reachable state the tickets of the history are terminal; a ticket
that a request has cancelled with success is in no match at any time; and an existing ticket of the
tenant that a request has not found is matched or cancelled, in the state right after the answer as in
all later ones. -/
theorem tickets_terminal {clock : Time} {s : ServiceState}
    (hs : (service rt).Reachable (emptyState clock) s) :
    TicketsTerminal s.world.log ∧
    (∀ entry ∈ s.world.log, ∀ tenantId text born r, AnswersCancel tenantId text born r entry →
      r.status = 200 → ∃ id, rt.uuidIn text = some id ∧ IsCancelled id s.world.committed ∧
        ∀ newer older m, s.world.log = newer ++ older → Chained ∅ older m →
          ∀ matchId, m.lookup (.matchPlayers matchId id) = none) ∧
    (∀ entry ∈ s.world.log, ∀ tenantId text born r, AnswersCancel tenantId text born r entry →
      r.status = 404 → ∀ id tk, rt.uuidIn text = some id → born.lookup (.tickets id) = some tk →
        tk.tenantId = tenantId →
          ∃ tk', s.world.committed.lookup (.tickets id) = some tk' ∧ tk'.IsClosed) := by
  have hpast := service_past hs
  have hanswers : ∀ entry ∈ s.world.log, ∀ tenantId text born r,
      AnswersCancel tenantId text born r entry →
        CancelAnswer rt tenantId text born r s.world.committed := by
    rintro entry hentry tenantId text born r ⟨hactor, hanswer⟩
    have htrue := cancel_answered hs entry hentry born _ hanswer
    rw [hactor] at htrue
    exact htrue
  refine ⟨hpast.ticketsTerminal, fun entry hentry tenantId text born r hanswer hr => ?_,
    fun entry hentry tenantId text born r hanswer hr =>
      (hanswers entry hentry tenantId text born r hanswer).notFound hr⟩
  obtain ⟨id, tk, hid, htk, hst⟩ := (hanswers entry hentry tenantId text born r hanswer).success hr
  refine ⟨id, hid, ⟨tk, htk, hst⟩, fun newer older m hlog hm matchId => ?_⟩
  cases hplayer : m.lookup (.matchPlayers matchId id) with
  | none => rfl
  | some player =>
    -- a player of the past is a player of the present, whose ticket is matched
    obtain ⟨m', hm', hnew⟩ := (hlog ▸ hpast.history.chained).split
    obtain rfl := hm.unique hm'
    have hnewer : newer ⊆ s.world.log := fun e he => by
      rw [hlog]
      exact List.mem_append_left _ he
    obtain ⟨player', hplayer', -⟩ :=
      (hpast.closes hnewer hnew).persist (.matchPlayers matchId id) trivial player hplayer
    obtain ⟨tk', -, htk', -, hmatched, -⟩ :=
      hpast.outbox.paired.player matchId id (by rw [hplayer']; rfl)
    obtain rfl := Option.some.inj (htk.symm.trans htk')
    cases hst.symm.trans hmatched

/-! ## A cancelled ticket -/

/-- Library functions for a run in which every text names the same ticket. -/
def cancelRuntime : Runtime := { sampleRuntime with uuidIn := fun _ => some 0x16 }

/-- A ticket is created and cancelled, and the request is repeated. -/
def cancelScript : List (System.Move Reply Exn Actor) :=
  runs 0 (.migrate sampleSettings) ++ runs 1 (sampleRequest none "p1") ++
    runs 2 (.cancelTicket (some "studio_a") "t") ++ runs 3 (.cancelTicket (some "studio_a") "t")

/-- The state after this run. -/
def cancelState : ServiceState := (service cancelRuntime).after cancelScript (emptyState 0)

/-- The run is made of steps of the service. -/
theorem cancelState_reachable : (service cancelRuntime).Reachable (emptyState 0) cancelState :=
  System.reachable_after cancelScript _

/-- The status of an answer to a cancel request. -/
def cancelStatus? (entry : LogEntry) : Option ℕ :=
  match entry.actor, answer? entry.event with
  | .cancelTicket .., some (_, .ok (.response r)) => some r.status
  | _, _ => none

/-- The first request succeeds, the second does not find the ticket. -/
theorem tickets_terminal_sample :
    cancelState.world.log.filterMap cancelStatus? = [404, 200] ∧ TicketsTerminal cancelState.world.log :=
  ⟨by decide +kernel, (tickets_terminal cancelState_reachable).1⟩

end Matchmaking
