import Matchmaking.LogRules

/-!
# Rules about single entries of the log

A commit or an answer owes an account that names moments of its session: points of the log, with what was
committed there. The sessions of the service keep such a rule while durable rows stay, others log entries of
their own only, and everything that is known of reachable states may be used.
-/

namespace Matchmaking

open ReadCommitted ReadCommitted.Triple

variable {rt : Runtime} {i : ℕ} {l : Actor} {w : ServiceWorld} {α : Type}

/-! ## Moments of a session -/

/-- `σ` is committed when the log is `mid`, an older part of the log. -/
structure StoreAt (log mid : List LogEntry) (σ : Tables) : Prop where
  suffix : mid <:+ log
  store : Chained ∅ mid σ

/-- A moment while session `i` runs: the log up to it, and what is committed then. -/
structure Moment (i : ℕ) (log mid : List LogEntry) (σ : Tables) : Prop extends StoreAt log mid σ where
  begun : ∃ e ∈ mid, e.session = i

theorem Moment.mono {log log' mid : List LogEntry} {σ : Tables} (h : Moment i log mid σ)
    (hlog : log <:+ log') : Moment i log' mid σ :=
  ⟨⟨h.suffix.trans hlog, h.store⟩, h.begun⟩

/-- What all commits keep holds of each store of the past. -/
theorem StoreAt.invariant {log mid : List LogEntry} {σ : Tables} (h : StoreAt log mid σ) (hpast : Past rt w)
    (hlog : log ⊆ w.log) {I : Tables → Prop} (h₀ : I ∅)
    (hstep : ∀ l t b, Legal rt l t b → I b → I (patch t.writes b)) : I σ :=
  h.store.invariant h₀ fun _ he t b hc hb => hstep _ t b (hpast.legal (hlog (h.suffix.subset he)) hc) hb

/-- The session has begun: the log has an entry of it. -/
def Begun (i : ℕ) (w : ServiceWorld) : Prop := ∃ e ∈ w.log, e.session = i

theorem Begun.moment (h : Begun i w) (hpast : Past rt w) : Moment i w.log w.log w.committed :=
  ⟨⟨List.suffix_refl _, hpast.history.chained⟩, h⟩

/-- At a moment of the session, what is committed is as `D` says. -/
def SeenAt (i : ℕ) (D : List LogEntry → Tables → Prop) (w : ServiceWorld) : Prop :=
  ∃ mid σ, Moment i w.log mid σ ∧ D mid σ

/-- What a session knows from its start on: the rows that were there, and that it has begun. -/
def Since (born : Tables) (i : ℕ) (w : ServiceWorld) : Prop := Persist born w.committed ∧ Begun i w

/-- The entries `between` are those logged from the only snapshot of `t` on, up to the end of the log
`older`. -/
def Window (t : Txn Row) (older between : List LogEntry) : Prop :=
  ∃ mid σ, older = between ++ mid ∧ Chained ∅ mid σ ∧ t.reads = [σ]

/-- The commits of a window lead on from the snapshot. -/
theorem Window.chained {t : Txn Row} {older between : List LogEntry} {b σ : Tables} (h : Window t older between)
    (hb : Chained ∅ older b) (hreads : t.reads = [σ]) : Chained σ between b ∧ between ⊆ older := by
  obtain ⟨mid, σ', rfl, hσ, hreads'⟩ := h
  obtain rfl := List.singleton_inj.mp (hreads.symm.trans hreads')
  obtain ⟨m, hm, hbetween⟩ := hb.split
  obtain rfl := hσ.unique hm
  exact ⟨hbetween, fun _ hx => List.mem_append_left _ hx⟩

/-! ## Rules -/

/-- What an entry owes, given the entries before it, and that this is not lost when others log theirs. -/
structure EntryRule where
  due : LogEntry → List LogEntry → Prop
  /-- Only commits and answers owe something. -/
  quiet : ∀ e older, e.event.commit? = none → answer? e.event = none → due e older
  /-- Entries of other sessions do not matter. -/
  mono : ∀ e new older, (∀ x ∈ new, x.session ≠ e.session) → due e older → due e (new ++ older)

variable {ρ : EntryRule}

/-- The service keeps the rule on entries, along with all that is known of its commits. -/
def entrySpec (rt : Runtime) (ρ : EntryRule) : Spec Row Reply Exn Metric Answer Actor where
  inv w := Justified ρ.due w.log
  known := Past rt
  rely i _ w w' := Grows w w' ∧ Added (fun e => e.session ≠ i) w w'
  guar i _ w w' := Grows w w' ∧ Added (fun e => e.session = i) w w'
  post i l born r w := ∀ time, ρ.due ⟨i, l, time, .answer born r⟩ w.log

theorem entrySpec_push (h : (entrySpec rt ρ).inv w) {ev : Event Row Reply Exn Metric Answer}
    (hev : ρ.due ⟨i, l, w.clock, ev⟩ w.log) :
    (entrySpec rt ρ).guar i l w (w.push i l ev) ∧ (entrySpec rt ρ).inv (w.push i l ev) :=
  ⟨⟨.push .., .push ..⟩, Justified.cons h hev⟩

theorem entrySpec_lawful {sys : System Row Reply Exn Metric Answer Actor}
    (hsymm : ∀ l l', sys.exclusive l l' = sys.exclusive l' l) : (entrySpec rt ρ).Lawful sys where
  exclusive_symm := hsymm
  rely_refl _ _ w := ⟨.refl w, .refl w⟩
  rely_trans _ _ _ _ _ h h' := ⟨h.1.trans h'.1, h.2.trans h'.2⟩
  guar_rely i j _ _ _ _ hij _ _ h := by
    obtain ⟨hgrows, new, hnew, hsession⟩ := h
    exact ⟨hgrows, new, hnew, fun e he heq => hij (heq.symm.trans (hsession e he))⟩
  post_stable _ _ _ _ _ _ h _ hpost := fun time => by
    obtain ⟨new, hnew, hothers⟩ := h.2
    exact hnew ▸ ρ.mono _ new _ hothers (hpost time)
  tick w _ _ h := ⟨h, fun _ _ => ⟨⟨.refl _, List.suffix_refl _⟩, .refl w⟩⟩
  begun _ _ _ h := entrySpec_push h (ρ.quiet _ _ rfl rfl)
  answer _ _ _ _ w h hpost := entrySpec_push h (hpost w.clock)

theorem entrySpec_logs : (entrySpec rt ρ).Logs i l := by
  intro w ev hev h
  refine entrySpec_push h.1 (ρ.quiet _ _ ?_ ?_) <;> cases ev <;> first | rfl | exact hev.elim

theorem entrySpec_commits {C : ServiceWorld → Txn Row → Prop}
    (hC : ∀ w t, (entrySpec rt ρ).facts w → C w t → ρ.due ⟨i, l, w.clock, .commit t w.committed⟩ w.log) :
    (entrySpec rt ρ).Commits i l C := by
  intro w t hfacts _ hlive hknown hc
  have hgrows : Grows w (w.commit i l t) := grows_commit hlive hknown
  simp only [World.commit, hlive, Bool.false_eq_true, if_false] at hgrows ⊢
  exact ⟨⟨hgrows, [_], rfl, fun _ he => List.mem_singleton.mp he ▸ rfl⟩, Justified.cons hfacts.1 (hC w t hfacts hc)⟩

/-- What the specification of the commits establishes can be used here. -/
theorem entrySpec_env {T : Option (Txn Row)} {w w' : ServiceWorld} (h : (entrySpec rt ρ).env i l T w w') :
    (commitSpec rt).env i l T w w' where
  rely := h.rely.1
  facts := ⟨h.facts.2.story, h.facts.2.history⟩
  clock := h.clock
  kept := h.kept

/-- Established for the commits, used here. -/
theorem entered {P P' : Condition} {x : Db α} {Q Q' : α → Condition} {F F' : Exn → Condition}
    (h : Triple (commitSpec rt) i l P x Q F) (h' : Triple (entrySpec rt ρ) i l P' x Q' F') :
    Triple (entrySpec rt ρ) i l (fun w T => P w T ∧ P' w T) x (fun a w T => Q a w T ∧ Q' a w T)
      (fun e w T => F e w T ∧ F' e w T) :=
  h.transfer (fun _ _ _ => entrySpec_env) (fun _ h => h.history) h'

theorem entrySpec_lasting {C : ServiceWorld → Prop} (hC : ∀ w w', Grows w w' → C w → C w') :
    (entrySpec rt ρ).Lasting i l C :=
  ⟨fun _ _ h _ => hC _ _ h.1, fun _ _ h _ => hC _ _ h.1⟩

theorem begun_lasting : (entrySpec rt ρ).Lasting i l (Begun i) := entrySpec_lasting fun _ _ h hc => h.logged hc

theorem seenAt_lasting (D : List LogEntry → Tables → Prop) : (entrySpec rt ρ).Lasting i l (SeenAt i D) :=
  entrySpec_lasting fun _ _ h ⟨mid, σ, hm, hd⟩ => ⟨mid, σ, hm.mono h.log, hd⟩

theorem since_lasting {born : Tables} : (entrySpec rt ρ).Lasting i l (Since born i) :=
  entrySpec_lasting fun _ _ h hc => ⟨hc.1.trans h.persist, h.logged hc.2⟩

/-- In every run the entries owe nothing, if the programs see to it from their start on. -/
theorem service_justified_fresh {clock : Time} {s : ServiceState}
    (hprogram : ∀ i l born, Triple (entrySpec rt ρ) i l
      (fun w T => Idle w T ∧ w.Fresh i l ∧ w.committed = born) (program rt l)
      (fun a w _ => ∀ time, ρ.due ⟨i, l, time, .answer born (.ok a)⟩ w.log)
      fun e w _ => ∀ time, ρ.due ⟨i, l, time, .answer born (.error e)⟩ w.log)
    (hs : (service rt).Reachable (emptyState clock) s) : Justified ρ.due s.world.log := by
  refine (Spec.sound (entrySpec_lawful fun _ _ => rfl) (fun i l w _ hfresh => ?_) ?_ rfl rfl
    (fun _ h => service_past h) hs).inv
  case refine_2 => exact Justified.nil
  refine wp_mono ?_ _ w none ((hprogram i l w.committed).sound w none ⟨rfl, hfresh, rfl⟩)
  rintro (e | a) w' T' h
  · exact h
  · exact h

/-- The same for programs of which only the rows at their start matter, and that they have begun. -/
theorem service_justified {clock : Time} {s : ServiceState}
    (hprogram : ∀ i l born, Triple (entrySpec rt ρ) i l (fun w T => Idle w T ∧ Since born i w) (program rt l)
      (fun a w _ => ∀ time, ρ.due ⟨i, l, time, .answer born (.ok a)⟩ w.log)
      fun e w _ => ∀ time, ρ.due ⟨i, l, time, .answer born (.error e)⟩ w.log)
    (hs : (service rt).Reachable (emptyState clock) s) : Justified ρ.due s.world.log := by
  refine service_justified_fresh (fun i l born => (hprogram i l born).pre ?_) hs
  rintro w T ⟨hidle, ⟨older, hlog, -⟩, rfl⟩
  exact ⟨hidle, .refl _, _, hlog ▸ List.mem_cons_self, rfl⟩

end Matchmaking
