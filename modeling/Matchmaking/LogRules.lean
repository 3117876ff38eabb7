import Matchmaking.Refinement
import Matchmaking.Composition
import Matchmaking.ReadCommitted.Marks

/-!
# Rules about the log of the service

The sessions of the service keep a `LogRule` while durable rows stay and everything that is known of
reachable states may be used.
-/

namespace Matchmaking

open ReadCommitted

variable {rt : Runtime} {i : ℕ} {l : Actor} {μ α : Type}
  {ρ : LogRule Row Reply Exn Metric Answer Actor μ} {ms : List μ}

theorem grows_growth : Growth Grows where
  refl := .refl
  trans _ _ _ h h' := h.trans h'
  push w i l ev := .push w i l ev
  tick _ _ _ := ⟨.refl _, List.suffix_refl _⟩

/-- The service keeps the rule on marks, along with all that is known of its commits. -/
abbrev ruleSpec (rt : Runtime) (ρ : LogRule Row Reply Exn Metric Answer Actor μ) :
    Spec Row Reply Exn Metric Answer Actor :=
  ρ.spec (Past rt) Grows

/-- The last entry of a world with a past is a legal commit. -/
theorem grows_commit {w : ServiceWorld} {t : Txn Row} (hlive : t.aborted = false)
    (hpast : Past rt (w.commit i l t)) : Grows w (w.commit i l t) := by
  simp only [World.commit, hlive, Bool.false_eq_true, if_false] at hpast ⊢
  exact ⟨(hpast.legal List.mem_cons_self rfl).persist, List.suffix_cons _ _⟩

/-- What the specification of the commits establishes can be used here. -/
theorem ruleSpec_env {T : Option (Txn Row)} {w w' : ServiceWorld}
    (h : (ruleSpec rt ρ).env i l T w w') : (commitSpec rt).env i l T w w' where
  rely := h.rely.1
  facts := ⟨h.facts.2.story, h.facts.2.history⟩
  clock := h.clock
  kept := h.kept

/-- Established for the commits, used here. -/
theorem ruled {P P' : Condition} {x : Db α} {Q Q' : α → Condition} {F F' : Exn → Condition}
    (h : Triple (commitSpec rt) i l P x Q F) (h' : Triple (ruleSpec rt ρ) i l P' x Q' F') :
    Triple (ruleSpec rt ρ) i l (fun w T => P w T ∧ P' w T) x (fun a w T => Q a w T ∧ Q' a w T)
      (fun e w T => F e w T ∧ F' e w T) :=
  h.transfer (fun _ _ _ => ruleSpec_env) (fun _ h => h.history) h'

theorem ruleSpec_commits {C : ServiceWorld → Txn Row → Prop}
    (hC : ∀ w t, (ruleSpec rt ρ).facts w → C w t → Past rt (w.commit i l t) → t.aborted = false →
      ρ.fine (marks ρ.mark i (⟨i, l, w.clock, .commit t w.committed⟩ :: w.log))) :
    (ruleSpec rt ρ).Commits i l C :=
  LogRule.spec_commits (fun _ _ => grows_commit) hC

/-- Programs made of silent operations. -/
theorem silent_composite {mark : LogEntry → Option μ} {Φ : RowRel Row} {A : Key → Prop} {ends : Prop}
    {quiet : Metric → Prop} (hrow : ∀ k, A k → ∀ now v v', Φ now k v v')
    (hcommit : ∀ time t b, (∀ k, Φ t.start k (b.lookup k) ((patch t.writes b).lookup k)) →
      mark ⟨i, l, time, .commit t b⟩ = none)
    (hcall : ∀ time x y, mark ⟨i, l, time, .call x y⟩ = none)
    (hemit : ∀ m, quiet m → ∀ time, mark ⟨i, l, time, .emit m⟩ = none) :
    Composite A ends quiet fun {α : Type} (x : Db α) => x.Uses (Op.Silent mark i l Φ) where
  perform {β o} ho := by
    refine .perform ?_
    cases o with
    | row k skip f =>
      intro now v
      have hk := hrow k ho now v
      cases f now v <;> first | exact hk _ | trivial
    | commit => exact hcommit
    | emit m => exact hemit m ho
    | call x => exact fun time => hcall time x
    | _ => trivial
  pure := .pure
  throw := .throw
  bind := .bind
  tryCatch := .tryCatch

/-- Silent parts of a program. -/
theorem silent {Φ : RowRel Row} (hrefl : ∀ now k v, Φ now k v v)
    (htrans : ∀ now k v v' v'', Φ now k v v' → Φ now k v' v'' → Φ now k v v'') {x : Db α}
    (hx : x.Uses (Op.Silent ρ.mark i l Φ)) :
    Triple (ruleSpec rt ρ) i l (fun w T => Follows Φ w T ∧ ρ.Marked i ms w T) x
      (fun _ w T => Follows Φ w T ∧ ρ.Marked i ms w T)
      fun _ w T => Follows Φ w T ∧ ρ.Marked i ms w T :=
  LogRule.silent grows_growth hrefl htrans (fun _ _ => grows_commit) hx

/-- What is stable for the commits is so here. -/
theorem ruled_stable {P : Condition}
    (h : Stable (commitSpec rt) i l P) : Stable (ruleSpec rt ρ) i l P :=
  fun w w' T henv => h w w' T (ruleSpec_env henv)

/-- Calls that leave no marks. -/
theorem ask_marked {c : Call} (hcall : ∀ time x y, ρ.mark ⟨i, l, time, .call x y⟩ = none) :
    Triple (ruleSpec rt ρ) i l (ρ.Marked i ms) (ask c) (fun _ => ρ.Marked i ms)
      fun _ => ρ.Marked i ms := by
  have hmarked : ∀ {w : ServiceWorld} {T : Option (Txn Row)} y, ρ.Marked i ms w T →
      marks ρ.mark i (⟨i, l, w.clock, .call c y⟩ :: w.log) = ms := fun y h =>
    (marks_cons_none (hcall _ c y)).trans h
  refine Triple.call LogRule.marked_stable (fun w T y hfacts h => ?_) ?_
  · refine LogRule.spec_push grows_growth hfacts.1 ?_
    have hfine := hfacts.1 i
    rw [hmarked y h]
    rwa [show marks ρ.mark i w.log = ms from h] at hfine
  · rintro w T (e | y) - h <;> exact hmarked _ h

theorem start_inside : Triple (ruleSpec rt ρ) i l (ρ.Marked i ms) (perform .start)
    (fun _ => ρ.Inside i ms) fun _ => ρ.Marked i ms :=
  Triple.start LogRule.marked_stable (fun _ _ _ h => ⟨rfl, h⟩) fun _ _ _ _ h => h

theorem rollback_marked : Triple (ruleSpec rt ρ) i l (ρ.Marked i ms) (perform .rollback)
    (fun _ => ρ.Marked i ms) fun _ => ρ.Marked i ms :=
  Triple.rollback LogRule.marked_stable (fun _ _ _ h => h) fun _ _ _ _ h => h

/-- Within a transaction, what does not end it leaves no marks. -/
theorem inside_composite {quiet : Metric → Prop}
    (hcall : ∀ x time y, ρ.mark ⟨i, l, time, .call x y⟩ = none)
    (hemit : ∀ m, quiet m → ∀ time, ρ.mark ⟨i, l, time, .emit m⟩ = none) :
    Composite (fun _ => True) False quiet fun {α : Type} (x : Db α) =>
      Triple (ruleSpec rt ρ) i l (ρ.Inside i ms) x (fun _ => ρ.Inside i ms) fun _ => ρ.Inside i ms :=
  LogRule.inside_composes grows_growth hcall hemit

/-- The mark of a commit; an aborted transaction is rolled back. -/
def commitMark (ρ : LogRule Row Reply Exn Metric Answer Actor μ) (i : ℕ) (l : Actor) (w : ServiceWorld)
    (T : Option (Txn Row)) : Option μ :=
  T.bind fun t => if t.aborted then none else ρ.mark ⟨i, l, w.clock, .commit t w.committed⟩

theorem commitMark_open {w : ServiceWorld} {t : Txn Row} (hlive : t.aborted = false) :
    commitMark ρ i l w (some t) = ρ.mark ⟨i, l, w.clock, .commit t w.committed⟩ := by
  simp [commitMark, hlive]

/-- What the session has left after a commit. -/
theorem marks_commit (w : ServiceWorld) (T : Option (Txn Row)) :
    marks ρ.mark i (T.elim w (w.commit i l)).log
      = (commitMark ρ i l w T).toList ++ marks ρ.mark i w.log := by
  cases T with
  | none => rfl
  | some t =>
    cases hlive : t.aborted with
    | true => simp [World.commit, commitMark, hlive]
    | false =>
      simp only [Option.elim_some, World.commit, commitMark_open hlive, hlive, Bool.false_eq_true, if_false]
      exact marks_cons

/-- A commit of which the mark is known to satisfy `K`. -/
theorem commit_leaving {P : Condition} {K : Option μ → Prop} (hP : Stable (ruleSpec rt ρ) i l P)
    (hmark : ∀ w T, P w T → K (commitMark ρ i l w T)) (hfine : ∀ k, K k → ρ.fine (k.toList ++ ms)) :
    Triple (ruleSpec rt ρ) i l (fun w T => P w T ∧ ρ.Marked i ms w T) (perform .commit)
      (fun _ w T => Idle w T ∧ ∃ k, K k ∧ ρ.Marked i (k.toList ++ ms) w T)
      fun _ w T => ρ.Marked i ms w T ∨ ∃ k, K k ∧ ρ.Marked i (k.toList ++ ms) w T := by
  have hafter : ∀ (w : ServiceWorld) (T : Option (Txn Row)), P w T ∧ ρ.Marked i ms w T →
      ∃ k, K k ∧ ρ.Marked i (k.toList ++ ms) (T.elim w (w.commit i l)) none := fun w T hp =>
    ⟨_, hmark w T hp.1, (marks_commit w T).trans (by rw [show marks ρ.mark i w.log = ms from hp.2])⟩
  refine Triple.commit (hP.and LogRule.marked_stable) (fun w t hfacts hp hstart hlive hknown => ?_)
    (fun w T _ hp => ⟨rfl, hafter w T hp⟩) fun e w T _ hp => ⟨.inl hp.2, .inr (hafter w T hp)⟩
  have hcommits : (ruleSpec rt ρ).Commits i l fun w t => P w (some t) ∧ ρ.Marked i ms w (some t) :=
    ruleSpec_commits fun w t _ hc _ hlive => by
      rw [marks_cons, ← commitMark_open hlive, show marks ρ.mark i w.log = ms from hc.2]
      exact hfine _ (hmark w (some t) hc.1)
  exact hcommits w t hfacts hstart hlive hknown hp

/-- The commit of an open transaction that is known well enough to tell its mark. -/
theorem commit_leaves {P : Condition} {k : Option μ} (hP : Stable (ruleSpec rt ρ) i l P)
    (hopen : ∀ w T, P w T → ∃ t, T = some t ∧ t.aborted = false ∧
      ∀ time, ρ.mark ⟨i, l, time, .commit t w.committed⟩ = k) (hfine : ρ.fine (k.toList ++ ms)) :
    Triple (ruleSpec rt ρ) i l (fun w T => P w T ∧ ρ.Marked i ms w T) (perform .commit)
      (fun _ w T => Idle w T ∧ ρ.Marked i (k.toList ++ ms) w T) anything := by
  have hcommit := @commit_leaving rt i l μ ρ ms P (· = k) hP (fun w T hp => by
    obtain ⟨t, rfl, hlive, hmark⟩ := hopen w T hp
    exact (commitMark_open hlive).trans (hmark _)) fun _ h => h ▸ hfine
  refine (Triple.any hcommit).post ?_
  rintro _ w T ⟨hidle, _, rfl, hmarked⟩
  exact ⟨hidle, hmarked⟩

section Transactions

variable {C : ServiceWorld → Prop} (hC : (commitSpec rt).Lasting i l C)
  (hcall : ∀ time x y, ρ.mark ⟨i, l, time, .call x y⟩ = none) {x : Db α} {Q R : α → Condition}
  (hx : ∀ now, Triple (ruleSpec rt ρ) i l
    (fun w T => (Pending now [] [] w T ∧ C w) ∧ ρ.Inside i ms w T) x Q anything)
  (hcommit : ∀ a, Triple (ruleSpec rt ρ) i l (Q a) (perform .commit) (fun _ => R a) anything)

include hC hcall hx hcommit

/-- A transaction of which the commit is marked. -/
theorem asyncTransaction_marked : Triple (ruleSpec rt ρ) i l
    (fun w T => (Idle w T ∧ C w) ∧ ρ.Marked i ms w T) (asyncTransaction x) R anything :=
  Triple.asyncTransaction_after
    (ruled (Triple.keep hC (Triple.ask_ok commitSpec_logs Idle.stable Idle.unlogged)) (ask_marked hcall)).any
    (ruled (Triple.keep hC Triple.idle_start) start_inside).any
    (Triple.pre (.exists_pre hx) fun _ _ ⟨⟨⟨now, h⟩, hc⟩, hms⟩ => ⟨now, ⟨h, hc⟩, hms⟩) hcommit
    fun _ => Triple.rollback_any

/-- A statement of which the commit is marked. -/
theorem autocommit_marked : Triple (ruleSpec rt ρ) i l
    (fun w T => (Idle w T ∧ C w) ∧ ρ.Marked i ms w T) (autocommit x) R anything :=
  Triple.autocommit_after
    (ruled (Triple.keep hC (Triple.ask_ok commitSpec_logs Idle.stable Idle.unlogged)) (ask_marked hcall)).any
    (ruled (Triple.keep hC Triple.idle_start) start_inside).any
    (Triple.pre (.exists_pre hx) fun _ _ ⟨⟨⟨now, h⟩, hc⟩, hms⟩ => ⟨now, ⟨h, hc⟩, hms⟩) hcommit
    fun _ => Triple.rollback_any

end Transactions

/-- Actors that leave no marks keep every rule. -/
theorem unmarked (h : ∀ time ev, ρ.mark ⟨i, l, time, ev⟩ = none) {P : Condition} :
    Triple (ruleSpec rt ρ) i l P (program rt l) (fun a w _ => ρ.Answers i l (.ok a) w.log)
      fun e w _ => ρ.Answers i l (.error e) w.log := by
  have hfine : ∀ {w : ServiceWorld} ev, (ruleSpec rt ρ).inv w →
      ρ.fine (marks ρ.mark i (⟨i, l, w.clock, ev⟩ :: w.log)) := fun {w} ev hinv => by
    rw [marks_cons_none (h w.clock ev)]
    exact hinv i
  have hlogs : (ruleSpec rt ρ).Logs i l := fun w ev _ hfacts =>
    LogRule.spec_push grows_growth hfacts.1 (hfine ev hfacts.1)
  have hcommits : (ruleSpec rt ρ).Commits i l fun _ _ => True :=
    ruleSpec_commits fun w t hfacts _ _ _ => hfine _ hfacts.1
  exact (Triple.of_commits hlogs hcommits).conseq (fun _ _ h => h)
    (fun _ _ _ _ => LogRule.answers_of_none fun _ time => h time _)
    fun _ _ _ _ => LogRule.answers_of_none fun _ time => h time _

section Service

variable (hprogram : ∀ i l, Triple (ruleSpec rt ρ) i l (fun w T => Idle w T ∧ ρ.Marked i [] w T)
    (program rt l)
    (fun a w _ => ρ.Answers i l (.ok a) w.log) fun e w _ => ρ.Answers i l (.error e) w.log)
  {clock : Time}

include hprogram

/-- The marks of every session of the service are fine, if its programs see to it. -/
theorem service_fine {s : ServiceState} (hs : (service rt).Reachable (emptyState clock) s) (j : ℕ) :
    ρ.fine (marks ρ.mark j s.world.log) :=
  (LogRule.good_of_reachable grows_growth (fun _ _ => rfl) hprogram
    (fun _ h => service_past h) hs).inv j

/-- The sessions execute their programs under the rule. -/
theorem service_executed {s : ServiceState} {τs : ℕ → ServiceTrace}
    (hs : (service rt).Traced (emptyState clock) s τs) :
    Executed (service rt) (ruleSpec rt ρ) s τs :=
  Spec.executed (LogRule.spec_lawful grows_growth fun _ _ => rfl) (fun _ hs =>
    ⟨LogRule.good_of_reachable grows_growth (fun _ _ => rfl) hprogram (fun _ h => service_past h) hs,
      service_past hs⟩) hs

end Service

end Matchmaking
