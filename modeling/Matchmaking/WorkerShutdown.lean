import Matchmaking.LeaseTransaction
import Matchmaking.LogRules
import Matchmaking.ReadCommitted.Views

/-!
# The shutdown of a worker

A worker that is shut down hands back its leases and its heartbeat, in one transaction, while the others
go on with theirs. Where each worker is one process, whose iterations and shutdown follow each other, the
worker has nothing left from then on until it is started again.
-/

namespace Matchmaking

open ReadCommitted ReadCommitted.Triple

variable {rt : Runtime} {i : ℕ} {l : Actor} {w : ServiceWorld} {T : Option (Txn Row)} {t : Txn Row}
  {workerId : String} {s s' s'' : Tables}

/-! ## What a worker has -/

/-- The worker has no lease and no heartbeat. -/
structure HasNothing (workerId : String) (s : Tables) : Prop where
  leases : ∀ p v, s.lookup (.partitionLeases p) = some v → v.ownedBy ≠ some workerId
  heartbeat : s.lookup (.workerHeartbeats workerId) = none

/-- From one store to another, the worker gets nothing that it has not had. -/
structure GainsNothing (workerId : String) (s s' : Tables) : Prop where
  leases : ∀ p v, s'.lookup (.partitionLeases p) = some v → v.ownedBy = some workerId →
    ∃ a, s.lookup (.partitionLeases p) = some a ∧ a.ownedBy = some workerId
  heartbeat : s.lookup (.workerHeartbeats workerId) = none → s'.lookup (.workerHeartbeats workerId) = none

theorem GainsNothing.refl (workerId : String) (s : Tables) : GainsNothing workerId s s :=
  ⟨fun _ v hv howned => ⟨v, hv, howned⟩, fun h => h⟩

/-- What is gained in neither of two steps is not gained in both. -/
theorem GainsNothing.trans (h : GainsNothing workerId s s') (h' : GainsNothing workerId s' s'') :
    GainsNothing workerId s s'' where
  leases p v hv howned := by
    obtain ⟨a, ha, howned'⟩ := h'.leases p v hv howned
    exact h.leases p a ha howned'
  heartbeat hnone := h'.heartbeat (h.heartbeat hnone)

/-- A worker that has nothing and gains nothing still has nothing. -/
theorem HasNothing.later (h : HasNothing workerId s) (h' : GainsNothing workerId s s') :
    HasNothing workerId s' where
  leases p v hv howned := by
    obtain ⟨a, ha, howned'⟩ := h'.leases p v hv howned
    exact h.leases p a ha howned'
  heartbeat := h'.heartbeat h.heartbeat

/-- Every commit changes leases and heartbeats by the rules of its actor's rows. -/
theorem Legal.leaseRows (h : Legal rt l t s) {k : Key} (hk : IsLeaseKey k) :
    l.rows t.start k (s.lookup k) ((patch t.writes s).lookup k) := by
  have hframe : ∀ {ps : Changes Row}, Changed IsIndexKey ps s (patch t.writes s) → ps.dlookup k = none →
      (patch t.writes s).lookup k = s.lookup k := fun hchanged hnone => by
    refine hchanged.frame k (fun hindex => ?_) hnone
    cases k <;> first | exact hk | exact hindex
  cases h with
  | rows h => exact h k
  | pair n hn hurl hchanged =>
    have hsame := hframe hchanged (n.dlookup_eq_none _ (by cases k <;> first | exact hk.elim | simp))
    cases k <;> first | exact hk.elim | exact .inl hsame
  | claim tie σ hσ hrows =>
    have hrow := hrows k
    cases k <;> first | exact hk.elim | exact hrow
  | outcome o eventId e m hm hchanged =>
    have hsame := hframe hchanged (o.dlookup_eq_none _ _ _ _ (by cases k <;> first | exact hk.elim | simp)
      (by cases k <;> first | exact hk.elim | simp))
    cases k <;> first | exact hk.elim | exact hsame
  | create n htenant hkey hbody hpart hknown hchanged =>
    have hsame := hframe hchanged (n.dlookup_eq_none _ (by cases k <;> first | exact hk.elim | simp)
      (by cases k <;> first | exact hk.elim | simp))
    cases k <;> first | exact hk.elim | exact hsame

/-- A worker gets leases and its heartbeat from nobody but itself. -/
theorem Legal.gainsNothing (h : Legal rt l t s) (hl : l.worker? ≠ some workerId) :
    GainsNothing workerId s (patch t.writes s) where
  leases p v hv howned := by
    have hrow := h.leaseRows (k := .partitionLeases p) trivial
    rw [hv] at hrow
    have hkept : some v = s.lookup (.partitionLeases p) → ∃ a, s.lookup (.partitionLeases p) = some a ∧
        a.ownedBy = some workerId := fun hsame => ⟨v, hsame.symm, howned⟩
    cases l with
    | initMain settings | migrate settings =>
      obtain hsame | ⟨-, b, hb, hfree, -⟩ := hrow
      · exact hkept hsame
      · obtain rfl := Option.some.inj hb
        cases hfree.symm.trans howned
    | runLoop settings workerId' offset =>
      obtain hsame | ⟨a, b, -, hb, -, ⟨howner, -⟩ | ⟨hfree, -⟩⟩ := hrow
      · exact hkept hsame
      · obtain rfl := Option.some.inj hb
        exact absurd (howner.symm.trans howned) hl
      · obtain rfl := Option.some.inj hb
        cases hfree.symm.trans howned
    | shutdownWorker workerId' =>
      obtain hsame | ⟨a, b, -, hb, -, hfree, -⟩ := hrow
      · exact hkept hsame
      · obtain rfl := Option.some.inj hb
        cases hfree.symm.trans howned
    | cancelTicket xTenantId text => cases xTenantId <;> exact hkept hrow
    | _ => exact hkept hrow
  heartbeat hnone := by
    have hrow := h.leaseRows (k := .workerHeartbeats workerId) trivial
    rw [hnone] at hrow
    cases l with
    | runLoop settings workerId' offset => exact hrow.resolve_right fun heq => hl (congrArg some heq.symm)
    | shutdownWorker workerId' => exact hrow.resolve_right fun heq => hl (congrArg some heq.symm)
    | cancelTicket xTenantId text => cases xTenantId <;> exact hrow
    | _ => exact hrow

/-! ## What a shutdown relies on -/

/-- The commit of a shutdown leaves its worker nothing. -/
def HandsBack (e : LogEntry) (_ : List LogEntry) : Prop :=
  ∀ workerId, e.actor = .shutdownWorker workerId → ∀ t b, e.event.commit? = some (t, b) →
    HasNothing workerId (patch t.writes b)

/-- While a worker runs, it gets nothing from others. -/
def shutdownSpec (rt : Runtime) : Spec Row Reply Exn Metric Answer Actor where
  inv w := Justified HandsBack w.log
  known := Past rt
  rely _ l w w' := ∀ workerId, l.worker? = some workerId → GainsNothing workerId w.committed w'.committed
  guar _ l w w' := ∀ workerId, l.worker? ≠ some workerId → GainsNothing workerId w.committed w'.committed
  post _ _ _ _ _ := True

/-- Entries that are no commits keep the rule. -/
theorem shutdownSpec_push (h : (shutdownSpec rt).inv w) {ev : Event Row Reply Exn Metric Answer}
    (hev : ev.commit? = none) :
    (shutdownSpec rt).guar i l w (w.push i l ev) ∧ (shutdownSpec rt).inv (w.push i l ev) :=
  ⟨fun _ _ => .refl _ _, Justified.cons h fun _ _ _ _ hc => by cases hev.symm.trans hc⟩

/-- That two sessions of one worker exclude each other does not depend on which is named first. -/
theorem serviceOfWorkers_symm (l l' : Actor) :
    (serviceOfWorkers rt).exclusive l l' = (serviceOfWorkers rt).exclusive l' l := by
  by_cases h : l.worker? = l'.worker?
  · simp [serviceOfWorkers, h]
  · simp [serviceOfWorkers, h, Ne.symm h]

/-- What each actor guarantees, the others rely on. -/
theorem shutdownSpec_lawful : (shutdownSpec rt).Lawful (serviceOfWorkers rt) where
  exclusive_symm := serviceOfWorkers_symm
  rely_refl _ _ _ _ _ := .refl _ _
  rely_trans _ _ _ _ _ h h' workerId hl := (h workerId hl).trans (h' workerId hl)
  guar_rely _ _ _ _ _ _ _ hexcl _ h workerId hl :=
    h workerId fun hl' => by simp [serviceOfWorkers, hl, hl'] at hexcl
  post_stable _ _ _ _ _ _ _ _ _ := trivial
  tick _ _ _ h := ⟨h, fun _ _ _ _ => .refl _ _⟩
  begun _ _ _ h := shutdownSpec_push h rfl
  answer _ _ _ _ _ h _ := shutdownSpec_push h rfl

theorem shutdownSpec_logs : (shutdownSpec rt).Logs i l := by
  intro w ev hev h
  refine shutdownSpec_push h.1 ?_
  cases ev <;> first | rfl | exact hev.elim

/-- The commits of all actors but shutdowns are allowed by the general rules alone. -/
theorem shutdownSpec_commits {C : ServiceWorld → Txn Row → Prop}
    (hC : ∀ w t, C w t → ∀ workerId, l = .shutdownWorker workerId →
      HasNothing workerId (patch t.writes w.committed)) :
    (shutdownSpec rt).Commits i l C := by
  intro w t hfacts _ hlive hknown hc
  simp only [World.commit, hlive, Bool.false_eq_true, if_false] at hknown ⊢
  have hlegal : Legal rt l t w.committed := hknown.legal List.mem_cons_self rfl
  refine ⟨fun workerId hl => hlegal.gainsNothing hl, Justified.cons hfacts.1 fun workerId hl t' b hc' => ?_⟩
  obtain ⟨rfl, rfl⟩ := Prod.mk.inj (Option.some.inj hc')
  exact hC w t hc workerId hl

/-! ## The program -/

/-- The row is none of the worker's. -/
def NotOf (workerId : String) : (k : Key) → Option (Row k) → Prop
  | .partitionLeases _, v => ∀ a : PartitionLease, v = some a → a.ownedBy ≠ some workerId
  | .workerHeartbeats x, v => x = workerId → v = none
  | _, _ => True

section Program

variable {A : Key → Prop}

/-- The only other sessions that could give the worker a lease are its own, and they do not run. -/
theorem notOf_stable (hl : l.worker? = some workerId) :
    Stable (shutdownSpec rt) i l (Views (NotOf workerId) A) := by
  refine Views.stable fun w w' hrely k _ hrow => ?_
  have hgains := hrely workerId hl
  cases k with
  | partitionLeases p =>
    intro a ha howned
    obtain ⟨a', ha', howned'⟩ := hgains.leases p a ha howned
    exact hrow a' ha' howned'
  | workerHeartbeats x =>
    rintro rfl
    exact hgains.heartbeat (hrow rfl)
  | _ => trivial

/-- The leases are released one by one. -/
theorem updateLeases_notOf (hl : l.worker? = some workerId) (ps : List ℕ) : ∀ A : Key → Prop,
    Triple (shutdownSpec rt) i l (Views (NotOf workerId) A)
      (updateLeases (fun _ v => v.isOwnedBy workerId) PartitionLease.released ps)
      (fun _ => Views (NotOf workerId) fun k => A k ∨ ∃ p ∈ ps, k = .partitionLeases p) anything := by
  induction ps with
  | nil =>
    intro A
    refine .pure _ fun w T h => h.mono fun k hk => hk.resolve_right ?_
    rintro ⟨_, hp, -⟩
    cases hp
  | cons p ps ih =>
    intro A
    refine .bind (views_row (notOf_stable hl) fun now v _ => ?_) fun _ => .bind ((ih _).post
      fun _ w T h => h.mono fun k hk => ?_) fun _ => .pure _ fun _ _ h => h
    · cases v with
      | none => exact fun a ha => by cases ha
      | some v =>
        dsimp only
        split
        · exact fun a ha howned => by cases ha; cases howned
        · next hnot =>
          rintro a ⟨⟩ howned
          exact hnot (decide_eq_true howned)
    · obtain hA | ⟨p', hp', rfl⟩ := hk
      · exact .inl (.inl hA)
      · rcases List.mem_cons.mp hp' with rfl | hp'
        · exact .inl (.inr rfl)
        · exact .inr ⟨p', hp', rfl⟩

/-- No lease of the worker is left. -/
theorem releaseOwnedPartitions_notOf (hl : l.worker? = some workerId) :
    Triple (shutdownSpec rt) i l (Views (NotOf workerId) A) (releaseOwnedPartitions workerId)
      (fun _ => Views (NotOf workerId) fun k => ∃ p, k = .partitionLeases p) anything := by
  have howned : Triple (shutdownSpec rt) i l (Views (NotOf workerId) A)
      (selectLeases fun _ _ v => v.isOwnedBy workerId)
      (fun owned => Views (NotOf workerId) fun k => ∃ p, k = .partitionLeases p ∧ p ∉ owned) anything := by
    refine views_select (notOf_stable hl) ?_
    rintro now s _ _ ⟨p, rfl, hp⟩ a ha howned
    have hrow : (p, a) ∈ rowsOf leaseRow s := mem_rowsOf_leaseRow.mpr ha
    exact hp (List.mem_map.mpr ⟨(p, a), List.mem_filter.mpr ⟨hrow, decide_eq_true howned⟩, rfl⟩)
  refine .bind howned fun owned => .bind ((updateLeases_notOf hl owned _).post fun _ w T h => h.mono ?_)
    fun _ => .pure _ fun _ _ h => h
  -- a lease is one that was found, or none of the worker's already
  rintro _ ⟨p, rfl⟩
  by_cases hp : p ∈ owned
  · exact .inr ⟨p, hp, rfl⟩
  · exact .inl ⟨p, rfl, hp⟩

/-- The heartbeat is gone as well. -/
theorem removeWorkerHeartbeat_notOf (hl : l.worker? = some workerId) :
    Triple (shutdownSpec rt) i l (Views (NotOf workerId) A) (removeWorkerHeartbeat workerId)
      (fun _ => Views (NotOf workerId) fun k => A k ∨ k = .workerHeartbeats workerId) anything := by
  have hfind : Triple (shutdownSpec rt) i l (Views (NotOf workerId) A)
      (perform (.select fun _ s => (s.lookup (.workerHeartbeats workerId)).isSome))
      (fun found => Views (NotOf workerId) fun k => A k ∨ found = false ∧ k = .workerHeartbeats workerId)
      anything := by
    refine views_select (notOf_stable hl) fun _ s hs k hk => ?_
    rcases hk with hk | ⟨hnone, rfl⟩
    · exact hs k hk
    · exact fun _ => Option.isNone_iff_eq_none.mp (Option.isSome_eq_false_iff.mp hnone)
  refine .bind hfind fun found => ?_
  cases found with
  | false => exact .pure _ fun _ _ h => h.mono fun k hk => hk.imp_right fun heq => ⟨rfl, heq⟩
  | true =>
    refine .bind (views_row (notOf_stable hl) fun now v _ => ?_) fun _ => .pure _ fun _ _ h =>
      h.mono fun k hk => hk.imp_left .inl
    cases v with
    | none => exact fun _ => rfl
    | some v => exact fun _ => rfl

/-- The rows that may be a worker's. -/
abbrev MayBeOf (workerId : String) (k : Key) : Prop :=
  (∃ p, k = .partitionLeases p) ∨ k = .workerHeartbeats workerId

/-- A worker has nothing if no row is its own. -/
theorem HasNothing.of_rows (h : ∀ k, MayBeOf workerId k → NotOf workerId k (s.lookup k)) :
    HasNothing workerId s where
  leases p := h (.partitionLeases p) (.inl ⟨p, rfl⟩)
  heartbeat := h (.workerHeartbeats workerId) (.inr rfl) rfl

/-- And the other way round, row by row. -/
theorem HasNothing.rows (h : HasNothing workerId s) (k : Key) (hk : MayBeOf workerId k) :
    NotOf workerId k (s.lookup k) := by
  rcases hk with ⟨p, rfl⟩ | rfl
  · exact h.leases p
  · exact fun _ => h.heartbeat

/-- A shutdown may commit once it sees that nothing is left. -/
theorem commit_hasNothing : Triple (shutdownSpec rt) i (.shutdownWorker workerId)
    (Views (NotOf workerId) (MayBeOf workerId)) (perform .commit)
    (fun _ w T => Idle w T ∧ HasNothing workerId w.committed) fun _ => Idle := by
  refine (views_commit (notOf_stable rfl) (shutdownSpec_commits fun w t hrows workerId' hl => ?_)).post
    fun _ w T h => ⟨h.1, .of_rows h.2⟩
  cases hl
  exact .of_rows hrows

/-- The loop over the leases sees all that the worker owns, since nobody else gives it any; after it and the
DELETE nothing is left. -/
theorem shutdownWorker_handsBack : Triple (shutdownSpec rt) i (.shutdownWorker workerId) Idle
    (shutdownWorker workerId) anything anything := by
  have hbody : Triple (shutdownSpec rt) i (.shutdownWorker workerId) (fun w T => Idle w T ∧ True)
      (do
        let _ ← releaseOwnedPartitions workerId
        removeWorkerHeartbeat workerId
        perform .commit)
      (fun _ => Views (NotOf workerId) (MayBeOf workerId)) anything := by
    have hrelease := @releaseOwnedPartitions_notOf rt i (.shutdownWorker workerId) workerId (fun _ => False) rfl
    refine .bind (hrelease.pre fun w T h => ?_) fun _ => .bind (removeWorkerHeartbeat_notOf rfl) fun _ =>
      commit_hasNothing.any.post fun _ w T h => ?_
    · exact .of_committed (fun t ht => by cases h.1.symm.trans ht) fun k hk => hk.elim
    · exact .of_committed (fun t ht => by cases h.1.symm.trans ht) h.2.rows
  have hconnection := Triple.withConnection shutdownSpec_logs .trivial hbody fun _ => commit_hasNothing
  refine .bind (Triple.attempt (hconnection.pre fun _ _ h => ⟨h, trivial⟩)) ?_
  rintro (e | ⟨⟩)
  · dsimp only
    split
    · exact .pure _ fun _ _ _ => trivial
    · exact .throw _ fun _ _ _ => trivial
  · exact .pure _ fun _ _ _ => trivial

/-- The other programs owe nothing. -/
theorem program_handsBack (l : Actor) : Triple (shutdownSpec rt) i l Idle (program rt l) anything anything := by
  cases l with
  | shutdownWorker workerId => exact .bind shutdownWorker_handsBack fun _ => .pure _ fun _ _ _ => trivial
  | _ => exact of_commits shutdownSpec_logs (shutdownSpec_commits fun _ _ (_ : True) _ h => by cases h)

end Program

/-! ## Main result -/

/-- The service with exclusive workers has fewer runs than the service, all with the same rules. -/
theorem serviceOfWorkers_past {clock : Time} {s : ServiceState}
    (hs : (serviceOfWorkers rt).Reachable (emptyState clock) s) : Past rt s.world :=
  past_of_reachable (@serviceOfWorkers_symm rt) hs

/-- In every run, the commits of shutdowns leave their workers nothing. -/
theorem shutdowns_justified {clock : Time} {s : ServiceState}
    (hs : (serviceOfWorkers rt).Reachable (emptyState clock) s) : Justified HandsBack s.world.log := by
  refine (Spec.sound shutdownSpec_lawful (fun i l w _ _ => ?_) ?_ rfl rfl
    (fun _ h => serviceOfWorkers_past h) hs).inv
  case refine_2 => exact Justified.nil
  exact wp_mono (fun _ _ _ _ => trivial) _ w none ((program_handsBack l).sound w none rfl)

/-- A commit of the worker, by an iteration or by its shutdown; the log's first one is the latest. -/
def isCommitOf (workerId : String) (e : LogEntry) : Bool :=
  e.event.commit?.isSome && e.actor.worker? = some workerId

/-- **A shutdown is complete, and nobody undoes it.** Where each worker is one process, a worker whose last
commit is the one of its shutdown has no lease and no heartbeat, whatever was running at the time of the
shutdown and whatever has run since. -/
theorem shutdown_leaves_nothing {clock : Time} {s : ServiceState}
    (hs : (serviceOfWorkers rt).Reachable (emptyState clock) s) {e : LogEntry}
    (hlast : s.world.log.find? (isCommitOf workerId) = some e)
    (hshutdown : e.actor = .shutdownWorker workerId) :
    HasNothing workerId s.world.committed := by
  have hpast := serviceOfWorkers_past hs
  obtain ⟨hlastCommit, newer, older, hlog, hnewer⟩ := List.find?_eq_some_iff_append.mp hlast
  obtain ⟨⟨t, b⟩, hc⟩ := Option.isSome_iff_exists.mp (Bool.and_eq_true_iff.mp hlastCommit).1
  have hchain := hpast.history.chained
  rw [hlog] at hchain
  have hnothing : HasNothing workerId (patch t.writes b) :=
    shutdowns_justified hs newer e older hlog workerId hshutdown t b hc
  -- what is committed after the shutdown is not the worker's
  refine (hchain.cut hc).2.invariant hnothing fun e' he' t' b' hc' hb => ?_
  have hlegal := hpast.legal (hlog ▸ List.mem_append_left _ he') hc'
  refine hb.later (hlegal.gainsNothing fun hworker => ?_)
  have hother := hnewer e' he'
  simp [isCommitOf, hc', hworker] at hother

/-- A worker is shut down while another one goes on. -/
def shutdownState : ServiceState :=
  (serviceOfWorkers sampleRuntime).after (runs 0 (.migrate sampleSettings) ++
    runs 1 (.runLoop sampleSettings "w" 0) ++ runs 2 (.shutdownWorker "w") ++
    runs 3 (.runLoop sampleSettings "v" 0)) (emptyState 0)

/-- The entry is of the worker's shutdown. -/
def isShutdownOf (workerId : String) (e : LogEntry) : Bool :=
  match e.actor with
  | .shutdownWorker workerId' => workerId' = workerId
  | _ => false

theorem isShutdownOf_iff {e : LogEntry} :
    isShutdownOf workerId e = true ↔ e.actor = .shutdownWorker workerId := by
  unfold isShutdownOf
  cases e.actor <;> simp

/-- The worker's last commit in this run is the one of its shutdown, and it has nothing left. -/
theorem shutdown_leaves_nothing_sample :
    (shutdownState.world.log.find? (isCommitOf "w")).any (isShutdownOf "w") = true ∧
      HasNothing "w" shutdownState.world.committed := by
  have hany : (shutdownState.world.log.find? (isCommitOf "w")).any (isShutdownOf "w") = true := by
    decide +kernel
  cases hlast : shutdownState.world.log.find? (isCommitOf "w") with
  | none =>
    rw [hlast] at hany
    cases hany
  | some e =>
    rw [hlast] at hany
    refine ⟨hany, shutdown_leaves_nothing (System.reachable_after _ _) hlast ?_⟩
    exact isShutdownOf_iff.mp hany

end Matchmaking
