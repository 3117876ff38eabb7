import Matchmaking.EntryRules
import Matchmaking.TableConstraints
import Matchmaking.ReadCommitted.Views

/-!
# Every ticket is in a partition that workers can claim

The set-up programs add the partitions before the tenants, tickets are of tenants, and no lease is ever
deleted. So a ticket that is committed is in a partition that has a row in `partition_leases`.
-/

namespace Matchmaking

open ReadCommitted ReadCommitted.Triple

variable {rt : Runtime} {i N : ℕ} {l : Actor} {settings : Settings} {s s' : Tables} {t : Txn Row} {α : Type}

/-! ## Leases of a set-up -/

/-- The rows of `partition_leases` that `matchmaking_partitions` asks for. -/
def IsLeaseBelow (N : ℕ) : Key → Prop
  | .partitionLeases p => p < N
  | _ => False

/-- The rows exist. -/
abbrev Exist (A : Key → Prop) (s : Tables) : Prop := ∀ k, A k → (s.lookup k).isSome = true

theorem Exist.persist (h : Exist (IsLeaseBelow N) s) (hs : Persist s s') : Exist (IsLeaseBelow N) s' := by
  intro k hk
  cases k with
  | partitionLeases p =>
    obtain ⟨v, hv⟩ := Option.isSome_iff_exists.mp (h (.partitionLeases p) hk)
    obtain ⟨v', hv', -⟩ := hs (.partitionLeases p) trivial v hv
    rw [hv']
    rfl
  | _ => exact hk.elim

/-- Set-up for `N` partitions. -/
def SetsUp (N : ℕ) (l : Actor) : Prop :=
  ∃ settings : Settings, (l = .initMain settings ∨ l = .migrate settings) ∧ N ≤ settings.matchmakingPartitions

/-- Each commit of a set-up program leaves the leases of all partitions. -/
def setUpRule : EntryRule where
  due e _ := ∀ N, SetsUp N e.actor → ∀ t b, e.event.commit? = some (t, b) → Exist (IsLeaseBelow N) (patch t.writes b)
  quiet _ _ hcommit _ _ _ _ _ hc := by cases hcommit.symm.trans hc
  mono _ _ _ _ h := h

/-- The session sees the leases. -/
abbrev SeesLeases (A : Key → Prop) : Condition := Views (fun _ v => v.isSome = true) fun k => A k ∧ IsDurable k

theorem seesLeases_stable {A : Key → Prop} : Stable (entrySpec rt setUpRule) i l (SeesLeases A) := by
  refine Views.stable fun w w' hg k hk hrow => ?_
  obtain ⟨v, hv⟩ := Option.isSome_iff_exists.mp hrow
  obtain ⟨v', hv', -⟩ := hg.1.persist k hk.2 v hv
  rw [hv']
  rfl

/-! ## The set-up programs -/

section SetUp

variable {A : Key → Prop}

theorem insertRowIfAbsent_sees {k : Key} {row : Time → Row k} :
    Triple (entrySpec rt setUpRule) i l (SeesLeases A) (insertRowIfAbsent k row)
      (fun _ => SeesLeases fun k' => A k' ∨ k' = k) anything := by
  refine (views_row seesLeases_stable fun now v _ => ?_).post fun _ _ _ h =>
    h.mono fun k' hk => hk.1.imp (fun hA => ⟨hA, hk.2⟩) fun h => h
  cases v <;> exact rfl

theorem insertPartitions_sees (ps : List ℕ) : ∀ A : Key → Prop,
    Triple (entrySpec rt setUpRule) i l (SeesLeases A) (insertPartitions ps)
      (fun _ => SeesLeases fun k => A k ∨ ∃ p ∈ ps, k = .partitionLeases p) anything := by
  induction ps with
  | nil =>
    intro A
    refine .pure _ fun w T h => h.mono fun k hk => ⟨hk.1.resolve_right ?_, hk.2⟩
    rintro ⟨_, hp, -⟩
    cases hp
  | cons p ps ih =>
    intro A
    refine .bind insertRowIfAbsent_sees fun _ => (ih _).post fun _ w T h => h.mono fun k hk => ⟨?_, hk.2⟩
    obtain hA | ⟨p', hp', rfl⟩ := hk.1
    · exact .inl (.inl hA)
    · rcases List.mem_cons.mp hp' with rfl | hp'
      · exact .inl (.inr rfl)
      · exact .inr ⟨p', hp', rfl⟩

theorem insertTenants_sees (rows : List (String × Tenant)) :
    Triple (entrySpec rt setUpRule) i l (SeesLeases A) (insertTenants rows) (fun _ => SeesLeases A) anything := by
  induction rows with
  | nil => exact .pure _ fun _ _ h => h
  | cons row rows ih =>
    exact .bind (insertRowIfAbsent_sees.post fun _ _ _ h => h.mono fun k hk => ⟨.inl hk.1, hk.2⟩) fun _ => ih

theorem upsertTenants_sees (ids : List String) :
    Triple (entrySpec rt setUpRule) i l (SeesLeases A) (upsertTenants settings ids) (fun _ => SeesLeases A)
      anything := by
  induction ids with
  | nil => exact .pure _ fun _ _ h => h
  | cons id ids ih =>
    have hrow : ∀ {k : Key} {row : Time → Option (Row k) → Row k}, Triple (entrySpec rt setUpRule) i l
        (SeesLeases A) (upsertRow k row) (fun _ => SeesLeases A) anything := fun {k row} =>
      .bind ((@views_row _ _ _ _ _ _ _ _ _ _ i l _ _ seesLeases_stable k (fun now old => .put (row now old))
        fun _ _ _ => rfl).post fun _ _ _ h => h.mono fun k hk => .inl hk) fun _ => .pure _ fun _ _ h => h
    exact .bind hrow fun _ => ih

/-- The leases of all partitions that the settings count. -/
abbrev AllLeases (settings : Settings) : Key → Prop := IsLeaseBelow settings.matchmakingPartitions

theorem insertPartitions_all : Triple (entrySpec rt setUpRule) i l (SeesLeases fun _ => False)
    (insertPartitions (List.range settings.matchmakingPartitions)) (fun _ => SeesLeases (AllLeases settings))
    anything := by
  refine (insertPartitions_sees _ _).post fun _ w T h => h.mono fun k hk => ⟨.inr ?_, hk.2⟩
  cases k with
  | partitionLeases p => exact ⟨p, List.mem_range.mpr hk.1, rfl⟩
  | _ => exact hk.1.elim

theorem exist_lasting : (entrySpec rt setUpRule).Lasting i l fun w => Exist (AllLeases settings) w.committed :=
  entrySpec_lasting fun _ _ hg h => h.persist hg.persist

/-- A set-up program may commit once it sees the leases. -/
theorem commit_leases (hl : l = .initMain settings ∨ l = .migrate settings) :
    Triple (entrySpec rt setUpRule) i l (SeesLeases (AllLeases settings)) (perform .commit)
      (fun _ w T => Idle w T ∧ Exist (AllLeases settings) w.committed) fun _ => Idle := by
  have hlease : ∀ {N : ℕ} {k : Key}, IsLeaseBelow N k → IsDurable k := fun {N k} hk => by
    cases k with
    | partitionLeases p => trivial
    | _ => exact hk.elim
  refine (views_commit seesLeases_stable (entrySpec_commits ?_)).post fun _ w T h =>
    ⟨h.1, fun k hk => h.2 k ⟨hk, hlease hk⟩⟩
  rintro w t _ hrows N ⟨settings', hl', hN⟩ _ _ ⟨⟩ k hk
  have hsettings : settings' = settings := by
    rcases hl with rfl | rfl <;> rcases hl' with h | h <;> cases h <;> rfl
  subst hsettings
  refine hrows k ⟨?_, hlease hk⟩
  cases k with
  | partitionLeases p => exact Nat.lt_of_lt_of_le hk hN
  | _ => exact hk.elim

theorem Idle.seesLeases {w : ServiceWorld} {T : Option (Txn Row)} (h : Idle w T) (hA : Exist A w.committed) :
    SeesLeases A w T :=
  .of_committed (fun t ht => by cases h.symm.trans ht) fun k hk => hA k hk.1

theorem Pending.seesLeases {w : ServiceWorld} {T : Option (Txn Row)} {now : Time} (h : Pending now [] [] w T)
    (hA : Exist A w.committed) : SeesLeases A w T := by
  obtain ⟨t, rfl, hhas⟩ := h
  refine .of_committed ?_ fun k hk => hA k hk.1
  rintro _ ⟨⟩
  refine ⟨hhas.live, fun k hk => hhas.unwritten k (fun hindex => ?_) rfl⟩
  cases k with
  | uqActiveTicket => exact hk.2
  | _ => exact hindex

theorem initMain_leases : Triple (entrySpec rt setUpRule) i (.initMain settings) Idle (initMain settings)
    anything anything := by
  have hcommit := @commit_leases rt i (.initMain settings) settings (.inl rfl)
  have hbody : Triple (entrySpec rt setUpRule) i (.initMain settings) (fun w T => Idle w T ∧ True)
      (do
        insertPartitions (List.range settings.matchmakingPartitions)
        upsertTenants settings tenantIds
        perform .commit)
      (fun _ => SeesLeases (AllLeases settings)) anything :=
    .bind (insertPartitions_all.pre fun w T h => h.1.seesLeases fun _ hk => hk.elim) fun _ =>
      .bind (upsertTenants_sees tenantIds) fun _ => hcommit.any.post fun _ _ _ h => h.1.seesLeases h.2
  exact (Triple.withConnection entrySpec_logs .trivial hbody fun _ => hcommit).conseq
    (fun _ _ h => ⟨h, trivial⟩) (fun _ _ _ _ => trivial) fun _ _ _ _ => trivial

theorem migrate_leases : Triple (entrySpec rt setUpRule) i (.migrate settings) Idle (migrate settings)
    anything anything := by
  have hcommit := @commit_leases rt i (.migrate settings) settings (.inr rfl)
  have hpartitions := @Triple.autocommit (entrySpec rt setUpRule) i (.migrate settings) _ _ _ _ _ entrySpec_logs
    .trivial (fun now => (@insertPartitions_all rt i (.migrate settings) settings).pre fun w T
      (h : Pending now [] [] w T ∧ True) => h.1.seesLeases fun _ hk => hk.elim) fun _ => hcommit
  have htenants : ∀ rows, Triple (entrySpec rt setUpRule) i (.migrate settings)
      (fun w T => Idle w T ∧ Exist (AllLeases settings) w.committed) (autocommit (insertTenants rows))
      (fun _ w T => Idle w T ∧ Exist (AllLeases settings) w.committed) anything := fun rows =>
    Triple.autocommit entrySpec_logs exist_lasting (fun now => (insertTenants_sees rows).pre fun w T h =>
      h.1.seesLeases h.2) fun _ => hcommit
  exact .bind (hpartitions.pre fun _ _ h => ⟨h, trivial⟩) fun _ => .bind (htenants _) fun _ =>
    (htenants _).post fun _ _ _ _ => trivial

end SetUp

/-- In every run, the commits of set-up programs leave the leases of all partitions. -/
theorem setUps_justified {clock : Time} {s : ServiceState}
    (hs : (service rt).Reachable (emptyState clock) s) : Justified setUpRule.due s.world.log := by
  refine service_justified (fun i l born => ?_) hs
  have hanswer : ∀ (r : Except Exn Answer) (w : ServiceWorld) time,
      setUpRule.due ⟨i, l, time, .answer born r⟩ w.log := by
    rintro r w time _ _ _ _ ⟨⟩
  have hother : (∀ N, ¬ SetsUp N l) → Triple (entrySpec rt setUpRule) i l
      (fun w T => Idle w T ∧ Since born i w) (program rt l)
      (fun a w _ => ∀ time, setUpRule.due ⟨i, l, time, .answer born (.ok a)⟩ w.log)
      fun e w _ => ∀ time, setUpRule.due ⟨i, l, time, .answer born (.error e)⟩ w.log := fun hl =>
    (of_commits entrySpec_logs (entrySpec_commits fun _ _ _ (_ : True) N h => absurd h (hl N))).conseq
      (fun _ _ h => h) (fun _ w _ _ => hanswer _ w) fun _ w _ _ => hanswer _ w
  cases l with
  | initMain settings =>
    exact (Triple.bind initMain_leases fun _ => .pure Answer.done fun w _ _ => hanswer _ w).conseq
      (fun _ _ h => h.1) (fun _ _ _ h => h) fun _ w _ _ => hanswer _ w
  | migrate settings =>
    exact (Triple.bind migrate_leases fun _ => .pure Answer.done fun w _ _ => hanswer _ w).conseq
      (fun _ _ h => h.1) (fun _ _ _ h => h) fun _ w _ _ => hanswer _ w
  | _ => exact hother fun N ⟨settings, hl, _⟩ => by rcases hl with h | h <;> cases h

/-! ## Main result -/

/-- Only set-up programs write tenants. -/
theorem Legal.tenants_kept (h : Legal rt l t s) (hl : ∀ settings, l ≠ .initMain settings ∧ l ≠ .migrate settings)
    (id : String) : (patch t.writes s).lookup (.tenants id) = s.lookup (.tenants id) := by
  cases h with
  | rows hrows =>
    have hrow := hrows (.tenants id)
    cases l with
    | initMain settings => exact absurd rfl (hl settings).1
    | migrate settings => exact absurd rfl (hl settings).2
    | cancelTicket xTenantId text =>
      cases xTenantId <;> exact hrow
    | _ => exact hrow
  | pair n hn hurl hchanged =>
    exact hchanged.frame (.tenants id) (fun h => h) (by simp [NewMatch.changes, List.dlookup_cons_ne])
  | claim tie σ hσ hrows => exact hrows (.tenants id)
  | outcome o eventId e m hm hchanged =>
    exact hchanged.frame (.tenants id) (fun h => h) (o.dlookup_eq_none _ _ _ _ (by simp) (by simp))
  | create n htenant hkey hbody hpart hknown hchanged =>
    exact hchanged.frame (.tenants id) (fun h => h) (n.dlookup_eq_none _ (by simp) (by simp))

/-- All set-up programs of a run count at least `N` partitions. -/
def SetUpFor (N : ℕ) (log : List LogEntry) : Prop :=
  ∀ e ∈ log, ∀ settings, e.actor = .initMain settings ∨ e.actor = .migrate settings →
    N ≤ settings.matchmakingPartitions

/-- Where there are tenants, there are the leases of all partitions. -/
theorem leases_exist {clock : Time} {s : ServiceState} (hs : (service rt).Reachable (emptyState clock) s)
    (hsetup : SetUpFor N s.world.log) {tenantId : String}
    (htenant : (s.world.committed.lookup (.tenants tenantId)).isSome = true) :
    Exist (IsLeaseBelow N) s.world.committed := by
  have hpast := service_past hs
  have hinv : ∀ tenantId, (s.world.committed.lookup (.tenants tenantId)).isSome = true →
      Exist (IsLeaseBelow N) s.world.committed := by
    refine hpast.history.chained.invariant (I := fun s => ∀ tenantId, (s.lookup (.tenants tenantId)).isSome = true →
      Exist (IsLeaseBelow N) s) (fun _ h => by cases h) fun e he t b hc hb tenantId htenant => ?_
    by_cases hl : ∃ settings, e.actor = .initMain settings ∨ e.actor = .migrate settings
    · obtain ⟨settings, hl⟩ := hl
      obtain ⟨newer, older, hlog⟩ := List.append_of_mem he
      exact setUps_justified hs newer e older hlog N ⟨settings, hl, hsetup e he settings hl⟩ t b hc
    · have hlegal := hpast.legal he hc
      rw [hlegal.tenants_kept fun settings => ⟨fun h => hl ⟨settings, .inl h⟩, fun h => hl ⟨settings, .inr h⟩⟩]
        at htenant
      exact (hb tenantId htenant).persist hlegal.persist
  exact hinv tenantId htenant

theorem computePartitionId_lt (hN : 0 < N) (tenantId region queueName : String) :
    computePartitionId rt tenantId region queueName N < N := Nat.mod_lt _ hN

/-- **No ticket is out of the workers' reach.** If the ticket requests of a run count `N` partitions and its
set-up programs at least as many, every committed ticket and match is in a partition below `N` that has a
row in `partition_leases`. -/
theorem tickets_have_leases {clock : Time} {s : ServiceState}
    (hs : (service rt).Reachable (emptyState clock) s) (hpos : 0 < N) (hN : PartitionsAre N s.world.log)
    (hsetup : SetUpFor N s.world.log) :
    (∀ id tk, s.world.committed.lookup (.tickets id) = some tk → tk.partitionId < N ∧
      (s.world.committed.lookup (.partitionLeases tk.partitionId)).isSome = true) ∧
    ∀ m row, s.world.committed.lookup (.matches m) = some row → row.partitionId < N ∧
      (s.world.committed.lookup (.partitionLeases row.partitionId)).isSome = true := by
  have hpast := service_past hs
  have hplaced := hpast.placed hN
  have hknown : TicketsKnown s.world.committed :=
    hpast.invariant (fun _ _ h => by cases h) fun _ _ _ => Legal.ticketsKnown
  have hlease : ∀ {id tk p}, s.world.committed.lookup (.tickets id) = some tk → p < N →
      (s.world.committed.lookup (.partitionLeases p)).isSome = true := fun htk hp =>
    leases_exist hs hsetup (hknown _ _ htk) (.partitionLeases _) hp
  constructor
  · intro id tk htk
    have hlt : tk.partitionId < N := by
      rw [hplaced.tickets id tk htk]
      exact computePartitionId_lt hpos ..
    exact ⟨hlt, hlease htk hlt⟩
  · intro m row hrow
    have hlt : row.partitionId < N := by
      rw [hplaced.matchRows m row hrow]
      exact computePartitionId_lt hpos ..
    obtain ⟨a, _, -, hplayers⟩ := hpast.outbox.paired.players m row hrow
    obtain ⟨tk, _, htk, -⟩ := hpast.outbox.paired.player m a ((hplayers a).mpr (.inl rfl))
    exact ⟨hlt, hlease htk hlt⟩

/-- The actor counts one partition. -/
def countsOne (e : LogEntry) : Bool :=
  match e.actor with
  | .initMain settings | .migrate settings | .createTicket settings .. => settings.matchmakingPartitions = 1
  | _ => true

/-- In the sample run, set up for one partition, a ticket is created and its partition has a lease row. -/
theorem tickets_have_leases_sample : (sampleState.world.committed.lookup (.tickets 0x16)).isSome = true ∧
    ∀ id tk, sampleState.world.committed.lookup (.tickets id) = some tk → tk.partitionId < 1 ∧
      (sampleState.world.committed.lookup (.partitionLeases tk.partitionId)).isSome = true := by
  have hall : sampleState.world.log.all countsOne = true := by decide +kernel
  have hone : ∀ e ∈ sampleState.world.log, countsOne e = true := List.all_eq_true.mp hall
  refine ⟨by decide +kernel, (tickets_have_leases sampleState_reachable Nat.one_pos ?_ ?_).1⟩
  · intro e he settings xTenantId key body hl
    have hcount := hone e he
    unfold countsOne at hcount
    rw [hl] at hcount
    exact of_decide_eq_true hcount
  · intro e he settings hl
    have hcount := hone e he
    unfold countsOne at hcount
    rcases hl with hl | hl <;> rw [hl] at hcount <;> exact (of_decide_eq_true hcount).ge

end Matchmaking
