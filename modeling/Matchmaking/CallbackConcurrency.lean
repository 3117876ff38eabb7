import Matchmaking.CallbackClaims
import Matchmaking.Dispatcher.Snapshots

/-!
# The limit on callbacks in flight

A claim counts the events of a tenant that are in flight in its snapshot. The limit holds as long as no
claim takes an event of a tenant while another event of that tenant is in flight that it has not
counted.
-/

namespace Matchmaking

open ReadCommitted

variable {rt : Runtime} {l : Actor} {t : Txn Row} {b s : Tables} {tenantId : String} {now : Time}
  {N : ℕ}

/-! ## Events in flight -/

/-- The events of the tenant that are in flight. -/
def inFlightOf (now : Time) (tenantId : String) (s : Tables) : List UUID :=
  ((rowsOf eventRow s).filter fun (_, e) => e.isInFlight now && e.tenantId = tenantId).map Prod.fst

theorem mem_inFlightOf {e : UUID} : e ∈ inFlightOf now tenantId s ↔
    ∃ row, s.lookup (.callbackEvents e) = some row ∧ row.isInFlight now = true ∧
      row.tenantId = tenantId := by
  simp only [inFlightOf, List.mem_map, List.mem_filter, Bool.and_eq_true, decide_eq_true_eq]
  constructor
  · rintro ⟨⟨e, row⟩, ⟨hrow, hflight, htenant⟩, rfl⟩
    exact ⟨row, mem_rowsOf_eventRow.mp hrow, hflight, htenant⟩
  · rintro ⟨row, hrow, hflight, htenant⟩
    exact ⟨(e, row), ⟨mem_rowsOf_eventRow.mpr hrow, hflight, htenant⟩, rfl⟩

theorem inFlightOf_nodup : (inFlightOf now tenantId s).Nodup :=
  (eventIds_nodup s).sublist (List.filter_sublist.map _)

/-- The number that a claim computes. -/
theorem length_inFlightOf : (inFlightOf now tenantId s).length
    = (((rowsOf eventRow s).filter fun (_, e) => e.isInFlight now).map
        fun (_, e) => e.tenantId).count tenantId := by
  rw [inFlightOf, List.length_map, List.count, List.countP_map, ← List.countP_eq_length_filter,
    List.countP_filter]
  refine List.countP_congr fun p _ => ?_
  simp [and_comm]

/-- Locks only expire. -/
theorem CallbackEventRow.isInFlight_anti {row : CallbackEventRow} {earlier : Time} (h : earlier ≤ now)
    (hrow : row.isInFlight now = true) : row.isInFlight earlier = true := by
  simp only [isInFlight, Bool.and_eq_true, decide_eq_true_eq] at hrow ⊢
  refine ⟨hrow.1, ?_⟩
  obtain ⟨u, hu, hnow⟩ := Option.any_eq_true _ _ |>.mp hrow.2
  rw [hu, Option.any_some, decide_eq_true_eq]
  exact Int.lt_of_le_of_lt h (of_decide_eq_true hnow)

/-! ## Ranks -/

/-- The eligible events of one tenant, with their ranks. -/
def rankedOf (tenantId : String) (n : ℕ) (rows : List (UUID × String × ℕ)) :
    List (UUID × String × ℕ) :=
  rows.filter fun p => p.2.1 = tenantId && p.2.2 ≤ n

/-- A tenant has one event of each rank. -/
theorem length_rankedOf (n : ℕ) (rows : List (UUID × CallbackEventRow)) (before : List String) :
    (rankedOf tenantId n (rowNumbers rows before)).length ≤ n - before.count tenantId := by
  induction rows generalizing before with
  | nil => exact Nat.zero_le _
  | cons p rows ih =>
    obtain ⟨id, row⟩ := p
    have hrest := ih (row.tenantId :: before)
    by_cases htenant : row.tenantId = tenantId
    · rw [htenant, List.count_cons_self] at hrest
      simp only [rowNumbers, rankedOf, List.filter_cons, htenant, decide_true, Bool.true_and,
        decide_eq_true_eq]
      split
      · next hrank =>
        rw [List.length_cons]
        have hrest : (rankedOf tenantId n (rowNumbers rows (tenantId :: before))).length
            ≤ n - (before.count tenantId + 1) := hrest
        unfold rankedOf at hrest
        omega
      · exact Nat.le_trans hrest (by omega)
    · rw [List.count_cons_of_ne htenant] at hrest
      simp only [rowNumbers, rankedOf, List.filter_cons, htenant, decide_false, Bool.false_and,
        Bool.false_eq_true, if_false]
      exact hrest

theorem mem_rowNumbers_tenant {id : UUID} {p : String × ℕ} {rows : List (UUID × CallbackEventRow)}
    {before : List String} (h : (id, p) ∈ rowNumbers rows before) :
    ∃ row, (id, row) ∈ rows ∧ p.1 = row.tenantId ∧ 1 ≤ p.2 := by
  induction rows generalizing before with
  | nil => cases h
  | cons r rows ih =>
    obtain ⟨id', row⟩ := r
    rcases List.mem_cons.mp h with heq | h
    · obtain ⟨rfl, rfl⟩ := Prod.mk.inj heq
      exact ⟨row, List.mem_cons_self, rfl, Nat.le_add_left 1 _⟩
    · obtain ⟨row, hrow, hp⟩ := ih h
      exact ⟨row, List.mem_cons_of_mem _ hrow, hp⟩

/-- The events of a tenant that are due in a snapshot and within the limit `n`. -/
def withinLimit (tie : UUID → ℕ) (now : Time) (s : Tables) (tenantId : String) (n : ℕ) : List UUID :=
  (rankedOf tenantId n (rowNumbers (orderBy (dueOrder tie)
    ((rowsOf eventRow s).filter fun (_, e) => e.isDue now)) [])).map Prod.fst

theorem length_withinLimit {tie : UUID → ℕ} {n : ℕ} :
    (withinLimit tie now s tenantId n).length ≤ n := by
  rw [withinLimit, List.length_map]
  exact length_rankedOf n _ []

/-- Eligible events are within what the events in flight leave of the limit. -/
theorem mem_withinLimit {settings : Settings} {tie : UUID → ℕ} {e : UUID} {row : CallbackEventRow}
    (h : e ∈ eligible settings tie now s) (hrow : s.lookup (.callbackEvents e) = some row) :
    e ∈ withinLimit tie now s row.tenantId
        (settings.callbackTenantConcurrencyLimit - (inFlightOf now row.tenantId s).length) ∧
      (inFlightOf now row.tenantId s).length < settings.callbackTenantConcurrencyLimit := by
  obtain ⟨⟨id, tenant, rn⟩, hmem, rfl⟩ := List.mem_map.mp h
  obtain ⟨hranked, hallowed⟩ := List.mem_filter.mp (mem_orderBy.mp (List.mem_of_mem_take hmem))
  obtain ⟨row', hmem', rfl, hrn⟩ := mem_rowNumbers_tenant hranked
  have hrow' := mem_rowsOf_eventRow.mp (List.mem_filter.mp (mem_orderBy.mp hmem')).1
  obtain rfl := Option.some.inj (hrow.symm.trans hrow')
  have hallowed : rn + (inFlightOf now row.tenantId s).length
      ≤ settings.callbackTenantConcurrencyLimit := by
    rw [length_inFlightOf]
    exact of_decide_eq_true hallowed
  have hrn : 1 ≤ rn := hrn
  refine ⟨List.mem_map.mpr ⟨_, List.mem_filter.mpr ⟨hranked, ?_⟩, rfl⟩, by omega⟩
  rw [Bool.and_eq_true, decide_eq_true_eq, decide_eq_true_eq]
  exact ⟨rfl, show rn ≤ _ by omega⟩

/-! ## The condition -/

/-- The commit of `t` on `b` takes the event `e` of the tenant. -/
def Takes (l : Actor) (t : Txn Row) (b : Tables) (tenantId : String) (e : UUID) : Prop :=
  ∃ d row row', Claims l t b d e row row' ∧ row' ≠ row ∧ row.tenantId = tenantId

/-- The limit that an actor works with, if it is a dispatcher. -/
def Actor.concurrencyLimit? : Actor → Option ℕ
  | .runOnce settings _ => some settings.callbackTenantConcurrencyLimit
  | _ => none

/-- All dispatchers of the run are configured with the limit `N`. -/
def ConcurrencyLimited (N : ℕ) (log : List LogEntry) : Prop :=
  ∀ entry ∈ log, ∀ n ∈ entry.actor.concurrencyLimit?, n = N

/-- Whoever takes an event of a tenant has counted all of the tenant's events that are in flight when
its claim is committed and that it does not take itself. -/
def CountsAll (log : List LogEntry) : Prop :=
  ∀ entry ∈ log, ∀ t b, entry.event.commit? = some (t, b) → ∀ tenantId e,
    Takes entry.actor t b tenantId e → ∀ σ ∈ t.reads, ∀ f ∈ inFlightOf entry.time tenantId b,
      ¬ Takes entry.actor t b tenantId f → f ∈ inFlightOf t.start tenantId σ

/-! ## One commit -/

/-- An event in flight after a commit was in flight before, or the commit takes it. -/
theorem Legal.inFlight (h : Legal rt l t b) {e : UUID}
    (he : e ∈ inFlightOf now tenantId (patch t.writes b)) :
    e ∈ inFlightOf now tenantId b ∨ Takes l t b tenantId e := by
  obtain ⟨row', hrow', hflight, rfl⟩ := mem_inFlightOf.mp he
  have hst : row'.status = .inProgress := by
    simp only [CallbackEventRow.isInFlight, Bool.and_eq_true, decide_eq_true_eq] at hflight
    exact hflight.1
  obtain hrow | ⟨d, row, hclaims⟩ := h.inProgress hrow' hst
  · exact .inl (mem_inFlightOf.mpr ⟨row', hrow, hflight, rfl⟩)
  · by_cases hne : row' = row
    · exact .inl (mem_inFlightOf.mpr ⟨row', hne ▸ hclaims.found, hflight, rfl⟩)
    · refine .inr ⟨d, row, row', hclaims, hne, ?_⟩
      obtain ⟨settings, -, rfl⟩ := hclaims.dispatcher
      rfl

/-- A commit that counts all keeps the limit. -/
theorem CountsAll.step {w : ServiceWorld} (h : CountsAll w.log) (hpast : Past rt w)
    (hkept : SnapshotsKept w.log) (hlimit : ConcurrencyLimited N w.log) {entry : LogEntry}
    (hentry : entry ∈ w.log) (hc : entry.event.commit? = some (t, b)) (hnow : entry.time ≤ now)
    (hb : (inFlightOf now tenantId b).length ≤ N) :
    (inFlightOf now tenantId (patch t.writes b)).length ≤ N := by
  have hlegal := hpast.legal hentry hc
  by_cases htakes : ∃ e, Takes entry.actor t b tenantId e
  swap
  · -- nothing of this tenant is taken
    refine Nat.le_trans (List.subperm_of_subset inFlightOf_nodup fun f hf => ?_).length_le hb
    exact (hlegal.inFlight hf).resolve_right fun hf => htakes ⟨f, hf⟩
  obtain ⟨e, d, row, row', hclaims, hne, htenant⟩ := htakes
  obtain ⟨settings, tie, σ, hactor, hσ, heligible⟩ := hlegal.eligible_of_claims hclaims hne
  have hmem : σ ∈ t.reads := hσ ▸ List.mem_cons_self
  -- the row that was taken had the same tenant in the snapshot
  have hkeeps : EventsKept σ b := hkept entry hentry settings d hactor t b hc σ hmem
  have hN : settings.callbackTenantConcurrencyLimit = N :=
    hlimit entry hentry _ (by rw [hactor]; exact rfl)
  -- what is taken of this tenant is due in the snapshot, as an event of this tenant
  have htaken : ∀ f, Takes entry.actor t b tenantId f →
      f ∈ withinLimit tie t.start σ tenantId (N - (inFlightOf t.start tenantId σ).length) ∧
        (inFlightOf t.start tenantId σ).length < N := by
    rintro f ⟨d, row, row', hclaims, hne, rfl⟩
    have hf := heligible d f row row' hclaims hne
    obtain ⟨seen, hseen, -⟩ := isDue_of_eligible hf
    obtain ⟨row₂, hrow₂, hidentity⟩ := hkeeps f trivial seen hseen
    obtain rfl := Option.some.inj (hclaims.found.symm.trans hrow₂)
    have hsame : row.tenantId = seen.tenantId := congrArg Prod.fst hidentity
    rw [hsame, ← hN]
    exact mem_withinLimit hf hseen
  have hroom := (htaken e ⟨d, row, row', hclaims, hne, htenant⟩).2
  -- in flight after the commit: what the snapshot counted, and what was taken on top of it
  have hsub : inFlightOf now tenantId (patch t.writes b) ⊆ inFlightOf t.start tenantId σ ++
      withinLimit tie t.start σ tenantId (N - (inFlightOf t.start tenantId σ).length) := by
    intro f hf
    by_cases hft : Takes entry.actor t b tenantId f
    · exact List.mem_append_right _ (htaken f hft).1
    · obtain ⟨rowf, hrowf, hflight, htenantf⟩ :=
        mem_inFlightOf.mp ((hlegal.inFlight hf).resolve_right hft)
      refine List.mem_append_left _ (h entry hentry t b hc tenantId e
        ⟨d, row, row', hclaims, hne, htenant⟩ σ hmem f ?_ hft)
      exact mem_inFlightOf.mpr ⟨rowf, hrowf, CallbackEventRow.isInFlight_anti hnow hflight, htenantf⟩
  have hle := (List.subperm_of_subset inFlightOf_nodup hsub).length_le
  have hwithin : (withinLimit tie t.start σ tenantId
      (N - (inFlightOf t.start tenantId σ).length)).length
        ≤ N - (inFlightOf t.start tenantId σ).length := length_withinLimit
  rw [List.length_append] at hle
  omega

/-! ## Runs -/

/-- No tenant has more than `N` events in flight. -/
def WithinConcurrency (N : ℕ) (now : Time) (s : Tables) : Prop :=
  ∀ tenantId, (inFlightOf now tenantId s).length ≤ N

/-- **The limit on callbacks in flight.** In a run of dispatchers with the limit `N` in which all claims
count all, every tenant has at most `N` events in flight at any time. A claim counts all if what is in
flight when it commits was in flight in its snapshot; a claim that overlaps another one may miss what that
one takes. -/
theorem in_flight_limited {clock : Time} {s : ServiceState}
    (hs : (service rt).Reachable (emptyState clock) s) (hlimit : ConcurrencyLimited N s.world.log)
    (hcounts : CountsAll s.world.log) : WithinConcurrency N s.world.clock s.world.committed := by
  have hpast := service_past hs
  have hkept : SnapshotsKept s.world.log := snapshots_kept (fun _ _ => rfl) hs
  have hrun : ∀ m, Chained ∅ s.world.log m → WithinConcurrency N s.world.clock m := by
    intro m hm
    refine hm.invariant (fun _ => Nat.zero_le N) fun entry hentry t b hc hb tenantId => ?_
    exact hcounts.step hpast hkept hlimit hentry hc (hpast.history.past entry hentry) (hb tenantId)
  exact hrun _ hpast.history.chained

/-- The commit finds no event in flight, or leaves none in progress. -/
def countsTrivially (entry : LogEntry) : Bool :=
  entry.event.commit?.all fun (t, b) =>
    (rowsOf eventRow b).all (fun p => !p.2.isInFlight entry.time) ||
      (rowsOf eventRow (patch t.writes b)).all fun p => p.2.status ≠ .inProgress

theorem countsAll_of_trivially {log : List LogEntry} (h : log.all countsTrivially = true) :
    CountsAll log := by
  rintro entry hentry t b hc tenantId e ⟨d, row, row', hclaims, -, -⟩ σ hσ f hf
  have hcheck := List.all_eq_true.mp h entry hentry
  rw [countsTrivially, hc, Option.all_some, Bool.or_eq_true] at hcheck
  obtain hnone | hnone := hcheck
  · obtain ⟨rowf, hrowf, hflight, -⟩ := mem_inFlightOf.mp hf
    have hfree := List.all_eq_true.mp hnone (f, rowf) (mem_rowsOf_eventRow.mpr hrowf)
    have hfree : (!rowf.isInFlight entry.time) = true := hfree
    rw [hflight] at hfree
    cases hfree
  · have hfree := List.all_eq_true.mp hnone (e, row') (mem_rowsOf_eventRow.mpr hclaims.lookup_patch)
    exact absurd hclaims.status (of_decide_eq_true hfree)

/-- In the sample run, whose claims find nothing in flight, no tenant has more than the ten events that the
settings allow. -/
theorem in_flight_limited_sample :
    WithinConcurrency 10 sampleState.world.clock sampleState.world.committed :=
  in_flight_limited sampleState_reachable (by unfold ConcurrencyLimited; decide +kernel)
    (countsAll_of_trivially (by decide +kernel))

/-! ## An event that comes late -/

/-- A tenant may have one event in flight; two workers with one partition each. -/
def oneSettings : Settings :=
  { matchmakingPartitions := 2, workerPartitionBatchSize := 1, callbackTenantConcurrencyLimit := 1 }

/-- Tickets of different queues go to different partitions. -/
def lengthRuntime : Runtime :=
  { sampleRuntime with sha256 := fun text => BitVec.ofNat 256 (text.length * 2 ^ 192) }

/-- A ticket request of a player. -/
def oneRequest (playerId region : String) : Actor :=
  .createTicket oneSettings (some "studio_a") none ⟨playerId, region, "ranked", 0⟩

/-- Worker `v` opens the transaction of its match; one second later `w` makes its match, and `a` takes
the event of that. Then `v` commits its match, whose event is older, and `b` claims that event before
`a` commits. -/
def lateEventScript : List (System.Move Reply Exn Actor) :=
  runs 0 (.migrate oneSettings) ++ runs 1 (oneRequest "p1" "eu") ++ runs 2 (oneRequest "p2" "eu") ++
    runs 3 (oneRequest "p3" "usa") ++ runs 4 (oneRequest "p4" "usa") ++
    [.act (.start (.runLoop oneSettings "v" 0)), .advance sampleReply 5 46, .act (.tick 1000000),
      .act (.start (.runLoop oneSettings "w" 1)), .advance sampleReply 6 200,
      .act (.start (.runOnce oneSettings "a")), .advance sampleReply 7 4,
      .advance sampleReply 5 200,
      .act (.start (.runOnce oneSettings "b")), .advance sampleReply 8 8, .advance sampleReply 7 4]

def lateEventState : ServiceState := (service lengthRuntime).after lateEventScript (emptyState 0)

theorem lateEventState_reachable : (service lengthRuntime).Reachable (emptyState 0) lateEventState :=
  System.reachable_after lateEventScript _

/-- A tenant has two events in flight where one is allowed. -/
theorem limit_overrun : (service lengthRuntime).Reachable (emptyState 0) lateEventState ∧
    ConcurrencyLimited 1 lateEventState.world.log ∧
      ¬ WithinConcurrency 1 lateEventState.world.clock lateEventState.world.committed := by
  refine ⟨lateEventState_reachable, by unfold ConcurrencyLimited; decide +kernel, fun h => ?_⟩
  have htwo : (inFlightOf lateEventState.world.clock "studio_a" lateEventState.world.committed).length
      = 2 := by decide +kernel
  have hone := h "studio_a"
  rw [htwo] at hone
  omega

end Matchmaking
