import Matchmaking.Refinement
import Matchmaking.ReadCommitted.Amid
import Matchmaking.SortedPrefix
import Mathlib.Data.Nat.ModEq

/-!
# The effect of a lease transaction

What the five statements of a lease transaction leave in the tables, whatever other sessions do that
carry out no lease transaction at the time: each statement reads what the ones before it wrote.
-/

namespace Matchmaking

open ReadCommitted SortedPrefix

/-- The rows that lease transactions work on: leases and heartbeats. -/
def IsLeaseKey : Key → Prop
  | .partitionLeases _ | .workerHeartbeats _ => True
  | _ => False

/-! ## Tables of leases -/

/-- The table has the partitions below `n`, and no others. -/
def HasPartitions (n : ℕ) (s : Tables) : Prop := ∀ p, (s.lookup (.partitionLeases p)).isSome = true ↔ p < n

/-- The partitions whose rows satisfy a condition, as a set that can be counted. -/
def partitionsWith (n : ℕ) (cond : PartitionLease → Bool) (s : Tables) : Finset ℕ :=
  (Finset.range n).filter fun p => (s.lookup (.partitionLeases p)).any cond

/-- The partitions with an unexpired lease of the worker, which are those that it fetches tickets from. -/
def heldBy (workerId : String) (now : Time) (n : ℕ) (s : Tables) : Finset ℕ :=
  partitionsWith n (fun v => v.isOwnedBy workerId && v.isLive now) s

/-- The partitions that are unowned or whose lease has expired. -/
def availableAt (now : Time) (n : ℕ) (s : Tables) : Finset ℕ :=
  partitionsWith n (fun v => v.isAvailable now) s

section Tables

variable {n p : ℕ} {s s' : Tables} {cond : PartitionLease → Bool} {workerId : String} {now : Time}

/-- With all partitions there, a list of partitions is decided by the condition on their rows. -/
theorem HasPartitions.mem (h : HasPartitions n s) :
    p ∈ partitionsWith n cond s ↔ ∃ v, s.lookup (.partitionLeases p) = some v ∧ cond v = true := by
  rw [partitionsWith, Finset.mem_filter, Finset.mem_range, Option.any_eq_true]
  exact and_iff_right_of_imp fun ⟨v, hv, _⟩ => (h p).mp (by rw [hv]; rfl)

/-- The rows `ps` are updated by `set`, and no others are changed. -/
structure LeasesUpdated (set : PartitionLease → PartitionLease) (ps : List ℕ) (s s' : Tables) : Prop where
  changed : ∀ p ∈ ps, ∃ v, s.lookup (.partitionLeases p) = some v ∧
    s'.lookup (.partitionLeases p) = some (set v)
  same : ∀ k, (∀ p ∈ ps, k ≠ .partitionLeases p) → s'.lookup k = s.lookup k

namespace LeasesUpdated

variable {set : PartitionLease → PartitionLease} {ps : List ℕ}

/-- An UPDATE that finds no row changes nothing. -/
theorem nil (set : PartitionLease → PartitionLease) (s : Tables) : LeasesUpdated set [] s s :=
  ⟨fun _ hp => (List.not_mem_nil hp).elim, fun _ _ => rfl⟩

/-- An UPDATE of several rows is that of the first, followed by that of the others. -/
theorem cons {v : PartitionLease} (hv : s.lookup (.partitionLeases p) = some v) (hp : p ∉ ps)
    (h : LeasesUpdated set ps (writeRow ⟨.partitionLeases p, some (set v)⟩ s) s') :
    LeasesUpdated set (p :: ps) s s' where
  changed q hq := by
    obtain rfl | hq := List.mem_cons.mp hq
    · refine ⟨v, hv, (h.same _ fun r hr heq => ?_).trans (lookup_writeRow_self _ _ _)⟩
      cases heq
      exact hp hr
    · obtain ⟨u, hu, hu'⟩ := h.changed q hq
      refine ⟨u, (lookup_writeRow_ne (fun heq => ?_) s).symm.trans hu, hu'⟩
      cases heq
      exact hp hq
  same k hk := by
    rw [h.same k fun q hq => hk q (List.mem_cons_of_mem _ hq)]
    exact lookup_writeRow_ne (hk p List.mem_cons_self) s

/-- Leases that are not updated stay as they are. -/
theorem lease (h : LeasesUpdated set ps s s') (hp : p ∉ ps) :
    s'.lookup (.partitionLeases p) = s.lookup (.partitionLeases p) :=
  h.same _ fun q hq heq => by
    cases heq
    exact hp hq

/-- An UPDATE of leases leaves the heartbeats alone. -/
theorem heartbeat (h : LeasesUpdated set ps s s') :
    s'.lookup (.workerHeartbeats workerId) = s.lookup (.workerHeartbeats workerId) :=
  h.same _ fun _ _ heq => by cases heq

theorem hasPartitions (h : LeasesUpdated set ps s s') (hs : HasPartitions n s) : HasPartitions n s' := by
  intro p
  rw [← hs p]
  by_cases hp : p ∈ ps
  · obtain ⟨v, hv, hv'⟩ := h.changed p hp
    rw [hv, hv']
    exact Iff.rfl
  · rw [h.lease hp]

end LeasesUpdated

end Tables

/-! ## Statements -/

section Statements

variable {i : ℕ} {l : Actor} {w : ServiceWorld} {T : Option (Txn Row)} {now : Time} {s : Tables}
  {workerId : String} {n leaseSeconds : ℕ} {ps : List ℕ}

/-- The heartbeat is inserted, or gets the time of the transaction. -/
theorem recordWorkerHeartbeat_yields (h : SeesOwn IsLeaseKey now s w T) :
    Client.Yields IsLeaseKey i l (recordWorkerHeartbeat workerId) (fun _ w' T' =>
      SeesOwn IsLeaseKey now (writeRow ⟨.workerHeartbeats workerId, some ⟨now⟩⟩ s) w' T') w T :=
  .bind (.row trivial h fun _ _ h' => .pure h')

/-- The rows of a query. -/
theorem selectLeases_yields {cond : Time → ℕ → PartitionLease → Bool} (h : SeesOwn IsLeaseKey now s w T) :
    Client.Yields IsLeaseKey i l (selectLeases cond) (fun ps w' T' => SeesOwn IsLeaseKey now s w' T' ∧
      ps.Nodup ∧ ∀ p, p ∈ ps ↔ ∃ v, s.lookup (.partitionLeases p) = some v ∧ cond now p v = true) w T := by
  refine .select h fun u w' T' hu h' => ⟨h', ?_, fun p => ?_⟩
  · exact (partitionIds_nodup u).sublist (List.filter_sublist.map _)
  · have hrow : u.lookup (.partitionLeases p) = s.lookup (.partitionLeases p) := hu _ trivial
    rw [← hrow]
    simp only [List.mem_map, List.mem_filter, Prod.exists, exists_and_right, exists_eq_right,
      mem_rowsOf_leaseRow]

/-- An update of rows that satisfy its condition updates them all. -/
theorem updateLeases_yields {cond : Time → PartitionLease → Bool}
    {set : Time → PartitionLease → PartitionLease} (hnodup : ps.Nodup)
    (hcond : ∀ p ∈ ps, ∃ v, s.lookup (.partitionLeases p) = some v ∧ cond now v = true)
    (h : SeesOwn IsLeaseKey now s w T) : Client.Yields IsLeaseKey i l (updateLeases cond set ps)
      (fun _ w' T' => ∃ s', LeasesUpdated (set now) ps s s' ∧ SeesOwn IsLeaseKey now s' w' T') w T := by
  induction ps generalizing s w T with
  | nil => exact .pure ⟨s, .nil _ s, h⟩
  | cons p ps ih =>
    obtain ⟨hp, hnodup⟩ := List.nodup_cons.mp hnodup
    obtain ⟨v, hv, hc⟩ := hcond p List.mem_cons_self
    refine .bind (.row trivial h fun w₁ T₁ => ?_)
    rw [hv]
    dsimp only
    rw [if_pos hc]
    intro h₁
    refine .bind ((ih hnodup (fun q hq => ?_) h₁).mono fun rest w₂ T₂ h₂ => .pure ?_)
    · obtain ⟨u, hu, hc'⟩ := hcond q (List.mem_cons_of_mem _ hq)
      refine ⟨u, (lookup_writeRow_ne (fun heq => ?_) s).trans hu, hc'⟩
      cases heq
      exact hp hq
    · obtain ⟨s', hs', h₂⟩ := h₂
      exact ⟨s', hs'.cons hv hp, h₂⟩

/-- The first of the candidates are claimed, as long as all are available. -/
theorem claimLeases_yields {batchSize : ℕ} (hnodup : ps.Nodup)
    (hcond : ∀ p ∈ ps, ∃ v, s.lookup (.partitionLeases p) = some v ∧ v.isAvailable now = true)
    (h : SeesOwn IsLeaseKey now s w T) :
    Client.Yields IsLeaseKey i l (claimLeases workerId leaseSeconds batchSize ps) (fun _ w' T' => ∃ s',
      LeasesUpdated (PartitionLease.claimed workerId leaseSeconds now) (ps.take batchSize) s s' ∧
        SeesOwn IsLeaseKey now s' w' T') w T := by
  induction ps generalizing batchSize s w T with
  | nil =>
    cases batchSize <;> exact .pure ⟨s, .nil _ s, h⟩
  | cons p ps ih =>
    cases batchSize with
    | zero => exact .pure ⟨s, .nil _ s, h⟩
    | succ n =>
      obtain ⟨hp, hnodup⟩ := List.nodup_cons.mp hnodup
      obtain ⟨v, hv, hc⟩ := hcond p List.mem_cons_self
      refine .bind (.row trivial h fun w₁ T₁ => ?_)
      rw [hv]
      dsimp only
      rw [if_pos hc]
      intro h₁
      refine .bind ((ih hnodup (fun q hq => ?_) h₁).mono fun rest w₂ T₂ h₂ => .pure ?_)
      · obtain ⟨u, hu, hc'⟩ := hcond q (List.mem_cons_of_mem _ hq)
        refine ⟨u, (lookup_writeRow_ne (fun heq => ?_) s).trans hu, hc'⟩
        cases heq
        exact hp hq
      · obtain ⟨s', hs', h₂⟩ := h₂
        exact ⟨s', hs'.cons hv fun hmem => hp (List.mem_of_mem_take hmem), h₂⟩

/-- The leases of the worker are renewed. -/
theorem renewOwnedPartitions_yields (hs : HasPartitions n s) (h : SeesOwn IsLeaseKey now s w T) :
    Client.Yields IsLeaseKey i l (renewOwnedPartitions workerId leaseSeconds) (fun _ w' T' => ∃ ps s',
      (∀ p, p ∈ ps ↔ p ∈ heldBy workerId now n s) ∧ LeasesUpdated (PartitionLease.renewed leaseSeconds now) ps s s' ∧
        SeesOwn IsLeaseKey now s' w' T') w T := by
  refine .bind ((selectLeases_yields h).mono fun ps w₁ T₁ h₁ => .bind ?_)
  obtain ⟨h₁, hnodup, hmem⟩ := h₁
  refine (updateLeases_yields hnodup (fun p hp => (hmem p).mp hp) h₁).mono fun _ w₂ T₂ h₂ => .pure ?_
  obtain ⟨s', hupdated, h₂⟩ := h₂
  exact ⟨ps, s', fun p => (hmem p).trans hs.mem.symm, hupdated, h₂⟩

/-- The partitions have different ranks. -/
theorem claimRank_inj {offset p q : ℕ} (hp : p < n) (hq : q < n)
    (h : claimRank n offset p = claimRank n offset q) : p = q := by
  have hn : n ≠ 0 := by omega
  rw [claimRank, claimRank, if_neg hn, if_neg hn] at h
  have hmod : p % n = q % n := Nat.ModEq.add_right_cancel' offset h
  rwa [Nat.mod_eq_of_lt hp, Nat.mod_eq_of_lt hq] at hmod

/-- The available partitions that come first are claimed. -/
theorem claimAvailablePartitions_yields {batchSize offset : ℕ} (hs : HasPartitions n s)
    (h : SeesOwn IsLeaseKey now s w T) :
    Client.Yields IsLeaseKey i l (claimAvailablePartitions workerId leaseSeconds batchSize n offset)
      (fun _ w' T' => ∃ ps s',
        (∀ p, p ∈ ps ↔ p ∈ firsts (claimRank n offset) batchSize (availableAt now n s)) ∧
          LeasesUpdated (PartitionLease.claimed workerId leaseSeconds now) ps s s' ∧
            SeesOwn IsLeaseKey now s' w' T') w T := by
  refine .bind ((selectLeases_yields h).mono fun candidates w₁ T₁ h₁ => ?_)
  obtain ⟨h₁, hnodup, hmem⟩ := h₁
  have hcandidates : ∀ p, p ∈ orderBy (fun p q => claimRank n offset p ≤ claimRank n offset q) candidates ↔
      ∃ v, s.lookup (.partitionLeases p) = some v ∧ v.isAvailable now = true := fun p =>
    mem_orderBy.trans (hmem p)
  have hordered := (orderBy_perm (fun p q => claimRank n offset p ≤ claimRank n offset q) candidates).nodup_iff.mpr
    hnodup
  refine (claimLeases_yields hordered (fun p hp => (hcandidates p).mp hp) h₁).mono fun _ w₂ T₂ h₂ => ?_
  obtain ⟨s', hupdated, h₂⟩ := h₂
  refine ⟨_, s', fun p => ?_, hupdated, h₂⟩
  have hset : (orderBy (fun p q => claimRank n offset p ≤ claimRank n offset q) candidates).toFinset
      = availableAt now n s := by
    ext q
    rw [List.mem_toFinset, hcandidates q]
    exact hs.mem.symm
  have hlt : ∀ q ∈ orderBy (fun p q => claimRank n offset p ≤ claimRank n offset q) candidates, q < n := fun q hq => by
    obtain ⟨v, hv, -⟩ := (hcandidates q).mp hq
    exact (hs q).mp (by rw [hv]; rfl)
  rw [← hset]
  refine mem_take_iff ?_ hordered fun a ha b hb => claimRank_inj (hlt a ha) (hlt b hb)
  exact orderBy_ranked (claimRank n offset) candidates

/-- The unexpired leases of the worker, lowest first. -/
theorem listOwnedPartitions_yields (hs : HasPartitions n s) (h : SeesOwn IsLeaseKey now s w T) :
    Client.Yields IsLeaseKey i l (listOwnedPartitions workerId) (fun ps w' T' => SeesOwn IsLeaseKey now s w' T' ∧
      ps.Nodup ∧ (ps.Pairwise fun p q => p ≤ q) ∧ ps.toFinset = heldBy workerId now n s) w T := by
  refine .bind ((selectLeases_yields h).mono fun owned w₁ T₁ h₁ => .pure ?_)
  obtain ⟨h₁, hnodup, hmem⟩ := h₁
  refine ⟨h₁, (orderBy_perm _ _).nodup_iff.mpr hnodup, orderBy_ranked (fun p => p) owned, ?_⟩
  ext q
  rw [List.mem_toFinset, mem_orderBy, hmem q]
  exact hs.mem.symm

/-- The number of workers is counted from the heartbeats that are fresh, and is at least one. -/
theorem countActiveWorkers_yields {heartbeatSeconds : ℕ} (h : SeesOwn IsLeaseKey now s w T) :
    Client.Yields IsLeaseKey i l (countActiveWorkers heartbeatSeconds) (fun m w' T' =>
      SeesOwn IsLeaseKey now s w' T' ∧ m = max 1 (count (isFresh heartbeatSeconds now) s)) w T := by
  refine .bind (.select h fun u w₁ T₁ hu h₁ => .pure ⟨h₁, ?_⟩)
  refine congrArg (max 1) (count_congr fun k v hv => ?_)
  cases k with
  | workerHeartbeats workerId => rw [hu (.workerHeartbeats workerId) trivial]
  | _ => cases hv

/-- The highest leases of the worker are given back, beyond the first `maxPartitions`. -/
theorem releaseExcessPartitions_yields {maxPartitions : ℕ} (hs : HasPartitions n s)
    (h : SeesOwn IsLeaseKey now s w T) :
    Client.Yields IsLeaseKey i l (releaseExcessPartitions workerId maxPartitions) (fun _ w' T' => ∃ ps s',
      (∀ p, p ∈ ps ↔ p ∈ heldBy workerId now n s ∧
        p ∉ firsts (fun p => p) maxPartitions (heldBy workerId now n s)) ∧
      LeasesUpdated (PartitionLease.released now) ps s s' ∧ SeesOwn IsLeaseKey now s' w' T') w T := by
  refine .bind ((listOwnedPartitions_yields hs h).mono fun owned w₁ T₁ h₁ => ?_)
  obtain ⟨h₁, hnodup, hsorted, hset⟩ := h₁
  -- the listed partitions are sorted, so the first of the list are the lowest
  have hfirst : ∀ p, p ∈ owned.take maxPartitions ↔ p ∈ firsts (fun p => p) maxPartitions (heldBy workerId now n s) :=
    fun p => by
      rw [← hset]
      exact mem_take_iff hsorted hnodup fun a _ b _ hab => hab
  dsimp only
  split
  · refine .pure ⟨[], s, fun p => ?_, .nil _ s, h₁⟩
    have htake : owned.take maxPartitions = owned := List.take_of_length_le (by omega)
    rw [← hfirst p, htake, ← hset, List.mem_toFinset]
    simp
  · rename_i hexcess
    refine .bind ((selectLeases_yields h₁).mono fun found w₂ T₂ h₂ => .bind ?_)
    obtain ⟨h₂, hnodup', hmem⟩ := h₂
    -- the last of the list are those beyond the lowest
    have hrelease : ∀ p, p ∈ owned.reverse.take (owned.length - maxPartitions) ↔
        p ∈ heldBy workerId now n s ∧ p ∉ firsts (fun p => p) maxPartitions (heldBy workerId now n s) := fun p => by
      have hrest : owned.length - (owned.length - maxPartitions) = maxPartitions := by omega
      rw [List.take_reverse, List.mem_reverse, hrest, mem_drop_iff hnodup, hfirst p, ← List.mem_toFinset, hset]
    refine (updateLeases_yields hnodup' (fun p hp => ?_) h₂).mono fun _ w₃ T₃ h₃ => .pure ?_
    · obtain ⟨v, hv, hc⟩ := (hmem p).mp hp
      exact ⟨v, hv, ((Bool.and_eq_true _ _).mp hc).1⟩
    · obtain ⟨s', hupdated, h₃⟩ := h₃
      refine ⟨found, s', fun p => ?_, hupdated, h₃⟩
      rw [hmem p, ← hrelease p]
      constructor
      · rintro ⟨v, -, hc⟩
        exact of_decide_eq_true ((Bool.and_eq_true _ _).mp hc).2
      · intro hp
        obtain ⟨v, hv, hc⟩ := hs.mem.mp ((hrelease p).mp hp).1
        exact ⟨v, hv, (Bool.and_eq_true _ _).mpr ⟨((Bool.and_eq_true _ _).mp hc).1, decide_eq_true hp⟩⟩

end Statements

/-! ## The transaction -/

namespace PartitionLease

variable {workerId : String} {now : Time} {leaseSeconds : ℕ} {v : PartitionLease}

/-- A lease that lasts is not available. -/
theorem not_available (h : (v.isOwnedBy workerId && v.isLive now) = true) : v.isAvailable now = false := by
  simp only [isOwnedBy, isLive, Bool.and_eq_true, decide_eq_true_eq, Option.any_eq_true] at h
  obtain ⟨howned, u, hu, hlive⟩ := h
  rw [isAvailable, howned, hu, Option.isNone_some, Bool.false_or, Option.any_some]
  exact decide_eq_false (Int.not_le.mpr hlive)

/-- A lease that is given for some time is live when it is given. -/
theorem isLive_of_lasts (hseconds : 0 < leaseSeconds) (h : v.leaseUntil = some (now + seconds leaseSeconds)) :
    v.isLive now = true := by
  rw [isLive, h, Option.any_some, decide_eq_true_eq]
  exact Int.lt_add_of_pos_right now (seconds_pos hseconds)

end PartitionLease

section Transaction

variable {settings : Settings} {workerId : String} {offset : ℕ} {now : Time} {s s' : Tables}

/-- The number of fresh heartbeats, its own included, that a worker counts. -/
def activeWorkers (settings : Settings) (workerId : String) (now : Time) (s : Tables) : ℕ :=
  count (isFresh settings.workerHeartbeatSeconds now) (writeRow ⟨.workerHeartbeats workerId, some ⟨now⟩⟩ s)

/-- The worker's fair share of the partitions, by the heartbeats that are fresh once it has recorded its
own. -/
def fairShare (settings : Settings) (workerId : String) (now : Time) (s : Tables) : ℕ :=
  fairPartitionCap settings.matchmakingPartitions (activeWorkers settings workerId now s)

/-- The partitions it claims: the first of those that are available, in the order that begins at its
offset. -/
def newlyClaimed (settings : Settings) (offset : ℕ) (now : Time) (s : Tables) : Finset ℕ :=
  firsts (claimRank settings.matchmakingPartitions offset) settings.workerPartitionBatchSize
    (availableAt now settings.matchmakingPartitions s)

/-- The partitions it renews or claims, before it gives back what is too much. -/
def taken (settings : Settings) (workerId : String) (offset : ℕ) (now : Time) (s : Tables) : Finset ℕ :=
  heldBy workerId now settings.matchmakingPartitions s ∪ newlyClaimed settings offset now s

/-- The partitions it keeps, the lowest ones up to its fair share. -/
def kept (settings : Settings) (workerId : String) (offset : ℕ) (now : Time) (s : Tables) : Finset ℕ :=
  firsts (fun p => p) (fairShare settings workerId now s) (taken settings workerId offset now s)

/-- What a lease transaction leaves of the tables `s`, row by row. -/
structure LeaseOutcome (settings : Settings) (workerId : String) (offset : ℕ) (now : Time)
    (s s' : Tables) : Prop where
  heartbeats : ∀ v, s'.lookup (.workerHeartbeats v)
    = (writeRow ⟨.workerHeartbeats workerId, some ⟨now⟩⟩ s).lookup (.workerHeartbeats v)
  keeps : ∀ p ∈ kept settings workerId offset now s, ∃ v, s'.lookup (.partitionLeases p) = some v ∧
    v.ownedBy = some workerId ∧ v.leaseUntil = some (now + seconds settings.workerLeaseSeconds)
  releases : ∀ p ∈ taken settings workerId offset now s, p ∉ kept settings workerId offset now s →
    ∃ v, s'.lookup (.partitionLeases p) = some v ∧ v.ownedBy = none ∧ v.leaseUntil = none
  same : ∀ p, p ∉ taken settings workerId offset now s →
    s'.lookup (.partitionLeases p) = s.lookup (.partitionLeases p)

/-- Renewed leases stay unavailable. -/
theorem LeasesUpdated.available {n leaseSeconds : ℕ} {ps : List ℕ} (hseconds : 0 < leaseSeconds)
    (hs : HasPartitions n s) (hps : ∀ p, p ∈ ps ↔ p ∈ heldBy workerId now n s)
    (h : LeasesUpdated (PartitionLease.renewed leaseSeconds now) ps s s') :
    availableAt now n s' = availableAt now n s := by
  ext p
  rw [availableAt, availableAt, (h.hasPartitions hs).mem, hs.mem]
  by_cases hp : p ∈ ps
  · obtain ⟨v, hv, hheld⟩ := hs.mem.mp ((hps p).mp hp)
    obtain ⟨u, hu, hu'⟩ := h.changed p hp
    obtain rfl := Option.some.inj (hv.symm.trans hu)
    have hlasts : ((v.renewed leaseSeconds now).isOwnedBy workerId && (v.renewed leaseSeconds now).isLive now)
        = true := by
      rw [Bool.and_eq_true] at hheld ⊢
      exact ⟨hheld.1, PartitionLease.isLive_of_lasts hseconds rfl⟩
    have hrenewed := PartitionLease.not_available hlasts
    rw [hv, hu']
    simp [hrenewed, PartitionLease.not_available hheld]
  · rw [h.lease hp]

/-- Lists of partitions depend on the rows of leases only. -/
theorem partitionsWith_congr {n : ℕ} {cond : PartitionLease → Bool}
    (h : ∀ p, s'.lookup (.partitionLeases p) = s.lookup (.partitionLeases p)) :
    partitionsWith n cond s' = partitionsWith n cond s :=
  Finset.filter_congr fun p _ => by rw [h p]

/-- The leases of the worker after it has renewed and claimed. -/
structure RenewedAndClaimed (settings : Settings) (workerId : String) (offset : ℕ) (now : Time) (s s' : Tables) :
    Prop where
  heartbeats : ∀ v, s'.lookup (.workerHeartbeats v)
    = (writeRow ⟨.workerHeartbeats workerId, some ⟨now⟩⟩ s).lookup (.workerHeartbeats v)
  lasting : ∀ p ∈ taken settings workerId offset now s, ∃ v, s'.lookup (.partitionLeases p) = some v ∧
    v.ownedBy = some workerId ∧ v.leaseUntil = some (now + seconds settings.workerLeaseSeconds)
  same : ∀ p, p ∉ taken settings workerId offset now s →
    s'.lookup (.partitionLeases p) = s.lookup (.partitionLeases p)

/-- Renewals and claims, one after the other. -/
theorem RenewedAndClaimed.of_updates {s₁ s₂ s₃ : Tables} {ps qs : List ℕ}
    (hs : HasPartitions settings.matchmakingPartitions s)
    (hbeat : s₁ = writeRow ⟨.workerHeartbeats workerId, some ⟨now⟩⟩ s)
    (hps : ∀ p, p ∈ ps ↔ p ∈ heldBy workerId now settings.matchmakingPartitions s)
    (hrenewed : LeasesUpdated (PartitionLease.renewed settings.workerLeaseSeconds now) ps s₁ s₂)
    (hqs : ∀ p, p ∈ qs ↔ p ∈ newlyClaimed settings offset now s)
    (hclaimed : LeasesUpdated (PartitionLease.claimed workerId settings.workerLeaseSeconds now) qs s₂ s₃) :
    RenewedAndClaimed settings workerId offset now s s₃ where
  heartbeats v := by rw [hclaimed.heartbeat, hrenewed.heartbeat, hbeat]
  lasting p hp := by
    by_cases hq : p ∈ qs
    · obtain ⟨v, -, hv⟩ := hclaimed.changed p hq
      exact ⟨_, hv, rfl, rfl⟩
    · rw [taken, Finset.mem_union, ← hps p, ← hqs p] at hp
      have hp := hp.resolve_right hq
      obtain ⟨v, hv, hv'⟩ := hrenewed.changed p hp
      have hrow : s₁.lookup (.partitionLeases p) = s.lookup (.partitionLeases p) := by
        rw [hbeat]
        exact lookup_writeRow_ne (fun heq => by cases heq) s
      obtain ⟨u, hu, hheld⟩ := hs.mem.mp ((hps p).mp hp)
      obtain rfl := Option.some.inj (hv.symm.trans (hrow.trans hu))
      refine ⟨_, (hclaimed.lease hq).trans hv', ?_, rfl⟩
      exact of_decide_eq_true ((Bool.and_eq_true _ _).mp hheld).1
  same p hp := by
    rw [taken, Finset.mem_union, ← hps p, ← hqs p, not_or] at hp
    rw [hclaimed.lease hp.2, hrenewed.lease hp.1, hbeat]
    exact lookup_writeRow_ne (fun heq => by cases heq) s

/-- A worker takes only partitions that there are. -/
theorem taken_lt {p : ℕ} (hp : p ∈ taken settings workerId offset now s) :
    p < settings.matchmakingPartitions := by
  refine Finset.mem_range.mp ((Finset.mem_union.mp hp).elim (fun h => Finset.filter_subset _ _ h) fun h => ?_)
  exact Finset.filter_subset _ _ (firsts_subset h)

/-- Rows are updated, but none is added or deleted. -/
theorem HasPartitions.of_taken (hs : HasPartitions settings.matchmakingPartitions s)
    (hrow : ∀ p ∈ taken settings workerId offset now s, (s'.lookup (.partitionLeases p)).isSome = true)
    (hsame : ∀ p, p ∉ taken settings workerId offset now s →
      s'.lookup (.partitionLeases p) = s.lookup (.partitionLeases p)) :
    HasPartitions settings.matchmakingPartitions s' := by
  intro p
  by_cases hp : p ∈ taken settings workerId offset now s
  · exact iff_of_true (hrow p hp) (taken_lt hp)
  · rw [hsame p hp]
    exact hs p

/-- The worker holds what it has renewed and claimed. -/
theorem RenewedAndClaimed.held (hseconds : 0 < settings.workerLeaseSeconds)
    (hs : HasPartitions settings.matchmakingPartitions s)
    (h : RenewedAndClaimed settings workerId offset now s s') :
    HasPartitions settings.matchmakingPartitions s' ∧
      heldBy workerId now settings.matchmakingPartitions s' = taken settings workerId offset now s := by
  have hs' : HasPartitions settings.matchmakingPartitions s' := hs.of_taken (fun p hp => by
    obtain ⟨v, hv, -⟩ := h.lasting p hp
    rw [hv]
    rfl) h.same
  refine ⟨hs', ?_⟩
  ext p
  rw [heldBy, hs'.mem]
  by_cases hp : p ∈ taken settings workerId offset now s
  · obtain ⟨v, hv, howned, huntil⟩ := h.lasting p hp
    refine iff_of_true ⟨v, hv, (Bool.and_eq_true _ _).mpr ⟨decide_eq_true howned, ?_⟩⟩ hp
    exact PartitionLease.isLive_of_lasts hseconds huntil
  · rw [h.same p hp]
    refine iff_of_false (fun hheld => hp ?_) hp
    exact Finset.mem_union_left _ (hs.mem.mpr hheld)

/-- What is beyond the fair share is given back. -/
theorem RenewedAndClaimed.outcome {s₄ : Tables} {ps : List ℕ}
    (h : RenewedAndClaimed settings workerId offset now s s')
    (hps : ∀ p, p ∈ ps ↔ p ∈ taken settings workerId offset now s ∧
      p ∉ kept settings workerId offset now s)
    (hreleased : LeasesUpdated (PartitionLease.released now) ps s' s₄) :
    LeaseOutcome settings workerId offset now s s₄ where
  heartbeats v := by rw [hreleased.heartbeat, h.heartbeats]
  keeps p hp := by
    have hnot : p ∉ ps := fun hmem => ((hps p).mp hmem).2 hp
    rw [hreleased.lease hnot]
    exact h.lasting p (firsts_subset hp)
  releases p hp hno := by
    obtain ⟨v, -, hv⟩ := hreleased.changed p ((hps p).mpr ⟨hp, hno⟩)
    exact ⟨_, hv, rfl, rfl⟩
  same p hp := by
    have hnot : p ∉ ps := fun hmem => hp ((hps p).mp hmem).1
    rw [hreleased.lease hnot, h.same p hp]

/-- Counting nobody as one is no difference. -/
theorem fairPartitionCap_max (total n : ℕ) : fairPartitionCap total (max 1 n) = fairPartitionCap total n := by
  rcases Nat.eq_zero_or_pos n with rfl | hn
  · simp [fairPartitionCap]
  · rw [max_eq_right hn]

variable {i : ℕ} {l : Actor} {w : ServiceWorld} {T : Option (Txn Row)}

/-- The five steps of the block in order, each from the tables that the one before it has left. -/
theorem leaseOperations_yields (hseconds : 0 < settings.workerLeaseSeconds)
    (henabled : settings.workerElasticRebalanceEnabled = true)
    (hs : HasPartitions settings.matchmakingPartitions s) (h : SeesOwn IsLeaseKey now s w T) :
    Client.Yields IsLeaseKey i l (leaseOperations settings workerId offset) (fun _ w' T' => ∃ s',
      LeaseOutcome settings workerId offset now s s' ∧ SeesOwn IsLeaseKey now s' w' T') w T := by
  refine .bind ((recordWorkerHeartbeat_yields h).mono fun _ w₁ T₁ h₁ => ?_)
  have hleases : ∀ p, (writeRow ⟨.workerHeartbeats workerId, some ⟨now⟩⟩ s).lookup (.partitionLeases p)
      = s.lookup (.partitionLeases p) := fun p => lookup_writeRow_ne (fun heq => by cases heq) s
  have hs₁ : HasPartitions settings.matchmakingPartitions (writeRow ⟨.workerHeartbeats workerId, some ⟨now⟩⟩ s) :=
    fun p => by rw [hleases p, hs p]
  refine .bind ((renewOwnedPartitions_yields hs₁ h₁).mono fun _ w₂ T₂ h₂ => ?_)
  obtain ⟨ps, s₂, hps, hrenewed, h₂⟩ := h₂
  have havailable : availableAt now settings.matchmakingPartitions s₂
      = availableAt now settings.matchmakingPartitions s :=
    (hrenewed.available hseconds hs₁ hps).trans (partitionsWith_congr hleases)
  have hheld : ∀ p, p ∈ ps ↔ p ∈ heldBy workerId now settings.matchmakingPartitions s := fun p =>
    (hps p).trans (by rw [heldBy, partitionsWith_congr hleases]; exact Iff.rfl)
  have hs₂ := hrenewed.hasPartitions hs₁
  refine .bind ((claimAvailablePartitions_yields hs₂ h₂).mono fun _ w₃ T₃ h₃ => ?_)
  obtain ⟨qs, s₃, hqs, hclaimed, h₃⟩ := h₃
  rw [havailable] at hqs
  have htaken := RenewedAndClaimed.of_updates hs rfl hheld hrenewed hqs hclaimed
  obtain ⟨hs₃, hall⟩ := htaken.held hseconds hs
  dsimp only
  rw [if_pos henabled]
  refine .bind ((countActiveWorkers_yields h₃).mono fun m w₄ T₄ h₄ => ?_)
  obtain ⟨h₄, rfl⟩ := h₄
  have hcount : count (isFresh settings.workerHeartbeatSeconds now) s₃ = activeWorkers settings workerId now s :=
    count_congr fun k v hv => by
      cases k with
      | workerHeartbeats worker => rw [htaken.heartbeats worker]
      | _ => cases hv
  refine .bind ((releaseExcessPartitions_yields hs₃ h₄).mono fun _ w₅ T₅ h₅ => .pure ?_)
  obtain ⟨rs, s₄, hrs, hreleased, h₅⟩ := h₅
  rw [fairPartitionCap_max, hcount, hall] at hrs
  exact ⟨s₄, htaken.outcome hrs hreleased, h₅⟩

/-- The outcome is told by the rows that lease transactions work on. -/
theorem LeaseOutcome.congr {s₁ : Tables} (h : LeaseOutcome settings workerId offset now s s')
    (hs : ∀ k, IsLeaseKey k → s₁.lookup k = s'.lookup k) : LeaseOutcome settings workerId offset now s s₁ where
  heartbeats v := (hs (.workerHeartbeats v) trivial).trans (h.heartbeats v)
  keeps p hp := by
    rw [hs (.partitionLeases p) trivial]
    exact h.keeps p hp
  releases p hp hno := by
    rw [hs (.partitionLeases p) trivial]
    exact h.releases p hp hno
  same p hp := (hs (.partitionLeases p) trivial).trans (h.same p hp)

/-- What a lease transaction commits. -/
theorem leaseTransaction_yields (hseconds : 0 < settings.workerLeaseSeconds)
    (henabled : settings.workerElasticRebalanceEnabled = true)
    (hs : HasPartitions settings.matchmakingPartitions w.committed) :
    Client.Yields IsLeaseKey i l (leaseTransaction settings workerId offset) (fun _ w' T' => T' = none ∧
      LeaseOutcome settings workerId offset w.clock w.committed w'.committed) w none := by
  refine .bind ((leaseOperations_yields hseconds henabled hs (.committed w)).mono fun _ w₁ T₁ h₁ => ?_)
  obtain ⟨s', houtcome, h₁⟩ := h₁
  exact .bind (.commit h₁ fun w₂ hs₂ => .pure ⟨rfl, houtcome.congr hs₂⟩)

/-- What a lease transaction of the worker does, in its own terms. -/
structure LeaseEffect (settings : Settings) (workerId : String) (offset : ℕ) (now : Time)
    (s s' : Tables) : Prop where
  /-- It holds so many unexpired leases. -/
  count : (heldBy workerId now settings.matchmakingPartitions s').card
    = min (fairShare settings workerId now s) ((heldBy workerId now settings.matchmakingPartitions s).card
      + min settings.workerPartitionBatchSize (availableAt now settings.matchmakingPartitions s).card)
  /-- They all expire after the lease time. -/
  expiry : ∀ p ∈ heldBy workerId now settings.matchmakingPartitions s', ∃ v,
    s'.lookup (.partitionLeases p) = some v ∧
      v.leaseUntil = some (now + seconds settings.workerLeaseSeconds)
  /-- They are the lowest ones of those that it renewed or claimed. -/
  lowest : ∀ p ∈ heldBy workerId now settings.matchmakingPartitions s',
    p ∈ taken settings workerId offset now s ∧ ∀ q ∈ taken settings workerId offset now s,
      q ∉ heldBy workerId now settings.matchmakingPartitions s' → p < q
  /-- It claims as many as it may, and nothing that is available comes before what it claims. -/
  claimed : (newlyClaimed settings offset now s).card = min settings.workerPartitionBatchSize
      (availableAt now settings.matchmakingPartitions s).card ∧
    ∀ p ∈ newlyClaimed settings offset now s, p ∈ availableAt now settings.matchmakingPartitions s ∧
      ∀ q ∈ availableAt now settings.matchmakingPartitions s, q ∉ newlyClaimed settings offset now s →
        (p + offset) % settings.matchmakingPartitions < (q + offset) % settings.matchmakingPartitions
  /-- What it gives back is unowned. -/
  returned : ∀ p ∈ taken settings workerId offset now s,
    p ∉ heldBy workerId now settings.matchmakingPartitions s' →
      ∃ v, s'.lookup (.partitionLeases p) = some v ∧ v.ownedBy = none
  /-- It changes no other row. -/
  untouched : ∀ p, p ∉ taken settings workerId offset now s →
    s'.lookup (.partitionLeases p) = s.lookup (.partitionLeases p)
  /-- An unexpired lease of another worker is none of those. -/
  others : ∀ p v, s.lookup (.partitionLeases p) = some v → v.ownedBy ≠ none →
    v.ownedBy ≠ some workerId → v.isLive now = true → p ∉ taken settings workerId offset now s

namespace LeaseOutcome

/-- The transaction as a whole keeps the partitions. -/
theorem hasPartitions (hs : HasPartitions settings.matchmakingPartitions s)
    (h : LeaseOutcome settings workerId offset now s s') : HasPartitions settings.matchmakingPartitions s' :=
  hs.of_taken (fun p hp => by
    by_cases hkept : p ∈ kept settings workerId offset now s
    · obtain ⟨v, hv, -⟩ := h.keeps p hkept
      rw [hv]
      rfl
    · obtain ⟨v, hv, -⟩ := h.releases p hp hkept
      rw [hv]
      rfl) h.same

/-- The worker holds what it keeps. -/
theorem held (hseconds : 0 < settings.workerLeaseSeconds)
    (hs : HasPartitions settings.matchmakingPartitions s) (h : LeaseOutcome settings workerId offset now s s') :
    heldBy workerId now settings.matchmakingPartitions s' = kept settings workerId offset now s := by
  ext p
  rw [heldBy, (h.hasPartitions hs).mem]
  by_cases hkept : p ∈ kept settings workerId offset now s
  · obtain ⟨v, hv, howned, huntil⟩ := h.keeps p hkept
    refine iff_of_true ⟨v, hv, (Bool.and_eq_true _ _).mpr ⟨decide_eq_true howned, ?_⟩⟩ hkept
    exact PartitionLease.isLive_of_lasts hseconds huntil
  · refine iff_of_false (fun hheld => ?_) hkept
    obtain ⟨v, hv, hheld⟩ := hheld
    by_cases hp : p ∈ taken settings workerId offset now s
    · obtain ⟨u, hu, hnone, -⟩ := h.releases p hp hkept
      obtain rfl := Option.some.inj (hv.symm.trans hu)
      have howned := of_decide_eq_true ((Bool.and_eq_true _ _).mp hheld).1
      cases hnone.symm.trans howned
    · rw [h.same p hp] at hv
      exact hp (Finset.mem_union_left _ (hs.mem.mpr ⟨v, hv, hheld⟩))

end LeaseOutcome

/-- A lease that lasts is not claimed. -/
theorem disjoint_held (hs : HasPartitions settings.matchmakingPartitions s) :
    Disjoint (heldBy workerId now settings.matchmakingPartitions s)
      (availableAt now settings.matchmakingPartitions s) := by
  refine Finset.disjoint_left.mpr fun p hp hp' => ?_
  obtain ⟨v, hv, hheld⟩ := hs.mem.mp hp
  obtain ⟨u, hu, havailable⟩ := hs.mem.mp hp'
  obtain rfl := Option.some.inj (hv.symm.trans hu)
  rw [PartitionLease.not_available hheld] at havailable
  cases havailable

/-- As many leases are claimed as the batch allows, or all that are available. -/
theorem card_newlyClaimed : (newlyClaimed settings offset now s).card
    = min settings.workerPartitionBatchSize (availableAt now settings.matchmakingPartitions s).card :=
  card_firsts fun _ hp _ hq => claimRank_inj (Finset.mem_range.mp (Finset.filter_subset _ _ hp))
    (Finset.mem_range.mp (Finset.filter_subset _ _ hq))

/-- Before anything is released a worker has what it has renewed and what it has claimed. -/
theorem card_taken (hs : HasPartitions settings.matchmakingPartitions s) :
    (taken settings workerId offset now s).card = (heldBy workerId now settings.matchmakingPartitions s).card
      + min settings.workerPartitionBatchSize (availableAt now settings.matchmakingPartitions s).card := by
  rw [taken, Finset.card_union_of_disjoint, card_newlyClaimed]
  exact (disjoint_held hs).mono_right firsts_subset

/-- An unexpired lease of another worker is left alone. -/
theorem notMem_taken {p : ℕ} {v : PartitionLease} {owner : String}
    (hs : HasPartitions settings.matchmakingPartitions s) (hv : s.lookup (.partitionLeases p) = some v)
    (howner : v.ownedBy = some owner) (hne : owner ≠ workerId) (hlive : v.isLive now = true) :
    p ∉ taken settings workerId offset now s := by
  intro hp
  obtain hheld | hclaimed := Finset.mem_union.mp hp
  · obtain ⟨u, hu, hheld⟩ := hs.mem.mp hheld
    obtain rfl := Option.some.inj (hv.symm.trans hu)
    have hown : v.ownedBy = some workerId := of_decide_eq_true ((Bool.and_eq_true _ _).mp hheld).1
    exact hne (Option.some.inj (howner.symm.trans hown))
  · obtain ⟨u, hu, havailable⟩ := hs.mem.mp (firsts_subset hclaimed)
    obtain rfl := Option.some.inj (hv.symm.trans hu)
    have hlasts : (v.isOwnedBy owner && v.isLive now) = true :=
      (Bool.and_eq_true _ _).mpr ⟨decide_eq_true howner, hlive⟩
    have hbusy := PartitionLease.not_available hlasts
    cases hbusy.symm.trans havailable

/-- From the tables that the transaction leaves, what it has done for the worker and what it has left to
others. -/
theorem LeaseOutcome.effect (hseconds : 0 < settings.workerLeaseSeconds)
    (hs : HasPartitions settings.matchmakingPartitions s) (h : LeaseOutcome settings workerId offset now s s') :
    LeaseEffect settings workerId offset now s s' where
  count := by
    rw [h.held hseconds hs, kept, card_firsts fun _ _ _ _ hpq => hpq, card_taken hs]
  expiry p hp := by
    rw [h.held hseconds hs] at hp
    obtain ⟨v, hv, -, huntil⟩ := h.keeps p hp
    exact ⟨v, hv, huntil⟩
  lowest p hp := by
    rw [h.held hseconds hs] at hp ⊢
    exact ⟨firsts_subset hp, fun q hq hq' => lt_of_mem_firsts hp hq hq'⟩
  claimed := by
    refine ⟨card_newlyClaimed, fun p hp => ⟨firsts_subset hp, fun q hq hq' => ?_⟩⟩
    have hlt := lt_of_mem_firsts hp hq hq'
    have hpositive := Finset.mem_range.mp (Finset.filter_subset _ _ hq)
    rwa [claimRank, claimRank, if_neg (by omega), if_neg (by omega)] at hlt
  returned p hp hno := by
    rw [h.held hseconds hs] at hno
    obtain ⟨v, hv, hnone, -⟩ := h.releases p hp hno
    exact ⟨v, hv, hnone⟩
  untouched := h.same
  others p v hv howned hother hlive := by
    obtain ⟨owner, howner⟩ := Option.ne_none_iff_exists'.mp howned
    exact notMem_taken hs hv howner (fun heq => hother (heq ▸ howner)) hlive

/-- **The effect of a lease transaction.** Where no other session carries out a lease transaction at the
time, it changes the leases like this if it commits: the worker renews what it holds, claims a batch of the
available partitions in the order of its offset, and gives back the highest ones beyond its fair share.
Other sessions may do anything else meanwhile. -/
theorem lease_transaction_effect (hseconds : 0 < settings.workerLeaseSeconds)
    (henabled : settings.workerElasticRebalanceEnabled = true)
    (hs : HasPartitions settings.matchmakingPartitions w.committed) {counts : ℕ × ℕ × ℕ} {w' : ServiceWorld}
    {T' : Option (Txn Row)} (hrun : Prog.Amid IsLeaseKey i l (leaseTransaction settings workerId offset).run
      w none (.ok counts) w' T') : LeaseEffect settings workerId offset w.clock w.committed w'.committed :=
  (leaseTransaction_yields hseconds henabled hs counts w' T' hrun).2.effect hseconds hs

end Transaction

/-! ## A worker that starts -/

/-- Three partitions, of which a worker claims two at a time. -/
def threeSettings : Settings := { matchmakingPartitions := 3, workerPartitionBatchSize := 2 }

/-- Leases that last no time. -/
def zeroSettings : Settings := { threeSettings with workerLeaseSeconds := 0 }

/-- The state after the set-up, with all partitions free. -/
def migratedState (settings : Settings) : ServiceState :=
  (service sampleRuntime).after (runs 0 (.migrate settings)) (emptyState 0)

/-- The first lease transaction of a worker, run alone. -/
def firstLeases (settings : Settings) : Option (Except Exn (ℕ × ℕ × ℕ) × ServiceWorld × Option (Txn Row)) :=
  Prog.alone quietAnswer 1 (.runLoop settings "w" 1) (leaseTransaction settings "w" 1).run
    (migratedState settings).world none

/-- A list of the rows shows that all partitions are there. -/
theorem HasPartitions.of_list {n : ℕ} {s : Tables}
    (h : ((rowsOf leaseRow s).map Prod.fst).Perm (List.range n)) : HasPartitions n s := by
  intro p
  rw [← List.mem_range, ← h.mem_iff, List.mem_map, Option.isSome_iff_exists]
  constructor
  · rintro ⟨v, hv⟩
    exact ⟨(p, v), mem_rowsOf_leaseRow.mpr hv, rfl⟩
  · rintro ⟨⟨q, v⟩, hv, rfl⟩
    exact ⟨v, mem_rowsOf_leaseRow.mp hv⟩

/-- The first transaction of a worker, on the tables that the set-up has left. -/
theorem lease_transaction_effect_sample : ∃ counts w', firstLeases threeSettings = some (.ok counts, w', none) ∧
    LeaseEffect threeSettings "w" 1 (migratedState threeSettings).world.clock
      (migratedState threeSettings).world.committed w'.committed := by
  have hrun : (firstLeases threeSettings).map (fun r => r.1.toOption.isSome && r.2.2.isNone) = some true := by
    decide +kernel
  have hpartitions : HasPartitions 3 (migratedState threeSettings).world.committed := .of_list (by decide +kernel)
  obtain ⟨⟨r, w', T⟩, hrun, hok⟩ := Option.map_eq_some_iff.mp hrun
  match r, T with
  | .ok counts, none =>
    exact ⟨counts, w', hrun, lease_transaction_effect (by decide) rfl hpartitions (.of_alone hrun)⟩
  | .error e, _ => cases hok
  | .ok _, some _ => cases hok

/-- A lease that lasts no time has expired when it is claimed. -/
theorem zero_leases_expired : (service sampleRuntime).Reachable (emptyState 0) (migratedState zeroSettings) ∧
    HasPartitions 3 (migratedState zeroSettings).world.committed ∧
    ∃ counts w', Prog.Amid IsLeaseKey 1 (.runLoop zeroSettings "w" 1)
        (leaseTransaction zeroSettings "w" 1).run (migratedState zeroSettings).world none (.ok counts) w' none ∧
      ¬ LeaseEffect zeroSettings "w" 1 (migratedState zeroSettings).world.clock
        (migratedState zeroSettings).world.committed w'.committed := by
  refine ⟨System.reachable_after _ _, .of_list (by decide +kernel), ?_⟩
  have hrun : (firstLeases zeroSettings).map (fun r => r.1.toOption.isSome && r.2.2.isNone &&
      (heldBy "w" (migratedState zeroSettings).world.clock 3 r.2.1.committed).card == 0) = some true := by
    decide +kernel
  have htwo : min (fairShare zeroSettings "w" (migratedState zeroSettings).world.clock
      (migratedState zeroSettings).world.committed)
        ((heldBy "w" (migratedState zeroSettings).world.clock 3 (migratedState zeroSettings).world.committed).card +
          min 2 (availableAt (migratedState zeroSettings).world.clock 3
            (migratedState zeroSettings).world.committed).card) = 2 := by decide +kernel
  obtain ⟨⟨r, w', T⟩, hrun, hok⟩ := Option.map_eq_some_iff.mp hrun
  match r, T with
  | .ok counts, none =>
    refine ⟨counts, w', .of_alone hrun, fun heffect => ?_⟩
    have hzero : (heldBy "w" (migratedState zeroSettings).world.clock 3 w'.committed).card = 0 :=
      beq_iff_eq.mp ((Bool.and_eq_true _ _).mp hok).2
    have hcount := heffect.count.trans htwo
    cases hzero.symm.trans hcount
  | .error e, _ => cases hok
  | .ok _, some _ => cases hok

end Matchmaking
