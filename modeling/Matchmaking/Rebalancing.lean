import Matchmaking.LeaseTransaction
import Matchmaking.Filling

/-!
# Rebalancing

Workers that keep up their lease transactions share the partitions out: after one round everyone holds
at most its fair share, and from then on what they hold fills up like the shares of a common stock.
-/

namespace Matchmaking

open ReadCommitted SortedPrefix Filling

/-! ## Runs of lease transactions -/

/-- A lease transaction of a worker, with its time stamp. -/
structure LeaseTurn where
  workerId : String
  offset : ℕ
  time : Time

/-- Lease transactions one after the other. All other sessions leave the leases alone, in between and
meanwhile. -/
inductive LeaseRun (settings : Settings) : List LeaseTurn → ServiceWorld → ServiceWorld → Prop
  | nil {w w' : ServiceWorld} (h : LeavesRows IsLeaseKey w w') : LeaseRun settings [] w w'
  | cons {turn : LeaseTurn} {turns : List LeaseTurn} {i : ℕ} {l : Actor} {counts : ℕ × ℕ × ℕ}
      {T : Option (Txn Row)} {w w₁ w₂ w' : ServiceWorld} (hbefore : LeavesRows IsLeaseKey w w₁)
      (htime : w₁.clock = turn.time) (hrun : Prog.Amid IsLeaseKey i l
        (leaseTransaction settings turn.workerId turn.offset).run w₁ none (.ok counts) w₂ T)
      (h : LeaseRun settings turns w₂ w') : LeaseRun settings (turn :: turns) w w'

section Timing

variable (settings : Settings) (workers : Finset String) (seen : String → Time)

/-- At the time `τ` the worker is not late: its last lease transaction, or the heartbeat that it began
with, is recent enough. -/
def Recent (last : String → Option Time) (v : String) (τ : Time) : Prop :=
  match last v with
  | some t => τ < t + seconds settings.workerLeaseSeconds ∧ τ < t + seconds settings.workerHeartbeatSeconds
  | none => τ < seen v + seconds settings.workerHeartbeatSeconds

/-- The last lease transactions of the workers after some more. -/
def lastAfter (last : String → Option Time) (turns : List LeaseTurn) : String → Option Time :=
  turns.foldl (fun last turn => Function.update last turn.workerId (some turn.time)) last

/-- Successive lease transactions of a worker are close together, so that neither its leases nor its heartbeat
expire in between. -/
def Punctual : (String → Option Time) → List LeaseTurn → Prop
  | _, [] => True
  | last, turn :: turns => Recent settings seen last turn.workerId turn.time ∧
      Punctual (Function.update last turn.workerId (some turn.time)) turns

/-- No worker is late: each has had a turn recently enough, or has not had its first one for long. -/
def InTime (last : String → Option Time) (τ : Time) : Prop := ∀ v ∈ workers, Recent settings seen last v τ

/-- No worker is late at any of the lease transactions. -/
def OnTime : (String → Option Time) → List LeaseTurn → Prop
  | _, [] => True
  | last, turn :: turns => InTime settings workers seen last turn.time ∧
      OnTime (Function.update last turn.workerId (some turn.time)) turns

end Timing

/-- Every lease that has an owner has an expiry as well. -/
def Dated (s : Tables) : Prop :=
  ∀ p v, s.lookup (.partitionLeases p) = some v → v.ownedBy ≠ none → v.leaseUntil ≠ none

/-- Where rebalancing begins: the workers have fresh heartbeats, and nobody else has one or an unexpired
lease. -/
structure ElasticStart (settings : Settings) (workers : Finset String) (seen : String → Time)
    (w : ServiceWorld) : Prop where
  partitions : HasPartitions settings.matchmakingPartitions w.committed
  /-- As in all tables that the service leaves. -/
  dated : Dated w.committed
  heartbeats : ∀ v ∈ workers, w.committed.lookup (.workerHeartbeats v) = some ⟨seen v⟩
  strangers : ∀ v, v ∉ workers → ∀ h, w.committed.lookup (.workerHeartbeats v) = some h →
    isFresh settings.workerHeartbeatSeconds w.clock (.workerHeartbeats v) h = false
  lapsed : ∀ p v owner, w.committed.lookup (.partitionLeases p) = some v → v.ownedBy = some owner →
    owner ∉ workers → v.isLive w.clock = false

/-- Every partition is held by exactly one of the workers with an unexpired lease, and no worker holds
more than its fair share. -/
structure Balanced (settings : Settings) (workers : Finset String) (w : ServiceWorld) : Prop where
  held : ∀ p < settings.matchmakingPartitions, ∃! v, v ∈ workers ∧
    p ∈ heldBy v w.clock settings.matchmakingPartitions w.committed
  fair : ∀ v ∈ workers, (heldBy v w.clock settings.matchmakingPartitions w.committed).card
    ≤ fairPartitionCap settings.matchmakingPartitions workers.card

/-- Who owns a partition, by a lease that is live or has expired. -/
def ownerOf (s : Tables) (p : ℕ) : Option String :=
  (s.lookup (.partitionLeases p)).bind PartitionLease.ownedBy

/-- How many partitions a worker holds by its last lease transaction. -/
def holdings (settings : Settings) (last : String → Option Time) (s : Tables) (v : String) : ℕ :=
  (heldBy v ((last v).getD 0) settings.matchmakingPartitions s).card

/-- The partitions as a stock that the workers take from. -/
def stock (settings : Settings) (workers : Finset String) : Stock String where
  parties := workers
  total := settings.matchmakingPartitions
  cap := fairPartitionCap settings.matchmakingPartitions workers.card
  batch := settings.workerPartitionBatchSize

/-! ## Leases that the service leaves -/

/-- No legal commit leaves a lease without an expiry. -/
theorem Legal.dated {rt : Runtime} {l : Actor} {t : Txn Row} {b : Tables} (h : Legal rt l t b)
    (hb : Dated b) : Dated (patch t.writes b) := by
  intro p v hv howned
  have hkept : (patch t.writes b).lookup (.partitionLeases p) = b.lookup (.partitionLeases p) →
      v.leaseUntil ≠ none := fun hsame => hb p v (hsame.symm.trans hv) howned
  have hframe : ∀ ps : Changes Row, Changed IsIndexKey ps b (patch t.writes b) →
      ps.dlookup (.partitionLeases p) = none → v.leaseUntil ≠ none := fun ps hps hnone =>
    hkept (hps.frame (.partitionLeases p) (fun h => h) hnone)
  have hreleased : ∀ u : PartitionLease, (patch t.writes b).lookup (.partitionLeases p) = some u →
      u.ownedBy = none → v.leaseUntil ≠ none := fun u hu hnone => by
    obtain rfl := Option.some.inj (hv.symm.trans hu)
    exact absurd hnone howned
  cases h with
  | rows h =>
    have hrow := h (.partitionLeases p)
    cases l with
    | runLoop settings workerId offset =>
      obtain hsame | ⟨-, u, -, hu, -, ⟨-, huntil⟩ | ⟨hnone, -⟩⟩ := hrow
      · exact hkept hsame
      · obtain rfl := Option.some.inj (hv.symm.trans hu)
        rw [huntil]
        exact Option.some_ne_none _
      · exact hreleased u hu hnone
    | shutdownWorker workerId =>
      obtain hsame | ⟨-, u, -, hu, -, hnone, -⟩ := hrow
      · exact hkept hsame
      · exact hreleased u hu hnone
    | initMain settings | migrate settings =>
      obtain hsame | ⟨-, u, hu, hnone, -⟩ := hrow
      · exact hkept hsame
      · exact hreleased u hu hnone
    | cancelTicket xTenantId ticketId => cases xTenantId <;> exact hkept hrow
    | _ => exact hkept hrow
  | pair n hn hurl h => exact hframe _ h (n.dlookup_eq_none t.start (by simp))
  | claim tie σ hσ h => exact hkept (h (.partitionLeases p))
  | outcome o e ev m hm h => exact hframe _ h (o.dlookup_eq_none _ _ _ _ (by simp) (by simp))
  | create n htenant hkey hbody hpart hknown h => exact hframe _ h (n.dlookup_eq_none t.start (by simp) (by simp))

/-- In every state with a past, a lease that has an owner also has an expiry. -/
theorem Past.dated {rt : Runtime} {w : ServiceWorld} (h : Past rt w) : Dated w.committed :=
  h.invariant (fun _ _ hv => by cases hv) fun _ _ _ => Legal.dated

/-! ## The invariant -/

/-- What holds between lease transactions, at the time `now`: whose heartbeats there are, which leases are
whose, and that nobody who had a turn has more than the fair share. -/
structure Elastic (settings : Settings) (workers : Finset String) (seen : String → Time)
    (last : String → Option Time) (now : Time) (s : Tables) : Prop where
  partitions : HasPartitions settings.matchmakingPartitions s
  dated : Dated s
  heartbeats : ∀ v ∈ workers, s.lookup (.workerHeartbeats v) = some ⟨(last v).getD (seen v)⟩
  strangers : ∀ v, v ∉ workers → ∀ h, s.lookup (.workerHeartbeats v) = some h →
    isFresh settings.workerHeartbeatSeconds now (.workerHeartbeats v) h = false
  lapsed : ∀ p v owner, s.lookup (.partitionLeases p) = some v → v.ownedBy = some owner →
    owner ∉ workers → v.isLive now = false
  past : ∀ v t, last v = some t → t ≤ now
  /-- The leases of a worker are those of its last transaction, or have expired before. -/
  leases : ∀ owner t, last owner = some t → ∀ p v, s.lookup (.partitionLeases p) = some v →
    v.ownedBy = some owner → v.leaseUntil = some (t + seconds settings.workerLeaseSeconds) ∨
      v.isLive t = false
  share : ∀ v ∈ workers, ∀ t, last v = some t → (heldBy v t settings.matchmakingPartitions s).card
    ≤ fairPartitionCap settings.matchmakingPartitions workers.card

variable {settings : Settings} {workers : Finset String} {seen : String → Time}
  {last : String → Option Time} {now τ : Time} {s s' : Tables} {worker : String} {offset : ℕ}

namespace Recent

variable {v : String} {t : Time}

/-- A worker that has had a turn still has its leases and its heartbeat. -/
theorem of_some (h : Recent settings seen last v τ) (hlast : last v = some t) :
    τ < t + seconds settings.workerLeaseSeconds ∧ τ < t + seconds settings.workerHeartbeatSeconds := by
  rwa [Recent, hlast] at h

/-- A worker without a turn so far still has the heartbeat it came with. -/
theorem of_none (h : Recent settings seen last v τ) (hlast : last v = none) :
    τ < seen v + seconds settings.workerHeartbeatSeconds := by
  rwa [Recent, hlast] at h

/-- A worker that is not late was not late before. -/
theorem earlier (h : Recent settings seen last v τ) (hnow : now ≤ τ) : Recent settings seen last v now := by
  rw [Recent]
  cases hlast : last v with
  | none => exact Int.lt_of_le_of_lt hnow (h.of_none hlast)
  | some t =>
    have hrecent := h.of_some hlast
    exact ⟨Int.lt_of_le_of_lt hnow hrecent.1, Int.lt_of_le_of_lt hnow hrecent.2⟩

end Recent

/-- The first round starts from such a state, with no turn taken so far. -/
theorem ElasticStart.elastic {w : ServiceWorld} (h : ElasticStart settings workers seen w) :
    Elastic settings workers seen (fun _ => none) w.clock w.committed where
  partitions := h.partitions
  dated := h.dated
  heartbeats := h.heartbeats
  strangers := h.strangers
  lapsed := h.lapsed
  past _ _ hlast := by cases hlast
  leases _ _ hlast := by cases hlast
  share _ _ _ hlast := by cases hlast

namespace Elastic

/-- The other sessions keep it, and so does time. -/
theorem later (h : Elastic settings workers seen last now s) (hnow : now ≤ τ)
    (hs : ∀ k, IsLeaseKey k → s'.lookup k = s.lookup k) : Elastic settings workers seen last τ s' := by
  have hleases : ∀ p, s'.lookup (.partitionLeases p) = s.lookup (.partitionLeases p) := fun p => hs _ trivial
  have hbeats : ∀ v, s'.lookup (.workerHeartbeats v) = s.lookup (.workerHeartbeats v) := fun v => hs _ trivial
  refine ⟨fun p => ?_, fun p v => ?_, fun v => ?_, fun v hv b hb => ?_, fun p v owner hv howner hno => ?_,
    fun v t hlast => Int.le_trans (h.past v t hlast) hnow, fun owner t hlast p => ?_, fun v hv t hlast => ?_⟩
  · rw [hleases p]
    exact h.partitions p
  · rw [hleases p]
    exact h.dated p v
  · rw [hbeats v]
    exact h.heartbeats v
  · rw [hbeats v] at hb
    have hstale := Int.not_lt.mp (of_decide_eq_false (h.strangers v hv b hb))
    exact decide_eq_false (Int.not_lt.mpr (Int.le_trans hstale (Int.sub_le_sub_right hnow _)))
  · rw [hleases p] at hv
    exact PartitionLease.isLive_mono hnow (h.lapsed p v owner hv howner hno)
  · rw [hleases p]
    exact h.leases owner t hlast p
  · rw [heldBy, partitionsWith_congr hleases]
    exact h.share v hv t hlast

/-- What a worker holds by its last lease transaction it holds as long as it is in time. -/
theorem heldBy_current (h : Elastic settings workers seen last now s) {t : Time} (hlast : last worker = some t)
    (ht : t ≤ τ) (hin : τ < t + seconds settings.workerLeaseSeconds) :
    heldBy worker τ settings.matchmakingPartitions s = heldBy worker t settings.matchmakingPartitions s := by
  ext p
  rw [heldBy, heldBy, h.partitions.mem, h.partitions.mem]
  refine exists_congr fun v => and_congr_right fun hv => ?_
  rw [Bool.and_eq_true, Bool.and_eq_true]
  refine and_congr_right fun howned => ?_
  obtain huntil | hexpired := h.leases worker t hlast p v hv (of_decide_eq_true howned)
  · exact iff_of_true (PartitionLease.isLive_iff.mpr ⟨_, huntil, hin⟩)
      (PartitionLease.isLive_iff.mpr ⟨_, huntil, Int.lt_of_le_of_lt ht hin⟩)
  · rw [hexpired, PartitionLease.isLive_mono ht hexpired]

/-- The partitions that count as a worker's are owned by it. -/
theorem mem_heldBy_owner {n p : ℕ} (hs : HasPartitions n s) (h : p ∈ heldBy worker τ n s) :
    ownerOf s p = some worker := by
  obtain ⟨v, hv, hheld⟩ := hs.mem.mp h
  rw [ownerOf, hv]
  exact of_decide_eq_true ((Bool.and_eq_true _ _).mp hheld).1

/-- Every partition is available or held by one of the workers. -/
theorem covered (h : Elastic settings workers seen last now s) (hτ : now ≤ τ) :
    availableAt τ settings.matchmakingPartitions s ∪
      workers.biUnion (fun v => heldBy v τ settings.matchmakingPartitions s)
        = Finset.range settings.matchmakingPartitions := by
  ext p
  rw [Finset.mem_union, Finset.mem_biUnion, Finset.mem_range]
  constructor
  · rintro (hp | ⟨v, -, hp⟩) <;> exact Finset.mem_range.mp (Finset.filter_subset _ _ hp)
  · intro hp
    obtain ⟨v, hv⟩ := Option.isSome_iff_exists.mp ((h.partitions p).mpr hp)
    cases howner : v.ownedBy with
    | none =>
      refine .inl (h.partitions.mem.mpr ⟨v, hv, ?_⟩)
      rw [PartitionLease.isAvailable, howner]
      rfl
    | some owner =>
      obtain ⟨u, hu⟩ := Option.ne_none_iff_exists'.mp (h.dated p v hv (by simp [howner]))
      by_cases hlive : τ < u
      · right
        have hlive' : v.isLive τ = true := PartitionLease.isLive_iff.mpr ⟨u, hu, hlive⟩
        have howner' : owner ∈ workers := by
          by_contra hno
          rw [PartitionLease.isLive_mono hτ (h.lapsed p v owner hv howner hno)] at hlive'
          cases hlive'
        refine ⟨owner, howner', h.partitions.mem.mpr ⟨v, hv, (Bool.and_eq_true _ _).mpr ⟨?_, hlive'⟩⟩⟩
        exact decide_eq_true howner
      · refine .inl (h.partitions.mem.mpr ⟨v, hv, ?_⟩)
        exact PartitionLease.isAvailable_iff.mpr (.inr ⟨u, hu, Int.not_lt.mp hlive⟩)

/-- So many are available. -/
theorem card_available (h : Elastic settings workers seen last now s) (hτ : now ≤ τ) :
    (availableAt τ settings.matchmakingPartitions s).card
      + ∑ v ∈ workers, (heldBy v τ settings.matchmakingPartitions s).card = settings.matchmakingPartitions := by
  have hdisjoint : (workers : Set String).PairwiseDisjoint fun v => heldBy v τ settings.matchmakingPartitions s := by
    intro v _ u _ hne
    refine Finset.disjoint_left.mpr fun p hp hp' => hne ?_
    exact Option.some.inj ((mem_heldBy_owner h.partitions hp).symm.trans (mem_heldBy_owner h.partitions hp'))
  rw [← Finset.card_biUnion hdisjoint, ← Finset.card_union_of_disjoint, h.covered hτ, Finset.card_range]
  refine (Finset.disjoint_biUnion_right _ _ _).mpr fun v _ => ?_
  exact (disjoint_held h.partitions).symm

/-- A worker that is in time counts all workers, and nobody else. -/
theorem activeWorkers_eq (h : Elastic settings workers seen last now s) (hτ : now ≤ τ)
    (hin : InTime settings workers seen last τ) (hworker : worker ∈ workers)
    (hseconds : 0 < settings.workerHeartbeatSeconds) : activeWorkers settings worker τ s = workers.card := by
  have hkeys : ∀ k, k ∈ workers.image Key.workerHeartbeats ↔ ∃ v,
      (writeRow ⟨.workerHeartbeats worker, some ⟨τ⟩⟩ s).lookup k = some v ∧
        isFresh settings.workerHeartbeatSeconds τ k v = true := by
    intro k
    rw [Finset.mem_image]
    constructor
    · rintro ⟨v, hv, rfl⟩
      by_cases hown : v = worker
      · subst hown
        refine ⟨⟨τ⟩, lookup_writeRow_self _ _ _, decide_eq_true ?_⟩
        exact Int.sub_lt_self τ (seconds_pos hseconds)
      · refine ⟨_, (lookup_writeRow_ne (fun heq => hown (Key.workerHeartbeats.inj heq)) s).trans (h.heartbeats v hv), ?_⟩
        refine decide_eq_true (Int.sub_right_lt_of_lt_add ?_)
        cases hlast : last v with
        | none => exact (hin v hv).of_none hlast
        | some t => exact ((hin v hv).of_some hlast).2
    · rintro ⟨b, hb, hfresh⟩
      cases k with
      | workerHeartbeats v =>
        refine ⟨v, ?_, rfl⟩
        by_contra hno
        have hne : v ≠ worker := fun heq => hno (heq ▸ hworker)
        rw [lookup_writeRow_ne (fun heq => hne (Key.workerHeartbeats.inj heq))] at hb
        have hstale := Int.not_lt.mp (of_decide_eq_false (h.strangers v hno b hb))
        have hfresh := of_decide_eq_true hfresh
        exact absurd (Int.le_trans hstale (Int.sub_le_sub_right hτ _)) (Int.not_le.mpr hfresh)
      | _ => cases hfresh
  rw [activeWorkers, count_eq_card hkeys]
  exact Finset.card_image_of_injective _ fun v u hvu => Key.workerHeartbeats.inj hvu

end Elastic

/-! ## One lease transaction -/

section Step

variable {p : ℕ} {v : PartitionLease} {owner : String}

/-- A lease that another worker has afterwards it had before. -/
theorem LeaseOutcome.of_owner (h : LeaseOutcome settings worker offset τ s s')
    (hv : s'.lookup (.partitionLeases p) = some v) (howner : v.ownedBy = some owner) (hne : owner ≠ worker) :
    s.lookup (.partitionLeases p) = some v := by
  by_cases htaken : p ∈ taken settings worker offset τ s
  · by_cases hkept : p ∈ kept settings worker offset τ s
    · obtain ⟨u, hu, hown, -⟩ := h.keeps p hkept
      obtain rfl := Option.some.inj (hv.symm.trans hu)
      exact absurd (Option.some.inj (howner.symm.trans hown)) hne
    · obtain ⟨u, hu, hnone, -⟩ := h.releases p htaken hkept
      obtain rfl := Option.some.inj (hv.symm.trans hu)
      cases howner.symm.trans hnone
  · rwa [← h.same p htaken]

/-- A lease that the worker has afterwards is one that it keeps, or has expired. -/
theorem LeaseOutcome.of_own (hs : HasPartitions settings.matchmakingPartitions s)
    (h : LeaseOutcome settings worker offset τ s s') (hv : s'.lookup (.partitionLeases p) = some v)
    (howner : v.ownedBy = some worker) : v.leaseUntil = some (τ + seconds settings.workerLeaseSeconds) ∨
      s.lookup (.partitionLeases p) = some v ∧ v.isLive τ = false := by
  by_cases htaken : p ∈ taken settings worker offset τ s
  · by_cases hkept : p ∈ kept settings worker offset τ s
    · obtain ⟨u, hu, -, huntil⟩ := h.keeps p hkept
      obtain rfl := Option.some.inj (hv.symm.trans hu)
      exact .inl huntil
    · obtain ⟨u, hu, hnone, -⟩ := h.releases p htaken hkept
      obtain rfl := Option.some.inj (hv.symm.trans hu)
      cases howner.symm.trans hnone
  · rw [h.same p htaken] at hv
    refine .inr ⟨hv, Bool.eq_false_iff.mpr fun hlive => htaken (Finset.mem_union_left _ ?_)⟩
    exact hs.mem.mpr ⟨v, hv, (Bool.and_eq_true _ _).mpr ⟨decide_eq_true howner, hlive⟩⟩

namespace Elastic

/-- The other workers hold what they held. -/
theorem heldBy_other (h : Elastic settings workers seen last now s)
    (hout : LeaseOutcome settings worker offset τ s s') (hne : owner ≠ worker) {t : Time}
    (hlast : last owner = some t) (hin : τ < t + seconds settings.workerLeaseSeconds) :
    heldBy owner t settings.matchmakingPartitions s' = heldBy owner t settings.matchmakingPartitions s := by
  ext p
  rw [heldBy, heldBy, (hout.hasPartitions h.partitions).mem, h.partitions.mem]
  constructor
  · rintro ⟨v, hv, hheld⟩
    exact ⟨v, hout.of_owner hv (of_decide_eq_true ((Bool.and_eq_true _ _).mp hheld).1) hne, hheld⟩
  · rintro ⟨v, hv, hheld⟩
    refine ⟨v, ?_, hheld⟩
    obtain ⟨howned, hlive⟩ := (Bool.and_eq_true _ _).mp hheld
    have howner : v.ownedBy = some owner := of_decide_eq_true howned
    have huntil : v.leaseUntil = some (t + seconds settings.workerLeaseSeconds) :=
      (h.leases owner t hlast p v hv howner).resolve_right fun hexpired => by
        cases hexpired.symm.trans hlive
    have hlive' : v.isLive τ = true := PartitionLease.isLive_iff.mpr ⟨_, huntil, hin⟩
    have hnot : p ∉ taken settings worker offset τ s := notMem_taken h.partitions hv howner hne hlive'
    rw [hout.same p hnot, hv]

/-- While all workers are on time, the fair share that each computes is the same number of partitions. -/
theorem fairShare_eq (h : Elastic settings workers seen last now s) (hτ : now ≤ τ)
    (hin : InTime settings workers seen last τ) (hworker : worker ∈ workers)
    (hbeat : 0 < settings.workerHeartbeatSeconds) :
    fairShare settings worker τ s = fairPartitionCap settings.matchmakingPartitions workers.card := by
  rw [fairShare, h.activeWorkers_eq hτ hin hworker hbeat]

/-- A lease transaction of a worker keeps the invariant. -/
theorem step (h : Elastic settings workers seen last now s) (hτ : now ≤ τ)
    (hin : InTime settings workers seen last τ) (hworker : worker ∈ workers)
    (hlease : 0 < settings.workerLeaseSeconds) (hbeat : 0 < settings.workerHeartbeatSeconds)
    (hout : LeaseOutcome settings worker offset τ s s') :
    Elastic settings workers seen (Function.update last worker (some τ)) τ s' where
  partitions := hout.hasPartitions h.partitions
  dated p v hv howned := by
    obtain ⟨owner, howner⟩ := Option.ne_none_iff_exists'.mp howned
    -- the worker's own leases are dated from now, or were left alone; the others' are not touched
    by_cases hne : owner = worker
    · subst hne
      obtain huntil | ⟨hv, -⟩ := hout.of_own h.partitions hv howner
      · simp [huntil]
      · exact h.dated p v hv howned
    · exact h.dated p v (hout.of_owner hv howner hne) howned
  heartbeats v hv := by
    rw [hout.heartbeats v]
    by_cases hne : v = worker
    · subst hne
      rw [lookup_writeRow_self, Function.update_self]
      rfl
    · rw [lookup_writeRow_ne fun heq => hne (Key.workerHeartbeats.inj heq), Function.update_of_ne hne]
      exact h.heartbeats v hv
  strangers v hv b hb := by
    have hne : v ≠ worker := fun heq => hv (heq ▸ hworker)
    rw [hout.heartbeats v, lookup_writeRow_ne fun heq => hne (Key.workerHeartbeats.inj heq)] at hb
    have hstale := Int.not_lt.mp (of_decide_eq_false (h.strangers v hv b hb))
    exact decide_eq_false (Int.not_lt.mpr (Int.le_trans hstale (Int.sub_le_sub_right hτ _)))
  lapsed p v owner hv howner hno := by
    have hne : owner ≠ worker := fun heq => hno (heq ▸ hworker)
    exact PartitionLease.isLive_mono hτ (h.lapsed p v owner (hout.of_owner hv howner hne) howner hno)
  past v t hlast := by
    by_cases hne : v = worker
    · subst hne
      rw [Function.update_self] at hlast
      cases hlast
      exact Int.le_refl _
    · rw [Function.update_of_ne hne] at hlast
      exact Int.le_trans (h.past v t hlast) hτ
  leases owner t hlast p v hv howner := by
    by_cases hne : owner = worker
    · subst hne
      rw [Function.update_self] at hlast
      cases hlast
      exact (hout.of_own h.partitions hv howner).imp_right And.right
    · rw [Function.update_of_ne hne] at hlast
      exact h.leases owner t hlast p v (hout.of_owner hv howner hne) howner
  share v hv t hlast := by
    by_cases hne : v = worker
    · subst hne
      rw [Function.update_self] at hlast
      cases hlast
      rw [(hout.effect hlease h.partitions).count, h.fairShare_eq hτ hin hworker hbeat]
      exact Nat.min_le_left _ _
    · rw [Function.update_of_ne hne] at hlast
      have hrecent := (hin v hv).of_some hlast
      rw [h.heldBy_other hout hne hlast hrecent.1]
      exact h.share v hv t hlast

/-- A worker in time holds at `τ` what it held by its last lease transaction. -/
theorem card_heldBy (h : Elastic settings workers seen last now s) (hτ : now ≤ τ)
    (hin : InTime settings workers seen last τ) (hall : ∀ v ∈ workers, last v ≠ none) {v : String}
    (hv : v ∈ workers) :
    (heldBy v τ settings.matchmakingPartitions s).card = holdings settings last s v := by
  obtain ⟨t, hlast⟩ := Option.ne_none_iff_exists'.mp (hall v hv)
  have hrecent := (hin v hv).of_some hlast
  rw [h.heldBy_current hlast (Int.le_trans (h.past v t hlast) hτ) hrecent.1, holdings, hlast]
  rfl

/-- So many are available. -/
theorem card_availableAt (h : Elastic settings workers seen last now s) (hτ : now ≤ τ)
    (hin : InTime settings workers seen last τ) (hall : ∀ v ∈ workers, last v ≠ none) :
    (availableAt τ settings.matchmakingPartitions s).card
      = settings.matchmakingPartitions - ∑ v ∈ workers, holdings settings last s v := by
  have hsum := h.card_available hτ
  rw [Finset.sum_congr rfl fun v hv => h.card_heldBy hτ hin hall hv] at hsum
  omega

/-- Once all have had their turns, the holdings are shares of the stock. -/
theorem within (h : Elastic settings workers seen last now s) (hall : ∀ v ∈ workers, last v ≠ none) :
    (stock settings workers).Within (holdings settings last s) where
  le_cap v hv := by
    obtain ⟨t, hlast⟩ := Option.ne_none_iff_exists'.mp (hall v hv)
    rw [holdings, hlast]
    exact h.share v hv t hlast
  sum_le := by
    have hdisjoint : (workers : Set String).PairwiseDisjoint fun v =>
        heldBy v ((last v).getD 0) settings.matchmakingPartitions s := by
      intro v _ u _ hne
      refine Finset.disjoint_left.mpr fun p hp hp' => hne ?_
      exact Option.some.inj ((mem_heldBy_owner h.partitions hp).symm.trans (mem_heldBy_owner h.partitions hp'))
    have hsub : workers.biUnion (fun v => heldBy v ((last v).getD 0) settings.matchmakingPartitions s)
        ⊆ Finset.range settings.matchmakingPartitions :=
      Finset.biUnion_subset.mpr fun v _ => Finset.filter_subset _ _
    have hcard := Finset.card_le_card hsub
    rw [Finset.card_biUnion hdisjoint, Finset.card_range] at hcard
    exact hcard

/-- A lease transaction is a turn of its worker. -/
theorem holdings_step (h : Elastic settings workers seen last now s) (hτ : now ≤ τ)
    (hin : InTime settings workers seen last τ) (hworker : worker ∈ workers)
    (hlease : 0 < settings.workerLeaseSeconds) (hbeat : 0 < settings.workerHeartbeatSeconds)
    (hall : ∀ v ∈ workers, last v ≠ none) (hout : LeaseOutcome settings worker offset τ s s') {u : String}
    (hu : u ∈ workers) : holdings settings (Function.update last worker (some τ)) s' u
      = (stock settings workers).fill (holdings settings last s) worker u := by
  by_cases hne : u = worker
  · subst hne
    rw [Stock.fill_self, holdings, Function.update_self]
    have hcount := (hout.effect hlease h.partitions).count
    rw [h.fairShare_eq hτ hin hu hbeat, h.card_heldBy hτ hin hall hu, h.card_availableAt hτ hin hall] at hcount
    exact hcount
  · obtain ⟨t, hlast⟩ := Option.ne_none_iff_exists'.mp (hall u hu)
    have hrecent := (hin u hu).of_some hlast
    rw [Stock.fill_ne hne, holdings, holdings, Function.update_of_ne hne, hlast]
    exact congrArg Finset.card (h.heldBy_other hout hne hlast hrecent.1)

end Elastic

/-- Where all is held and the worker has its share, a lease transaction changes no owner. -/
theorem LeaseOutcome.owner_same (hs : HasPartitions settings.matchmakingPartitions s)
    (h : LeaseOutcome settings worker offset τ s s')
    (havailable : availableAt τ settings.matchmakingPartitions s = ∅)
    (hshare : (heldBy worker τ settings.matchmakingPartitions s).card ≤ fairShare settings worker τ s) (p : ℕ) :
    ownerOf s' p = ownerOf s p := by
  have hclaimed : newlyClaimed settings offset τ s = ∅ :=
    Finset.subset_empty.mp (havailable ▸ firsts_subset)
  have htaken : taken settings worker offset τ s = heldBy worker τ settings.matchmakingPartitions s := by
    rw [taken, hclaimed, Finset.union_empty]
  have hkept : kept settings worker offset τ s = heldBy worker τ settings.matchmakingPartitions s := by
    rw [kept, htaken, firsts_eq_self hshare]
  by_cases hp : p ∈ heldBy worker τ settings.matchmakingPartitions s
  · obtain ⟨v, hv, howner, -⟩ := h.keeps p (hkept ▸ hp)
    rw [Elastic.mem_heldBy_owner hs hp, ownerOf, hv]
    exact howner
  · rw [ownerOf, ownerOf, h.same p (htaken ▸ hp)]

end Step

/-! ## Runs -/

section Runs

variable {turns more : List LeaseTurn} {w w' : ServiceWorld} {v : String}

/-- The last turns after two runs are those of the second, on top of the first. -/
theorem lastAfter_append : lastAfter last (turns ++ more) = lastAfter (lastAfter last turns) more :=
  List.foldl_append

/-- A worker that has had a turn keeps a last turn. -/
theorem update_ne_none (h : last v ≠ none) : Function.update last worker (some τ) v ≠ none := by
  by_cases hne : v = worker
  · rw [hne, Function.update_self]
    exact Option.some_ne_none _
  · rwa [Function.update_of_ne hne]

/-- After its turn a worker has a last turn. -/
theorem lastAfter_ne_none (h : last v ≠ none ∨ ∃ turn ∈ turns, turn.workerId = v) :
    lastAfter last turns v ≠ none := by
  induction turns generalizing last with
  | nil =>
    obtain hlast | ⟨turn, hmem, -⟩ := h
    · exact hlast
    · cases hmem
  | cons turn turns ih =>
    refine ih ?_
    dsimp only
    by_cases hne : v = turn.workerId
    · rw [hne, Function.update_self]
      exact .inl (Option.some_ne_none _)
    · rw [Function.update_of_ne hne]
      refine h.imp_right fun hex => ?_
      obtain ⟨other, hmem, hother⟩ := hex
      obtain rfl | hmem := List.mem_cons.mp hmem
      · exact absurd hother.symm hne
      · exact ⟨other, hmem, hother⟩

/-- Two runs are on time if the first is, and the second is from where the first has left the workers. -/
theorem onTime_append : OnTime settings workers seen last (turns ++ more) ↔
    OnTime settings workers seen last turns ∧ OnTime settings workers seen (lastAfter last turns) more := by
  induction turns generalizing last with
  | nil => exact (and_iff_right trivial).symm
  | cons turn turns ih =>
    show InTime _ _ _ _ _ ∧ OnTime settings workers seen _ (turns ++ more) ↔ _
    rw [ih]
    exact and_assoc.symm

namespace LeaseRun

/-- A run through two lists of turns passes through the state between them. -/
theorem of_append (h : LeaseRun settings (turns ++ more) w w') :
    ∃ w₁, LeaseRun settings turns w w₁ ∧ LeaseRun settings more w₁ w' := by
  induction turns generalizing w with
  | nil => exact ⟨w, .nil (.refl w), h⟩
  | cons turn turns ih =>
    cases h with
    | cons hbefore htime hrun h =>
      obtain ⟨w₁, hturns, hmore⟩ := ih h
      exact ⟨w₁, .cons hbefore htime hrun hturns, hmore⟩

/-- A run may be preceded by anything that leaves leases and heartbeats alone. -/
theorem after {w₁ : ServiceWorld} (h : LeaseRun settings turns w₁ w') (hbefore : LeavesRows IsLeaseKey w w₁) :
    LeaseRun settings turns w w' := by
  cases h with
  | nil h => exact .nil (hbefore.trans h)
  | cons hbefore' htime hrun h => exact .cons (hbefore.trans hbefore') htime hrun h

theorem append {w₁ : ServiceWorld} (h : LeaseRun settings turns w w₁) (h' : LeaseRun settings more w₁ w') :
    LeaseRun settings (turns ++ more) w w' := by
  induction h with
  | nil h => exact h'.after h
  | cons hbefore htime hrun _ ih => exact .cons hbefore htime hrun (ih h')

theorem clock (h : LeaseRun settings turns w w') : w.clock ≤ w'.clock := by
  induction h with
  | nil h => exact h.clock
  | cons hbefore _ hrun _ ih => exact Int.le_trans hbefore.clock (Int.le_trans hrun.clock ih)

/-- Lease transactions lie in the past. -/
theorem past (h : LeaseRun settings turns w w') (hpast : ∀ v t, last v = some t → t ≤ w.clock) :
    ∀ v t, lastAfter last turns v = some t → t ≤ w'.clock := by
  induction h generalizing last with
  | nil h => exact fun v t hlast => Int.le_trans (hpast v t hlast) h.clock
  | cons hbefore htime hrun h ih =>
    refine ih fun v t hlast => ?_
    have hclock := Int.le_trans hbefore.clock hrun.clock
    dsimp only at hlast
    rw [Function.update_apply] at hlast
    split at hlast
    · cases hlast
      rw [← htime]
      exact hrun.clock
    · exact Int.le_trans (hpast v t hlast) hclock

/-- They take place between its beginning and its end. -/
theorem times (h : LeaseRun settings turns w w') :
    ∀ turn ∈ turns, w.clock ≤ turn.time ∧ turn.time ≤ w'.clock := by
  induction h with
  | nil => exact fun turn hmem => (List.not_mem_nil hmem).elim
  | cons hbefore htime hrun h ih =>
    intro turn hmem
    obtain rfl | hmem := List.mem_cons.mp hmem
    · rw [← htime]
      exact ⟨hbefore.clock, Int.le_trans hrun.clock h.clock⟩
    · obtain ⟨hfrom, hto⟩ := ih turn hmem
      exact ⟨Int.le_trans hbefore.clock (Int.le_trans hrun.clock hfrom), hto⟩

end LeaseRun

/-- A worker that has its next lease transaction in time is not late before. -/
theorem Punctual.recent (h : Punctual settings seen last turns) (hmem : ∃ turn ∈ turns, turn.workerId = v)
    (hlater : ∀ turn ∈ turns, τ ≤ turn.time) : Recent settings seen last v τ := by
  induction turns generalizing last with
  | nil =>
    obtain ⟨turn, hmem, -⟩ := hmem
    cases hmem
  | cons turn turns ih =>
    by_cases hne : v = turn.workerId
    · subst hne
      exact h.1.earlier (hlater turn List.mem_cons_self)
    · have hrest : ∃ turn ∈ turns, turn.workerId = v := by
        obtain ⟨other, hmem, hother⟩ := hmem
        obtain rfl | hmem := List.mem_cons.mp hmem
        · exact absurd hother.symm hne
        · exact ⟨other, hmem, hother⟩
      have hrecent := ih h.2 hrest fun other hother => hlater other (List.mem_cons_of_mem _ hother)
      rwa [Recent, Function.update_of_ne hne] at hrecent

/-- Workers that go on are in time at all lease transactions, and after them. -/
theorem LeaseRun.inTime (h : LeaseRun settings turns w w')
    (hpunctual : Punctual settings seen last (turns ++ more))
    (hmore : ∀ v ∈ workers, ∃ turn ∈ more, turn.workerId = v) (hlater : ∀ turn ∈ more, w'.clock ≤ turn.time) :
    OnTime settings workers seen last turns ∧ InTime settings workers seen (lastAfter last turns) w'.clock := by
  induction h generalizing last with
  | nil => exact ⟨trivial, fun v hv => hpunctual.recent (hmore v hv) hlater⟩
  | @cons turn turns _ _ _ _ _ w₁ w₂ _ hbefore htime hrun h ih =>
    obtain ⟨hontime, hin⟩ := ih hpunctual.2 hlater
    refine ⟨⟨fun v hv => hpunctual.recent ?_ ?_, hontime⟩, hin⟩
    · obtain ⟨other, hmem, hother⟩ := hmore v hv
      exact ⟨other, List.mem_append_right (turn :: turns) hmem, hother⟩
    · rw [← htime]
      intro other hmem
      obtain hmem | hmem := List.mem_append.mp hmem
      · obtain rfl | hmem := List.mem_cons.mp hmem
        · exact Int.le_of_eq htime
        · exact Int.le_trans hrun.clock (h.times other hmem).1
      · exact Int.le_trans hrun.clock (Int.le_trans h.clock (hlater other hmem))

end Runs

/-! ## What runs keep -/

section Keeps

variable {turns : List LeaseTurn} {w w₁ w₂ w' : ServiceWorld}

/-- Who owns a partition is decided by rows of leases only. -/
theorem ownerOf_congr (h : ∀ k, IsLeaseKey k → s'.lookup k = s.lookup k) (p : ℕ) :
    ownerOf s' p = ownerOf s p := by
  rw [ownerOf, ownerOf, h (.partitionLeases p) trivial]

/-- How many partitions each worker holds is decided by them too. -/
theorem holdings_congr (h : ∀ k, IsLeaseKey k → s'.lookup k = s.lookup k) :
    holdings settings last s' = holdings settings last s := by
  funext v
  rw [holdings, holdings, heldBy, heldBy, partitionsWith_congr fun p => h (.partitionLeases p) trivial]

/-- Nothing is available once the holdings are full. -/
theorem Elastic.available_empty (h : Elastic settings workers seen last now s) (hτ : now ≤ τ)
    (hin : InTime settings workers seen last τ) (hall : ∀ v ∈ workers, last v ≠ none)
    (hfull : (stock settings workers).Full (holdings settings last s)) :
    availableAt τ settings.matchmakingPartitions s = ∅ := by
  have hcard := h.card_availableAt hτ hin hall
  have hsum : ∑ v ∈ workers, holdings settings last s v = settings.matchmakingPartitions := hfull
  rw [hsum, Nat.sub_self] at hcard
  exact Finset.card_eq_zero.mp hcard

section

variable (henabled : settings.workerElasticRebalanceEnabled = true)
  (hlease : 0 < settings.workerLeaseSeconds) (hbeat : 0 < settings.workerHeartbeatSeconds)

include henabled hlease

/-- What a turn begins with, and what it leaves. -/
theorem Elastic.turn {turn : LeaseTurn} {i : ℕ} {l : Actor} {counts : ℕ × ℕ × ℕ} {T : Option (Txn Row)}
    (h : Elastic settings workers seen last w.clock w.committed) (hbefore : LeavesRows IsLeaseKey w w₁)
    (htime : w₁.clock = turn.time) (hrun : Prog.Amid IsLeaseKey i l
      (leaseTransaction settings turn.workerId turn.offset).run w₁ none (.ok counts) w₂ T) :
    Elastic settings workers seen last turn.time w₁.committed ∧ turn.time ≤ w₂.clock ∧
      LeaseOutcome settings turn.workerId turn.offset turn.time w₁.committed w₂.committed := by
  have h₁ := h.later hbefore.clock hbefore.rows
  have hclock := hrun.clock
  obtain ⟨-, hout⟩ := leaseTransaction_yields hlease henabled h₁.partitions counts w₂ T hrun
  rw [htime] at h₁ hclock hout
  exact ⟨h₁, hclock, hout⟩

include hbeat

namespace LeaseRun

/-- What is known of leases and heartbeats is kept from turn to turn, with each turn refreshing those of its
worker. -/
theorem elastic (h : LeaseRun settings turns w w')
    (helastic : Elastic settings workers seen last w.clock w.committed)
    (hturns : ∀ turn ∈ turns, turn.workerId ∈ workers) (hontime : OnTime settings workers seen last turns) :
    Elastic settings workers seen (lastAfter last turns) w'.clock w'.committed := by
  induction h generalizing last with
  | nil h => exact helastic.later h.clock h.rows
  | @cons turn turns _ _ _ _ _ _ _ _ hbefore htime hrun h ih =>
    obtain ⟨h₁, hclock, hout⟩ := helastic.turn henabled hlease hbefore htime hrun
    have hworker := hturns turn List.mem_cons_self
    have h₂ := h₁.step (Int.le_refl _) hontime.1 hworker hlease hbeat hout
    exact ih (h₂.later hclock fun _ _ => rfl) (fun t ht => hturns t (List.mem_cons_of_mem _ ht)) hontime.2

/-- The holdings are filled up in turns. -/
theorem holdings_eq (h : LeaseRun settings turns w w')
    (helastic : Elastic settings workers seen last w.clock w.committed)
    (hturns : ∀ turn ∈ turns, turn.workerId ∈ workers) (hontime : OnTime settings workers seen last turns)
    (hall : ∀ v ∈ workers, last v ≠ none) : ∀ u ∈ workers, holdings settings (lastAfter last turns) w'.committed u
      = (stock settings workers).fillAll (holdings settings last w.committed) (turns.map LeaseTurn.workerId) u := by
  induction h generalizing last with
  | nil h =>
    intro u _
    rw [holdings_congr h.rows]
    rfl
  | @cons turn turns _ _ _ _ w w₁ w₂ _ hbefore htime hrun h ih =>
    obtain ⟨h₁, hclock, hout⟩ := helastic.turn henabled hlease hbefore htime hrun
    have hworker := hturns turn List.mem_cons_self
    have hrest : ∀ t ∈ turns, t.workerId ∈ workers := fun t ht => hturns t (List.mem_cons_of_mem _ ht)
    have hparties : ∀ v ∈ turns.map LeaseTurn.workerId, v ∈ workers := by
      intro v hv
      obtain ⟨t, ht, rfl⟩ := List.mem_map.mp hv
      exact hrest t ht
    have h₂ := h₁.step (Int.le_refl _) hontime.1 hworker hlease hbeat hout
    have hall₂ : ∀ v ∈ workers, Function.update last turn.workerId (some turn.time) v ≠ none := fun v hv =>
      update_ne_none (hall v hv)
    have hfill : ∀ u ∈ workers, holdings settings (Function.update last turn.workerId (some turn.time)) w₂.committed u
        = (stock settings workers).fill (holdings settings last w.committed) turn.workerId u := by
      intro u hu
      rw [← holdings_congr hbefore.rows]
      exact h₁.holdings_step (Int.le_refl _) hontime.1 hworker hlease hbeat hall hout hu
    intro u hu
    rw [List.map_cons, Stock.fillAll_cons, ← Stock.fillAll_congr hfill hparties u hu]
    exact ih (h₂.later hclock fun _ _ => rfl) hrest hontime.2 hall₂ u hu

/-- Once the holdings are full, the owners stay the same. -/
theorem owners_same (h : LeaseRun settings turns w w')
    (helastic : Elastic settings workers seen last w.clock w.committed)
    (hturns : ∀ turn ∈ turns, turn.workerId ∈ workers) (hontime : OnTime settings workers seen last turns)
    (hall : ∀ v ∈ workers, last v ≠ none)
    (hfull : (stock settings workers).Full (holdings settings last w.committed))
    (p : ℕ) : ownerOf w'.committed p = ownerOf w.committed p := by
  induction h generalizing last with
  | nil h => exact ownerOf_congr h.rows p
  | @cons turn turns _ _ _ _ w w₁ w₂ _ hbefore htime hrun h ih =>
    obtain ⟨h₁, hclock, hout⟩ := helastic.turn henabled hlease hbefore htime hrun
    have hworker := hturns turn List.mem_cons_self
    have h₂ := h₁.step (Int.le_refl _) hontime.1 hworker hlease hbeat hout
    rw [← holdings_congr hbefore.rows] at hfull
    have hsame : ∀ u ∈ workers, holdings settings (Function.update last turn.workerId (some turn.time)) w₂.committed u
        = holdings settings last w₁.committed u := by
      intro u hu
      rw [h₁.holdings_step (Int.le_refl _) hontime.1 hworker hlease hbeat hall hout hu,
        (h₁.within hall).fill_full hworker hfull]
    have hshare : (heldBy turn.workerId turn.time settings.matchmakingPartitions w₁.committed).card
        ≤ fairShare settings turn.workerId turn.time w₁.committed := by
      rw [h₁.fairShare_eq (Int.le_refl _) hontime.1 hworker hbeat,
        h₁.card_heldBy (Int.le_refl _) hontime.1 hall hworker]
      exact (h₁.within hall).le_cap turn.workerId hworker
    have hempty := h₁.available_empty (Int.le_refl _) hontime.1 hall hfull
    rw [ih (h₂.later hclock fun _ _ => rfl) (fun t ht => hturns t (List.mem_cons_of_mem _ ht)) hontime.2
        (fun v hv => update_ne_none (hall v hv)) ?_,
      hout.owner_same h₁.partitions hempty hshare p, ownerOf_congr hbefore.rows p]
    exact (Finset.sum_congr rfl hsame).trans hfull

/-- And so do the holdings. -/
theorem full (h : LeaseRun settings turns w w')
    (helastic : Elastic settings workers seen last w.clock w.committed)
    (hturns : ∀ turn ∈ turns, turn.workerId ∈ workers) (hontime : OnTime settings workers seen last turns)
    (hall : ∀ v ∈ workers, last v ≠ none)
    (hfull : (stock settings workers).Full (holdings settings last w.committed)) :
    (stock settings workers).Full (holdings settings (lastAfter last turns) w'.committed) := by
  have hparties : ∀ v ∈ turns.map LeaseTurn.workerId, v ∈ workers := by
    intro v hv
    obtain ⟨t, ht, rfl⟩ := List.mem_map.mp hv
    exact hturns t ht
  have heq := h.holdings_eq henabled hlease hbeat helastic hturns hontime hall
  rw [(helastic.within hall).fillAll_full hparties hfull] at heq
  exact (Finset.sum_congr rfl heq).trans hfull

/-- Rounds enough to fill a share use up the partitions. -/
theorem full_of_rounds {rounds : List (List LeaseTurn)} (h : LeaseRun settings rounds.flatten w w')
    (helastic : Elastic settings workers seen last w.clock w.committed)
    (hturns : ∀ turn ∈ rounds.flatten, turn.workerId ∈ workers)
    (hontime : OnTime settings workers seen last rounds.flatten) (hall : ∀ v ∈ workers, last v ≠ none)
    (hrounds : ∀ round ∈ rounds, ∀ v ∈ workers, ∃ turn ∈ round, turn.workerId = v)
    (hcover : settings.matchmakingPartitions
      ≤ workers.card * fairPartitionCap settings.matchmakingPartitions workers.card)
    (hlength : fairPartitionCap settings.matchmakingPartitions workers.card
      ≤ rounds.length * settings.workerPartitionBatchSize) :
    (stock settings workers).Full (holdings settings (lastAfter last rounds.flatten) w'.committed) := by
  have heq := h.holdings_eq henabled hlease hbeat helastic hturns hontime hall
  rw [List.map_flatten] at heq
  refine (Finset.sum_congr rfl heq).trans ((helastic.within hall).full_of_rounds ?_ ?_ hcover ?_)
  · intro round hround v hv
    obtain ⟨turns, hmem, rfl⟩ := List.mem_map.mp hround
    obtain ⟨turn, hturn, rfl⟩ := List.mem_map.mp hv
    exact hturns turn (List.mem_flatten.mpr ⟨turns, hmem, hturn⟩)
  · intro round hround v hv
    obtain ⟨turns, hmem, rfl⟩ := List.mem_map.mp hround
    exact List.mem_map.mpr (hrounds turns hmem v hv)
  · rwa [List.length_map]

end LeaseRun

end

/-- Where the holdings are full, the partitions are shared out. -/
theorem Elastic.balanced (h : Elastic settings workers seen last w.clock w.committed)
    (hin : InTime settings workers seen last w.clock) (hall : ∀ v ∈ workers, last v ≠ none)
    (hfull : (stock settings workers).Full (holdings settings last w.committed)) : Balanced settings workers w where
  held p hp := by
    have hcovered := h.covered (Int.le_refl _)
    rw [h.available_empty (Int.le_refl _) hin hall hfull, Finset.empty_union] at hcovered
    have hmem : p ∈ Finset.range settings.matchmakingPartitions := Finset.mem_range.mpr hp
    rw [← hcovered, Finset.mem_biUnion] at hmem
    obtain ⟨v, hv, hheld⟩ := hmem
    refine ⟨v, ⟨hv, hheld⟩, fun u hu => ?_⟩
    exact Option.some.inj ((mem_heldBy_owner h.partitions hu.2).symm.trans (mem_heldBy_owner h.partitions hheld))
  fair v hv := by
    rw [h.card_heldBy (Int.le_refl _) hin hall hv]
    exact (h.within hall).le_cap v hv

end Keeps

/-! ## Main result -/

/-- The ceiling of a quotient, times the divisor, is at least the dividend. -/
theorem le_ceil_mul {a b : ℕ} (hb : 0 < b) : a ≤ (a + b - 1) / b * b := by
  have hlt := Nat.lt_div_mul_add (a := a + b - 1) hb
  omega

/-- The fair shares cover the partitions. -/
theorem le_card_mul_cap {totalPartitions activeWorkers : ℕ} (h : 0 < activeWorkers) :
    totalPartitions ≤ activeWorkers * fairPartitionCap totalPartitions activeWorkers := by
  rw [fairPartitionCap]
  split
  · omega
  · rw [if_neg (Nat.ne_of_gt h), Nat.mul_comm]
    exact le_ceil_mul h

/-- A worker in time has leases and heartbeats that last. -/
theorem Recent.seconds_pos {v : String} {t : Time} (h : Recent settings seen last v τ) (hlast : last v = some t)
    (ht : t ≤ τ) : 0 < settings.workerLeaseSeconds ∧ 0 < settings.workerHeartbeatSeconds := by
  have hpos : ∀ n : ℕ, τ < t + seconds n → 0 < n := by
    intro n hn
    refine Nat.pos_of_ne_zero fun hzero => ?_
    subst hzero
    exact absurd (Int.le_trans (Int.le_of_eq (Int.add_zero t)) ht) (Int.not_le.mpr hn)
  exact (h.of_some hlast).imp (hpos _) (hpos _)

/-- **Rebalancing converges.** After one round of lease transactions, and as many more as it takes to claim a
fair share in batches, every partition is held by exactly one of the workers, and none has more than its fair
share. It stays so while the workers go on, and no partition changes its owner any more. -/
theorem rebalancing_converges {rounds : List (List LeaseTurn)} {more next : List LeaseTurn}
    {w w₁ w₂ : ServiceWorld} (henabled : settings.workerElasticRebalanceEnabled = true)
    (hbatch : 1 ≤ settings.workerPartitionBatchSize) (hworkers : workers.Nonempty)
    (hstart : ElasticStart settings workers seen w)
    (hturns : ∀ turn ∈ rounds.flatten ++ more, turn.workerId ∈ workers)
    (hrounds : ∀ round ∈ rounds, ∀ v ∈ workers, ∃ turn ∈ round, turn.workerId = v)
    (hlength : 1 + (fairPartitionCap settings.matchmakingPartitions workers.card
      + settings.workerPartitionBatchSize - 1) / settings.workerPartitionBatchSize ≤ rounds.length)
    (hrun : LeaseRun settings rounds.flatten w w₁) (hmore : LeaseRun settings more w₁ w₂)
    (hpunctual : Punctual settings seen (fun _ => none) (rounds.flatten ++ more ++ next))
    (hnext : ∀ v ∈ workers, ∃ turn ∈ next, turn.workerId = v) (hlater : ∀ turn ∈ next, w₂.clock ≤ turn.time) :
    Balanced settings workers w₂ ∧ ∀ p, ownerOf w₂.committed p = ownerOf w₁.committed p := by
  obtain ⟨hontime, hin⟩ := (hrun.append hmore).inTime hpunctual hnext hlater
  cases rounds with
  | nil => exact absurd hlength (by simp)
  | cons first rounds =>
    have hfirst : ∀ v ∈ workers, lastAfter (fun _ => none) first v ≠ none := fun v hv =>
      lastAfter_ne_none (.inr (hrounds first List.mem_cons_self v hv))
    have hall : ∀ v ∈ workers, ∀ turns, lastAfter (lastAfter (fun _ => none) first) turns v ≠ none :=
      fun v hv turns => lastAfter_ne_none (.inl (hfirst v hv))
    -- leases and heartbeats last, since a worker is in time at the end
    obtain ⟨hlease, hbeat⟩ : 0 < settings.workerLeaseSeconds ∧ 0 < settings.workerHeartbeatSeconds := by
      obtain ⟨v, hv⟩ := hworkers
      have hpast := @LeaseRun.past _ (fun _ => none) _ _ _ (hrun.append hmore) fun _ _ hlast => by cases hlast
      have hsome : lastAfter (fun _ => none) ((first :: rounds).flatten ++ more) v ≠ none := by
        rw [List.flatten_cons, List.append_assoc, lastAfter_append]
        exact hall v hv _
      obtain ⟨t, ht⟩ := Option.ne_none_iff_exists'.mp hsome
      exact (hin v hv).seconds_pos ht (hpast v t ht)
    rw [List.flatten_cons, List.append_assoc] at hontime hturns hin
    rw [onTime_append, onTime_append] at hontime
    obtain ⟨hontime₀, hontime₁, hontime₂⟩ := hontime
    have hturns₀ : ∀ turn ∈ first, turn.workerId ∈ workers := fun turn hmem =>
      hturns turn (List.mem_append_left _ hmem)
    have hturns₁ : ∀ turn ∈ rounds.flatten, turn.workerId ∈ workers := fun turn hmem =>
      hturns turn (List.mem_append_right _ (List.mem_append_left _ hmem))
    have hturns₂ : ∀ turn ∈ more, turn.workerId ∈ workers := fun turn hmem =>
      hturns turn (List.mem_append_right _ (List.mem_append_right _ hmem))
    obtain ⟨w₀, hrun₀, hrun₁⟩ := LeaseRun.of_append hrun
    have h₀ := hrun₀.elastic henabled hlease hbeat hstart.elastic hturns₀ hontime₀
    have h₁ := hrun₁.elastic henabled hlease hbeat h₀ hturns₁ hontime₁
    have h₂ := hmore.elastic henabled hlease hbeat h₁ hturns₂ hontime₂
    -- the rounds after the first fill the partitions: each takes a batch more, until none is free
    have hfull₁ := hrun₁.full_of_rounds henabled hlease hbeat h₀ hturns₁ hontime₁ hfirst
      (fun round hround => hrounds round (List.mem_cons_of_mem _ hround))
      (le_card_mul_cap (Finset.card_pos.mpr hworkers))
      (Nat.le_trans (le_ceil_mul hbatch) (Nat.mul_le_mul_right _ (by rw [List.length_cons] at hlength; omega)))
    have hall₁ := fun v hv => hall v hv rounds.flatten
    have hfull₂ := hmore.full henabled hlease hbeat h₁ hturns₂ hontime₂ hall₁ hfull₁
    rw [lastAfter_append, lastAfter_append] at hin
    refine ⟨h₂.balanced hin (fun v hv => lastAfter_ne_none (.inl (hall₁ v hv))) hfull₂, fun p => ?_⟩
    exact hmore.owners_same henabled hlease hbeat h₁ hturns₂ hontime₂ hall₁ hfull₁ p

/-! ## A worker joins -/

/-- Lease transactions, each run alone at its time. -/
def turnsAlone (settings : Settings) : List LeaseTurn → ServiceWorld → Option ServiceWorld
  | [], w => some w
  | turn :: turns, w =>
    if w.clock ≤ turn.time then
      match Prog.alone quietAnswer 1 (.runLoop settings turn.workerId turn.offset)
        (leaseTransaction settings turn.workerId turn.offset).run { w with clock := turn.time } none with
      | some (.ok _, w', none) => turnsAlone settings turns w'
      | _ => none
    else none

/-- Turns that are run one after the other, each alone, make up a run. -/
theorem LeaseRun.of_alone {settings : Settings} {turns : List LeaseTurn} {w w' : ServiceWorld}
    (h : turnsAlone settings turns w = some w') : LeaseRun settings turns w w' := by
  induction turns generalizing w with
  | nil =>
    cases h
    exact .nil (.refl _)
  | cons turn turns ih =>
    rw [turnsAlone] at h
    split at h
    · rename_i hclock
      split at h
      · rename_i counts w₁ hrun
        have hbefore : LeavesRows IsLeaseKey w { w with clock := turn.time } := ⟨hclock, fun _ _ => rfl⟩
        exact .cons hbefore rfl (.of_alone hrun) (ih h)
      · cases h
    · cases h

/-- Two partitions, whose leases last 15 seconds. -/
def pairSettings : Settings := { matchmakingPartitions := 2 }

/-- The lease of `a`. -/
def joinedLease : PartitionLease where
  ownedBy := some "a"
  leaseUntil := some (seconds 9)
  updatedAt := 0

/-- `a` holds both partitions, and `b` has just started. -/
def joinedWorld : ServiceWorld where
  committed := patch [⟨.partitionLeases 0, some joinedLease⟩, ⟨.partitionLeases 1, some joinedLease⟩,
    ⟨.workerHeartbeats "a", some ⟨0⟩⟩, ⟨.workerHeartbeats "b", some ⟨0⟩⟩] ∅
  clock := 0
  log := []

/-- A round of lease transactions of `a` and `b`. -/
def joinedRound (n : ℕ) : List LeaseTurn := [⟨"a", 0, seconds n⟩, ⟨"b", 1, seconds n⟩]

/-- The sample's state is one from which balancing may start. -/
theorem joinedWorld_start : ElasticStart pairSettings {"a", "b"} (fun _ => 0) joinedWorld := by
  have hheartbeats : ∀ v, v ∉ ({"a", "b"} : Finset String) →
      joinedWorld.committed.lookup (.workerHeartbeats v) = none := by
    intro v hv
    rw [Finset.mem_insert, Finset.mem_singleton, not_or] at hv
    rw [joinedWorld, lookup_patch]
    simp [List.dlookup_cons_ne, hv]
  have hleases : ∀ p, joinedWorld.committed.lookup (.partitionLeases p)
      = if p < 2 then some joinedLease else none := by
    intro p
    match p with
    | 0 | 1 => rfl
    | p + 2 =>
      rw [joinedWorld, lookup_patch]
      simp [List.dlookup_cons_ne]
  have howner : ∀ p v, joinedWorld.committed.lookup (.partitionLeases p) = some v → v = joinedLease := by
    intro p v hv
    rw [hleases p] at hv
    split at hv
    · exact (Option.some.inj hv).symm
    · cases hv
  constructor
  · intro p
    rw [hleases p]
    split <;> simp [*, pairSettings]
  · intro p v hv _
    rw [howner p v hv]
    exact Option.some_ne_none _
  · intro v hv
    obtain rfl | hv := Finset.mem_insert.mp hv
    · rfl
    · obtain rfl := Finset.mem_singleton.mp hv
      rfl
  · intro v hv h hh
    cases (hheartbeats v hv).symm.trans hh
  · intro p v owner hv hown hno
    rw [howner p v hv] at hown
    obtain rfl := Option.some.inj hown
    exact absurd (Finset.mem_insert_self _ _) hno

/-- A second worker joins; after two rounds the partitions are balanced, and a third round moves none. -/
theorem rebalancing_converges_joined : ∃ w₁ w₂,
    LeaseRun pairSettings [joinedRound 0, joinedRound 5].flatten joinedWorld w₁ ∧
    LeaseRun pairSettings (joinedRound 10) w₁ w₂ ∧ Balanced pairSettings {"a", "b"} w₂ ∧
      ∀ p, ownerOf w₂.committed p = ownerOf w₁.committed p := by
  have hsome : (turnsAlone pairSettings ([joinedRound 0, joinedRound 5].flatten ++ joinedRound 10)
      joinedWorld).any (fun w => w.clock ≤ seconds 15) = true := by
    decide +kernel
  obtain ⟨w₂, halone, hclock⟩ := (Option.any_eq_true _ _).mp hsome
  obtain ⟨w₁, hrun, hmore⟩ := (LeaseRun.of_alone halone).of_append
  have hpunctual : Punctual pairSettings (fun _ => 0) (fun _ => none)
      ([joinedRound 0, joinedRound 5].flatten ++ joinedRound 10 ++ joinedRound 15) := by
    simp [Punctual, Recent, joinedRound, Function.update, pairSettings, seconds]
  have hlater : ∀ turn ∈ joinedRound 15, w₂.clock ≤ turn.time := by
    intro turn hmem
    obtain rfl | rfl := List.mem_pair.mp hmem
    · exact of_decide_eq_true hclock
    · exact of_decide_eq_true hclock
  exact ⟨w₁, w₂, hrun, hmore, rebalancing_converges rfl (by decide) ⟨"a", Finset.mem_insert_self _ _⟩
    joinedWorld_start (by simp [joinedRound]) (by decide) (by decide) hrun hmore hpunctual
    (by simp [joinedRound]) hlater⟩

end Matchmaking
