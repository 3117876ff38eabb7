import Matchmaking.Refinement

/-!
# Leases are never stolen

Clients that carry out lease operations, each client any number of them in one transaction, with any
number of clients at a time, of one worker or of several. Whatever their interleaving, a commit changes
a lease only if it is its worker's own or, for a claim, if nobody's lease on the partition lasts at the
transaction's time. It follows that the times during which two workers hold a partition, each by its
own account, are disjoint. The same holds of the service.
-/

namespace Matchmaking

open ReadCommitted

/-! ## Clients that carry out lease operations -/

/-- The operations on leases, each of which may be called at any time by any worker. -/
inductive LeaseOperation
  | renewOwnedPartitions (leaseSeconds : ℕ)
  | claimAvailablePartitions (leaseSeconds batchSize partitionCount claimOffset : ℕ)
  | releaseExcessPartitions (maxPartitions : ℕ)
  | releaseOwnedPartitions

namespace LeaseOperation

/-- Only claims take over leases of others; all other operations work on the worker's own. -/
def isClaim : LeaseOperation → Bool
  | claimAvailablePartitions .. => true
  | _ => false

/-- The operation, for the worker `workerId`, from the model of `worker/leases.py`. -/
def run (workerId : String) : LeaseOperation → Db Unit
  | renewOwnedPartitions leaseSeconds => do
    let _ ← Matchmaking.renewOwnedPartitions workerId leaseSeconds
  | claimAvailablePartitions leaseSeconds batchSize partitionCount claimOffset => do
    let _ ← Matchmaking.claimAvailablePartitions workerId leaseSeconds batchSize partitionCount
      claimOffset
  | releaseExcessPartitions maxPartitions => do
    let _ ← Matchmaking.releaseExcessPartitions workerId maxPartitions
  | releaseOwnedPartitions => do
    let _ ← Matchmaking.releaseOwnedPartitions workerId

/-- Operations one after the other, all in the transaction that is open. -/
def runAll (workerId : String) : List LeaseOperation → Db Unit
  | [] => pure ()
  | operation :: operations => do
    operation.run workerId
    runAll workerId operations

end LeaseOperation

/-- A worker and the lease operations of one of its transactions. -/
structure LeaseClient where
  workerId : String
  operations : List LeaseOperation

namespace LeaseClient

def claims (c : LeaseClient) : Bool := c.operations.any LeaseOperation.isClaim

def program (c : LeaseClient) : Db Answer := do
  withConnection (LeaseOperation.runAll c.workerId c.operations)
  pure .done

/-- A client changes leases of its worker and, if it claims, available ones. -/
def rows (c : LeaseClient) : RowRel Row := fun now k =>
  match k with
  | .partitionLeases _ => fun v v' => v' = v ∨ ∃ a, v = some a ∧
      (a.isOwnedBy c.workerId = true ∨ c.claims = true ∧ a.isAvailable now = true)
  | _ => fun v v' => v' = v

end LeaseClient

/-- Any number of clients at a time, with any of the operations in any order. -/
def leaseSystem : System Row Reply Exn Metric Answer LeaseClient where
  program := LeaseClient.program
  exclusive _ _ := false

/-! ## What it means that leases are not stolen -/

section Leases

variable {L : Type}

/-- The entry is a commit of the worker that writes the lease of `p`: `o` is what it leaves. -/
def WritesLease (worker : L → Option String) (workerId : String) (p : ℕ) (o : Option PartitionLease)
    (entry : Entry Row Reply Exn Metric Answer L) : Prop :=
  worker entry.actor = some workerId ∧
    ∃ t b, entry.event.commit? = some (t, b) ∧ t.writes.dlookup (.partitionLeases p) = some o

/-- The worker holds `p` at time `τ`: the last time that it wrote the lease of `p`, it claimed or
renewed it, and not for longer than it has lasted. -/
structure HoldsLease (worker : L → Option String) (workerId : String) (p : ℕ) (τ : Time)
    (newer : List (Entry Row Reply Exn Metric Answer L)) (entry : Entry Row Reply Exn Metric Answer L)
    (lease : PartitionLease) (expiry : Time) : Prop where
  writes : WritesLease worker workerId p (some lease) entry
  owned : lease.ownedBy = some workerId
  expires : lease.leaseUntil = some expiry
  since : entry.time ≤ τ
  lasts : τ < expiry
  last : ∀ e ∈ newer, e.time ≤ τ → ∀ o, ¬ WritesLease worker workerId p o e

/-- `HoldsLease` by some entry of the log: at `τ`, the worker had a lease that was live. -/
def Holds (worker : L → Option String) (workerId : String) (p : ℕ) (τ : Time)
    (log : List (Entry Row Reply Exn Metric Answer L)) : Prop :=
  ∃ newer entry older lease expiry, log = newer ++ entry :: older ∧
    HoldsLease worker workerId p τ newer entry lease expiry

/-- A commit that changes a lease is its worker's, and the lease was the worker's own or, if the worker
claims, available. -/
def LeasesRespected (worker : L → Option String) (claims : L → Bool)
    (log : List (Entry Row Reply Exn Metric Answer L)) : Prop :=
  ∀ entry ∈ log, ∀ t b, entry.event.commit? = some (t, b) → ∀ p a,
    b.lookup (.partitionLeases p) = some a →
    (patch t.writes b).lookup (.partitionLeases p) ≠ some a →
    ∃ workerId, worker entry.actor = some workerId ∧ (a.ownedBy = some workerId ∨
      claims entry.actor = true ∧ (a.ownedBy = none ∨ ∃ u, a.leaseUntil = some u ∧ u ≤ t.start))

/-- No lease is stolen, and no two workers hold a partition at the same time. -/
structure LeasesSafe (worker : L → Option String) (claims : L → Bool)
    (log : List (Entry Row Reply Exn Metric Answer L)) : Prop where
  respected : LeasesRespected worker claims log
  apart : ∀ p τ workerId workerId', Holds worker workerId p τ log → Holds worker workerId' p τ log →
    workerId = workerId'

/-! ## Leases that last are not taken -/

variable {worker : L → Option String} {claims : L → Bool} {s₀ : Tables}
  {w : World Row Reply Exn Metric Answer L} {p : ℕ} {τ : Time}

/-- One commit leaves a lease alone that lasts beyond it and that its owner does not write. -/
theorem LeasesRespected.keeps (h : LeasesRespected worker claims w.log) (hist : History s₀ w)
    {entry : Entry Row Reply Exn Metric Answer L} (hentry : entry ∈ w.log) (htime : entry.time ≤ τ)
    {t : Txn Row} {b : Tables} (hc : entry.event.commit? = some (t, b)) {workerId : String}
    {lease : PartitionLease} {u : Time} (howned : lease.ownedBy = some workerId)
    (hexpires : lease.leaseUntil = some u) (hlasts : τ < u)
    (hfree : ∀ o, ¬ WritesLease worker workerId p o entry)
    (hrow : b.lookup (.partitionLeases p) = some lease) :
    (patch t.writes b).lookup (.partitionLeases p) = some lease := by
  by_contra hchanged
  obtain ⟨other, hother, hown | ⟨-, hnone | ⟨u', hu', hover⟩⟩⟩ :=
    h entry hentry t b hc p lease hrow hchanged
  · -- the owner itself would have written the row
    obtain rfl : other = workerId := Option.some.inj (hown.symm.trans howned)
    cases hwrite : t.writes.dlookup (.partitionLeases p) with
    | none => exact hchanged ((lookup_patch_of_notMem hwrite b).trans hrow)
    | some o => exact hfree o ⟨hother, t, b, hc, hwrite⟩
  · cases hnone.symm.trans howned
  · -- the transaction started before its commit, when the lease still lasted
    obtain rfl : u' = u := Option.some.inj (hu'.symm.trans hexpires)
    have hopened := hist.opened entry hentry t b hc
    exact absurd (Int.le_trans hover (Int.le_trans hopened htime)) (Int.not_le.mpr hlasts)

/-- Who holds a partition by a newer entry than another worker is that worker. -/
theorem LeasesRespected.not_overtaken (h : LeasesRespected worker claims w.log) (hist : History s₀ w)
    {newer between older : List (Entry Row Reply Exn Metric Answer L)}
    {entry entry' : Entry Row Reply Exn Metric Answer L}
    (hlog : w.log = newer ++ entry' :: (between ++ entry :: older)) {workerId workerId' : String}
    {lease lease' : PartitionLease} {u u' : Time}
    (hholds : HoldsLease worker workerId p τ (newer ++ entry' :: between) entry lease u)
    (hholds' : HoldsLease worker workerId' p τ newer entry' lease' u') : workerId = workerId' := by
  by_contra hne
  obtain ⟨-, t, b, hc, hwrite⟩ := hholds.writes
  obtain ⟨-, t', b', hc', hwrite'⟩ := hholds'.writes
  have hmem : ∀ e ∈ between, e ∈ w.log := fun e he => by
    rw [hlog]
    exact List.mem_append_right _ (List.mem_cons_of_mem _ (List.mem_append_left _ he))
  have hentry' : entry' ∈ w.log := by
    rw [hlog]
    exact List.mem_append_right _ List.mem_cons_self
  -- everything up to `entry'` is committed while the lease of `entry` lasts
  have hordered := List.pairwise_cons.mp (List.pairwise_append.mp (hlog ▸ hist.ordered)).2.1
  have htime : ∀ e ∈ between, e.time ≤ τ := fun e he =>
    Int.le_trans (hordered.1 e (List.mem_append_left _ he)) hholds'.since
  have hchained := ((hlog ▸ hist.chained : Chained s₀ _ w.committed).cut hc').1
  have hrow : b'.lookup (.partitionLeases p) = some lease := by
    refine (hchained.cut hc).2.invariant (I := fun s => s.lookup (.partitionLeases p) = some lease)
      (lookup_patch_of_mem hwrite b) fun e he t₁ b₁ hc₁ hrow₁ => ?_
    refine h.keeps hist (hmem e he) (htime e he) hc₁ hholds.owned hholds.expires hholds.lasts ?_ hrow₁
    exact hholds.last e (List.mem_append_right _ (List.mem_cons_of_mem _ he)) (htime e he)
  have hkept := h.keeps hist hentry' hholds'.since hc' hholds.owned hholds.expires hholds.lasts
    (hholds.last entry' (List.mem_append_right _ List.mem_cons_self) hholds'.since) hrow
  -- but `entry'` leaves a lease of the other worker
  obtain rfl : lease' = lease :=
    Option.some.inj ((lookup_patch_of_mem hwrite' b').symm.trans hkept)
  exact hne (Option.some.inj (hholds.owned.symm.trans hholds'.owned))

/-- Respected leases are held apart. -/
theorem LeasesRespected.safe (h : LeasesRespected worker claims w.log) (hist : History s₀ w) :
    LeasesSafe worker claims w.log := by
  refine ⟨h, fun p τ workerId workerId' hholds hholds' => ?_⟩
  obtain ⟨newer, entry, older, lease, u, hlog, hholds⟩ := hholds
  obtain ⟨newer', entry', older', lease', u', hlog', hholds'⟩ := hholds'
  obtain ⟨between, hnewer, hrest⟩ | ⟨between, hnewer, hrest⟩ :=
    List.append_eq_append_iff.mp (hlog.symm.trans hlog')
  · cases between with
    | nil =>
      obtain ⟨rfl, -⟩ := List.cons.inj hrest
      exact Option.some.inj (hholds.writes.1.symm.trans hholds'.writes.1)
    | cons e between =>
      obtain ⟨rfl, rfl⟩ := List.cons.inj hrest
      subst hnewer
      exact (h.not_overtaken hist hlog hholds' hholds).symm
  · cases between with
    | nil =>
      obtain ⟨rfl, -⟩ := List.cons.inj hrest
      exact Option.some.inj (hholds.writes.1.symm.trans hholds'.writes.1)
    | cons e between =>
      obtain ⟨rfl, rfl⟩ := List.cons.inj hrest
      subst hnewer
      exact h.not_overtaken hist hlog' hholds hholds'

end Leases

/-! ## The clients respect leases -/

namespace LeaseClient

variable (c : LeaseClient)

theorem rows_refl (now : Time) (k : Key) (v : Option (Row k)) : c.rows now k v v := by
  cases k with
  | partitionLeases p => exact .inl rfl
  | _ => rfl

theorem rows_trans (now : Time) (k : Key) (v v' v'' : Option (Row k)) (h : c.rows now k v v')
    (h' : c.rows now k v' v'') : c.rows now k v v'' := by
  cases k with
  | partitionLeases p =>
    obtain rfl | hchanged := h
    · exact h'
    · exact .inr hchanged
  | _ => exact Eq.trans h' h

variable {c}

/-- Each operation changes leases of the worker, or available ones if it is a claim. -/
theorem usesRows_run {operation : LeaseOperation} (h : operation ∈ c.operations) :
    UsesRows c.rows (operation.run c.workerId) := by
  have howned : ∀ {cond : Time → PartitionLease → Bool} {set : Time → PartitionLease → PartitionLease},
      (∀ now v, cond now v = true → v.isOwnedBy c.workerId = true) →
      ∀ ps, UsesRows c.rows (updateLeases cond set ps) := fun hcond ps =>
    UsesRows.updateLeases (fun now _ v hv => .inr ⟨v, rfl, .inl (hcond now v hv)⟩) ps
  cases operation with
  | renewOwnedPartitions leaseSeconds =>
    refine .bind (.bind UsesRows.select fun _ => .bind (howned (fun now v hv => ?_) _) fun _ => .pure _)
      fun _ => .pure _
    exact ((Bool.and_eq_true _ _).mp hv).1
  | claimAvailablePartitions leaseSeconds batchSize partitionCount claimOffset =>
    have hclaims : c.claims = true := List.any_eq_true.mpr ⟨_, h, rfl⟩
    exact .bind (.bind UsesRows.select fun _ => UsesRows.claimLeases
      (fun now p v hv => .inr ⟨v, rfl, .inr ⟨hclaims, hv⟩⟩) _ _) fun _ => .pure _
  | releaseExcessPartitions maxPartitions =>
    refine .bind (.bind (.bind UsesRows.select fun _ => .pure _) fun _ => .ite (fun _ => .pure _)
      fun _ => ?_) fun _ => .pure _
    exact .bind UsesRows.select fun _ => .bind (howned (fun _ _ hv => hv) _) fun _ => .pure _
  | releaseOwnedPartitions =>
    exact .bind (.bind UsesRows.select fun _ => .bind (howned (fun _ _ hv => hv) _) fun _ => .pure _)
      fun _ => .pure _

theorem usesRows_program (c : LeaseClient) : UsesRows c.rows c.program := by
  have hall : ∀ operations, (∀ operation ∈ operations, operation ∈ c.operations) →
      UsesRows c.rows (LeaseOperation.runAll c.workerId operations) := by
    intro operations hsub
    induction operations with
    | nil => exact .pure _
    | cons operation operations ih =>
      exact .bind (usesRows_run (hsub operation List.mem_cons_self)) fun _ =>
        ih fun o ho => hsub o (List.mem_cons_of_mem _ ho)
  exact .bind (UsesRows.withConnection (hall c.operations fun _ h => h)) fun _ => .pure _

end LeaseClient

theorem leaseSystem_respects {s₀ : Tables} {clock : Time}
    {s : State Row Reply Exn Metric Answer LeaseClient}
    (hs : leaseSystem.Reachable (.initial s₀ clock) s) :
    LeasesRespected (fun c => some c.workerId) LeaseClient.claims s.world.log := by
  have hfollow : CommitsFollow LeaseClient.rows s.world.log :=
    commits_follow (fun _ _ => rfl) LeaseClient.rows_refl LeaseClient.rows_trans
      LeaseClient.usesRows_program hs
  intro entry hentry t b hc p a hold hchanged
  obtain hsame | ⟨a', ha', hmay⟩ := hfollow entry hentry t b hc (.partitionLeases p)
  · exact absurd (hsame.trans hold) hchanged
  · obtain rfl := Option.some.inj (hold.symm.trans ha')
    refine ⟨entry.actor.workerId, rfl, hmay.imp (fun h => of_decide_eq_true h) fun h => ?_⟩
    exact ⟨h.1, PartitionLease.isAvailable_iff.mp h.2⟩

/-! ## The service respects leases -/

/-- Iterations of the worker's loop claim; shutdowns only give back. -/
def Actor.claimsLeases : Actor → Bool
  | .runLoop .. => true
  | _ => false

/-- No legal commit takes a lease that is not its worker's and not available. -/
theorem Legal.respectsLease {rt : Runtime} {l : Actor} {t : Txn Row} {b : Tables}
    (h : Legal rt l t b) {p : ℕ} {a : PartitionLease} (hold : b.lookup (.partitionLeases p) = some a)
    (hchanged : (patch t.writes b).lookup (.partitionLeases p) ≠ some a) :
    ∃ workerId, l.worker? = some workerId ∧ (a.ownedBy = some workerId ∨
      l.claimsLeases = true ∧ (a.ownedBy = none ∨ ∃ u, a.leaseUntil = some u ∧ u ≤ t.start)) := by
  have hframe : ∀ ps : Changes Row, Changed IsIndexKey ps b (patch t.writes b) →
      ps.dlookup (.partitionLeases p) = none → False := fun ps hps hnone =>
    hchanged ((hps.frame (.partitionLeases p) (fun h => h) hnone).trans hold)
  cases h with
  | rows h =>
    have hrow := h (.partitionLeases p)
    have hsame : (patch t.writes b).lookup (.partitionLeases p) = b.lookup (.partitionLeases p) →
        False := fun heq => hchanged (heq.trans hold)
    cases l with
    | runLoop settings workerId offset =>
      obtain heq | ⟨a', _, ha', -, hmay, -⟩ := hrow
      · exact (hsame heq).elim
      obtain rfl := Option.some.inj (hold.symm.trans ha')
      refine ⟨workerId, rfl, hmay.symm.imp (fun h => of_decide_eq_true h) fun h => ?_⟩
      exact ⟨rfl, PartitionLease.isAvailable_iff.mp h⟩
    | shutdownWorker workerId =>
      obtain heq | ⟨a', _, ha', -, howned, -⟩ := hrow
      · exact (hsame heq).elim
      obtain rfl := Option.some.inj (hold.symm.trans ha')
      exact ⟨workerId, rfl, .inl (of_decide_eq_true howned)⟩
    | initMain settings | migrate settings =>
      obtain heq | ⟨hnone, -⟩ := hrow
      · exact (hsame heq).elim
      · cases hold.symm.trans hnone
    | cancelTicket xTenantId ticketId =>
      cases xTenantId <;> exact (hsame hrow).elim
    | _ => exact (hsame hrow).elim
  | pair n hn hurl h => exact (hframe _ h (n.dlookup_eq_none t.start (by simp))).elim
  | claim tie σ hσ h => exact absurd ((h (.partitionLeases p)).trans hold) hchanged
  | outcome o e ev m hm h => exact (hframe _ h (o.dlookup_eq_none _ _ _ _ (by simp) (by simp))).elim
  | create n htenant hkey hbody hpart hknown h =>
    exact (hframe _ h (n.dlookup_eq_none t.start (by simp) (by simp))).elim

/-! ## Main result -/

/-- **Partition leases are never stolen**, neither by clients that carry out lease operations as they like,
from any tables, nor by the service. A commit changes a lease only if its worker owns it, or claims one that
nobody owned or that had run out when the transaction began, and no two workers hold a partition at one
time. Both follow from the conditions of the UPDATEs, which are tested on the newest version of the row. -/
theorem leases_never_stolen (rt : Runtime) :
    (∀ {s₀ : Tables} {clock : Time} {s : State Row Reply Exn Metric Answer LeaseClient},
      leaseSystem.Reachable (.initial s₀ clock) s →
      LeasesSafe (fun c => some c.workerId) LeaseClient.claims s.world.log) ∧
    ∀ {clock : Time} {s : ServiceState}, (service rt).Reachable (emptyState clock) s →
      LeasesSafe Actor.worker? Actor.claimsLeases s.world.log := by
  refine ⟨fun hs => ?_, fun hs => ?_⟩
  · exact (leaseSystem_respects hs).safe (history (fun _ _ => rfl) hs)
  · have hpast := service_past hs
    have hrespected : LeasesRespected Actor.worker? Actor.claimsLeases _ :=
      fun entry hentry t b hc p a hold hchanged =>
        (hpast.legal hentry hc).respectsLease hold hchanged
    exact hrespected.safe hpast.history

/-- `a` claims partition 0; when its lease has run out, `b` claims it, and `a` renews too late. -/
def takenOverScript : List (System.Move Reply Exn LeaseClient) :=
  [.act (.start ⟨"a", [.claimAvailablePartitions 30 1 1 0]⟩), .advance sampleReply 0 100,
    .act (.tick 30000000), .act (.start ⟨"a", [.renewOwnedPartitions 30]⟩), .advance sampleReply 1 2,
    .act (.start ⟨"b", [.claimAvailablePartitions 30 1 1 0]⟩), .advance sampleReply 2 100,
    .advance sampleReply 1 100]

def takenOverState : State Row Reply Exn Metric Answer LeaseClient :=
  leaseSystem.after takenOverScript
    (.initial ((∅ : Tables).insert (.partitionLeases 0) { updatedAt := 0 }) 0)

/-- In that run no live lease is stolen, although the partition changes hands and its first owner renews too
late. -/
theorem leases_never_stolen_expired :
    LeasesSafe (fun c => some c.workerId) LeaseClient.claims takenOverState.world.log ∧
      (takenOverState.world.committed.lookup (.partitionLeases 0)).map PartitionLease.ownedBy
        = some (some "b") :=
  ⟨(leases_never_stolen sampleRuntime).1 (System.reachable_after takenOverScript _), by decide +kernel⟩

end Matchmaking
