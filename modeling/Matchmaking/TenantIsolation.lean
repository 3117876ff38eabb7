import Matchmaking.Refinement
import Matchmaking.ReadCommitted.Alone

/-!
# Isolation of tenants at admission

The admission checks of one tenant, run on two databases that differ in what belongs to other tenants.
The rate limit, the quota and the latency check do not see the difference. The depth check does: it
counts the waiting tickets of all tenants in the partition.
-/

namespace Matchmaking

open ReadCommitted

variable {rt : Runtime} {i : ℕ} {l : Actor} {s s' : Tables} {w w' : ServiceWorld}
  {answer : ℕ → (c : Call) → Reply c} {tenantId : String}

/-- The tables agree on all that belongs to a tenant. -/
structure AgreeOn (tenantId : String) (s s' : Tables) : Prop where
  tenant : s'.lookup (.tenants tenantId) = s.lookup (.tenants tenantId)
  tickets : ∀ id t, t.tenantId = tenantId →
    (s'.lookup (.tickets id) = some t ↔ s.lookup (.tickets id) = some t)
  keys : ∀ key, s'.lookup (.idempotencyKeys tenantId key) = s.lookup (.idempotencyKeys tenantId key)

theorem AgreeOn.count_waiting (h : AgreeOn tenantId s s') :
    count (isWaitingOf tenantId) s' = count (isWaitingOf tenantId) s := by
  refine count_congr fun k v hv => ?_
  cases k with
  | tickets id =>
    simp only [isWaitingOf, Bool.and_eq_true, decide_eq_true_eq] at hv
    exact h.tickets id v hv.1
  | _ => cases hv

/-- The two runs of a check give the same decision. -/
abbrev SameDecision (answer : ℕ → (c : Call) → Reply c) (i : ℕ) (l : Actor) (s s' : Tables)
    (check : Db (Option Response)) : Prop :=
  ∀ w w' : ServiceWorld, Lockstep s s' w w' →
    Client.Together answer i l check check (fun d d' v v' => d = d' ∧ Lockstep s s' v v') w w'

/-- A statement of its own, on two databases. -/
theorem autocommit_together {α : Type} {f : Time → Tables → α} (h : Lockstep s s' w w') :
    Client.Together answer i l (autocommit (perform (.select f))) (autocommit (perform (.select f)))
      (fun a b v v' => (∃ now, a = f now s ∧ b = f now s') ∧ Lockstep s s' v v') w w' := by
  obtain ⟨rfl, rfl, hclock, hlength⟩ := h
  refine ⟨_, _, _, _, rfl, rfl, ⟨w.clock, rfl, ?_⟩, rfl, rfl, hclock, ?_⟩
  · rw [← hclock]
    rfl
  · exact congrArg (· + 2) hlength

theorem unixSeconds_together (h : Lockstep s s' w w') : Client.Together answer i l unixSeconds unixSeconds
    (fun a b v v' => a = b ∧ Lockstep s s' v v') w w' := by
  refine .bind ((Client.Together.call h).mono ?_)
  rintro a _ v v' ⟨rfl, h⟩
  exact .pure ⟨rfl, h⟩

theorem checkRateLimit_same (tenant : Tenant) :
    SameDecision answer i l s s' (checkRateLimit tenantId tenant) := by
  intro w w' h
  refine .bind ((unixSeconds_together h).mono ?_)
  rintro now _ w₁ w₁' ⟨rfl, h₁⟩
  refine .bind ((Client.Together.call h₁).mono ?_)
  rintro n _ w₂ w₂' ⟨rfl, h₂⟩
  split
  · refine .bind ((unixSeconds_together h₂).mono ?_)
    rintro now' _ w₃ w₃' ⟨rfl, h₃⟩
    exact .pure ⟨rfl, h₃⟩
  · exact .pure ⟨rfl, h₂⟩

theorem checkTenantQuota_same (hagree : AgreeOn tenantId s s') (tenant : Tenant) :
    SameDecision answer i l s s' (checkTenantQuota tenantId tenant) := by
  intro w w' h
  refine .bind ((autocommit_together h).mono ?_)
  rintro n n' w₁ w₁' ⟨⟨now, rfl, rfl⟩, h₁⟩
  rw [hagree.count_waiting]
  exact .pure ⟨rfl, h₁⟩

theorem checkPartitionDepth_same {tenant : Tenant} {partitionId : ℕ}
    (hdepth : underDepth tenant (count (isWaitingIn partitionId) s')
      = underDepth tenant (count (isWaitingIn partitionId) s)) :
    SameDecision answer i l s s' (checkPartitionDepth tenant partitionId) := by
  intro w w' h
  refine .bind ((autocommit_together h).mono ?_)
  rintro n n' w₁ w₁' ⟨⟨now, rfl, rfl⟩, h₁⟩
  rw [hdepth]
  exact .pure ⟨rfl, h₁⟩

theorem checkDbLoadShedding_same (settings : Settings) :
    SameDecision answer i l s s' (checkDbLoadShedding settings) := by
  intro w w' h
  unfold checkDbLoadShedding
  split
  · exact .pure ⟨rfl, h⟩
  refine .bind ((Client.Together.call h).mono ?_)
  rintro start _ w₁ w₁' ⟨rfl, h₁⟩
  refine .bind ((autocommit_together h₁).mono ?_)
  rintro _ _ w₂ w₂' ⟨-, h₂⟩
  refine .bind ((Client.Together.call h₂).mono ?_)
  rintro now _ w₃ w₃' ⟨rfl, h₃⟩
  exact .pure ⟨rfl, h₃⟩

/-- A check whose rejections are counted, and what follows if it rejects nothing. -/
theorem check_same {check next : Db (Option Response)} {reason : String}
    (hcheck : SameDecision answer i l s s' check) (hnext : SameDecision answer i l s s' next) :
    SameDecision answer i l s s' (do
      match ← check with
      | some rejection => do
        record (.ticketsRejected tenantId reason)
        pure (some rejection)
      | none => next) := by
  intro w w' h
  refine .bind ((hcheck w w' h).mono ?_)
  rintro (_ | rejection) _ w₁ w₁' ⟨rfl, h₁⟩
  · exact hnext w₁ w₁' h₁
  · refine .bind ((Client.Together.emit h₁).mono ?_)
    rintro _ _ w₂ w₂' h₂
    exact .pure ⟨rfl, h₂⟩

/-- **Isolation up to the depth of the partition.** The rate limit, the quota and the latency check give
a tenant the same decision on any two databases that agree on the tenant; so do all checks together
where the databases agree on whether the partition has room, by the tenant's limit, for one more
ticket. -/
theorem admission_isolated (hagree : AgreeOn tenantId s s') (settings : Settings) (tenant : Tenant)
    (partitionId : ℕ) :
    SameDecision answer i l s s' (checkRateLimit tenantId tenant) ∧
      SameDecision answer i l s s' (checkTenantQuota tenantId tenant) ∧
      SameDecision answer i l s s' (checkDbLoadShedding settings) ∧
      (underDepth tenant (count (isWaitingIn partitionId) s')
          = underDepth tenant (count (isWaitingIn partitionId) s) →
        SameDecision answer i l s s' (admission settings tenantId tenant partitionId)) := by
  refine ⟨checkRateLimit_same tenant, checkTenantQuota_same hagree tenant,
    checkDbLoadShedding_same settings, fun hdepth => ?_⟩
  refine check_same (checkRateLimit_same tenant) (check_same (checkTenantQuota_same hagree tenant)
    (check_same (checkPartitionDepth_same hdepth) (check_same (checkDbLoadShedding_same settings) ?_)))
  exact fun w w' h => .pure ⟨rfl, h⟩

/-! ## A noisy neighbour -/

def quietTenant : Tenant := { name := "studio_a", maxPartitionDepth := 1 }

/-- A tenant with room for one ticket in a partition, and its neighbour. -/
def quietTables : Tables :=
  patch [⟨.tenants "studio_a", some quietTenant⟩, ⟨.tenants "studio_b", some { name := "studio_b" }⟩] ∅

/-- The same, and a ticket of the neighbour that waits in partition 0. -/
def noisyTables : Tables :=
  patch [⟨.uqActiveTicket "studio_b" "p" "eu" "ranked", some (1 : UUID)⟩,
    ⟨.tickets 1, some (newTicket "studio_b" ⟨"p", "eu", "ranked", 0⟩ 0 0)⟩] quietTables

theorem agree_noisy : AgreeOn "studio_a" quietTables noisyTables where
  tenant := rfl
  tickets id t ht := by
    by_cases hid : id = 1
    · subst hid
      have hquiet : quietTables.lookup (.tickets 1) = none := rfl
      have hnoisy : noisyTables.lookup (.tickets 1)
        = some (newTicket "studio_b" ⟨"p", "eu", "ranked", 0⟩ 0 0) := rfl
      rw [hquiet, hnoisy]
      constructor
      · intro h
        cases h
        exact absurd ht (by decide)
      · exact fun h => by cases h
    · unfold noisyTables
      rw [patch_cons, lookup_writeRow_ne (by simp), patch_cons, lookup_writeRow_ne (by simpa using hid)]
      rfl
  keys key := by
    unfold noisyTables
    rw [patch_cons, lookup_writeRow_ne (by simp), patch_cons, lookup_writeRow_ne (by simp)]
    rfl

/-- The status of the answer that turns a request of the tenant for partition 0 down, if one does. -/
def decision (s : Tables) : Option (Option ℕ) :=
  let request : Actor := sampleRequest none "q"
  (Prog.alone quietAnswer 0 request (admission sampleSettings "studio_a" quietTenant 0).run
    (⟨s, 0, []⟩ : ServiceWorld) none).bind fun (r, _, _) => r.toOption.map fun d => d.map Response.status

/-- The ticket of the neighbour turns the request down. -/
theorem admission_not_isolated : AgreeOn "studio_a" quietTables noisyTables ∧
    decision quietTables = some none ∧ decision noisyTables = some (some 503) :=
  ⟨agree_noisy, by decide +kernel, by decide +kernel⟩

/-- In the other partitions the neighbour makes no difference. -/
theorem admission_isolated_elsewhere : SameDecision quietAnswer 0 (sampleRequest none "q") quietTables
    noisyTables (admission sampleSettings "studio_a" quietTenant 1) :=
  (admission_isolated agree_noisy sampleSettings quietTenant 1).2.2.2 (by decide +kernel)

end Matchmaking
