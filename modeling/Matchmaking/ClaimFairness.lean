import Matchmaking.CallbackConcurrency
import Matchmaking.FairShare
import Matchmaking.ReadCommitted.Alone

/-!
# Fairness of a claim

`claim_callback_events`, where nobody else has locked events, shares the places of the batch among the
tenants: their events are ranked tenant by tenant, and taken in the order of their ranks.
-/

namespace Matchmaking

open ReadCommitted

variable {settings : Settings} {now : Time} {s : Tables} {tenantId : String} {tie : UUID → ℕ}
  {events : List CallbackEvent}

/-! ## What a claim should return -/

/-- The events of the tenant that may be claimed. -/
def dueOf (now : Time) (tenantId : String) (s : Tables) : List (UUID × CallbackEventRow) :=
  (rowsOf eventRow s).filter fun p => p.2.isDue now && p.2.tenantId = tenantId

/-- What the events in flight leave of the tenant's limit. -/
def allowance (settings : Settings) (now : Time) (s : Tables) (tenantId : String) : ℕ :=
  settings.callbackTenantConcurrencyLimit - (inFlightOf now tenantId s).length

/-- How many events of the tenant a claim may return. -/
def claimable (settings : Settings) (now : Time) (s : Tables) (tenantId : String) : ℕ :=
  min (dueOf now tenantId s).length (allowance settings now s tenantId)

/-- How many it returns. -/
def claimedOf (tenantId : String) (events : List CallbackEvent) : ℕ :=
  events.countP fun event => event.tenantId = tenantId

/-- The tenants with events. -/
def tenantsOf (s : Tables) : Finset String := ((rowsOf eventRow s).map fun p => p.2.tenantId).toFinset

/-- `ORDER BY next_attempt_at, created_at`, up to ties. -/
def InClaimOrder (a b : UUID × CallbackEventRow) : Prop :=
  a.2.nextAttemptAt < b.2.nextAttemptAt ∨
    a.2.nextAttemptAt = b.2.nextAttemptAt ∧ a.2.createdAt ≤ b.2.createdAt

/-- The returned events are shared fairly. -/
structure FairClaim (settings : Settings) (now : Time) (s : Tables) (events : List CallbackEvent) :
    Prop where
  /-- Each tenant gets its first events. -/
  inOrder : ∀ tenantId, ∃ queue : List (UUID × CallbackEventRow), queue.Perm (dueOf now tenantId s) ∧
    queue.Pairwise InClaimOrder ∧
    ((events.filter fun event => event.tenantId = tenantId).map CallbackEvent.eventId).Perm
      ((queue.take (claimedOf tenantId events)).map Prod.fst)
  limit : ∀ tenantId, claimedOf tenantId events ≤ allowance settings now s tenantId
  total : events.length = min settings.callbackBatchSize
    (∑ tenantId ∈ tenantsOf s, claimable settings now s tenantId)
  fair : ∀ tenantId tenantId', claimedOf tenantId events < claimable settings now s tenantId →
    claimedOf tenantId' events ≤ claimedOf tenantId events + 1

/-! ## Ranks -/

/-- The rows are numbered tenant by tenant. -/
theorem ranks_rowNumbers (rows : List (UUID × CallbackEventRow)) (before : List String) :
    FairShare.ranks (fun p : UUID × String × ℕ => p.2.1) (fun p => p.2.2) tenantId (rowNumbers rows before)
      = List.range' (before.count tenantId + 1) (rows.filter fun p => p.2.tenantId = tenantId).length := by
  induction rows generalizing before with
  | nil => rfl
  | cons p rows ih =>
    obtain ⟨id, row⟩ := p
    have hrest := ih (row.tenantId :: before)
    unfold FairShare.ranks at hrest ⊢
    by_cases htenant : row.tenantId = tenantId
    · rw [htenant, List.count_cons_self] at hrest
      simp only [rowNumbers, List.filter_cons, htenant, decide_true, if_true, List.map_cons,
        List.length_cons, List.range'_succ, hrest]
    · rw [List.count_cons_of_ne htenant] at hrest
      simp only [rowNumbers, List.filter_cons, htenant, decide_false, Bool.false_eq_true, if_false, hrest]

/-- The rows of the first ranks are the first rows. -/
theorem map_rankedOf (n : ℕ) (rows : List (UUID × CallbackEventRow)) (before : List String) :
    (rankedOf tenantId n (rowNumbers rows before)).map Prod.fst
      = ((rows.filter fun p => p.2.tenantId = tenantId).take (n - before.count tenantId)).map Prod.fst := by
  induction rows generalizing before with
  | nil => simp [rowNumbers, rankedOf]
  | cons p rows ih =>
    obtain ⟨id, row⟩ := p
    have hrest := ih (row.tenantId :: before)
    unfold rankedOf at hrest ⊢
    by_cases htenant : row.tenantId = tenantId
    · rw [htenant, List.count_cons_self] at hrest
      by_cases hrank : before.count tenantId + 1 ≤ n
      · obtain ⟨m, hm⟩ : ∃ m, n - before.count tenantId = m + 1 :=
          ⟨n - (before.count tenantId + 1), by omega⟩
        have hm' : n - (before.count tenantId + 1) = m := by omega
        rw [hm'] at hrest
        simp only [rowNumbers, List.filter_cons, htenant, hrank, decide_true, Bool.and_self, if_true,
          List.map_cons, hm, List.take_succ_cons, hrest]
      · have hm : n - before.count tenantId = 0 := by omega
        have hm' : n - (before.count tenantId + 1) = 0 := by omega
        rw [hm'] at hrest
        simp only [rowNumbers, List.filter_cons, htenant, hrank, decide_true, decide_false, Bool.and_false,
          Bool.false_eq_true, if_false, hm, hrest, List.take_zero]
    · rw [List.count_cons_of_ne htenant] at hrest
      simp only [rowNumbers, List.filter_cons, htenant, decide_false, Bool.false_and, Bool.false_eq_true,
        if_false, hrest]

/-! ## The choice of a claim -/

theorem dueOrder_sorted (rows : List (UUID × CallbackEventRow)) :
    (orderBy (dueOrder tie) rows).Pairwise fun a b => dueOrder tie a b = true := by
  have hiff : ∀ a b, dueOrder tie a b = true ↔ a.2.nextAttemptAt < b.2.nextAttemptAt ∨
      a.2.nextAttemptAt = b.2.nextAttemptAt ∧ (a.2.createdAt < b.2.createdAt ∨
        a.2.createdAt = b.2.createdAt ∧ tie a.1 ≤ tie b.1) := by
    intro a b
    have hlt : ∀ x y : ℤ, x < y → x ≠ y := by omega
    unfold dueOrder
    by_cases hnext : a.2.nextAttemptAt = b.2.nextAttemptAt
    · by_cases hcreated : a.2.createdAt = b.2.createdAt
      · simp [hnext, hcreated]
      · simp [hnext, hcreated]
    · simp [hnext]
  have htotal : ∀ (x y u v : ℤ) (p q : ℕ), (x < y ∨ x = y ∧ (u < v ∨ u = v ∧ p ≤ q)) ∨
      y < x ∨ y = x ∧ (v < u ∨ v = u ∧ q ≤ p) := by omega
  have htrans : ∀ (x y z u v t : ℤ) (p q r : ℕ), (x < y ∨ x = y ∧ (u < v ∨ u = v ∧ p ≤ q)) →
      (y < z ∨ y = z ∧ (v < t ∨ v = t ∧ q ≤ r)) → x < z ∨ x = z ∧ (u < t ∨ u = t ∧ p ≤ r) := by omega
  refine orderBy_sorted (fun a b => ?_) (fun a b c => ?_) rows
  · rw [hiff, hiff]
    exact htotal _ _ _ _ _ _
  · rw [hiff, hiff, hiff]
    exact htrans _ _ _ _ _ _ _ _ _

/-- The tenant's events in the order of the claim. -/
def queueOf (tie : UUID → ℕ) (now : Time) (tenantId : String) (s : Tables) :
    List (UUID × CallbackEventRow) :=
  (orderBy (dueOrder tie) ((rowsOf eventRow s).filter fun p => p.2.isDue now)).filter fun p =>
    p.2.tenantId = tenantId

theorem queueOf_perm : (queueOf tie now tenantId s).Perm (dueOf now tenantId s) := by
  have hperm := (orderBy_perm (dueOrder tie) ((rowsOf eventRow s).filter fun p => p.2.isDue now)).filter
    fun p => p.2.tenantId = tenantId
  rw [List.filter_filter] at hperm
  rw [queueOf, dueOf]
  simpa [Bool.and_comm] using hperm

theorem queueOf_sorted : (queueOf tie now tenantId s).Pairwise InClaimOrder := by
  refine ((dueOrder_sorted _).imp fun {a b} h => ?_).filter _
  unfold dueOrder at h
  split at h
  · exact .inl (by simpa using h)
  · next hnext =>
    have hnext : a.2.nextAttemptAt = b.2.nextAttemptAt := not_not.mp hnext
    split at h
    · exact .inr ⟨hnext, Int.le_of_lt (by simpa using h)⟩
    · next hcreated => exact .inr ⟨hnext, le_of_eq (not_not.mp hcreated)⟩

/-- The due events with their tenants and ranks. -/
def rankedEvents (tie : UUID → ℕ) (now : Time) (s : Tables) : List (UUID × String × ℕ) :=
  rowNumbers (orderBy (dueOrder tie) ((rowsOf eventRow s).filter fun p => p.2.isDue now)) []

/-- The order of the ranks; `tie` decides between equal ones. -/
def rankOrder (tie : UUID → ℕ) (a b : UUID × String × ℕ) : Bool :=
  if a.2.2 = b.2.2 then tie a.1 ≤ tie b.1 else a.2.2 < b.2.2

/-- Those within the limits of their tenants, in the order of their ranks. -/
def allowedEvents (settings : Settings) (tie : UUID → ℕ) (now : Time) (s : Tables) :
    List (UUID × String × ℕ) :=
  orderBy (rankOrder tie) ((rankedEvents tie now s).filter fun p =>
    p.2.2 + (inFlightOf now p.2.1 s).length ≤ settings.callbackTenantConcurrencyLimit)

theorem eligible_eq : eligible settings tie now s
    = ((allowedEvents settings tie now s).take settings.callbackBatchSize).map Prod.fst := by
  rw [allowedEvents]
  simp only [length_inFlightOf]
  rfl

theorem allowedEvents_sorted : (allowedEvents settings tie now s).Pairwise fun a b => a.2.2 ≤ b.2.2 := by
  have hiff : ∀ a b : UUID × String × ℕ, rankOrder tie a b = true ↔
      a.2.2 < b.2.2 ∨ a.2.2 = b.2.2 ∧ tie a.1 ≤ tie b.1 := by
    intro a b
    by_cases hrank : a.2.2 = b.2.2 <;> simp [rankOrder, hrank]
  refine (@orderBy_sorted _ (rankOrder tie) (fun a b => ?_) (fun a b c => ?_) _).imp fun {a b} h => ?_
  · rw [hiff, hiff]
    omega
  · rw [hiff, hiff, hiff]
    omega
  · rw [hiff] at h
    omega

/-- The numbers from 1 on that are at most `m`. -/
theorem filter_range'_le (n m : ℕ) : ((List.range' 1 n).filter fun k => k ≤ m) = List.range' 1 (min n m) := by
  have hsplit : List.range' 1 n = List.range' 1 (min n m) ++ List.range' (1 + min n m) (n - min n m) := by
    rw [List.range'_append_1, Nat.add_sub_cancel' (Nat.min_le_left n m)]
  have hfirst : ((List.range' 1 (min n m)).filter fun k => k ≤ m) = List.range' 1 (min n m) := by
    rw [List.filter_eq_self]
    intro k hk
    rw [List.mem_range'_1] at hk
    exact decide_eq_true (by omega)
  have hlast : ((List.range' (1 + min n m) (n - min n m)).filter fun k => k ≤ m) = [] := by
    rw [List.filter_eq_nil_iff]
    intro k hk
    rw [List.mem_range'_1] at hk
    simp only [decide_eq_true_eq]
    omega
  rw [hsplit, List.filter_append, hfirst, hlast, List.append_nil]

/-- The tenant's events within its limit. -/
theorem filter_allowedEvents (tie : UUID → ℕ) (tenantId : String) :
    ((allowedEvents settings tie now s).filter fun p => p.2.1 = tenantId).Perm
      (rankedOf tenantId (allowance settings now s tenantId) (rankedEvents tie now s)) := by
  refine ((orderBy_perm _ _).filter _).trans (List.Perm.of_eq ?_)
  rw [List.filter_filter, rankedOf]
  refine List.filter_congr fun p hp => ?_
  obtain ⟨_, -, -, hrank⟩ := mem_rowNumbers_tenant hp
  by_cases htenant : p.2.1 = tenantId
  · have hiff : p.2.2 + (inFlightOf now tenantId s).length ≤ settings.callbackTenantConcurrencyLimit ↔
        p.2.2 ≤ allowance settings now s tenantId := by
      unfold allowance
      omega
    simp only [htenant, hiff]
  · simp [htenant]

theorem allowedEvents_ranked : FairShare.Ranked (fun p : UUID × String × ℕ => p.2.1) (fun p => p.2.2)
    (claimable settings now s) (allowedEvents settings tie now s) := by
  intro tenantId
  refine ((filter_allowedEvents tie tenantId).map _).trans (List.Perm.of_eq ?_)
  have hranks := @ranks_rowNumbers tenantId
    (orderBy (dueOrder tie) ((rowsOf eventRow s).filter fun p => p.2.isDue now)) []
  have hlength : (queueOf tie now tenantId s).length = (dueOf now tenantId s).length :=
    queueOf_perm.length_eq
  rw [List.count_nil, Nat.zero_add] at hranks
  rw [claimable, ← hlength, ← filter_range'_le, queueOf, ← hranks, FairShare.ranks, List.filter_map,
    List.filter_filter, rankedOf, rankedEvents]
  congr 2
  funext p
  rw [Bool.and_comm]
  rfl

/-! ## Events and tenants -/

/-- The tenant of an event, if there is one. -/
def eventTenant (s : Tables) (e : UUID) : Option String :=
  (s.lookup (.callbackEvents e)).map fun (row : CallbackEventRow) => row.tenantId

theorem eventTenant_of_allowed {p : UUID × String × ℕ} (hp : p ∈ allowedEvents settings tie now s) :
    eventTenant s p.1 = some p.2.1 := by
  obtain ⟨row, hrow, htenant, -⟩ := mem_rowNumbers_tenant (List.mem_filter.mp (mem_orderBy.mp hp)).1
  have hlookup := mem_rowsOf_eventRow.mp (List.mem_filter.mp (mem_orderBy.mp hrow)).1
  rw [eventTenant, hlookup, Option.map_some, htenant]

theorem rankedEvents_nodup : (rankedEvents tie now s).Nodup := by
  refine List.Nodup.of_map Prod.fst ?_
  rw [rankedEvents, map_rowNumbers, ((orderBy_perm _ _).map Prod.fst).nodup_iff]
  exact (eventIds_nodup s).sublist (List.filter_sublist.map _)

theorem allowedEvents_nodup : (allowedEvents settings tie now s).Nodup :=
  (orderBy_perm _ _).nodup_iff.mpr (rankedEvents_nodup.sublist List.filter_sublist)

/-- The places of the tenant in the batch. -/
abbrev placesOf (settings : Settings) (tie : UUID → ℕ) (now : Time) (s : Tables) (tenantId : String) : ℕ :=
  FairShare.share (fun p : UUID × String × ℕ => p.2.1) tenantId (allowedEvents settings tie now s)
    settings.callbackBatchSize

/-- The tenant's part of the batch are its events of the first ranks. -/
theorem batch_of_tenant (tenantId : String) :
    (((allowedEvents settings tie now s).take settings.callbackBatchSize).filter fun p =>
      p.2.1 = tenantId).Perm
      (rankedOf tenantId (placesOf settings tie now s tenantId) (rankedEvents tie now s)) := by
  have hplaces : placesOf settings tie now s tenantId ≤ allowance settings now s tenantId :=
    Nat.le_trans (allowedEvents_ranked.share_le_size _ tenantId) (Nat.min_le_right _ _)
  refine (List.perm_ext_iff_of_nodup
    ((allowedEvents_nodup.sublist (List.take_sublist _ _)).sublist List.filter_sublist)
    (rankedEvents_nodup.sublist List.filter_sublist)).mpr fun p => ?_
  simp only [List.mem_filter, Bool.and_eq_true, decide_eq_true_eq]
  constructor
  · rintro ⟨htake, rfl⟩
    have hallowed := List.mem_of_mem_take htake
    exact ⟨(List.mem_filter.mp (mem_orderBy.mp hallowed)).1, rfl,
      (allowedEvents_ranked.mem_take_iff allowedEvents_sorted hallowed).mp htake⟩
  · rintro ⟨hranked, rfl, hrank⟩
    have hallowed : p ∈ allowedEvents settings tie now s := by
      refine List.mem_of_mem_filter ((filter_allowedEvents tie p.2.1).mem_iff.mpr ?_)
      rw [rankedOf, List.mem_filter, Bool.and_eq_true, decide_eq_true_eq, decide_eq_true_eq]
      exact ⟨hranked, rfl, Nat.le_trans hrank hplaces⟩
    exact ⟨(allowedEvents_ranked.mem_take_iff allowedEvents_sorted hallowed).mpr hrank, rfl⟩

/-- A claim that returns what it has chosen is fair. -/
theorem fairClaim_of_perm (h : (events.map fun event => (event.eventId, event.tenantId)).Perm
    (((allowedEvents settings tie now s).take settings.callbackBatchSize).map fun p => (p.1, p.2.1))) :
    FairClaim settings now s events := by
  have hplaces : ∀ tenantId, claimedOf tenantId events = placesOf settings tie now s tenantId := by
    intro tenantId
    have hcount := h.countP_eq fun p => decide (p.2 = tenantId)
    rw [List.countP_map, List.countP_map] at hcount
    exact hcount
  have hranked := @allowedEvents_ranked settings now s tie
  refine ⟨fun tenantId => ⟨queueOf tie now tenantId s, queueOf_perm, queueOf_sorted, ?_⟩,
    fun tenantId => ?_, ?_, fun tenantId tenantId' hless => ?_⟩
  · have hids := (h.filter fun p => decide (p.2 = tenantId)).map Prod.fst
    rw [List.filter_map, List.filter_map, List.map_map, List.map_map] at hids
    have hbatch := (@batch_of_tenant settings now s tie tenantId).map Prod.fst
    rw [rankedEvents, map_rankedOf, List.count_nil, Nat.sub_zero] at hbatch
    rw [hplaces]
    exact hids.trans hbatch
  · rw [hplaces]
    exact Nat.le_trans (hranked.share_le_size _ tenantId) (Nat.min_le_right _ _)
  · have hlength := h.length_eq
    rw [List.length_map, List.length_map, List.length_take] at hlength
    rw [hlength, hranked.length_eq_sum (tenantsOf s)]
    intro p hp
    obtain ⟨row, hrow, htenant, -⟩ := mem_rowNumbers_tenant (List.mem_filter.mp (mem_orderBy.mp hp)).1
    rw [tenantsOf, List.mem_toFinset, htenant]
    exact List.mem_map.mpr ⟨(p.1, row), (List.mem_filter.mp (mem_orderBy.mp hrow)).1, rfl⟩
  · rw [hplaces] at hless ⊢
    rw [hplaces]
    exact hranked.fair allowedEvents_sorted hless

/-! ## The program -/

section Program

variable {answer : ℕ → (c : Call) → Reply c} {i : ℕ} {l : Actor} {w : ServiceWorld} {T : Option (Txn Row)}
  {dispatcherId : String}

/-- Every event that exists is claimed. -/
theorem claimRows_gives {secret : String → Option String} (ids : List UUID)
    (hids : ∀ id ∈ ids, (eventTenant s id).isSome = true) (h : SeesAt now s w T) :
    Client.Gives answer i l (claimRows settings dispatcherId secret ids)
      (fun events _ _ => events.map (fun event => (event.eventId, some event.tenantId))
        = ids.map fun id => (id, eventTenant s id)) w T := by
  induction ids generalizing s T with
  | nil => exact .pure rfl
  | cons id ids ih =>
    obtain ⟨tenantId, htenant⟩ := Option.isSome_iff_exists.mp (hids id List.mem_cons_self)
    obtain ⟨row, hrow, rfl⟩ := Option.map_eq_some_iff.mp htenant
    refine .bind (.row h fun T' => ?_)
    rw [hrow]
    intro h'
    -- the claim does not change the tenant of the event
    have hsame : ∀ e, eventTenant (writeRow ⟨.callbackEvents id,
        some (row.claimed dispatcherId settings.callbackTimeoutSeconds now)⟩ s) e = eventTenant s e := by
      intro e
      unfold eventTenant
      by_cases he : e = id
      · subst he
        rw [lookup_writeRow_self, hrow]
        rfl
      · rw [lookup_writeRow_ne (by simpa using he)]
    refine .bind ((ih (fun e he => hsame e ▸ hids e (List.mem_cons_of_mem _ he)) h').mono
      fun rest _ _ hrest => .pure ?_)
    simp only [hsame] at hrest
    rw [List.map_cons, List.map_cons, hrest, htenant]
    rfl

/-- **Fairness between tenants.** A claim that nobody else gets in the way of returns, whatever the table
and the limits, a fair share of the events: no tenant exceeds its limit, each tenant's events go in the
order of their due times, as many are returned as the batch and the limits allow, and a tenant that could
get more is at most one event behind any other. -/
theorem claim_fair (settings : Settings) (dispatcherId : String) (answer : ℕ → (c : Call) → Reply c)
    (i : ℕ) (l : Actor) (w : ServiceWorld) :
    Client.Gives answer i l (claimCallbackEvents dispatcherId settings)
      (fun events _ _ => FairClaim settings w.clock w.committed events) w none := by
  have hsees : SeesAt w.clock w.committed w none := ⟨⟨rfl, rfl⟩, rfl⟩
  refine .bind (.call_at hsees fun n w₁ h₁ => .bind (.select_at h₁ fun T₁ h₁ => ?_))
  have hknown : ∀ id ∈ (claimSnapshot settings (answer n .tieBreak) w.clock w.committed).1,
      (eventTenant w.committed id).isSome = true := by
    intro id hid
    have hid : id ∈ eligible settings (answer n .tieBreak) w.clock w.committed := mem_orderBy.mp hid
    rw [eligible_eq] at hid
    obtain ⟨p, hp, rfl⟩ := List.mem_map.mp hid
    rw [eventTenant_of_allowed (List.mem_of_mem_take hp)]
    rfl
  refine .bind ((claimRows_gives _ hknown h₁).mono fun events w₂ T₂ hevents => ?_)
  refine .bind (.call_now (.pure (@fairClaim_of_perm settings w.clock w.committed (answer n .tieBreak) _ ?_)))
  refine ((orderBy_perm _ events).map _).trans ?_
  have hbatch : (events.map fun event => (event.eventId, some event.tenantId)).Perm
      (((allowedEvents settings (answer n .tieBreak) w.clock w.committed).take
        settings.callbackBatchSize).map fun p => (p.1, some p.2.1)) := by
    rw [hevents]
    refine ((orderBy_perm _ _).map _).trans (List.Perm.of_eq ?_)
    rw [eligible_eq, List.map_map]
    refine List.map_congr_left fun p hp => ?_
    rw [Function.comp_apply, eventTenant_of_allowed (List.mem_of_mem_take hp)]
  have hinj : Function.Injective (Prod.map (fun e : UUID => e) (some : String → Option String)) :=
    Function.injective_id.prodMap (Option.some_injective String)
  refine (List.map_perm_map_iff hinj).mp ?_
  rw [List.map_map, List.map_map]
  exact hbatch

end Program

end Matchmaking
