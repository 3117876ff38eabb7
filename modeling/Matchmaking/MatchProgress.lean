import Matchmaking.Refinement
import Matchmaking.PairSearch
import Matchmaking.SortedPrefix

/-!
# Progress of matching

A worker looks for pairs only among the tickets it has fetched, and it fetches a bounded batch by age,
from all its partitions together. Compatible tickets within that window lead to a pair; a compatible
ticket outside of it is not seen.
-/

namespace Matchmaking

open ReadCommitted

variable {settings : Settings} {i : ℕ} {l : Actor} {s : Tables} {w : ServiceWorld}
  {T : Option (Txn Row)} {answer : ℕ → (c : Call) → Reply c}

/-! ## The window -/

/-- The waiting tickets of the partitions. -/
def openTickets (partitionIds : List ℕ) (s : Tables) : List (UUID × Ticket) :=
  (rowsOf ticketRow s).filter fun (_, t) => isFetched partitionIds none 0 t

/-- The other ticket may come before this one in the order of age, whatever decides between equal
times. -/
def mayPrecede (ascending : Bool) (row other : UUID × Ticket) : Bool :=
  other.1 ≠ row.1 && (if ascending then other.2.createdAt ≤ row.2.createdAt
    else row.2.createdAt ≤ other.2.createdAt)

/-- The number of waiting tickets that may come before this one. -/
def ahead (ascending : Bool) (partitionIds : List ℕ) (s : Tables) (row : UUID × Ticket) : ℕ :=
  ((openTickets partitionIds s).filter (mayPrecede ascending row)).length

/-- The batch has room for the ticket: as one of the oldest, or, with the bias, as one of the newest
or one of the oldest. -/
def InWindow (batchSize : ℕ) (freshnessBias : Bool) (partitionIds : List ℕ) (s : Tables)
    (row : UUID × Ticket) : Prop :=
  row ∈ openTickets partitionIds s ∧
    if freshnessBias then
      ahead false partitionIds s row < (batchSize + 1) / 2 ∨
        ahead true partitionIds s row < batchSize - (batchSize + 1) / 2
    else ahead true partitionIds s row < batchSize

/-! ## Fetching -/

theorem createdOrder_iff {ascending : Bool} {tie : UUID → ℕ} {a b : UUID × Ticket} :
    createdOrder ascending tie a b = true ↔
      (if ascending then a.2.createdAt < b.2.createdAt else b.2.createdAt < a.2.createdAt) ∨
        a.2.createdAt = b.2.createdAt ∧ tie a.1 ≤ tie b.1 := by
  unfold createdOrder
  by_cases heq : a.2.createdAt = b.2.createdAt
  · simp [heq]
  · cases ascending <;> simp [heq]

/-- Rows in the order of `createdOrder`. -/
theorem createdOrder_sorted (ascending : Bool) (tie : UUID → ℕ) (rows : List (UUID × Ticket)) :
    (orderBy (createdOrder ascending tie) rows).Pairwise fun a b =>
      createdOrder ascending tie a b = true := by
  have htotal : ∀ (x y : ℤ) (p q : ℕ), (x < y ∨ x = y ∧ p ≤ q) ∨ y < x ∨ y = x ∧ q ≤ p := by omega
  have htotal' : ∀ (x y : ℤ) (p q : ℕ), (y < x ∨ x = y ∧ p ≤ q) ∨ x < y ∨ y = x ∧ q ≤ p := by omega
  have htrans : ∀ (x y z : ℤ) (p q r : ℕ), (x < y ∨ x = y ∧ p ≤ q) → (y < z ∨ y = z ∧ q ≤ r) →
      x < z ∨ x = z ∧ p ≤ r := by omega
  have htrans' : ∀ (x y z : ℤ) (p q r : ℕ), (y < x ∨ x = y ∧ p ≤ q) → (z < y ∨ y = z ∧ q ≤ r) →
      z < x ∨ x = z ∧ p ≤ r := by omega
  have : Std.Total fun a b => createdOrder ascending tie a b = true := ⟨fun a b => by
    rw [createdOrder_iff, createdOrder_iff]
    cases ascending
    · exact htotal' _ _ _ _
    · exact htotal _ _ _ _⟩
  have : IsTrans (UUID × Ticket) fun a b => createdOrder ascending tie a b = true := ⟨fun a b c => by
    rw [createdOrder_iff, createdOrder_iff, createdOrder_iff]
    cases ascending
    · exact htrans' _ _ _ _ _ _
    · exact htrans _ _ _ _ _ _⟩
  exact List.pairwise_insertionSort _ rows

theorem openTickets_nodup (partitionIds : List ℕ) (s : Tables) :
    (openTickets partitionIds s).Nodup := (ticketRows_nodup s).filter _

/-- A row of a ticket, by its id. -/
theorem openTickets_inj {partitionIds : List ℕ} {a b : UUID × Ticket}
    (ha : a ∈ openTickets partitionIds s) (hb : b ∈ openTickets partitionIds s) (h : a.1 = b.1) :
    a = b := by
  obtain ⟨id, t⟩ := a
  obtain ⟨id', t'⟩ := b
  obtain rfl : id = id' := h
  have ht := mem_rowsOf_ticketRow.mp (List.mem_of_mem_filter ha)
  have ht' := mem_rowsOf_ticketRow.mp (List.mem_of_mem_filter hb)
  rw [Option.some.inj (ht.symm.trans ht')]

/-- A query fetches open tickets, among them those with too few others ahead of them. -/
def Fetches (partitionIds : List ℕ) (s : Tables) (p : UUID × Ticket → Prop)
    (tickets : List WaitingTicket) : Prop :=
  (∀ t ∈ tickets, ∃ row ∈ openTickets partitionIds s, t = .ofRow row) ∧
    ∀ row ∈ openTickets partitionIds s, p row → WaitingTicket.ofRow row ∈ tickets

theorem fetchTicketsOrdered_gives (h : Sees s w T) (partitionIds : List ℕ) (limit : ℕ)
    (ascending : Bool) : Client.Gives answer i l (fetchTicketsOrdered partitionIds limit ascending none)
      (fun tickets w T => Fetches partitionIds s (fun row => ahead ascending partitionIds s row < limit)
        tickets ∧ Sees s w T) w T := by
  unfold fetchTicketsOrdered
  split
  · next hzero =>
    exact .pure ⟨⟨fun _ ht => (List.not_mem_nil ht).elim, fun row _ hrow => by
      rw [hzero] at hrow
      exact absurd hrow (Nat.not_lt_zero _)⟩, h⟩
  refine .bind (.call h fun n w' h' => .select h' fun now T' h'' => ⟨⟨fun t ht => ?_, fun row hrow hahead =>
    List.mem_map.mpr ⟨row, ?_, rfl⟩⟩, h''⟩)
  · obtain ⟨row, hrow, rfl⟩ := List.mem_map.mp ht
    exact ⟨row, mem_orderBy.mp (List.mem_of_mem_take hrow), rfl⟩
  · refine SortedPrefix.mem_take (p := mayPrecede ascending row) (createdOrder_sorted ascending _ _) ?_
      (mem_orderBy.mpr hrow) (fun other hother hne hle => ?_) ?_
    · exact (orderBy_perm _ _).nodup_iff.mpr (openTickets_nodup partitionIds s)
    · have hid : other.1 ≠ row.1 := fun heq =>
        hne (openTickets_inj (mem_orderBy.mp hother) hrow heq)
      rw [createdOrder_iff] at hle
      have horder : ∀ x y : ℤ, x < y ∨ x = y → x ≤ y := by omega
      cases ascending
      · simpa [mayPrecede, hid] using horder _ _ (hle.imp_right fun h => h.1.symm)
      · simpa [mayPrecede, hid] using horder _ _ (hle.imp_right And.left)
    · rw [(orderBy_perm _ _).countP_eq, List.countP_eq_length_filter]
      exact hahead

/-- The whole fetch. -/
theorem fetchWaitingTickets_gives (h : Sees s w T) (partitionIds : List ℕ) (batchSize : ℕ)
    (freshnessBias : Bool) :
    Client.Gives answer i l (fetchWaitingTickets partitionIds batchSize freshnessBias none)
      (fun tickets w T => Fetches partitionIds s (InWindow batchSize freshnessBias partitionIds s)
        tickets ∧ Sees s w T) w T := by
  unfold fetchWaitingTickets
  split
  · next hempty =>
    have hnone : openTickets partitionIds s = [] := by
      rw [List.isEmpty_iff.mp hempty]
      exact List.filter_eq_nil_iff.mpr fun row _ => by simp [isFetched]
    exact .pure ⟨⟨fun _ ht => (List.not_mem_nil ht).elim, fun row hrow => by
      rw [hnone] at hrow
      cases hrow⟩, h⟩
  cases freshnessBias with
  | false =>
    exact (fetchTicketsOrdered_gives h partitionIds batchSize true).mono
      fun tickets w T h => ⟨⟨h.1.1, fun row hrow hwindow => h.1.2 row hrow hwindow.2⟩, h.2⟩
  | true =>
    refine .bind ((fetchTicketsOrdered_gives h partitionIds _ false).mono ?_)
    rintro newest w₁ T₁ ⟨⟨hof, hin⟩, h₁⟩
    refine .bind ((fetchTicketsOrdered_gives h₁ partitionIds _ true).mono ?_)
    rintro oldest w₂ T₂ ⟨⟨hof', hin'⟩, h₂⟩
    refine .pure ⟨⟨fun t ht => ?_, fun row hrow hwindow => ?_⟩, h₂⟩
    · exact (List.mem_append.mp ht).elim (hof t) fun ht => hof' t (List.mem_of_mem_filter ht)
    · rw [List.mem_append]
      by_cases hseen : (WaitingTicket.ofRow row).ticketId ∈ newest.map WaitingTicket.ticketId
      · -- the ticket with this id among the newest is the same one
        obtain ⟨t, ht, hid⟩ := List.mem_map.mp hseen
        obtain ⟨row', hrow', rfl⟩ := hof t ht
        exact .inl (openTickets_inj hrow' hrow hid ▸ ht)
      · refine hwindow.2.imp (hin row hrow) fun hahead => ?_
        exact List.mem_filter.mpr ⟨hin' row hrow hahead, by simpa using hseen⟩

/-! ## One loop -/

/-- What a loop does to find pairs, once it knows its partitions. -/
def fetchAndFind (settings : Settings) (partitionIds : List ℕ) :
    Db (List (WaitingTicket × WaitingTicket)) := do
  let tickets ← fetchWaitingTickets partitionIds settings.workerTicketBatchSize
    settings.workerFreshnessBias none
  findPairs tickets settings

/-- **Progress within the window.** Where two tickets of the window are compatible at all times `τ` that the
clock may show, the loop finds a pair. The window is what the fetch is sure to return, however ties are
broken. Which pair is found is left open, since a ticket of the two may be paired with another one before.
-/
theorem pair_found (hsize : settings.matchSize = 2) {τ : Time → Prop}
    (hclock : ∀ n, τ (answer n .wallClock)) (hsees : Sees s w T) {partitionIds : List ℕ}
    {a b : UUID × Ticket}
    (ha : InWindow settings.workerTicketBatchSize settings.workerFreshnessBias partitionIds s a)
    (hb : InWindow settings.workerTicketBatchSize settings.workerFreshnessBias partitionIds s b)
    (hne : a.1 ≠ b.1) (hcompatible : CompatibleAt settings τ (.ofRow a) (.ofRow b)) :
    Client.Gives answer i l (fetchAndFind settings partitionIds) (fun pairs _ _ => pairs ≠ []) w T := by
  refine .bind ((fetchWaitingTickets_gives hsees partitionIds _ _).mono ?_)
  rintro tickets w₁ T₁ ⟨⟨-, hin⟩, h₁⟩
  unfold findPairs
  rw [if_neg (not_not.mpr hsize)]
  refine (findPairsFrom_gives (fun n _ => hclock n) (Nat.zero_le _) tickets []).mono
    fun pairs w₂ T₂ hpairs hnil => ?_
  have hsymm : Std.Symm fun x y => ¬ CompatibleAt settings τ x y :=
    ⟨fun _ _ h hc => h hc.symm⟩
  have hapart : tickets.Pairwise fun x y => ¬ CompatibleAt settings τ x y := by
    have hmaximal := hpairs.2.maximal
    rw [hnil] at hmaximal
    exact hmaximal.imp fun h => h List.not_mem_nil List.not_mem_nil List.not_mem_nil List.not_mem_nil
  refine hapart.forall (hin a ha.1 ha) (hin b hb.1 hb) (fun heq => hne ?_) hcompatible
  exact congrArg WaitingTicket.ticketId heq

/-! ## Outside of the window -/

/-- Batches of two. -/
def smallBatches (freshnessBias : Bool) : Settings :=
  { workerTicketBatchSize := 2, workerFreshnessBias := freshnessBias }

/-- Two compatible tickets wait in partition 0, and a loop with this setting of the freshness bias and
batches of two finds no pair. -/
def Missed (freshnessBias : Bool) (s : ServiceState) : Prop :=
  (∃ a ∈ openTickets [0] s.world.committed, ∃ b ∈ openTickets [0] s.world.committed, a.1 ≠ b.1 ∧
    Compatible (smallBatches freshnessBias) 0 0 (.ofRow a) (.ofRow b)) ∧
  ∃ w T, Prog.alone quietAnswer 4 (.runLoop (smallBatches freshnessBias) "w" 0)
    (fetchAndFind (smallBatches freshnessBias) [0]).run s.world none = some (.ok [], w, T)

/-- Three players in turn, each in a region of its own choice. -/
def threeScript (first second third : String) : List (System.Move Reply Exn Actor) :=
  runs 0 (.migrate sampleSettings) ++
    runs 1 (.createTicket sampleSettings (some "studio_a") none ⟨"p1", first, "ranked", 0⟩) ++
    [.act (.tick 1)] ++
    runs 2 (.createTicket sampleSettings (some "studio_a") none ⟨"p2", second, "ranked", 0⟩) ++
    [.act (.tick 1)] ++
    runs 3 (.createTicket sampleSettings (some "studio_a") none ⟨"p3", third, "ranked", 0⟩)

def threeState (first second third : String) : ServiceState :=
  (service sampleRuntime).after (threeScript first second third) (emptyState 0)

/-- A missed pair, from values that can be computed. -/
theorem Missed.of_computed {freshnessBias : Bool} {s : ServiceState} (i j : ℕ)
    (hpair : ((openTickets [0] s.world.committed)[i]?.any fun a =>
      (openTickets [0] s.world.committed)[j]?.any fun b => decide (a.1 ≠ b.1 ∧
        Compatible (smallBatches freshnessBias) 0 0 (.ofRow a) (.ofRow b))) = true)
    (hrun : ((Prog.alone quietAnswer 4 (.runLoop (smallBatches freshnessBias) "w" 0)
      (fetchAndFind (smallBatches freshnessBias) [0]).run s.world none).any fun r =>
        r.1.toOption.any List.isEmpty) = true) : Missed freshnessBias s := by
  constructor
  · obtain ⟨a, ha, hpair⟩ := (Option.any_eq_true ..).mp hpair
    obtain ⟨b, hb, hpair⟩ := (Option.any_eq_true ..).mp hpair
    exact ⟨a, List.mem_of_getElem? ha, b, List.mem_of_getElem? hb, of_decide_eq_true hpair⟩
  · obtain ⟨⟨r, w, T⟩, hr, hempty⟩ := (Option.any_eq_true ..).mp hrun
    cases r with
    | error e => cases hempty
    | ok pairs =>
      refine ⟨w, T, hr.trans ?_⟩
      rw [List.isEmpty_iff.mp hempty]

/-- **A pair that no loop finds.** The oldest two tickets, or the newest and the oldest, are in different
regions, and the third ticket is not looked at. -/
theorem pair_missed : Missed false (threeState "eu" "us" "eu") ∧ Missed true (threeState "eu" "eu" "us") :=
  ⟨.of_computed 0 2 (by decide +kernel) (by decide +kernel),
    .of_computed 1 2 (by decide +kernel) (by decide +kernel)⟩

/-- The oldest two tickets are a pair. -/
theorem pair_found_oldest : Client.Gives quietAnswer 4 (.runLoop (smallBatches false) "w" 0)
    (fetchAndFind (smallBatches false) [0]) (fun pairs _ _ => pairs ≠ [])
    (threeState "eu" "eu" "us").world none := by
  let rows := openTickets [0] (threeState "eu" "eu" "us").world.committed
  have hsees : Sees (threeState "eu" "eu" "us").world.committed (threeState "eu" "eu" "us").world none :=
    ⟨rfl, rfl⟩
  obtain ⟨τ, hτ⟩ : ∃ τ : Time → Prop, ∀ t, τ t ↔ t = 0 := ⟨_, fun _ => Iff.rfl⟩
  have hclock : ∀ n, τ (quietAnswer n .wallClock) := fun n => (hτ _).mpr rfl
  refine pair_found rfl hclock hsees
    ⟨List.get_mem rows ⟨2, by decide +kernel⟩, ?_⟩ ⟨List.get_mem rows ⟨1, by decide +kernel⟩, ?_⟩ ?_ ?_
  · decide +kernel
  · decide +kernel
  · decide +kernel
  · intro t t' ht ht'
    rw [(hτ t).mp ht, (hτ t').mp ht']
    decide +kernel

end Matchmaking
