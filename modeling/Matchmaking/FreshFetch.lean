import Matchmaking.MatchProgress

/-!
# The fetch with the freshness bias

`fetch_waiting_tickets` with `freshness_bias` asks for the newest half of a batch and then for the oldest
half, and drops from the second what the first has returned. Each query breaks ties between equal
`created_at` as it likes. Where the two disagree they may return one ticket twice and another one not at
all; that cannot happen exactly where no ticket is `Contested`.
-/

namespace Matchmaking

open ReadCommitted

variable {i : ℕ} {l : Actor} {s : Tables} {w : ServiceWorld} {T : Option (Txn Row)}
  {answer : ℕ → (c : Call) → Reply c} {partitionIds : List ℕ} {batchSize : ℕ}

/-! ## What is promised, and when -/

/-- The other ticket comes before this one in the order of age, for certain. -/
def precedes (ascending : Bool) (row other : UUID × Ticket) : Bool :=
  if ascending then other.2.createdAt < row.2.createdAt else row.2.createdAt < other.2.createdAt

/-- The number of waiting tickets that come before this one for certain. -/
def before (ascending : Bool) (partitionIds : List ℕ) (s : Tables) (row : UUID × Ticket) : ℕ :=
  (openTickets partitionIds s).countP (precedes ascending row)

/-- The sizes of the two halves of a batch. -/
def newestLimit (batchSize : ℕ) : ℕ := (batchSize + 1) / 2

/-- What the newest half leaves of the batch. -/
def oldestLimit (batchSize : ℕ) : ℕ := batchSize - newestLimit batchSize

/-- It depends on the ties, for the newest and for the oldest half, whether the ticket is in it. -/
def Contested (batchSize : ℕ) (partitionIds : List ℕ) (s : Tables) (row : UUID × Ticket) : Prop :=
  let n := (openTickets partitionIds s).length
  let newer := before false partitionIds s row
  let older := before true partitionIds s row
  newer < newestLimit batchSize ∧ newestLimit batchSize + older < n ∧
    older < oldestLimit batchSize ∧ oldestLimit batchSize + newer < n

/-- Whether a ticket is contested is decided by counting. -/
instance (row : UUID × Ticket) : Decidable (Contested batchSize partitionIds s row) :=
  inferInstanceAs (Decidable (_ ∧ _))

/-- `rows` are `limit` of the oldest or newest waiting tickets, or all. -/
structure IsHalf (ascending : Bool) (partitionIds : List ℕ) (s : Tables) (limit : ℕ)
    (rows : List (UUID × Ticket)) : Prop where
  nodup : rows.Nodup
  isOpen : ∀ row ∈ rows, row ∈ openTickets partitionIds s
  length_eq : rows.length = min (openTickets partitionIds s).length limit
  extreme : ∀ row ∈ rows, ∀ other ∈ openTickets partitionIds s, other ∉ rows →
    precedes ascending row other = false

/-- The fetch returns `min(n, b)` different tickets, among them a newest and an oldest half, and nothing
but waiting tickets of the partitions. -/
structure FreshBatch (batchSize : ℕ) (partitionIds : List ℕ) (s : Tables)
    (tickets : List WaitingTicket) : Prop where
  count : tickets.length = min (openTickets partitionIds s).length batchSize
  distinct : (tickets.map WaitingTicket.ticketId).Nodup
  isOpen : ∀ t ∈ tickets, ∃ row ∈ openTickets partitionIds s, t = .ofRow row
  newest : ∃ rows, IsHalf false partitionIds s (newestLimit batchSize) rows ∧
    ∀ row ∈ rows, WaitingTicket.ofRow row ∈ tickets
  oldest : ∃ rows, IsHalf true partitionIds s (oldestLimit batchSize) rows ∧
    ∀ row ∈ rows, WaitingTicket.ofRow row ∈ tickets

/-- Whatever breaks the ties, the fetch with the bias returns a fresh batch, and the same set of tickets
as the one without it if the batch has room for all. -/
def FetchesFresh (batchSize : ℕ) (partitionIds : List ℕ) (s : Tables) : Prop :=
  ∀ (answer : ℕ → (c : Call) → Reply c) (i : ℕ) (l : Actor) (w : ServiceWorld) (T : Option (Txn Row)),
    Sees s w T → Client.Gives answer i l (fetchWaitingTickets partitionIds batchSize true none)
      (fun tickets _ _ => FreshBatch batchSize partitionIds s tickets ∧
        ((openTickets partitionIds s).length ≤ batchSize →
          Client.Gives answer i l (fetchWaitingTickets partitionIds batchSize false none)
            (fun fifo _ _ => ∀ t, t ∈ tickets ↔ t ∈ fifo) w T)) w T

/-! ## One query -/

/-- The rows one query returns, where `tie` breaks the ties. -/
def fetched (ascending : Bool) (tie : UUID → ℕ) (partitionIds : List ℕ) (s : Tables) (limit : ℕ) :
    List (UUID × Ticket) :=
  (orderBy (createdOrder ascending tie) (openTickets partitionIds s)).take limit

/-- Where there are no partitions, there are no rows. -/
theorem fetched_empty (ascending : Bool) (tie : UUID → ℕ) (s : Tables) (limit : ℕ) :
    fetched ascending tie [] s limit = [] := by
  have hnone : openTickets [] s = [] := List.filter_eq_nil_iff.mpr fun row _ => by simp [isFetched]
  rw [fetched, hnone]
  exact List.take_nil

/-- A query gives the first tickets of the order, with ties in whatever order the database chooses. -/
theorem fetchTicketsOrdered_fetches (h : Sees s w T) (limit : ℕ) (ascending : Bool) :
    Client.Gives answer i l (fetchTicketsOrdered partitionIds limit ascending none)
      (fun tickets w T => (∃ n, tickets = (fetched ascending (answer n .tieBreak) partitionIds s
        limit).map .ofRow) ∧ Sees s w T) w T := by
  unfold fetchTicketsOrdered
  split
  · next hzero =>
    refine .pure ⟨⟨0, ?_⟩, h⟩
    rw [hzero, fetched, List.take_zero, List.map_nil]
  · exact .bind (.call h fun n w' h' => .select h' fun _ _ h'' => ⟨⟨n, rfl⟩, h''⟩)

section Query

variable {ascending : Bool} {tie : UUID → ℕ} {limit : ℕ} {row other : UUID × Ticket}

/-- The order of a query respects age. -/
theorem precedes_of_order (h : createdOrder ascending tie row other = true) :
    precedes ascending row other = false := by
  have hle : ∀ x y : ℤ, x < y ∨ x = y ∧ tie row.1 ≤ tie other.1 → ¬ y < x := by omega
  have hge : ∀ x y : ℤ, y < x ∨ x = y ∧ tie row.1 ≤ tie other.1 → ¬ x < y := by omega
  rw [createdOrder_iff] at h
  unfold precedes
  cases ascending
  · exact decide_eq_false (hge _ _ h)
  · exact decide_eq_false (hle _ _ h)

/-- What comes before a ticket in one order comes after it in the other. -/
theorem precedes_flip (ascending : Bool) (row other : UUID × Ticket) :
    precedes (!ascending) row other = precedes ascending other row := by
  cases ascending <;> rfl

theorem precedes_self : precedes ascending row row = false := by
  cases ascending <;> simp [precedes]

/-- A row comes before or after another one for certain, or is as old. -/
theorem precedes_or (h : precedes ascending row other = false)
    (h' : precedes (!ascending) row other = false) : other.2.createdAt = row.2.createdAt := by
  have heq : ∀ x y : ℤ, ¬ x < y → ¬ y < x → x = y := by omega
  cases ascending
  · exact heq _ _ (of_decide_eq_false h') (of_decide_eq_false h)
  · exact heq _ _ (of_decide_eq_false h) (of_decide_eq_false h')

/-- What a query gives is an open ticket. -/
theorem mem_fetched (h : row ∈ fetched ascending tie partitionIds s limit) :
    row ∈ openTickets partitionIds s := mem_orderBy.mp (List.mem_of_mem_take h)

/-- Whatever the ties, a query gives one of the halves. -/
theorem fetched_isHalf (ascending : Bool) (tie : UUID → ℕ) (partitionIds : List ℕ) (s : Tables)
    (limit : ℕ) :
    IsHalf ascending partitionIds s limit (fetched ascending tie partitionIds s limit) where
  nodup := by
    have hnodup := (orderBy_perm (createdOrder ascending tie) (openTickets partitionIds s)).nodup_iff.mpr
      (openTickets_nodup partitionIds s)
    exact hnodup.sublist (List.take_sublist _ _)
  isOpen _ := mem_fetched
  length_eq := by
    rw [fetched, List.length_take, (orderBy_perm _ _).length_eq, min_comm]
  extreme row hrow other hother hnot := by
    have hle : createdOrder ascending tie row other = true := SortedPrefix.rel_of_mem_take
      (r := fun a b => createdOrder ascending tie a b = true) (createdOrder_sorted ascending tie _)
      hrow (mem_orderBy.mpr hother) hnot
    exact precedes_of_order hle

/-- A ticket that a query returns has few tickets before it. -/
theorem before_lt_of_mem (h : row ∈ fetched ascending tie partitionIds s limit) :
    before ascending partitionIds s row < limit := by
  rw [before, ← (orderBy_perm (createdOrder ascending tie) _).countP_eq]
  exact SortedPrefix.count_lt_of_mem_take (createdOrder_sorted ascending tie _) h
    (fun _ _ hprecedes hle => by cases hprecedes.symm.trans (precedes_of_order hle)) precedes_self

/-- A ticket that a query does not return has many tickets before it, so few after it. -/
theorem after_lt_of_notMem (hopen : row ∈ openTickets partitionIds s)
    (h : row ∉ fetched ascending tie partitionIds s limit) :
    limit + before (!ascending) partitionIds s row < (openTickets partitionIds s).length := by
  rw [before, ← (orderBy_perm (createdOrder ascending tie) _).countP_eq,
    ← (orderBy_perm (createdOrder ascending tie) (openTickets partitionIds s)).length_eq]
  refine SortedPrefix.count_lt_of_notMem_take (createdOrder_sorted ascending tie _)
    (mem_orderBy.mpr hopen) h (fun other _ hafter hle => ?_) precedes_self
  -- what comes after `row` does not come before it
  rw [precedes_flip, precedes_of_order hle] at hafter
  cases hafter

/-- Tickets of the same age have the same tickets before them. -/
theorem before_congr (h : other.2.createdAt = row.2.createdAt) :
    before ascending partitionIds s other = before ascending partitionIds s row := by
  unfold before precedes
  rw [h]

/-- A ticket that wins all ties is returned if there are few tickets before it. -/
theorem mem_fetched_of_first (hopen : row ∈ openTickets partitionIds s)
    (htie : ∀ id, id ≠ row.1 → tie row.1 < tie id) (h : before ascending partitionIds s row < limit) :
    row ∈ fetched ascending tie partitionIds s limit := by
  refine SortedPrefix.mem_take (p := precedes ascending row) (createdOrder_sorted ascending tie _)
    ((orderBy_perm _ _).nodup_iff.mpr (openTickets_nodup partitionIds s)) (mem_orderBy.mpr hopen) ?_ ?_
  · intro other hother hne hle
    have hid : other.1 ≠ row.1 := fun heq =>
      hne (openTickets_inj (mem_orderBy.mp hother) hopen heq)
    have htie := htie other.1 hid
    rw [createdOrder_iff] at hle
    unfold precedes
    cases ascending
    · exact decide_eq_true (hle.resolve_right fun h => Nat.not_lt.mpr h.2 htie)
    · exact decide_eq_true (hle.resolve_right fun h => Nat.not_lt.mpr h.2 htie)
  · rw [(orderBy_perm _ _).countP_eq]
    exact h

/-- A ticket that loses all ties is not returned if there are few tickets after it. -/
theorem notMem_fetched_of_last (hopen : row ∈ openTickets partitionIds s)
    (htie : ∀ id, id ≠ row.1 → tie id < tie row.1)
    (h : limit + before (!ascending) partitionIds s row < (openTickets partitionIds s).length) :
    row ∉ fetched ascending tie partitionIds s limit := by
  refine SortedPrefix.notMem_take
    (p := fun other => other.1 ≠ row.1 && !precedes (!ascending) row other)
    (createdOrder_sorted ascending tie _) (fun other _ hother hle => ?_) (by simp) ?_
  · simp only [Bool.and_eq_true, decide_eq_true_eq, Bool.not_eq_true'] at hother
    have htie := htie other.1 hother.1
    have hafter := hother.2
    rw [createdOrder_iff] at hle
    unfold precedes at hafter
    cases ascending
    · exact hle.elim (of_decide_eq_false hafter) fun h => Nat.not_lt.mpr h.2 htie
    · exact hle.elim (of_decide_eq_false hafter) fun h => Nat.not_lt.mpr h.2 htie
  · -- every row is after this one, or this one, or counted
    rw [(orderBy_perm _ _).countP_eq]
    have hsplit := List.length_eq_countP_add_countP (precedes (!ascending) row)
      (l := openTickets partitionIds s)
    have hothers : (openTickets partitionIds s).countP (fun other => !precedes (!ascending) row other)
        ≤ (openTickets partitionIds s).countP
          (fun other => other.1 ≠ row.1 && !precedes (!ascending) row other) + 1 := by
      refine SortedPrefix.countP_le_succ (a := row) (openTickets_nodup partitionIds s) ?_
      intro other hother hne hq
      rw [hq, Bool.and_true]
      exact decide_eq_true fun heq => hne (openTickets_inj hother hopen heq)
    unfold before at h
    have hneg : (openTickets partitionIds s).countP (fun other => !precedes (!ascending) row other)
        = (openTickets partitionIds s).countP fun other => ¬ precedes (!ascending) row other = true :=
      List.countP_congr fun other _ => by simp
    omega

end Query

/-! ## Both queries -/

/-- The rows of both queries, those of the second without those of the first. -/
def freshRows (tie tie' : UUID → ℕ) (partitionIds : List ℕ) (s : Tables) (batchSize : ℕ) :
    List (UUID × Ticket) :=
  let newest := fetched false tie partitionIds s (newestLimit batchSize)
  newest ++ (fetched true tie' partitionIds s (oldestLimit batchSize)).filter fun row =>
    newest.all fun other => other.1 ≠ row.1

/-- The test of ids by which the second half is filtered. -/
theorem all_apart {rows : List (UUID × Ticket)} {id : UUID} :
    (rows.all fun other => other.1 ≠ id) = true ↔ id ∉ rows.map Prod.fst := by
  rw [List.all_eq_true, List.mem_map, not_exists]
  exact forall_congr' fun other => by rw [decide_eq_true_iff, not_and]

/-- With the bias, a fetch gives the newest half and those of the oldest half that are not in it. -/
theorem fetchWaitingTickets_fresh (h : Sees s w T) :
    Client.Gives answer i l (fetchWaitingTickets partitionIds batchSize true none)
      (fun tickets _ _ => ∃ m n, tickets = (freshRows (answer m .tieBreak) (answer n .tieBreak)
        partitionIds s batchSize).map .ofRow) w T := by
  unfold fetchWaitingTickets
  split
  · next hempty =>
    refine .pure ⟨0, 0, ?_⟩
    rw [List.isEmpty_iff.mp hempty]
    simp only [freshRows, fetched_empty]
    rfl
  · refine .bind ((fetchTicketsOrdered_fetches h _ false).mono ?_)
    rintro _ w₁ T₁ ⟨⟨m, rfl⟩, h₁⟩
    refine .bind ((fetchTicketsOrdered_fetches h₁ _ true).mono ?_)
    rintro _ w₂ T₂ ⟨⟨n, rfl⟩, -⟩
    refine .pure ⟨m, n, ?_⟩
    rw [freshRows, List.map_append, List.filter_map, List.map_map]
    refine congrArg (_ ++ List.map _ ·) (List.filter_congr fun row _ => ?_)
    rw [Bool.eq_iff_iff, all_apart]
    exact decide_eq_true_iff

section Rows

variable {tie tie' : UUID → ℕ} {row : UUID × Ticket}

/-- A ticket is fetched if it is in either half. -/
theorem mem_freshRows : row ∈ freshRows tie tie' partitionIds s batchSize ↔
    row ∈ fetched false tie partitionIds s (newestLimit batchSize) ∨
      row ∈ fetched true tie' partitionIds s (oldestLimit batchSize) := by
  rw [freshRows, List.mem_append, List.mem_filter]
  refine ⟨fun h => h.imp_right And.left, fun h => ?_⟩
  by_cases hseen : row.1 ∈
      (fetched false tie partitionIds s (newestLimit batchSize)).map Prod.fst
  · obtain ⟨row', hrow', hid⟩ := List.mem_map.mp hseen
    have hopen : row ∈ openTickets partitionIds s := h.elim mem_fetched mem_fetched
    exact .inl (openTickets_inj (mem_fetched hrow') hopen hid ▸ hrow')
  · exact h.imp_right fun h => ⟨h, all_apart.mpr hseen⟩

theorem freshRows_open (h : row ∈ freshRows tie tie' partitionIds s batchSize) :
    row ∈ openTickets partitionIds s := (mem_freshRows.mp h).elim mem_fetched mem_fetched

/-- The filter keeps a ticket of both halves from occurring twice. -/
theorem freshRows_nodup : (freshRows tie tie' partitionIds s batchSize).Nodup := by
  refine List.nodup_append.mpr ⟨(fetched_isHalf ..).nodup, (fetched_isHalf ..).nodup.filter _, ?_⟩
  rintro row hrow _ hrow' rfl
  exact all_apart.mp (List.mem_filter.mp hrow').2 (List.mem_map_of_mem hrow)

/-- Where no ticket is contested, no ticket is returned twice, or none is left out. -/
theorem apart_or_all (tie tie' : UUID → ℕ)
    (h : ∀ row ∈ openTickets partitionIds s, ¬ Contested batchSize partitionIds s row) :
    (∀ row ∈ fetched true tie' partitionIds s (oldestLimit batchSize),
        row ∉ fetched false tie partitionIds s (newestLimit batchSize)) ∨
      ∀ row ∈ openTickets partitionIds s, row ∈ freshRows tie tie' partitionIds s batchSize := by
  by_contra hcon
  push Not at hcon
  obtain ⟨⟨row, hold, hnew⟩, other, hother, hleft⟩ := hcon
  rw [mem_freshRows, not_or] at hleft
  -- the ticket that is left out is as old as the one that is returned twice
  have hsame : other.2.createdAt = row.2.createdAt := precedes_or
    ((fetched_isHalf ..).extreme row hnew other hother hleft.1)
    ((fetched_isHalf ..).extreme row hold other hother hleft.2)
  have hafter := after_lt_of_notMem hother hleft.1
  have hafter' := after_lt_of_notMem hother hleft.2
  rw [before_congr hsame] at hafter hafter'
  exact h row (mem_fetched hnew)
    ⟨before_lt_of_mem hnew, hafter, before_lt_of_mem hold, hafter'⟩

/-- Where no ticket is contested, the two halves overlap only if together they have all tickets, so the batch
is as full as it can be. -/
theorem length_freshRows (tie tie' : UUID → ℕ)
    (h : ∀ row ∈ openTickets partitionIds s, ¬ Contested batchSize partitionIds s row) :
    (freshRows tie tie' partitionIds s batchSize).length
      = min (openTickets partitionIds s).length batchSize := by
  have hnew := (fetched_isHalf false tie partitionIds s (newestLimit batchSize)).length_eq
  have hold := (fetched_isHalf true tie' partitionIds s (oldestLimit batchSize)).length_eq
  have hhalves : newestLimit batchSize + oldestLimit batchSize = batchSize ∧
      oldestLimit batchSize ≤ newestLimit batchSize := by
    unfold oldestLimit newestLimit
    omega
  have hle : (freshRows tie tie' partitionIds s batchSize).length
      ≤ (openTickets partitionIds s).length :=
    (List.subperm_of_subset freshRows_nodup fun _ => freshRows_open).length_le
  obtain hapart | hall := apart_or_all tie tie' h
  · have hfilter : (freshRows tie tie' partitionIds s batchSize).length
        = (fetched false tie partitionIds s (newestLimit batchSize)).length
          + (fetched true tie' partitionIds s (oldestLimit batchSize)).length := by
      rw [freshRows, List.length_append, List.filter_eq_self.mpr fun row hrow => all_apart.mpr ?_]
      intro hseen
      obtain ⟨row', hrow', hid⟩ := List.mem_map.mp hseen
      exact hapart row hrow (openTickets_inj (mem_fetched hrow') (mem_fetched hrow) hid ▸ hrow')
    omega
  · have hge : (openTickets partitionIds s).length
        ≤ (freshRows tie tie' partitionIds s batchSize).length :=
      (List.subperm_of_subset (openTickets_nodup partitionIds s) hall).length_le
    have hsum : (freshRows tie tie' partitionIds s batchSize).length
        ≤ (fetched false tie partitionIds s (newestLimit batchSize)).length
          + (fetched true tie' partitionIds s (oldestLimit batchSize)).length := by
      rw [freshRows, List.length_append]
      exact Nat.add_le_add_left (List.length_filter_le _ _) _
    omega

/-- All rows of the batch, if it has room for them. -/
theorem freshRows_all (hroom : (openTickets partitionIds s).length ≤ batchSize)
    (hlength : (freshRows tie tie' partitionIds s batchSize).length
      = min (openTickets partitionIds s).length batchSize)
    (hopen : row ∈ openTickets partitionIds s) :
    row ∈ freshRows tie tie' partitionIds s batchSize := by
  by_contra hnot
  have hlt := SortedPrefix.length_lt_of_notMem freshRows_nodup (fun _ => freshRows_open) hopen hnot
  omega

/-- A batch of that length is a fresh one. -/
theorem freshRows_batch
    (hlength : (freshRows tie tie' partitionIds s batchSize).length
      = min (openTickets partitionIds s).length batchSize) :
    FreshBatch batchSize partitionIds s
      ((freshRows tie tie' partitionIds s batchSize).map .ofRow) where
  count := by rw [List.length_map, hlength]
  distinct := by
    rw [List.map_map]
    refine List.Nodup.map_on ?_ freshRows_nodup
    exact fun row hrow row' hrow' hid => openTickets_inj (freshRows_open hrow) (freshRows_open hrow') hid
  isOpen t ht := by
    obtain ⟨row, hrow, rfl⟩ := List.mem_map.mp ht
    exact ⟨row, freshRows_open hrow, rfl⟩
  newest := ⟨_, fetched_isHalf .., fun _ hrow => List.mem_map_of_mem (mem_freshRows.mpr (.inl hrow))⟩
  oldest := ⟨_, fetched_isHalf .., fun _ hrow => List.mem_map_of_mem (mem_freshRows.mpr (.inr hrow))⟩

/-- A contested ticket makes the batch too small, where it wins all ties, or loses all of them. -/
theorem length_freshRows_lt (hopen : row ∈ openTickets partitionIds s)
    (h : Contested batchSize partitionIds s row)
    (hfirst : batchSize < (openTickets partitionIds s).length → ∀ id, id ≠ row.1 → tie row.1 < tie id)
    (hlast : (openTickets partitionIds s).length ≤ batchSize → ∀ id, id ≠ row.1 → tie id < tie row.1) :
    (freshRows tie tie partitionIds s batchSize).length
      < min (openTickets partitionIds s).length batchSize := by
  obtain ⟨hnewer, hnewer', holder, holder'⟩ := h
  have hhalves : newestLimit batchSize + oldestLimit batchSize = batchSize := by
    unfold oldestLimit newestLimit
    omega
  by_cases hroom : (openTickets partitionIds s).length ≤ batchSize
  · -- it is left out
    rw [min_eq_left hroom]
    refine SortedPrefix.length_lt_of_notMem freshRows_nodup (fun _ => freshRows_open) hopen ?_
    rw [mem_freshRows, not_or]
    exact ⟨notMem_fetched_of_last hopen (hlast hroom) hnewer',
      notMem_fetched_of_last hopen (hlast hroom) holder'⟩
  · -- it is returned twice
    have htie := hfirst (Nat.lt_of_not_le hroom)
    have hnew := mem_fetched_of_first hopen htie hnewer
    have hold := mem_fetched_of_first hopen htie holder
    rw [min_eq_right (Nat.le_of_not_le hroom), freshRows, List.length_append]
    have hlt := List.length_filter_lt_length_iff_exists (p := fun r : UUID × Ticket =>
      (fetched false tie partitionIds s (newestLimit batchSize)).all fun other => other.1 ≠ r.1)
      (l := fetched true tie partitionIds s (oldestLimit batchSize))
      |>.mpr ⟨row, hold, fun h => all_apart.mp h (List.mem_map_of_mem hnew)⟩
    have hlen := (fetched_isHalf false tie partitionIds s (newestLimit batchSize)).length_eq
    have hlen' := (fetched_isHalf true tie partitionIds s (oldestLimit batchSize)).length_eq
    omega

end Rows

/-! ## Main result -/

/-- Without the bias, a batch that has room for all tickets returns all. -/
theorem fetchWaitingTickets_fifo (h : Sees s w T)
    (hroom : (openTickets partitionIds s).length ≤ batchSize) :
    Client.Gives answer i l (fetchWaitingTickets partitionIds batchSize false none)
      (fun tickets _ _ => ∀ t, t ∈ tickets ↔ ∃ row ∈ openTickets partitionIds s, .ofRow row = t) w T := by
  refine (fetchWaitingTickets_gives h partitionIds batchSize false).mono ?_
  rintro tickets _ _ ⟨⟨hof, hin⟩, -⟩ t
  constructor
  · intro ht
    obtain ⟨row, hrow, rfl⟩ := hof t ht
    exact ⟨row, hrow, rfl⟩
  · rintro ⟨row, hrow, rfl⟩
    refine hin row hrow ⟨hrow, Nat.lt_of_lt_of_le ?_ hroom⟩
    refine SortedPrefix.length_lt_of_notMem ((openTickets_nodup partitionIds s).filter _)
      (fun _ => List.mem_of_mem_filter) hrow fun hmem => ?_
    simpa [mayPrecede] using (List.mem_filter.mp hmem).2

/-- **The fetch with the freshness bias loses and duplicates nothing**, whatever breaks the ties, exactly if
no ticket is contested. Being contested is a matter of the table alone: how many tickets are newer and how
many are older than this one, compared with the two halves of the batch. -/
theorem fetches_fresh_iff (batchSize : ℕ) (partitionIds : List ℕ) (s : Tables) :
    FetchesFresh batchSize partitionIds s ↔
      ∀ row ∈ openTickets partitionIds s, ¬ Contested batchSize partitionIds s row := by
  constructor
  · intro hfresh row hrow hcontested
    let n := (openTickets partitionIds s).length
    let tie : UUID → ℕ := fun id =>
      if id = row.1 then (if n ≤ batchSize then 1 else 0) else if n ≤ batchSize then 0 else 1
    let answer : ℕ → (c : Call) → Reply c := fun k c => match c with
      | .tieBreak => tie
      | c => quietAnswer k c
    have hsees : Sees s (⟨s, 0, []⟩ : ServiceWorld) none := ⟨rfl, rfl⟩
    obtain ⟨tickets, _, _, -, ⟨hbatch, -⟩, m, k, rfl⟩ :=
      (hfresh answer 0 (.shutdownWorker "w") _ _ hsees).and (fetchWaitingTickets_fresh hsees)
    have hcount := hbatch.count
    rw [List.length_map] at hcount
    refine absurd hcount (Nat.ne_of_lt (length_freshRows_lt hrow hcontested ?_ ?_))
    · intro hmany id hid
      have hmany' : ¬ n ≤ batchSize := Nat.not_le.mpr hmany
      show tie row.1 < tie id
      simp [tie, hid, hmany']
    · intro hroom id hid
      have hroom' : n ≤ batchSize := hroom
      show tie id < tie row.1
      simp [tie, hid, hroom']
  · intro hnone answer i l w T hsees
    refine (fetchWaitingTickets_fresh hsees).mono ?_
    rintro _ _ _ ⟨m, k, rfl⟩
    have hlength := length_freshRows (answer m .tieBreak) (answer k .tieBreak) hnone
    refine ⟨freshRows_batch hlength, fun hroom => ?_⟩
    refine (fetchWaitingTickets_fifo hsees hroom).mono fun fifo _ _ hfifo t => ?_
    rw [hfifo t, List.mem_map]
    refine exists_congr fun row => and_congr_left fun _ => ?_
    exact ⟨freshRows_open, freshRows_all hroom hlength⟩

/-- Two tickets of the same age. -/
def twinScript : List (System.Move Reply Exn Actor) :=
  runs 0 (.migrate sampleSettings) ++ runs 1 (sampleRequest none "p1") ++
    runs 2 (sampleRequest none "p2")

/-- The state with tickets of one age. -/
def twinState : ServiceState := (service sampleRuntime).after twinScript (emptyState 0)

/-- In a batch of two, both queries may return the same of the two tickets. -/
theorem twin_lost : (service sampleRuntime).Reachable (emptyState 0) twinState ∧
    ¬ FetchesFresh 2 [0] twinState.world.committed := by
  refine ⟨System.reachable_after twinScript _, fun hfresh => ?_⟩
  obtain ⟨tickets, _, _, hrun, hbatch, -⟩ := hfresh quietAnswer 3 (.runLoop {} "w" 0)
    ⟨twinState.world.committed, 0, []⟩ none ⟨rfl, rfl⟩
  have hcount : (Prog.alone quietAnswer 3 (.runLoop {} "w" 0)
      (fetchWaitingTickets [0] 2 true none).run
      (⟨twinState.world.committed, 0, []⟩ : ServiceWorld) none).map
        (fun r => r.1.toOption.map List.length) = some (some 1) := by decide +kernel
  have hopen : (openTickets [0] twinState.world.committed).length = 2 := by decide +kernel
  rw [hrun] at hcount
  have hlength : tickets.length = 1 := Option.some.inj (Option.some.inj hcount)
  have hbad := hbatch.count
  rw [hlength, hopen] at hbad
  cases hbad

end Matchmaking
