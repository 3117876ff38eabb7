import Matchmaking.PairSearch
import Matchmaking.StablePairing

/-!
# The pairs found are stable

`find_pairs` lets the tickets choose in turn: the first one that is left takes the first one after it
that is compatible. Hence no two compatible tickets are passed over for tickets behind them in the list,
which is the order of age where the batch is fetched oldest first. As long as nobody's tolerance grows
during the search, there is no other such pairing.
-/

namespace Matchmaking

open ReadCommitted StablePairing

variable {settings : Settings} {i : ℕ} {l : Actor} {w : ServiceWorld} {T : Option (Txn Row)}
  {answer : ℕ → (c : Call) → Reply c}

/-- The tickets are compatible at times that the clock may show. -/
def CompatibleOnce (settings : Settings) (τ : Time → Prop) (left right : WaitingTicket) : Prop :=
  ∃ t t', τ t ∧ τ t' ∧ Compatible settings t t' left right

/-- The tickets that are left. -/
def leftOf (used : List UUID) (tickets : List WaitingTicket) : List WaitingTicket :=
  tickets.filter fun t => !used.contains t.ticketId

theorem leftOf_used {used : List UUID} {first : WaitingTicket} {rest : List WaitingTicket}
    (h : first.ticketId ∈ used) : leftOf used (first :: rest) = leftOf used rest :=
  List.filter_cons_of_neg (by simpa using h)

theorem leftOf_free {used : List UUID} {first : WaitingTicket} {rest : List WaitingTicket}
    (h : first.ticketId ∉ used) : leftOf used (first :: rest) = first :: leftOf used rest :=
  List.filter_cons_of_pos (by simpa using h)

/-- Without a pair, the others are left. -/
theorem leftOf_pair {used : List UUID} {first second : WaitingTicket}
    {rest l₁ l₂ : List WaitingTicket} (hleft : leftOf used rest = l₁ ++ second :: l₂)
    (hdistinct : ((first :: rest).map WaitingTicket.ticketId).Nodup) :
    leftOf (second.ticketId :: first.ticketId :: used) rest = l₁ ++ l₂ := by
  have hids : ((leftOf used rest).map WaitingTicket.ticketId).Nodup :=
    (List.nodup_cons.mp hdistinct).2.sublist (List.filter_sublist.map _)
  have hfirst : ∀ t ∈ leftOf used rest, t.ticketId ≠ first.ticketId := fun t ht heq =>
    (List.nodup_cons.mp hdistinct).1 (heq ▸ List.mem_map_of_mem (List.mem_of_mem_filter ht))
  have hagain : leftOf (second.ticketId :: first.ticketId :: used) rest
      = (leftOf used rest).filter fun t => t.ticketId ≠ second.ticketId := by
    unfold leftOf
    rw [List.filter_filter]
    refine List.filter_congr fun t ht => ?_
    by_cases hused : t.ticketId ∈ used
    · simp [hused]
    · have hne := hfirst t (List.mem_filter.mpr ⟨ht, by simpa using hused⟩)
      simp [hused, hne]
  rw [hleft, List.map_append, List.map_cons, List.nodup_middle, List.nodup_cons] at hids
  rw [hagain, hleft, List.filter_append, List.filter_cons_of_neg (by simp)]
  have hne : ∀ t ∈ l₁ ++ l₂, decide (t.ticketId ≠ second.ticketId) = true := fun t ht =>
    decide_eq_true fun heq => hids.1 (by rw [← heq, ← List.map_append]; exact List.mem_map_of_mem ht)
  rw [List.filter_eq_self.mpr fun t ht => hne t (List.mem_append_left _ ht),
    List.filter_eq_self.mpr fun t ht => hne t (List.mem_append_right _ ht)]

section Search

variable {τ : Time → Prop} {start : ℕ} (hclock : ∀ n, start ≤ n → τ (answer n .wallClock))

include hclock

/-- The inner loop finds the first one that is left and compatible. -/
theorem findSecond_picks (hw : start ≤ w.log.length) (first : WaitingTicket) (used : List UUID)
    (tickets : List WaitingTicket) : Client.Gives answer i l (findSecond settings first used tickets)
      (fun second w' _ => start ≤ w'.log.length ∧ match second with
        | none => ∀ t ∈ leftOf used tickets, ¬ CompatibleAt settings τ first t
        | some t => CompatibleOnce settings τ first t ∧ ∃ l₁ l₂, leftOf used tickets = l₁ ++ t :: l₂ ∧
            ∀ c ∈ l₁, ¬ CompatibleAt settings τ first c) w T := by
  induction tickets generalizing w T with
  | nil => exact .pure ⟨hw, fun _ ht => (List.not_mem_nil ht).elim⟩
  | cons second rest ih =>
    unfold findSecond
    split
    · next hused =>
      rw [leftOf_used hused]
      exact ih hw
    · next hfree =>
      rw [leftOf_free hfree]
      refine .bind ((ticketsCompatible_gives hclock hw first second).mono ?_)
      rintro compatible w₁ T₁ ⟨hw₁, hfound, hcompatible⟩
      cases compatible with
      | true => exact .pure ⟨hw₁, hfound rfl, [], leftOf used rest, rfl, fun _ hc => (List.not_mem_nil hc).elim⟩
      | false =>
        have hsecond : ¬ CompatibleAt settings τ first second := fun hc => by cases hcompatible hc
        refine (ih hw₁).mono fun found w₂ _ h => ⟨h.1, ?_⟩
        cases found with
        | none => exact List.forall_mem_cons.mpr ⟨hsecond, h.2⟩
        | some t =>
          obtain ⟨honce, l₁, l₂, hleft, hnone⟩ := h.2
          exact ⟨honce, second :: l₁, l₂, congrArg (second :: ·) hleft,
            List.forall_mem_cons.mpr ⟨hsecond, hnone⟩⟩

/-- The outer loop lets the tickets that are left choose in turn. -/
theorem findPairsFrom_picks (hw : start ≤ w.log.length) (tickets : List WaitingTicket) (used : List UUID)
    (hdistinct : (tickets.map WaitingTicket.ticketId).Nodup) :
    Client.Gives answer i l (findPairsFrom settings tickets used)
      (fun pairs w' _ => start ≤ w'.log.length ∧
        Picks (CompatibleOnce settings τ) (CompatibleAt settings τ) (leftOf used tickets) pairs) w T := by
  induction tickets generalizing used w T with
  | nil => exact .pure ⟨hw, .nil⟩
  | cons first rest ih =>
    have hrest := (List.nodup_cons.mp hdistinct).2
    unfold findPairsFrom
    split
    · next hused =>
      rw [leftOf_used hused]
      exact ih hw used hrest
    · next hfree =>
      rw [leftOf_free hfree]
      refine .bind ((findSecond_picks hclock hw first used rest).mono ?_)
      rintro (_ | second) w₁ T₁ ⟨hw₁, hsecond⟩
      · exact (ih hw₁ used hrest).mono fun pairs w₂ _ h => ⟨h.1, .skip hsecond h.2⟩
      · obtain ⟨honce, l₁, l₂, hleft, hnone⟩ := hsecond
        refine .bind ((ih hw₁ _ hrest).mono fun pairs w₂ _ h => .pure ⟨h.1, ?_⟩)
        rw [hleft]
        exact .pair honce hnone (leftOf_pair hleft hdistinct ▸ h.2)

end Search

/-! ## Main result -/

/-- What a clock shows from the `start`-th reading on. -/
def Shown (answer : ℕ → (c : Call) → Reply c) (start : ℕ) (t : Time) : Prop :=
  ∃ n, start ≤ n ∧ t = answer n .wallClock

/-- The search from the `start`-th entry of the log on is a stable pairing. -/
theorem findPairs_isStable (hsize : settings.matchSize = 2) (hwidening : settings.Widening) {start : ℕ}
    (hw : start ≤ w.log.length) (tickets : List WaitingTicket)
    (hdistinct : (tickets.map WaitingTicket.ticketId).Nodup)
    (hsteady : ∀ m n, start ≤ m → m ≤ n → (answer m .wallClock : Time) ≤ answer n .wallClock)
    {τ₀ : Time} (hτ₀ : τ₀ ≤ answer start .wallClock) :
    Client.Gives answer i l (findPairs tickets settings) (fun pairs _ _ =>
      IsStable (CompatibleOnce settings (Shown answer start)) (Compatible settings τ₀ τ₀) tickets pairs) w T := by
  unfold findPairs
  rw [if_neg (not_not.mpr hsize)]
  have hlist : leftOf [] tickets = tickets := List.filter_eq_self.mpr fun _ _ => by simp
  have hshown : ∀ n, start ≤ n → Shown answer start (answer n .wallClock) := fun n hn => ⟨n, hn, rfl⟩
  refine (findPairsFrom_picks hshown hw tickets [] hdistinct).mono fun pairs _ _ h => ?_
  refine ((hlist ▸ h.2).isStable hdistinct.of_map).mono (fun _ _ _ _ h => h) ?_
  -- a pair that was compatible at the start is so at every reading
  rintro a b hc _ _ ⟨m, hm, rfl⟩ ⟨n, hn, rfl⟩
  exact hc.later hwidening (Int.le_trans hτ₀ (hsteady _ m (Nat.le_refl _) hm))
    (Int.le_trans hτ₀ (hsteady _ n (Nat.le_refl _) hn))

/-- **`find_pairs` computes a stable pairing**, for tickets with distinct ids and a clock that does not go
back. Of two tickets that were compatible when the search started, one is paired with a ticket that
stands no further back than the other. If nobody's tolerance grows any more until the last reading,
there is no other stable pairing. -/
theorem find_pairs_stable (hsize : settings.matchSize = 2) (hwidening : settings.Widening)
    (tickets : List WaitingTicket) (hdistinct : (tickets.map WaitingTicket.ticketId).Nodup)
    (hsteady : ∀ m n, w.log.length ≤ m → m ≤ n →
      (answer m .wallClock : Time) ≤ answer n .wallClock)
    {τ₀ : Time} (hτ₀ : τ₀ ≤ answer w.log.length .wallClock) :
    Client.Gives answer i l (findPairs tickets settings) (fun pairs _ _ =>
      IsStable (CompatibleOnce settings (Shown answer w.log.length)) (Compatible settings τ₀ τ₀) tickets pairs ∧
      ∀ τ₁, (∀ t, Shown answer w.log.length t → t ≤ τ₁) →
        (∀ a ∈ tickets, ∀ b ∈ tickets, Compatible settings τ₁ τ₁ a b → Compatible settings τ₀ τ₀ a b) →
        ∀ pairs', IsStable (Compatible settings τ₀ τ₀) (Compatible settings τ₀ τ₀) tickets pairs' →
          pairs' = pairs) w T := by
  refine (findPairs_isStable hsize hwidening (Nat.le_refl _) tickets hdistinct hsteady hτ₀).mono
    fun pairs _ _ hstable => ⟨hstable, fun τ₁ hτ₁ hsame pairs' hpairs' => ?_⟩
  have hmay : ∀ a ∈ tickets, ∀ b ∈ tickets, CompatibleOnce settings (Shown answer w.log.length) a b →
      Compatible settings τ₀ τ₀ a b := by
    rintro a ha b hb ⟨t, t', ht, ht', hc⟩
    exact hsame a ha b hb (hc.later hwidening (hτ₁ t ht) (hτ₁ t' ht'))
  exact hpairs'.unique (hstable.mono hmay fun _ _ h => h) hdistinct.of_map

/-- The search through the four tickets gives their only stable pairing. -/
theorem find_pairs_stable_close : Client.Gives quietAnswer 0 (.shutdownWorker "w")
    (findPairs sampleTickets {}) (fun pairs _ _ =>
      ∀ pairs', IsStable (Compatible {} 0 0) (Compatible {} 0 0) sampleTickets pairs' → pairs' = pairs)
    (emptyState 0).world none := by
  refine (find_pairs_stable rfl ⟨by decide, by decide⟩ sampleTickets (by decide)
    (fun _ _ _ _ => Int.le_refl _) (Int.le_refl 0)).mono fun pairs _ _ h => h.2 0 ?_ fun _ _ _ _ hc => hc
  rintro _ ⟨n, -, rfl⟩
  exact Int.le_refl 0

end Matchmaking
