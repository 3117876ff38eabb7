import Matchmaking.Refinement
import Matchmaking.ReadCommitted.Alone
import Mathlib.Order.MinMax

/-!
# The search for pairs

`find_pairs` goes through the tickets once, with a set of used tickets, and reads the clock for every
comparison. Whatever it reads, the pairs it finds are apart and in the order of the list; where the
clock does not go back, no two tickets that it leaves were compatible when it started.
-/

namespace Matchmaking

open ReadCommitted

variable {settings : Settings} {i : ℕ} {l : Actor} {w : ServiceWorld} {T : Option (Txn Row)}
  {answer : ℕ → (c : Call) → Reply c}

/-! ## Compatible tickets -/

/-- `tickets_compatible`, where the two waiting times are read at `t` and `t'`. -/
def Compatible (settings : Settings) (t t' : Time) (left right : WaitingTicket) : Prop :=
  left.tenantId = right.tenantId ∧ left.region = right.region ∧ left.queueName = right.queueName ∧
    (left.skill - right.skill).natAbs ≤ max (skillDelta (max 0 (t - left.createdAt)) settings)
      (skillDelta (max 0 (t' - right.createdAt)) settings)

instance (settings : Settings) (t t' : Time) (left right : WaitingTicket) :
    Decidable (Compatible settings t t' left right) := inferInstanceAs (Decidable (_ ∧ _))

/-- The tickets are compatible whenever the clock is read. -/
def CompatibleAt (settings : Settings) (τ : Time → Prop) (left right : WaitingTicket) : Prop :=
  ∀ t t', τ t → τ t' → Compatible settings t t' left right

theorem CompatibleAt.symm {τ : Time → Prop} {left right : WaitingTicket}
    (h : CompatibleAt settings τ left right) : CompatibleAt settings τ right left := by
  intro t t' ht ht'
  obtain ⟨htenant, hregion, hqueue, hskill⟩ := h t' t ht' ht
  refine ⟨htenant.symm, hregion.symm, hqueue.symm, ?_⟩
  rw [← Int.natAbs_neg, Int.neg_sub, max_comm]
  exact hskill

/-- Players who wait longer accept larger differences. -/
structure Settings.Widening (settings : Settings) : Prop where
  after30s : settings.skillDeltaInitial ≤ settings.skillDeltaAfter30s
  after60s : settings.skillDeltaAfter30s ≤ settings.skillDeltaAfter60s

/-- The tolerance never shrinks. -/
theorem skillDelta_mono (h : settings.Widening) {t t' : Time} (ht : t ≤ t') :
    skillDelta t settings ≤ skillDelta t' settings := by
  obtain ⟨h30, h60⟩ := h
  have horder : seconds 30 ≤ seconds 60 := by decide
  unfold skillDelta
  split
  · next h => rw [if_pos (Int.le_trans h ht)]
  split
  · next h =>
    split
    · exact h60
    · rw [if_pos (Int.le_trans h ht)]
  · split
    · exact Int.le_trans h30 h60
    · split
      · exact h30
      · exact Int.le_refl _

/-- Compatible tickets stay compatible. -/
theorem Compatible.later (h : settings.Widening) {t t' u u' : Time} {left right : WaitingTicket}
    (hc : Compatible settings t t' left right) (ht : t ≤ u) (ht' : t' ≤ u') :
    Compatible settings u u' left right := by
  obtain ⟨htenant, hregion, hqueue, hskill⟩ := hc
  have hwait : ∀ {t u : Time} (createdAt : Time), t ≤ u → max 0 (t - createdAt) ≤ max 0 (u - createdAt) :=
    fun createdAt h => max_le_max (Int.le_refl 0) (Int.sub_le_sub_right h createdAt)
  refine ⟨htenant, hregion, hqueue, Int.le_trans hskill (max_le_max ?_ ?_)⟩
  · exact skillDelta_mono h (hwait _ ht)
  · exact skillDelta_mono h (hwait _ ht')

/-! ## Pairings -/

/-- The tickets of the pairs. -/
def pairedIds (pairs : List (WaitingTicket × WaitingTicket)) : List UUID :=
  pairs.flatMap fun p => [p.1.ticketId, p.2.ticketId]

/-- The pairs found among `tickets` where the tickets `used` are taken, and the clock shows times `τ`. -/
structure Pairing (settings : Settings) (τ : Time → Prop) (used : List UUID)
    (tickets : List WaitingTicket) (pairs : List (WaitingTicket × WaitingTicket)) : Prop where
  unused : ∀ id ∈ pairedIds pairs, id ∉ used
  nodup : (tickets.map WaitingTicket.ticketId).Nodup → (pairedIds pairs).Nodup
  inOrder : ∀ p ∈ pairs, [p.1, p.2].Sublist tickets
  firsts : (pairs.map Prod.fst).Sublist tickets
  compatible : ∀ p ∈ pairs, ∃ t t', τ t ∧ τ t' ∧ Compatible settings t t' p.1 p.2
  maximal : tickets.Pairwise fun a b => a.ticketId ∉ used → b.ticketId ∉ used →
    a.ticketId ∉ pairedIds pairs → b.ticketId ∉ pairedIds pairs → ¬ CompatibleAt settings τ a b

namespace Pairing

variable {τ : Time → Prop} {used : List UUID} {first second : WaitingTicket}
  {rest : List WaitingTicket} {pairs : List (WaitingTicket × WaitingTicket)}

theorem nil : Pairing settings τ used [] [] where
  unused _ hid := (List.not_mem_nil hid).elim
  nodup _ := .nil
  inOrder _ hp := (List.not_mem_nil hp).elim
  firsts := .slnil
  compatible _ hp := (List.not_mem_nil hp).elim
  maximal := .nil

/-- A ticket is passed over. -/
theorem skip (h : Pairing settings τ used rest pairs)
    (hfirst : first.ticketId ∉ used → ∀ t ∈ rest, t.ticketId ∉ used →
      ¬ CompatibleAt settings τ first t) : Pairing settings τ used (first :: rest) pairs where
  unused := h.unused
  nodup hnodup := h.nodup (List.nodup_cons.mp hnodup).2
  inOrder p hp := .cons _ (h.inOrder p hp)
  firsts := .cons _ h.firsts
  compatible := h.compatible
  maximal := List.pairwise_cons.mpr
    ⟨fun t ht hused hused' _ _ => hfirst hused t ht hused', h.maximal⟩

/-- A ticket is paired with one of the rest. -/
theorem pair (h : Pairing settings τ (second.ticketId :: first.ticketId :: used) rest pairs)
    (hfirst : first.ticketId ∉ used) (hsecond : second ∈ rest) (hused : second.ticketId ∉ used)
    (hcompatible : ∃ t t', τ t ∧ τ t' ∧ Compatible settings t t' first second) :
    Pairing settings τ used (first :: rest) ((first, second) :: pairs) where
  unused id hid := by
    rcases List.mem_append.mp hid with hid | hid
    · rcases List.mem_pair.mp hid with rfl | rfl
      · exact hfirst
      · exact hused
    · exact fun h' => h.unused id hid (List.mem_cons_of_mem _ (List.mem_cons_of_mem _ h'))
  nodup hnodup := by
    obtain ⟨hnew, hnodup⟩ := List.nodup_cons.mp hnodup
    refine List.nodup_append.mpr ⟨?_, h.nodup hnodup, ?_⟩
    · rw [List.nodup_cons, List.mem_singleton]
      refine ⟨fun heq => hnew ?_, List.nodup_singleton _⟩
      rw [heq]
      exact List.mem_map_of_mem hsecond
    · rintro id hid _ hid' rfl
      rcases List.mem_pair.mp hid with rfl | rfl
      · exact h.unused _ hid' (List.mem_cons_of_mem _ List.mem_cons_self)
      · exact h.unused _ hid' List.mem_cons_self
  inOrder p hp := by
    rcases List.mem_cons.mp hp with rfl | hp
    · exact .cons_cons _ (List.singleton_sublist.mpr hsecond)
    · exact .cons _ (h.inOrder p hp)
  firsts := .cons_cons _ h.firsts
  compatible p hp := by
    rcases List.mem_cons.mp hp with rfl | hp
    · exact hcompatible
    · exact h.compatible p hp
  maximal := by
    -- a ticket that is left over by all pairs is left over by the later ones, which have not used it
    have hkeep : ∀ a : WaitingTicket, a.ticketId ∉ used →
        a.ticketId ∉ pairedIds ((first, second) :: pairs) →
        a.ticketId ∉ second.ticketId :: first.ticketId :: used ∧ a.ticketId ∉ pairedIds pairs := by
      intro a hfree hunpaired
      simp only [pairedIds, List.flatMap_cons, List.mem_append, List.mem_cons, not_or] at hunpaired ⊢
      exact ⟨⟨hunpaired.1.2.1, hunpaired.1.1, hfree⟩, hunpaired.2⟩
    refine List.pairwise_cons.mpr ⟨fun t _ _ _ hunpaired _ => ?_, h.maximal.imp ?_⟩
    · exact absurd List.mem_cons_self hunpaired
    · intro a b hne hfree hfree' hunpaired hunpaired'
      obtain ⟨ha, ha'⟩ := hkeep a hfree hunpaired
      obtain ⟨hb, hb'⟩ := hkeep b hfree' hunpaired'
      exact hne ha hb ha' hb'

end Pairing

/-! ## Searching -/

section Search

variable {τ : Time → Prop} {start : ℕ} (hclock : ∀ n, start ≤ n → τ (answer n .wallClock))

include hclock

theorem ticketsCompatible_gives (hw : start ≤ w.log.length) (left right : WaitingTicket) :
    Client.Gives answer i l (ticketsCompatible left right settings)
      (fun compatible w' _ => start ≤ w'.log.length ∧
        (compatible = true → ∃ t t', τ t ∧ τ t' ∧ Compatible settings t t' left right) ∧
        (CompatibleAt settings τ left right → compatible = true)) w T := by
  unfold ticketsCompatible
  split
  · next hdiffer =>
    refine .pure ⟨hw, fun h => (by cases h), fun hc => ?_⟩
    obtain ⟨htenant, hregion, hqueue, -⟩ := hc _ _ (hclock start (le_refl _)) (hclock start (le_refl _))
    simp [htenant, hregion, hqueue] at hdiffer
  · next hsame =>
    simp only [not_or, not_not] at hsame
    have hw' : start ≤ w.log.length + 1 := Nat.le_succ_of_le hw
    refine .bind (.bind (.call_now (.pure (.bind (.bind (.call_now (.pure (.pure ?_))))))))
    refine ⟨Nat.le_succ_of_le hw', fun h => ⟨_, _, hclock _ hw, hclock _ hw', ?_⟩, fun hc => ?_⟩
    · exact ⟨hsame.1, hsame.2.1, hsame.2.2, of_decide_eq_true h⟩
    · exact decide_eq_true (hc _ _ (hclock _ hw) (hclock _ hw')).2.2.2

/-- The inner loop finds an unused compatible ticket, if there is one. -/
theorem findSecond_gives (hw : start ≤ w.log.length) (first : WaitingTicket) (used : List UUID)
    (tickets : List WaitingTicket) : Client.Gives answer i l (findSecond settings first used tickets)
      (fun second w' _ => start ≤ w'.log.length ∧
        (second = none → ∀ t ∈ tickets, t.ticketId ∉ used → ¬ CompatibleAt settings τ first t) ∧
        ∀ t, second = some t → t ∈ tickets ∧ t.ticketId ∉ used ∧
          ∃ u u', τ u ∧ τ u' ∧ Compatible settings u u' first t) w T := by
  induction tickets generalizing w T with
  | nil => exact .pure ⟨hw, fun _ _ ht => (List.not_mem_nil ht).elim, fun _ ht => by cases ht⟩
  | cons second rest ih =>
    have hrest : ∀ {w : ServiceWorld} {T : Option (Txn Row)}, start ≤ w.log.length →
        (second.ticketId ∉ used → ¬ CompatibleAt settings τ first second) →
        Client.Gives answer i l (findSecond settings first used rest)
          (fun found w' _ => start ≤ w'.log.length ∧
            (found = none → ∀ t ∈ second :: rest, t.ticketId ∉ used →
              ¬ CompatibleAt settings τ first t) ∧
            ∀ t, found = some t → t ∈ second :: rest ∧ t.ticketId ∉ used ∧
              ∃ u u', τ u ∧ τ u' ∧ Compatible settings u u' first t) w T := by
      intro w T hw hsecond
      refine (ih hw).mono fun found w' _ h => ⟨h.1, fun hnone => ?_, fun t ht => ?_⟩
      · exact List.forall_mem_cons.mpr ⟨hsecond, h.2.1 hnone⟩
      · exact ⟨List.mem_cons_of_mem _ (h.2.2 t ht).1, (h.2.2 t ht).2⟩
    unfold findSecond
    split
    · next hused => exact hrest hw fun hfree => absurd hused hfree
    · next hfree =>
      refine .bind ((ticketsCompatible_gives hclock hw first second).mono ?_)
      rintro compatible w₁ T₁ ⟨hw₁, hfound, hcompatible⟩
      cases compatible with
      | true =>
        refine .pure ⟨hw₁, fun h => (by cases h), fun t ht => ?_⟩
        obtain rfl := Option.some.inj ht
        exact ⟨List.mem_cons_self, hfree, hfound rfl⟩
      | false => exact hrest hw₁ fun _ hc => by cases hcompatible hc

/-- The outer loop. -/
theorem findPairsFrom_gives (hw : start ≤ w.log.length) (tickets : List WaitingTicket)
    (used : List UUID) : Client.Gives answer i l (findPairsFrom settings tickets used)
      (fun pairs w' _ => start ≤ w'.log.length ∧ Pairing settings τ used tickets pairs) w T := by
  induction tickets generalizing used w T with
  | nil => exact .pure ⟨hw, .nil⟩
  | cons first rest ih =>
    unfold findPairsFrom
    split
    · next hused =>
      exact (ih hw used).mono fun pairs w' _ h => ⟨h.1, h.2.skip fun hfree => absurd hused hfree⟩
    · next hfree =>
      refine .bind ((findSecond_gives hclock hw first used rest).mono ?_)
      rintro (_ | second) w₁ T₁ ⟨hw₁, hnone, hsome⟩
      · exact (ih hw₁ used).mono fun pairs w' _ h => ⟨h.1, h.2.skip fun _ => hnone rfl⟩
      · obtain ⟨hmem, hunused, hcompatible⟩ := hsome second rfl
        refine .bind ((ih hw₁ _).mono fun pairs w' _ h => .pure ⟨h.1, ?_⟩)
        exact h.2.pair hfree hmem hunused hcompatible

end Search

/-! ## Main result -/

/-- What the search promises, where `start` is the length of the log when it starts. -/
structure ValidPairing (settings : Settings) (answer : ℕ → (c : Call) → Reply c) (start : ℕ)
    (tickets : List WaitingTicket) (pairs : List (WaitingTicket × WaitingTicket)) : Prop where
  /-- No ticket occurs twice. -/
  apart : (pairedIds pairs).Nodup
  /-- A pair is two tickets of the list, the first standing earlier. -/
  inOrder : ∀ p ∈ pairs, [p.1, p.2].Sublist tickets
  /-- The pairs are in the order of their first tickets. -/
  firsts : (pairs.map Prod.fst).Sublist tickets
  /-- They were compatible when they were compared. -/
  compatible : ∀ p ∈ pairs, ∃ m n, start ≤ m ∧ start ≤ n ∧
    Compatible settings (answer m .wallClock) (answer n .wallClock) p.1 p.2
  /-- No two tickets that are left were compatible when the search started. -/
  maximal : ∀ τ₀ : Time, τ₀ ≤ answer start .wallClock →
    (tickets.filter fun t => t.ticketId ∉ pairedIds pairs).Pairwise fun a b =>
      ¬ Compatible settings τ₀ τ₀ a b

/-- **`find_pairs` computes a valid maximal pairing**, for tickets with distinct ids and a clock that does
not go back during the search. Its pairs share no ticket, come in the order of the list and were compatible
when they were tested; no two of the tickets that are left over were compatible when the search began. -/
theorem find_pairs_valid (hsize : settings.matchSize = 2) (hwidening : settings.Widening)
    (tickets : List WaitingTicket) (hdistinct : (tickets.map WaitingTicket.ticketId).Nodup)
    (hsteady : ∀ m n, w.log.length ≤ m → m ≤ n →
      (answer m .wallClock : Time) ≤ answer n .wallClock) :
    Client.Gives answer i l (findPairs tickets settings)
      (fun pairs _ _ => ValidPairing settings answer w.log.length tickets pairs) w T := by
  unfold findPairs
  rw [if_neg (not_not.mpr hsize)]
  let τ : Time → Prop := fun t => ∃ n, w.log.length ≤ n ∧ t = answer n .wallClock
  have hsearch : Client.Gives answer i l (findPairsFrom settings tickets [])
      (fun pairs w' _ => w.log.length ≤ w'.log.length ∧ Pairing settings τ [] tickets pairs) w T :=
    findPairsFrom_gives (fun n hn => ⟨n, hn, rfl⟩) (le_refl w.log.length) tickets []
  refine hsearch.mono fun pairs _ _ h => ⟨h.2.nodup hdistinct, h.2.inOrder, h.2.firsts, ?_, ?_⟩
  · intro p hp
    obtain ⟨_, _, ⟨m, hm, rfl⟩, ⟨n, hn, rfl⟩, hc⟩ := h.2.compatible p hp
    exact ⟨m, n, hm, hn, hc⟩
  · intro τ₀ hτ₀
    rw [List.pairwise_filter]
    refine h.2.maximal.imp fun {a b} hne ha hb hc => ?_
    refine hne List.not_mem_nil List.not_mem_nil (of_decide_eq_true ha) (of_decide_eq_true hb) ?_
    -- a pair that was compatible at the start is so at every reading
    rintro t t' ⟨m, hm, rfl⟩ ⟨n, hn, rfl⟩
    exact hc.later hwidening (Int.le_trans hτ₀ (hsteady _ m (le_refl _) hm))
      (Int.le_trans hτ₀ (hsteady _ n (le_refl _) hn))

/-- Four players who wait in one queue; the first and the third are close to each other. -/
def sampleTickets : List WaitingTicket :=
  let ticket (id : UUID) (skill : ℤ) : WaitingTicket :=
    { ticketId := id, tenantId := "studio_a", playerId := "p", region := "eu", queueName := "ranked"
      skill := skill, partitionId := 0, createdAt := 0 }
  [ticket 1 1500, ticket 2 2500, ticket 3 1520, ticket 4 500]

/-- The search through four tickets of one queue, two of them close in skill, gives a valid pairing. -/
theorem find_pairs_valid_close : Client.Gives quietAnswer 0 (.shutdownWorker "w")
    (findPairs sampleTickets {}) (fun pairs _ _ => ValidPairing {} quietAnswer 0 sampleTickets pairs)
    (emptyState 0).world none :=
  find_pairs_valid rfl ⟨by decide, by decide⟩ sampleTickets (by decide) fun _ _ _ _ => Int.le_refl _

end Matchmaking
