import Mathlib.Algebra.BigOperators.Group.Finset.Piecewise
import Mathlib.Algebra.Order.BigOperators.Group.Finset

/-!
# Filling up fair shares

Parties take from a common stock, in turns: each up to `batch` at a time, and no more than `cap` in all.
Where the caps cover the stock, it is used up after as many rounds as one party needs to fill its share,
in whatever order the parties have their turns within the rounds.
-/

namespace Filling

variable {ι : Type} [DecidableEq ι]

/-- A stock and who takes from it: the parties, how much there is in total, how much a party may hold, and how
much it may take in one turn. -/
structure Stock (ι : Type) where
  parties : Finset ι
  total : ℕ
  cap : ℕ
  batch : ℕ

namespace Stock

variable (S : Stock ι)

/-- No party has more than its share, and all together have no more than there is. -/
structure Within (r : ι → ℕ) : Prop where
  le_cap : ∀ v ∈ S.parties, r v ≤ S.cap
  sum_le : ∑ v ∈ S.parties, r v ≤ S.total

/-- Nothing is left, since the parties hold all of the stock. -/
def Full (r : ι → ℕ) : Prop := ∑ v ∈ S.parties, r v = S.total

/-- A party has its turn: it takes what is left, no more than a batch, and keeps no more than the cap. -/
def fill (r : ι → ℕ) (v : ι) : ι → ℕ :=
  Function.update r v (min S.cap (r v + min S.batch (S.total - ∑ u ∈ S.parties, r u)))

/-- Parties have their turns one after the other, each finding what those before it have left. -/
def fillAll (r : ι → ℕ) (turns : List ι) : ι → ℕ := turns.foldl S.fill r

variable {S} {r : ι → ℕ} {v u : ι} {turns : List ι}

theorem fill_self : S.fill r v v = min S.cap (r v + min S.batch (S.total - ∑ u ∈ S.parties, r u)) :=
  Function.update_self _ _ _

theorem fill_ne (h : u ≠ v) : S.fill r v u = r u := Function.update_of_ne h _ _

/-- What all have after a turn. -/
theorem sum_fill (hv : v ∈ S.parties) :
    ∑ u ∈ S.parties, S.fill r v u = S.fill r v v + ∑ u ∈ S.parties \ {v}, r u := by
  rw [fill, Finset.sum_update_of_mem hv, Function.update_self]

theorem sum_eq (hv : v ∈ S.parties) : ∑ u ∈ S.parties, r u = r v + ∑ u ∈ S.parties \ {v}, r u := by
  rw [Finset.sdiff_singleton_eq_erase, Finset.add_sum_erase _ _ hv]

namespace Within

theorem fill (h : S.Within r) (hv : v ∈ S.parties) : S.Within (S.fill r v) where
  le_cap u hu := by
    by_cases huv : u = v
    · subst huv
      rw [fill_self]
      exact min_le_left _ _
    · rw [fill_ne huv]
      exact h.le_cap u hu
  sum_le := by
    have hsum := h.sum_le
    rw [sum_fill hv, fill_self]
    rw [sum_eq hv] at hsum ⊢
    omega

/-- Nobody gives anything back. -/
theorem le_fill (h : S.Within r) (hv : v ∈ S.parties) (u : ι) : r u ≤ S.fill r v u := by
  by_cases huv : u = v
  · subst huv
    rw [fill_self]
    exact le_min (h.le_cap u hv) (Nat.le_add_right _ _)
  · rw [fill_ne huv]

/-- Once nothing is left, nothing changes. -/
theorem fill_full (h : S.Within r) (hv : v ∈ S.parties) (hfull : S.Full r) : S.fill r v = r := by
  rw [Stock.fill, hfull, Nat.sub_self, Nat.min_zero, Nat.add_zero, min_eq_right (h.le_cap v hv),
    Function.update_eq_self]

/-- A turn uses up the stock, or the party takes a batch, or all that its share leaves room for. -/
theorem fill_grows (h : S.Within r) (hv : v ∈ S.parties) :
    S.Full (S.fill r v) ∨ min S.cap (r v + S.batch) ≤ S.fill r v v := by
  have hsum := h.sum_le
  rw [Full, sum_fill hv, fill_self]
  rw [sum_eq hv] at hsum ⊢
  omega

end Within

theorem fillAll_nil : S.fillAll r [] = r := rfl

theorem fillAll_cons : S.fillAll r (v :: turns) = S.fillAll (S.fill r v) turns := rfl

theorem fillAll_append (turns' : List ι) :
    S.fillAll r (turns ++ turns') = S.fillAll (S.fillAll r turns) turns' := List.foldl_append

/-- What the parties have decides what they have afterwards. -/
theorem fill_congr {r' : ι → ℕ} (h : ∀ u ∈ S.parties, r u = r' u) (hv : v ∈ S.parties) :
    ∀ u ∈ S.parties, S.fill r v u = S.fill r' v u := by
  intro u hu
  by_cases huv : u = v
  · subst huv
    rw [fill_self, fill_self, h u hu, Finset.sum_congr rfl h]
  · rw [fill_ne huv, fill_ne huv, h u hu]

theorem fillAll_congr {r' : ι → ℕ} (h : ∀ u ∈ S.parties, r u = r' u)
    (hturns : ∀ v ∈ turns, v ∈ S.parties) : ∀ u ∈ S.parties, S.fillAll r turns u = S.fillAll r' turns u := by
  induction turns generalizing r r' with
  | nil => exact h
  | cons v turns ih =>
    exact ih (fill_congr h (hturns v List.mem_cons_self)) fun u hu => hturns u (List.mem_cons_of_mem _ hu)

namespace Within

theorem fillAll (h : S.Within r) (hturns : ∀ v ∈ turns, v ∈ S.parties) : S.Within (S.fillAll r turns) := by
  induction turns generalizing r with
  | nil => exact h
  | cons v turns ih =>
    exact ih (h.fill (hturns v List.mem_cons_self)) fun u hu => hturns u (List.mem_cons_of_mem _ hu)

theorem le_fillAll (h : S.Within r) (hturns : ∀ v ∈ turns, v ∈ S.parties) (u : ι) :
    r u ≤ S.fillAll r turns u := by
  induction turns generalizing r with
  | nil => exact Nat.le_refl _
  | cons v turns ih =>
    have hv := hturns v List.mem_cons_self
    exact (h.le_fill hv u).trans (ih (h.fill hv) fun u hu => hturns u (List.mem_cons_of_mem _ hu))

theorem fillAll_full (h : S.Within r) (hturns : ∀ v ∈ turns, v ∈ S.parties) (hfull : S.Full r) :
    S.fillAll r turns = r := by
  induction turns with
  | nil => rfl
  | cons v turns ih =>
    rw [fillAll_cons, h.fill_full (hturns v List.mem_cons_self) hfull]
    exact ih fun u hu => hturns u (List.mem_cons_of_mem _ hu)

/-- Turns of which one is the party's use up the stock, or the party takes a batch, or all that its share
leaves room for. -/
theorem fillAll_grows (h : S.Within r) (hturns : ∀ v ∈ turns, v ∈ S.parties) (hu : u ∈ turns) :
    S.Full (S.fillAll r turns) ∨ min S.cap (r u + S.batch) ≤ S.fillAll r turns u := by
  induction turns generalizing r with
  | nil => exact (List.not_mem_nil hu).elim
  | cons v turns ih =>
    have hv := hturns v List.mem_cons_self
    have hrest : ∀ u ∈ turns, u ∈ S.parties := fun u hu => hturns u (List.mem_cons_of_mem _ hu)
    rw [fillAll_cons]
    obtain rfl | hu := List.mem_cons.mp hu
    · obtain hfull | hgrows := h.fill_grows hv
      · left
        rwa [(h.fill hv).fillAll_full hrest hfull]
      · exact .inr (hgrows.trans ((h.fill hv).le_fillAll hrest u))
    · refine (ih (h.fill hv) hrest hu).imp_right fun hgrows => Nat.le_trans ?_ hgrows
      have hle := h.le_fill hv u
      omega

/-- After `k` rounds the stock is used up, or every party has taken `k` batches, or filled its share. -/
theorem rounds_grow {rounds : List (List ι)} (h : S.Within r)
    (hturns : ∀ round ∈ rounds, ∀ v ∈ round, v ∈ S.parties)
    (hall : ∀ round ∈ rounds, ∀ v ∈ S.parties, v ∈ round) : S.Full (S.fillAll r rounds.flatten) ∨
      ∀ v ∈ S.parties, min S.cap (r v + rounds.length * S.batch) ≤ S.fillAll r rounds.flatten v := by
  induction rounds generalizing r with
  | nil => exact .inr fun v _ => by simp [fillAll_nil]
  | cons round rounds ih =>
    have hround := hturns round List.mem_cons_self
    have hrest : ∀ turns ∈ rounds, ∀ v ∈ turns, v ∈ S.parties := fun turns ht =>
      hturns turns (List.mem_cons_of_mem _ ht)
    have hflatten : ∀ v ∈ rounds.flatten, v ∈ S.parties := fun v hv => by
      obtain ⟨turns, ht, hv⟩ := List.mem_flatten.mp hv
      exact hrest turns ht v hv
    have hwithin := h.fillAll hround
    rw [List.flatten_cons, fillAll_append]
    by_cases hfull : S.Full (S.fillAll r round)
    · left
      rwa [hwithin.fillAll_full hflatten hfull]
    · refine (ih hwithin hrest fun turns ht => hall turns (List.mem_cons_of_mem _ ht)).imp_right
        fun hgrow v hv => Nat.le_trans ?_ (hgrow v hv)
      have hone := (h.fillAll_grows hround (hall round List.mem_cons_self v hv)).resolve_left hfull
      rw [List.length_cons, Nat.succ_mul]
      omega

/-- Where the shares cover the stock, rounds enough to fill a share use it up. -/
theorem full_of_rounds {rounds : List (List ι)} (h : S.Within r)
    (hturns : ∀ round ∈ rounds, ∀ v ∈ round, v ∈ S.parties)
    (hall : ∀ round ∈ rounds, ∀ v ∈ S.parties, v ∈ round) (hcover : S.total ≤ S.parties.card * S.cap)
    (hrounds : S.cap ≤ rounds.length * S.batch) : S.Full (S.fillAll r rounds.flatten) := by
  obtain hfull | hgrow := h.rounds_grow hturns hall
  · exact hfull
  · have hflatten : ∀ v ∈ rounds.flatten, v ∈ S.parties := fun v hv => by
      obtain ⟨turns, ht, hv⟩ := List.mem_flatten.mp hv
      exact hturns turns ht v hv
    have hwithin := h.fillAll hflatten
    have hcap : ∑ _v ∈ S.parties, S.cap ≤ ∑ v ∈ S.parties, S.fillAll r rounds.flatten v :=
      Finset.sum_le_sum fun v hv => Nat.le_trans (by omega) (hgrow v hv)
    rw [Finset.sum_const_nat fun _ _ => rfl] at hcap
    exact Nat.le_antisymm hwithin.sum_le (hcover.trans hcap)

end Within

end Stock

end Filling
