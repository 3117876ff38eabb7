import Matchmaking.SortedPrefix
import Mathlib.Algebra.BigOperators.Group.Finset.Piecewise

/-!
# Fair shares

Rows belong to groups and have the ranks 1, 2, … within their group. Taking the first `n` rows in the
order of their ranks shares the `n` places fairly: a group that gets less than it has gets at most one
place less than any other.
-/

namespace FairShare

variable {α G : Type} [DecidableEq G] {group : α → G} {rank : α → ℕ} {size : G → ℕ} {rows : List α}
  {g g' : G} {n m : ℕ} {a : α}

/-- The ranks of a group, in the order of the rows: the numbers that the group's members have among
themselves. -/
def ranks (group : α → G) (rank : α → ℕ) (g : G) (rows : List α) : List ℕ :=
  (rows.filter fun a => group a = g).map rank

/-- Each group `g` has the ranks from 1 to `size g`. -/
def Ranked (group : α → G) (rank : α → ℕ) (size : G → ℕ) (rows : List α) : Prop :=
  ∀ g, (ranks group rank g rows).Perm (List.range' 1 (size g))

/-- How many of the first `n` rows are of a group. -/
def share (group : α → G) (g : G) (rows : List α) (n : ℕ) : ℕ := (rows.take n).countP fun a => group a = g

theorem mem_ranks {k : ℕ} : k ∈ ranks group rank g rows ↔ ∃ a ∈ rows, group a = g ∧ rank a = k := by
  simp only [ranks, List.mem_map, List.mem_filter, decide_eq_true_eq, and_assoc]

theorem length_ranks : (ranks group rank g rows).length = rows.countP fun a => group a = g := by
  rw [ranks, List.length_map, List.countP_eq_length_filter]

namespace Ranked

variable (h : Ranked group rank size rows)

include h

theorem rank_mem (ha : a ∈ rows) : 1 ≤ rank a ∧ rank a ≤ size (group a) := by
  have hmem := (h (group a)).mem_iff.mp (mem_ranks.mpr ⟨a, ha, rfl, rfl⟩)
  rw [List.mem_range'_1] at hmem
  omega

theorem exists_rank {k : ℕ} (hk : 1 ≤ k) (hsize : k ≤ size g) : ∃ a ∈ rows, group a = g ∧ rank a = k :=
  mem_ranks.mp ((h g).mem_iff.mpr (List.mem_range'_1.mpr (by omega)))

/-- Two rows of a group have different ranks. -/
theorem rank_inj {b : α} (ha : a ∈ rows) (hb : b ∈ rows) (hgroup : group a = group b)
    (hrank : rank a = rank b) : a = b := by
  have hnodup : (ranks group rank (group b) rows).Nodup := (h (group b)).nodup_iff.mpr List.nodup_range'
  exact List.inj_on_of_nodup_map hnodup (List.mem_filter.mpr ⟨ha, by simpa using hgroup⟩)
    (List.mem_filter.mpr ⟨hb, by simp⟩) hrank

theorem nodup_take (n : ℕ) (g : G) : (ranks group rank g (rows.take n)).Nodup :=
  ((h g).nodup_iff.mpr List.nodup_range').sublist (((List.take_sublist n rows).filter _).map rank)

/-- No group gets more than it has. -/
theorem share_le_size (n : ℕ) (g : G) : share group g rows n ≤ size g := by
  have hlength : (ranks group rank g rows).length = size g := by
    rw [(h g).length_eq, List.length_range']
  rw [← hlength, length_ranks]
  exact (List.take_sublist n rows).countP_le

/-- A group none of whose first rows has a rank above `m` gets `m` places at most. -/
theorem share_le (hm : ∀ a ∈ rows.take n, group a = g → rank a ≤ m) : share group g rows n ≤ m := by
  have hsub : ranks group rank g (rows.take n) ⊆ List.range' 1 m := by
    intro k hk
    obtain ⟨a, ha, hgroup, rfl⟩ := mem_ranks.mp hk
    have hle := hm a ha hgroup
    have hpos := (h.rank_mem (List.mem_of_mem_take ha)).1
    exact List.mem_range'_1.mpr (by omega)
  have hle := (List.subperm_of_subset (h.nodup_take n g) hsub).length_le
  rwa [length_ranks, List.length_range'] at hle

/-- A group whose rows up to rank `m` are among the first gets `m` places at least. -/
theorem le_share (hsize : m ≤ size g)
    (hm : ∀ a ∈ rows, group a = g → rank a ≤ m → a ∈ rows.take n) : m ≤ share group g rows n := by
  have hsub : List.range' 1 m ⊆ ranks group rank g (rows.take n) := by
    intro k hk
    rw [List.mem_range'_1] at hk
    obtain ⟨a, ha, hgroup, rfl⟩ := h.exists_rank hk.1 (by omega : k ≤ size g)
    exact mem_ranks.mpr ⟨a, hm a ha hgroup (by omega), hgroup, rfl⟩
  have hle := (List.subperm_of_subset List.nodup_range' hsub).length_le
  rwa [length_ranks, List.length_range'] at hle

variable (hsorted : rows.Pairwise fun a b => rank a ≤ rank b)

include hsorted

/-- A group gets its rows of the lowest ranks. -/
theorem mem_take_iff (ha : a ∈ rows) : a ∈ rows.take n ↔ rank a ≤ share group (group a) rows n := by
  constructor
  · intro htake
    refine h.le_share (h.rank_mem ha).2 fun b hb hgroup hrank => ?_
    by_contra hb'
    have hle := SortedPrefix.rel_of_mem_take hsorted htake hb hb'
    exact hb' (h.rank_inj hb ha hgroup (Nat.le_antisymm hrank hle) ▸ htake)
  · intro hrank
    by_contra htake
    have hpos := (h.rank_mem ha).1
    have hshare : share group (group a) rows n ≤ rank a - 1 := by
      refine h.share_le fun b hb hgroup => ?_
      have hle := SortedPrefix.rel_of_mem_take hsorted hb ha htake
      have hne : rank b ≠ rank a := fun heq =>
        htake (h.rank_inj (List.mem_of_mem_take hb) ha hgroup heq ▸ hb)
      omega
    omega

/-- **Fairness.** A group that gets less than it has gets at most one place less than any other. -/
theorem fair (hless : share group g rows n < size g) :
    share group g' rows n ≤ share group g rows n + 1 := by
  -- the first row of `g` that is left out comes after all that are taken
  obtain ⟨a, ha, hgroup, hrank⟩ := h.exists_rank (Nat.le_add_left 1 (share group g rows n)) hless
  have htake : a ∉ rows.take n := fun hmem => by
    have hle := (h.mem_take_iff hsorted ha).mp hmem
    rw [hgroup] at hle
    omega
  refine h.share_le fun b hb _ => ?_
  rw [← hrank]
  exact SortedPrefix.rel_of_mem_take (r := fun a b => rank a ≤ rank b) hsorted hb ha htake

end Ranked

/-- All rows together. -/
theorem Ranked.length_eq_sum (h : Ranked group rank size rows) (groups : Finset G)
    (hgroups : ∀ a ∈ rows, group a ∈ groups) : rows.length = ∑ g ∈ groups, size g := by
  have hsize : ∀ g, size g = rows.countP fun a => group a = g := fun g => by
    have hlength := (h g).length_eq
    rw [length_ranks, List.length_range'] at hlength
    exact hlength.symm
  rw [Finset.sum_congr rfl fun g _ => hsize g]
  clear h hsize
  induction rows with
  | nil => simp
  | cons a rows ih =>
    have hone : (∑ g ∈ groups, if group a = g then 1 else 0) = 1 := by
      rw [Finset.sum_ite_eq, if_pos (hgroups a List.mem_cons_self)]
    simp only [List.countP_cons, decide_eq_true_eq]
    rw [Finset.sum_add_distrib, hone, List.length_cons, ih fun b hb => hgroups b (List.mem_cons_of_mem _ hb)]

end FairShare
