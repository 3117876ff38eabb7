import Matchmaking.ReadCommitted.Marks
import Mathlib.Algebra.BigOperators.Group.Finset.Piecewise
import Mathlib.Algebra.Order.BigOperators.Group.Finset

/-!
# Sums over a log

What the entries of a log add to a quantity can be summed up session by session, and what the commits
add to a count of rows is the count of the store that they lead to.
-/

namespace ReadCommitted

variable {K X : Type} {V : K → Type} {Y : X → Type} {E M R L μ α : Type}

/-- The sum of `x` over a list, with amounts that may be negative. -/
def tally (x : α → ℤ) (as : List α) : ℤ := as.foldr (fun a n => x a + n) 0

theorem tally_cons (x : α → ℤ) (a : α) (as : List α) : tally x (a :: as) = x a + tally x as := rfl

theorem tally_sub (x y : α → ℤ) (as : List α) :
    tally (fun a => x a - y a) as = tally x as - tally y as := by
  induction as with
  | nil => rfl
  | cons a as ih =>
    rw [tally_cons, tally_cons, tally_cons, ih]
    omega

/-- Items with amounts that are not negative add up to one. -/
theorem tally_nonneg {x : α → ℤ} {as : List α} (h : ∀ a ∈ as, 0 ≤ x a) : 0 ≤ tally x as := by
  induction as with
  | nil => exact le_refl 0
  | cons a as ih =>
    rw [tally_cons]
    exact add_nonneg (h a List.mem_cons_self) (ih fun b hb => h b (List.mem_cons_of_mem _ hb))

/-- A sum of terms that are not negative vanishes if and only if they do. -/
theorem tally_eq_zero_iff {x : α → ℤ} {as : List α} (h : ∀ a ∈ as, 0 ≤ x a) :
    tally x as = 0 ↔ ∀ a ∈ as, x a = 0 := by
  induction as with
  | nil => exact ⟨fun _ a ha => absurd ha List.not_mem_nil, fun _ => rfl⟩
  | cons a as ih =>
    have htail : ∀ b ∈ as, 0 ≤ x b := fun b hb => h b (List.mem_cons_of_mem _ hb)
    rw [tally_cons, add_eq_zero_iff_of_nonneg (h a List.mem_cons_self) (tally_nonneg htail), ih htail,
      List.forall_mem_cons]

/-- A sum over the log is one over the sessions. -/
theorem tally_eq_sum_marks {mark : Entry V Y E M R L → Option μ} {x : Entry V Y E M R L → ℤ} {y : μ → ℤ}
    (hx : ∀ e, x e = (mark e).elim 0 y) {n : ℕ} {log : List (Entry V Y E M R L)}
    (hn : ∀ e ∈ log, e.session < n) :
    tally x log = ∑ j ∈ Finset.range n, tally y (marks mark j log) := by
  induction log with
  | nil => exact (Finset.sum_eq_zero fun _ _ => rfl).symm
  | cons e log ih =>
    -- the entry adds to the marks of its own session only
    have hcons : ∀ j, tally y (marks mark j (e :: log))
        = (if e.session = j then x e else 0) + tally y (marks mark j log) := by
      intro j
      by_cases hj : e.session = j
      · rw [if_pos hj, hx e]
        cases hmark : mark e with
        | none => rw [marks_cons_none hmark, Option.elim_none, zero_add]
        | some m => rw [marks_cons_some hj hmark, tally_cons, Option.elim_some]
      · rw [if_neg hj, marks_cons_other hj, zero_add]
    rw [tally_cons, ih fun e' he' => hn e' (List.mem_cons_of_mem _ he'), Finset.sum_congr rfl
      fun j _ => hcons j, Finset.sum_add_distrib, Finset.sum_ite_eq,
      if_pos (Finset.mem_range.mpr (hn e List.mem_cons_self))]

theorem exists_session_lt (log : List (Entry V Y E M R L)) : ∃ n, ∀ e ∈ log, e.session < n := by
  induction log with
  | nil => exact ⟨0, fun _ he => absurd he List.not_mem_nil⟩
  | cons e log ih =>
    obtain ⟨n, hn⟩ := ih
    refine ⟨max n (e.session + 1), List.forall_mem_cons.mpr ⟨by omega, fun e' he' => ?_⟩⟩
    have hlt := hn e' he'
    omega

/-- Where no session's sum is negative, the whole is not, and it vanishes if and only if they all do. -/
theorem tally_marks_eq_zero_iff {mark : Entry V Y E M R L → Option μ} {x : Entry V Y E M R L → ℤ} {y : μ → ℤ}
    (hx : ∀ e, x e = (mark e).elim 0 y) {log : List (Entry V Y E M R L)}
    (hpos : ∀ j, 0 ≤ tally y (marks mark j log)) :
    0 ≤ tally x log ∧ (tally x log = 0 ↔ ∀ j, tally y (marks mark j log) = 0) := by
  obtain ⟨n, hn⟩ := exists_session_lt log
  rw [tally_eq_sum_marks hx hn, Finset.sum_eq_zero_iff_of_nonneg fun j _ => hpos j]
  refine ⟨Finset.sum_nonneg fun j _ => hpos j, fun h j => ?_, fun h j _ => h j⟩
  by_cases hj : j < n
  · exact h j (Finset.mem_range.mpr hj)
  · have hnone : marks mark j log = [] := by
      refine List.eq_nil_iff_forall_not_mem.mpr fun m hm => ?_
      obtain ⟨e, he, rfl, -⟩ := mem_marks.mp hm
      exact hj (hn e he)
    rw [hnone]
    rfl

/-- What the commits of an entry add to the count of rows that satisfy `p`; other entries add nothing. -/
def countGrowth [DecidableEq K] (p : (k : K) → V k → Bool) (e : Entry V Y E M R L) : ℤ :=
  match e.event.commit? with
  | some (t, b) => count p (patch t.writes b) - count p b
  | none => 0

/-- The commits of a history add up. -/
theorem Chained.tally_count [DecidableEq K] {s₀ s : Store V} {log : List (Entry V Y E M R L)}
    (h : Chained s₀ log s) (p : (k : K) → V k → Bool) :
    tally (countGrowth p) log = count p s - count p s₀ := by
  induction h with
  | nil => exact (sub_self _).symm
  | @commit e t s log hc _ ih =>
    rw [tally_cons, ih, countGrowth, hc]
    show (count p (patch t.writes s) - count p s : ℤ) + (count p s - count p s₀) = _
    omega
  | @other e s log hc _ ih =>
    rw [tally_cons, ih, countGrowth, hc]
    exact zero_add _

end ReadCommitted
