import Mathlib.Data.Finset.Sort

/-!
# Prefixes of sorted lists

Which elements are among the first `n` of a sorted list: those with few enough elements before them.
The relation `r` may leave ties open; `p` picks the elements that come before, or after, for certain.
-/

namespace SortedPrefix

variable {α : Type} {r : α → α → Prop} {rows : List α} {a b : α} {n : ℕ}

/-- What is among the first `n` is related to what is not. -/
theorem rel_of_mem_take (hsorted : rows.Pairwise r) (ha : a ∈ rows.take n) (hb : b ∈ rows)
    (hb' : b ∉ rows.take n) : r a b := by
  rw [← List.take_append_drop n rows, List.pairwise_append] at hsorted
  rw [← List.take_append_drop n rows, List.mem_append] at hb
  exact hsorted.2.2 a ha b (hb.resolve_left hb')

/-- An element among the first `n` has fewer than `n` elements before it. -/
theorem count_lt_of_mem_take {p : α → Bool} (hsorted : rows.Pairwise r) (ha : a ∈ rows.take n)
    (hp : ∀ b ∈ rows, p b = true → ¬ r a b) (hpa : p a = false) : rows.countP p < n := by
  obtain ⟨before, after, htake⟩ := List.append_of_mem ha
  have hrows : rows = before ++ a :: (after ++ rows.drop n) := by
    rw [← List.cons_append, ← List.append_assoc, ← htake, List.take_append_drop]
  rw [hrows, List.pairwise_append, List.pairwise_cons] at hsorted
  have hafter : (after ++ rows.drop n).countP p = 0 := by
    refine List.countP_eq_zero.mpr fun b hb hpb => ?_
    refine hp b ?_ hpb (hsorted.2.1.1 b hb)
    rw [hrows]
    exact List.mem_append_right _ (List.mem_cons_of_mem _ hb)
  have hlength : before.length < n := by
    have hle : (rows.take n).length ≤ n := List.length_take_le n rows
    rw [htake, List.length_append, List.length_cons] at hle
    omega
  rw [hrows, List.countP_append, List.countP_cons_of_neg (by simp [hpa]), hafter]
  exact Nat.lt_of_le_of_lt List.countP_le_length hlength

/-- An element that is not among the first `n` has `n` elements before it, so there are enough that do
not come after it. -/
theorem count_lt_of_notMem_take {p : α → Bool} (hsorted : rows.Pairwise r) (ha : a ∈ rows)
    (ha' : a ∉ rows.take n) (hp : ∀ b ∈ rows, p b = true → ¬ r b a) (hpa : p a = false) :
    n + rows.countP p < rows.length := by
  have hdrop : a ∈ rows.drop n := by
    rw [← List.take_append_drop n rows, List.mem_append] at ha
    exact ha.resolve_left ha'
  obtain ⟨before, after, hdrop⟩ := List.append_of_mem hdrop
  have hrows : rows = (rows.take n ++ before) ++ a :: after := by
    rw [List.append_assoc, ← hdrop, List.take_append_drop]
  have hbefore : (rows.take n ++ before).countP p = 0 := by
    refine List.countP_eq_zero.mpr fun b hb hpb => ?_
    rw [hrows, List.pairwise_append] at hsorted
    refine hp b ?_ hpb (hsorted.2.2 b hb a List.mem_cons_self)
    rw [hrows]
    exact List.mem_append_left _ hb
  have htake : (rows.take n).length = n := by
    refine List.length_take_of_le (Nat.le_of_lt (Nat.lt_of_sub_pos ?_))
    rw [← List.length_drop, hdrop, List.length_append, List.length_cons]
    omega
  have hcount : rows.countP p ≤ after.length := by
    rw [hrows, List.countP_append, List.countP_cons_of_neg (by simp [hpa]), hbefore, Nat.zero_add]
    exact List.countP_le_length
  have hlength : rows.length = n + before.length + (after.length + 1) := by
    conv_lhs => rw [hrows]
    rw [List.length_append, List.length_append, List.length_cons, htake]
  omega

/-- An element with fewer than `n` elements that may come before it is among the first `n`. -/
theorem mem_take {p : α → Bool} (hsorted : rows.Pairwise r) (hnodup : rows.Nodup) (ha : a ∈ rows)
    (hp : ∀ b ∈ rows, b ≠ a → r b a → p b = true) (hn : rows.countP p < n) : a ∈ rows.take n := by
  obtain ⟨before, after, rfl⟩ := List.append_of_mem ha
  rw [List.pairwise_append] at hsorted
  have hbefore : before.countP p = before.length := by
    refine List.countP_eq_length.mpr fun b hb => hp b (by simp [hb]) ?_ (hsorted.2.2 b hb a (by simp))
    rintro rfl
    exact (List.nodup_append.mp hnodup).2.2 b hb b (by simp) rfl
  have hlength : before.length < n := by
    rw [List.countP_append, hbefore] at hn
    omega
  rw [List.take_append]
  obtain ⟨k, hk⟩ : ∃ k, n - before.length = k + 1 := ⟨n - before.length - 1, by omega⟩
  rw [hk, List.take_succ_cons]
  simp

/-- An element with `n` elements that come before it is not among the first `n`. -/
theorem notMem_take {p : α → Bool} (hsorted : rows.Pairwise r)
    (hp : ∀ b ∈ rows, p b = true → ¬ r a b) (hpa : p a = false) (hn : n ≤ rows.countP p) :
    a ∉ rows.take n := fun ha =>
  absurd (count_lt_of_mem_take hsorted ha hp hpa) (Nat.not_lt.mpr hn)

/-- Counts of all elements but one. -/
theorem countP_le_succ {p q : α → Bool} (hnodup : rows.Nodup)
    (h : ∀ b ∈ rows, b ≠ a → q b = true → p b = true) : rows.countP q ≤ rows.countP p + 1 := by
  induction rows with
  | nil => exact Nat.zero_le _
  | cons b rows ih =>
    obtain ⟨hb, hnodup⟩ := List.nodup_cons.mp hnodup
    rw [List.countP_cons, List.countP_cons]
    by_cases hba : b = a
    · subst hba
      have hrest : rows.countP q ≤ rows.countP p := List.countP_mono_left fun c hc =>
        h c (List.mem_cons_of_mem _ hc) fun heq => hb (heq ▸ hc)
      split <;> omega
    · have hrest := ih hnodup fun c hc => h c (List.mem_cons_of_mem _ hc)
      have hhead := h b List.mem_cons_self hba
      cases hq : q b with
      | false =>
        rw [if_neg Bool.false_ne_true]
        omega
      | true =>
        rw [if_pos rfl, if_pos (hhead hq)]
        omega

/-- A list without repetitions that leaves an element out is shorter. -/
theorem length_lt_of_notMem {l : List α} (hnodup : l.Nodup) (hsub : ∀ b ∈ l, b ∈ rows) (ha : a ∈ rows)
    (ha' : a ∉ l) : l.length < rows.length := by
  have hsub' : a :: l ⊆ rows := List.cons_subset.mpr ⟨ha, hsub⟩
  exact (List.subperm_of_subset (List.nodup_cons.mpr ⟨ha', hnodup⟩) hsub').length_le

/-- What is not among the first `n` comes after them. -/
theorem mem_drop_iff (hnodup : rows.Nodup) : a ∈ rows.drop n ↔ a ∈ rows ∧ a ∉ rows.take n := by
  have hrows : rows.take n ++ rows.drop n = rows := List.take_append_drop n rows
  rw [← hrows] at hnodup
  have hmem : a ∈ rows ↔ a ∈ rows.take n ∨ a ∈ rows.drop n := by rw [← List.mem_append, hrows]
  rw [hmem]
  constructor
  · exact fun h => ⟨.inr h, fun h' => (List.nodup_append.mp hnodup).2.2 a h' a h rfl⟩
  · exact fun h => h.1.resolve_left h.2

/-! ## First elements of a set -/

section Firsts

variable {β : Type} [LinearOrder β] {key : α → β} {S : Finset α}

/-- The first `n` elements in the order of `key`: those with fewer than `n` elements before them. -/
def firsts (key : α → β) (n : ℕ) (S : Finset α) : Finset α :=
  S.filter fun a => (S.filter fun b => key b < key a).card < n

theorem mem_firsts : a ∈ firsts key n S ↔ a ∈ S ∧ (S.filter fun b => key b < key a).card < n :=
  Finset.mem_filter

theorem firsts_subset : firsts key n S ⊆ S := Finset.filter_subset _ _

/-- They come before all others. -/
theorem lt_of_mem_firsts (ha : a ∈ firsts key n S) (hb : b ∈ S) (hb' : b ∉ firsts key n S) :
    key a < key b := by
  by_contra hle
  refine hb' (mem_firsts.mpr ⟨hb, Nat.lt_of_le_of_lt (Finset.card_le_card fun c hc => ?_) (mem_firsts.mp ha).2⟩)
  rw [Finset.mem_filter] at hc ⊢
  exact ⟨hc.1, lt_of_lt_of_le hc.2 (not_lt.mp hle)⟩

/-- The first elements are what a sorted list begins with. -/
theorem mem_take_iff [DecidableEq α] (hsorted : rows.Pairwise fun a b => key a ≤ key b) (hnodup : rows.Nodup)
    (hkey : ∀ a ∈ rows, ∀ b ∈ rows, key a = key b → a = b) :
    a ∈ rows.take n ↔ a ∈ firsts key n rows.toFinset := by
  have hcount : (rows.toFinset.filter fun b => key b < key a).card = rows.countP fun b => key b < key a := by
    rw [List.countP_eq_length_filter, ← List.toFinset_card_of_nodup (hnodup.filter _), List.toFinset_filter]
    simp
  rw [mem_firsts, hcount, List.mem_toFinset]
  constructor
  · intro ha
    refine ⟨List.mem_of_mem_take ha, count_lt_of_mem_take hsorted ha (fun b _ hb => ?_) (by simp)⟩
    exact not_le.mpr (of_decide_eq_true hb)
  · rintro ⟨ha, hn⟩
    refine mem_take hsorted hnodup ha (fun b hb hne hle => decide_eq_true (lt_of_le_of_ne hle fun heq => ?_)) hn
    exact hne (hkey b hb a ha heq)

theorem toFinset_take [DecidableEq α] (hsorted : rows.Pairwise fun a b => key a ≤ key b) (hnodup : rows.Nodup)
    (hkey : ∀ a ∈ rows, ∀ b ∈ rows, key a = key b → a = b) :
    (rows.take n).toFinset = firsts key n rows.toFinset := by
  ext a
  rw [List.mem_toFinset, mem_take_iff hsorted hnodup hkey]

/-- There are `n` of them, or as many as there are. -/
theorem card_firsts [DecidableEq α] (hkey : ∀ a ∈ S, ∀ b ∈ S, key a = key b → a = b) :
    (firsts key n S).card = min n S.card := by
  have hperm : (S.toList.insertionSort fun a b => key a ≤ key b).Perm S.toList := List.perm_insertionSort _ _
  have : Std.Total fun a b : α => key a ≤ key b := ⟨fun a b => le_total _ _⟩
  have : IsTrans α fun a b => key a ≤ key b := ⟨fun a b c => le_trans⟩
  have hset : (S.toList.insertionSort fun a b => key a ≤ key b).toFinset = S := by
    rw [List.toFinset_eq_of_perm _ _ hperm, Finset.toList_toFinset]
  have hnodup := hperm.nodup_iff.mpr S.nodup_toList
  have htake := toFinset_take (n := n) (List.pairwise_insertionSort (fun a b => key a ≤ key b) S.toList) hnodup
    fun a ha b hb => hkey a (Finset.mem_toList.mp (hperm.subset ha)) b (Finset.mem_toList.mp (hperm.subset hb))
  rw [hset] at htake
  rw [← htake, List.toFinset_card_of_nodup (hnodup.sublist (List.take_sublist _ _)), List.length_take,
    hperm.length_eq, Finset.length_toList]

/-- Few elements are all among the first. -/
theorem firsts_eq_self (h : S.card ≤ n) : firsts key n S = S := by
  refine Finset.filter_true_of_mem fun a ha => ?_
  have hpart : (S.filter fun b => key b < key a) ⊂ S := Finset.filter_ssubset.mpr ⟨a, ha, lt_irrefl (key a)⟩
  exact Nat.lt_of_lt_of_le (Finset.card_lt_card hpart) h

end Firsts

end SortedPrefix
