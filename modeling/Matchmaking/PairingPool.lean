import Mathlib.Algebra.BigOperators.Group.Finset.Basic
import Mathlib.Logic.Function.Basic

/-!
# A pool of items that are paired off

Items enter a pool, each into a slot in which no other item waits. An item that waits may be withdrawn, or
paired with another one of its group, under a name that is new. Whatever the order of these steps: a name in
use belongs to exactly two items, which are of one group and came from different slots.
-/

namespace PairingPool

variable {ι κ γ μ : Type} [DecidableEq ι] {group : κ → γ}

/-- What has become of an item: it waits, has been withdrawn, or is paired under an identifier. -/
inductive Standing (μ : Type)
  | waiting
  | withdrawn
  | paired (m : μ)

/-- The items in the pool, with their slots. An item that has not entered has no slot. -/
abbrev Pool (ι κ μ : Type) := ι → Option (κ × Standing μ)

/-- What can happen to a pool: an item enters a slot, a waiting item is withdrawn, or two of them are
paired. -/
inductive Move (ι κ μ : Type)
  | enter (i : ι) (k : κ)
  | withdraw (i : ι) (k : κ)
  | pair (i j : ι) (m : μ)

/-- The steps of a pool. An item enters only a slot in which nobody waits, and a pair is made of two waiting
items whose slots are in one group, under a new identifier. -/
inductive Step (group : κ → γ) (P : Pool ι κ μ) : Move ι κ μ → Pool ι κ μ → Prop
  | enter {i : ι} {k : κ} (hnew : P i = none) (hfree : ∀ j, P j ≠ some (k, .waiting)) :
      Step group P (.enter i k) (Function.update P i (some (k, .waiting)))
  | withdraw {i : ι} {k : κ} (hi : P i = some (k, .waiting)) :
      Step group P (.withdraw i k) (Function.update P i (some (k, .withdrawn)))
  | pair {i j : ι} {k l : κ} {m : μ} (hne : i ≠ j) (hi : P i = some (k, .waiting))
      (hj : P j = some (l, .waiting)) (hgroup : group k = group l)
      (hnew : ∀ x s, P x ≠ some (s, .paired m)) :
      Step group P (.pair i j m)
        (Function.update (Function.update P i (some (k, .paired m))) j (some (l, .paired m)))

/-- Steps one after the other; the last move is the first of the list. -/
inductive Run (group : κ → γ) (P : Pool ι κ μ) : List (Move ι κ μ) → Pool ι κ μ → Prop
  | nil : Run group P [] P
  | step {moves : List (Move ι κ μ)} {move : Move ι κ μ} {P' P'' : Pool ι κ μ}
      (h : Run group P moves P') (hstep : Step group P' move P'') : Run group P (move :: moves) P''

/-- No two items wait in a slot, and a name belongs to two items of one group, from different slots. -/
structure Sound (group : κ → γ) (P : Pool ι κ μ) : Prop where
  slots : ∀ i j k, P i = some (k, .waiting) → P j = some (k, .waiting) → i = j
  pairs : ∀ i k m, P i = some (k, .paired m) → ∃ j l, i ≠ j ∧ P j = some (l, .paired m) ∧
    group k = group l ∧ k ≠ l ∧ ∀ x s, P x = some (s, .paired m) → x = i ∨ x = j

variable {P P' : Pool ι κ μ} {move : Move ι κ μ} {moves : List (Move ι κ μ)}

omit [DecidableEq ι] in
theorem Sound.empty : Sound group (fun _ => none : Pool ι κ μ) :=
  ⟨fun _ _ _ h => (by cases h), fun _ _ _ h => by cases h⟩

/-- A changed item that does not wait leaves the slots of the others as they are. -/
theorem slots_update (h : ∀ i j k, P i = some (k, .waiting) → P j = some (k, .waiting) → i = j) {x : ι}
    {l : κ} {f : Standing μ} (hf : f ≠ .waiting) : ∀ i j k,
    Function.update P x (some (l, f)) i = some (k, .waiting) →
      Function.update P x (some (l, f)) j = some (k, .waiting) → i = j := by
  have hother : ∀ i k, Function.update P x (some (l, f)) i = some (k, .waiting) →
      P i = some (k, .waiting) := by
    intro i k hi
    by_cases heq : i = x
    · subst heq
      rw [Function.update_self] at hi
      cases hi
      exact absurd rfl hf
    · rwa [Function.update_of_ne heq] at hi
  exact fun i j k hi hj => h i j k (hother i k hi) (hother j k hj)

namespace Sound

omit [DecidableEq ι] in
/-- Where the paired items are the same, so are the pairs. -/
theorem of_paired (h : Sound group P)
    (hslots : ∀ i j k, P' i = some (k, .waiting) → P' j = some (k, .waiting) → i = j)
    (hpaired : ∀ i k m, P' i = some (k, .paired m) ↔ P i = some (k, .paired m)) : Sound group P' where
  slots := hslots
  pairs i k m hi := by
    obtain ⟨j, l, hne, hj, hgroup, hkl, honly⟩ := h.pairs i k m ((hpaired i k m).mp hi)
    exact ⟨j, l, hne, (hpaired j l m).mpr hj, hgroup, hkl, fun x s hx => honly x s ((hpaired x s m).mp hx)⟩

/-- An item that neither was paired nor is leaves the pairs as they are. -/
theorem paired_update {x : ι} {l : κ} {f : Standing μ} (hx : ∀ s m, P x ≠ some (s, .paired m))
    (hf : ∀ m, f ≠ .paired m) (i : ι) (k : κ) (m : μ) :
    Function.update P x (some (l, f)) i = some (k, .paired m) ↔ P i = some (k, .paired m) := by
  by_cases heq : i = x
  · subst heq
    rw [Function.update_self]
    refine iff_of_false (fun h => ?_) (hx k m)
    cases h
    exact hf m rfl
  · rw [Function.update_of_ne heq]

theorem enter (h : Sound group P) {i : ι} {k : κ} (hnew : P i = none) (hfree : ∀ j, P j ≠ some (k, .waiting)) :
    Sound group (Function.update P i (some (k, .waiting))) := by
  refine h.of_paired ?_ (paired_update (fun s m hi => ?_) fun m hf => by cases hf)
  · intro x y s hx hy
    by_cases hxi : x = i <;> by_cases hyi : y = i
    · rw [hxi, hyi]
    · subst hxi
      rw [Function.update_self] at hx
      cases hx
      rw [Function.update_of_ne hyi] at hy
      exact absurd hy (hfree y)
    · subst hyi
      rw [Function.update_self] at hy
      cases hy
      rw [Function.update_of_ne hxi] at hx
      exact absurd hx (hfree x)
    · rw [Function.update_of_ne hxi] at hx
      rw [Function.update_of_ne hyi] at hy
      exact h.slots x y s hx hy
  · rw [hnew] at hi
    cases hi

theorem withdraw (h : Sound group P) {i : ι} {k : κ} (hi : P i = some (k, .waiting)) :
    Sound group (Function.update P i (some (k, .withdrawn))) := by
  refine h.of_paired (slots_update h.slots fun hf => (by cases hf))
    (paired_update (fun s m hm => ?_) fun m hf => by cases hf)
  rw [hi] at hm
  cases hm

theorem pair (h : Sound group P) {i j : ι} {k l : κ} {m : μ} (hne : i ≠ j) (hi : P i = some (k, .waiting))
    (hj : P j = some (l, .waiting)) (hgroup : group k = group l) (hnew : ∀ x s, P x ≠ some (s, .paired m)) :
    Sound group (Function.update (Function.update P i (some (k, .paired m))) j (some (l, .paired m))) := by
  have hkl : k ≠ l := fun heq => hne (h.slots i j k hi (heq ▸ hj))
  have hat_i : Function.update (Function.update P i (some (k, Standing.paired m))) j (some (l, .paired m)) i
      = some (k, .paired m) := by
    rw [Function.update_of_ne hne, Function.update_self]
  have hat_j : Function.update (Function.update P i (some (k, Standing.paired m))) j (some (l, .paired m)) j
      = some (l, .paired m) := Function.update_self ..
  have hother : ∀ x, x ≠ i → x ≠ j →
      Function.update (Function.update P i (some (k, Standing.paired m))) j (some (l, .paired m)) x = P x := by
    intro x hxi hxj
    rw [Function.update_of_ne hxj, Function.update_of_ne hxi]
  -- the pairing is new, so nobody else stands in it
  have honly : ∀ x s, Function.update (Function.update P i (some (k, Standing.paired m))) j (some (l, .paired m)) x
      = some (s, .paired m) → x = i ∨ x = j := by
    intro x s hx
    by_contra hno
    rw [not_or] at hno
    rw [hother x hno.1 hno.2] at hx
    exact hnew x s hx
  refine ⟨slots_update (slots_update h.slots fun hf => (by cases hf)) fun hf => (by cases hf), ?_⟩
  intro x s m' hx
  by_cases hxi : x = i
  · subst hxi
    rw [hat_i] at hx
    cases hx
    exact ⟨j, l, hne, hat_j, hgroup, hkl, honly⟩
  by_cases hxj : x = j
  · subst hxj
    rw [hat_j] at hx
    cases hx
    exact ⟨i, k, hne.symm, hat_i, hgroup.symm, hkl.symm, fun y s' hy => (honly y s' hy).symm⟩
  -- an older pair, which neither of the two belongs to
  rw [hother x hxi hxj] at hx
  obtain ⟨y, r, hxy, hy, hsame, hslots, hboth⟩ := h.pairs x s m' hx
  have hm : m' ≠ m := fun heq => hnew x s (heq ▸ hx)
  have hyi : y ≠ i := by
    intro heq
    rw [heq, hi] at hy
    cases hy
  have hyj : y ≠ j := by
    intro heq
    rw [heq, hj] at hy
    cases hy
  refine ⟨y, r, hxy, (hother y hyi hyj).trans hy, hsame, hslots, fun z s' hz => ?_⟩
  by_cases hzi : z = i
  · subst hzi
    rw [hat_i] at hz
    cases hz
    exact absurd rfl hm
  by_cases hzj : z = j
  · subst hzj
    rw [hat_j] at hz
    cases hz
    exact absurd rfl hm
  · rw [hother z hzi hzj] at hz
    exact hboth z s' hz

end Sound

theorem Step.sound (h : Step group P move P') (hP : Sound group P) : Sound group P' := by
  cases h with
  | enter hnew hfree => exact hP.enter hnew hfree
  | withdraw hi => exact hP.withdraw hi
  | pair hne hi hj hgroup hnew => exact hP.pair hne hi hj hgroup hnew

/-- Whatever the order of the steps. -/
theorem Run.sound (h : Run group P moves P') (hP : Sound group P) : Sound group P' := by
  induction h with
  | nil => exact hP
  | step _ hstep ih => exact hstep.sound ih

/-- In any groups, there are twice as many paired items as names in use. -/
theorem Sound.card_paired (h : Sound group P) {q : γ → Prop} {items : Finset ι} {names : Finset μ}
    [DecidableEq μ] [Nonempty μ]
    (hitems : ∀ i, i ∈ items ↔ ∃ k m, P i = some (k, .paired m) ∧ q (group k))
    (hnames : ∀ m, m ∈ names ↔ ∃ i k, P i = some (k, .paired m) ∧ q (group k)) :
    items.card = 2 * names.card := by
  have hname : ∀ i ∈ items, ∃ m, ∃ k, P i = some (k, .paired m) ∧ q (group k) := fun i hi => by
    obtain ⟨k, m, hm⟩ := (hitems i).mp hi
    exact ⟨m, k, hm⟩
  choose! name hname using hname
  have hmaps : ∀ i ∈ items, name i ∈ names := fun i hi => (hnames _).mpr ⟨i, hname i hi⟩
  rw [Finset.card_eq_sum_card_fiberwise hmaps, Finset.sum_const_nat (m := 2), Nat.mul_comm]
  intro m hm
  -- the two items of a name
  obtain ⟨i, k, hi, hk⟩ := (hnames m).mp hm
  obtain ⟨j, l, hne, hj, hgroup, -, honly⟩ := h.pairs i k m hi
  rw [← Finset.card_pair hne]
  congr 1
  ext x
  rw [Finset.mem_filter, Finset.mem_insert, Finset.mem_singleton]
  have hof : ∀ {x s}, P x = some (s, .paired m) → q (group s) → x ∈ items ∧ name x = m := by
    intro x s hx hs
    have hmem : x ∈ items := (hitems x).mpr ⟨s, m, hx, hs⟩
    obtain ⟨s', hs', -⟩ := hname x hmem
    rw [hx] at hs'
    cases hs'
    exact ⟨hmem, rfl⟩
  constructor
  · rintro ⟨hx, rfl⟩
    obtain ⟨s, hs, -⟩ := hname x hx
    exact honly x s hs
  · rintro (rfl | rfl)
    · exact hof hi hk
    · exact hof hj (hgroup ▸ hk)

end PairingPool
