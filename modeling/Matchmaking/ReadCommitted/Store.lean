import Mathlib.Data.List.AList
import Mathlib.Data.Finset.Card
import Mathlib.Data.Finset.Preimage
import Mathlib.Data.Int.Init

/-!
# Row stores and pending writes

A database is a finite map from primary keys to rows; one key type covers all tables, and the row
type depends on the key. A transaction keeps the row versions it has written in a list of
`Writes`, newest first. `patch` lays such a list over a store: it gives both what the transaction
itself sees and what its commit installs.
-/

namespace ReadCommitted

/-- Time stamps, in the smallest unit the server keeps. They are integers, so that differences of times can be
taken without care. -/
abbrev Time := ℤ

variable {K : Type} {V : K → Type}

/-- The committed rows of all tables, by key. The key of a row tells its table, and the type of the row
depends on it. -/
abbrev Store (V : K → Type) := AList V

/-- Row versions written by one transaction, newest first; `none` marks a deleted row. -/
abbrev Writes (V : K → Type) := List (Sigma fun k => Option (V k))

variable [DecidableEq K]

/-- Install one row version, or remove the row where there is no version to install. -/
def writeRow (w : Sigma fun k => Option (V k)) (s : Store V) : Store V :=
  match w with
  | ⟨k, some v⟩ => s.insert k v
  | ⟨k, none⟩ => s.erase k

/-- Lay the pending row versions `ws` over the store `s`. They are listed newest first, so the newest version
of each row is the one that counts. -/
def patch (ws : Writes V) (s : Store V) : Store V := ws.foldr writeRow s

@[simp] theorem patch_nil (s : Store V) : patch [] s = s := rfl

/-- The newest write is in front, and is made last. -/
@[simp] theorem patch_cons (w : Sigma fun k => Option (V k)) (ws : Writes V) (s : Store V) :
    patch (w :: ws) s = writeRow w (patch ws s) := rfl

/-- A row that has been written is found as it was written. -/
@[simp] theorem lookup_writeRow_self (k : K) (o : Option (V k)) (s : Store V) :
    (writeRow ⟨k, o⟩ s).lookup k = o := by
  cases o with
  | none => exact AList.lookup_erase k s
  | some v => exact AList.lookup_insert s

theorem lookup_writeRow_ne {k : K} {w : Sigma fun k => Option (V k)} (h : k ≠ w.1) (s : Store V) :
    (writeRow w s).lookup k = s.lookup k := by
  obtain ⟨k', o⟩ := w
  cases o with
  | none => exact AList.lookup_erase_ne h
  | some v => exact AList.lookup_insert_ne h

/-- A patched store shows the newest pending version of a row, and the store's own row where the
transaction has written none. -/
theorem lookup_patch (ws : Writes V) (s : Store V) (k : K) :
    (patch ws s).lookup k = (ws.dlookup k).getD (s.lookup k) := by
  induction ws with
  | nil => rfl
  | cons w ws ih =>
    by_cases h : k = w.1
    · obtain ⟨k', o⟩ := w
      subst h
      simp
    · rw [patch_cons, lookup_writeRow_ne h, ih, List.dlookup_cons_ne _ _ h]

/-- Of several writes to a row the newest counts. -/
theorem lookup_patch_of_mem {ws : Writes V} {k : K} {o : Option (V k)} (h : ws.dlookup k = some o)
    (s : Store V) : (patch ws s).lookup k = o := by
  rw [lookup_patch, h, Option.getD_some]

/-- Rows without a write are those of the store. -/
theorem lookup_patch_of_notMem {ws : Writes V} {k : K} (h : ws.dlookup k = none) (s : Store V) :
    (patch ws s).lookup k = s.lookup k := by
  rw [lookup_patch, h, Option.getD_none]

/-- A row that a patch changes is one that it writes. -/
theorem dlookup_of_patch_ne {ws : Writes V} {s : Store V} {k : K}
    (h : (patch ws s).lookup k ≠ s.lookup k) : ws.dlookup k = some ((patch ws s).lookup k) := by
  cases hk : ws.dlookup k with
  | none => exact absurd (lookup_patch_of_notMem hk s) h
  | some o => rw [lookup_patch_of_mem hk]

/-! ## Reading tables -/

/-- The rows of one table: `proj` picks the rows of that table and what is read of them. -/
def rowsOf {α : Type} (proj : (k : K) → V k → Option α) (s : Store V) : List α :=
  s.entries.filterMap fun e => proj e.1 e.2

/-- A scan finds what its projection makes of the rows that are there. -/
theorem mem_rowsOf {α : Type} {proj : (k : K) → V k → Option α} {s : Store V} {a : α} :
    a ∈ rowsOf proj s ↔ ∃ k v, s.lookup k = some v ∧ proj k v = some a := by
  simp only [rowsOf, List.mem_filterMap, Sigma.exists]
  refine exists_congr fun k => exists_congr fun v => and_congr_left fun _ => ?_
  exact AList.mem_lookup_iff.symm

omit [DecidableEq K] in
/-- Every row is listed once, if it can be told from what is read of it. -/
theorem rowsOf_nodup {α : Type} {proj : (k : K) → V k → Option α}
    (hproj : ∀ k v k' v' a, proj k v = some a → proj k' v' = some a → (⟨k, v⟩ : Sigma V) = ⟨k', v'⟩)
    (s : Store V) : (rowsOf proj s).Nodup :=
  List.Nodup.filterMap (fun _ _ _ ha ha' => hproj _ _ _ _ _ ha ha') s.nodupKeys.nodup

/-! ## Counting rows -/

/-- The number of rows that satisfy `p`, over all tables; `p` is given the key as well, and so picks its
table. -/
def count (p : (k : K) → V k → Bool) (s : Store V) : ℕ :=
  s.entries.countP fun e => p e.1 e.2

/-- The contribution of one row, present or not, to a count. -/
def weight (p : (k : K) → V k → Bool) (k : K) (o : Option (V k)) : ℕ :=
  if o.any (p k) then 1 else 0

/-- A count depends only on the rows that it counts. -/
theorem count_congr {p : (k : K) → V k → Bool} {s s' : Store V}
    (h : ∀ k v, p k v = true → (s'.lookup k = some v ↔ s.lookup k = some v)) :
    count p s' = count p s := by
  simp only [count, List.countP_eq_length_filter]
  refine List.Perm.length_eq ((List.perm_ext_iff_of_nodup ?_ ?_).mpr ?_)
  · exact s'.nodupKeys.nodup.filter _
  · exact s.nodupKeys.nodup.filter _
  · rintro ⟨k, v⟩
    simp only [List.mem_filter]
    refine and_congr_left fun hp => ?_
    rw [← AList.mem_lookup_iff, ← AList.mem_lookup_iff]
    exact h k v hp

omit [DecidableEq K] in
/-- Counting is taking the length of the list of keys. -/
private theorem count_eq_length (p : (k : K) → V k → Bool) (s : Store V) :
    count p s = ((s.entries.filter fun e => p e.1 e.2).map Sigma.fst).length := by
  rw [List.length_map, count, List.countP_eq_length_filter]

omit [DecidableEq K] in
private theorem nodup_counted (p : (k : K) → V k → Bool) (s : Store V) :
    ((s.entries.filter fun e => p e.1 e.2).map Sigma.fst).Nodup :=
  List.NodupKeys.sublist List.filter_sublist s.nodupKeys

/-- A key is counted if its row satisfies the predicate. -/
private theorem mem_counted {p : (k : K) → V k → Bool} {s : Store V} {k : K} :
    k ∈ (s.entries.filter fun e => p e.1 e.2).map Sigma.fst ↔ ∃ v, s.lookup k = some v ∧ p k v = true := by
  simp only [List.mem_map, List.mem_filter]
  constructor
  · rintro ⟨⟨k, v⟩, ⟨hmem, hp⟩, rfl⟩
    exact ⟨v, AList.mem_lookup_iff.mpr hmem, hp⟩
  · rintro ⟨v, hv, hp⟩
    exact ⟨⟨k, v⟩, ⟨AList.mem_lookup_iff.mp hv, hp⟩, rfl⟩

/-- No more rows count where every row that counts has counted before. -/
theorem count_le {p : (k : K) → V k → Bool} {s s' : Store V}
    (h : ∀ k v, p k v = true → s'.lookup k = some v → ∃ v₀, s.lookup k = some v₀ ∧ p k v₀ = true) :
    count p s' ≤ count p s := by
  rw [count_eq_length, count_eq_length]
  refine (List.subperm_of_subset (nodup_counted p s') fun k hk => mem_counted.mpr ?_).length_le
  obtain ⟨v, hv, hp⟩ := mem_counted.mp hk
  exact h k v hp hv

/-- A count is the number of keys whose rows count. -/
theorem count_eq_card {p : (k : K) → V k → Bool} {s : Store V} {keys : Finset K}
    (h : ∀ k, k ∈ keys ↔ ∃ v, s.lookup k = some v ∧ p k v = true) : count p s = keys.card := by
  have hkeys : keys = ((s.entries.filter fun e => p e.1 e.2).map Sigma.fst).toFinset := by
    ext k
    rw [h k, List.mem_toFinset, mem_counted]
  rw [hkeys, List.toFinset_card_of_nodup (nodup_counted p s), count_eq_length]

/-- The rows that count, by names for their keys. -/
theorem exists_counted {ι : Type} {f : ι → K} (hf : Function.Injective f) {p : (k : K) → V k → Bool}
    (hp : ∀ k v, p k v = true → ∃ i, f i = k) (s : Store V) : ∃ items : Finset ι,
      (∀ i, i ∈ items ↔ ∃ v, s.lookup (f i) = some v ∧ p (f i) v = true) ∧ count p s = items.card := by
  have hkeys : ∀ k, k ∈ ((s.entries.filter fun e => p e.1 e.2).map Sigma.fst).toFinset ↔
      ∃ v, s.lookup k = some v ∧ p k v = true := fun k => List.mem_toFinset.trans mem_counted
  classical
  refine ⟨Finset.preimage _ f hf.injOn, fun i => Finset.mem_preimage.trans (hkeys (f i)), ?_⟩
  rw [count_eq_card hkeys, Finset.card_preimage, Finset.filter_true_of_mem]
  intro k hk
  obtain ⟨v, -, hv⟩ := (hkeys k).mp hk
  exact hp k v hv

omit [DecidableEq K] in
/-- Rows of two kinds. -/
theorem count_add {p p₁ p₂ : (k : K) → V k → Bool}
    (h : ∀ k v, (p k v).toNat = (p₁ k v).toNat + (p₂ k v).toNat) (s : Store V) :
    count p s = count p₁ s + count p₂ s := by
  unfold count
  induction s.entries with
  | nil => rfl
  | cons e entries ih =>
    have he := h e.1 e.2
    simp only [List.countP_cons, ih]
    cases hp : p e.1 e.2 <;> cases hp₁ : p₁ e.1 e.2 <;> cases hp₂ : p₂ e.1 e.2 <;>
      simp [hp, hp₁, hp₂] at he ⊢ <;> omega

/-- Without one row, the count is smaller by what this row has counted for. -/
private theorem countP_kerase (p : (k : K) → V k → Bool) (k : K) (l : List (Sigma V)) :
    (l.kerase k).countP (fun e => p e.1 e.2) + weight p k (l.dlookup k)
      = l.countP fun e => p e.1 e.2 := by
  induction l with
  | nil => simp [weight]
  | cons e l ih =>
    by_cases h : k = e.1
    · obtain ⟨k', v⟩ := e
      subst h
      rw [List.kerase_cons_eq (s := ⟨k, v⟩) rfl, List.dlookup_cons_eq, List.countP_cons]
      rfl
    · rw [List.kerase_cons_ne h, List.dlookup_cons_ne _ _ h, List.countP_cons, List.countP_cons]
      omega

/-- Writing one row changes a count by the difference of the two versions' contributions. -/
theorem count_writeRow (p : (k : K) → V k → Bool) (k : K) (o : Option (V k)) (s : Store V) :
    count p (writeRow ⟨k, o⟩ s) + weight p k (s.lookup k) = count p s + weight p k o := by
  have herase := countP_kerase p k s.entries
  cases o with
  | none => exact herase
  | some v =>
    have hinsert : count p (writeRow ⟨k, some v⟩ s)
        = (s.entries.kerase k).countP (fun e => p e.1 e.2) + weight p k (some v) := by
      simp only [count, writeRow, AList.entries_insert, List.countP_cons]
      rfl
    rw [hinsert, count, ← herase]
    simp only [AList.lookup]
    omega

/-- Where all rows that count but one are the same, the counts differ by what that row contributes. -/
theorem count_changed_row {p : (k : K) → V k → Bool} {s s' : Store V} (k : K)
    (h : ∀ k' v, k' ≠ k → p k' v = true → (s'.lookup k' = some v ↔ s.lookup k' = some v)) :
    count p s' + weight p k (s.lookup k) = count p s + weight p k (s'.lookup k) := by
  rw [← count_writeRow p k (s'.lookup k) s]
  refine congrArg (· + _) (count_congr fun k' v hv => ?_)
  by_cases hk : k' = k
  · subst hk
    rw [lookup_writeRow_self]
  · rw [lookup_writeRow_ne hk]
    exact h k' v hk hv

end ReadCommitted
