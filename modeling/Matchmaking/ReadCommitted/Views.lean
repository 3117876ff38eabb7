import Matchmaking.ReadCommitted.Stage

/-!
# Rows as a session sees them

A session sees the committed rows under its own pending versions. What holds of the rows that it sees stays
so while the others keep it of the committed rows, and holds of the committed rows once it has committed.
-/

namespace ReadCommitted

variable {K X : Type} [DecidableEq K] {V : K → Type} {Y : X → Type} {E M R L : Type}
  {S : Spec V Y E M R L} {i : ℕ} {l : L} {α : Type}

/-- The session's transaction has not failed, and it sees each row `k` of `A` as `φ k` says. -/
structure Views (φ : (k : K) → Option (V k) → Prop) (A : K → Prop) (w : World V Y E M R L)
    (T : Option (Txn V)) : Prop where
  live : ∀ t, T = some t → t.aborted = false
  rows : ∀ k, A k → φ k (((w.txn T).view w.committed).lookup k)

/-- What a row function leaves, which finds `v`, satisfies `p`; this is the found version itself if the
function writes nothing. -/
def RowAction.Leaves {v : Type} (p : Option v → Prop) (old : Option v) : RowAction v E → Prop
  | .leave => p old
  | .put new => p (some new)
  | .delete => p none
  | .raise _ => True

variable {φ : (k : K) → Option (V k) → Prop} {A : K → Prop}

namespace Views

variable {w : World V Y E M R L} {T : Option (Txn V)}

/-- Rows that have no pending versions are seen as they are committed. -/
theorem of_committed (hlive : ∀ t, T = some t → t.aborted = false ∧ ∀ k, A k → t.writes.dlookup k = none)
    (h : ∀ k, A k → φ k (w.committed.lookup k)) : Views φ A w T where
  live t ht := (hlive t ht).1
  rows k hk := by
    have hunwritten : (w.txn T).writes.dlookup k = none := by
      cases T with
      | none => rfl
      | some t => exact (hlive t rfl).2 k hk
    rw [Txn.view, lookup_patch_of_notMem hunwritten]
    exact h k hk

/-- The property may be forgotten for some rows. -/
theorem mono {A' : K → Prop} (h : Views φ A w T) (hA : ∀ k, A' k → A k) : Views φ A' w T :=
  ⟨h.live, fun k hk => h.rows k (hA k hk)⟩

/-- The others keep the property of rows that the transaction has not locked. -/
theorem stable (h : ∀ w w', S.rely i l w w' → ∀ k, A k → φ k (w.committed.lookup k) →
    φ k (w'.committed.lookup k)) : Stable S i l (Views φ A) := by
  intro w w' T henv hviews
  have hwrites : (w'.txn T).writes = (w.txn T).writes := by cases T <;> rfl
  refine ⟨hviews.live, fun k hk => ?_⟩
  have hrow := hviews.rows k hk
  simp only [Txn.view, hwrites] at hrow ⊢
  cases hown : (w.txn T).writes.dlookup k with
  | none =>
    rw [lookup_patch_of_notMem hown] at hrow ⊢
    exact h w w' henv.rely k hk hrow
  | some o =>
    rw [lookup_patch_of_mem hown] at hrow ⊢
    exact hrow

/-- Writing a row that has the property adds it to those that have. -/
theorem write {k₀ : K} {o : Option (V k₀)} (h : Views φ A w T) (hlive : (w.txn T).aborted = false)
    (ho : φ k₀ o) : Views φ (fun k => A k ∨ k = k₀) w (some ((w.txn T).write k₀ o)) where
  live t ht := by
    cases ht
    exact hlive
  rows k hk := by
    show φ k ((writeRow ⟨k₀, o⟩ ((w.txn T).view w.committed)).lookup k)
    by_cases hkey : k = k₀
    · subst hkey
      rw [lookup_writeRow_self]
      exact ho
    · rw [lookup_writeRow_ne hkey]
      exact h.rows k (hk.resolve_right hkey)

end Views

namespace Triple

variable (hstable : Stable S i l (Views φ A))

include hstable

/-- A row operation adds its row to those that are known. -/
theorem views_row {k₀ : K} {f : Time → Option (V k₀) → RowAction (V k₀) E}
    (hf : ∀ now v, (A k₀ → φ k₀ v) → (f now v).Leaves (φ k₀) v) :
    Triple S i l (Views φ A) (ReadCommitted.perform (.row k₀ false f : Op V Y E M (Option (V k₀))))
      (fun _ => Views φ fun k => A k ∨ k = k₀) anything := by
  refine row hstable (fun h => by cases h) (fun w T _ h hlive => ?_) fun _ _ _ _ _ => trivial
  have hleaves := hf (w.txn T).start _ (h.rows k₀)
  revert hleaves
  cases f (w.txn T).start (((w.txn T).view w.committed).lookup k₀) with
  | leave =>
    intro hrow
    refine ⟨fun t ht => by cases ht; exact hlive, fun k hk => ?_⟩
    rcases hk with hk | rfl
    · exact h.rows k hk
    · exact hrow
  | put v => exact fun hrow => h.write hlive hrow
  | delete => exact fun hrow => h.write hlive hrow
  | raise e => exact fun _ => trivial

/-- A query may tell more about the rows that are seen. -/
theorem views_select {f : Time → Store V → α} {A' : α → K → Prop}
    (h : ∀ now s, (∀ k, A k → φ k (s.lookup k)) → ∀ k, A' (f now s) k → φ k (s.lookup k)) :
    Triple S i l (Views φ A) (ReadCommitted.perform (.select f : Op V Y E M α)) (fun a => Views φ (A' a))
      anything := by
  refine select hstable (fun w T _ hviews hlive => ⟨fun t ht => ?_, ?_⟩) fun _ _ _ _ _ => trivial
  · cases ht
    exact hlive
  · exact h _ _ hviews.rows

/-- The commit makes the rows seen the committed ones. -/
theorem views_commit (hcommit : S.Commits i l fun w t =>
    ∀ k, A k → φ k ((patch t.writes w.committed).lookup k)) :
    Triple S i l (Views φ A) (ReadCommitted.perform (.commit : Op V Y E M Unit))
      (fun _ w T => T = none ∧ ∀ k, A k → φ k (w.committed.lookup k)) fun _ _ T => T = none := by
  refine stage_commit_then hstable (fun w t _ h => h.rows) hcommit fun w T _ h => ?_
  cases T with
  | none => exact h.rows
  | some t =>
    simp only [Option.elim_some, World.commit, h.live t rfl, Bool.false_eq_true, if_false]
    exact h.rows

end Triple

end ReadCommitted
