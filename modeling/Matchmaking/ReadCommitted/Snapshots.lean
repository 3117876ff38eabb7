import Matchmaking.ReadCommitted.Footprint

/-!
# Snapshots and the store committed on

A transaction reads before it commits. `ReadsRelate Ψ` says that every snapshot it has read is related
by `Ψ` to the newest committed store: other sessions must not take the relation back, and what the
transaction sees of its own writes must be related to what they will replace. Then every commit of a
program whose row operations follow `Φ` relates its snapshots to the store it is committed on.
-/

namespace ReadCommitted

variable {K X : Type} [DecidableEq K] {V : K → Type} {Y : X → Type} {E M R L α : Type}

/-- The snapshots of the open transaction are related to the committed store. -/
def ReadsRelate (Ψ : Store V → Store V → Prop) : Assertion V Y E M R L := fun w T =>
  ∀ t, T = some t → ∀ σ ∈ t.reads, Ψ σ w.committed

variable {S : Spec V Y E M R L} {i : ℕ} {l : L} {Ψ : Store V → Store V → Prop} {Φ : RowRel V}

/-- A snapshot of the transaction after an operation was there before, or shows the present store. -/
theorem exec_reads {locked : K → Bool} {c : Choice Y E} {β : Type} {o : Op V Y E M β}
    {w w' : World V Y E M R L} {T T' : Option (Txn V)} {r : Except E β}
    (h : o.exec i l locked c w T = some (r, w', T')) {t' : Txn V} (ht : T' = some t') :
    ∀ σ ∈ t'.reads, σ ∈ (w.txn T).reads ∨ σ = (w.txn T).view w.committed := by
  -- a statement that fails shows nothing new
  have hstmt : ∀ {γ : Type} {r : Except E γ} {body : Option (Except E γ × Txn V)},
      statement c w (w.txn T) body = some (r, w', T') →
      (∀ t', body = some (r, t') →
        ∀ σ ∈ t'.reads, σ ∈ (w.txn T).reads ∨ σ = (w.txn T).view w.committed) →
      ∀ σ ∈ t'.reads, σ ∈ (w.txn T).reads ∨ σ = (w.txn T).view w.committed := by
    intro γ r body hst hbody
    obtain ⟨-, ⟨-, t'', hb, rfl⟩ | ⟨e, -, -, rfl⟩⟩ := statement_cases hst <;> cases ht
    · exact hbody t' hb
    · exact fun σ hσ => .inl hσ
  -- an operation outside the tables leaves the transaction alone
  have hsame : T' = T →
      ∀ σ ∈ t'.reads, σ ∈ (w.txn T).reads ∨ σ = (w.txn T).view w.committed := by
    rintro rfl σ hσ
    rw [ht]
    exact .inl hσ
  cases o with
  | start =>
    refine hstmt h fun t'' hb => ?_
    cases hb
    exact fun σ hσ => .inl hσ
  -- the one operation that adds a snapshot: what the transaction sees now
  | select f =>
    refine hstmt h fun t'' hb => ?_
    split at hb <;> cases hb
    exact fun σ hσ => (List.mem_cons.mp hσ).symm
  | row k skip f =>
    refine hstmt h fun t'' hb => ?_
    split at hb
    · cases hb
    simp only [Txn.access] at hb
    split at hb
    · split at hb <;> cases hb
      exact fun σ hσ => .inl hσ
    · split at hb <;> cases hb <;> exact fun σ hσ => .inl hσ
  | savepoint =>
    refine hstmt h fun t'' hb => ?_
    split at hb <;> cases hb
    exact fun σ hσ => .inl hσ
  | releaseSavepoint =>
    refine hstmt h fun t'' hb => ?_
    split at hb <;> cases hb
    exact fun σ hσ => .inl hσ
  | rollbackToSavepoint =>
    refine hstmt h fun t'' hb => ?_
    split at hb <;> cases hb
    exact fun σ hσ => .inl hσ
  | commit =>
    cases c <;> simp only [Op.exec, Option.some.injEq, Prod.mk.injEq, reduceCtorEq] at h <;>
      obtain ⟨-, -, rfl⟩ := h <;> cases ht
  | rollback =>
    cases c <;> simp only [Op.exec, Option.some.injEq, Prod.mk.injEq, reduceCtorEq] at h <;>
      obtain ⟨-, -, rfl⟩ := h <;> cases ht
  | call x =>
    cases c <;> simp only [Op.exec, Option.some.injEq, Prod.mk.injEq, reduceCtorEq] at h
    exact hsame h.2.2.symm
  | inTransaction =>
    simp only [Op.exec, Option.some.injEq, Prod.mk.injEq] at h
    exact hsame h.2.2.symm
  | emit m =>
    simp only [Op.exec, Option.some.injEq, Prod.mk.injEq] at h
    exact hsame h.2.2.symm

namespace Triple

/-- A program whose row operations follow `Φ` has commits whose snapshots are related to the store that
they are committed on. -/
theorem readsRelate (hrefl : ∀ now k v, Φ now k v v)
    (htrans : ∀ now k v v' v'', Φ now k v v' → Φ now k v' v'' → Φ now k v v'')
    (hothers : ∀ w w', S.rely i l w w' → ∀ σ, Ψ σ w.committed → Ψ σ w'.committed)
    (hview : ∀ now s s', (∀ k, Φ now k (s.lookup k) (s'.lookup k)) → Ψ s' s)
    (hlog : S.Logs i l) (hcommit : S.Commits i l fun w t => ∀ σ ∈ t.reads, Ψ σ w.committed)
    {x : Client V Y E M α} (hx : x.Uses (Op.RowsSat Φ)) :
    Triple S i l (fun w T => Follows Φ w T ∧ ReadsRelate Ψ w T) x (fun _ _ _ => True)
      (fun _ _ _ => True) := by
  have hprog : ∀ {γ : Type} (p : Prog V Y E M γ), p.Uses (Op.RowsSat Φ) → ∀ w T,
      Follows Φ w T → ReadsRelate Ψ w T → wp S i l (fun _ _ _ => True) p w T := by
    intro γ p
    induction p with
    | ret a => exact fun _ _ _ _ _ => trivial
    | op o next ih =>
      intro hp w T hfol hreads w' henv locked c r w'' T'' hturn hexec hknown
      have hfol' := Follows.stable Φ w w' T henv hfol
      have hreads' : ReadsRelate Ψ w' T := fun t ht σ hσ =>
        hothers w w' henv.rely σ (hreads t ht σ hσ)
      refine ⟨?_, ih r (hp.2 r) w'' T'' (hfol'.exec hrefl htrans hp.1 hexec) ?_⟩
      · obtain h | ⟨t, rfl, habort, rfl, -⟩ | ⟨ev, hev, rfl⟩ := exec_world hexec
        · exact .inl h
        · exact .inr (hcommit w' t henv.facts (hturn.opened t rfl) habort hknown (hreads' t rfl))
        · exact .inr (hlog w' ev hev henv.facts)
      · rintro t' rfl σ hσ
        -- a transaction that stays open has not changed the committed store
        have hsame : w''.committed = w'.committed := by
          obtain rfl | ⟨t, -, -, -, h⟩ | ⟨ev, -, rfl⟩ := exec_world hexec
          · rfl
          · cases h
          · rfl
        rw [hsame]
        obtain hσ | rfl := exec_reads hexec rfl σ hσ
        · cases T with
          | none => exact (List.not_mem_nil hσ).elim
          | some t => exact hreads' t rfl σ hσ
        · exact hview _ _ _ (hfol'.view hrefl)
  refine ⟨fun w T h => wp_mono ?_ x.run w T (hprog x.run hx w T h.1 h.2)⟩
  rintro (e | a) _ _ _ <;> trivial

end Triple

end ReadCommitted
