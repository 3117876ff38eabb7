import Matchmaking.ReadCommitted.System

/-!
# Rely-guarantee reasoning about sessions

A `Spec` gives the invariant of the shared world, what a session may rely on between two of its own
operations (`rely`), what its own steps guarantee to the others (`guar`), and what it promises with
its answer (`post`). `known` is an invariant that has been established before.

`wp` is the weakest precondition of a program under these: before every operation the others may
move the world along `env`, which leaves the rows alone that the session holds locked. `Spec.sound`
is the only induction over runs: if every program satisfies its `wp` from every world with the
invariant, then the invariant holds in every reachable state.
-/

namespace ReadCommitted

variable {K X : Type} {V : K → Type} {Y : X → Type} {E M R L : Type}

/-- What the sessions of a system promise each other. Each keeps the invariant and its guarantee with every
step, and may rely on what the others' guarantees imply; what is known of the world may be used by all, and is
shown separately. -/
structure Spec (V : K → Type) (Y : X → Type) (E M R L : Type) where
  inv : World V Y E M R L → Prop
  known : World V Y E M R L → Prop
  rely : ℕ → L → World V Y E M R L → World V Y E M R L → Prop
  guar : ℕ → L → World V Y E M R L → World V Y E M R L → Prop
  post : ℕ → L → Store V → Except E R → World V Y E M R L → Prop

/-- The facts about the present world that a proof may use. -/
def Spec.facts (S : Spec V Y E M R L) (w : World V Y E M R L) : Prop := S.inv w ∧ S.known w

variable [DecidableEq K]

/-- What can happen to the world of a session between two of its operations. -/
structure Spec.env (S : Spec V Y E M R L) (i : ℕ) (l : L) (T : Option (Txn V))
    (w w' : World V Y E M R L) : Prop where
  rely : S.rely i l w w'
  facts : S.facts w'
  clock : w.clock ≤ w'.clock
  kept : ∀ k, holding T k = true → w'.committed.lookup k = w.committed.lookup k

/-- The laws that connect the parts of a specification: reliances can be iterated, guarantees of other
sessions imply them, and time, beginnings and answers break nothing. -/
structure Spec.Lawful (sys : System V Y E M R L) (S : Spec V Y E M R L) : Prop where
  exclusive_symm : ∀ l l', sys.exclusive l l' = sys.exclusive l' l
  rely_refl : ∀ i l w, S.rely i l w w
  rely_trans : ∀ i l w w' w'', S.rely i l w w' → S.rely i l w' w'' → S.rely i l w w''
  guar_rely : ∀ i j l l' w w', i ≠ j → sys.exclusive l l' = false → S.facts w → S.guar j l' w w' →
    S.rely i l w w'
  post_stable : ∀ i l born r w w', S.rely i l w w' → S.facts w' → S.post i l born r w →
    S.post i l born r w'
  tick : ∀ w d, 0 ≤ d → S.inv w → S.inv { w with clock := w.clock + d } ∧
    ∀ i l, S.rely i l w { w with clock := w.clock + d }
  begun : ∀ i l w, S.inv w → S.guar i l w (w.push i l .begun) ∧ S.inv (w.push i l .begun)
  answer : ∀ i l born r w, S.inv w → S.post i l born r w →
    S.guar i l w (w.push i l (.answer born r)) ∧ S.inv (w.push i l (.answer born r))

/-- The situation in which session `i` gets to carry out its next operation. -/
structure Turn (T : Option (Txn V)) (locked : K → Bool) (w : World V Y E M R L) : Prop where
  /-- Nobody else holds the rows that the session holds. -/
  apart : ∀ k, holding T k = true → locked k = false
  /-- Its transaction was opened in the past. -/
  opened : ∀ t, T = some t → t.start ≤ w.clock

section Weakest

variable (S : Spec V Y E M R L) (i : ℕ) (l : L) {α β : Type}

/-- A condition on the world and on the session's own transaction. -/
abbrev Assertion (V : K → Type) (Y : X → Type) (E M R L : Type) :=
  World V Y E M R L → Option (Txn V) → Prop

/-- Every operation that `p` gets to keeps the guarantee and the invariant, and its result
satisfies `Q`, whatever the other sessions and the surroundings do. -/
def wp (Q : α → Assertion V Y E M R L) : Prog V Y E M α → Assertion V Y E M R L
  | .ret a => Q a
  | .op o next => fun w T => ∀ w', S.env i l T w w' → ∀ locked c r w'' T'', Turn T locked w' →
      o.exec i l locked c w' T = some (r, w'', T'') → S.known w'' →
        (w'' = w' ∨ S.guar i l w' w'' ∧ S.inv w'') ∧ wp Q (next r) w'' T''

variable {S i l}

/-- A weaker postcondition is reached under the same conditions at least. -/
theorem wp_mono {Q Q' : α → Assertion V Y E M R L} (h : ∀ a w T, Q a w T → Q' a w T)
    (p : Prog V Y E M α) : ∀ w T, wp S i l Q p w T → wp S i l Q' p w T := by
  induction p with
  | ret a => exact h a
  | op o next ih =>
    intro w T hwp w' henv locked c r w'' T'' hturn hexec hknown
    obtain ⟨hguar, hnext⟩ := hwp w' henv locked c r w'' T'' hturn hexec hknown
    exact ⟨hguar, ih r w'' T'' hnext⟩

/-- The condition of a sequence is that of its first part, for the condition of the second. -/
theorem wp_bind {Q : β → Assertion V Y E M R L} (p : Prog V Y E M α) (f : α → Prog V Y E M β) :
    ∀ w T, wp S i l (fun a => wp S i l Q (f a)) p w T → wp S i l Q (p.bind f) w T := by
  induction p with
  | ret a => exact fun w T h => h
  | op o next ih =>
    intro w T hwp w' henv locked c r w'' T'' hturn hexec hknown
    obtain ⟨hguar, hnext⟩ := hwp w' henv locked c r w'' T'' hturn hexec hknown
    exact ⟨hguar, ih r w'' T'' hnext⟩

/-- Two things that hold after a program hold together. -/
theorem wp_and {Q Q' : α → Assertion V Y E M R L} (p : Prog V Y E M α) : ∀ w T,
    wp S i l Q p w T → wp S i l Q' p w T → wp S i l (fun a w T => Q a w T ∧ Q' a w T) p w T := by
  induction p with
  | ret a => exact fun w T h h' => ⟨h, h'⟩
  | op o next ih =>
    intro w T h h' w' henv locked c r w'' T'' hturn hexec hknown
    obtain ⟨hguar, hnext⟩ := h w' henv locked c r w'' T'' hturn hexec hknown
    exact ⟨hguar, ih r w'' T'' hnext (h' w' henv locked c r w'' T'' hturn hexec hknown).2⟩

theorem Spec.env.refl {sys : System V Y E M R L} (hS : S.Lawful sys) {T : Option (Txn V)}
    {w : World V Y E M R L} (h : S.facts w) : S.env i l T w w where
  rely := hS.rely_refl i l w
  facts := h
  clock := Int.le_refl _
  kept _ _ := rfl

theorem Spec.env.trans {sys : System V Y E M R L} (hS : S.Lawful sys) {T : Option (Txn V)}
    {w w' w'' : World V Y E M R L} (h : S.env i l T w w') (h' : S.env i l T w' w'') :
    S.env i l T w w'' where
  rely := hS.rely_trans i l w w' w'' h.rely h'.rely
  facts := h'.facts
  clock := Int.le_trans h.clock h'.clock
  kept k hk := (h'.kept k hk).trans (h.kept k hk)

/-- The others' steps do not invalidate a weakest precondition. -/
theorem wp_env {sys : System V Y E M R L} (hS : S.Lawful sys) {Q : α → Assertion V Y E M R L}
    (hQ : ∀ a w w' T, S.env i l T w w' → Q a w T → Q a w' T) (p : Prog V Y E M α)
    {T : Option (Txn V)} {w w' : World V Y E M R L} (henv : S.env i l T w w')
    (h : wp S i l Q p w T) : wp S i l Q p w' T := by
  cases p with
  | ret a => exact hQ a w w' T henv h
  | op o next => exact fun w'' henv' => h w'' (henv.trans hS henv')

end Weakest

/-! ## What one operation can do to locks and rows -/

/-- The operation works on row `k`: it asks for the lock, and may change the row. -/
def Op.Accesses (k : K) : {β : Type} → Op V Y E M β → Prop
  | _, .row k' _ _ => k = k'
  | _, _ => False

section Exec

variable {i : ℕ} {l : L} {locked : K → Bool} {c : Choice Y E} {β : Type} {o : Op V Y E M β}
  {w w' : World V Y E M R L} {T T' : Option (Txn V)} {r : Except E β}

omit [DecidableEq K] in
/-- Inversion of `statement`. -/
theorem statement_cases {t : Txn V} {body : Option (Except E β × Txn V)}
    (h : statement c w t body = some (r, w', T')) :
    w' = w ∧ ((c = .proceed ∧ ∃ t', body = some (r, t') ∧ T' = some t') ∨
      ∃ e, c = .fail e ∧ r = .error e ∧ T' = some t.abort) := by
  cases c with
  | proceed =>
    simp only [statement, Option.map_eq_some_iff, Prod.exists, Prod.mk.injEq] at h
    obtain ⟨r', t', hbody, rfl, rfl, rfl⟩ := h
    exact ⟨rfl, .inl ⟨rfl, t', hbody, rfl⟩⟩
  | fail e =>
    simp only [statement, Option.some.injEq, Prod.mk.injEq] at h
    obtain ⟨rfl, rfl, rfl⟩ := h
    exact ⟨rfl, .inr ⟨e, rfl, rfl, rfl⟩⟩
  | ackLost e => simp [statement] at h
  | answer y => simp [statement] at h

/-- A transaction that writes a row locks it. -/
theorem holds_write (t : Txn V) (k k' : K) (o : Option (V k)) :
    (t.write k o).holds k' = true ↔ k' = k ∨ t.holds k' = true := by
  by_cases h : k' = k
  · subst h
    simp [Txn.holds, Txn.write]
  · simp only [Txn.holds, Txn.write, h, false_or]
    rw [List.dlookup_cons_ne]
    exact h

/-- An access adds at most the accessed row to the locks, and that only if it was free. -/
theorem access_holds {t t' : Txn V} {s : Store V} {k k' : K} {skip : Bool}
    {f : Time → Option (V k) → RowAction (V k) E} {r : Except E (Option (V k))}
    (h : t.access s locked k skip f = some (r, t')) (hk : t'.holds k' = true) :
    t.holds k' = true ∨ k' = k ∧ locked k' = false := by
  unfold Txn.access at h
  split at h
  · split at h
    · simp only [Option.some.injEq, Prod.mk.injEq] at h
      exact .inl (h.2 ▸ hk)
    · cases h
  · next hfree =>
    split at h <;> simp only [Option.some.injEq, Prod.mk.injEq] at h <;> obtain ⟨-, rfl⟩ := h
    · exact .inl hk
    · rcases (holds_write ..).mp hk with rfl | hk
      · exact .inr ⟨rfl, by simpa using hfree⟩
      · exact .inl hk
    · rcases (holds_write ..).mp hk with rfl | hk
      · exact .inr ⟨rfl, by simpa using hfree⟩
      · exact .inl hk
    · exact .inl hk

/-- The locks of an opened transaction are those of the transaction. -/
theorem holding_txn (w : World V Y E M R L) (T : Option (Txn V)) (k : K) :
    (w.txn T).holds k = holding T k := by
  cases T <;> rfl

/-- An operation locks at most the row it works on, and no row that another session holds. -/
theorem exec_holding (h : o.exec i l locked c w T = some (r, w', T')) {k : K}
    (hk : holding T' k = true) : holding T k = true ∨ o.Accesses k ∧ locked k = false := by
  -- a statement that fails aborts the transaction, which keeps its locks and takes none
  have hstmt : ∀ {γ : Type} {r : Except E γ} {body : Option (Except E γ × Txn V)},
      statement c w (w.txn T) body = some (r, w', T') →
      (∀ t', body = some (r, t') → t'.holds k = true →
        (w.txn T).holds k = true ∨ o.Accesses k ∧ locked k = false) →
      holding T k = true ∨ o.Accesses k ∧ locked k = false := by
    intro γ r body hst hbody
    obtain ⟨-, ⟨-, t', hb, rfl⟩ | ⟨e, -, -, rfl⟩⟩ := statement_cases hst
    · rw [← holding_txn w]
      exact hbody t' hb hk
    · rw [← holding_txn w]
      exact .inl hk
  cases o with
  | inTransaction =>
    simp only [Op.exec, Option.some.injEq, Prod.mk.injEq] at h
    exact .inl (h.2.2 ▸ hk)
  | start => exact hstmt h fun t' hb hk' => by simp at hb; exact .inl (hb.2 ▸ hk')
  | select f =>
    refine hstmt h fun t' hb hk' => ?_
    split at hb
    · cases hb
    · simp at hb
      rw [← hb.2] at hk'
      exact .inl hk'
  | row k' skip f =>
    refine hstmt h fun t' hb hk' => ?_
    split at hb
    · cases hb
    · exact access_holds hb hk'
  | savepoint =>
    refine hstmt h fun t' hb hk' => ?_
    split at hb
    · cases hb
    · simp at hb
      refine .inl ?_
      rw [← hb.2] at hk'
      simpa [Txn.holds] using hk'
  | releaseSavepoint =>
    refine hstmt h fun t' hb hk' => ?_
    split at hb
    · cases hb
    · simp at hb
      rw [← hb.2] at hk'
      refine .inl ?_
      simp only [Txn.holds, Bool.or_eq_true, List.any_eq_true] at hk' ⊢
      exact hk'.imp_right fun ⟨ws, hws, hk''⟩ => ⟨ws, List.mem_of_mem_tail hws, hk''⟩
  | rollbackToSavepoint =>
    refine hstmt h fun t' hb hk' => ?_
    split at hb
    · next ws rest hsaved =>
      simp at hb
      rw [← hb.2] at hk'
      refine .inl ?_
      simp only [Txn.holds, hsaved, Bool.or_eq_true, List.any_cons] at hk' ⊢
      exact .inr hk'
    · cases hb
  -- the end of a transaction releases everything
  | commit =>
    cases c <;> simp [Op.exec] at h <;> obtain ⟨-, -, rfl⟩ := h <;> simp [holding] at hk
  | rollback =>
    cases c <;> simp [Op.exec] at h <;> obtain ⟨-, -, rfl⟩ := h <;> simp [holding] at hk
  | call x =>
    cases c <;> simp [Op.exec] at h
    exact .inl (h.2.2 ▸ hk)
  | emit m =>
    simp only [Op.exec, Option.some.injEq, Prod.mk.injEq] at h
    exact .inl (h.2.2 ▸ hk)

/-- A commit leaves alone the rows that its transaction has not locked. -/
theorem lookup_commit (w : World V Y E M R L) (i : ℕ) (l : L) {t : Txn V} {k : K}
    (hk : t.holds k = false) : (w.commit i l t).committed.lookup k = w.committed.lookup k := by
  unfold World.commit
  split
  · rfl
  · simp only [Txn.holds, Bool.or_eq_false_iff, Option.isSome_eq_false_iff,
      Option.isNone_iff_eq_none] at hk
    exact lookup_patch_of_notMem hk.1 w.committed

/-- An operation changes only committed rows that its session holds locked. -/
theorem exec_kept (h : o.exec i l locked c w T = some (r, w', T')) {k : K}
    (hk : holding T k = false) : w'.committed.lookup k = w.committed.lookup k := by
  have hcommit : (T.elim w (w.commit i l)).committed.lookup k = w.committed.lookup k := by
    cases T with
    | none => rfl
    | some t => exact lookup_commit w i l hk
  cases o with
  | commit =>
    cases c <;> simp [Op.exec] at h <;> obtain ⟨-, rfl, -⟩ := h
    · exact hcommit
    · rfl
    · exact hcommit
  | rollback => cases c <;> simp [Op.exec] at h <;> obtain ⟨-, rfl, -⟩ := h <;> rfl
  | call x =>
    cases c <;> simp [Op.exec] at h
    obtain ⟨-, rfl, -⟩ := h
    rfl
  | inTransaction =>
    simp only [Op.exec, Option.some.injEq, Prod.mk.injEq] at h
    rw [h.2.1]
  | emit m =>
    simp only [Op.exec, Option.some.injEq, Prod.mk.injEq] at h
    rw [← h.2.1]
    rfl
  | _ => rw [(statement_cases h).1]

theorem clock_commit (w : World V Y E M R L) (i : ℕ) (l : L) (t : Txn V) :
    (w.commit i l t).clock = w.clock := by
  unfold World.commit
  split <;> rfl

/-- Operations take no time. -/
theorem exec_clock (h : o.exec i l locked c w T = some (r, w', T')) : w'.clock = w.clock := by
  have hcommit : (T.elim w (w.commit i l)).clock = w.clock := by
    cases T with
    | none => rfl
    | some t => exact clock_commit w i l t
  cases o with
  | commit =>
    cases c <;> simp only [Op.exec, Option.some.injEq, Prod.mk.injEq, reduceCtorEq] at h <;>
      obtain ⟨-, rfl, -⟩ := h
    · exact hcommit
    · rfl
    · exact hcommit
  | rollback =>
    cases c <;> simp only [Op.exec, Option.some.injEq, Prod.mk.injEq, reduceCtorEq] at h <;>
      rw [h.2.1]
  | call x =>
    cases c <;> simp only [Op.exec, Option.some.injEq, Prod.mk.injEq, reduceCtorEq] at h
    rw [← h.2.1]
    rfl
  | inTransaction =>
    simp only [Op.exec, Option.some.injEq, Prod.mk.injEq] at h
    rw [h.2.1]
  | emit m =>
    simp only [Op.exec, Option.some.injEq, Prod.mk.injEq] at h
    rw [← h.2.1]
    rfl
  | _ => rw [(statement_cases h).1]

/-- An operation logs entries of its own session only. -/
theorem exec_entries (h : o.exec i l locked c w T = some (r, w', T')) :
    ∃ new, w'.log = new ++ w.log ∧ ∀ e ∈ new, e.session = i := by
  have hsame : w' = w → ∃ new, w'.log = new ++ w.log ∧ ∀ e ∈ new, e.session = i := by
    rintro rfl
    exact ⟨[], rfl, fun _ he => (List.not_mem_nil he).elim⟩
  have hpush : ∀ ev, w' = w.push i l ev → ∃ new, w'.log = new ++ w.log ∧
      ∀ e ∈ new, e.session = i := by
    rintro ev rfl
    exact ⟨[_], rfl, fun _ he => List.mem_singleton.mp he ▸ rfl⟩
  have hcommit : w' = T.elim w (w.commit i l) → ∃ new, w'.log = new ++ w.log ∧
      ∀ e ∈ new, e.session = i := by
    rintro rfl
    cases T with
    | none => exact ⟨[], rfl, fun _ he => (List.not_mem_nil he).elim⟩
    | some t =>
      simp only [Option.elim, World.commit]
      split
      · exact ⟨[], rfl, fun _ he => (List.not_mem_nil he).elim⟩
      · exact ⟨[_], rfl, fun _ he => List.mem_singleton.mp he ▸ rfl⟩
  cases o with
  | commit =>
    cases c <;> simp only [Op.exec, Option.some.injEq, Prod.mk.injEq, reduceCtorEq] at h
    · exact hcommit h.2.1.symm
    · exact hsame h.2.1.symm
    · exact hcommit h.2.1.symm
  | rollback =>
    cases c <;> simp only [Op.exec, Option.some.injEq, Prod.mk.injEq, reduceCtorEq] at h <;>
      exact hsame h.2.1.symm
  | call x =>
    cases c <;> simp only [Op.exec, Option.some.injEq, Prod.mk.injEq, reduceCtorEq] at h
    exact hpush _ h.2.1.symm
  | inTransaction =>
    simp only [Op.exec, Option.some.injEq, Prod.mk.injEq] at h
    exact hsame h.2.1.symm
  | emit m =>
    simp only [Op.exec, Option.some.injEq, Prod.mk.injEq] at h
    exact hpush _ h.2.1.symm
  | _ => exact hsame (statement_cases h).1

/-- A transaction keeps the time at which it started. -/
theorem access_start {t t' : Txn V} {s : Store V} {k : K} {skip : Bool}
    {f : Time → Option (V k) → RowAction (V k) E} {r : Except E (Option (V k))}
    (h : t.access s locked k skip f = some (r, t')) : t'.start = t.start := by
  unfold Txn.access at h
  split at h
  · split at h <;> cases h
    rfl
  · split at h <;> cases h <;> rfl

/-- The transaction after an operation is the one before it, or was opened now. -/
theorem exec_start (h : o.exec i l locked c w T = some (r, w', T')) {t' : Txn V}
    (ht : T' = some t') : t'.start = (w.txn T).start := by
  -- a statement works in the open transaction, also where it fails
  have hstmt : ∀ {γ : Type} {r : Except E γ} {body : Option (Except E γ × Txn V)},
      statement c w (w.txn T) body = some (r, w', T') →
      (∀ t', body = some (r, t') → t'.start = (w.txn T).start) →
      t'.start = (w.txn T).start := by
    intro γ r body hst hbody
    obtain ⟨-, ⟨-, t'', hb, rfl⟩ | ⟨e, -, -, rfl⟩⟩ := statement_cases hst <;> cases ht
    · exact hbody t' hb
    · rfl
  have hsame : T' = T → t'.start = (w.txn T).start := by
    rintro rfl
    simp [World.txn, ht]
  cases o with
  | start => exact hstmt h fun t'' hb => by cases hb; rfl
  | select f =>
    refine hstmt h fun t'' hb => ?_
    split at hb <;> cases hb
    rfl
  | row k skip f =>
    refine hstmt h fun t'' hb => ?_
    split at hb
    · cases hb
    · exact access_start hb
  | savepoint =>
    refine hstmt h fun t'' hb => ?_
    split at hb <;> cases hb
    rfl
  | releaseSavepoint =>
    refine hstmt h fun t'' hb => ?_
    split at hb <;> cases hb
    rfl
  | rollbackToSavepoint =>
    refine hstmt h fun t'' hb => ?_
    split at hb <;> cases hb
    rfl
  | commit =>
    cases c <;> simp only [Op.exec, Option.some.injEq, Prod.mk.injEq, reduceCtorEq] at h <;>
      obtain ⟨-, -, rfl⟩ := h <;> cases ht
  | rollback =>
    cases c <;> simp only [Op.exec, Option.some.injEq, Prod.mk.injEq, reduceCtorEq] at h <;>
      obtain ⟨-, -, rfl⟩ := h <;> cases ht
  | call x =>
    cases c <;> simp only [Op.exec, Option.some.injEq, Prod.mk.injEq, reduceCtorEq] at h
    exact hsame h.2.2.symm
  | inTransaction =>
    simp only [Op.exec, Option.some.injEq, Prod.mk.injEq] at h
    exact hsame h.2.2.symm
  | emit m =>
    simp only [Op.exec, Option.some.injEq, Prod.mk.injEq] at h
    exact hsame h.2.2.symm

end Exec

end ReadCommitted
