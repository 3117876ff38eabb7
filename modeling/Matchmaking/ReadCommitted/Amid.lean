import Matchmaking.ReadCommitted.Alone

/-!
# Programs amid others

Partial correctness of a program while other sessions run that stay away from some rows: they neither
change the rows of `own` nor hold them locked. An assertion about these rows survives whatever the others
do; operations may fail, and a client that does not return promises nothing.
-/

namespace ReadCommitted

variable {K X : Type} [DecidableEq K] {V : K → Type} {Y : X → Type} {E M R L α β : Type}

/-- Time passes, and the rows of `own` stay as they are. -/
structure LeavesRows (own : K → Prop) (w w' : World V Y E M R L) : Prop where
  clock : w.clock ≤ w'.clock
  rows : ∀ k, own k → w'.committed.lookup k = w.committed.lookup k

/-- Session `i` carries out a program; after each of its operations the others may act, but they leave
the rows of `own` alone. -/
inductive Prog.Amid (own : K → Prop) (i : ℕ) (l : L) : Prog V Y E M α → World V Y E M R L →
    Option (Txn V) → α → World V Y E M R L → Option (Txn V) → Prop
  | ret (a : α) (w : World V Y E M R L) (T : Option (Txn V)) : Amid own i l (.ret a) w T a w T
  | op {β : Type} {o : Op V Y E M β} {next : Except E β → Prog V Y E M α} {locked : K → Bool}
      {c : Choice Y E} {r : Except E β} {a : α} {w w₁ w₂ w' : World V Y E M R L}
      {T T₁ T' : Option (Txn V)} (hfree : ∀ k, own k → locked k = false)
      (hexec : o.exec i l locked c w T = some (r, w₁, T₁)) (hothers : LeavesRows own w₁ w₂)
      (h : Amid own i l (next r) w₂ T₁ a w' T') : Amid own i l (.op o next) w T a w' T'

/-- What the client returns satisfies `Q`, in every execution amid others that leave the rows `own` alone. -/
def Client.Yields (own : K → Prop) (i : ℕ) (l : L) (x : Client V Y E M α)
    (Q : α → World V Y E M R L → Option (Txn V) → Prop) (w : World V Y E M R L) (T : Option (Txn V)) :
    Prop :=
  ∀ a w' T', Prog.Amid own i l x.run w T (.ok a) w' T' → Q a w' T'

variable {own : K → Prop} {i : ℕ} {l : L} {w w' w'' : World V Y E M R L} {T T' : Option (Txn V)}

namespace LeavesRows

protected theorem refl (w : World V Y E M R L) : LeavesRows own w w := ⟨Int.le_refl _, fun _ _ => rfl⟩

/-- Over two steps the rows are left alone if they are in both. -/
protected theorem trans (h : LeavesRows own w w') (h' : LeavesRows own w' w'') : LeavesRows own w w'' :=
  ⟨Int.le_trans h.clock h'.clock, fun k hk => (h'.rows k hk).trans (h.rows k hk)⟩

end LeavesRows

namespace Prog.Amid

variable {p : Prog V Y E M α} {a : α}

/-- Time does not go back while a program runs amid others. -/
theorem clock (h : p.Amid own i l w T a w' T') : w.clock ≤ w'.clock := by
  induction h with
  | ret => exact Int.le_refl _
  | op _ hexec hothers _ ih => exact Int.le_trans (Int.le_of_eq (exec_clock hexec).symm) (Int.le_trans hothers.clock ih)

/-- A run of a sequence passes through a world after its first part. -/
theorem of_bind {f : α → Prog V Y E M β} {b : β} (h : (p.bind f).Amid own i l w T b w' T') :
    ∃ a w₁ T₁, p.Amid own i l w T a w₁ T₁ ∧ (f a).Amid own i l w₁ T₁ b w' T' := by
  induction p generalizing w T with
  | ret a => exact ⟨a, w, T, .ret a w T, h⟩
  | op o next ih =>
    cases h with
    | op hfree hexec hothers h =>
      obtain ⟨a, w₁, T₁, hp, hf⟩ := ih _ h
      exact ⟨a, w₁, T₁, .op hfree hexec hothers hp, hf⟩

/-- What a session can carry out alone it can carry out where the others do nothing. -/
theorem of_alone {answer : ℕ → (x : X) → Y x} (h : p.alone answer i l w T = some (a, w', T')) :
    p.Amid own i l w T a w' T' := by
  induction p generalizing w T with
  | ret b =>
    cases h
    exact .ret _ _ _
  | op o next ih =>
    obtain ⟨⟨r, w₁, T₁⟩, hexec, hrest⟩ := Option.bind_eq_some_iff.mp h
    exact .op (fun _ _ => rfl) hexec (.refl w₁) (ih r hrest)

end Prog.Amid

/-- The session sees the rows of `s` among those of `own`, in a transaction with the time stamp `now`. -/
structure SeesOwn (own : K → Prop) (now : Time) (s : Store V) (w : World V Y E M R L)
    (T : Option (Txn V)) : Prop where
  live : (w.txn T).aborted = false
  start : (w.txn T).start = now
  view : ∀ k, own k → ((w.txn T).view w.committed).lookup k = s.lookup k

namespace SeesOwn

variable {now : Time} {s : Store V} {t : Txn V}

/-- A session that is about to open its transaction sees what is committed. -/
theorem committed (w : World V Y E M R L) : SeesOwn own w.clock w.committed w none :=
  ⟨rfl, rfl, fun _ _ => rfl⟩

/-- The others do not change what an open transaction sees. -/
theorem others (hlive : t.aborted = false) (hstart : t.start = now)
    (hview : ∀ k, own k → (t.view w.committed).lookup k = s.lookup k) (h : LeavesRows own w w') :
    SeesOwn own now s w' (some t) := by
  refine ⟨hlive, hstart, fun k hk => ?_⟩
  rw [← hview k hk]
  show (patch t.writes w'.committed).lookup k = (patch t.writes w.committed).lookup k
  rw [lookup_patch, lookup_patch, h.rows k hk]

/-- What is seen of one's own rows depends on these rows only. -/
theorem congr {s' : Store V} (h : SeesOwn own now s w T) (hs : ∀ k, own k → s'.lookup k = s.lookup k) :
    SeesOwn own now s' w T :=
  ⟨h.live, h.start, fun k hk => (h.view k hk).trans (hs k hk).symm⟩

end SeesOwn

namespace Client.Yields

variable {Q : α → World V Y E M R L → Option (Txn V) → Prop} {now : Time} {s : Store V}

/-- A value in the world as it is. -/
protected theorem pure {a : α} (h : Q a w T) : Yields own i l (pure a) Q w T := by
  intro b w' T' hrun
  cases hrun
  exact h

/-- The rule for sequencing, amid others that leave the rows alone. -/
protected theorem bind {x : Client V Y E M α} {f : α → Client V Y E M β}
    {Q : β → World V Y E M R L → Option (Txn V) → Prop}
    (h : Yields own i l x (fun a => Yields own i l (f a) Q) w T) : Yields own i l (x >>= f) Q w T := by
  intro b w' T' hrun
  obtain ⟨r, w₁, T₁, hx, hf⟩ := Prog.Amid.of_bind hrun
  cases r with
  | ok a => exact h a w₁ T₁ hx b w' T' hf
  | error e => cases hf

/-- Less may be asked of the world a run leaves behind. -/
theorem mono {x : Client V Y E M α} {Q' : α → World V Y E M R L → Option (Txn V) → Prop}
    (h : Yields own i l x Q w T) (hQ : ∀ a w T, Q a w T → Q' a w T) : Yields own i l x Q' w T :=
  fun a w' T' hrun => hQ a w' T' (h a w' T' hrun)

/-- The rule all operations share. -/
theorem perform {o : Op V Y E M α} (h : ∀ locked c a w₁ T₁ w₂, (∀ k, own k → locked k = false) →
      o.exec i l locked c w T = some (.ok a, w₁, T₁) → LeavesRows own w₁ w₂ → Q a w₂ T₁) :
    Yields own i l (perform o) Q w T := by
  intro a w' T' hrun
  cases hrun with
  | op hfree hexec hothers hret =>
    cases hret
    exact h _ _ _ _ _ _ hfree hexec hothers

/-- A query replies what the session sees, and it sees the rows of `own` in `s`. -/
theorem select {f : Time → Store V → α} (h : SeesOwn own now s w T)
    (hQ : ∀ v w' T', (∀ k, own k → v.lookup k = s.lookup k) → SeesOwn own now s w' T' → Q (f now v) w' T') :
    Yields own i l (ReadCommitted.perform (.select f)) Q w T := by
  refine .perform fun locked c a w₁ T₁ w₂ _ hexec hothers => ?_
  obtain ⟨rfl, ⟨-, t, hbody, rfl⟩ | ⟨e, -, herror, -⟩⟩ := statement_cases hexec
  · rw [h.live, if_neg Bool.false_ne_true] at hbody
    cases hbody
    rw [h.start]
    exact hQ _ w₂ _ h.view (.others h.live h.start h.view hothers)
  · cases herror

/-- A row of `own` is free, and its newest version is the one of `s`. -/
theorem row {k : K} (hk : own k) {skip : Bool} {f : Time → Option (V k) → RowAction (V k) E}
    {Q : Option (V k) → World V Y E M R L → Option (Txn V) → Prop} (h : SeesOwn own now s w T)
    (hQ : ∀ w' T', match f now (s.lookup k) with
      | .leave => SeesOwn own now s w' T' → Q none w' T'
      | .put v => SeesOwn own now (writeRow ⟨k, some v⟩ s) w' T' → Q (some v) w' T'
      | .delete => SeesOwn own now (writeRow ⟨k, none⟩ s) w' T' → Q none w' T'
      | .raise _ => True) : Yields own i l (ReadCommitted.perform (.row k skip f)) Q w T := by
  refine .perform fun locked c a w₁ T₁ w₂ hfree hexec hothers => ?_
  obtain ⟨rfl, ⟨-, t, hbody, rfl⟩ | ⟨e, -, herror, -⟩⟩ := statement_cases hexec
  · have hwrite : ∀ (o : Option (V k)) k', own k' → (((w₁.txn T).write k o).view w₁.committed).lookup k'
        = (writeRow ⟨k, o⟩ s).lookup k' := fun o k' hk' => by
      show (writeRow ⟨k, o⟩ ((w₁.txn T).view w₁.committed)).lookup k' = _
      by_cases heq : k' = k
      · subst heq
        rw [lookup_writeRow_self, lookup_writeRow_self]
      · rw [lookup_writeRow_ne heq, lookup_writeRow_ne heq, h.view k' hk']
    simp only [h.live, Bool.false_eq_true, if_false, Txn.access, hfree k hk, h.start, h.view k hk] at hbody
    have hq := hQ w₂ (some t)
    cases hf : f now (s.lookup k) with
    | leave =>
      rw [hf] at hq hbody
      cases hbody
      exact hq (.others h.live h.start h.view hothers)
    | put v =>
      rw [hf] at hq hbody
      cases hbody
      exact hq (.others h.live h.start (hwrite _) hothers)
    | delete =>
      rw [hf] at hq hbody
      cases hbody
      exact hq (.others h.live h.start (hwrite _) hothers)
    | raise e =>
      rw [hf] at hbody
      cases hbody
  · cases herror

/-- What the session sees of the rows of `own` is committed. -/
theorem commit {Q : Unit → World V Y E M R L → Option (Txn V) → Prop} (h : SeesOwn own now s w T)
    (hQ : ∀ w', (∀ k, own k → w'.committed.lookup k = s.lookup k) → Q () w' none) :
    Yields own i l (ReadCommitted.perform .commit) Q w T := by
  refine .perform fun locked c a w₁ T₁ w₂ _ hexec hothers => ?_
  cases c with
  | proceed =>
    cases hexec
    refine hQ w₂ fun k hk => (hothers.rows k hk).trans ?_
    rw [← h.view k hk]
    cases T with
    | none => rfl
    | some t =>
      have hlive : t.aborted = false := h.live
      rw [Option.elim_some, World.commit, hlive]
      rfl
  | fail e | ackLost e | answer y => cases hexec

end Client.Yields

end ReadCommitted
