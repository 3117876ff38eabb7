import Matchmaking.ReadCommitted.Footprint
import Matchmaking.ReadCommitted.Soundness
import Mathlib.Logic.Relation

/-!
# Lock order

Rows of some tables are ranked. Where every program waits for ranked rows in ascending order, no set of
sessions can wait for one another in a circle (`acyclic`). The order is checked on the program alone:
its `level` bounds the ranks of the rows it may hold, and a row operation that can wait needs a rank
above the level. Rows of rank `0` are outside of the order.
-/

namespace ReadCommitted

variable {K X : Type} {V : K → Type} {Y : X → Type} {E M R L α β : Type} {rank : K → ℕ}

/-! ## Programs that lock in order -/

/-- The level after an operation, where `n` is the level before it. -/
def Op.level (rank : K → ℕ) (n : ℕ) : {β : Type} → Op V Y E M β → ℕ
  | _, .row k _ _ => max n (rank k)
  | _, .commit | _, .rollback => 0
  | _, _ => n

/-- The row that the operation locks, waiting if it must. With `skipLocked` it never waits, and other
operations lock nothing. -/
def Op.awaited : {β : Type} → Op V Y E M β → Option K
  | _, .row k false _ => some k
  | _, _ => none

/-- The operation waits for no ranked row, or for one above the level. -/
def Op.InOrder (rank : K → ℕ) (n : ℕ) {β : Type} (o : Op V Y E M β) : Prop :=
  ∀ k, o.awaited = some k → 0 < rank k → n < rank k

/-- The row whose lock a program asks for next, if the next operation is one that waits for a lock. -/
def Prog.awaited : Prog V Y E M α → Option K
  | .ret _ => none
  | .op o _ => o.awaited

/-- The program locks in order from level `n` on, whatever the replies are, and ends at a level that
suits its result. -/
def Prog.Ordered (rank : K → ℕ) (Q : α → ℕ → Prop) : Prog V Y E M α → ℕ → Prop
  | .ret a, n => Q a n
  | .op o next, n => o.InOrder rank n ∧ ∀ r, (next r).Ordered rank Q (o.level rank n)

/-- From a higher level an operation cannot lead to a lower one. -/
theorem Op.level_mono {n n' : ℕ} (h : n' ≤ n) (o : Op V Y E M β) :
    o.level rank n' ≤ o.level rank n := by
  cases o with
  | row k skip f =>
    show max n' (rank k) ≤ max n (rank k)
    omega
  | commit | rollback => exact Nat.le_refl 0
  | _ => exact h

/-- An operation that asks only for locks above a level does so for each lower level too. -/
theorem Op.InOrder.anti {n n' : ℕ} (h : n' ≤ n) {o : Op V Y E M β} (ho : o.InOrder rank n) :
    o.InOrder rank n' := fun k hk hrank => Nat.lt_of_le_of_lt h (ho k hk hrank)

/-- A program that holds less may do the same. -/
theorem Prog.Ordered.mono {Q Q' : α → ℕ → Prop} (hQ : ∀ a n n', n' ≤ n → Q a n → Q' a n')
    {p : Prog V Y E M α} {n n' : ℕ} (h : n' ≤ n) (hp : p.Ordered rank Q n) :
    p.Ordered rank Q' n' := by
  induction p generalizing n n' with
  | ret a => exact hQ a n n' h hp
  | op o next ih => exact ⟨hp.1.anti h, fun r => ih r (o.level_mono h) (hp.2 r)⟩

/-- The rest of a program starts at the level that its first part has reached. -/
theorem Prog.Ordered.bind {Q : β → ℕ → Prop} {p : Prog V Y E M α} {f : α → Prog V Y E M β} {n : ℕ}
    (hp : p.Ordered rank (fun a k => (f a).Ordered rank Q k) n) : (p.bind f).Ordered rank Q n := by
  induction p generalizing n with
  | ret a => exact hp
  | op o next ih => exact ⟨hp.1, fun r => ih r (hp.2 r)⟩

/-- A ranked row that is waited for stands above all ranked rows held so far; this is what excludes a
cycle. -/
theorem Prog.Ordered.awaited_lt {Q : α → ℕ → Prop} {p : Prog V Y E M α} {n : ℕ}
    (h : p.Ordered rank Q n) {k : K} (hk : p.awaited = some k) (hrank : 0 < rank k) : n < rank k := by
  cases p with
  | ret a => cases hk
  | op o next => exact h.1 k hk hrank

/-- The level a client may end at: `m` with a result, `m'` with an exception. -/
def Ends (m m' : ℕ) : Except E α → ℕ → Prop
  | .ok _, n => n ≤ m
  | .error _, n => n ≤ m'

/-- From level `n`, the client locks in order; it ends at `m` or, with an exception, at `m'`. -/
structure Ordered (rank : K → ℕ) (n : ℕ) (x : Client V Y E M α) (m m' : ℕ) : Prop where
  sound : Prog.Ordered rank (Ends m m') x.run n

namespace Ordered

variable {n n' m m' k k' : ℕ}

/-- A program may start lower and be said to end higher. -/
theorem conseq {x : Client V Y E M α} (h : Ordered rank n x m m') (hn : n' ≤ n) (hm : m ≤ k)
    (hm' : m' ≤ k') : Ordered rank n' x k k' := by
  refine ⟨h.sound.mono ?_ hn⟩
  rintro (e | a) j j' hj hends
  · exact Nat.le_trans hj (Nat.le_trans hends hm')
  · exact Nat.le_trans hj (Nat.le_trans hends hm)

protected theorem pure (a : α) (h : n ≤ m) : Ordered rank n (pure a : Client V Y E M α) m m' := ⟨h⟩

protected theorem throw (e : E) (h : n ≤ m') : Ordered rank n (throw e : Client V Y E M α) m m' :=
  ⟨h⟩

/-- Sequencing adds up the levels, and an exception may leave from any point of the first part. -/
protected theorem bind {x : Client V Y E M α} {f : α → Client V Y E M β} (hx : Ordered rank n x m m')
    (hf : ∀ a, Ordered rank m (f a) k m') : Ordered rank n (x >>= f) k m' := by
  refine ⟨Prog.Ordered.bind (hx.sound.mono ?_ (Nat.le_refl n))⟩
  rintro (e | a) j j' hj hends
  · exact Nat.le_trans hj hends
  · exact (hf a).sound.mono (fun r _ _ h hr => by cases r <;> exact Nat.le_trans h hr)
      (Nat.le_trans hj hends)

/-- A handler takes over at the level where the body may have raised. -/
protected theorem tryCatch {x : Client V Y E M α} {handle : E → Client V Y E M α}
    (hx : Ordered rank n x m m') (hh : ∀ e, Ordered rank m' (handle e) m k') :
    Ordered rank n (tryCatch x handle) m k' := by
  refine ⟨Prog.Ordered.bind (hx.sound.mono ?_ (Nat.le_refl n))⟩
  rintro (e | a) j j' hj hends
  · exact (hh e).sound.mono (fun r _ _ h hr => by cases r <;> exact Nat.le_trans h hr)
      (Nat.le_trans hj hends)
  · exact Nat.le_trans hj hends

/-- Both branches have to reach the levels that are claimed for the whole. -/
protected theorem ite {c : Prop} [Decidable c] {x y : Client V Y E M α}
    (hx : c → Ordered rank n x m m') (hy : ¬ c → Ordered rank n y m m') :
    Ordered rank n (if c then x else y) m m' := by
  split
  · exact hx ‹_›
  · exact hy ‹_›

/-- A single operation asks for its lock in order, and ends at the level of the row it locks. -/
theorem perform {o : Op V Y E M α} (ho : o.InOrder rank n) (hm : o.level rank n ≤ m)
    (hm' : o.level rank n ≤ m') : Ordered rank n (perform o) m m' := by
  refine ⟨ho, ?_⟩
  rintro (e | a)
  · exact hm'
  · exact hm

/-- A row operation that waits for a row above the level. -/
theorem row {i : K} {f : Time → Option (V i) → RowAction (V i) E} (h : n < rank i) (hm : rank i ≤ m)
    (hm' : rank i ≤ m') : Ordered rank n (ReadCommitted.perform (.row i false f : Op V Y E M _)) m m' :=
  perform (fun k hk _ => by cases hk; exact h) (max_le (Nat.le_of_lt (Nat.lt_of_lt_of_le h hm)) hm)
    (max_le (Nat.le_of_lt (Nat.lt_of_lt_of_le h hm')) hm')

/-- The end of a transaction drops all locks. -/
protected theorem commit : Ordered rank n (ReadCommitted.perform .commit : Client V Y E M Unit) m m' :=
  perform (fun _ hk => by cases hk) (Nat.zero_le m) (Nat.zero_le m')

/-- After a ROLLBACK no lock is held, so any level may be claimed. -/
protected theorem rollback :
    Ordered rank n (ReadCommitted.perform .rollback : Client V Y E M Unit) m m' :=
  perform (fun _ hk => by cases hk) (Nat.zero_le m) (Nat.zero_le m')

/-- A row operation that passes over locked rows. -/
theorem skip {i : K} {f : Time → Option (V i) → RowAction (V i) E} (hn : n ≤ m) (hm : rank i ≤ m)
    (hm' : m ≤ m') : Ordered rank n (ReadCommitted.perform (.row i true f : Op V Y E M _)) m m' :=
  perform (fun k hk _ => by cases hk) (max_le hn hm) (Nat.le_trans (max_le hn hm) hm')

/-- What works on unranked rows may be done at any level. -/
theorem composes {ends : Prop} {marks : M → Prop} : Composes (Op.Within (fun k => rank k = 0) ends marks)
    (fun {α : Type} (x : Client V Y E M α) => Ordered rank n x n n) where
  pure a := .pure a (Nat.le_refl n)
  throw e := .throw e (Nat.le_refl n)
  bind hx hf := .bind hx hf
  tryCatch hx hh := .tryCatch hx hh
  perform {β o} ho := by
    have hlevel : o.level rank n ≤ n := by
      cases o with
      | row k skip f =>
        have hk : rank k = 0 := ho
        simp [Op.level, hk]
      | commit | rollback => exact Nat.zero_le n
      | _ => exact Nat.le_refl n
    refine perform (fun k hk hrank => ?_) hlevel hlevel
    cases o with
    | row k' skip f =>
      cases skip <;> cases hk
      exact absurd ho (Nat.ne_of_gt hrank)
    | _ => cases hk

end Ordered

/-! ## Waiting -/

variable [DecidableEq K]

/-- The ranks of the rows a transaction holds are at most `n`. -/
def AtLevel (rank : K → ℕ) (n : ℕ) (T : Option (Txn V)) : Prop :=
  ∀ k, holding T k = true → rank k ≤ n

/-- An operation that the system executes leaves its session at the level its rank says. -/
theorem AtLevel.exec {n i : ℕ} {l : L} {locked : K → Bool} {c : Choice Y E} {o : Op V Y E M β}
    {w w' : World V Y E M R L} {T T' : Option (Txn V)} {r : Except E β} (h : AtLevel rank n T)
    (hexec : o.exec i l locked c w T = some (r, w', T')) : AtLevel rank (o.level rank n) T' := by
  intro k hk
  have hcases := exec_holding hexec hk
  cases o with
  | row k' skip f =>
    obtain hk | ⟨hk, -⟩ := hcases
    · exact Nat.le_trans (h k hk) (Nat.le_max_left ..)
    · rw [show k = k' from hk]
      exact Nat.le_max_right ..
  | commit | rollback =>
    cases c <;> simp only [Op.exec, Option.some.injEq, Prod.mk.injEq, reduceCtorEq] at hexec <;>
      obtain ⟨-, -, rfl⟩ := hexec <;> cases hk
  | _ =>
    obtain hk | ⟨hk, -⟩ := hcases
    · exact h k hk
    · exact hk.elim

namespace State

/-- The row that session `i` is about to lock, waiting if it must. -/
def awaited (s : State V Y E M R L) (i : ℕ) : Option K :=
  (s.session i).bind fun x => x.prog.awaited

/-- The wait-for graph of the rows `A`: session `i` is about to lock a row that `j` holds. -/
def WaitsFor (A : K → Prop) (s : State V Y E M R L) (i j : ℕ) : Prop :=
  i ≠ j ∧ ∃ k, A k ∧ s.awaited i = some k ∧ ∃ y, s.session j = some y ∧ holding y.txn k = true

/-- Every session locks in order from now on, beginning with the locks that it holds already. -/
def LocksInOrder (rank : K → ℕ) (s : State V Y E M R L) : Prop :=
  ∀ i x, s.session i = some x → ∃ n, AtLevel rank n x.txn ∧
    x.prog.Ordered rank (fun _ _ => True) n

variable {s s' : State V Y E M R L}

/-- Every step of the system keeps every session in order: its own by its program, the others because their
locks are untouched. -/
theorem LocksInOrder.step {sys : System V Y E M R L}
    (hprog : ∀ l, ∃ m m', Ordered rank 0 (sys.program l) m m') (h : s.LocksInOrder rank)
    (hstep : sys.Step s s') : s'.LocksInOrder rank := by
  obtain ⟨a, ha⟩ := hstep
  intro i x hx
  cases a with
  | start l =>
    simp only [System.exec] at ha
    split at ha <;> cases ha
    obtain ⟨-, hx⟩ | ⟨-, rfl⟩ := s.session_append_cases hx
    · exact h i x hx
    · obtain ⟨m, m', hl⟩ := hprog l
      exact ⟨0, fun _ hk => (by cases hk), hl.sound.mono (fun _ _ _ _ _ => trivial) (Nat.le_refl 0)⟩
  -- the session's own locks follow its program
  | exec j c =>
    simp only [System.exec] at ha
    split at ha
    · next l born β o next T hj =>
      obtain ⟨⟨r, w, T'⟩, hop, rfl⟩ := Option.map_eq_some_iff.mp ha
      by_cases hij : j = i
      · subst hij
        rw [session_update_self _ (s.lt_length_of_session hj)] at hx
        cases hx
        obtain ⟨n, hlevel, -, hnext⟩ := h j _ hj
        exact ⟨_, hlevel.exec hop, hnext r⟩
      · rw [session_update_ne _ hij] at hx
        exact h i x hx
    · cases ha
  | finish j =>
    simp only [System.exec] at ha
    split at ha
    · next hj =>
      cases ha
      by_cases hij : j = i
      · subst hij
        rw [session_update_self _ (s.lt_length_of_session hj)] at hx
        cases hx
      · rw [session_update_ne _ hij] at hx
        exact h i x hx
    · cases ha
  | crash j =>
    obtain ⟨y, hj, rfl⟩ := Option.map_eq_some_iff.mp ha
    by_cases hij : j = i
    · subst hij
      rw [session_update_self _ (s.lt_length_of_session hj)] at hx
      cases hx
    · rw [session_update_ne _ hij] at hx
      exact h i x hx
  | tick d =>
    cases ha
    exact h i x hx

/-- What a session holds ranks below the row it awaits. -/
theorem LocksInOrder.rank_lt (h : s.LocksInOrder rank) {i : ℕ} {k k' : K}
    {x : Session V Y E M R L} (hk : s.awaited i = some k) (hrank : 0 < rank k)
    (hx : s.session i = some x) (hk' : holding x.txn k' = true) : rank k' < rank k := by
  obtain ⟨n, hlevel, hprog⟩ := h i x hx
  unfold awaited at hk
  rw [hx] at hk
  exact Nat.lt_of_le_of_lt (hlevel k' hk') (hprog.awaited_lt hk hrank)

/-- Along a path of the wait-for graph, the rows awaited ascend: its last session holds a row whose
rank is at least that of the row its first session awaits. -/
theorem LocksInOrder.path (h : s.LocksInOrder rank) {i j : ℕ}
    (hpath : Relation.TransGen (s.WaitsFor fun k => 0 < rank k) i j) :
    ∃ k k' y, s.awaited i = some k ∧ 0 < rank k ∧ s.session j = some y ∧ holding y.txn k' = true ∧
      rank k ≤ rank k' := by
  induction hpath with
  | single hwait =>
    obtain ⟨-, k, hrank, hk, y, hy, hheld⟩ := hwait
    exact ⟨k, k, y, hk, hrank, hy, hheld, Nat.le_refl _⟩
  | tail _ hwait ih =>
    obtain ⟨k, k', x, hk, hrank, hx, hk', hle⟩ := ih
    obtain ⟨-, k'', hrank'', hk'', y, hy, hheld⟩ := hwait
    have hlt := h.rank_lt hk'' hrank'' hx hk'
    exact ⟨k, k'', y, hk, hrank, hy, hheld, Nat.le_of_lt (Nat.lt_of_le_of_lt hle hlt)⟩

/-- No session waits for itself through others, since along each edge the rank of the awaited row grows. -/
theorem LocksInOrder.acyclic (h : s.LocksInOrder rank) (i : ℕ) :
    ¬ Relation.TransGen (s.WaitsFor fun k => 0 < rank k) i i := by
  intro hcycle
  obtain ⟨k, k', x, hk, hrank, hx, hk', hle⟩ := h.path hcycle
  exact absurd (h.rank_lt hk hrank hx hk') (Nat.not_lt.mpr hle)

end State

/-- **No deadlock on ranked rows.** If all programs lock in order, the wait-for graph of ranked rows has
no cycle in any reachable state. -/
theorem acyclic {sys : System V Y E M R L} (hprog : ∀ l, ∃ m m', Ordered rank 0 (sys.program l) m m')
    {A : K → Prop} (hA : ∀ k, A k → 0 < rank k) {s₀ : Store V} {c₀ : Time} {s : State V Y E M R L}
    (hs : sys.Reachable (.initial s₀ c₀) s) (i : ℕ) : ¬ Relation.TransGen (s.WaitsFor A) i i := by
  have horder : s.LocksInOrder rank := by
    induction hs with
    | refl => exact fun j x hx => by simp [State.session, State.initial] at hx
    | step _ hstep ih => exact ih.step hprog hstep
  intro hcycle
  refine horder.acyclic i (Relation.TransGen.mono (fun j j' hwait => ?_) i i hcycle)
  obtain ⟨hne, k, hk, hrest⟩ := hwait
  exact ⟨hne, k, hA k hk, hrest⟩

end ReadCommitted
