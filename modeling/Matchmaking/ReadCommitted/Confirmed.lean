import Matchmaking.ReadCommitted.Marks
import Matchmaking.ReadCommitted.Trace

/-!
# The commits of a session

Which commits of a session are in the log, how many of them it knows of, and what the tables would be
without them.
-/

namespace ReadCommitted

variable {K X : Type} {V : K → Type} {Y : X → Type} {E M R L α β : Type}

/-! ## Commits in the log -/

/-- The commits of session `i`, newest first, each with its transaction and with the store that it was made
to. -/
def commits (i : ℕ) (log : List (Entry V Y E M R L)) : List (Txn V × Store V) :=
  marks (fun e => e.event.commit?) i log

/-- The store that the commits of the log lead to. Leaving out a session's entries gives the store without
that session. -/
def replay [DecidableEq K] (s₀ : Store V) (log : List (Entry V Y E M R L)) : Store V :=
  log.foldr (fun e s => e.event.commit?.elim s fun c => patch c.1.writes s) s₀

section Replay

variable [DecidableEq K] {s₀ s : Store V} {log : List (Entry V Y E M R L)} {i : ℕ} {A : K → Prop}

/-- A row of a patched store depends on the row before the patch only. -/
theorem lookup_patch_congr {ws : Writes V} {s s' : Store V} {k : K} (h : s'.lookup k = s.lookup k) :
    (patch ws s').lookup k = (patch ws s).lookup k := by
  cases hk : ws.dlookup k with
  | none => rw [lookup_patch_of_notMem hk, lookup_patch_of_notMem hk, h]
  | some v => rw [lookup_patch_of_mem hk, lookup_patch_of_mem hk]

/-- If the commits of a session leave the rows of `A` alone, they are as if the session had never
been. -/
theorem Chained.replay_without (h : Chained s₀ log s)
    (halone : ∀ c ∈ commits i log, ∀ k, A k → (patch c.1.writes c.2).lookup k = c.2.lookup k) (k : K)
    (hk : A k) : s.lookup k = (replay s₀ (log.filter fun e => e.session ≠ i)).lookup k := by
  induction h with
  | nil => rfl
  | @commit e t s log hc _ ih =>
    have hold : ∀ c ∈ commits i log, ∀ k, A k → (patch c.1.writes c.2).lookup k = c.2.lookup k := by
      intro c hmem
      obtain ⟨e', he', hi, hc'⟩ := mem_marks.mp hmem
      exact halone c (mem_marks.mpr ⟨e', List.mem_cons_of_mem _ he', hi, hc'⟩)
    by_cases hi : e.session = i
    · rw [List.filter_cons_of_neg (by simpa using hi), ← ih hold]
      exact halone (t, s) (mem_marks.mpr ⟨e, List.mem_cons_self, hi, hc⟩) k hk
    · rw [List.filter_cons_of_pos (by simpa using hi)]
      show _ = AList.lookup k (e.event.commit?.elim _ fun c => patch c.1.writes _)
      rw [hc]
      exact lookup_patch_congr (ih hold)
  | @other e s log hc _ ih =>
    have hnew : s.lookup k = (replay s₀ (log.filter fun e => e.session ≠ i)).lookup k := by
      refine ih fun c hmem => ?_
      obtain ⟨e', he', hi, hc'⟩ := mem_marks.mp hmem
      exact halone c (mem_marks.mpr ⟨e', List.mem_cons_of_mem _ he', hi, hc'⟩)
    by_cases hi : e.session = i
    · rw [List.filter_cons_of_neg (by simpa using hi), hnew]
    · rw [List.filter_cons_of_pos (by simpa using hi)]
      show _ = AList.lookup k (e.event.commit?.elim _ fun c => patch c.1.writes _)
      rw [hc]
      exact hnew

/-- A row that no other session changes, as long as it is as it was at first, is so until the session
commits. -/
theorem Chained.row_by_session {k : K} (h : Chained s₀ log s)
    (hothers : ∀ e ∈ log, e.session ≠ i → ∀ t b, e.event.commit? = some (t, b) →
      b.lookup k = s₀.lookup k → (patch t.writes b).lookup k = b.lookup k) :
    (commits i log = [] → s.lookup k = s₀.lookup k) ∧
      ∀ cs c, commits i log = cs ++ [c] → c.2.lookup k = s₀.lookup k := by
  induction h with
  | nil => exact ⟨fun _ => rfl, fun cs c hc => by cases cs <;> cases hc⟩
  | @commit e t s log hc _ ih =>
    obtain ⟨hnone, hfirst⟩ := ih fun e' he' => hothers e' (List.mem_cons_of_mem _ he')
    by_cases hi : e.session = i
    · have hcommits : commits i (e :: log) = (t, s) :: commits i log := marks_cons_some hi hc
      rw [hcommits]
      refine ⟨fun h => (by cases h), fun cs c h => ?_⟩
      cases cs with
      | nil =>
        obtain ⟨rfl, hrest⟩ := List.cons.inj h
        exact hnone hrest
      | cons c' cs => exact hfirst cs c (List.cons.inj h).2
    · have hcommits : commits i (e :: log) = commits i log := marks_cons_other hi
      rw [hcommits]
      refine ⟨fun h => ?_, hfirst⟩
      rw [hothers e List.mem_cons_self hi t s hc (hnone h), hnone h]
  | @other e s log hc _ ih =>
    have hcommits : commits i (e :: log) = commits i log := marks_cons_none hc
    rw [hcommits]
    exact ih fun e' he' => hothers e' (List.mem_cons_of_mem _ he')

end Replay

/-! ## Commits that are confirmed -/

/-- A COMMIT that has returned, so that the client knows that it has taken effect. -/
def Exchange.confirms : Exchange V Y E M → Bool
  | ⟨.commit, .ok _⟩ => true
  | _ => false

/-- The number of COMMITs that have returned. There may be more commits than that in the log, if an
acknowledgement was lost. -/
def confirmed (τ : Trace V Y E M) : ℕ := τ.countP Exchange.confirms

/-- The session knows of all its commits: COMMITs that have raised were rolled back. -/
def RolledBack (i : ℕ) (log : List (Entry V Y E M R L)) (τ : Trace V Y E M) : Prop :=
  (commits i log).length ≤ confirmed τ

/-- The confirmed COMMITs of a run are those of its parts. -/
theorem confirmed_append (τ τ' : Trace V Y E M) : confirmed (τ ++ τ') = confirmed τ + confirmed τ' :=
  List.countP_append

/-- At most `n` COMMITs return while the program runs, if it ends with `p`. -/
def Client.Confirms (p : Except E α → Prop) (n : ℕ) (x : Client V Y E M α) : Prop :=
  ∀ τ r, x.Runs τ r → p r → confirmed τ ≤ n

/-- The program returns nothing else, in any of its runs; nothing is said about how it raises. -/
def Client.Returns (P : α → Prop) (x : Client V Y E M α) : Prop := ∀ τ a, x.Runs τ (.ok a) → P a

/-- The program ends with an exception, and not with a value. -/
def IsError : Except E α → Prop
  | .error _ => True
  | .ok _ => False

namespace Client.Confirms

variable {p : Except E α → Prop} {q : Except E β → Prop} {n m : ℕ} {x : Client V Y E M α}

theorem mono (h : x.Confirms p n) (hle : n ≤ m) : x.Confirms p m := fun τ r hx hp =>
  le_trans (h τ r hx hp) hle

theorem pure {a : α} : (pure a : Client V Y E M α).Confirms p 0 := fun τ r h _ => by
  obtain ⟨rfl, -⟩ := Client.Runs.of_pure h
  exact le_refl 0

theorem throw {e : E} : (throw e : Client V Y E M α).Confirms p 0 := fun τ r h _ => by
  obtain ⟨rfl, -⟩ := Client.Runs.of_throw h
  exact le_refl 0

/-- Nothing is said about how the first part ends. -/
theorem bind {f : α → Client V Y E M β} (hx : x.Confirms (fun _ => True) n)
    (hf : ∀ a, (f a).Confirms q m) : (x >>= f).Confirms q (n + m) := fun τ r h hq => by
  obtain ⟨e, -, h⟩ | ⟨a, τ₁, τ₂, rfl, h₁, h₂⟩ := Client.Runs.of_bind h
  · exact le_trans (hx τ _ h trivial) (Nat.le_add_right n m)
  · rw [confirmed_append]
    exact Nat.add_le_add (hx _ _ h₁ trivial) (hf a _ _ h₂ hq)

theorem tryCatch {handle : E → Client V Y E M α} (hx : x.Confirms (fun _ => True) n)
    (hhandle : ∀ e, (handle e).Confirms p m) : (tryCatch x handle).Confirms p (n + m) := fun τ r h hp => by
  obtain ⟨a, -, h⟩ | ⟨e, τ₁, τ₂, rfl, h₁, h₂⟩ := Client.Runs.of_tryCatch h
  · exact le_trans (hx τ _ h trivial) (Nat.le_add_right n m)
  · rw [confirmed_append]
    exact Nat.add_le_add (hx _ _ h₁ trivial) (hhandle e _ _ h₂ hp)

/-- What is made of a result does not matter. -/
theorem map {f : α → β} (hx : x.Confirms (fun r => q (r.map f)) n) :
    (x >>= fun a => Pure.pure (f a)).Confirms q n := fun τ r h hq => by
  obtain ⟨e, rfl, hraise⟩ | ⟨a, τ₁, τ₂, rfl, h₁, h₂⟩ := Client.Runs.of_bind h
  · exact hx τ _ hraise hq
  · obtain ⟨rfl, rfl⟩ := Client.Runs.of_pure h₂
    rw [List.append_nil]
    exact hx _ _ h₁ hq

/-- Operations that are not COMMITs confirm none. -/
theorem perform_other {o : Op V Y E M α} (h : ∀ r, Exchange.confirms ⟨o, r⟩ = false) :
    (ReadCommitted.perform o).Confirms p 0 := fun τ r hx _ => by
  obtain ⟨rfl, -⟩ := Client.Runs.of_perform hx
  exact le_of_eq (List.countP_cons_of_neg (p := Exchange.confirms) (by simp [h r]))

/-- One operation confirms one commit at most, and none if it raises. -/
theorem perform {o : Op V Y E M α} : (perform o).Confirms p 1 := fun τ r h _ => by
  obtain ⟨rfl, -⟩ := Client.Runs.of_perform h
  exact List.countP_le_length

/-- An operation that raises has confirmed no COMMIT: this is what a lost acknowledgement looks like to a
program. -/
theorem perform_error {o : Op V Y E M α} : (ReadCommitted.perform o).Confirms IsError 0 := fun τ r h hr => by
  obtain ⟨rfl, -⟩ := Client.Runs.of_perform h
  cases r with
  | ok a => exact hr.elim
  | error e =>
    have hnone : confirmed [(⟨o, .error e⟩ : Exchange V Y E M)] = 0 := by
      cases o <;> rfl
    exact le_of_eq hnone

/-- A program that does not end transactions confirms none. -/
theorem of_uses {A : K → Prop} {quiet : M → Prop} (hx : x.Uses (Op.Within A False quiet)) :
    x.Confirms p 0 := by
  intro τ r h _
  have hops := h.uses hx
  rw [Nat.le_zero, confirmed, List.countP_eq_zero]
  rintro ⟨o, reply⟩ hmem hconfirms
  have ho := hops _ hmem
  cases o with
  | commit => exact ho
  | _ => cases reply <;> cases hconfirms

end Client.Confirms

namespace Client.Returns

variable {P : α → Prop} {Q : β → Prop} {x : Client V Y E M α}

theorem pure {a : α} (h : P a) : (pure a : Client V Y E M α).Returns P := fun τ a' hx => by
  obtain ⟨-, ha⟩ := Client.Runs.of_pure hx
  cases ha
  exact h

theorem throw {e : E} : (throw e : Client V Y E M α).Returns P := fun τ a hx => by
  cases (Client.Runs.of_throw hx).2

/-- The values of a sequence are those of its last part. -/
theorem bind {f : α → Client V Y E M β} (hf : ∀ a, (f a).Returns Q) : (x >>= f).Returns Q :=
  fun τ b h => by
    obtain ⟨e, he, -⟩ | ⟨a, τ₁, τ₂, -, -, h₂⟩ := Client.Runs.of_bind h
    · cases he
    · exact hf a _ _ h₂

end Client.Returns

/-! ## Runs in which no acknowledgement is lost -/

section Acknowledged

variable [DecidableEq K] {sys : System V Y E M R L} {s₀ s s' : State V Y E M R L}

/-- The action does not lose the acknowledgement of a COMMIT; COMMITs may still fail. -/
def Action.acknowledged : Action Y E L → Bool
  | .exec _ (.ackLost _) => false
  | _ => true

/-- The move has no COMMIT in it that takes effect and raises. -/
def System.Move.acknowledged : System.Move Y E L → Bool
  | .act a => a.acknowledged
  | .advance .. => true

/-- The state can be reached so that every session knows of all its commits. -/
def System.AllKnown (sys : System V Y E M R L) (s₀ s : State V Y E M R L) : Prop :=
  ∃ ρ, sys.Traced s₀ s ρ ∧ ∀ i, RolledBack i s.world.log (ρ i)

omit [DecidableEq K] in
/-- Entries that are no commits add nothing that a session would have to know of. -/
theorem RolledBack.push {i j : ℕ} {w : World V Y E M R L} {l : L} {ev : Event V Y E M R}
    {τ : Trace V Y E M} (h : RolledBack j w.log τ) (hev : ev.commit? = none) :
    RolledBack j (w.push i l ev).log τ := by
  unfold RolledBack commits at *
  rw [World.push, marks_cons_none (by exact hev)]
  exact h

omit [DecidableEq K] in
/-- More is known than before. -/
theorem RolledBack.append {i : ℕ} {log : List (Entry V Y E M R L)} {τ : Trace V Y E M}
    (h : RolledBack i log τ) (τ' : Trace V Y E M) : RolledBack i log (τ ++ τ') := by
  unfold RolledBack at *
  rw [confirmed_append]
  exact Nat.le_add_right_of_le h

/-- An operation commits at most once, and its session knows of it unless the acknowledgement is lost. -/
theorem exec_rolledBack {i : ℕ} {l : L} {locked : K → Bool} {c : Choice Y E} {o : Op V Y E M β}
    {w w' : World V Y E M R L} {T T' : Option (Txn V)} {r : Except E β} {τ : Trace V Y E M}
    (h : o.exec i l locked c w T = some (r, w', T')) (hc : ∀ e, c ≠ .ackLost e)
    (hknown : RolledBack i w.log τ) : RolledBack i w'.log (τ ++ [⟨o, r⟩]) := by
  cases o with
  | commit =>
    cases c with
    | proceed =>
      simp only [Op.exec, Option.some.injEq, Prod.mk.injEq] at h
      obtain ⟨rfl, rfl, -⟩ := h
      -- the session learns of this COMMIT, and the log gains one commit at most
      have hone : confirmed (τ ++ [(⟨.commit, .ok ()⟩ : Exchange V Y E M)]) = confirmed τ + 1 :=
        confirmed_append ..
      unfold RolledBack at *
      rw [hone]
      cases T with
      | none => exact Nat.le_succ_of_le hknown
      | some t =>
        simp only [Option.elim, World.commit]
        split
        · exact Nat.le_succ_of_le hknown
        · have hcommit : commits i (w.push i l (.commit t w.committed)).log
              = (t, w.committed) :: commits i w.log := marks_cons_some rfl rfl
          show (commits i (w.push i l (.commit t w.committed)).log).length ≤ _
          rw [hcommit]
          exact Nat.succ_le_succ hknown
    | fail e =>
      simp only [Op.exec, Option.some.injEq, Prod.mk.injEq] at h
      rw [← h.2.1]
      exact hknown.append _
    | ackLost e => exact absurd rfl (hc e)
    | answer y => simp only [Op.exec, reduceCtorEq] at h
  | call x =>
    cases c <;> simp only [Op.exec, Option.some.injEq, Prod.mk.injEq, reduceCtorEq] at h
    rw [← h.2.1]
    exact (hknown.append _).push rfl
  | rollback =>
    cases c <;> simp only [Op.exec, Option.some.injEq, Prod.mk.injEq, reduceCtorEq] at h <;>
      exact h.2.1 ▸ hknown.append _
  | inTransaction =>
    simp only [Op.exec, Option.some.injEq, Prod.mk.injEq] at h
    exact h.2.1 ▸ hknown.append _
  | emit m =>
    simp only [Op.exec, Option.some.injEq, Prod.mk.injEq] at h
    rw [← h.2.1]
    exact (hknown.append _).push rfl
  | _ =>
    rw [(statement_cases h).1]
    exact hknown.append _

namespace System.AllKnown

theorem refl (hlog : s.world.log = []) : sys.AllKnown s s :=
  ⟨_, .refl, fun i => by rw [RolledBack, hlog]; exact Nat.zero_le _⟩

/-- A step in which no acknowledgement is lost leaves no session with more commits than have been confirmed to
it. -/
theorem step (h : sys.AllKnown s₀ s) {a : Action Y E L} (ha : a.acknowledged = true)
    (hexec : sys.exec a s = some s') : sys.AllKnown s₀ s' := by
  obtain ⟨ρ, htr, hknown⟩ := h
  have hother : (∀ i c, a ≠ .exec i c) → (∀ i, RolledBack i s'.world.log (ρ i)) → sys.AllKnown s₀ s' :=
    fun hne hknown' => ⟨ρ, .other htr hne hexec, hknown'⟩
  cases a with
  | start l =>
    refine hother (fun _ _ h => by cases h) fun j => ?_
    simp only [System.exec] at hexec
    split at hexec <;> cases hexec
    exact (hknown j).push rfl
  | exec i c =>
    have hexec' := hexec
    simp only [System.exec] at hexec'
    split at hexec'
    · next l born β o next T hx =>
      obtain ⟨⟨r, w, T'⟩, hop, rfl⟩ := Option.map_eq_some_iff.mp hexec'
      refine ⟨_, .exec htr hx hop, fun j => ?_⟩
      by_cases hj : j = i
      · subst hj
        rw [Function.update_self]
        exact exec_rolledBack hop (fun e he => by rw [he] at ha; cases ha) (hknown j)
      · obtain ⟨new, hlog, hnew, -⟩ := exec_logged hop
        have hothers : ∀ e ∈ new, e.session ≠ j := fun e he heq => hj (heq.symm.trans (hnew e he))
        rw [Function.update_of_ne hj]
        show RolledBack j w.log (ρ j)
        rw [hlog, RolledBack, commits, marks_append_others hothers]
        exact hknown j
    · cases hexec'
  | finish i =>
    refine hother (fun _ _ h => by cases h) fun j => ?_
    simp only [System.exec] at hexec
    split at hexec <;> cases hexec
    exact (hknown j).push rfl
  | crash i =>
    refine hother (fun _ _ h => by cases h) fun j => ?_
    obtain ⟨x, -, rfl⟩ := Option.map_eq_some_iff.mp hexec
    exact hknown j
  | tick d =>
    refine hother (fun _ _ h => by cases h) fun j => ?_
    cases hexec
    exact hknown j

/-- A session that advances by itself loses none, if its replies to COMMITs are acknowledgements. -/
theorem advance {answer : ℕ → (x : X) → Except E (Y x)} {i n : ℕ} (h : sys.AllKnown s₀ s)
    (hadvance : sys.advance answer i n s = some s') : sys.AllKnown s₀ s' := by
  induction n generalizing s with
  | zero =>
    obtain rfl : s = s' := Option.some.inj hadvance
    exact h
  | succ n ih =>
    have hbind : ∀ a, Action.acknowledged a = true →
        (sys.exec a s).bind (sys.advance answer i n) = some s' → sys.AllKnown s₀ s' := by
      intro a ha hbind
      obtain ⟨s₁, hstep, hrest⟩ := Option.bind_eq_some_iff.mp hbind
      exact ih (h.step ha hstep) hrest
    simp only [System.advance] at hadvance
    split at hadvance
    · obtain rfl : s = s' := Option.some.inj hadvance
      exact h
    · exact h.step rfl hadvance
    · exact hbind _ rfl hadvance
    · exact hbind _ rfl hadvance

/-- Where a script loses no acknowledgement, every session knows of all its commits. -/
theorem after {ms : List (System.Move Y E L)} (hms : ms.all System.Move.acknowledged = true)
    (hlog : s.world.log = []) : sys.AllKnown s (sys.after ms s) := by
  have hplay : ∀ {s₁}, sys.AllKnown s s₁ → ∀ s₂, sys.play ms s₁ = some s₂ → sys.AllKnown s s₂ := by
    clear hlog
    induction ms with
    | nil =>
      intro s₁ h s₂ hplay
      obtain rfl : s₁ = s₂ := Option.some.inj hplay
      exact h
    | cons m ms ih =>
      intro s₁ h s₂ hplay
      obtain ⟨s₃, hmove, hrest⟩ := Option.bind_eq_some_iff.mp hplay
      obtain ⟨hm, hms⟩ := (Bool.and_eq_true ..).mp hms
      refine ih hms ?_ s₂ hrest
      cases m with
      | act a => exact h.step hm hmove
      | advance answer i n => exact h.advance hmove
  unfold System.after
  cases hs' : sys.play ms s with
  | none => exact .refl hlog
  | some s' => exact hplay (.refl hlog) s' hs'

end System.AllKnown

end Acknowledged

end ReadCommitted
