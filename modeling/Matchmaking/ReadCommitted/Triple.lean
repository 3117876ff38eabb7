import Matchmaking.ReadCommitted.Soundness

/-!
# Triples for client programs

`Triple P x Q F`: from worlds and transactions with `P`, the client `x` keeps the guarantee
and the invariant; its results satisfy `Q` and its exceptions `F`. There is one rule for each way to
compose clients and one for each operation. The rules for operations ask that the precondition is
`Stable`: the other sessions move the world before the operation takes place.
-/

namespace ReadCommitted

variable {K X : Type} [DecidableEq K] {V : K → Type} {Y : X → Type} {E M R L α β : Type}
variable (S : Spec V Y E M R L) (i : ℕ) (l : L)

/-- The assertion that holds of a result or of an exception. -/
def outcome (Q : α → Assertion V Y E M R L) (F : E → Assertion V Y E M R L) :
    Except E α → Assertion V Y E M R L
  | .ok a => Q a
  | .error e => F e

/-- Partial correctness of a client among the other sessions. From a world and a transaction with `P`, every
result satisfies `Q` and every exception `F`, and every step on the way keeps what session `i` has to
guarantee. -/
structure Triple (P : Assertion V Y E M R L) (x : Client V Y E M α)
    (Q : α → Assertion V Y E M R L) (F : E → Assertion V Y E M R L) : Prop where
  sound : ∀ w T, P w T → wp S i l (outcome Q F) x.run w T

/-- An assertion that the other sessions' steps cannot invalidate, as far as they can be relied on. Assertions
between two operations have to be of this kind. -/
def Stable (P : Assertion V Y E M R L) : Prop :=
  ∀ w w' T, S.env i l T w w' → P w T → P w' T

variable {S i l}
variable {P P' : Assertion V Y E M R L} {Q Q' : α → Assertion V Y E M R L}
  {F F' : E → Assertion V Y E M R L}

/-- Two assertions that the others cannot break hold together against them as well. -/
theorem Stable.and (h : Stable S i l P) (h' : Stable S i l P') :
    Stable S i l fun w T => P w T ∧ P' w T :=
  fun w w' T henv hp => ⟨h w w' T henv hp.1, h' w w' T henv hp.2⟩

/-- Whichever of two assertions holds, the others do not break that one. -/
theorem Stable.or (h : Stable S i l P) (h' : Stable S i l P') :
    Stable S i l fun w T => P w T ∨ P' w T :=
  fun w w' T henv hp => hp.imp (h w w' T henv) (h' w w' T henv)

/-- A witness that is chosen once stays the witness while the others run. -/
theorem Stable.exists {ι : Sort*} {P : ι → Assertion V Y E M R L} (h : ∀ j, Stable S i l (P j)) :
    Stable S i l fun w T => ∃ j, P j w T :=
  fun w w' T henv ⟨j, hp⟩ => ⟨j, h j w w' T henv hp⟩

/-- What only speaks about the session's own transaction is stable. -/
theorem Stable.own (P : Option (Txn V) → Prop) : Stable S i l fun _ T => P T :=
  fun _ _ _ _ hp => hp

namespace Triple

/-! ## Composition -/

/-- The rule of consequence, for the precondition and for both ways in which a program ends. -/
theorem conseq {x : Client V Y E M α} (h : Triple S i l P' x Q' F') (hP : ∀ w T, P w T → P' w T)
    (hQ : ∀ a w T, Q' a w T → Q a w T) (hF : ∀ e w T, F' e w T → F e w T) :
    Triple S i l P x Q F := by
  refine ⟨fun w T hp => wp_mono ?_ x.run w T (h.sound w T (hP w T hp))⟩
  rintro (e | a) w T
  · exact hF e w T
  · exact hQ a w T

/-- The rule of consequence for the precondition alone. -/
theorem pre {x : Client V Y E M α} (h : Triple S i l P' x Q F) (hP : ∀ w T, P w T → P' w T) :
    Triple S i l P x Q F :=
  h.conseq hP (fun _ _ _ hq => hq) fun _ _ _ hf => hf

/-- The rule of consequence for the postcondition alone. -/
theorem post {x : Client V Y E M α} (h : Triple S i l P x Q' F)
    (hQ : ∀ a w T, Q' a w T → Q a w T) : Triple S i l P x Q F :=
  h.conseq (fun _ _ hp => hp) hQ fun _ _ _ hf => hf

/-- Two triples about one program hold of the same run, since both look at all its executions. -/
theorem and {x : Client V Y E M α} (h : Triple S i l P x Q F) (h' : Triple S i l P' x Q' F') :
    Triple S i l (fun w T => P w T ∧ P' w T) x (fun a w T => Q a w T ∧ Q' a w T)
      (fun e w T => F e w T ∧ F' e w T) := by
  refine ⟨fun w T hp => wp_mono ?_ x.run w T (wp_and x.run w T (h.sound w T hp.1)
    (h'.sound w T hp.2))⟩
  rintro (e | a) w T hq <;> exact hq

/-- What a triple of one specification establishes can be used for another one whose surroundings do
no more. -/
theorem transfer {S' : Spec V Y E M R L} (henv : ∀ T w w', S'.env i l T w w' → S.env i l T w w')
    (hknown : ∀ w, S'.known w → S.known w) {x : Client V Y E M α} (h : Triple S i l P x Q F)
    (h' : Triple S' i l P' x Q' F') :
    Triple S' i l (fun w T => P w T ∧ P' w T) x (fun a w T => Q a w T ∧ Q' a w T)
      (fun e w T => F e w T ∧ F' e w T) := by
  have hprog : ∀ {γ : Type} {Q Q' : γ → Assertion V Y E M R L} (p : Prog V Y E M γ) w T,
      wp S i l Q p w T → wp S' i l Q' p w T → wp S' i l (fun a w T => Q a w T ∧ Q' a w T) p w T := by
    intro γ Q Q' p
    induction p with
    | ret a => exact fun w T h h' => ⟨h, h'⟩
    | op o next ih =>
      intro w T h h' w' he locked c r w'' T'' hturn hexec hk
      obtain ⟨hstep, hnext⟩ := h' w' he locked c r w'' T'' hturn hexec hk
      exact ⟨hstep, ih r w'' T'' (h w' (henv T w w' he) locked c r w'' T'' hturn hexec
        (hknown w'' hk)).2 hnext⟩
  refine ⟨fun w T hp => wp_mono ?_ x.run w T
    (hprog x.run w T (h.sound w T hp.1) (h'.sound w T hp.2))⟩
  rintro (e | a) w T hq <;> exact hq

protected theorem pure (a : α) (h : ∀ w T, P w T → Q a w T) :
    Triple S i l P (pure a) Q F := ⟨h⟩

protected theorem throw (e : E) (h : ∀ w T, P w T → F e w T) :
    Triple S i l P (throw e : Client V Y E M α) Q F := ⟨h⟩

/-- Sequencing: what the first part guarantees on success is what the second may assume, and both may fail in
the same way. -/
protected theorem bind {x : Client V Y E M α} {f : α → Client V Y E M β}
    {Q' : β → Assertion V Y E M R L} (hx : Triple S i l P x Q F)
    (hf : ∀ a, Triple S i l (Q a) (f a) Q' F) : Triple S i l P (x >>= f) Q' F := by
  refine ⟨fun w T hp => wp_bind x.run _ w T (wp_mono ?_ x.run w T (hx.sound w T hp))⟩
  rintro (e | a) w T h
  · exact h
  · exact (hf a).sound w T h

/-- A handler starts from what the body guarantees when it raises, with the transaction as the exception left
it. -/
protected theorem tryCatch {x : Client V Y E M α} {handle : E → Client V Y E M α}
    (hx : Triple S i l P x Q F') (hh : ∀ e, Triple S i l (F' e) (handle e) Q F) :
    Triple S i l P (tryCatch x handle) Q F := by
  refine ⟨fun w T hp => wp_bind x.run _ w T (wp_mono ?_ x.run w T (hx.sound w T hp))⟩
  rintro (e | a) w T h
  · exact (hh e).sound w T h
  · exact h

/-- Both branches are proved, each under the outcome of its test. -/
protected theorem ite {c : Prop} [Decidable c] {x y : Client V Y E M α}
    (hx : c → Triple S i l P x Q F) (hy : ¬ c → Triple S i l P y Q F) :
    Triple S i l P (if c then x else y) Q F := by
  split
  · exact hx ‹_›
  · exact hy ‹_›

/-- A precondition that names a witness may be opened before the program is looked at. -/
theorem exists_pre {ι : Sort*} {P : ι → Assertion V Y E M R L} {x : Client V Y E M α}
    (h : ∀ j, Triple S i l (P j) x Q F) : Triple S i l (fun w T => ∃ j, P j w T) x Q F :=
  ⟨fun w T ⟨j, hp⟩ => (h j).sound w T hp⟩

/-- A precondition on values alone is a hypothesis of the proof and not of the world. -/
theorem pure_pre {p : Prop} {x : Client V Y E M α} (h : p → Triple S i l P x Q F) :
    Triple S i l (fun w T => p ∧ P w T) x Q F :=
  ⟨fun w T hp => (h hp.1).sound w T hp.2⟩

/-- A precondition with alternatives is proved alternative by alternative. -/
theorem or_pre {x : Client V Y E M α} (h : Triple S i l P x Q F) (h' : Triple S i l P' x Q F) :
    Triple S i l (fun w T => P w T ∨ P' w T) x Q F :=
  ⟨fun w T hp => hp.elim (h.sound w T) (h'.sound w T)⟩

/-! ## Operations -/

/-- The rule all operations share. -/
theorem perform {o : Op V Y E M α} (hP : Stable S i l P)
    (h : ∀ w T, S.facts w → P w T → ∀ locked c r w' T', Turn T locked w →
      o.exec i l locked c w T = some (r, w', T') → S.known w' →
        (w' = w ∨ S.guar i l w w' ∧ S.inv w') ∧ outcome Q F r w' T') :
    Triple S i l P (perform o) Q F := by
  refine ⟨fun w T hp w' henv locked c r w'' T'' hturn hexec hknown => ?_⟩
  exact h w' T henv.facts (hP w w' T henv hp) locked c r w'' T'' hturn hexec hknown

/-- Statements change nothing but the session's own transaction. -/
theorem statement {o : Op V Y E M α}
    (body : World V Y E M R L → (K → Bool) → Txn V → Option (Except E α × Txn V))
    (ho : ∀ locked c w T, o.exec i l locked c w T
      = ReadCommitted.statement c w (w.txn T) (body w locked (w.txn T)))
    (hP : Stable S i l P)
    (hok : ∀ w T locked r t', S.facts w → P w T → body w locked (w.txn T) = some (r, t') →
      outcome Q F r w (some t'))
    (hfail : ∀ e w T, S.facts w → P w T → F e w (some (w.txn T).abort)) :
    Triple S i l P (ReadCommitted.perform o) Q F := by
  refine perform hP fun w T hfacts hp locked c r w' T' hturn hexec _ => ?_
  rw [ho] at hexec
  obtain ⟨rfl, ⟨rfl, t', hbody, rfl⟩ | ⟨e, -, rfl, rfl⟩⟩ := statement_cases hexec
  · exact ⟨.inl rfl, hok w' T locked r t' hfacts hp hbody⟩
  · exact ⟨.inl rfl, hfail e w' T hfacts hp⟩

/-- The opening of a transaction: the others have run before it, so the assertion must be stable, and the
store it sees is today's. -/
theorem start {Q : Unit → Assertion V Y E M R L} (hP : Stable S i l P)
    (hok : ∀ w T, S.facts w → P w T → Q () w (some (w.txn T)))
    (hfail : ∀ e w T, S.facts w → P w T → F e w (some (w.txn T).abort)) :
    Triple S i l P (ReadCommitted.perform (.start : Op V Y E M Unit)) Q F := by
  refine statement (fun _ _ t => some (.ok (), t)) (fun _ _ _ _ => rfl) hP
    (fun w T _ r t' hfacts hp hbody => ?_) hfail
  cases hbody
  exact hok w T hfacts hp

/-- A query, which may be refused with the transaction aborted, or answers from the view that its own time and
writes give. -/
theorem select {f : Time → Store V → α} (hP : Stable S i l P)
    (hok : ∀ w T, S.facts w → P w T → (w.txn T).aborted = false →
      Q (f (w.txn T).start ((w.txn T).view w.committed)) w (some ((w.txn T).read w.committed)))
    (hfail : ∀ e w T, S.facts w → P w T → F e w (some (w.txn T).abort)) :
    Triple S i l P (ReadCommitted.perform (.select f : Op V Y E M α)) Q F := by
  refine statement (fun w _ t => if t.aborted then none else
    some (.ok (f t.start (t.view w.committed)), t.read w.committed)) (fun _ _ _ _ => rfl) hP
    (fun w T _ r t' hfacts hp hbody => ?_) hfail
  split at hbody
  · cases hbody
  · next hlive =>
    cases hbody
    exact hok w T hfacts hp (Bool.eq_false_iff.mpr hlive)

/-- What holds after a row function has decided about the newest version of row `k`. -/
def rowOutcome (k : K) (t : Txn V) (Q : Option (V k) → Assertion V Y E M R L)
    (F : E → Assertion V Y E M R L) (w : World V Y E M R L) : RowAction (V k) E → Prop
  | .leave => Q none w (some t)
  | .put v => Q (some v) w (some (t.write k (some v)))
  | .delete => Q none w (some (t.write k none))
  | .raise e => F e w (some t.abort)

/-- A statement on one row. It may skip the row when it is locked, refuse it, or find the committed row under
the writes of its own transaction. -/
theorem row {k : K} {skip : Bool} {f : Time → Option (V k) → RowAction (V k) E}
    {Q : Option (V k) → Assertion V Y E M R L} (hP : Stable S i l P)
    (hskip : skip = true → ∀ w T, S.facts w → P w T → Q none w (some (w.txn T)))
    (haccess : ∀ w T, S.facts w → P w T → (w.txn T).aborted = false →
      rowOutcome k (w.txn T) Q F w
        (f (w.txn T).start (((w.txn T).view w.committed).lookup k)))
    (hfail : ∀ e w T, S.facts w → P w T → F e w (some (w.txn T).abort)) :
    Triple S i l P (ReadCommitted.perform (.row k skip f : Op V Y E M (Option (V k)))) Q F := by
  refine statement (fun w locked t => if t.aborted then none else
    t.access w.committed locked k skip f) (fun _ _ _ _ => rfl) hP
    (fun w T locked r t' hfacts hp hbody => ?_) hfail
  split at hbody
  · cases hbody
  next habort =>
    have hacc := haccess w T hfacts hp (by simpa using habort)
    simp only [Txn.access] at hbody
    split at hbody
    · split at hbody
      · cases hbody
        exact hskip ‹_› w T hfacts hp
      · cases hbody
    · generalize f (w.txn T).start (((w.txn T).view w.committed).lookup k) = act at hacc hbody
      cases act <;> cases hbody <;> exact hacc

/-- Setting a savepoint remembers the writes made so far, and nothing else changes. -/
theorem savepoint {Q : Unit → Assertion V Y E M R L} (hP : Stable S i l P)
    (hok : ∀ w T, S.facts w → P w T → (w.txn T).aborted = false →
      Q () w (some { w.txn T with saved := (w.txn T).writes :: (w.txn T).saved }))
    (hfail : ∀ e w T, S.facts w → P w T → F e w (some (w.txn T).abort)) :
    Triple S i l P (ReadCommitted.perform (.savepoint : Op V Y E M Unit)) Q F := by
  refine statement (fun _ _ t => if t.aborted then none else
    some (.ok (), { t with saved := t.writes :: t.saved })) (fun _ _ _ _ => rfl) hP
    (fun w T _ r t' hfacts hp hbody => ?_) hfail
  split at hbody
  · cases hbody
  · next hlive =>
    cases hbody
    exact hok w T hfacts hp (Bool.eq_false_iff.mpr hlive)

/-- Releasing a savepoint forgets the remembered writes and keeps those made since. -/
theorem releaseSavepoint {Q : Unit → Assertion V Y E M R L} (hP : Stable S i l P)
    (hok : ∀ w T, S.facts w → P w T → (w.txn T).aborted = false →
      Q () w (some { w.txn T with saved := (w.txn T).saved.tail }))
    (hfail : ∀ e w T, S.facts w → P w T → F e w (some (w.txn T).abort)) :
    Triple S i l P (ReadCommitted.perform (.releaseSavepoint : Op V Y E M Unit)) Q F := by
  refine statement (fun _ _ t => if t.aborted then none else
    some (.ok (), { t with saved := t.saved.tail })) (fun _ _ _ _ => rfl) hP
    (fun w T _ r t' hfacts hp hbody => ?_) hfail
  split at hbody
  · cases hbody
  · next hlive =>
    cases hbody
    exact hok w T hfacts hp (Bool.eq_false_iff.mpr hlive)

/-- What `ROLLBACK TO SAVEPOINT` makes of a transaction, if it has a savepoint. -/
def toSavepoint (t : Txn V) : Option (Except E Unit × Txn V) :=
  match t.saved with
  | ws :: rest => some (.ok (), { t with writes := ws, saved := rest, aborted := false })
  | [] => none

/-- Going back to a savepoint restores the writes remembered there and lifts an abort. -/
theorem rollbackToSavepoint (hP : Stable S i l P) {Q : Unit → Assertion V Y E M R L}
    (hok : ∀ w T ws rest, S.facts w → P w T → (w.txn T).saved = ws :: rest →
      Q () w (some { w.txn T with writes := ws, saved := rest, aborted := false }))
    (hfail : ∀ e w T, S.facts w → P w T → F e w (some (w.txn T).abort)) :
    Triple S i l P (ReadCommitted.perform (.rollbackToSavepoint : Op V Y E M Unit)) Q F := by
  refine statement (fun _ _ t => toSavepoint t) (fun _ _ _ _ => rfl) hP
    (fun w T _ r t' hfacts hp hbody => ?_) hfail
  unfold toSavepoint at hbody
  split at hbody
  · cases hbody
    exact hok w T _ _ hfacts hp ‹_›
  · cases hbody

/-- Asking whether a transaction is open is answered from the connection, and can neither fail nor change
anything. -/
theorem inTransaction {Q : Bool → Assertion V Y E M R L} (hP : Stable S i l P)
    (hok : ∀ w T, S.facts w → P w T → Q T.isSome w T) :
    Triple S i l P (ReadCommitted.perform (.inTransaction : Op V Y E M Bool)) Q F := by
  refine perform hP fun w T hfacts hp locked c r w' T' _ hexec _ => ?_
  simp only [Op.exec, Option.some.injEq, Prod.mk.injEq] at hexec
  obtain ⟨rfl, rfl, rfl⟩ := hexec
  exact ⟨.inl rfl, hok w T hfacts hp⟩

/-- A commit installs the pending writes; the guarantee must cover that. -/
theorem commit {Q : Unit → Assertion V Y E M R L} (hP : Stable S i l P)
    (hguar : ∀ w t, S.facts w → P w (some t) → t.start ≤ w.clock → t.aborted = false →
      S.known (w.commit i l t) → S.guar i l w (w.commit i l t) ∧ S.inv (w.commit i l t))
    (hok : ∀ w T, S.facts w → P w T → Q () (T.elim w (w.commit i l)) none)
    (hfail : ∀ e w T, S.facts w → P w T → F e w none ∧ F e (T.elim w (w.commit i l)) none) :
    Triple S i l P (ReadCommitted.perform (.commit : Op V Y E M Unit)) Q F := by
  refine perform hP fun w T hfacts hp locked c r w' T' hturn hexec hknown => ?_
  have hkeep : S.known (T.elim w (w.commit i l)) → T.elim w (w.commit i l) = w ∨
      S.guar i l w (T.elim w (w.commit i l)) ∧ S.inv (T.elim w (w.commit i l)) := by
    cases T with
    | none => exact fun _ => .inl rfl
    | some t =>
      cases habort : t.aborted with
      | true => exact fun _ => .inl (by simp [World.commit, habort])
      | false => exact fun hk => .inr (hguar w t hfacts hp (hturn.opened t rfl) habort hk)
  cases c <;> simp only [Op.exec, Option.some.injEq, Prod.mk.injEq, reduceCtorEq] at hexec <;>
    obtain ⟨rfl, rfl, rfl⟩ := hexec
  · exact ⟨hkeep hknown, hok w T hfacts hp⟩
  · exact ⟨.inl rfl, (hfail _ w T hfacts hp).1⟩
  · exact ⟨hkeep hknown, (hfail _ w T hfacts hp).2⟩

/-- A ROLLBACK ends the transaction whether or not its acknowledgement arrives. -/
theorem rollback {Q : Unit → Assertion V Y E M R L} (hP : Stable S i l P)
    (hok : ∀ w T, S.facts w → P w T → Q () w none)
    (hfail : ∀ e w T, S.facts w → P w T → F e w none) :
    Triple S i l P (ReadCommitted.perform (.rollback : Op V Y E M Unit)) Q F := by
  refine perform hP fun w T hfacts hp locked c r w' T' _ hexec _ => ?_
  cases c <;> simp only [Op.exec, Option.some.injEq, Prod.mk.injEq, reduceCtorEq] at hexec <;>
    obtain ⟨rfl, rfl, rfl⟩ := hexec
  · exact ⟨.inl rfl, hok w T hfacts hp⟩
  · exact ⟨.inl rfl, hfail _ w T hfacts hp⟩

/-- An outside call leaves only an entry in the log. -/
theorem call {x : X} {Q : Y x → Assertion V Y E M R L} (hP : Stable S i l P)
    (hguar : ∀ w T y, S.facts w → P w T →
      S.guar i l w (w.push i l (.call x y)) ∧ S.inv (w.push i l (.call x y)))
    (hok : ∀ w T (y : Except E (Y x)), S.facts w → P w T →
      outcome Q F y (w.push i l (.call x y)) T) :
    Triple S i l P (ReadCommitted.perform (.call x : Op V Y E M (Y x))) Q F := by
  refine perform hP fun w T hfacts hp locked c r w' T' _ hexec _ => ?_
  cases c <;> simp only [Op.exec, Option.some.injEq, Prod.mk.injEq, reduceCtorEq] at hexec
  obtain ⟨rfl, rfl, rfl⟩ := hexec
  exact ⟨.inr (hguar w T _ hfacts hp), hok w T _ hfacts hp⟩

/-- A mark in the log is a step of its own: the guarantee and the invariant are shown for the log that has
grown. -/
theorem emit {m : M} {Q : Unit → Assertion V Y E M R L} (hP : Stable S i l P)
    (hguar : ∀ w T, S.facts w → P w T →
      S.guar i l w (w.push i l (.emit m)) ∧ S.inv (w.push i l (.emit m)))
    (hok : ∀ w T, S.facts w → P w T → Q () (w.push i l (.emit m)) T) :
    Triple S i l P (ReadCommitted.perform (.emit m : Op V Y E M Unit)) Q F := by
  refine perform hP fun w T hfacts hp locked c r w' T' _ hexec _ => ?_
  simp only [Op.exec, Option.some.injEq, Prod.mk.injEq] at hexec
  obtain ⟨rfl, rfl, rfl⟩ := hexec
  exact ⟨.inr (hguar w T hfacts hp), hok w T hfacts hp⟩

end Triple

end ReadCommitted
