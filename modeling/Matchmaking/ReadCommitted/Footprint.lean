import Matchmaking.ReadCommitted.Triple

/-!
# Reasoning from the operations a program contains

Many programs need no assertion of their own: the kinds of operations they contain already decide
what they can do to the world. `Prog.Uses` speaks about all operations of a program, whatever the
replies. If every row operation relates the version it finds to the version it writes by a preorder
`Φ`, then so does every commit, row by row (`wp_of_uses`). Where every commit is known to be
harmless, nothing at all needs to be said about the program (`wp_of_commits`).
-/

namespace ReadCommitted

variable {K X : Type} {V : K → Type} {Y : X → Type} {E M R L α β : Type}

/-- Every operation of the program satisfies `ok`, whatever the replies are. -/
def Prog.Uses (ok : {β : Type} → Op V Y E M β → Prop) : Prog V Y E M α → Prop
  | .ret _ => True
  | .op o next => ok o ∧ ∀ r, (next r).Uses ok

/-- A program made of certain operations is made of any larger set of them. -/
theorem Prog.Uses.mono {ok ok' : {β : Type} → Op V Y E M β → Prop}
    (h : ∀ {β : Type} (o : Op V Y E M β), ok o → ok' o) {p : Prog V Y E M α} (hp : p.Uses ok) :
    p.Uses ok' := by
  induction p with
  | ret a => trivial
  | op o next ih => exact ⟨h o hp.1, fun r => ih r (hp.2 r)⟩

/-- The operations of a sequence are those of its parts. -/
theorem Prog.Uses.bind {ok : {β : Type} → Op V Y E M β → Prop} {p : Prog V Y E M α}
    {f : α → Prog V Y E M β} (hp : p.Uses ok) (hf : ∀ a, (f a).Uses ok) : (p.bind f).Uses ok := by
  induction p with
  | ret a => exact hf a
  | op o next ih => exact ⟨hp.1, fun r => ih r (hp.2 r)⟩

/-- `Prog.Uses` for clients: each operation that the client may get to is one of those allowed, whatever the
replies. -/
def Client.Uses (ok : {β : Type} → Op V Y E M β → Prop) (x : Client V Y E M α) : Prop :=
  Prog.Uses ok x.run

namespace Client.Uses

variable {ok : {β : Type} → Op V Y E M β → Prop}

protected theorem pure (a : α) : Uses ok (pure a : Client V Y E M α) := trivial

protected theorem throw (e : E) : Uses ok (throw e : Client V Y E M α) := trivial

theorem perform {o : Op V Y E M α} (ho : ok o) : Uses ok (perform o) := ⟨ho, fun _ => trivial⟩

/-- The operations of a sequence are those of its parts, for clients that may raise. -/
protected theorem bind {x : Client V Y E M α} {f : α → Client V Y E M β} (hx : Uses ok x)
    (hf : ∀ a, Uses ok (f a)) : Uses ok (x >>= f) := by
  refine Prog.Uses.bind hx ?_
  rintro (e | a)
  · exact trivial
  · exact hf a

/-- The operations of a handler count as well, whether or not it runs. -/
protected theorem tryCatch {x : Client V Y E M α} {handle : E → Client V Y E M α}
    (hx : Uses ok x) (hh : ∀ e, Uses ok (handle e)) : Uses ok (tryCatch x handle) := by
  refine Prog.Uses.bind hx ?_
  rintro (e | a)
  · exact hh e
  · exact trivial

/-- Each branch is looked at under the outcome of its test, which may exclude an operation. -/
protected theorem ite {c : Prop} [Decidable c] {x y : Client V Y E M α} (hx : c → Uses ok x)
    (hy : ¬ c → Uses ok y) : Uses ok (if c then x else y) := by
  split
  · exact hx ‹_›
  · exact hy ‹_›

end Client.Uses

/-- The row operations work on rows of `A`, transactions are ended where `ends` holds only, and the
marks left in the log are among `marks`. -/
def Op.Within (A : K → Prop) (ends : Prop) (marks : M → Prop) : {β : Type} → Op V Y E M β → Prop
  | _, .row k _ _ => A k
  | _, .commit => ends
  | _, .rollback => ends
  | _, .emit m => marks m
  | _, _ => True

/-- A property of clients that composition keeps and that the operations `ok` have. -/
structure Composes (ok : {β : Type} → Op V Y E M β → Prop)
    (C : {α : Type} → Client V Y E M α → Prop) : Prop where
  perform : ∀ {β : Type} {o : Op V Y E M β}, ok o → C (perform o)
  pure : ∀ {α : Type} (a : α), C (pure a : Client V Y E M α)
  throw : ∀ {α : Type} (e : E), C (throw e : Client V Y E M α)
  bind : ∀ {α β : Type} {x : Client V Y E M α} {f : α → Client V Y E M β}, C x → (∀ a, C (f a)) →
    C (x >>= f)
  tryCatch : ∀ {α : Type} {x : Client V Y E M α} {handle : E → Client V Y E M α}, C x →
    (∀ e, C (handle e)) → C (tryCatch x handle)

/-- A property of programs that goes through sequencing and handlers goes through branches. -/
theorem Composes.ite {ok : {β : Type} → Op V Y E M β → Prop}
    {C : {α : Type} → Client V Y E M α → Prop} (_ : Composes ok C) {c : Prop} [Decidable c]
    {x y : Client V Y E M α} (hx : c → C x) (hy : ¬ c → C y) : C (if c then x else y) := by
  split
  · exact hx ‹_›
  · exact hy ‹_›

/-- Fewer operations can only be easier to compose. -/
theorem Composes.mono {ok ok' : {β : Type} → Op V Y E M β → Prop}
    {C : {α : Type} → Client V Y E M α → Prop} (h : Composes ok C)
    (hok : ∀ {β : Type} {o : Op V Y E M β}, ok' o → ok o) : Composes ok' C :=
  ⟨fun ho => h.perform (hok ho), h.pure, h.throw, h.bind, h.tryCatch⟩

/-- Which operations a client contains is such a property. -/
theorem Client.Uses.composes {ok : {β : Type} → Op V Y E M β → Prop} :
    Composes ok (fun {α : Type} (x : Client V Y E M α) => x.Uses ok) where
  perform := perform
  pure := Client.Uses.pure
  throw := Client.Uses.throw
  bind := Client.Uses.bind
  tryCatch := Client.Uses.tryCatch

/-- Relations between two versions of a row, at a transaction's time stamp. -/
abbrev RowRel (V : K → Type) := Time → (k : K) → Option (V k) → Option (V k) → Prop

/-- The action relates the version found to the version written. One that leaves the row or raises writes
nothing, so there is nothing to relate. -/
def RowAction.Sat {k : K} (Φ : Option (V k) → Option (V k) → Prop) (v : Option (V k)) :
    RowAction (V k) E → Prop
  | .put v' => Φ v (some v')
  | .delete => Φ v none
  | _ => True

/-- Row operations relate the version they find to the version they write. -/
def Op.RowsSat (Φ : RowRel V) : {β : Type} → Op V Y E M β → Prop
  | _, .row k _ f => ∀ now v, (f now v).Sat (Φ now k) v
  | _, _ => True

/-- Any operation but a commit; what programs of these do is not seen by others unless something after them
commits. -/
def Op.NoCommit : {β : Type} → Op V Y E M β → Prop
  | _, .commit => False
  | _, _ => True

/-- Log entries of outside calls and marks, which come without a change of the committed rows. -/
def Event.IsQuiet : Event V Y E M R → Prop
  | .call .. | .emit _ => True
  | _ => False

variable [DecidableEq K] {S : Spec V Y E M R L} {i : ℕ} {l : L}

/-- Outside calls and marks keep the specification, at any point and whatever the answer of the call. -/
def Spec.Logs (S : Spec V Y E M R L) (i : ℕ) (l : L) : Prop :=
  ∀ w (ev : Event V Y E M R), ev.IsQuiet → S.facts w →
    S.guar i l w (w.push i l ev) ∧ S.inv (w.push i l ev)

/-- The commits of session `i` in which `C` holds keep the specification. -/
def Spec.Commits (S : Spec V Y E M R L) (i : ℕ) (l : L) (C : World V Y E M R L → Txn V → Prop) :
    Prop :=
  ∀ w t, S.facts w → t.start ≤ w.clock → t.aborted = false → S.known (w.commit i l t) → C w t →
    S.guar i l w (w.commit i l t) ∧ S.inv (w.commit i l t)

/-- Facts about the world that neither the others nor session `i` itself take back. -/
structure Spec.Lasting (S : Spec V Y E M R L) (i : ℕ) (l : L) (C : World V Y E M R L → Prop) :
    Prop where
  others : ∀ w w', S.rely i l w w' → S.facts w' → C w → C w'
  own : ∀ w w', S.guar i l w w' → S.inv w' → C w → C w'

omit [DecidableEq K] in
/-- Nothing has to be kept for the condition that is always true. -/
theorem Spec.Lasting.trivial : S.Lasting i l fun _ => True :=
  ⟨fun _ _ _ _ _ => ⟨⟩, fun _ _ _ _ _ => ⟨⟩⟩

omit [DecidableEq K] in
/-- Two conditions that nobody takes back are kept together. -/
theorem Spec.Lasting.and {C C' : World V Y E M R L → Prop} (h : S.Lasting i l C)
    (h' : S.Lasting i l C') : S.Lasting i l fun w => C w ∧ C' w :=
  ⟨fun w w' hr hf hc => ⟨h.others w w' hr hf hc.1, h'.others w w' hr hf hc.2⟩,
    fun w w' hg hi hc => ⟨h.own w w' hg hi hc.1, h'.own w w' hg hi hc.2⟩⟩

/-- What nobody takes back is stable under the steps of the others. -/
theorem Spec.Lasting.stable {C : World V Y E M R L → Prop} (h : S.Lasting i l C) :
    Stable S i l fun w _ => C w :=
  fun w w' _ henv => h.others w w' henv.rely henv.facts

/-- An operation leaves the world alone, commits the open transaction, or adds a quiet entry. -/
theorem exec_world {locked : K → Bool} {c : Choice Y E} {o : Op V Y E M β}
    {w w' : World V Y E M R L} {T T' : Option (Txn V)} {r : Except E β}
    (h : o.exec i l locked c w T = some (r, w', T')) :
    w' = w ∨ (∃ t, T = some t ∧ t.aborted = false ∧ w' = w.commit i l t ∧ T' = none) ∨
      ∃ ev : Event V Y E M R, ev.IsQuiet ∧ w' = w.push i l ev := by
  have hcommit : T.elim w (w.commit i l) = w ∨
      ∃ t, T = some t ∧ t.aborted = false ∧ T.elim w (w.commit i l) = w.commit i l t := by
    cases T with
    | none => exact .inl rfl
    | some t =>
      cases habort : t.aborted with
      | true => exact .inl (by simp [World.commit, habort])
      | false => exact .inr ⟨t, rfl, habort, rfl⟩
  cases o with
  | commit =>
    have hcommitted : ∀ q : Prop, T.elim w (w.commit i l) = w ∨ (∃ t, T = some t ∧ t.aborted = false ∧
        T.elim w (w.commit i l) = w.commit i l t ∧ (none : Option (Txn V)) = none) ∨ q := by
      intro q
      obtain hsame | ⟨t, ht, habort, hw⟩ := hcommit
      · exact .inl hsame
      · exact .inr (.inl ⟨t, ht, habort, hw, rfl⟩)
    cases c <;> simp only [Op.exec, Option.some.injEq, Prod.mk.injEq, reduceCtorEq] at h <;>
      obtain ⟨-, rfl, rfl⟩ := h
    · exact hcommitted _
    · exact .inl rfl
    · exact hcommitted _
  | rollback =>
    cases c <;> simp only [Op.exec, Option.some.injEq, Prod.mk.injEq, reduceCtorEq] at h <;>
      exact .inl h.2.1.symm
  | call x =>
    cases c <;> simp only [Op.exec, Option.some.injEq, Prod.mk.injEq, reduceCtorEq] at h
    exact .inr (.inr ⟨.call x _, trivial, h.2.1.symm⟩)
  | inTransaction =>
    simp only [Op.exec, Option.some.injEq, Prod.mk.injEq] at h
    exact .inl h.2.1.symm
  | emit m =>
    simp only [Op.exec, Option.some.injEq, Prod.mk.injEq] at h
    exact .inr (.inr ⟨.emit m, trivial, h.2.1.symm⟩)
  | _ => exact .inl (statement_cases h).1

/-- A program of which every commit is harmless is harmless. -/
theorem wp_of_commits (hlog : S.Logs i l) (hcommit : S.Commits i l fun _ _ => True)
    (p : Prog V Y E M α) : ∀ w T, wp S i l (fun _ _ _ => True) p w T := by
  induction p with
  | ret a => exact fun _ _ => trivial
  | op o next ih =>
    intro w T w' henv locked c r w'' T'' hturn hexec hknown
    refine ⟨?_, ih r w'' T''⟩
    obtain h | ⟨t, rfl, habort, rfl, -⟩ | ⟨ev, hev, rfl⟩ := exec_world hexec
    · exact .inl h
    · exact .inr (hcommit w' t henv.facts (hturn.opened t rfl) habort hknown trivial)
    · exact .inr (hlog w' ev hev henv.facts)

/-- A program without commits is harmless in any state, and it keeps what calls and marks of its
session keep. -/
theorem wp_of_noCommit {C : World V Y E M R L → Prop} (hlog : S.Logs i l)
    (hC : Stable S i l fun w _ => C w) (hpush : ∀ w ev, Event.IsQuiet ev → C w → C (w.push i l ev))
    (p : Prog V Y E M α) (hp : p.Uses Op.NoCommit) :
    ∀ w T, C w → wp S i l (fun _ w _ => C w) p w T := by
  induction p with
  | ret a => exact fun _ _ h => h
  | op o next ih =>
    intro w T hw w' henv locked c r w'' T'' hturn hexec hknown
    have hw' : C w' := hC w w' T henv hw
    obtain rfl | ⟨ev, hev, rfl⟩ : w'' = w' ∨ ∃ ev : Event V Y E M R, ev.IsQuiet ∧ w'' = w'.push i l ev := by
      cases o with
      | commit => exact hp.1.elim
      | call x =>
        cases c <;> simp only [Op.exec, Option.some.injEq, Prod.mk.injEq, reduceCtorEq] at hexec
        exact .inr ⟨.call x _, trivial, hexec.2.1.symm⟩
      | emit m =>
        simp only [Op.exec, Option.some.injEq, Prod.mk.injEq] at hexec
        exact .inr ⟨.emit m, trivial, hexec.2.1.symm⟩
      | rollback =>
        cases c <;> simp only [Op.exec, Option.some.injEq, Prod.mk.injEq, reduceCtorEq] at hexec <;>
          exact .inl hexec.2.1.symm
      | inTransaction =>
        simp only [Op.exec, Option.some.injEq, Prod.mk.injEq] at hexec
        exact .inl hexec.2.1.symm
      | _ => exact .inl (statement_cases hexec).1
    · exact ⟨.inl rfl, ih r (hp.2 r) w'' T'' hw'⟩
    · exact ⟨.inr (hlog w' ev hev henv.facts), ih r (hp.2 r) _ T'' (hpush w' ev hev hw')⟩

/-- Every pending version is related to the committed version of its row. -/
def Follows (Φ : RowRel V) : Assertion V Y E M R L := fun w T =>
  ∀ t, T = some t → ∀ ws, ws = t.writes ∨ ws ∈ t.saved → ∀ k o, ws.dlookup k = some o →
    Φ t.start k (w.committed.lookup k) o

/-- A transaction holds the lock of every row it has written, also of those written before a savepoint. -/
theorem holds_of_dlookup {t : Txn V} {ws : Writes V} (hws : ws = t.writes ∨ ws ∈ t.saved) {k : K}
    {o : Option (V k)} (hk : ws.dlookup k = some o) : t.holds k = true := by
  rcases hws with rfl | hws
  · simp [Txn.holds, hk]
  · simp only [Txn.holds, Bool.or_eq_true, List.any_eq_true]
    exact .inr ⟨ws, hws, by simp [hk]⟩

/-- The others commit around the locks of this transaction, so its own rows stay as it found them. -/
theorem Follows.stable (Φ : RowRel V) : Stable S i l (Follows Φ) := by
  rintro w w' T henv hfol t rfl ws hws k o hk
  rw [henv.kept k (holds_of_dlookup hws hk)]
  exact hfol t rfl ws hws k o hk

/-- Who has changed nothing follows everything. -/
theorem Follows.of_same {Φ : RowRel V} (hrefl : ∀ now k v, Φ now k v v) {w : World V Y E M R L}
    {T : Option (Txn V)} (h : Follows (fun _ _ v v' => v' = v) w T) : Follows Φ w T := by
  intro t ht ws hws k o hk
  rw [h t ht ws hws k o hk]
  exact hrefl _ k _

section Rows

variable {Φ : RowRel V} (hrefl : ∀ now k v, Φ now k v v)
  (htrans : ∀ now k v v' v'', Φ now k v v' → Φ now k v' v'' → Φ now k v v'')

include hrefl in
/-- What a transaction sees of a row is related to the committed version. -/
theorem Follows.view {w : World V Y E M R L} {T : Option (Txn V)} (h : Follows Φ w T) (k : K) :
    Φ (w.txn T).start k (w.committed.lookup k) (((w.txn T).view w.committed).lookup k) := by
  cases T with
  | none => exact hrefl ..
  | some t =>
    cases hk : t.writes.dlookup k with
    | none =>
      rw [show (w.txn (some t)).view w.committed = patch t.writes w.committed from rfl,
        lookup_patch_of_notMem hk]
      exact hrefl ..
    | some o =>
      rw [show (w.txn (some t)).view w.committed = patch t.writes w.committed from rfl,
        lookup_patch_of_mem hk]
      exact h t rfl _ (.inl rfl) k o hk

/-- Writing a related version keeps `Follows`. -/
theorem Follows.write {w : World V Y E M R L} {T : Option (Txn V)} (h : Follows Φ w T) {k : K}
    {o : Option (V k)} (ho : Φ (w.txn T).start k (w.committed.lookup k) o) :
    Follows Φ w (some ((w.txn T).write k o)) := by
  rintro _ ⟨⟩ ws hws k' o' hk'
  have hold : ∀ ws, ws = (w.txn T).writes ∨ ws ∈ (w.txn T).saved → ws.dlookup k' = some o' →
      Φ (w.txn T).start k' (w.committed.lookup k') o' := by
    intro ws hws hk'
    cases T with
    | none => rcases hws with rfl | hws <;> simp [World.txn] at *
    | some t => exact h t rfl ws hws k' o' hk'
  rcases hws with rfl | hws
  · by_cases hkk : k' = k
    · subst hkk
      simp only [Txn.write, List.dlookup_cons_eq, Option.some.injEq] at hk'
      subst hk'
      exact ho
    · rw [Txn.write, List.dlookup_cons_ne] at hk'
      · exact hold _ (.inl rfl) hk'
      · exact hkk
  · exact hold ws (.inr hws) hk'

include hrefl htrans in
/-- One operation keeps `Follows`. -/
theorem Follows.exec {locked : K → Bool} {c : Choice Y E} {o : Op V Y E M β}
    {w w' : World V Y E M R L} {T T' : Option (Txn V)} {r : Except E β}
    (h : Follows Φ w T) (ho : o.RowsSat Φ) (hexec : o.exec i l locked c w T = some (r, w', T')) :
    Follows Φ w' T' := by
  -- a transaction that the operation itself opens has no pending writes yet
  have hopen : Follows Φ w (some (w.txn T)) := by
    cases T with
    | none =>
      rintro _ ⟨⟩ ws hws k o hk
      rcases hws with rfl | hws <;> simp [World.txn] at *
    | some t => exact h
  -- statements that leave no new pending version keep the pending writes they found
  have hsub : ∀ t', (∀ ws, ws = t'.writes ∨ ws ∈ t'.saved →
      ws = (w.txn T).writes ∨ ws ∈ (w.txn T).saved) → t'.start = (w.txn T).start →
      Follows Φ w (some t') := by
    rintro t' hws hst _ ⟨⟩ ws hmem k o hk
    rw [hst]
    exact hopen _ rfl ws (hws ws hmem) k o hk
  -- a statement that fails leaves its transaction as it found it, whatever its body was
  have hstmt : ∀ {γ : Type} {r : Except E γ} {body : Option (Except E γ × Txn V)},
      statement c w (w.txn T) body = some (r, w', T') →
      (∀ t', body = some (r, t') → Follows Φ w (some t')) → Follows Φ w' T' := by
    intro γ r body hst hbody
    obtain ⟨rfl, ⟨-, t', hb, rfl⟩ | ⟨e, -, -, rfl⟩⟩ := statement_cases hst
    · exact hbody t' hb
    · exact hsub _ (fun _ hws => hws) rfl
  cases o with
  | start =>
    refine hstmt hexec fun t' hb => ?_
    cases hb
    exact hopen
  | select f =>
    refine hstmt hexec fun t' hb => ?_
    split at hb <;> cases hb
    exact hsub _ (fun _ hws => hws) rfl
  | row k skip f =>
    refine hstmt hexec fun t' hb => ?_
    split at hb
    · cases hb
    simp only [Txn.access] at hb
    split at hb
    · split at hb <;> cases hb
      exact hopen
    -- the only operation that leaves a new pending version: it is related to the row that was seen
    · have hsat := ho (w.txn T).start (((w.txn T).view w.committed).lookup k)
      have hview := h.view hrefl k
      generalize f (w.txn T).start (((w.txn T).view w.committed).lookup k) = act at hsat hb
      cases act <;> cases hb
      · exact hopen
      · exact h.write (htrans _ k _ _ _ hview hsat)
      · exact h.write (htrans _ k _ _ _ hview hsat)
      · exact hsub _ (fun _ hws => hws) rfl
  | savepoint =>
    refine hstmt hexec fun t' hb => ?_
    split at hb <;> cases hb
    refine hsub _ (fun ws hws => ?_) rfl
    simpa [or_comm, or_left_comm, or_assoc] using hws
  | releaseSavepoint =>
    refine hstmt hexec fun t' hb => ?_
    split at hb <;> cases hb
    exact hsub _ (fun ws hws => hws.imp_right List.mem_of_mem_tail) rfl
  | rollbackToSavepoint =>
    refine hstmt hexec fun t' hb => ?_
    split at hb
    · next ws rest hsaved =>
      cases hb
      refine hsub _ (fun ws' hws' => .inr ?_) rfl
      rw [hsaved]
      simpa using hws'
    · cases hb
  | commit =>
    cases c <;> simp only [Op.exec, Option.some.injEq, Prod.mk.injEq, reduceCtorEq] at hexec <;>
      obtain ⟨-, -, rfl⟩ := hexec <;> exact fun t ht => by cases ht
  | rollback =>
    cases c <;> simp only [Op.exec, Option.some.injEq, Prod.mk.injEq, reduceCtorEq] at hexec <;>
      obtain ⟨-, -, rfl⟩ := hexec <;> exact fun t ht => by cases ht
  | call x =>
    cases c <;> simp only [Op.exec, Option.some.injEq, Prod.mk.injEq, reduceCtorEq] at hexec
    obtain ⟨-, rfl, rfl⟩ := hexec
    exact h
  | inTransaction =>
    simp only [Op.exec, Option.some.injEq, Prod.mk.injEq] at hexec
    obtain ⟨-, rfl, rfl⟩ := hexec
    exact h
  | emit m =>
    simp only [Op.exec, Option.some.injEq, Prod.mk.injEq] at hexec
    obtain ⟨-, rfl, rfl⟩ := hexec
    exact h

include hrefl htrans in
/-- A program whose row operations follow `Φ` has commits that follow `Φ`, row by row; what lasts may
be used for them. -/
theorem wp_of_uses_lasting {C : World V Y E M R L → Prop} (hlog : S.Logs i l) (hC : S.Lasting i l C)
    (hcommit : S.Commits i l fun w t =>
      (∀ k, Φ t.start k (w.committed.lookup k) ((patch t.writes w.committed).lookup k)) ∧ C w)
    (p : Prog V Y E M α) (hp : p.Uses (Op.RowsSat Φ)) :
    ∀ w T, Follows Φ w T ∧ C w → wp S i l (fun _ w T => Follows Φ w T ∧ C w) p w T := by
  induction p with
  | ret a => exact fun _ _ h => h
  | op o next ih =>
    intro w T ⟨hfol, hw⟩ w' henv locked c r w'' T'' hturn hexec hknown
    have hfol' := Follows.stable Φ w w' T henv hfol
    have hw' := hC.stable w w' T henv hw
    have hstep : w'' = w' ∨ S.guar i l w' w'' ∧ S.inv w'' := by
      obtain h | ⟨t, rfl, habort, rfl, -⟩ | ⟨ev, hev, rfl⟩ := exec_world hexec
      · exact .inl h
      · exact .inr (hcommit w' t henv.facts (hturn.opened t rfl) habort hknown
          ⟨hfol'.view hrefl, hw'⟩)
      · exact .inr (hlog w' ev hev henv.facts)
    refine ⟨hstep, ih r (hp.2 r) w'' T'' ⟨hfol'.exec hrefl htrans hp.1 hexec, ?_⟩⟩
    obtain rfl | ⟨hguar, hinv⟩ := hstep
    · exact hw'
    · exact hC.own w' w'' hguar hinv hw'

include hrefl htrans in
/-- The same where the commits need nothing else. -/
theorem wp_of_uses (hlog : S.Logs i l)
    (hcommit : S.Commits i l fun w t =>
      ∀ k, Φ t.start k (w.committed.lookup k) ((patch t.writes w.committed).lookup k))
    (p : Prog V Y E M α) (hp : p.Uses (Op.RowsSat Φ)) :
    ∀ w T, Follows Φ w T → wp S i l (fun _ => Follows Φ) p w T := fun w T h =>
  wp_mono (fun _ _ _ h => h.1) p w T (wp_of_uses_lasting hrefl htrans hlog .trivial
    (fun w t hfacts hstart habort hknown h => hcommit w t hfacts hstart habort hknown h.1) p hp w T
    ⟨h, trivial⟩)

end Rows

/-! ## The same for triples -/

namespace Triple

/-- Where every commit is allowed, there is nothing to prove of a program. -/
theorem of_commits {x : Client V Y E M α} (hlog : S.Logs i l)
    (hcommit : S.Commits i l fun _ _ => True) {P : Assertion V Y E M R L} :
    Triple S i l P x (fun _ _ _ => True) (fun _ _ _ => True) := by
  refine ⟨fun w T _ => wp_mono ?_ x.run w T (wp_of_commits hlog hcommit x.run w T)⟩
  rintro (e | a) _ _ _ <;> trivial

/-- A client without commits keeps what calls and marks of its session keep. -/
theorem quiet {C : World V Y E M R L → Prop} {x : Client V Y E M α} (hlog : S.Logs i l)
    (hC : Stable S i l fun w _ => C w) (hpush : ∀ w ev, Event.IsQuiet ev → C w → C (w.push i l ev))
    (hx : x.Uses Op.NoCommit) :
    Triple S i l (fun w _ => C w) x (fun _ w _ => C w) (fun _ w _ => C w) := by
  refine ⟨fun w T hw => wp_mono ?_ x.run w T (wp_of_noCommit hlog hC hpush x.run hx w T hw)⟩
  rintro (e | a) _ _ h <;> exact h

/-- A program without a COMMIT changes nothing that others can see. -/
theorem of_noCommit {x : Client V Y E M α} (hlog : S.Logs i l) (hx : x.Uses Op.NoCommit)
    {P : Assertion V Y E M R L} :
    Triple S i l P x (fun _ _ _ => True) (fun _ _ _ => True) :=
  have h := @quiet _ _ _ _ _ _ _ _ _ _ S i l (fun _ => True) x hlog (fun _ _ _ _ _ => trivial)
    (fun _ _ _ _ => trivial) hx
  h.pre fun _ _ _ => trivial

/-- The frame rule for commits: if each row statement keeps a relation of old and new row, so does the
transaction they make up. -/
theorem of_uses {Φ : RowRel V} (hrefl : ∀ now k v, Φ now k v v)
    (htrans : ∀ now k v v' v'', Φ now k v v' → Φ now k v' v'' → Φ now k v v'')
    (hlog : S.Logs i l)
    (hcommit : S.Commits i l fun w t =>
      ∀ k, Φ t.start k (w.committed.lookup k) ((patch t.writes w.committed).lookup k))
    {x : Client V Y E M α} (hx : x.Uses (Op.RowsSat Φ)) :
    Triple S i l (Follows Φ) x (fun _ => Follows Φ) (fun _ => Follows Φ) := by
  refine ⟨fun w T hfol =>
    wp_mono ?_ x.run w T (wp_of_uses hrefl htrans hlog hcommit x.run hx w T hfol)⟩
  rintro (e | a) _ _ h <;> exact h

/-- The frame rule under a condition that lasts: it is known at the first statement and still holds at the
COMMIT. -/
theorem of_uses_lasting {Φ : RowRel V} {C : World V Y E M R L → Prop} (hrefl : ∀ now k v, Φ now k v v)
    (htrans : ∀ now k v v' v'', Φ now k v v' → Φ now k v' v'' → Φ now k v v'')
    (hlog : S.Logs i l) (hC : S.Lasting i l C)
    (hcommit : S.Commits i l fun w t =>
      (∀ k, Φ t.start k (w.committed.lookup k) ((patch t.writes w.committed).lookup k)) ∧ C w)
    {x : Client V Y E M α} (hx : x.Uses (Op.RowsSat Φ)) :
    Triple S i l (fun w T => Follows Φ w T ∧ C w) x (fun _ w T => Follows Φ w T ∧ C w)
      (fun _ w T => Follows Φ w T ∧ C w) := by
  refine ⟨fun w T h => wp_mono ?_ x.run w T
    (wp_of_uses_lasting hrefl htrans hlog hC hcommit x.run hx w T h)⟩
  rintro (e | a) _ _ h <;> exact h

/-- A client keeps what all its operations keep. -/
theorem of_ops {ok : {β : Type} → Op V Y E M β → Prop} {P : Assertion V Y E M R L}
    (hP : Stable S i l P)
    (hok : ∀ {β : Type} {o : Op V Y E M β} {locked : K → Bool} {c : Choice Y E}
      {w w' : World V Y E M R L} {T T' : Option (Txn V)} {r : Except E β}, ok o → S.facts w →
      Turn T locked w → o.exec i l locked c w T = some (r, w', T') → S.known w' → P w T →
        (w' = w ∨ S.guar i l w w' ∧ S.inv w') ∧ P w' T')
    {x : Client V Y E M α} (hx : x.Uses ok) : Triple S i l P x (fun _ => P) (fun _ => P) := by
  have hprog : ∀ {γ : Type} (p : Prog V Y E M γ), p.Uses ok → ∀ w T, P w T →
      wp S i l (fun _ => P) p w T := by
    intro γ p
    induction p with
    | ret a => exact fun _ _ _ h => h
    | op o next ih =>
      intro hp w T hw w' henv locked c r w'' T'' hturn hexec hknown
      obtain ⟨hstep, hw''⟩ := hok hp.1 henv.facts hturn hexec hknown (hP w w' T henv hw)
      exact ⟨hstep, ih r (hp.2 r) w'' T'' hw''⟩
  refine ⟨fun w T hw => wp_mono ?_ x.run w T (hprog x.run hx w T hw)⟩
  rintro (e | a) _ _ h <;> exact h

/-- Lasting facts are not touched by anything a client does. -/
theorem frame {C : World V Y E M R L → Prop} (hC : S.Lasting i l C) {P : Assertion V Y E M R L}
    {x : Client V Y E M α} {Q : α → Assertion V Y E M R L} {F : E → Assertion V Y E M R L}
    (h : Triple S i l P x Q F) :
    Triple S i l (fun w T => P w T ∧ C w) x (fun a w T => Q a w T ∧ C w)
      (fun e w T => F e w T ∧ C w) := by
  have hprog : ∀ {γ : Type} {Q : γ → Assertion V Y E M R L} (p : Prog V Y E M γ) w T,
      wp S i l Q p w T → C w → wp S i l (fun a w T => Q a w T ∧ C w) p w T := by
    intro γ Q p
    induction p with
    | ret a => exact fun w T hq hc => ⟨hq, hc⟩
    | op o next ih =>
      intro w T hwp hc w' he locked c r w'' T'' hturn hexec hknown
      obtain ⟨hstep, hnext⟩ := hwp w' he locked c r w'' T'' hturn hexec hknown
      have hc' := hC.others w w' he.rely he.facts hc
      refine ⟨hstep, ih r w'' T'' hnext ?_⟩
      rcases hstep with rfl | ⟨hg, hinv⟩
      · exact hc'
      · exact hC.own w' w'' hg hinv hc'
  refine ⟨fun w T hp => wp_mono ?_ x.run w T (hprog x.run w T (h.sound w T hp.1) hp.2)⟩
  rintro (e | a) _ _ h <;> exact h

/-- Lasting facts that a client needs are still there when it is done. -/
theorem retain {C : World V Y E M R L → Prop} (hC : S.Lasting i l C) {P : Assertion V Y E M R L}
    {x : Client V Y E M α} {Q : α → Assertion V Y E M R L} {F : E → Assertion V Y E M R L}
    (h : Triple S i l (fun w T => P w T ∧ C w) x Q F) :
    Triple S i l (fun w T => P w T ∧ C w) x (fun a w T => Q a w T ∧ C w)
      (fun e w T => F e w T ∧ C w) :=
  (frame hC h).pre fun _ _ hp => ⟨hp, hp.2⟩

end Triple

end ReadCommitted
