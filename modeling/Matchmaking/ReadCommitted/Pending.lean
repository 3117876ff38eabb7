import Matchmaking.ReadCommitted.History

/-!
# Conditions on pending writes

A condition `W` on what a transaction has written, over the committed store, that no other transaction
can invalidate: the rows it speaks about are locked. Programs keep it operation by operation
(`Keeping.composes`); where a condition holds only after several row operations, `Midway` says what
holds in between. Whatever is committed then satisfies `W` (`written`).
-/

namespace ReadCommitted

variable {K X : Type} {V : K → Type} {Y : X → Type} {E M R L α β : Type} [DecidableEq K]
  {S : Spec V Y E M R L} {i : ℕ} {l : L}

/-- A condition that depends on no committed rows but those written. -/
def IsLocal (W : Writes V → Store V → Prop) : Prop :=
  ∀ ws s s', (∀ k o, ws.dlookup k = some o → s'.lookup k = s.lookup k) → W ws s → W ws s'


/-- All pending writes, those at savepoints included, satisfy `W` over the committed store, unless
the transaction is aborted. -/
def Keeping (W : Writes V → Store V → Prop) : Assertion V Y E M R L := fun w T =>
  ∀ t, T = some t →
    (t.aborted = false → W t.writes w.committed) ∧ ∀ ws ∈ t.saved, W ws w.committed

/-- A local condition on what a transaction has written and on the committed rows, which holds where nothing
is written. -/
structure WritesCondition (W : Writes V → Store V → Prop) : Prop where
  nil : ∀ s, W [] s
  congr : IsLocal W

/-- Within a transaction: unless it is aborted, its pending writes satisfy `U`; those at savepoints
satisfy `W`. -/
def Midway (U W : Writes V → Store V → Prop) : Assertion V Y E M R L := fun w T =>
  ∃ t, T = some t ∧ (t.aborted = false → U t.writes w.committed) ∧ ∀ ws ∈ t.saved, W ws w.committed

section Keeping

variable {W : Writes V → Store V → Prop} (hW : WritesCondition W)

include hW

/-- What a transaction has written is not touched by others. -/
theorem Keeping.stable : Stable S i l (Keeping W) := by
  rintro w w' _ henv h t rfl
  have hkept : ∀ ws, ws = t.writes ∨ ws ∈ t.saved → ∀ k o, ws.dlookup k = some o →
      w'.committed.lookup k = w.committed.lookup k := fun ws hws k o hk =>
    henv.kept k (holds_of_dlookup hws hk)
  obtain ⟨hwrites, hsaved⟩ := h t rfl
  exact ⟨fun hlive => hW.congr _ _ _ (hkept _ (.inl rfl)) (hwrites hlive),
    fun ws hws => hW.congr _ _ _ (hkept ws (.inr hws)) (hsaved ws hws)⟩

omit hW [DecidableEq K] in
/-- Without a transaction there is nothing to keep. -/
theorem Keeping.none (w : World V Y E M R L) : Keeping W w none := fun t ht => by cases ht

/-- The transaction that an operation works on. -/
theorem Keeping.txn {w : World V Y E M R L} {T : Option (Txn V)} (h : Keeping W w T) :
    ((w.txn T).aborted = false → W (w.txn T).writes w.committed) ∧
      ∀ ws ∈ (w.txn T).saved, W ws w.committed := by
  cases T with
  | none => exact ⟨fun _ => hW.nil w.committed, fun _ hws => (List.not_mem_nil hws).elim⟩
  | some t => exact h t rfl

/-- An aborted transaction has written what it had. -/
theorem Keeping.abort {w : World V Y E M R L} {T : Option (Txn V)} (h : Keeping W w T) :
    Keeping W w (some (w.txn T).abort) := by
  rintro _ ⟨⟩
  exact ⟨fun hlive => (by cases hlive), (h.txn hW).2⟩

theorem Keeping.opened {w : World V Y E M R L} {T : Option (Txn V)} (h : Keeping W w T) :
    Keeping W w (some (w.txn T)) := by
  rintro _ ⟨⟩
  exact h.txn hW

/-- A row operation, by what it writes. -/
theorem Keeping.row {k : K} {skip : Bool} {f : Time → Option (V k) → RowAction (V k) E}
    (hwrite : ∀ ws s o, W ws s → W (⟨k, o⟩ :: ws) s) :
    Triple S i l (Keeping W) (perform (.row k skip f : Op V Y E M (Option (V k))))
      (fun _ => Keeping W) (fun _ => Keeping W) := by
  refine Triple.row (Keeping.stable hW) (fun _ w T _ h => h.opened hW) (fun w T _ h hlive => ?_)
    fun e w T _ h => h.abort hW
  have hput : ∀ o, Keeping W w (some ((w.txn T).write k o)) := by
    rintro o _ ⟨⟩
    exact ⟨fun hlive => hwrite _ _ o ((h.txn hW).1 hlive), (h.txn hW).2⟩
  generalize f (w.txn T).start (((w.txn T).view w.committed).lookup k) = act
  cases act with
  | leave => exact h.opened hW
  | put v => exact hput (some v)
  | delete => exact hput .none
  | raise e => exact h.abort hW

/-- Where writes to the rows of `A` are harmless, and commits with `W` are, composition keeps `W`. -/
theorem Keeping.composes {A : K → Prop} {ends : Prop} {marks : M → Prop} (hlog : S.Logs i l)
    (hcommit : S.Commits i l fun w t => W t.writes w.committed)
    (hwrite : ∀ k, A k → ∀ ws s o, W ws s → W (⟨k, o⟩ :: ws) s) :
    Composes (Op.Within A ends marks) fun {α : Type} (x : Client V Y E M α) =>
      Triple S i l (Keeping W) x (fun _ => Keeping W) (fun _ => Keeping W) where
  pure a := .pure a fun _ _ h => h
  throw e := .throw e fun _ _ h => h
  bind hx hf := .bind hx hf
  tryCatch hx hh := .tryCatch hx hh
  perform {β o} ho := by
    have hstable := @Keeping.stable _ _ _ _ _ _ _ _ _ S i l W hW
    cases o with
    | inTransaction => exact Triple.inTransaction hstable fun _ _ _ h => h
    | start =>
      exact Triple.start hstable (fun w T _ h => h.opened hW) fun _ _ _ _ h => h.abort hW
    | select f =>
      refine Triple.select hstable (fun w T _ h _ t ht => ?_) fun _ _ _ _ h => h.abort hW
      cases ht
      exact h.txn hW
    | row k skip f => exact Keeping.row hW (hwrite k ho)
    | savepoint =>
      refine Triple.savepoint hstable (fun w T _ h hlive t ht => ?_) fun _ _ _ _ h => h.abort hW
      cases ht
      obtain ⟨hwrites, hsaved⟩ := h.txn hW
      refine ⟨hwrites, fun ws hws => ?_⟩
      rcases List.mem_cons.mp hws with rfl | hws
      · exact hwrites hlive
      · exact hsaved ws hws
    | releaseSavepoint =>
      refine Triple.releaseSavepoint hstable (fun w T _ h _ t ht => ?_) fun _ _ _ _ h => h.abort hW
      cases ht
      exact ⟨(h.txn hW).1, fun ws hws => (h.txn hW).2 ws (List.mem_of_mem_tail hws)⟩
    | rollbackToSavepoint =>
      refine Triple.rollbackToSavepoint hstable (fun w T ws rest _ h hsaved t ht => ?_)
        fun _ _ _ _ h => h.abort hW
      cases ht
      have hall := (h.txn hW).2
      rw [hsaved] at hall
      exact ⟨fun _ => hall ws List.mem_cons_self, fun ws' hws' => hall ws' (List.mem_cons_of_mem _ hws')⟩
    | commit =>
      exact Triple.commit hstable (fun w t hfacts h hstart hlive hknown =>
          hcommit w t hfacts hstart hlive hknown ((h t rfl).1 hlive))
        (fun _ _ _ _ => Keeping.none _) fun _ _ _ _ _ => ⟨Keeping.none _, Keeping.none _⟩
    | rollback =>
      exact Triple.rollback hstable (fun _ _ _ _ => Keeping.none _) fun _ _ _ _ _ => Keeping.none _
    | call x =>
      refine Triple.call hstable (fun w _ _ hfacts _ => hlog w _ trivial hfacts) ?_
      rintro w T (e | y) - h <;> exact h
    | emit m => exact Triple.emit hstable (fun w _ hfacts _ => hlog w _ trivial hfacts) fun _ _ _ h => h

/-! ## Conditions that take several row operations -/

section Midway

variable {k : K} {f : Time → Option (V k) → RowAction (V k) E}

omit hW in
/-- Between two statements that belong together, the others cannot see or change what the first has
written. -/
theorem Midway.stable {U : Writes V → Store V → Prop} (hU : IsLocal U) (hW : IsLocal W) :
    Stable S i l (Midway U W) := by
  rintro w w' _ henv ⟨t, rfl, hwrites, hsaved⟩
  refine ⟨t, rfl, fun hlive => hU _ _ _ (fun k o hk => ?_) (hwrites hlive), fun ws hws =>
    hW _ _ _ (fun k o hk => ?_) (hsaved ws hws)⟩
  · exact henv.kept k (holds_of_dlookup (.inl rfl) hk)
  · exact henv.kept k (holds_of_dlookup (.inr hws) hk)

/-- A first row operation: what it has written is left to `U`. -/
theorem Midway.enter {U : V k → Writes V → Store V → Prop}
    (hput : ∀ ws s now v, W ws s → f now ((patch ws s).lookup k) = .put v →
      U v (⟨k, some v⟩ :: ws) s)
    (hdelete : ∀ ws s now, W ws s → f now ((patch ws s).lookup k) ≠ .delete) :
    Triple S i l (Keeping W) (perform (.row k false f : Op V Y E M (Option (V k))))
      (fun r w T => r.elim (Keeping W w T) fun v => Midway (U v) W w T) (fun _ => Keeping W) := by
  refine Triple.row (Keeping.stable hW) (fun h => by cases h) (fun w T _ h hlive => ?_)
    fun e w T _ h => h.abort hW
  obtain ⟨hwrites, hsaved⟩ := h.txn hW
  have hput := fun v => hput _ _ (w.txn T).start v (hwrites hlive)
  have hdelete := hdelete _ _ (w.txn T).start (hwrites hlive)
  simp only [Txn.view]
  generalize f (w.txn T).start ((patch (w.txn T).writes w.committed).lookup k) = act at hput hdelete
  cases act with
  | leave => exact h.opened hW
  | put v => exact ⟨_, rfl, fun _ => hput v rfl, hsaved⟩
  | delete => exact absurd rfl hdelete
  | raise e => exact h.abort hW

/-- A last row operation, after which `W` holds again. -/
theorem Midway.leave {U : Writes V → Store V → Prop} (hU : IsLocal U)
    (hleave : ∀ ws s now, U ws s → f now ((patch ws s).lookup k) = .leave → W ws s)
    (hput : ∀ ws s now v, U ws s → f now ((patch ws s).lookup k) = .put v →
      W (⟨k, some v⟩ :: ws) s)
    (hdelete : ∀ ws s now, U ws s → f now ((patch ws s).lookup k) = .delete →
      W (⟨k, none⟩ :: ws) s) :
    Triple S i l (Midway U W) (perform (.row k false f : Op V Y E M (Option (V k))))
      (fun _ => Keeping W) (fun _ => Keeping W) := by
  have habort : ∀ {w : World V Y E M R L} {T : Option (Txn V)}, Midway U W w T →
      Keeping W w (some (w.txn T).abort) := by
    rintro w _ ⟨t, rfl, -, hsaved⟩ _ ⟨⟩
    exact ⟨fun h => (by cases h), hsaved⟩
  refine Triple.row (Midway.stable hU hW.congr) (fun h => by cases h) (fun w T _ h hlive => ?_)
    fun e w T _ h => habort h
  obtain ⟨t, rfl, hwrites, hsaved⟩ := id h
  have hleave := hleave _ _ t.start (hwrites hlive)
  have hput := fun v => hput _ _ t.start v (hwrites hlive)
  have hdelete := hdelete _ _ t.start (hwrites hlive)
  show Triple.rowOutcome k t _ _ w (f t.start ((patch t.writes w.committed).lookup k))
  generalize f t.start ((patch t.writes w.committed).lookup k) = act at hleave hput hdelete
  cases act with
  | leave =>
    rintro _ ⟨⟩
    exact ⟨fun _ => hleave rfl, hsaved⟩
  | put v =>
    rintro _ ⟨⟩
    exact ⟨fun _ => hput v rfl, hsaved⟩
  | delete =>
    rintro _ ⟨⟩
    exact ⟨fun _ => hdelete rfl, hsaved⟩
  | raise e => exact habort h

end Midway

end Keeping

/-! ## What is committed -/

/-- All logged commits wrote what `W` allows on the store they were committed on. -/
def Written (W : Writes V → Store V → Prop) (log : List (Entry V Y E M R L)) : Prop :=
  ∀ e ∈ log, ∀ t b, e.event.commit? = some (t, b) → W t.writes b

/-- The specification that says nothing but `Written`: what is committed satisfies the condition at its
commit. -/
def Written.spec (W : Writes V → Store V → Prop) : Spec V Y E M R L where
  inv w := Written W w.log
  known _ := True
  rely _ _ _ _ := True
  guar _ _ _ _ := True
  post _ _ _ _ _ := True

section Written

variable {W : Writes V → Store V → Prop}

omit [DecidableEq K] in
/-- Entries that are no commits keep what is said of commits. -/
theorem Written.push {w : World V Y E M R L} (h : Written W w.log) {ev : Event V Y E M R}
    (hev : ev.commit? = none) : Written W (w.push i l ev).log := by
  intro e he t b hc
  rcases List.mem_cons.mp he with rfl | he
  · cases hev.symm.trans hc
  · exact h e he t b hc

omit [DecidableEq K] in
theorem Written.spec_logs : (Written.spec W : Spec V Y E M R L).Logs i l := by
  intro w ev hev h
  refine ⟨trivial, Written.push h.1 ?_⟩
  cases ev <;> first | rfl | cases hev

/-- A commit is allowed where its writes have the property. -/
theorem Written.spec_commits : (Written.spec W : Spec V Y E M R L).Commits i l fun w t =>
    W t.writes w.committed := by
  intro w t h _ hlive _ hwrites
  refine ⟨trivial, ?_⟩
  simp only [World.commit, hlive, Bool.false_eq_true, if_false]
  intro e he t' b hc
  rcases List.mem_cons.mp he with rfl | he
  · obtain ⟨rfl, rfl⟩ := Prod.mk.inj (Option.some.inj hc)
    exact hwrites
  · exact h.1 e he t' b hc

/-- **Kept conditions are committed.** If every program keeps `W`, then so did every commit. -/
theorem written {sys : System V Y E M R L}
    (hsymm : ∀ l l', sys.exclusive l l' = sys.exclusive l' l)
    (hprog : ∀ i l, Triple (Written.spec W : Spec V Y E M R L) i l (Keeping W) (sys.program l)
      (fun _ => Keeping W) fun _ => Keeping W)
    {s₀ : Store V} {c₀ : Time} {s : State V Y E M R L} (hs : sys.Reachable (.initial s₀ c₀) s) :
    Written W s.world.log := by
  have hlaw : (Written.spec W : Spec V Y E M R L).Lawful sys :=
    { exclusive_symm := hsymm
      rely_refl := fun _ _ _ => trivial
      rely_trans := fun _ _ _ _ _ _ _ => trivial
      guar_rely := fun _ _ _ _ _ _ _ _ _ _ => trivial
      post_stable := fun _ _ _ _ _ _ _ _ _ => trivial
      tick := fun _ _ _ h => ⟨h, fun _ _ => trivial⟩
      begun := fun _ _ _ h => ⟨trivial, h.push rfl⟩
      answer := fun _ _ _ _ _ h _ => ⟨trivial, h.push rfl⟩ }
  have h₀ : Written W (State.initial s₀ c₀ : State V Y E M R L).world.log :=
    fun _ he => (List.not_mem_nil he).elim
  have hgood : (Written.spec W).Good sys s := Spec.sound hlaw
    (fun i l w _ _ => wp_mono (fun _ _ _ _ => trivial) _ w none
      ((hprog i l).sound w none (Keeping.none w)))
    h₀ rfl rfl (fun _ _ => trivial) hs
  exact hgood.inv

end Written

end ReadCommitted
