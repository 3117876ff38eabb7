import Matchmaking.ReadCommitted.Footprint

/-!
# Following a transaction statement by statement

`Stage now ps σs` says all about the open transaction that matters at its commit: it was opened at
`now`, it has read the snapshots `σs`, and its pending versions are the `Changes` `ps`, each with
the committed version it will replace. The session holds these rows locked, so the assertion is
stable. Rows of secondary structures (`ign`) are left out of the account.

Exceptions carry no assertion here: what is left of the transaction then is rolled back.
-/

namespace ReadCommitted

variable {K X : Type} {V : K → Type} {Y : X → Type} {E M R L α : Type}

/-- Pending changes, newest first: the committed version of a row and the version written. -/
abbrev Changes (V : K → Type) := List (Sigma fun k => Option (V k) × Option (V k))

/-- No assertion, for results and exceptions that nothing has to be said about. -/
abbrev anything {ι : Type} : ι → Assertion V Y E M R L := fun _ _ _ => True

variable [DecidableEq K]

/-- Older changes of rows that have changed again do not show. -/
theorem dlookup_append_of_subset {ps qs : Changes V} (h : qs.keys ⊆ ps.keys) (k : K) :
    (ps ++ qs).dlookup k = ps.dlookup k := by
  rw [List.dlookup_append]
  cases hps : ps.dlookup k with
  | some p => rfl
  | none =>
    rw [List.dlookup_eq_none.mpr fun hk => List.dlookup_eq_none.mp hps (h hk)]
    rfl

/-- The changes `ps` are what leads from the store `s` to the store `s'`. -/
def Changed (ign : K → Prop) (ps : Changes V) (s s' : Store V) : Prop :=
  ∀ k, ¬ ign k → match ps.dlookup k with
    | none => s'.lookup k = s.lookup k
    | some (old, new) => s.lookup k = old ∧ s'.lookup k = new

/-- What is known of the open transaction `t` over the committed store `s`. -/
structure Txn.Has (ign : K → Prop) (now : Time) (ps : Changes V) (σs : List (Store V)) (t : Txn V)
    (s : Store V) : Prop where
  start : t.start = now
  live : t.aborted = false
  seen : ∀ σ ∈ σs, σ ∈ t.reads
  unwritten : ∀ k, ¬ ign k → ps.dlookup k = none → t.writes.dlookup k = none
  written : ∀ k, ¬ ign k → ∀ old new, ps.dlookup k = some (old, new) →
    t.writes.dlookup k = some new ∧ s.lookup k = old

/-- The session's transaction is open and as described: it was opened at `now`, has made the changes `ps`
since, and has seen the snapshots `σs`. -/
def Stage (ign : K → Prop) (now : Time) (ps : Changes V) (σs : List (Store V)) :
    Assertion V Y E M R L :=
  fun w T => ∃ t, T = some t ∧ t.Has ign now ps σs w.committed

/-- The session has no pending changes, apart from rows that are left out of account; it may or may not have a
transaction. -/
def Clean (ign : K → Prop) : Assertion V Y E M R L :=
  fun _ T => ∀ t, T = some t → ∀ k, ¬ ign k → t.writes.dlookup k = none

/-- After the commit of the described transaction its changes are in the committed store. -/
theorem Stage.committed {ign : K → Prop} {now : Time} {ps : Changes V} {σs : List (Store V)}
    {w : World V Y E M R L} {T : Option (Txn V)} (h : Stage ign now ps σs w T) (i : ℕ) (l : L)
    (k : K) (hk : ¬ ign k) {old new : Option (V k)} (hps : ps.dlookup k = some (old, new)) :
    (T.elim w (w.commit i l)).committed.lookup k = new := by
  obtain ⟨t, rfl, h⟩ := h
  simp only [Option.elim, World.commit, h.live, Bool.false_eq_true, if_false]
  exact lookup_patch_of_mem (h.written k hk old new hps).1 _

/-- A snapshot taken over the committed store `s` shows the rows with the pending changes. -/
def Shows (ign : K → Prop) (ps : Changes V) (s σ : Store V) : Prop :=
  ∀ k, ¬ ign k → σ.lookup k = (ps.dlookup k).elim (s.lookup k) Prod.snd

/-- Row `k` is seen as `cur`, over the committed version `old`. -/
def Seen (ps : Changes V) (k : K) (old cur : Option (V k)) : Prop :=
  ps.dlookup k = none ∧ cur = old ∨ ps.dlookup k = some (old, cur)

variable {S : Spec V Y E M R L} {i : ℕ} {l : L} {ign : K → Prop} {now : Time} {ps : Changes V}
  {σs : List (Store V)}

namespace Txn.Has

variable {t : Txn V} {s : Store V}

/-- What the commit of the transaction does. -/
theorem changed (h : t.Has ign now ps σs s) : Changed ign ps s (patch t.writes s) := by
  intro k hk
  cases hps : ps.dlookup k with
  | none => exact lookup_patch_of_notMem (h.unwritten k hk hps) s
  | some p =>
    obtain ⟨hw, hs⟩ := h.written k hk p.1 p.2 hps
    exact ⟨hs, lookup_patch_of_mem hw s⟩

/-- Only what each row is changed to matters, not the order in which the list names the rows. -/
theorem congr {ps' : Changes V} (hps : ∀ k, ps'.dlookup k = ps.dlookup k)
    (h : t.Has ign now ps σs s) : t.Has ign now ps' σs s where
  start := h.start
  live := h.live
  seen := h.seen
  unwritten k hk hn := h.unwritten k hk (hps k ▸ hn)
  written k hk old new hp := h.written k hk old new (hps k ▸ hp)

/-- A transaction at a stage shows the store it began from with the changes made so far. -/
theorem shows (h : t.Has ign now ps σs s) : Shows ign ps s (t.view s) := by
  intro k hk
  cases hps : ps.dlookup k with
  | none => exact lookup_patch_of_notMem (h.unwritten k hk hps) s
  | some p => exact lookup_patch_of_mem (h.written k hk p.1 p.2 hps).1 s

/-- What the transaction sees of a row it may write. -/
theorem current (h : t.Has ign now ps σs s) {k : K} (hk : ¬ ign k) :
    Seen ps k (s.lookup k) ((t.view s).lookup k) := by
  rw [h.shows k hk]
  cases hps : ps.dlookup k with
  | none => exact .inl ⟨hps, rfl⟩
  | some p => exact .inr (hps.trans (by rw [(h.written k hk p.1 p.2 hps).2]; rfl))

/-- Writing one more row puts its old and new value in front of the list. -/
theorem write (h : t.Has ign now ps σs s) {k : K} {old : Option (V k)} (hold : s.lookup k = old)
    (new : Option (V k)) : (t.write k new).Has ign now (⟨k, (old, new)⟩ :: ps) σs s where
  start := h.start
  live := h.live
  seen := h.seen
  unwritten k' hk' hn := by
    by_cases hkk : k' = k
    · subst hkk
      simp at hn
    · rw [List.dlookup_cons_ne _ _ hkk] at hn
      rw [Txn.write, List.dlookup_cons_ne]
      · exact h.unwritten k' hk' hn
      · exact hkk
  written k' hk' old' new' hp := by
    by_cases hkk : k' = k
    · subst hkk
      simp only [List.dlookup_cons_eq, Option.some.injEq, Prod.mk.injEq] at hp
      obtain ⟨rfl, rfl⟩ := hp
      simp only [Txn.write, List.dlookup_cons_eq]
      exact ⟨trivial, hold⟩
    · rw [List.dlookup_cons_ne _ _ hkk] at hp
      rw [Txn.write, List.dlookup_cons_ne]
      · exact h.written k' hk' old' new' hp
      · exact hkk

/-- Writes of rows that are left out of account leave the list as it is. -/
theorem write_ign (h : t.Has ign now ps σs s) {k : K} (hk : ign k) (new : Option (V k)) :
    (t.write k new).Has ign now ps σs s where
  start := h.start
  live := h.live
  seen := h.seen
  unwritten k' hk' hn := by
    rw [Txn.write, List.dlookup_cons_ne]
    · exact h.unwritten k' hk' hn
    · exact fun heq : k' = k => hk' (heq ▸ hk)
  written k' hk' old' new' hp := by
    rw [Txn.write, List.dlookup_cons_ne]
    · exact h.written k' hk' old' new' hp
    · exact fun heq : k' = k => hk' (heq ▸ hk)

/-- A query only adds the view that it was answered from. -/
theorem read (h : t.Has ign now ps σs s) (s' : Store V) :
    (t.read s').Has ign now ps (t.view s' :: σs) s where
  start := h.start
  live := h.live
  seen σ hσ := by
    rcases List.mem_cons.mp hσ with rfl | hσ
    · exact List.mem_cons_self
    · exact List.mem_cons_of_mem _ (h.seen σ hσ)
  unwritten := h.unwritten
  written := h.written

/-- The savepoints of a transaction are no part of its stage. -/
theorem saved (h : t.Has ign now ps σs s) (sv : List (Writes V)) :
    ({ t with saved := sv }).Has ign now ps σs s :=
  ⟨h.start, h.live, h.seen, h.unwritten, h.written⟩

end Txn.Has

namespace Changed

variable {s s' : Store V}

/-- A row of the list had the old value before and has the new one after. -/
theorem lookup (h : Changed ign ps s s') (k : K) (hk : ¬ ign k) {old new : Option (V k)}
    (hps : ps.dlookup k = some (old, new)) : s.lookup k = old ∧ s'.lookup k = new := by
  have := h k hk
  rw [hps] at this
  exact this

/-- A row that the list does not name is the same before and after. -/
theorem frame (h : Changed ign ps s s') (k : K) (hk : ¬ ign k) (hps : ps.dlookup k = none) :
    s'.lookup k = s.lookup k := by
  have := h k hk
  rw [hps] at this
  exact this

theorem refl (ign : K → Prop) (s : Store V) : Changed ign [] s s := fun _ _ => rfl

/-- One more write changes one more row, or the row it has changed already. -/
theorem write (h : Changed ign ps s s') {k : K} {old : Option (V k)} (hold : s.lookup k = old)
    (new : Option (V k)) : Changed ign (⟨k, (old, new)⟩ :: ps) s (writeRow ⟨k, new⟩ s') := by
  intro k' hk'
  by_cases hkk : k' = k
  · subst hkk
    rw [List.dlookup_cons_eq]
    exact ⟨hold, lookup_writeRow_self ..⟩
  · rw [List.dlookup_cons_ne _ _ hkk, lookup_writeRow_ne hkk]
    exact h k' hk'

/-- Two lists that name the same change for each row describe the same step. -/
theorem congr {ps' : Changes V} (hps : ∀ k, ¬ ign k → ps'.dlookup k = ps.dlookup k)
    (h : Changed ign ps s s') : Changed ign ps' s s' := by
  intro k hk
  rw [hps k hk]
  exact h k hk

/-- Changes of different keys add up. -/
theorem trans {s₁ : Store V} {qs : Changes V} (h : Changed ign ps s s₁) (h' : Changed ign qs s₁ s')
    (hapart : (ps ++ qs).NodupKeys) : Changed ign (ps ++ qs) s s' := by
  intro k hk
  rw [List.dlookup_append]
  have hdisjoint : k ∈ ps.keys → k ∉ qs.keys := by
    rw [List.NodupKeys, List.keys_append] at hapart
    exact fun hp hq => (List.nodup_append.mp hapart).2.2 k hp k hq rfl
  cases hps : ps.dlookup k with
  | none =>
    have hsame := h.frame k hk hps
    rw [Option.none_or, ← hsame]
    exact h' k hk
  | some c =>
    have hkey : k ∈ ps.keys := List.dlookup_isSome.mp (by rw [hps]; rfl)
    obtain ⟨hold, hnew⟩ := h.lookup k hk hps
    have hsame := h'.frame k hk (List.dlookup_eq_none.mpr (hdisjoint hkey))
    exact ⟨hold, hsame.trans hnew⟩

/-- The keys of two rounds of changes are different if the second round finds what the first does not
leave. -/
theorem nodupKeys_append {s₁ : Store V} {qs : Changes V} {P : (k : K) → Option (V k) → Prop}
    (h : Changed ign ps s s₁) (h' : Changed ign qs s₁ s') (hps : ps.NodupKeys) (hqs : qs.NodupKeys)
    (hfound : ∀ c ∈ qs, ¬ ign c.1 ∧ P c.1 c.2.1) (hleft : ∀ c ∈ ps, ¬ P c.1 c.2.2) : (ps ++ qs).NodupKeys := by
  rw [List.NodupKeys, List.keys_append]
  refine List.nodup_append.mpr ⟨hps, hqs, ?_⟩
  rintro k hp _ hq rfl
  obtain ⟨c, hc⟩ := List.exists_of_mem_keys hp
  obtain ⟨c', hc'⟩ := List.exists_of_mem_keys hq
  obtain ⟨hk, hfound⟩ := hfound _ hc'
  have hnew := (h.lookup k hk (List.mem_dlookup hps hc)).2
  have hold := (h'.lookup k hk (List.mem_dlookup hqs hc')).1
  refine hleft _ hc ?_
  rw [← hold, hnew] at hfound
  exact hfound

end Changed

/-! ## Stability and rules -/

/-- The others cannot commit a row that this transaction has written, so a stage stays a stage. -/
theorem Stage.stable : Stable S i l (Stage ign now ps σs) := by
  rintro w w' _ henv ⟨t, rfl, h⟩
  refine ⟨t, rfl, h.start, h.live, h.seen, h.unwritten, fun k hk old new hp => ?_⟩
  obtain ⟨hw, hs⟩ := h.written k hk old new hp
  exact ⟨hw, (henv.kept k (holds_of_dlookup (.inl rfl) hw)).trans hs⟩

/-- What a transaction has written is its own matter. -/
theorem Clean.stable : Stable S i l (Clean ign) := fun _ _ _ _ h => h

/-- At a stage without changes nothing has been written that counts. -/
theorem Stage.clean {w : World V Y E M R L} {T : Option (Txn V)} (h : Stage ign now [] σs w T) :
    Clean ign w T := by
  rintro t ht k hk
  obtain ⟨t', ht', h⟩ := h
  obtain rfl := Option.some.inj (ht.symm.trans ht')
  exact h.unwritten k hk rfl

/-- Without a transaction there is nothing to commit. -/
theorem Clean.none (w : World V Y E M R L) : Clean ign w none := fun _ ht => by cases ht

namespace Triple

/-- Forget what is known about exceptions. -/
theorem any {P : Assertion V Y E M R L} {x : Client V Y E M α} {Q : α → Assertion V Y E M R L}
    {F : E → Assertion V Y E M R L} (h : Triple S i l P x Q F) : Triple S i l P x Q anything :=
  h.conseq (fun _ _ hp => hp) (fun _ _ _ hq => hq) fun _ _ _ _ => trivial

/-- Lasting facts are kept, where exceptions carry no assertion. -/
theorem keep {C : World V Y E M R L → Prop} (hC : S.Lasting i l C) {P : Assertion V Y E M R L}
    {x : Client V Y E M α} {Q : α → Assertion V Y E M R L} (h : Triple S i l P x Q anything) :
    Triple S i l (fun w T => P w T ∧ C w) x (fun a w T => Q a w T ∧ C w) anything :=
  (frame hC h).any

/-- The rule for a `select`; the reply is computed from a snapshot that stays on record. -/
theorem stage_select {f : Time → Store V → α} :
    Triple S i l (Stage ign now ps σs) (ReadCommitted.perform (.select f : Op V Y E M α))
      (fun a w T => ∃ σ, a = f now σ ∧ S.facts w ∧ Shows ign ps w.committed σ ∧
        Stage ign now ps (σ :: σs) w T) anything := by
  refine select Stage.stable ?_ fun _ _ _ _ _ => trivial
  rintro w _ hfacts ⟨t, rfl, h⟩ _
  exact ⟨t.view w.committed, congrArg (f · _) h.start, hfacts, h.shows, _, rfl,
    h.read w.committed⟩

/-- A `select` that may open the transaction. -/
theorem clean_select {f : Time → Store V → α} :
    Triple S i l (Clean ign) (ReadCommitted.perform (.select f : Op V Y E M α))
      (fun a w T => ∃ now σ, a = f now σ ∧ S.facts w ∧ Shows ign [] w.committed σ ∧
        Stage ign now [] [σ] w T) anything := by
  refine select Clean.stable (fun w T hfacts h hlive => ?_) fun _ _ _ _ _ => trivial
  have hnow : (w.txn T).Has ign (w.txn T).start [] [] w.committed := by
    refine ⟨rfl, hlive, fun _ hσ => (List.not_mem_nil hσ).elim, fun k hk _ => ?_, fun k _ old new hp => by cases hp⟩
    cases T with
    | none => rfl
    | some t => exact h t rfl k hk
  exact ⟨_, (w.txn T).view w.committed, rfl, hfacts, hnow.shows, _, rfl, hnow.read w.committed⟩

/-- Opening a transaction. -/
theorem idle_start :
    Triple S i l (fun _ T => T = none) (ReadCommitted.perform (.start : Op V Y E M Unit))
      (fun _ w T => ∃ now, Stage ign now [] [] w T) anything := by
  refine start (.own fun T => T = none) ?_ fun _ _ _ _ _ => trivial
  rintro w _ - rfl
  exact ⟨w.clock, _, rfl, rfl, rfl, fun _ hσ => (List.not_mem_nil hσ).elim, fun _ _ _ => rfl,
    fun _ _ _ _ hp => by cases hp⟩

/-- The postcondition of a row operation, by what the row function decides. -/
def stageOutcome (ign : K → Prop) (now : Time) (ps : Changes V) (σs : List (Store V)) (k : K)
    (Q : Option (V k) → Assertion V Y E M R L) (w : World V Y E M R L) (old : Option (V k)) :
    RowAction (V k) E → Prop
  | .leave => ∀ T, Stage ign now ps σs w T → Q none w T
  | .put v => ∀ T, Stage ign now (⟨k, (old, some v)⟩ :: ps) σs w T → Q (some v) w T
  | .delete => ∀ T, Stage ign now (⟨k, (old, none)⟩ :: ps) σs w T → Q none w T
  | .raise _ => True

/-- The rule for an operation on a row of account, with lasting facts about the world. -/
theorem stage_row {k : K} {skip : Bool} {f : Time → Option (V k) → RowAction (V k) E}
    {Q : Option (V k) → Assertion V Y E M R L} {C : World V Y E M R L → Prop} (hk : ¬ ign k)
    (hC : S.Lasting i l C)
    (hskip : skip = true → ∀ w T, S.facts w → C w → Stage ign now ps σs w T → Q none w T)
    (h : ∀ w old cur, S.facts w → C w → w.committed.lookup k = old → Seen ps k old cur →
      stageOutcome ign now ps σs k Q w old (f now cur)) :
    Triple S i l (fun w T => Stage ign now ps σs w T ∧ C w)
      (ReadCommitted.perform (.row k skip f : Op V Y E M (Option (V k)))) Q anything := by
  refine row (Stage.stable.and hC.stable) ?_ ?_ fun _ _ _ _ _ => trivial
  · rintro hs w _ hfacts ⟨⟨t, rfl, hhas⟩, hc⟩
    exact hskip hs w _ hfacts hc ⟨t, rfl, hhas⟩
  · rintro w _ hfacts ⟨⟨t, rfl, hhas⟩, hc⟩ _
    have hout := h w _ _ hfacts hc rfl (hhas.current hk)
    rw [← hhas.start] at hout
    simp only [World.txn, Option.getD_some]
    generalize f t.start ((t.view w.committed).lookup k) = act at hout
    cases act with
    | leave => exact hout _ ⟨t, rfl, hhas.start ▸ hhas⟩
    | put v => exact hout _ ⟨_, rfl, hhas.start ▸ hhas.write rfl (some v)⟩
    | delete => exact hout _ ⟨_, rfl, hhas.start ▸ hhas.write rfl none⟩
    | raise e => trivial

/-- The rule for an operation on a row that is left out of the account. -/
theorem stage_row_ign {k : K} {skip : Bool} {f : Time → Option (V k) → RowAction (V k) E}
    (hk : ign k) : Triple S i l (Stage ign now ps σs)
      (ReadCommitted.perform (.row k skip f : Op V Y E M (Option (V k))))
      (fun _ => Stage ign now ps σs) anything := by
  refine row Stage.stable ?_ ?_ fun _ _ _ _ _ => trivial
  · rintro - w _ - ⟨t, rfl, hhas⟩
    exact ⟨t, rfl, hhas⟩
  · rintro w _ - ⟨t, rfl, hhas⟩ -
    simp only [World.txn, Option.getD_some]
    generalize f t.start ((t.view w.committed).lookup k) = act
    cases act with
    | leave => exact ⟨t, rfl, hhas⟩
    | put v => exact ⟨_, rfl, hhas.write_ign hk (some v)⟩
    | delete => exact ⟨_, rfl, hhas.write_ign hk none⟩
    | raise e => trivial

/-- At a stage a transaction is open, so a nested block takes a savepoint. -/
theorem stage_inTransaction :
    Triple S i l (Stage ign now ps σs) (ReadCommitted.perform (.inTransaction : Op V Y E M Bool))
      (fun b w T => b = true ∧ Stage ign now ps σs w T) anything := by
  refine inTransaction Stage.stable ?_
  rintro w _ - ⟨t, rfl, h⟩
  exact ⟨rfl, t, rfl, h⟩

theorem stage_savepoint :
    Triple S i l (Stage ign now ps σs) (ReadCommitted.perform (.savepoint : Op V Y E M Unit))
      (fun _ => Stage ign now ps σs) anything := by
  refine savepoint Stage.stable ?_ fun _ _ _ _ _ => trivial
  rintro w _ - ⟨t, rfl, h⟩ -
  exact ⟨_, rfl, h.saved _⟩

theorem stage_releaseSavepoint :
    Triple S i l (Stage ign now ps σs) (ReadCommitted.perform (.releaseSavepoint : Op V Y E M Unit))
      (fun _ => Stage ign now ps σs) anything := by
  refine releaseSavepoint Stage.stable ?_ fun _ _ _ _ _ => trivial
  rintro w _ - ⟨t, rfl, h⟩ -
  exact ⟨_, rfl, h.saved _⟩

/-- A commit that is harmless because of what the session knows of its transaction; `D` is what the
commit establishes. -/
theorem stage_commit_then {P : Assertion V Y E M R L} {C : World V Y E M R L → Txn V → Prop}
    {D : World V Y E M R L → Prop} (hP : Stable S i l P)
    (hC : ∀ w t, S.facts w → P w (some t) → C w t) (hcommit : S.Commits i l C)
    (hD : ∀ w T, S.facts w → P w T → D (T.elim w (w.commit i l))) :
    Triple S i l P (ReadCommitted.perform (.commit : Op V Y E M Unit)) (fun _ w T => T = none ∧ D w)
      fun _ _ T => T = none :=
  commit hP (fun w t hfacts hp hstart habort hknown =>
      hcommit w t hfacts hstart habort hknown (hC w t hfacts hp))
    (fun w T hfacts hp => ⟨rfl, hD w T hfacts hp⟩) fun _ _ _ _ _ => ⟨rfl, rfl⟩

/-- The COMMIT of a stage is allowed where the changes on its list are, and leaves no transaction behind. -/
theorem stage_commit {P : Assertion V Y E M R L} {C : World V Y E M R L → Txn V → Prop}
    (hP : Stable S i l P) (hC : ∀ w t, S.facts w → P w (some t) → C w t)
    (hcommit : S.Commits i l C) :
    Triple S i l P (ReadCommitted.perform (.commit : Op V Y E M Unit)) (fun _ _ T => T = none)
      fun _ _ T => T = none :=
  commit hP (fun w t hfacts hp hstart habort hknown =>
      hcommit w t hfacts hstart habort hknown (hC w t hfacts hp))
    (fun _ _ _ _ => rfl) fun _ _ _ _ _ => ⟨rfl, rfl⟩

end Triple

end ReadCommitted
