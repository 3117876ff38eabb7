import Matchmaking.ReadCommitted.RelyGuarantee

/-!
# Soundness of rely-guarantee specifications

The state invariant `Spec.Good` says that the world satisfies the specification's invariant, that
what is left of every session's program satisfies its weakest precondition, and that no row is
locked twice. Every step keeps it.
-/

namespace ReadCommitted

variable {K X : Type} [DecidableEq K] {V : K → Type} {Y : X → Type} {E M R L : Type}

namespace State

variable (s : State V Y E M R L)

omit [DecidableEq K] in
/-- A session that is running is one of those that there are. -/
theorem lt_length_of_session {i : ℕ} {x : Session V Y E M R L} (h : s.session i = some x) :
    i < s.sessions.length := by
  by_contra hge
  simp [session, List.getElem?_eq_none (not_lt.mp hge)] at h

omit [DecidableEq K] in
@[simp] theorem session_update_self {i : ℕ} (hi : i < s.sessions.length) (w : World V Y E M R L)
    (x : Option (Session V Y E M R L)) : (s.update i w x).session i = x := by
  simp [session, update, hi]

omit [DecidableEq K] in
theorem session_update_ne {i j : ℕ} (hij : i ≠ j) (w : World V Y E M R L)
    (x : Option (Session V Y E M R L)) : (s.update i w x).session j = s.session j := by
  simp [session, update, List.getElem?_set_ne hij]

omit [DecidableEq K] in
theorem session_append_lt {i : ℕ} (hi : i < s.sessions.length) (w : World V Y E M R L)
    (x : Option (Session V Y E M R L)) :
    (State.session ⟨w, s.sessions ++ [x]⟩ i) = s.session i := by
  simp [session, List.getElem?_append_left hi]

omit [DecidableEq K] in
/-- A session after a new one was added: an old one, or the new one. -/
theorem session_append_cases {i : ℕ} {w : World V Y E M R L} {x y : Session V Y E M R L}
    (h : (State.session ⟨w, s.sessions ++ [some y]⟩ i) = some x) :
    (i < s.sessions.length ∧ s.session i = some x) ∨ (i = s.sessions.length ∧ x = y) := by
  rcases Nat.lt_trichotomy i s.sessions.length with hlt | rfl | hgt
  · exact .inl ⟨hlt, (s.session_append_lt hlt w _).symm.trans h⟩
  · exact .inr (by simpa [session, eq_comm] using h)
  · simp [session, List.getElem?_append_right (le_of_lt hgt),
      List.getElem?_eq_none (by simp; omega : [_].length ≤ i - s.sessions.length)] at h

/-- Sessions other than `i` do not hold a row that is free for `i`. -/
theorem holding_of_not_locked {i j : ℕ} {k : K} (h : s.locked i k = false) (hij : i ≠ j)
    {y : Session V Y E M R L} (hy : s.session j = some y) : holding y.txn k = false := by
  simp only [locked, List.any_eq_false, List.mem_range, Bool.and_eq_true, bne_iff_ne, ne_eq,
    not_and] at h
  simpa [hy] using h j (s.lt_length_of_session hy) (Ne.symm hij)

omit [DecidableEq K] in
/-- A session that may start does not exclude any that is running. -/
theorem exclusive_of_excludes {sys : System V Y E M R L} {l : L} (h : s.excludes sys l = false)
    {j : ℕ} {y : Session V Y E M R L} (hy : s.session j = some y) :
    sys.exclusive l y.actor = false := by
  simp only [excludes, List.any_eq_false, List.mem_range] at h
  simpa [hy] using h j (s.lt_length_of_session hy)

end State

variable (sys : System V Y E M R L) (S : Spec V Y E M R L)

/-- The world in which session `i` starts: its start is all that is logged of it. -/
def World.Fresh (w : World V Y E M R L) (i : ℕ) (l : L) : Prop :=
  ∃ older, w.log = ⟨i, l, w.clock, .begun⟩ :: older ∧ ∀ e ∈ older, e.session ≠ i

/-- What holds in every reachable state of a system that meets its specification. -/
structure Spec.Good (s : State V Y E M R L) : Prop where
  inv : S.inv s.world
  running : ∀ i x, s.session i = some x →
    wp S i x.actor (fun r w _ => S.post i x.actor x.born r w) x.prog s.world x.txn
  apart : ∀ i j x y, i ≠ j → s.session i = some x → s.session j = some y →
    sys.exclusive x.actor y.actor = false
  disjoint : ∀ i j x y k, i ≠ j → s.session i = some x → s.session j = some y →
    holding x.txn k = true → holding y.txn k = false
  opened : ∀ i x t, s.session i = some x → x.txn = some t → t.start ≤ s.world.clock
  started : ∀ e ∈ s.world.log, e.session < s.sessions.length

variable {sys S}

/-- Sessions whose world moves along their `env` keep their weakest precondition. -/
theorem Spec.Good.running_env (hS : S.Lawful sys) {s : State V Y E M R L} (hs : S.Good sys s)
    {i : ℕ} {x : Session V Y E M R L} (hx : s.session i = some x) {w' : World V Y E M R L}
    (henv : S.env i x.actor x.txn s.world w') :
    wp S i x.actor (fun r w _ => S.post i x.actor x.born r w) x.prog w' x.txn :=
  wp_env hS (fun r w₁ w₂ _ h => hS.post_stable i x.actor x.born r w₁ w₂ h.rely h.facts)
    x.prog henv (hs.running i x hx)

/-- A step of session `j` that keeps the guarantee is an `env` step for every other session. -/
theorem Spec.Good.env_of_guar (hS : S.Lawful sys) {s : State V Y E M R L} (hs : S.Good sys s)
    (hknown : S.known s.world) {i j : ℕ} (hij : i ≠ j) {x : Session V Y E M R L} {l : L}
    (happ : sys.exclusive x.actor l = false) {w' : World V Y E M R L} (hg : S.guar j l s.world w')
    (hfacts : S.facts w') (hclock : s.world.clock ≤ w'.clock)
    (hkept : ∀ k, holding x.txn k = true → w'.committed.lookup k = s.world.committed.lookup k) :
    S.env i x.actor x.txn s.world w' where
  rely := hS.guar_rely i j x.actor l s.world w' hij happ ⟨hs.inv, hknown⟩ hg
  facts := hfacts
  clock := hclock
  kept := hkept

/-- The turn of a running session: its operation keeps the guarantee and the invariant, and what is
left of its program satisfies its weakest precondition. -/
theorem Spec.Good.turn (hS : S.Lawful sys) {s : State V Y E M R L} (hs : S.Good sys s)
    (hknown : S.known s.world) {i : ℕ} {l : L} {born : Store V} {β : Type} {o : Op V Y E M β}
    {next : Except E β → Prog V Y E M (Except E R)} {T T' : Option (Txn V)}
    (hx : s.session i = some ⟨l, born, .op o next, T⟩) {c : Choice Y E} {r : Except E β}
    {w : World V Y E M R L} (hop : o.exec i l (s.locked i) c s.world T = some (r, w, T'))
    (hknown' : S.known w) : Turn T (s.locked i) s.world ∧
      (w = s.world ∨ S.guar i l s.world w ∧ S.inv w) ∧
      wp S i l (fun r w _ => S.post i l born r w) (next r) w T' := by
  have hdisj : ∀ k, holding T k = true → s.locked i k = false := by
    intro k hk
    simp only [State.locked, List.any_eq_false, Bool.and_eq_true, bne_iff_ne, Option.any_eq_true,
      not_and, not_exists]
    intro j _ hji y hy
    simpa using hs.disjoint i j _ y k (Ne.symm hji) hx hy hk
  have hturn : Turn T (s.locked i) s.world := ⟨hdisj, fun t ht => hs.opened i _ t hx ht⟩
  exact ⟨hturn, hs.running i _ hx s.world (.refl hS ⟨hs.inv, hknown⟩) (s.locked i) c r w T' hturn hop
    hknown'⟩

/-- A row locked by another session is not locked by `i`, before or after an operation of `i`. -/
theorem Spec.Good.others {s : State V Y E M R L} (hs : S.Good sys s) {i : ℕ}
    {x : Session V Y E M R L} (hx : s.session i = some x) {c : Choice Y E} {β : Type}
    {o : Op V Y E M β} {r : Except E β} {w : World V Y E M R L} {T' : Option (Txn V)}
    (hop : o.exec i x.actor (s.locked i) c s.world x.txn = some (r, w, T')) {j : ℕ}
    {y : Session V Y E M R L} (hij : i ≠ j) (hy : s.session j = some y) {k : K}
    (hk : holding y.txn k = true) : holding x.txn k = false ∧ holding T' k = false := by
  have hT : holding x.txn k = false := hs.disjoint j i y _ k (Ne.symm hij) hy hx hk
  refine ⟨hT, Bool.eq_false_iff.mpr fun hk' => ?_⟩
  rcases exec_holding hop hk' with h | ⟨-, h⟩
  · rw [h] at hT
    cases hT
  · rw [s.holding_of_not_locked h hij hy] at hk
    cases hk

/-- A step moves the world along the `env` of every session that does not take it. -/
theorem Spec.Good.env_step (hS : S.Lawful sys) {s s' : State V Y E M R L} (hs : S.Good sys s)
    (hknown : S.known s.world) {a : Action Y E L} (hexec : sys.exec a s = some s')
    (hknown' : S.known s'.world) {j : ℕ} {y : Session V Y E M R L} (hy : s.session j = some y)
    (ha : ∀ c, a ≠ .exec j c) (hfinish : a ≠ .finish j) :
    S.env j y.actor y.txn s.world s'.world := by
  cases a with
  | start l =>
    simp only [System.exec] at hexec
    split at hexec <;> cases hexec
    next hexcl =>
    obtain ⟨hguar, hinv⟩ := hS.begun s.sessions.length l s.world hs.inv
    refine hs.env_of_guar hS hknown (ne_of_lt (s.lt_length_of_session hy)) ?_ hguar ⟨hinv, hknown'⟩
      (Int.le_refl _) fun k _ => rfl
    rw [hS.exclusive_symm]
    exact s.exclusive_of_excludes (by simpa using hexcl) hy
  | exec i c =>
    have hij : i ≠ j := fun h => ha c (h ▸ rfl)
    simp only [System.exec] at hexec
    split at hexec
    case h_2 => cases hexec
    case h_1 l born β o next T hx =>
    obtain ⟨⟨r, w, T'⟩, hop, rfl⟩ := Option.map_eq_some_iff.mp hexec
    obtain ⟨-, rfl | ⟨hguar, hinv⟩, -⟩ := hs.turn hS hknown hx hop hknown'
    · exact .refl hS ⟨hs.inv, hknown⟩
    · exact hs.env_of_guar hS hknown (Ne.symm hij) (hs.apart j i y _ (Ne.symm hij) hy hx) hguar
        ⟨hinv, hknown'⟩ (Int.le_of_eq (exec_clock hop).symm)
        fun k hk => exec_kept hop (hs.others hx hop hij hy hk).1
  | finish i =>
    have hij : i ≠ j := fun h => hfinish (h ▸ rfl)
    simp only [System.exec] at hexec
    split at hexec
    case h_2 => cases hexec
    case h_1 l born r T hx =>
    cases hexec
    obtain ⟨hguar, hinv⟩ := hS.answer i l born r s.world hs.inv (hs.running i _ hx)
    exact hs.env_of_guar hS hknown (Ne.symm hij) (hs.apart j i y _ (Ne.symm hij) hy hx) hguar
      ⟨hinv, hknown'⟩ (Int.le_refl _) fun _ _ => rfl
  | crash i =>
    obtain ⟨x, -, rfl⟩ := Option.map_eq_some_iff.mp hexec
    exact .refl hS ⟨hs.inv, hknown⟩
  | tick d =>
    cases hexec
    obtain ⟨hinv, hrely⟩ := hS.tick s.world d (Int.natCast_nonneg d) hs.inv
    exact ⟨hrely j y.actor, ⟨hinv, hknown'⟩, Int.le_add_of_nonneg_right (Int.natCast_nonneg d),
      fun _ _ => rfl⟩

/-- Starting a session. -/
theorem Spec.Good.start (hS : S.Lawful sys)
    (hprog : ∀ i l w, S.facts w → w.Fresh i l →
      wp S i l (fun r w' _ => S.post i l w.committed r w') (sys.program l).run w none)
    {s s' : State V Y E M R L} (hs : S.Good sys s) {l : L} (hknown : S.known s.world)
    (hexec : sys.exec (.start l) s = some s') (hknown' : S.known s'.world) : S.Good sys s' := by
  have henv : ∀ {j y}, s.session j = some y → S.env j y.actor y.txn s.world s'.world := fun hy =>
    hs.env_step hS hknown hexec hknown' hy (fun _ h => by cases h) fun h => by cases h
  simp only [System.exec] at hexec
  split at hexec <;> cases hexec
  next hexcl =>
  have hinv := (hS.begun s.sessions.length l s.world hs.inv).2
  have happ : ∀ {i x}, s.session i = some x → sys.exclusive l x.actor = false :=
    s.exclusive_of_excludes (by simpa using hexcl)
  refine ⟨hinv, ?_, ?_, ?_, ?_, ?_⟩
  · intro i x hx
    rcases s.session_append_cases hx with ⟨-, hx⟩ | ⟨rfl, rfl⟩
    · exact hs.running_env hS hx (henv hx)
    · exact hprog _ l _ ⟨hinv, hknown'⟩ ⟨_, rfl, fun e he => ne_of_lt (hs.started e he)⟩
  · intro i j x y hij hx hy
    rcases s.session_append_cases hx with ⟨-, hx⟩ | ⟨rfl, rfl⟩ <;>
      rcases s.session_append_cases hy with ⟨-, hy⟩ | ⟨rfl, rfl⟩
    · exact hs.apart i j x y hij hx hy
    · rw [hS.exclusive_symm]
      exact happ hx
    · exact happ hy
    · exact absurd rfl hij
  · intro i j x y k hij hx hy hk
    rcases s.session_append_cases hx with ⟨-, hx⟩ | ⟨rfl, rfl⟩
    · rcases s.session_append_cases hy with ⟨-, hy⟩ | ⟨rfl, rfl⟩
      · exact hs.disjoint i j x y k hij hx hy hk
      · rfl
    · simp [holding] at hk
  · intro i x t hx ht
    rcases s.session_append_cases hx with ⟨-, hx⟩ | ⟨rfl, rfl⟩
    · exact hs.opened i x t hx ht
    · cases ht
  · intro e he
    simp only [List.length_append, List.length_singleton]
    rcases List.mem_cons.mp he with rfl | he
    · exact Nat.lt_succ_self _
    · exact Nat.lt_succ_of_lt (hs.started e he)

/-- One operation of a running session. -/
theorem Spec.Good.exec (hS : S.Lawful sys) {s s' : State V Y E M R L} (hs : S.Good sys s) {i : ℕ}
    {c : Choice Y E} (hknown : S.known s.world) (hexec : sys.exec (.exec i c) s = some s')
    (hknown' : S.known s'.world) : S.Good sys s' := by
  have henv : ∀ {j y}, i ≠ j → s.session j = some y → S.env j y.actor y.txn s.world s'.world :=
    fun hij hy => hs.env_step hS hknown hexec hknown' hy (fun _ h => hij (by cases h; rfl))
      fun h => by cases h
  simp only [System.exec] at hexec
  split at hexec
  case h_2 => cases hexec
  case h_1 l born β o next T hx =>
  obtain ⟨⟨r, w, T'⟩, hop, rfl⟩ := Option.map_eq_some_iff.mp hexec
  have hlt := s.lt_length_of_session hx
  have hclock := exec_clock hop
  obtain ⟨-, hstep, hnext⟩ := hs.turn hS hknown hx hop hknown'
  -- the invariant is broken by no operation, also by one that changes nothing
  have hinv : S.inv w := by
    rcases hstep with rfl | ⟨-, hinv⟩
    · exact hs.inv
    · exact hinv
  refine ⟨hinv, ?_, ?_, ?_, ?_, ?_⟩
  -- the session itself goes on; for the others this step is one of their environment
  · intro j y hy
    by_cases hij : i = j
    · subst hij
      rw [s.session_update_self hlt] at hy
      cases hy
      exact hnext
    · rw [s.session_update_ne hij] at hy
      exact hs.running_env hS hy (henv hij hy)
  -- an operation does not change who the actors are
  · intro j j' y y' hjj' hy hy'
    -- every session after the step was running before it, under the same actor
    have hact : ∀ {j y}, (s.update i w (some ⟨l, born, next r, T'⟩)).session j = some y →
        ∃ y₀, s.session j = some y₀ ∧ y₀.actor = y.actor := by
      intro j y hy
      by_cases hij : i = j
      · subst hij
        rw [s.session_update_self hlt] at hy
        cases hy
        exact ⟨_, hx, rfl⟩
      · rw [s.session_update_ne hij] at hy
        exact ⟨y, hy, rfl⟩
    obtain ⟨y₀, hy₀, hact₀⟩ := hact hy
    obtain ⟨y₁, hy₁, hact₁⟩ := hact hy'
    rw [← hact₀, ← hact₁]
    exact hs.apart j j' y₀ y₁ hjj' hy₀ hy₁
  -- a row locked now was locked before, or was free for this session
  · intro j j' y y' k hjj' hy hy' hk
    by_cases hij : i = j
    · subst hij
      rw [s.session_update_self hlt] at hy
      rw [s.session_update_ne hjj'] at hy'
      cases hy
      by_contra hk'
      have hother := (hs.others hx hop hjj' hy' (by simpa using hk')).2
      rw [hk] at hother
      cases hother
    · rw [s.session_update_ne hij] at hy
      by_cases hij' : i = j'
      · subst hij'
        rw [s.session_update_self hlt] at hy'
        cases hy'
        exact (hs.others hx hop hij hy hk).2
      · rw [s.session_update_ne hij'] at hy'
        exact hs.disjoint j j' y y' k hjj' hy hy' hk
  -- transactions keep the time they were opened at, and the clock does not go back
  · intro j y t hy ht
    by_cases hij : i = j
    · subst hij
      rw [s.session_update_self hlt] at hy
      cases hy
      rw [exec_start hop ht]
      change (s.world.txn T).start ≤ w.clock
      rw [hclock]
      cases T with
      | none => exact Int.le_refl _
      | some t₀ => exact hs.opened i _ t₀ hx rfl
    · rw [s.session_update_ne hij] at hy
      exact Int.le_trans (hs.opened j y t hy ht) (Int.le_of_eq hclock.symm)
  -- the new entries of the log are the session's own
  · intro e he
    simp only [State.update, List.length_set]
    obtain ⟨new, hlog, hnew⟩ := exec_entries hop
    rcases List.mem_append.mp (hlog ▸ he : e ∈ new ++ s.world.log) with he | he
    · exact hnew e he ▸ hlt
    · exact hs.started e he

/-- Removing a session keeps what holds of the others in a later world. -/
theorem Spec.Good.remove {s : State V Y E M R L} (hs : S.Good sys s) {i : ℕ}
    (hlt : i < s.sessions.length) {w : World V Y E M R L} (hinv : S.inv w)
    (hclock : s.world.clock ≤ w.clock)
    (hlog : ∀ e ∈ w.log, e.session = i ∨ e ∈ s.world.log)
    (hrun : ∀ j x, i ≠ j → s.session j = some x →
      wp S j x.actor (fun r w _ => S.post j x.actor x.born r w) x.prog w x.txn) :
    S.Good sys (s.update i w none) := by
  have hold : ∀ {j x}, (s.update i w none).session j = some x → i ≠ j ∧ s.session j = some x := by
    intro j x hx
    by_cases hij : i = j
    · subst hij
      rw [s.session_update_self hlt] at hx
      cases hx
    · exact ⟨hij, by rwa [s.session_update_ne hij] at hx⟩
  refine ⟨hinv, ?_, ?_, ?_, ?_, ?_⟩
  · intro j x hx
    exact hrun j x (hold hx).1 (hold hx).2
  · intro j j' x y hij hx hy
    exact hs.apart j j' x y hij (hold hx).2 (hold hy).2
  · intro j j' x y k hij hx hy
    exact hs.disjoint j j' x y k hij (hold hx).2 (hold hy).2
  · intro j x t hx ht
    exact Int.le_trans (hs.opened j x t (hold hx).2 ht) hclock
  · intro e he
    simp only [State.update, List.length_set]
    rcases hlog e he with rfl | he
    · exact hlt
    · exact hs.started e he

/-- Every step keeps the state invariant. -/
theorem Spec.Good.step (hS : S.Lawful sys)
    (hprog : ∀ i l w, S.facts w → w.Fresh i l →
      wp S i l (fun r w' _ => S.post i l w.committed r w') (sys.program l).run w none)
    {s s' : State V Y E M R L} (hs : S.Good sys s) (hstep : sys.Step s s')
    (hknown : S.known s.world) (hknown' : S.known s'.world) : S.Good sys s' := by
  obtain ⟨a, hexec⟩ := hstep
  cases a with
  | start l => exact hs.start hS hprog hknown hexec hknown'
  | exec i c => exact hs.exec hS hknown hexec hknown'
  | finish i =>
    have henv : ∀ {j y}, i ≠ j → s.session j = some y → S.env j y.actor y.txn s.world s'.world :=
      fun hij hy => hs.env_step hS hknown hexec hknown' hy (fun _ h => by cases h)
        fun h => hij (by cases h; rfl)
    simp only [System.exec] at hexec
    split at hexec
    case h_2 => cases hexec
    case h_1 l born r T hx =>
    cases hexec
    have hinv := (hS.answer i l born r s.world hs.inv (hs.running i _ hx)).2
    refine hs.remove (s.lt_length_of_session hx) hinv (Int.le_refl _) (fun e he => ?_)
      fun j y hij hy => hs.running_env hS hy (henv hij hy)
    rcases List.mem_cons.mp he with rfl | he
    · exact .inl rfl
    · exact .inr he
  | crash i =>
    simp only [System.exec, Option.map_eq_some_iff] at hexec
    obtain ⟨x, hx, rfl⟩ := hexec
    exact hs.remove (s.lt_length_of_session hx) hs.inv (Int.le_refl _) (fun _ he => .inr he)
      fun j y _ hy => hs.running j y hy
  | tick d =>
    have henv : ∀ {j y}, s.session j = some y → S.env j y.actor y.txn s.world s'.world := fun hy =>
      hs.env_step hS hknown hexec hknown' hy (fun _ h => by cases h) fun h => by cases h
    cases hexec
    have hinv := (hS.tick s.world d (Int.natCast_nonneg d) hs.inv).1
    have hle : s.world.clock ≤ s.world.clock + d := Int.le_add_of_nonneg_right (Int.natCast_nonneg d)
    exact ⟨hinv, fun i x hx => hs.running_env hS hx (henv hx), hs.apart, hs.disjoint,
      fun i x t hx ht => Int.le_trans (hs.opened i x t hx ht) hle, hs.started⟩

/-- **Soundness.** If every program satisfies its weakest precondition in every world with the
invariant, then the invariant holds in every reachable state. -/
theorem Spec.sound (hS : S.Lawful sys)
    (hprog : ∀ i l w, S.facts w → w.Fresh i l →
      wp S i l (fun r w' _ => S.post i l w.committed r w') (sys.program l).run w none)
    {s₀ : State V Y E M R L} (h₀ : S.inv s₀.world) (hnone : s₀.sessions = [])
    (hempty : s₀.world.log = [])
    (hknown : ∀ s, sys.Reachable s₀ s → S.known s.world)
    {s : State V Y E M R L} (hs : sys.Reachable s₀ s) : S.Good sys s := by
  induction hs with
  | refl =>
    have hsession : ∀ i, s₀.session i = none := by simp [State.session, hnone]
    refine ⟨h₀, ?_, ?_, ?_, ?_, ?_⟩ <;> intro i <;> simp [hsession, hempty]
  | step hreach hstep ih =>
    exact ih.step hS hprog hstep (hknown _ hreach) (hknown _ (.step hreach hstep))

end ReadCommitted
