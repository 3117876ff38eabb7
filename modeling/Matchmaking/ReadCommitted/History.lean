import Matchmaking.ReadCommitted.Footprint
import Mathlib.Data.Int.Order.Basic

/-!
# The history of a run

Whatever the clients do, the log of a run tells the whole story of the committed store: the store is
the replay of the logged commits (`Chained`), entries stand in the order of their times, and a
transaction was opened before it was committed. Where an actor's row operations follow a relation of
rows, its commits do (`commits_follow`).
-/

namespace ReadCommitted

variable {K X : Type} [DecidableEq K] {V : K → Type} {Y : X → Type} {E M R L : Type}

/-- The transaction an event commits and the store before it, from which the store after it can be
computed. -/
def Event.commit? : Event V Y E M R → Option (Txn V × Store V)
  | .commit t before => some (t, before)
  | _ => none

/-- The commits of `log`, newest first, lead from the store `s₀` to the store `s`. -/
inductive Chained (s₀ : Store V) : List (Entry V Y E M R L) → Store V → Prop
  | nil : Chained s₀ [] s₀
  | commit {e : Entry V Y E M R L} {t s log} : e.event.commit? = some (t, s) → Chained s₀ log s →
      Chained s₀ (e :: log) (patch t.writes s)
  | other {e : Entry V Y E M R L} {s log} : e.event.commit? = none → Chained s₀ log s →
      Chained s₀ (e :: log) s

namespace Chained

variable {s₀ s : Store V} {log : List (Entry V Y E M R L)}

/-- What every commit keeps holds of the last store if it holds of the first. -/
theorem invariant {I : Store V → Prop} (h : Chained s₀ log s) (h₀ : I s₀)
    (hstep : ∀ e ∈ log, ∀ t b, e.event.commit? = some (t, b) → I b → I (patch t.writes b)) : I s := by
  induction h with
  | nil => exact h₀
  | @commit e t s log he _ ih =>
    exact hstep e List.mem_cons_self t s he (ih fun e' he' => hstep e' (List.mem_cons_of_mem e he'))
  | @other e s log _ _ ih => exact ih fun e' he' => hstep e' (List.mem_cons_of_mem e he')

/-- A history can be cut at any point. -/
theorem split {newer older : List (Entry V Y E M R L)} (h : Chained s₀ (newer ++ older) s) :
    ∃ m, Chained s₀ older m ∧ Chained m newer s := by
  induction newer generalizing s with
  | nil => exact ⟨s, h, .nil⟩
  | cons e newer ih =>
    cases h with
    | commit he h =>
      obtain ⟨m, hold, hnew⟩ := ih h
      exact ⟨m, hold, .commit he hnew⟩
    | other he h =>
      obtain ⟨m, hold, hnew⟩ := ih h
      exact ⟨m, hold, .other he hnew⟩

/-- A history determines the store it leads to. -/
theorem unique {s' : Store V} (h : Chained s₀ log s) (h' : Chained s₀ log s') : s' = s := by
  induction h generalizing s' with
  | nil =>
    cases h'
    rfl
  | commit he _ _ =>
    cases h' with
    | commit he' _ =>
      obtain ⟨rfl, rfl⟩ := Prod.mk.inj (Option.some.inj (he.symm.trans he'))
      rfl
    | other he' _ => cases he.symm.trans he'
  | other he _ ih =>
    cases h' with
    | commit he' _ => cases he'.symm.trans he
    | other _ h' => exact ih h'

/-- A commit in the middle of a history: what comes before it leads to the store it found, what
comes after starts from the store it left. -/
theorem cut {newer older : List (Entry V Y E M R L)} {e : Entry V Y E M R L} {t : Txn V}
    {b : Store V} (h : Chained s₀ (newer ++ e :: older) s) (he : e.event.commit? = some (t, b)) :
    Chained s₀ older b ∧ Chained (patch t.writes b) newer s := by
  obtain ⟨m, hold, hnew⟩ := h.split
  cases hold with
  | commit he' hold =>
    obtain ⟨rfl, rfl⟩ := Prod.mk.inj (Option.some.inj (he.symm.trans he'))
    exact ⟨hold, hnew⟩
  | other he' _ => cases he.symm.trans he'

/-- What every commit keeps holds of the store that any commit found. -/
theorem before {I : Store V → Prop} (h : Chained s₀ log s) (h₀ : I s₀)
    (hstep : ∀ e ∈ log, ∀ t b, e.event.commit? = some (t, b) → I b → I (patch t.writes b))
    {e : Entry V Y E M R L} (he : e ∈ log) {t : Txn V} {b : Store V}
    (hc : e.event.commit? = some (t, b)) : I b := by
  obtain ⟨newer, older, rfl⟩ := List.append_of_mem he
  exact (h.cut hc).1.invariant h₀ fun e' he' => hstep e' (by simp [he'])

end Chained

/-- What the log says about the world: its commits lead from the first store to the present one, and its
entries are in the order of time. -/
structure History (s₀ : Store V) (w : World V Y E M R L) : Prop where
  chained : Chained s₀ w.log w.committed
  past : ∀ e ∈ w.log, e.time ≤ w.clock
  ordered : w.log.Pairwise fun e e' => e'.time ≤ e.time
  opened : ∀ e ∈ w.log, ∀ t b, e.event.commit? = some (t, b) → t.start ≤ e.time

namespace History

variable {s₀ : Store V} {w : World V Y E M R L}

/-- Entries that are no commits leave the history as it is. -/
theorem push (h : History s₀ w) (i : ℕ) (l : L) {ev : Event V Y E M R} (hev : ev.commit? = none) :
    History s₀ (w.push i l ev) where
  chained := .other hev h.chained
  past e he := by
    rcases List.mem_cons.mp he with rfl | he
    · exact le_refl _
    · exact h.past e he
  ordered := List.pairwise_cons.mpr ⟨fun e he => h.past e he, h.ordered⟩
  opened e he t b hc := by
    rcases List.mem_cons.mp he with rfl | he
    · cases hev.symm.trans hc
    · exact h.opened e he t b hc

/-- A commit adds its transaction to the history, which began before. -/
theorem commit (h : History s₀ w) (i : ℕ) (l : L) {t : Txn V} (ht : t.start ≤ w.clock) :
    History s₀ (w.commit i l t) := by
  unfold World.commit
  split
  · exact h
  refine ⟨.commit rfl h.chained, ?_, List.pairwise_cons.mpr ⟨fun e he => h.past e he, h.ordered⟩, ?_⟩
  · intro e he
    rcases List.mem_cons.mp he with rfl | he
    · exact le_refl _
    · exact h.past e he
  · intro e he t' b hc
    rcases List.mem_cons.mp he with rfl | he
    · obtain ⟨rfl, rfl⟩ := Prod.mk.inj (Option.some.inj hc)
      exact ht
    · exact h.opened e he t' b hc

theorem tick (h : History s₀ w) {d : Time} (hd : 0 ≤ d) :
    History s₀ { w with clock := w.clock + d } where
  chained := h.chained
  past e he := Int.le_trans (h.past e he) (Int.le_add_of_nonneg_right hd)
  ordered := h.ordered
  opened := h.opened

/-- The specification that says nothing but `History`, and that every system satisfies. -/
def spec (s₀ : Store V) : Spec V Y E M R L where
  inv := History s₀
  known _ := True
  rely _ _ _ _ := True
  guar _ _ _ _ := True
  post _ _ _ _ _ := True

end History

/-- **The log is the history.** In every reachable state the committed store is the replay of the
logged commits. -/
theorem history {sys : System V Y E M R L} (hsymm : ∀ l l', sys.exclusive l l' = sys.exclusive l' l)
    {s₀ : Store V} {c₀ : Time} {s : State V Y E M R L}
    (hs : sys.Reachable (.initial s₀ c₀) s) : History s₀ s.world := by
  have hlaw : (History.spec s₀ : Spec V Y E M R L).Lawful sys :=
    { exclusive_symm := hsymm
      rely_refl := fun _ _ _ => trivial
      rely_trans := fun _ _ _ _ _ _ _ => trivial
      guar_rely := fun _ _ _ _ _ _ _ _ _ _ => trivial
      post_stable := fun _ _ _ _ _ _ _ _ _ => trivial
      tick := fun _ _ hd h => ⟨h.tick hd, fun _ _ => trivial⟩
      begun := fun i l _ h => ⟨trivial, h.push i l rfl⟩
      answer := fun i l _ _ _ h _ => ⟨trivial, h.push i l rfl⟩ }
  have h₀ : History s₀ (State.initial s₀ c₀ : State V Y E M R L).world :=
    ⟨.nil, fun _ he => (List.not_mem_nil he).elim, .nil, fun _ he => (List.not_mem_nil he).elim⟩
  have hlog : ∀ i l, (History.spec s₀ : Spec V Y E M R L).Logs i l := by
    intro i l w ev hev h
    refine ⟨trivial, History.push h.1 i l ?_⟩
    cases ev <;> first | rfl | cases hev
  have hgood : (History.spec s₀).Good sys s := Spec.sound hlaw
    (fun i l w _ _ => wp_of_commits (hlog i l)
      (fun w t h ht _ _ _ => ⟨trivial, History.commit h.1 i l ht⟩) _ w none)
    h₀ rfl rfl (fun _ _ => trivial) hs
  exact hgood.inv

/-! ## Commits follow footprints -/

/-- Every logged commit relates each row it finds to the row it leaves, by its actor's relation. -/
def CommitsFollow (Φ : L → RowRel V) (log : List (Entry V Y E M R L)) : Prop :=
  ∀ e ∈ log, ∀ t b, e.event.commit? = some (t, b) →
    ∀ k, Φ e.actor t.start k (b.lookup k) ((patch t.writes b).lookup k)

/-- The specification that says nothing but `CommitsFollow`: each commit changes rows only as its actor's
relation allows. -/
def CommitsFollow.spec (Φ : L → RowRel V) : Spec V Y E M R L where
  inv w := CommitsFollow Φ w.log
  known _ := True
  rely _ _ _ _ := True
  guar _ _ _ _ := True
  post _ _ _ _ _ := True

/-- Entries that are no commits keep a rule on commits. -/
theorem CommitsFollow.push {Φ : L → RowRel V} {w : World V Y E M R L}
    (h : CommitsFollow Φ w.log) (i : ℕ) (l : L) {ev : Event V Y E M R} (hev : ev.commit? = none) :
    CommitsFollow Φ (w.push i l ev).log := by
  intro e he t b hc
  rcases List.mem_cons.mp he with rfl | he
  · cases hev.symm.trans hc
  · exact h e he t b hc

/-- **Footprints show in the log.** Where the row operations of every actor follow a preorder, so do
the rows that its commits change. -/
theorem commits_follow {sys : System V Y E M R L} {Φ : L → RowRel V}
    (hsymm : ∀ l l', sys.exclusive l l' = sys.exclusive l' l)
    (hrefl : ∀ l now k v, Φ l now k v v)
    (htrans : ∀ l now k v v' v'', Φ l now k v v' → Φ l now k v' v'' → Φ l now k v v'')
    (hprog : ∀ l, (sys.program l).Uses (Op.RowsSat (Φ l)))
    {s₀ : Store V} {c₀ : Time} {s : State V Y E M R L} (hs : sys.Reachable (.initial s₀ c₀) s) :
    CommitsFollow Φ s.world.log := by
  have hlaw : (CommitsFollow.spec Φ : Spec V Y E M R L).Lawful sys :=
    { exclusive_symm := hsymm
      rely_refl := fun _ _ _ => trivial
      rely_trans := fun _ _ _ _ _ _ _ => trivial
      guar_rely := fun _ _ _ _ _ _ _ _ _ _ => trivial
      post_stable := fun _ _ _ _ _ _ _ _ _ => trivial
      tick := fun _ _ _ h => ⟨h, fun _ _ => trivial⟩
      begun := fun i l _ h => ⟨trivial, h.push i l rfl⟩
      answer := fun i l _ _ _ h _ => ⟨trivial, h.push i l rfl⟩ }
  have hlog : ∀ i l, (CommitsFollow.spec Φ : Spec V Y E M R L).Logs i l := by
    intro i l w ev hev h
    refine ⟨trivial, CommitsFollow.push h.1 i l ?_⟩
    cases ev <;> first | rfl | cases hev
  -- a commit is the only entry that needs a reason, and its transaction has followed `Φ`
  have hcommits : ∀ i l, (CommitsFollow.spec Φ : Spec V Y E M R L).Commits i l fun w t =>
      ∀ k, Φ l t.start k (w.committed.lookup k) ((patch t.writes w.committed).lookup k) := by
    intro i l w t h _ habort _ hrows
    refine ⟨trivial, fun e he t' b hc => ?_⟩
    rw [World.commit, habort] at he
    rcases List.mem_cons.mp he with rfl | he
    · obtain ⟨rfl, rfl⟩ := Prod.mk.inj (Option.some.inj hc)
      exact hrows
    · exact h.1 e he t' b hc
  have hgood : (CommitsFollow.spec Φ).Good sys s := Spec.sound hlaw
    (fun i l w _ _ => wp_mono (fun _ _ _ _ => trivial) _ w none
      (wp_of_uses (hrefl l) (htrans l) (hlog i l) (hcommits i l) _ (hprog l) w none
        fun t ht => by cases ht))
    (fun _ he => (List.not_mem_nil he).elim) rfl rfl (fun _ _ => trivial) hs
  exact hgood.inv

/-- Every entry of the log is what `P` says, given the older entries. -/
def Justified (P : Entry V Y E M R L → List (Entry V Y E M R L) → Prop)
    (log : List (Entry V Y E M R L)) : Prop :=
  ∀ newer entry older, log = newer ++ entry :: older → P entry older

namespace Justified

variable {P : Entry V Y E M R L → List (Entry V Y E M R L) → Prop} {e : Entry V Y E M R L}
  {log new : List (Entry V Y E M R L)}

omit [DecidableEq K] in
/-- Nothing in an empty log has to be justified. -/
theorem nil : Justified P ([] : List (Entry V Y E M R L)) := fun newer entry older h =>
  absurd h.symm (List.append_ne_nil_of_right_ne_nil newer (List.cons_ne_nil entry older))

omit [DecidableEq K] in
/-- Each new entry has to be justified by those before it. -/
theorem cons (h : Justified P log) (he : P e log) : Justified P (e :: log) := by
  intro newer entry older hlog
  cases newer with
  | nil =>
    obtain ⟨rfl, rfl⟩ := List.cons.inj hlog
    exact he
  | cons e' newer => exact h newer entry older (List.cons.inj hlog).2

omit [DecidableEq K] in
/-- Entries that need no older ones. -/
theorem append (h : Justified P log) (hnew : ∀ e ∈ new, ∀ older, P e older) :
    Justified P (new ++ log) := by
  induction new with
  | nil => exact h
  | cons e new ih =>
    exact (ih fun e' he' => hnew e' (List.mem_cons_of_mem _ he')).cons (hnew e List.mem_cons_self _)

end Justified

/-- The log grew by entries that are all what `p` says: the steps of one session, or of all others. -/
def Added (p : Entry V Y E M R L → Prop) (w w' : World V Y E M R L) : Prop :=
  ∃ new, w'.log = new ++ w.log ∧ ∀ e ∈ new, p e

namespace Added

variable {p : Entry V Y E M R L → Prop} {w w' w'' : World V Y E M R L}

omit [DecidableEq K] in
theorem refl (w : World V Y E M R L) : Added p w w :=
  ⟨[], rfl, fun _ he => (List.not_mem_nil he).elim⟩

omit [DecidableEq K] in
/-- An entry of session `i` is added to its own. -/
theorem push {i : ℕ} (w : World V Y E M R L) (l : L) (ev : Event V Y E M R) :
    Added (fun e => e.session = i) w (w.push i l ev) :=
  ⟨[_], rfl, fun _ he => List.mem_singleton.mp he ▸ rfl⟩

omit [DecidableEq K] in
/-- What is added over two steps has the property in both. -/
theorem trans (h : Added p w w') (h' : Added p w' w'') : Added p w w'' := by
  obtain ⟨new, hnew, hp⟩ := h
  obtain ⟨new', hnew', hp'⟩ := h'
  refine ⟨new' ++ new, by rw [hnew', hnew, List.append_assoc], fun e he => ?_⟩
  exact (List.mem_append.mp he).elim (hp' e) (hp e)

end Added

end ReadCommitted
