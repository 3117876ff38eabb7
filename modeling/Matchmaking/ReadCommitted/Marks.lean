import Matchmaking.ReadCommitted.History

/-!
# What each session leaves in the log

A `LogRule` keeps some entries of a log as marks and says which sequences of marks one session may
leave. No session adds to another one's marks, so a program is followed knowing exactly what its
session has left so far, and the invariant of the specification speaks about every session in every
state, whether it has ended, is under way, or has crashed.
-/

namespace ReadCommitted

variable {K X : Type} {V : K → Type} {Y : X → Type} {E M R L μ α : Type}

/-! ## Marks -/

/-- What `mark` keeps of the entries of session `i`, newest first. -/
def marks (mark : Entry V Y E M R L → Option μ) (i : ℕ) (log : List (Entry V Y E M R L)) : List μ :=
  (log.filter fun e => e.session = i).filterMap mark

section Lists

variable {mark : Entry V Y E M R L → Option μ} {i : ℕ} {e : Entry V Y E M R L} {m : μ}
  {log new : List (Entry V Y E M R L)}

/-- Entries of other sessions leave no mark of this one. -/
theorem marks_cons_other (he : e.session ≠ i) : marks mark i (e :: log) = marks mark i log := by
  rw [marks, List.filter_cons_of_neg (by simpa using he), marks]

theorem marks_cons_none (he : mark e = none) : marks mark i (e :: log) = marks mark i log := by
  by_cases hi : e.session = i
  · rw [marks, List.filter_cons_of_pos (by simpa using hi), List.filterMap_cons_none he, marks]
  · exact marks_cons_other hi

/-- An entry with a mark puts it in front. -/
theorem marks_cons_some (hi : e.session = i) (he : mark e = some m) :
    marks mark i (e :: log) = m :: marks mark i log := by
  rw [marks, List.filter_cons_of_pos (by simpa using hi), List.filterMap_cons_some he, marks]

/-- An entry of the session adds its mark, if it has one. -/
theorem marks_cons {l : L} {time : Time} {ev : Event V Y E M R} : marks mark i (⟨i, l, time, ev⟩ :: log)
    = (mark ⟨i, l, time, ev⟩).toList ++ marks mark i log := by
  cases he : mark ⟨i, l, time, ev⟩ with
  | none => exact marks_cons_none he
  | some m => exact marks_cons_some rfl he

theorem marks_append_others (hnew : ∀ e ∈ new, e.session ≠ i) :
    marks mark i (new ++ log) = marks mark i log := by
  induction new with
  | nil => rfl
  | cons e new ih =>
    rw [List.cons_append, marks_cons_other (hnew e List.mem_cons_self),
      ih fun e' he' => hnew e' (List.mem_cons_of_mem _ he')]

/-- The marks of a log are those of its parts. -/
theorem marks_append : marks mark i (new ++ log) = marks mark i new ++ marks mark i log := by
  rw [marks, List.filter_append, List.filterMap_append, marks, marks]

/-- A mark comes from an entry of the session. -/
theorem mem_marks : m ∈ marks mark i log ↔ ∃ e ∈ log, e.session = i ∧ mark e = some m := by
  simp only [marks, List.mem_filterMap, List.mem_filter, decide_eq_true_eq, and_assoc]

end Lists

/-! ## Rules -/

/-- Which sequences of marks a session may leave, newest first. The rule decides which entries of the log are
marks, and which lists of them are fine; each session is looked at on its own. -/
structure LogRule (V : K → Type) (Y : X → Type) (E M R L μ : Type) where
  mark : Entry V Y E M R L → Option μ
  fine : List μ → Prop
  start : fine []
  begun : ∀ i l time, mark ⟨i, l, time, .begun⟩ = none

/-- How the world may move as far as a specification is concerned: any log entry and the passing of
time are allowed. -/
structure Growth (grows : World V Y E M R L → World V Y E M R L → Prop) : Prop where
  refl : ∀ w, grows w w
  trans : ∀ w w' w'', grows w w' → grows w' w'' → grows w w''
  push : ∀ w i l ev, grows w (w.push i l ev)
  tick : ∀ w d, 0 ≤ d → grows w { w with clock := w.clock + d }

variable [DecidableEq K]

/-- An answer of session `i` keeps the rule, with the marks that the session has left before it. -/
def LogRule.Answers (ρ : LogRule V Y E M R L μ) (i : ℕ) (l : L) (r : Except E R)
    (log : List (Entry V Y E M R L)) : Prop :=
  ∀ born time, ρ.fine (marks ρ.mark i log) →
    ρ.fine (marks ρ.mark i (⟨i, l, time, .answer born r⟩ :: log))

/-- All sessions keep the rule, with their answers as well; what is `known` of the world, and how it `grows`,
comes from elsewhere. -/
def LogRule.spec (ρ : LogRule V Y E M R L μ) (known : World V Y E M R L → Prop)
    (grows : World V Y E M R L → World V Y E M R L → Prop) : Spec V Y E M R L where
  inv w := ∀ j, ρ.fine (marks ρ.mark j w.log)
  known := known
  rely i _ w w' := grows w w' ∧ Added (fun e => e.session ≠ i) w w'
  guar i _ w w' := grows w w' ∧ Added (fun e => e.session = i) w w'
  post i l _ r w := ρ.Answers i l r w.log

/-- Operations that leave no marks, where transactions whose rows follow `Φ` leave none. -/
def Op.Silent (mark : Entry V Y E M R L → Option μ) (i : ℕ) (l : L) (Φ : RowRel V) :
    {β : Type} → Op V Y E M β → Prop
  | _, .row k _ f => ∀ now v, (f now v).Sat (Φ now k) v
  | _, .commit => ∀ time t b,
      (∀ k, Φ t.start k (b.lookup k) ((patch t.writes b).lookup k)) →
        mark ⟨i, l, time, .commit t b⟩ = none
  | _, .call x => ∀ time y, mark ⟨i, l, time, .call x y⟩ = none
  | _, .emit m => ∀ time, mark ⟨i, l, time, .emit m⟩ = none
  | _, _ => True

/-- A silent operation writes only rows that the relation allows. -/
theorem Op.Silent.rowsSat {mark : Entry V Y E M R L → Option μ} {i : ℕ} {l : L} {Φ : RowRel V}
    {β : Type} {o : Op V Y E M β} (h : o.Silent mark i l Φ) : o.RowsSat Φ := by
  cases o with
  | row k skip f => exact h
  | _ => trivial

/-- A silent operation leaves the world alone, or adds an entry without a mark. -/
theorem exec_silent {mark : Entry V Y E M R L → Option μ} {i : ℕ} {l : L} {Φ : RowRel V}
    (hrefl : ∀ now k v, Φ now k v v) {locked : K → Bool} {c : Choice Y E} {β : Type}
    {o : Op V Y E M β} {w w' : World V Y E M R L} {T T' : Option (Txn V)} {r : Except E β}
    (ho : o.Silent mark i l Φ) (hfollows : Follows Φ w T)
    (h : o.exec i l locked c w T = some (r, w', T')) :
    w' = w ∨ (∃ t, T = some t ∧ t.aborted = false ∧ w' = w.commit i l t ∧
        mark ⟨i, l, w.clock, .commit t w.committed⟩ = none) ∨
      ∃ ev, w' = w.push i l ev ∧ mark ⟨i, l, w.clock, ev⟩ = none := by
  cases o with
  | commit =>
    have hcommit : w' = w ∨ w' = T.elim w (w.commit i l) := by
      cases c <;> simp only [Op.exec, Option.some.injEq, Prod.mk.injEq, reduceCtorEq] at h
      · exact .inr h.2.1.symm
      · exact .inl h.2.1.symm
      · exact .inr h.2.1.symm
    obtain rfl | rfl := hcommit
    · exact .inl rfl
    cases T with
    | none => exact .inl rfl
    | some t =>
      cases hlive : t.aborted with
      | true => exact .inl (by simp [World.commit, hlive])
      | false => exact .inr (.inl ⟨t, rfl, hlive, rfl, ho _ _ _ (hfollows.view hrefl)⟩)
  | call x =>
    cases c <;> simp only [Op.exec, Option.some.injEq, Prod.mk.injEq, reduceCtorEq] at h
    exact .inr (.inr ⟨_, h.2.1.symm, ho _ _⟩)
  | emit m =>
    simp only [Op.exec, Option.some.injEq, Prod.mk.injEq] at h
    exact .inr (.inr ⟨_, h.2.1.symm, ho _⟩)
  | rollback =>
    cases c <;> simp only [Op.exec, Option.some.injEq, Prod.mk.injEq, reduceCtorEq] at h <;>
      exact .inl h.2.1.symm
  | inTransaction =>
    simp only [Op.exec, Option.some.injEq, Prod.mk.injEq] at h
    exact .inl h.2.1.symm
  | _ => exact .inl (statement_cases h).1

namespace LogRule

variable {ρ : LogRule V Y E M R L μ} {known : World V Y E M R L → Prop}
  {grows : World V Y E M R L → World V Y E M R L → Prop} {i : ℕ} {l : L} {ms : List μ}

/-- The session has left exactly these marks, newest first. Nobody else can change this, which makes it the
assertion that proofs carry from operation to operation. -/
def Marked (ρ : LogRule V Y E M R L μ) (i : ℕ) (ms : List μ) : Assertion V Y E M R L :=
  fun w _ => marks ρ.mark i w.log = ms

omit [DecidableEq K] in
/-- A session that begins has left no marks. -/
theorem marked_fresh {w : World V Y E M R L} (h : w.Fresh i l) {T : Option (Txn V)} :
    ρ.Marked i [] w T := by
  obtain ⟨older, hlog, hothers⟩ := h
  have hnone : marks ρ.mark i (older ++ []) = marks ρ.mark i [] := marks_append_others hothers
  rw [List.append_nil] at hnone
  rw [Marked, hlog, marks_cons_none (ρ.begun i l w.clock), hnone]
  rfl

omit [DecidableEq K] in
/-- Answers without marks. -/
theorem answers_of_none {r : Except E R} {log : List (Entry V Y E M R L)}
    (h : ∀ born time, ρ.mark ⟨i, l, time, .answer born r⟩ = none) : ρ.Answers i l r log := by
  intro born time hfine
  rw [marks_cons_none (h born time)]
  exact hfine

theorem marked_stable : Stable (ρ.spec known grows) i l (ρ.Marked i ms) := by
  intro w w' _ henv h
  obtain ⟨new, hnew, hothers⟩ := henv.rely.2
  rw [Marked, hnew, marks_append_others hothers, h]

omit [DecidableEq K] in
/-- An entry of session `i` matters to the marks of session `i` only. -/
theorem inv_cons {log : List (Entry V Y E M R L)} (h : ∀ j, ρ.fine (marks ρ.mark j log))
    {e : Entry V Y E M R L} (hfine : ρ.fine (marks ρ.mark e.session (e :: log))) (j : ℕ) :
    ρ.fine (marks ρ.mark j (e :: log)) := by
  by_cases hj : e.session = j
  · exact hj ▸ hfine
  · rw [marks_cons_other hj]
    exact h j

section Growing

variable (hG : Growth grows)

omit [DecidableEq K] in
include hG in
/-- An entry may be logged where the marks with it follow the rule. -/
theorem spec_push {w : World V Y E M R L} (h : (ρ.spec known grows).inv w) {ev : Event V Y E M R}
    (hev : ρ.fine (marks ρ.mark i (⟨i, l, w.clock, ev⟩ :: w.log))) :
    (ρ.spec known grows).guar i l w (w.push i l ev) ∧ (ρ.spec known grows).inv (w.push i l ev) :=
  ⟨⟨hG.push w i l ev, .push ..⟩, inv_cons h hev⟩

omit [DecidableEq K] in
include hG in
/-- What each session guarantees of its own marks, the others rely on. -/
theorem spec_lawful [DecidableEq K] {sys : System V Y E M R L}
    (hsymm : ∀ l l', sys.exclusive l l' = sys.exclusive l' l) :
    (ρ.spec known grows).Lawful sys where
  exclusive_symm := hsymm
  rely_refl _ _ w := ⟨hG.refl w, .refl w⟩
  rely_trans _ _ _ _ _ h h' := ⟨hG.trans _ _ _ h.1 h'.1, h.2.trans h'.2⟩
  guar_rely i j _ _ _ _ hij _ _ h := by
    obtain ⟨hgrows, new, hnew, hsession⟩ := h
    exact ⟨hgrows, new, hnew, fun e he heq => hij (heq.symm.trans (hsession e he))⟩
  post_stable i l _ r w w' h _ hpost born time hfine := by
    obtain ⟨new, hnew, hothers⟩ := h.2
    rw [hnew, marks_append_others hothers] at hfine
    have hsame : marks ρ.mark i (⟨i, l, time, .answer born r⟩ :: w'.log)
        = marks ρ.mark i (⟨i, l, time, .answer born r⟩ :: w.log) := by
      cases hmark : ρ.mark ⟨i, l, time, .answer born r⟩ with
      | none => rw [marks_cons_none hmark, marks_cons_none hmark, hnew, marks_append_others hothers]
      | some m =>
        rw [marks_cons_some rfl hmark, marks_cons_some rfl hmark, hnew, marks_append_others hothers]
    rw [hsame]
    exact hpost born time hfine
  tick w d hd h := ⟨h, fun _ _ => ⟨hG.tick w d hd, .refl w⟩⟩
  begun i l w h := by
    refine spec_push hG h ?_
    rw [marks_cons_none (ρ.begun i l w.clock)]
    exact h i
  answer i l born r w h hpost := spec_push hG h (hpost born w.clock (h i))

/-- Commits keep the rule whose marks do. -/
theorem spec_commits {C : World V Y E M R L → Txn V → Prop}
    (hknown : ∀ w t, t.aborted = false → known (w.commit i l t) → grows w (w.commit i l t))
    (hC : ∀ w t, (ρ.spec known grows).facts w → C w t → known (w.commit i l t) →
      t.aborted = false → ρ.fine (marks ρ.mark i (⟨i, l, w.clock, .commit t w.committed⟩ :: w.log))) :
    (ρ.spec known grows).Commits i l C := by
  intro w t hfacts _ hlive hk hc
  have hgrows := hknown w t hlive hk
  have hfine := hC w t hfacts hc hk hlive
  simp only [World.commit, hlive, Bool.false_eq_true, if_false] at hgrows ⊢
  exact ⟨⟨hgrows, .push w l (.commit t w.committed)⟩,
    inv_cons hfacts.1 hfine⟩

include hG in
/-- An entry with or without a mark; what it does not touch is kept. -/
theorem emit_marked {P : Assertion V Y E M R L} (hP : Stable (ρ.spec known grows) i l P) {m : M}
    {k : Option μ} (hpush : ∀ w T, P w T → P (w.push i l (.emit m)) T)
    (hmark : ∀ time, ρ.mark ⟨i, l, time, .emit m⟩ = k) (hfine : ρ.fine ms → ρ.fine (k.toList ++ ms))
    {F : E → Assertion V Y E M R L} :
    Triple (ρ.spec known grows) i l (fun w T => P w T ∧ ρ.Marked i ms w T) (perform (.emit m))
      (fun _ w T => P w T ∧ ρ.Marked i (k.toList ++ ms) w T) F := by
  have hcons : ∀ {w : World V Y E M R L} {T : Option (Txn V)}, ρ.Marked i ms w T →
      marks ρ.mark i (⟨i, l, w.clock, .emit m⟩ :: w.log) = k.toList ++ ms := fun h => by
    rw [marks_cons, hmark, show marks ρ.mark i _ = ms from h]
  refine Triple.emit (hP.and marked_stable) (fun w T hfacts h => spec_push hG hfacts.1 ?_)
    fun w T _ h => ⟨hpush w T h.1, hcons h.2⟩
  rw [hcons h.2]
  exact hfine ((show marks ρ.mark i _ = ms from h.2) ▸ hfacts.1 i)

include hG in
/-- Marking the log; what the mark does not touch is kept. -/
theorem emit_keeping {P : Assertion V Y E M R L} (hP : Stable (ρ.spec known grows) i l P) {m : M} {k : μ}
    (hpush : ∀ w T, P w T → P (w.push i l (.emit m)) T)
    (hmark : ∀ time, ρ.mark ⟨i, l, time, .emit m⟩ = some k) (hfine : ρ.fine (k :: ms))
    {F : E → Assertion V Y E M R L} :
    Triple (ρ.spec known grows) i l (fun w T => P w T ∧ ρ.Marked i ms w T) (perform (.emit m))
      (fun _ w T => P w T ∧ ρ.Marked i (k :: ms) w T) F :=
  emit_marked hG hP hpush hmark fun _ => hfine

include hG in
/-- Marking the log. -/
theorem emit {m : M} {k : μ} (hmark : ∀ time, ρ.mark ⟨i, l, time, .emit m⟩ = some k)
    (hfine : ρ.fine (k :: ms)) {F : E → Assertion V Y E M R L} :
    Triple (ρ.spec known grows) i l (ρ.Marked i ms) (perform (.emit m)) (fun _ => ρ.Marked i (k :: ms))
      F :=
  (emit_keeping hG (Stable.own fun _ => True) (fun _ _ h => h) hmark hfine).conseq
    (fun _ _ h => ⟨trivial, h⟩) (fun _ _ _ h => h.2) fun _ _ _ h => h

include hG in
/-- A mark of the program that is none of the rule changes nothing. -/
theorem emit_silent {m : M} (hmark : ∀ time, ρ.mark ⟨i, l, time, .emit m⟩ = none)
    {F : E → Assertion V Y E M R L} :
    Triple (ρ.spec known grows) i l (ρ.Marked i ms) (perform (.emit m)) (fun _ => ρ.Marked i ms) F :=
  (emit_marked hG (Stable.own fun _ => True) (fun _ _ h => h) hmark fun h => h).conseq
    (fun _ _ h => ⟨trivial, h⟩) (fun _ _ _ h => h.2) fun _ _ _ h => h

include hG in
/-- A program of silent operations leaves no marks. -/
theorem silent {Φ : RowRel V} (hrefl : ∀ now k v, Φ now k v v)
    (htrans : ∀ now k v v' v'', Φ now k v v' → Φ now k v' v'' → Φ now k v v'')
    (hknown : ∀ w t, t.aborted = false → known (w.commit i l t) → grows w (w.commit i l t))
    {x : Client V Y E M α} (hx : x.Uses (Op.Silent ρ.mark i l Φ)) :
    Triple (ρ.spec known grows) i l (fun w T => Follows Φ w T ∧ ρ.Marked i ms w T) x
      (fun _ w T => Follows Φ w T ∧ ρ.Marked i ms w T)
      fun _ w T => Follows Φ w T ∧ ρ.Marked i ms w T := by
  refine Triple.of_ops ((Follows.stable Φ).and marked_stable)
    (fun {β o locked c w w' T T' r} ho hfacts hturn hexec hknown' hw => ?_) hx
  have hmarked : marks ρ.mark i w.log = ms := hw.2
  have hfine : ρ.fine ms := hmarked ▸ hfacts.1 i
  have hquiet : ∀ {ev : Event V Y E M R}, ρ.mark ⟨i, l, w.clock, ev⟩ = none →
      marks ρ.mark i (⟨i, l, w.clock, ev⟩ :: w.log) = ms := fun h => (marks_cons_none h).trans hmarked
  have hfollows := hw.1.exec hrefl htrans ho.rowsSat hexec
  obtain rfl | ⟨t, rfl, hlive, rfl, hnone⟩ | ⟨ev, rfl, hnone⟩ := exec_silent hrefl ho hw.1 hexec
  · exact ⟨.inl rfl, hfollows, hmarked⟩
  · have hgrows := hknown w t hlive hknown'
    have hlog : (w.commit i l t).log = ⟨i, l, w.clock, .commit t w.committed⟩ :: w.log := by
      simp only [World.commit, hlive, Bool.false_eq_true, if_false]
      rfl
    have hms : marks ρ.mark i (w.commit i l t).log = ms := by
      rw [hlog]
      exact hquiet hnone
    refine ⟨.inr ⟨⟨hgrows, ?_⟩, ?_⟩, hfollows, hms⟩
    · simp only [World.commit, hlive, Bool.false_eq_true, if_false]
      exact .push w l (.commit t w.committed)
    · show ∀ j, ρ.fine (marks ρ.mark j (w.commit i l t).log)
      rw [hlog]
      exact inv_cons hfacts.1 ((hquiet hnone).symm ▸ hfine)
  · exact ⟨.inr (spec_push hG hfacts.1 ((hquiet hnone).symm ▸ hfine)), hfollows, hquiet hnone⟩

/-- A transaction is open, and the session has left exactly these marks. -/
def Inside (ρ : LogRule V Y E M R L μ) (i : ℕ) (ms : List μ) : Assertion V Y E M R L :=
  fun w T => T.isSome = true ∧ ρ.Marked i ms w T

/-- Within a transaction, the others change neither its marks nor what it has written. -/
theorem inside_stable : Stable (ρ.spec known grows) i l (ρ.Inside i ms) :=
  (Stable.own fun T => T.isSome = true).and marked_stable

/-- Reading opens a transaction. -/
theorem select_inside {f : Time → Store V → α} :
    Triple (ρ.spec known grows) i l (ρ.Marked i ms) (perform (.select f)) (fun _ => ρ.Inside i ms)
      fun _ => ρ.Inside i ms :=
  Triple.select marked_stable (fun _ _ _ h _ => ⟨rfl, h⟩) fun _ _ _ _ h => ⟨rfl, h⟩

/-- Where a transaction is open, `conn.transaction()` is nested. -/
theorem inTransaction_inside {F : E → Assertion V Y E M R L} :
    Triple (ρ.spec known grows) i l (ρ.Inside i ms) (perform .inTransaction)
      (fun nested w T => nested = true ∧ ρ.Inside i ms w T) F :=
  Triple.inTransaction inside_stable fun _ _ _ h => ⟨h.1, h⟩

include hG in
/-- Within a transaction, a program that does not end it and leaves no marks may do anything. -/
theorem inside_composes {A : K → Prop} {quiet : M → Prop}
    (hcall : ∀ x time y, ρ.mark ⟨i, l, time, .call x y⟩ = none)
    (hemit : ∀ m, quiet m → ∀ time, ρ.mark ⟨i, l, time, .emit m⟩ = none) :
    Composes (Op.Within A False quiet) fun {α : Type} (x : Client V Y E M α) =>
      Triple (ρ.spec known grows) i l (ρ.Inside i ms) x (fun _ => ρ.Inside i ms)
        fun _ => ρ.Inside i ms where
  pure a := .pure a fun _ _ h => h
  throw e := .throw e fun _ _ h => h
  bind hx hf := .bind hx hf
  tryCatch hx hh := .tryCatch hx hh
  perform {β o} ho := by
    cases o with
    | commit | rollback => exact ho.elim
    | emit m =>
      exact emit_marked hG (Stable.own fun T => T.isSome = true) (fun _ _ h => h) (hemit m ho) fun h => h
    | inTransaction => exact Triple.inTransaction inside_stable fun _ _ _ h => h
    | call x =>
      have hmarked : ∀ {w : World V Y E M R L} {T : Option (Txn V)} y, ρ.Inside i ms w T →
          marks ρ.mark i (⟨i, l, w.clock, .call x y⟩ :: w.log) = ms := fun y h =>
        (marks_cons_none (hcall x _ y)).trans h.2
      refine Triple.call inside_stable (fun w T y hfacts h => spec_push hG hfacts.1 ?_) ?_
      · have hfine := hfacts.1 i
        rw [hmarked y h]
        rwa [show marks ρ.mark i w.log = ms from h.2] at hfine
      · rintro w T (e | y) - h <;> exact ⟨h.1, hmarked _ h⟩
    | _ =>
      refine Triple.perform inside_stable fun w T _ hw locked c r w' T' _ hexec _ => ?_
      obtain ⟨rfl, ⟨rfl, t', -, rfl⟩ | ⟨e, -, rfl, rfl⟩⟩ := statement_cases hexec
      · exact ⟨.inl rfl, by cases r <;> exact ⟨rfl, hw.2⟩⟩
      · exact ⟨.inl rfl, rfl, hw.2⟩

omit [DecidableEq K] in
/-- What is not undone as the world grows, lasts. -/
theorem spec_lasting {C : World V Y E M R L → Prop} (hC : ∀ w w', grows w w' → C w → C w') :
    (ρ.spec known grows).Lasting i l C :=
  ⟨fun w w' h _ => hC w w' h.1, fun w w' h _ => hC w w' h.1⟩

include hG in
/-- **Sessions keep the rule.** Every run meets the specification if every program keeps the rule from its
start to its answer. -/
theorem good_of_reachable {sys : System V Y E M R L}
    (hsymm : ∀ l l', sys.exclusive l l' = sys.exclusive l' l)
    (hprogram : ∀ i l, Triple (ρ.spec known grows) i l (fun w T => T = none ∧ ρ.Marked i [] w T)
      (sys.program l)
      (fun a w _ => ρ.Answers i l (.ok a) w.log) fun e w _ => ρ.Answers i l (.error e) w.log)
    {s₀ : Store V} {c₀ : Time} (hknown : ∀ s, sys.Reachable (.initial s₀ c₀) s → known s.world)
    {s : State V Y E M R L} (hs : sys.Reachable (.initial s₀ c₀) s) :
    (ρ.spec known grows).Good sys s := by
  have h₀ : (ρ.spec known grows).inv (State.initial s₀ c₀ : State V Y E M R L).world :=
    fun _ => ρ.start
  refine Spec.sound (spec_lawful hG hsymm) (fun i l w _ hfresh => ?_) h₀ rfl rfl hknown hs
  refine wp_mono ?_ _ w none ((hprogram i l).sound w none ⟨rfl, marked_fresh hfresh⟩)
  rintro (e | a) w' T' h
  · exact h
  · exact h

end Growing

end LogRule

end ReadCommitted
