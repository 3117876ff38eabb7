import Matchmaking.ReadCommitted.Trace

/-!
# Programs run alone

What a program does where no other session runs and no operation fails: an evaluator, and rules for
total correctness. A fact established this way says that the program ends, and with what. `Together`
relates two runs on different stores that get the same answers.
-/

namespace ReadCommitted

variable {K X : Type} [DecidableEq K] {V : K → Type} {Y : X → Type} {E M R L α β : Type}

/-- The surroundings let every operation succeed and answer outside calls by `answer`. -/
def Op.unhindered (answer : (x : X) → Y x) : {β : Type} → Op V Y E M β → Choice Y E
  | _, .call _ => .answer fun x => .ok (answer x)
  | _, _ => .proceed

/-- Carry out a program as session `i`, with nobody else around; `answer` replies to its calls, by the
length of the log. -/
def Prog.alone (answer : ℕ → (x : X) → Y x) (i : ℕ) (l : L) :
    Prog V Y E M α → World V Y E M R L → Option (Txn V) → Option (α × World V Y E M R L × Option (Txn V))
  | .ret a, w, T => some (a, w, T)
  | .op o next, w, T =>
    (o.exec i l (fun _ => false) (o.unhindered (answer w.log.length)) w T).bind fun (r, w', T') =>
      (next r).alone answer i l w' T'

variable {answer : ℕ → (x : X) → Y x} {i : ℕ} {l : L} {w : World V Y E M R L}
  {T : Option (Txn V)}

/-- A run of a bound program alone is the run of its first part, and from the world it leaves behind the run
of the rest. -/
theorem Prog.alone_bind (p : Prog V Y E M α) (f : α → Prog V Y E M β) :
    (p.bind f).alone answer i l w T
      = (p.alone answer i l w T).bind fun (a, w', T') => (f a).alone answer i l w' T' := by
  induction p generalizing w T with
  | ret a => rfl
  | op o next ih =>
    simp only [Prog.bind, alone, Option.bind_assoc]
    exact congrArg _ (funext fun (r, w', T') => ih r)

/-- The session sees the rows `s`, and its transaction, if one is open, works. -/
structure Sees (s : Store V) (w : World V Y E M R L) (T : Option (Txn V)) : Prop where
  live : (w.txn T).aborted = false
  view : (w.txn T).view w.committed = s

/-- It sees them in a transaction with the time stamp `now`. -/
structure SeesAt (now : Time) (s : Store V) (w : World V Y E M R L) (T : Option (Txn V)) : Prop extends
    Sees s w T where
  start : (w.txn T).start = now

/-- What is logged does not show. -/
theorem SeesAt.push {now : Time} {s : Store V} (h : SeesAt now s w T) (j : ℕ) (l' : L)
    (event : Event V Y E M R) : SeesAt now s (w.push j l' event) T := by
  cases T <;> exact ⟨⟨h.live, h.view⟩, h.start⟩

/-- Run alone, the client ends without an exception, with a result that satisfies `Q`. -/
def Client.Gives (answer : ℕ → (x : X) → Y x) (i : ℕ) (l : L) (x : Client V Y E M α)
    (Q : α → World V Y E M R L → Option (Txn V) → Prop) (w : World V Y E M R L) (T : Option (Txn V)) :
    Prop :=
  ∃ a w' T', Prog.alone answer i l x.run w T = some (.ok a, w', T') ∧ Q a w' T'

namespace Client.Gives

variable {Q : α → World V Y E M R L → Option (Txn V) → Prop}

/-- The value itself, in a world that nothing has changed. -/
protected theorem pure {a : α} (h : Q a w T) : Gives answer i l (pure a) Q w T := ⟨a, w, T, rfl, h⟩

/-- The rule for sequencing: what the first part leaves is where the second one starts, so a program is run
backwards from its goal. -/
protected theorem bind {x : Client V Y E M α} {f : α → Client V Y E M β}
    {Q : β → World V Y E M R L → Option (Txn V) → Prop}
    (h : Gives answer i l x (fun a => Gives answer i l (f a) Q) w T) :
    Gives answer i l (x >>= f) Q w T := by
  obtain ⟨a, w', T', hx, b, w'', T'', hf, hq⟩ := h
  refine ⟨b, w'', T'', ?_, hq⟩
  refine (Prog.alone_bind x.run _).trans ?_
  rw [hx]
  exact hf

/-- Less may be asked of the world a run leaves behind. -/
theorem mono {x : Client V Y E M α} {Q' : α → World V Y E M R L → Option (Txn V) → Prop}
    (h : Gives answer i l x Q w T) (hQ : ∀ a w T, Q a w T → Q' a w T) :
    Gives answer i l x Q' w T := by
  obtain ⟨a, w', T', hx, hq⟩ := h
  exact ⟨a, w', T', hx, hQ a w' T' hq⟩

/-- A run has one result. -/
theorem and {x : Client V Y E M α} {Q' : α → World V Y E M R L → Option (Txn V) → Prop}
    (h : Gives answer i l x Q w T) (h' : Gives answer i l x Q' w T) :
    Gives answer i l x (fun a w T => Q a w T ∧ Q' a w T) w T := by
  obtain ⟨a, v, U, hx, hq⟩ := h
  obtain ⟨a', v', U', hx', hq'⟩ := h'
  cases hx.symm.trans hx'
  exact ⟨a, v, U, hx, hq, hq'⟩

/-- A query replies what the session sees. -/
theorem select {s : Store V} {f : Time → Store V → α} (h : Sees s w T)
    (hQ : ∀ now T', Sees s w T' → Q (f now s) w T') : Gives answer i l (perform (.select f)) Q w T := by
  refine ⟨f (w.txn T).start s, w, some ((w.txn T).read w.committed), ?_, hQ _ _ ⟨h.live, h.view⟩⟩
  show ((Op.select f).exec i l (fun _ => false) .proceed w T).bind _ = _
  simp only [Op.exec, statement, h.live, h.view, Bool.false_eq_true, if_false, Option.map_some,
    Option.bind_some]
  rfl

/-- A query answers from the store that the transaction sees, and keeps it: `SeesAt` is what the next
statement starts from. -/
theorem select_at {now : Time} {s : Store V} {f : Time → Store V → α} (h : SeesAt now s w T)
    (hQ : ∀ T', SeesAt now s w T' → Q (f now s) w T') : Gives answer i l (perform (.select f)) Q w T := by
  refine ⟨f now s, w, some ((w.txn T).read w.committed), ?_, hQ _ ⟨⟨h.live, h.view⟩, h.start⟩⟩
  show ((Op.select f).exec i l (fun _ => false) .proceed w T).bind _ = _
  simp only [Op.exec, statement, h.live, h.view, h.start, Bool.false_eq_true, if_false, Option.map_some,
    Option.bind_some]
  rfl

/-- A row is locked by nobody else, and its newest version is the one that the session sees. -/
theorem row {now : Time} {s : Store V} {k : K} {skip : Bool} {f : Time → Option (V k) → RowAction (V k) E}
    {Q : Option (V k) → World V Y E M R L → Option (Txn V) → Prop} (h : SeesAt now s w T)
    (hQ : ∀ T', match f now (s.lookup k) with
      | .leave => SeesAt now s w T' → Q none w T'
      | .put v => SeesAt now (writeRow ⟨k, some v⟩ s) w T' → Q (some v) w T'
      | .delete => SeesAt now (writeRow ⟨k, none⟩ s) w T' → Q none w T'
      | .raise _ => False) : Gives answer i l (perform (.row k skip f)) Q w T := by
  have hrun : ∀ r t, (w.txn T).access w.committed (fun _ => false) k skip f = some (.ok r, t) →
      Q r w (some t) → Gives answer i l (perform (.row k skip f)) Q w T := by
    intro r t haccess hq
    refine ⟨r, w, some t, ?_, hq⟩
    show ((Op.row k skip f).exec i l (fun _ => false) .proceed w T).bind _ = _
    simp only [Op.exec, statement, h.live, haccess, Bool.false_eq_true, if_false, Option.map_some,
      Option.bind_some]
    rfl
  have hview : ((w.txn T).view w.committed).lookup k = s.lookup k := by rw [h.view]
  have hstart := h.start
  cases hf : f now (s.lookup k) with
  | leave =>
    refine hrun none (w.txn T) ?_ ?_
    · simp only [Txn.access, hstart, hview, hf, Bool.false_eq_true, if_false]
    · have hq := hQ (some (w.txn T))
      rw [hf] at hq
      exact hq ⟨⟨h.live, h.view⟩, hstart⟩
  | put v =>
    refine hrun (some v) ((w.txn T).write k (some v)) ?_ ?_
    · simp only [Txn.access, hstart, hview, hf, Bool.false_eq_true, if_false]
    · have hq := hQ (some ((w.txn T).write k (some v)))
      rw [hf] at hq
      exact hq ⟨⟨h.live, congrArg (writeRow ⟨k, some v⟩) h.view⟩, hstart⟩
  | delete =>
    refine hrun none ((w.txn T).write k none) ?_ ?_
    · simp only [Txn.access, hstart, hview, hf, Bool.false_eq_true, if_false]
    · have hq := hQ (some ((w.txn T).write k none))
      rw [hf] at hq
      exact hq ⟨⟨h.live, congrArg (writeRow ⟨k, none⟩) h.view⟩, hstart⟩
  | raise e =>
    have hq := hQ none
    rw [hf] at hq
    exact hq.elim

/-- A row statement whose condition fails on the row it finds writes nothing and answers with no row. -/
theorem row_leave {now : Time} {s : Store V} {k : K} {skip : Bool}
    {f : Time → Option (V k) → RowAction (V k) E}
    {Q : Option (V k) → World V Y E M R L → Option (Txn V) → Prop} (h : SeesAt now s w T)
    (hf : f now (s.lookup k) = .leave) (hQ : ∀ T', SeesAt now s w T' → Q none w T') :
    Gives answer i l (perform (.row k skip f)) Q w T :=
  .row h fun T' => by
    rw [hf]
    exact hQ T'

/-- A row statement that writes puts the row on top of the store seen so far; the statements that follow find
it there. -/
theorem row_put {now : Time} {s : Store V} {k : K} {skip : Bool} {v : V k}
    {f : Time → Option (V k) → RowAction (V k) E}
    {Q : Option (V k) → World V Y E M R L → Option (Txn V) → Prop} (h : SeesAt now s w T)
    (hf : f now (s.lookup k) = .put v)
    (hQ : ∀ T', SeesAt now (writeRow ⟨k, some v⟩ s) w T' → Q (some v) w T') :
    Gives answer i l (perform (.row k skip f)) Q w T :=
  .row h fun T' => by
    rw [hf]
    exact hQ T'

/-- A DELETE takes the row out of the store seen so far. -/
theorem row_delete {now : Time} {s : Store V} {k : K} {skip : Bool}
    {f : Time → Option (V k) → RowAction (V k) E}
    {Q : Option (V k) → World V Y E M R L → Option (Txn V) → Prop} (h : SeesAt now s w T)
    (hf : f now (s.lookup k) = .delete)
    (hQ : ∀ T', SeesAt now (writeRow ⟨k, none⟩ s) w T' → Q none w T') :
    Gives answer i l (perform (.row k skip f)) Q w T :=
  .row h fun T' => by
    rw [hf]
    exact hQ T'

/-- A call outside the database cannot move the transaction, whatever it answers and whatever it writes into
the log. -/
theorem call_at {now : Time} {s : Store V} {x : X} (h : SeesAt now s w T)
    {Q : Y x → World V Y E M R L → Option (Txn V) → Prop}
    (hQ : ∀ n w', SeesAt now s w' T → Q (answer n x) w' T) : Gives answer i l (perform (.call x)) Q w T := by
  refine ⟨_, w.push i l (.call x (.ok (answer w.log.length x))), T, rfl, hQ _ _ ?_⟩
  cases T <;> exact ⟨⟨h.live, h.view⟩, h.start⟩

/-- A call gets its answer. -/
theorem call {s : Store V} {x : X} (h : Sees s w T)
    {Q : Y x → World V Y E M R L → Option (Txn V) → Prop}
    (hQ : ∀ n w', Sees s w' T → Q (answer n x) w' T) : Gives answer i l (perform (.call x)) Q w T := by
  refine ⟨_, w.push i l (.call x (.ok (answer w.log.length x))), T, rfl, hQ _ _ ?_⟩
  cases T <;> exact ⟨h.live, h.view⟩

/-- A call gets the answer for the length of the log. -/
theorem call_now {x : X} {Q : Y x → World V Y E M R L → Option (Txn V) → Prop}
    (h : Q (answer w.log.length x) (w.push i l (.call x (.ok (answer w.log.length x)))) T) :
    Gives answer i l (perform (.call x)) Q w T := ⟨_, _, T, rfl, h⟩

/-- A transaction is opened, with a view of what is committed. -/
theorem start {Q : Unit → World V Y E M R L → Option (Txn V) → Prop}
    (hQ : ∀ T, SeesAt w.clock w.committed w T → Q () w T) :
    Gives answer i l (perform .start) Q w none :=
  ⟨(), w, some { start := w.clock }, rfl, hQ _ ⟨⟨rfl, rfl⟩, rfl⟩⟩

/-- What the session sees is committed. -/
theorem commit {s : Store V} {Q : Unit → World V Y E M R L → Option (Txn V) → Prop} (h : Sees s w T)
    (hQ : ∀ w', w'.committed = s → w'.clock = w.clock → Q () w' none) :
    Gives answer i l (perform .commit) Q w T := by
  refine ⟨(), T.elim w (w.commit i l), none, rfl, ?_⟩
  cases T with
  | none => exact hQ w h.view rfl
  | some t =>
    have hlive : t.aborted = false := h.live
    rw [Option.elim_some, World.commit, hlive]
    exact hQ _ h.view rfl

/-- A commit leaves at most one entry in the log. -/
theorem commit_logged {s : Store V} {Q : Unit → World V Y E M R L → Option (Txn V) → Prop} (h : Sees s w T)
    (hQ : ∀ w', w'.committed = s → w'.clock = w.clock → w.log.length ≤ w'.log.length →
      w'.log.length ≤ w.log.length + 1 → Q () w' none) : Gives answer i l (perform .commit) Q w T := by
  refine ⟨(), T.elim w (w.commit i l), none, rfl, ?_⟩
  cases T with
  | none => exact hQ w h.view rfl (Nat.le_refl _) (Nat.le_succ _)
  | some t =>
    have hlive : t.aborted = false := h.live
    rw [Option.elim_some, World.commit, hlive]
    exact hQ _ h.view rfl (Nat.le_succ _) (Nat.le_refl _)

/-- A ROLLBACK throws the writes of the transaction away and leaves the committed store as it is. -/
theorem rollback {Q : Unit → World V Y E M R L → Option (Txn V) → Prop} (hQ : Q () w none) :
    Gives answer i l (perform .rollback) Q w T := ⟨(), w, none, rfl, hQ⟩

/-- Whether a transaction is open. -/
theorem inTransaction {Q : Bool → World V Y E M R L → Option (Txn V) → Prop} (hQ : Q T.isSome w T) :
    Gives answer i l (perform .inTransaction) Q w T := ⟨_, w, T, rfl, hQ⟩

/-- Savepoints do not show. -/
theorem savepoint {now : Time} {s : Store V} {Q : Unit → World V Y E M R L → Option (Txn V) → Prop}
    (h : SeesAt now s w T) (hQ : ∀ T', SeesAt now s w T' → Q () w T') :
    Gives answer i l (perform .savepoint) Q w T := by
  let t := w.txn T
  refine ⟨(), w, some { t with saved := t.writes :: t.saved }, ?_, hQ _ ⟨⟨h.live, h.view⟩, h.start⟩⟩
  have hlive : ¬ t.aborted = true := by
    rw [show t.aborted = false from h.live]
    exact Bool.false_ne_true
  show (statement .proceed w t (if t.aborted = true then none else _)).bind _ = _
  rw [if_neg hlive]
  rfl

/-- Releasing a savepoint keeps its writes, so what the transaction sees stays. -/
theorem releaseSavepoint {now : Time} {s : Store V}
    {Q : Unit → World V Y E M R L → Option (Txn V) → Prop} (h : SeesAt now s w T)
    (hQ : ∀ T', SeesAt now s w T' → Q () w T') : Gives answer i l (perform .releaseSavepoint) Q w T := by
  let t := w.txn T
  refine ⟨(), w, some { t with saved := t.saved.tail }, ?_, hQ _ ⟨⟨h.live, h.view⟩, h.start⟩⟩
  have hlive : ¬ t.aborted = true := by
    rw [show t.aborted = false from h.live]
    exact Bool.false_ne_true
  show (statement .proceed w t (if t.aborted = true then none else _)).bind _ = _
  rw [if_neg hlive]
  rfl

/-- A mark is left. -/
theorem emit {m : M} {Q : Unit → World V Y E M R L → Option (Txn V) → Prop}
    (hQ : Q () (w.push i l (.emit m)) T) : Gives answer i l (perform (.emit m)) Q w T :=
  ⟨(), _, T, rfl, hQ⟩

end Client.Gives

/-- Run alone, the client changes nothing that the session sees, and makes at most `n` entries in the log. -/
def Client.Observes (R : Type) (answer : ℕ → (x : X) → Y x) (i : ℕ) (l : L) (n : ℕ) (x : Client V Y E M α) :
    Prop :=
  ∀ now s (w : World V Y E M R L) T, SeesAt now s w T →
    Gives answer i l x (fun _ w' T' => SeesAt now s w' T' ∧ w'.log.length ≤ w.log.length + n) w T

namespace Client.Observes

variable {m n : ℕ}

protected theorem pure (a : α) : Observes R answer i l n (pure a : Client V Y E M α) :=
  fun _ _ _ _ h => .pure ⟨h, Nat.le_add_right ..⟩

/-- The events of two parts add up, so a bound on a loop comes from a bound on its body. -/
protected theorem bind {x : Client V Y E M α} {f : α → Client V Y E M β} (hx : Observes R answer i l m x)
    (hf : ∀ a, Observes R answer i l n (f a)) : Observes R answer i l (m + n) (x >>= f) := by
  intro now s w T h
  refine .bind ((hx now s w T h).mono fun a w₁ T₁ h₁ =>
    (hf a now s w₁ T₁ h₁.1).mono fun b w₂ T₂ h₂ => ⟨h₂.1, ?_⟩)
  have hlog₁ := h₁.2
  have hlog₂ := h₂.2
  omega

/-- A bound on the number of events may be raised. -/
theorem mono {x : Client V Y E M α} (hx : Observes R answer i l m x) (hn : m ≤ n) : Observes R answer i l n x :=
  fun now s w T h => (hx now s w T h).mono fun _ _ _ h' => ⟨h'.1, Nat.le_trans h'.2 (Nat.add_le_add_left hn _)⟩

protected theorem ite {c : Prop} [Decidable c] {x y : Client V Y E M α} (hx : Observes R answer i l n x)
    (hy : Observes R answer i l n y) : Observes R answer i l n (if c then x else y) := by
  split
  · exact hx
  · exact hy

theorem select {f : Time → Store V → α} :
    Observes R answer i l n (perform (.select f) : Client V Y E M α) :=
  fun _ _ _ _ h => .select_at h fun _ h' => ⟨h', Nat.le_add_right ..⟩

theorem call {x : X} : Observes R answer i l (n + 1) (perform (.call x) : Client V Y E M (Y x)) :=
  fun _ _ _ _ h => .call_now ⟨h.push .., Nat.add_le_add_left (Nat.le_add_left 1 n) _⟩

theorem emit {mark : M} : Observes R answer i l (n + 1) (perform (.emit mark) : Client V Y E M Unit) :=
  fun _ _ _ _ h => .emit ⟨h.push .., Nat.add_le_add_left (Nat.le_add_left 1 n) _⟩

end Client.Observes

/-- Run alone, the client ends, with a result or an exception that satisfies `Q`. -/
def Client.Ends (answer : ℕ → (x : X) → Y x) (i : ℕ) (l : L) (x : Client V Y E M α)
    (Q : Except E α → World V Y E M R L → Option (Txn V) → Prop) (w : World V Y E M R L)
    (T : Option (Txn V)) : Prop :=
  ∃ r w' T', Prog.alone answer i l x.run w T = some (r, w', T') ∧ Q r w' T'

namespace Client.Ends

variable {Q : Except E α → World V Y E M R L → Option (Txn V) → Prop}

/-- A run that gives a value ends with it; this is how the two rules are mixed in one proof. -/
theorem of_gives {x : Client V Y E M α} (h : Gives answer i l x (fun a => Q (.ok a)) w T) :
    Ends answer i l x Q w T := by
  obtain ⟨a, w', T', hx, hq⟩ := h
  exact ⟨.ok a, w', T', hx, hq⟩

protected theorem pure {a : α} (h : Q (.ok a) w T) : Ends answer i l (pure a) Q w T := ⟨_, w, T, rfl, h⟩

/-- An exception ends a run alone where it stands, with the transaction still open. -/
theorem throw {e : E} (h : Q (.error e) w T) : Ends answer i l (throw e : Client V Y E M α) Q w T :=
  ⟨_, w, T, rfl, h⟩

/-- Sequencing of runs that may raise: an exception of the first part is the result of the whole, and the
second part never starts. -/
protected theorem bind {x : Client V Y E M α} {f : α → Client V Y E M β}
    {Q : Except E β → World V Y E M R L → Option (Txn V) → Prop}
    (h : Ends answer i l x (fun r w T => match r with
      | .ok a => Ends answer i l (f a) Q w T
      | .error e => Q (.error e) w T) w T) : Ends answer i l (x >>= f) Q w T := by
  obtain ⟨r, w', T', hx, hr⟩ := h
  cases r with
  | ok a =>
    obtain ⟨r', w'', T'', hf, hq⟩ := hr
    refine ⟨r', w'', T'', (Prog.alone_bind x.run _).trans ?_, hq⟩
    rw [hx]
    exact hf
  | error e =>
    refine ⟨.error e, w', T', (Prog.alone_bind x.run _).trans ?_, hr⟩
    rw [hx]
    rfl

/-- Where the first part cannot raise, only its value has to be followed further. -/
theorem bind_gives {x : Client V Y E M α} {f : α → Client V Y E M β}
    {Q : Except E β → World V Y E M R L → Option (Txn V) → Prop}
    (h : Gives answer i l x (fun a => Ends answer i l (f a) Q) w T) : Ends answer i l (x >>= f) Q w T :=
  .bind (.of_gives h)

/-- Less may be asked of a result and of the world it is reached in. -/
theorem mono {x : Client V Y E M α} {Q' : Except E α → World V Y E M R L → Option (Txn V) → Prop}
    (h : Ends answer i l x Q w T) (hQ : ∀ r w T, Q r w T → Q' r w T) : Ends answer i l x Q' w T := by
  obtain ⟨r, w', T', hx, hq⟩ := h
  exact ⟨r, w', T', hx, hQ r w' T' hq⟩

end Client.Ends

/-! ## Outcomes whatever the rows are -/

/-- The transaction of the session works: it is not aborted, or is still to be opened. -/
def Live (w : World V Y E M R L) (T : Option (Txn V)) : Prop := (w.txn T).aborted = false

/-- Run alone from wherever its transaction works, the client ends, with an outcome that satisfies `P`;
the transaction still works if it returns. -/
def Client.Total (R : Type) (answer : ℕ → (x : X) → Y x) (i : ℕ) (l : L) (x : Client V Y E M α)
    (P : Except E α → Prop) : Prop :=
  ∀ (w : World V Y E M R L) (T : Option (Txn V)), Live w T →
    Ends answer i l x (fun r w' T' => P r ∧ ((∃ a, r = .ok a) → Live w' T')) w T

namespace Client.Total

variable {P : Except E α → Prop}

protected theorem pure {a : α} (h : P (.ok a)) : Total R answer i l (pure a : Client V Y E M α) P :=
  fun _ _ hlive => .pure ⟨h, fun _ => hlive⟩

/-- A raised exception changes nothing, so it may end a program that only reads. -/
theorem throw {e : E} (h : P (.error e)) : Total R answer i l (throw e : Client V Y E M α) P :=
  fun _ _ _ => .throw ⟨h, fun ha => by
    obtain ⟨a, ha⟩ := ha
    cases ha⟩

/-- Programs that only read are composed without naming the world between them: it is the same one. -/
protected theorem bind {x : Client V Y E M α} {f : α → Client V Y E M β} {Q : Except E β → Prop}
    (hx : Total R answer i l x P) (hf : ∀ a, P (.ok a) → Total R answer i l (f a) Q)
    (he : ∀ e, P (.error e) → Q (.error e)) : Total R answer i l (x >>= f) Q := by
  intro w T hlive
  refine .bind ((hx w T hlive).mono fun r w' T' h => ?_)
  obtain ⟨hp, hlive'⟩ := h
  cases r with
  | ok a => exact hf a hp w' T' (hlive' ⟨a, rfl⟩)
  | error e => exact ⟨he e hp, fun ha => by
      obtain ⟨a, ha⟩ := ha
      cases ha⟩

/-- A weaker description of the results is enough where a stronger one is known. -/
theorem mono {x : Client V Y E M α} {P' : Except E α → Prop} (h : Total R answer i l x P)
    (hP : ∀ r, P r → P' r) : Total R answer i l x P' :=
  fun w T hlive => (h w T hlive).mono fun r _ _ hr => ⟨hP r hr.1, hr.2⟩

/-- A query may reply anything that it computes. -/
theorem select {f : Time → Store V → α} (h : ∀ now s, P (.ok (f now s))) :
    Total R answer i l (perform (.select f) : Client V Y E M α) P :=
  fun _ _ hlive => .of_gives (.select ⟨hlive, rfl⟩ fun now _ hsees => ⟨h now _, fun _ => hsees.live⟩)

/-- What a row operation does, on any row. -/
theorem row {k : K} {skip : Bool} {f : Time → Option (V k) → RowAction (V k) E}
    {P : Except E (Option (V k)) → Prop} (h : ∀ now v, match f now v with
      | .leave | .delete => P (.ok none)
      | .put v' => P (.ok (some v'))
      | .raise e => P (.error e)) :
    Total R answer i l (perform (.row k skip f) : Client V Y E M (Option (V k))) P := by
  intro w T hlive
  have hsees : SeesAt (w.txn T).start ((w.txn T).view w.committed) w T := ⟨⟨hlive, rfl⟩, rfl⟩
  have hp := h (w.txn T).start (((w.txn T).view w.committed).lookup k)
  cases hf : f (w.txn T).start (((w.txn T).view w.committed).lookup k) with
  | leave =>
    rw [hf] at hp
    exact .of_gives (.row_leave hsees hf fun T' h' => ⟨hp, fun _ => h'.live⟩)
  | put v =>
    rw [hf] at hp
    exact .of_gives (.row_put hsees hf fun T' h' => ⟨hp, fun _ => h'.live⟩)
  | delete =>
    rw [hf] at hp
    exact .of_gives (.row_delete hsees hf fun T' h' => ⟨hp, fun _ => h'.live⟩)
  | raise e =>
    rw [hf] at hp
    refine ⟨.error e, w, some (w.txn T).abort, ?_, hp, fun ha => by
      obtain ⟨a, ha⟩ := ha
      cases ha⟩
    have haborted : (w.txn T).aborted = false := hlive
    show ((Op.row k skip f).exec i l (fun _ => false) .proceed w T).bind _ = _
    simp only [Op.exec, statement, haborted, Txn.access, hf, Bool.false_eq_true, if_false, Option.map_some,
      Option.bind_some]
    rfl

/-- A call may be answered in any way the outside world can answer it, and each answer has to be allowed. -/
theorem call {x : X} {P : Except E (Y x) → Prop} (h : ∀ n, P (.ok (answer n x))) :
    Total R answer i l (perform (.call x) : Client V Y E M (Y x)) P := by
  intro w T hlive
  refine .of_gives (.call_now ⟨h _, fun _ => ?_⟩)
  cases T <;> exact hlive

/-- A counter is moved without an answer, so nothing is learned from it. -/
theorem emit {m : M} {P : Except E Unit → Prop} (h : P (.ok ())) :
    Total R answer i l (perform (.emit m) : Client V Y E M Unit) P := by
  intro w T hlive
  refine .of_gives (.emit ⟨h, fun _ => ?_⟩)
  cases T <;> exact hlive

end Client.Total

/-! ## Two runs -/

/-- Two worlds that differ in their rows and in what is logged only. -/
structure Lockstep (s s' : Store V) (w w' : World V Y E M R L) : Prop where
  left : w.committed = s
  right : w'.committed = s'
  clock : w'.clock = w.clock
  length : w'.log.length = w.log.length

/-- Run alone from the worlds `w` and `w'`, the clients end without an exception and without an open
transaction, with results and worlds that are related by `Q`. -/
def Client.Together (answer : ℕ → (x : X) → Y x) (i : ℕ) (l : L) (x : Client V Y E M α)
    (y : Client V Y E M β) (Q : α → β → World V Y E M R L → World V Y E M R L → Prop)
    (w w' : World V Y E M R L) : Prop :=
  ∃ a b v v', Prog.alone answer i l x.run w none = some (.ok a, v, none) ∧
    Prog.alone answer i l y.run w' none = some (.ok b, v', none) ∧ Q a b v v'

namespace Client.Together

variable {s s' : Store V} {w' : World V Y E M R L} {γ δ : Type}

protected theorem pure {a : α} {b : β} {Q : α → β → World V Y E M R L → World V Y E M R L → Prop}
    (h : Q a b w w') : Together answer i l (pure a) (pure b) Q w w' :=
  ⟨a, b, w, w', rfl, rfl, h⟩

/-- Two runs that stay together through their first parts stay together through the rest. -/
protected theorem bind {x : Client V Y E M α} {y : Client V Y E M β} {f : α → Client V Y E M γ}
    {g : β → Client V Y E M δ} {Q : γ → δ → World V Y E M R L → World V Y E M R L → Prop}
    (h : Together answer i l x y (fun a b v v' => Together answer i l (f a) (g b) Q v v') w w') :
    Together answer i l (x >>= f) (y >>= g) Q w w' := by
  obtain ⟨a, b, v, v', hx, hy, c, d, u, u', hf, hg, hq⟩ := h
  refine ⟨c, d, u, u', (Prog.alone_bind x.run _).trans ?_, (Prog.alone_bind y.run _).trans ?_, hq⟩
  · rw [hx]
    exact hf
  · rw [hy]
    exact hg

/-- Less may be asked of the two results and of the two worlds. -/
theorem mono {x : Client V Y E M α} {y : Client V Y E M β}
    {Q Q' : α → β → World V Y E M R L → World V Y E M R L → Prop}
    (h : Together answer i l x y Q w w') (hQ : ∀ a b v v', Q a b v v' → Q' a b v v') :
    Together answer i l x y Q' w w' := by
  obtain ⟨a, b, v, v', hx, hy, hq⟩ := h
  exact ⟨a, b, v, v', hx, hy, hQ a b v v' hq⟩

/-- Both runs get the same answer. -/
theorem call {x : X} (h : Lockstep s s' w w') :
    Together answer i l (perform (.call x) : Client V Y E M (Y x)) (perform (.call x))
      (fun a b v v' => a = b ∧ Lockstep s s' v v') w w' := by
  refine ⟨_, _, _, _, rfl, rfl, ?_, h.left, h.right, h.clock, ?_⟩
  · rw [h.length]
  · exact congrArg Nat.succ h.length

/-- Both runs write the same mark, so their logs grow alike. -/
theorem emit {m : M} (h : Lockstep s s' w w') :
    Together answer i l (perform (.emit m) : Client V Y E M Unit) (perform (.emit m))
      (fun _ _ v v' => Lockstep s s' v v') w w' :=
  ⟨_, _, _, _, rfl, rfl, h.left, h.right, h.clock, congrArg Nat.succ h.length⟩

end Client.Together

/-! ## Alone in a run -/

/-- What a session does with its own transaction is no lock of others. -/
theorem State.locked_update (s : State V Y E M R L) (w : World V Y E M R L)
    (x : Option (Session V Y E M R L)) : (s.update i w x).locked i = s.locked i := by
  funext k
  unfold State.locked
  rw [show (s.update i w x).sessions.length = s.sessions.length from List.length_set]
  refine congrArg (List.any _) (funext fun j => ?_)
  by_cases hij : i = j
  · simp [hij]
  · rw [State.session_update_ne s hij]

/-- Session `i` has the program `p` still to carry out, and no other session holds a lock. -/
structure State.Solo (s : State V Y E M R L) (i : ℕ) (l : L) (born : Store V)
    (p : Prog V Y E M (Except E R)) (T : Option (Txn V)) : Prop where
  session : s.session i = some ⟨l, born, p, T⟩
  free : s.locked i = fun _ => false

/-- Where all sessions are over, one more has the world to itself. -/
theorem System.exec_start (sys : System V Y E M R L) {s : State V Y E M R L}
    (hover : ∀ x ∈ s.sessions, x = none) (l : L) : ∃ s', sys.exec (.start l) s = some s' ∧
      s'.world = s.world.push s.sessions.length l .begun ∧
      s'.Solo s.sessions.length l s.world.committed (sys.program l).run none ∧
      ∀ j, j ≠ s.sessions.length → s'.session j = none := by
  have hnone : ∀ j, s.session j = none := fun j => by
    unfold State.session
    cases hj : s.sessions[j]? with
    | none => rfl
    | some x =>
      rw [hover x (List.mem_of_getElem? hj)]
      rfl
  have hexcludes : s.excludes sys l = false := by simp [State.excludes, hnone]
  refine ⟨⟨s.world.push s.sessions.length l .begun, s.sessions ++ [some ⟨l, s.world.committed,
    (sys.program l).run, none⟩]⟩, ?_, rfl, ⟨?_, funext fun k => ?_⟩, fun j hj => ?_⟩
  · simp only [System.exec, hexcludes, Bool.false_eq_true, if_false]
  · simp [State.session]
  · simp only [State.locked, List.any_eq_false, List.mem_range, Bool.and_eq_true, bne_iff_ne, not_and]
    intro j hj hne
    have hlt : j < s.sessions.length := by
      simp only [List.length_append, List.length_singleton] at hj
      omega
    rw [State.session_append_lt s hlt, hnone j]
    simp
  · rcases Nat.lt_or_gt_of_ne hj with hlt | hgt
    · exact (State.session_append_lt s hlt ..).trans (hnone j)
    · have hout : (s.sessions ++ [some ⟨l, s.world.committed, (sys.program l).run, none⟩])[j]? = none :=
        List.getElem?_eq_none (by rw [List.length_append, List.length_singleton]; omega)
      show Option.join _ = none
      rw [hout]
      rfl

/-- Where every session is over, a new one of any actor can start at once, and it is then the only one that is
running. -/
theorem System.solo_of_start {sys : System V Y E M R L} {s : State V Y E M R L}
    (hover : ∀ x ∈ s.sessions, x = none) (l : L) : ∃ s', sys.Step s s' ∧
      s'.world = s.world.push s.sessions.length l .begun ∧
      s'.Solo s.sessions.length l s.world.committed (sys.program l).run none := by
  obtain ⟨s', hstart, hworld, hsolo, -⟩ := sys.exec_start hover l
  exact ⟨s', ⟨_, hstart⟩, hworld, hsolo⟩

/-! ## Steered -/

/-- Carry out a program as session `i`, with nobody else around, where the surroundings decide the
operations as in the list. -/
def Prog.steered (i : ℕ) (l : L) : Prog V Y E M α → List (Choice Y E) → World V Y E M R L →
    Option (Txn V) → Option (α × World V Y E M R L × Option (Txn V))
  | .ret a, [], w, T => some (a, w, T)
  | .op o next, c :: cs, w, T =>
    (o.exec i l (fun _ => false) c w T).bind fun (r, w', T') => (next r).steered i l cs w' T'
  | _, _, _, _ => none

/-- Where nothing fails, the surroundings steer as well. -/
theorem Prog.steered_of_alone {p : Prog V Y E M α} {a : α} {w' : World V Y E M R L} {T' : Option (Txn V)}
    (h : p.alone answer i l w T = some (a, w', T')) : ∃ cs, p.steered i l cs w T = some (a, w', T') := by
  induction p generalizing w T with
  | ret _ => exact ⟨[], h⟩
  | op o next ih =>
    obtain ⟨⟨r, w₁, T₁⟩, hop, hrest⟩ := Option.bind_eq_some_iff.mp h
    obtain ⟨cs, hcs⟩ := ih r hrest
    exact ⟨o.unhindered (answer w.log.length) :: cs, Option.bind_eq_some_iff.mpr ⟨_, hop, hcs⟩⟩

section Steered

variable {cs : List (Choice Y E)} {p : Prog V Y E M α} {a : α} {w' : World V Y E M R L} {T' : Option (Txn V)}

/-- What a session adds to the log alone is its own. -/
theorem Prog.steered_entries (h : p.steered i l cs w T = some (a, w', T')) :
    ∃ new, w'.log = new ++ w.log ∧ ∀ e ∈ new, e.session = i := by
  induction p generalizing cs w T with
  | ret _ =>
    cases cs <;> cases h
    exact ⟨[], rfl, fun _ he => (List.not_mem_nil he).elim⟩
  | op o next ih =>
    cases cs with
    | nil => cases h
    | cons c cs =>
      obtain ⟨⟨r, w₁, T₁⟩, hop, hrest⟩ := Option.bind_eq_some_iff.mp h
      obtain ⟨new, hnew, hsession⟩ := exec_entries hop
      obtain ⟨new', hnew', hsession'⟩ := ih r hrest
      refine ⟨new' ++ new, by rw [hnew', hnew, List.append_assoc], fun e he => ?_⟩
      exact (List.mem_append.mp he).elim (hsession' e) (hsession e)

/-- Time stands still while a program is run alone. -/
theorem Prog.steered_clock (h : p.steered i l cs w T = some (a, w', T')) : w'.clock = w.clock := by
  induction p generalizing cs w T with
  | ret _ =>
    cases cs <;> cases h
    rfl
  | op o next ih =>
    cases cs with
    | nil => cases h
    | cons c cs =>
      obtain ⟨⟨r, w₁, T₁⟩, hop, hrest⟩ := Option.bind_eq_some_iff.mp h
      exact (ih r hrest).trans (exec_clock hop)

end Steered

/-- The log only grows, and the clock stands still. -/
theorem Client.Gives.timed {x : Client V Y E M α} {Q : α → World V Y E M R L → Option (Txn V) → Prop}
    (h : Gives answer i l x Q w T) : Gives answer i l x
      (fun a w' T' => Q a w' T' ∧ w'.clock = w.clock ∧ w.log.length ≤ w'.log.length) w T := by
  obtain ⟨a, w', T', hx, hq⟩ := h
  obtain ⟨cs, hcs⟩ := Prog.steered_of_alone hx
  obtain ⟨new, hlog, -⟩ := Prog.steered_entries hcs
  refine ⟨a, w', T', hx, hq, Prog.steered_clock hcs, ?_⟩
  rw [hlog, List.length_append]
  exact Nat.le_add_left ..

/-- A session that is about to carry out the program, where no other session holds a lock, can carry it
out as it is steered. -/
theorem Prog.steered_executes {sys : System V Y E M R L} {S : Spec V Y E M R L} (hS : S.Lawful sys)
    {s₀ : State V Y E M R L} (hgood : ∀ s, sys.Reachable s₀ s → S.Good sys s ∧ S.known s.world)
    {born : Store V} {p : Prog V Y E M α} {next : α → Prog V Y E M (Except E R)} {s : State V Y E M R L}
    (hs : sys.Reachable s₀ s) (hx : s.Solo i l born (p.bind next) T) {w w' : World V Y E M R L}
    (hw : s.world = w) {cs : List (Choice Y E)} {a : α} {T' : Option (Txn V)}
    (hrun : p.steered i l cs w T = some (a, w', T')) :
    ∃ s' τ, sys.Reachable s₀ s' ∧ s'.Solo i l born (next a) T' ∧ s'.world = w' ∧
      p.Executes S i l w T τ a w' T' := by
  induction p generalizing s T w cs with
  | ret _ =>
    cases cs <;> cases hrun
    exact ⟨s, [], hs, hx, hw, .ret _ _ _⟩
  | op o cont ih =>
    cases cs with
    | nil => cases hrun
    | cons c cs =>
      subst hw
      obtain ⟨⟨r, w₁, T₁⟩, hop, hrest⟩ := Option.bind_eq_some_iff.mp hrun
      rw [← hx.free] at hop
      have hi := s.lt_length_of_session hx.session
      have hstep : sys.Reachable s₀ (s.update i w₁ (some ⟨l, born, (cont r).bind next, T₁⟩)) :=
        .step hs ⟨_, System.exec_op hx.session hop⟩
      obtain ⟨hstate, hknown⟩ := hgood s hs
      have hknown₁ : S.known w₁ := (hgood _ hstep).2
      obtain ⟨s', τ, hs', hx', hw', hexec⟩ := ih r hstep
        ⟨State.session_update_self s hi _ _, (State.locked_update s _ _).trans hx.free⟩ rfl hrest
      exact ⟨s', ⟨o, r⟩ :: τ, hs', hx', hw', .op (.refl hS ⟨hstate.inv, hknown⟩)
        (hstate.turn hS hknown hx.session hop hknown₁).1 hop hknown₁ hexec⟩

omit [DecidableEq K] in
/-- The first part of a sequence is carried out before the rest. -/
theorem Client.run_bind {γ : Type} (x : Client V Y E M α) (f : α → Client V Y E M β)
    (next : Except E β → Prog V Y E M γ) :
    Prog.bind (x >>= f).run next = Prog.bind x.run fun r => match r with
      | .ok a => Prog.bind (f a).run next
      | .error e => next (.error e) := by
  refine (Prog.bind_assoc x.run _ next).trans (congrArg (Prog.bind x.run) (funext fun r => ?_))
  cases r with
  | ok a => rfl
  | error e => rfl

/-! ## Scripts -/

/-- A session that has an operation before it, and gets its answers, carries it out. -/
theorem System.advance_op {sys : System V Y E M R L} {s : State V Y E M R L} {born : Store V}
    {o : Op V Y E M β} {next : Except E β → Prog V Y E M (Except E R)}
    (hx : s.session i = some ⟨l, born, .op o next, T⟩) (n : ℕ) :
    sys.advance (fun k x => .ok (answer k x)) i (n + 1) s
      = (sys.exec (.exec i (o.unhindered (answer s.world.log.length))) s).bind
        (sys.advance (fun k x => .ok (answer k x)) i n) := by
  cases o <;> simp only [System.advance, hx] <;> rfl

/-- A session that no lock is in the way of advances through what it does alone. -/
theorem Prog.alone_advances (sys : System V Y E M R L) {born : Store V} {p : Prog V Y E M α}
    {next : α → Prog V Y E M (Except E R)} {s : State V Y E M R L} (hx : s.Solo i l born (p.bind next) T)
    {a : α} {w' : World V Y E M R L} {T' : Option (Txn V)}
    (hrun : p.alone answer i l s.world T = some (a, w', T')) :
    ∃ n s', (∀ m, sys.advance (fun k x => .ok (answer k x)) i (n + m) s
        = sys.advance (fun k x => .ok (answer k x)) i m s') ∧ s'.Solo i l born (next a) T' ∧ s'.world = w' ∧
      ∀ j, j ≠ i → s'.session j = s.session j := by
  induction p generalizing s T with
  | ret _ =>
    cases hrun
    exact ⟨0, s, fun m => by rw [Nat.zero_add], hx, rfl, fun _ _ => rfl⟩
  | op o cont ih =>
    obtain ⟨⟨r, w₁, T₁⟩, hop, hrest⟩ := Option.bind_eq_some_iff.mp hrun
    rw [← hx.free] at hop
    have hi := s.lt_length_of_session hx.session
    have hstep : sys.exec (.exec i (o.unhindered (answer s.world.log.length))) s = some _ :=
      System.exec_op hx.session hop
    obtain ⟨n, s', hadvance, hx', hw', hothers⟩ := ih r
      ⟨State.session_update_self s hi _ _, (State.locked_update s _ _).trans hx.free⟩ hrest
    refine ⟨n + 1, s', fun m => ?_, hx', hw', fun j hj =>
      (hothers j hj).trans (State.session_update_ne s hj.symm _ _)⟩
    rw [Nat.add_right_comm, System.advance_op hx.session, hstep]
    exact hadvance m

/-- Where all sessions are over, one more is carried out alone, to its end. -/
theorem Client.Gives.plays {sys : System V Y E M R L} {s : State V Y E M R L}
    (hover : ∀ x ∈ s.sessions, x = none) {l : L} {Q : R → World V Y E M R L → Option (Txn V) → Prop}
    (h : Gives answer s.sessions.length l (sys.program l) Q (s.world.push s.sessions.length l .begun) none) :
    ∃ n s', sys.play [.act (.start l), .advance (fun k x => .ok (answer k x)) s.sessions.length n] s = some s' ∧
      (∀ x ∈ s'.sessions, x = none) ∧ ∃ a w' T', Q a w' T' ∧
        s'.world = w'.push s.sessions.length l (.answer s.world.committed (.ok a)) := by
  obtain ⟨a, w', T', hrun, hq⟩ := h
  obtain ⟨s₁, hstart, hworld, hsolo, hothers⟩ := sys.exec_start hover l
  rw [← Prog.bind_ret (sys.program l).run] at hsolo
  rw [← hworld] at hrun
  obtain ⟨n, s₂, hadvance, hsolo₂, hworld₂, hothers₂⟩ := Prog.alone_advances sys hsolo hrun
  have hi := s₂.lt_length_of_session hsolo₂.session
  refine ⟨n + 1, s₂.update s.sessions.length (s₂.world.push s.sessions.length l
    (.answer s.world.committed (.ok a))) none, ?_, fun x hx => ?_, a, w', T', hq, by rw [← hworld₂]; rfl⟩
  · simp only [System.play, System.move, hstart, hadvance, Option.bind_some]
    simp only [System.advance, hsolo₂.session, System.exec, Option.bind_some]
  · obtain ⟨j, hj⟩ := List.getElem?_of_mem hx
    have hsession : ∀ {t : State V Y E M R L}, t.sessions[j]? = some x → t.session j = x := fun h => by
      unfold State.session
      rw [h]
      rfl
    rw [← hsession hj]
    by_cases hij : s.sessions.length = j
    · rw [← hij]
      exact State.session_update_self s₂ hi _ _
    · rw [State.session_update_ne s₂ hij, hothers₂ j (Ne.symm hij)]
      exact hothers j (Ne.symm hij)

end ReadCommitted
