import Matchmaking.LogRules
import Matchmaking.ReadCommitted.Alone
import Matchmaking.ReadCommitted.Confirmed

/-!
# Persisting an outcome

`persist_delivery_outcome` of `callback_dispatcher/main.py` runs up to `DEADLOCK_MAX_RETRIES`
transactions, and gives the claim back if none of them succeeds. Where a transaction that raises has
been rolled back, the outcome is written exactly once, or not at all.
-/

namespace Matchmaking

open ReadCommitted ReadCommitted.Triple

variable {rt : Runtime} {i : ℕ} {settings : Settings} {dispatcherId : String} {event : CallbackEvent}
  {error : Option String}

/-! ## The transactions of the function -/

/-- The rule that marks all commits, and asks for nothing. -/
def commitRule : LogRule Row Reply Exn Metric Answer Actor (Txn Row × Tables) where
  mark e := e.event.commit?
  fine _ := True
  start := trivial
  begun _ _ _ := rfl

/-- The dispatcher's session `i` executes `x`, while the other sessions do what they do. -/
abbrev Dispatches {α : Type} (rt : Runtime) (i : ℕ) (settings : Settings) (dispatcherId : String) (x : Db α)
    (w : ServiceWorld) (T : Option (Txn Row)) (τ : ServiceTrace) (r : Except Exn α) (w₁ : ServiceWorld)
    (T₁ : Option (Txn Row)) : Prop :=
  x.Executes (ruleSpec rt commitRule) i (.runOnce settings dispatcherId) w T τ r w₁ T₁

/-- A transaction: how it has ended, and what the session has committed in it. -/
structure Attempt (α : Type) where
  result : Except Exn α
  commits : List (Txn Row × Tables)

/-- It raised. -/
def Attempt.Raised {α : Type} (a : Attempt α) : Prop := ∃ e, a.result = .error e

/-- It raised `DeadlockDetected`. -/
def Attempt.Deadlocked {α : Type} (a : Attempt α) : Prop := ∃ e, a.result = .error e ∧ isDeadlock e = true

/-- It committed. -/
def Attempt.committed {α : Type} (a : Attempt α) : Bool := !a.commits.isEmpty

/-- An exception means that the transaction was rolled back. -/
def Attempt.RollsBack {α : Type} (a : Attempt α) : Prop := a.Raised → a.commits = []

/-- The session executes one transaction. -/
def Attempted {α : Type} (rt : Runtime) (i : ℕ) (settings : Settings) (dispatcherId : String) (x : Db α)
    (w : ServiceWorld) (T : Option (Txn Row)) (a : Attempt α) (w₁ : ServiceWorld) (T₁ : Option (Txn Row)) :
    Prop :=
  (∃ τ, Dispatches rt i settings dispatcherId x w T τ a.result w₁ T₁) ∧
    ReadCommitted.commits i w₁.log = a.commits ++ ReadCommitted.commits i w.log

/-- One try after the other. -/
inductive Tries (rt : Runtime) (i : ℕ) (settings : Settings) (dispatcherId : String) (event : CallbackEvent)
    (error : Option String) : ServiceWorld → Option (Txn Row) → List (Attempt Bool) → ServiceWorld →
    Option (Txn Row) → Prop
  | nil {w : ServiceWorld} {T : Option (Txn Row)} : Tries rt i settings dispatcherId event error w T [] w T
  | cons {w w' w₁ : ServiceWorld} {T T' T₁ : Option (Txn Row)} {a : Attempt Bool} {tries : List (Attempt Bool)}
      (h : Attempted rt i settings dispatcherId (persistOnce event settings error) w T a w' T')
      (hrest : Tries rt i settings dispatcherId event error w' T' tries w₁ T₁) :
      Tries rt i settings dispatcherId event error w T (a :: tries) w₁ T₁

/-- How the function ends by its transactions: all tries but the last have ended with a deadlock. If the
last one returns, so does the function. If it raises, that exception is `last_exc`, the claim is given
back, and the function raises. -/
inductive Persisted (rt : Runtime) (i : ℕ) (settings : Settings) (dispatcherId : String)
    (event : CallbackEvent) (error : Option String) (w : ServiceWorld) :
    Except Exn Bool → List (Attempt Bool) → Option (Attempt Unit) → ServiceWorld → Prop
  | returned {older : List (Attempt Bool)} {last : Attempt Bool} {finalFailed : Bool} {w₁ : ServiceWorld}
      {T₁ : Option (Txn Row)} (htries : Tries rt i settings dispatcherId event error w none (older ++ [last]) w₁ T₁)
      (hretry : ∀ a ∈ older, a.Deadlocked) (hlength : older.length < deadlockMaxRetries)
      (hlast : last.result = .ok finalFailed) :
      Persisted rt i settings dispatcherId event error w (.ok finalFailed) (older ++ [last]) none w₁
  | raised {older : List (Attempt Bool)} {last : Attempt Bool} {lastExc e : Exn} {release : Attempt Unit}
      {w' w₁ : ServiceWorld} {T' T₁ : Option (Txn Row)}
      (htries : Tries rt i settings dispatcherId event error w none (older ++ [last]) w' T')
      (hretry : ∀ a ∈ older, a.Deadlocked) (hlength : older.length < deadlockMaxRetries)
      (hlast : last.result = .error lastExc)
      (hstop : isDeadlock lastExc = false ∨ older.length + 1 = deadlockMaxRetries)
      (hrelease : Attempted rt i settings dispatcherId
        (withConnection (releaseClaim event (some (trim lastExc.str)))) w' T' release w₁ T₁)
      (hraise : e = match release.result with
        | .ok () => lastExc
        | .error e' => e') :
      Persisted rt i settings dispatcherId event error w (.error e) (older ++ [last]) (some release) w₁

section Structure

variable {α : Type} {w w₁ : ServiceWorld} {T T₁ : Option (Txn Row)} {τ : ServiceTrace}

/-- Whatever is executed, the session's older commits stay. -/
theorem Dispatches.attempted {x : Db α} {r : Except Exn α}
    (h : Dispatches rt i settings dispatcherId x w T τ r w₁ T₁) :
    ∃ cs, Attempted rt i settings dispatcherId x w T ⟨r, cs⟩ w₁ T₁ := by
  have hgrows : ∀ v v', (ruleSpec rt commitRule).rely i (.runOnce settings dispatcherId) v v' →
      v.log <:+ v'.log := fun _ _ hrely => hrely.1.log
  have hlog : w.log <:+ w₁.log := Prog.Executes.log hgrows h
  obtain ⟨new, hnew⟩ := hlog
  exact ⟨commits i new, ⟨τ, h⟩, by rw [← hnew]; exact marks_append⟩

/-- The loop over the tries. -/
theorem persistTries_tries {n : ℕ} {r : Except Exn (Except Exn Bool)}
    (h : Dispatches rt i settings dispatcherId (persistTries event settings error (n + 1)) w T τ r w₁ T₁) :
    ∃ older last, Tries rt i settings dispatcherId event error w T (older ++ [last]) w₁ T₁ ∧
      (∀ a ∈ older, a.Deadlocked) ∧ older.length ≤ n ∧ r = .ok last.result ∧
      ∀ e, last.result = .error e → isDeadlock e = false ∨ older.length = n := by
  induction n generalizing w T τ r with
  -- the last try: whatever it gives is given on, a deadlock too
  | zero =>
    obtain ⟨e, -, hattempt⟩ | ⟨r', w', T', τ₁, τ₂, -, hattempt, hrest⟩ := h.of_bind
    · obtain ⟨_, heq, -⟩ := of_attempt hattempt
      cases heq
    obtain ⟨_, heq, hbody⟩ := of_attempt hattempt
    cases heq
    obtain ⟨cs, hattempted⟩ := Dispatches.attempted hbody
    have hend : r = .ok r' ∧ w₁ = w' ∧ T₁ = T' := by
      cases r' with
      | ok finalFailed =>
        cases hrest
        exact ⟨rfl, rfl, rfl⟩
      | error e =>
        have hgone : (!isDeadlock e) = true ∨ (0 : ℕ) = 0 := .inr rfl
        dsimp only at hrest
        rw [if_pos hgone] at hrest
        cases hrest
        exact ⟨rfl, rfl, rfl⟩
    obtain ⟨rfl, rfl, rfl⟩ := hend
    exact ⟨[], ⟨r', cs⟩, .cons hattempted .nil, fun _ h => (List.not_mem_nil h).elim, le_refl 0, rfl,
      fun _ _ => .inr rfl⟩
  | succ n ih =>
    obtain ⟨e, -, hattempt⟩ | ⟨r', w', T', τ₁, τ₂, -, hattempt, hrest⟩ := h.of_bind
    · obtain ⟨_, heq, -⟩ := of_attempt hattempt
      cases heq
    obtain ⟨_, heq, hbody⟩ := of_attempt hattempt
    cases heq
    obtain ⟨cs, hattempted⟩ := Dispatches.attempted hbody
    cases r' with
    | ok finalFailed =>
      cases hrest
      exact ⟨[], ⟨.ok finalFailed, cs⟩, .cons hattempted .nil, fun _ h => (List.not_mem_nil h).elim,
        Nat.zero_le _, rfl, fun _ he => (by cases he)⟩
    | error e =>
      by_cases hdeadlock : isDeadlock e = true
      -- a deadlock, with tries left
      · have hgoes : ¬((!isDeadlock e) = true ∨ n + 1 = 0) := by simp [hdeadlock]
        dsimp only at hrest
        rw [if_neg hgoes] at hrest
        obtain ⟨older, last, htries, hretry, hlength, hr, hstop⟩ := ih hrest
        refine ⟨⟨.error e, cs⟩ :: older, last, .cons hattempted htries, ?_, Nat.succ_le_succ hlength, hr,
          fun e' he' => (hstop e' he').imp_right fun hlen => congrArg Nat.succ hlen⟩
        rw [List.forall_mem_cons]
        exact ⟨⟨e, rfl, hdeadlock⟩, hretry⟩
      -- another exception: the loop ends
      · have hfresh : isDeadlock e = false := by simpa using hdeadlock
        have hstops : (!isDeadlock e) = true ∨ n + 1 = 0 := .inl (by simp [hfresh])
        dsimp only at hrest
        rw [if_pos hstops] at hrest
        cases hrest
        refine ⟨[], ⟨.error e, cs⟩, .cons hattempted .nil, fun _ h => (List.not_mem_nil h).elim,
          Nat.zero_le _, rfl, fun e' he' => .inl ?_⟩
        cases he'
        exact hfresh

/-- Every execution of the function is one of its transactions. -/
theorem persisted_of_executes {r : Except Exn Bool}
    (h : Dispatches rt i settings dispatcherId (persistDeliveryOutcome event settings error) w none τ r w₁ T₁) :
    ∃ tries release, Persisted rt i settings dispatcherId event error w r tries release w₁ := by
  obtain ⟨e, -, hfails⟩ | ⟨r', w', T', τ₁, τ₂, -, hall, hrest⟩ := h.of_bind
  · obtain ⟨_, _, _, _, _, heq, _⟩ := @persistTries_tries rt i settings dispatcherId event error _ _ _ _ _ 2 _ hfails
    cases heq
  obtain ⟨older, last, htries, hretry, hlength, heq, hstop⟩ :=
    @persistTries_tries rt i settings dispatcherId event error _ _ _ _ _ 2 _ hall
  have hless : older.length < deadlockMaxRetries := Nat.lt_succ_of_le hlength
  obtain rfl := Except.ok.inj heq
  cases hresult : last.result with
  | ok finalFailed =>
    rw [hresult] at hrest
    cases hrest
    exact ⟨_, none, .returned htries hretry hless hresult⟩
  | error lastExc =>
    rw [hresult] at hrest
    have hstop : isDeadlock lastExc = false ∨ older.length + 1 = deadlockMaxRetries :=
      (hstop lastExc hresult).imp_right fun hlen => congrArg Nat.succ hlen
    obtain ⟨e, rfl, hrelease⟩ | ⟨u, w'', T'', τ₃, τ₄, -, hrelease, hthrow⟩ := hrest.of_bind
    · obtain ⟨cs, hattempted⟩ := Dispatches.attempted hrelease
      exact ⟨_, _, .raised htries hretry hless hresult hstop hattempted rfl⟩
    · obtain ⟨cs, hattempted⟩ := Dispatches.attempted hrelease
      cases hthrow
      exact ⟨_, _, .raised htries hretry hless hresult hstop hattempted rfl⟩

/-- What follows a try, where `n` more may be made. -/
def afterTry {β : Type} (event : CallbackEvent) (settings : Settings) (error : Option String) (n : ℕ)
    (next : Except Exn (Except Exn Bool) → Prog Row Reply Exn Metric β) :
    Except Exn Bool → Prog Row Reply Exn Metric β
  | .ok finalFailed => next (.ok (.ok finalFailed))
  | .error e =>
    if !isDeadlock e ∨ n = 0 then next (.ok (.error e))
    else Prog.bind (persistTries event settings error n).run next

/-- What follows the tries. -/
def afterTries {β : Type} (event : CallbackEvent) (next : Except Exn Bool → Prog Row Reply Exn Metric β) :
    Except Exn (Except Exn Bool) → Prog Row Reply Exn Metric β
  | .ok (.ok finalFailed) => next (.ok finalFailed)
  | .ok (.error lastExc) =>
    Prog.bind (withConnection (releaseClaim event (some (trim lastExc.str)))).run fun release =>
      next (.error (match release with
        | .ok () => lastExc
        | .error e => e))
  | .error e => next (.error e)

/-- The loop over the tries, unrolled by one: a try, and then what its result leads to. -/
theorem persistTries_run {β : Type} (n : ℕ) (next : Except Exn (Except Exn Bool) → Prog Row Reply Exn Metric β) :
    Prog.bind (persistTries event settings error (n + 1)).run next
      = Prog.bind (persistOnce event settings error).run (afterTry event settings error n next) := by
  rw [persistTries, Client.run_bind, attempt_run]
  refine congrArg (Prog.bind (persistOnce event settings error).run) (funext fun r => ?_)
  cases r with
  | ok finalFailed => rfl
  | error e =>
    unfold afterTry
    dsimp only
    split <;> rfl

/-- The program is its tries and what follows the last of them. -/
theorem persistDeliveryOutcome_run {β : Type} (next : Except Exn Bool → Prog Row Reply Exn Metric β) :
    Prog.bind (persistDeliveryOutcome event settings error).run next
      = Prog.bind (persistTries event settings error deadlockMaxRetries).run (afterTries event next) := by
  rw [persistDeliveryOutcome, Client.run_bind]
  refine congrArg (Prog.bind (persistTries event settings error deadlockMaxRetries).run) (funext fun r => ?_)
  rcases r with e | e | finalFailed
  · rfl
  · unfold afterTries
    dsimp only
    rw [Client.run_bind]
    refine congrArg (Prog.bind _) (funext fun release => ?_)
    cases release <;> rfl
  · rfl

/-- Tries that go on as the loop does make the loop. -/
theorem Tries.executes {n : ℕ} {older : List (Attempt Bool)} {last : Attempt Bool}
    (h : Tries rt i settings dispatcherId event error w T (older ++ [last]) w₁ T₁)
    (hretry : ∀ a ∈ older, a.Deadlocked) (hlength : older.length ≤ n)
    (hstop : ∀ e, last.result = .error e → isDeadlock e = false ∨ older.length = n) :
    ∃ τ, Dispatches rt i settings dispatcherId (persistTries event settings error (n + 1)) w T τ
      (.ok last.result) w₁ T₁ := by
  have hrun : ∀ n, (persistTries event settings error (n + 1)).run
      = Prog.bind (persistOnce event settings error).run (afterTry event settings error n .ret) := fun n =>
    (Prog.bind_ret _).symm.trans (persistTries_run n .ret)
  induction older generalizing w T n with
  | nil =>
    cases h with
    | cons hattempted hrest =>
      cases hrest
      obtain ⟨⟨τ, hexec⟩, -⟩ := hattempted
      -- the last try ends the loop: it returned, or no further try is made
      have hend : afterTry event settings error n .ret last.result = .ret (.ok last.result) := by
        cases hlast : last.result with
        | ok finalFailed => rfl
        | error e =>
          have hgone : (!isDeadlock e) = true ∨ n = 0 := (hstop e hlast).imp (by simp) Eq.symm
          exact if_pos hgone
      refine ⟨τ ++ [], ?_⟩
      unfold Dispatches Client.Executes
      rw [hrun]
      exact Prog.Executes.bind hexec (by rw [hend]; exact .ret _ _ _)
  | cons a older ih =>
    obtain ⟨m, rfl⟩ : ∃ m, n = m + 1 := Nat.exists_eq_succ_of_ne_zero (by rw [List.length_cons] at hlength; omega)
    cases h with
    | cons hattempted hrest =>
      obtain ⟨⟨τ, hexec⟩, -⟩ := hattempted
      obtain ⟨e, he, hdeadlock⟩ := hretry a List.mem_cons_self
      obtain ⟨τ', hrest'⟩ := ih hrest (fun b hb => hretry b (List.mem_cons_of_mem _ hb))
        (Nat.le_of_succ_le_succ hlength) fun e' he' => (hstop e' he').imp_right Nat.succ.inj
      -- a deadlock with tries left: the loop goes round again
      have hagain : ¬((!isDeadlock e) = true ∨ m + 1 = 0) := by simp [hdeadlock]
      refine ⟨τ ++ τ', ?_⟩
      unfold Dispatches Client.Executes
      rw [hrun]
      refine Prog.Executes.bind hexec ?_
      rw [he]
      unfold afterTry
      dsimp only
      rw [if_neg hagain, Prog.bind_ret]
      exact hrest'

/-- Conversely, what is described so is an execution of the function. -/
theorem Persisted.executes {r : Except Exn Bool} {tries : List (Attempt Bool)} {release : Option (Attempt Unit)}
    (h : Persisted rt i settings dispatcherId event error w r tries release w₁) : ∃ τ T₁,
      Dispatches rt i settings dispatcherId (persistDeliveryOutcome event settings error) w none τ r w₁ T₁ := by
  have hrun : (persistDeliveryOutcome event settings error).run
      = Prog.bind (persistTries event settings error (2 + 1)).run (afterTries event .ret) :=
    (Prog.bind_ret _).symm.trans (persistDeliveryOutcome_run .ret)
  unfold Dispatches Client.Executes
  rw [hrun]
  cases h with
  | @returned older last finalFailed _ T₁ htries hretry hlength hlast =>
    obtain ⟨τ, hexec⟩ := htries.executes hretry (Nat.le_of_lt_succ hlength) fun e he => by
      cases hlast.symm.trans he
    rw [hlast] at hexec
    exact ⟨τ ++ [], T₁, Prog.Executes.bind hexec (.ret _ _ _)⟩
  | @raised older last lastExc e release w' _ T' T₁ htries hretry hlength hlast hstop hrelease hraise =>
    obtain ⟨τ, hexec⟩ := htries.executes hretry (Nat.le_of_lt_succ hlength) fun e he => by
      obtain rfl := Except.error.inj (hlast.symm.trans he)
      exact hstop.imp_right Nat.succ.inj
    obtain ⟨⟨τ', hrelease⟩, -⟩ := hrelease
    rw [hlast] at hexec
    refine ⟨τ ++ (τ' ++ []), T₁, Prog.Executes.bind hexec (Prog.Executes.bind hrelease ?_)⟩
    rw [hraise]
    exact .ret _ _ _

end Structure

/-! ## What they commit -/

/-- The commit applies an outcome of the kind `p` to the event, and does nothing else. -/
def Applies (event : CallbackEvent) (p : Outcome → Prop) (c : Txn Row × Tables) : Prop :=
  ∃ (o : Outcome) (e : CallbackEventRow) (m : Match), p o ∧
    Changed IsIndexKey (o.changes event.eventId e m c.1.start) c.2 (patch c.1.writes c.2)

/-- After the commits `cs`, the session has made one that applies such an outcome. -/
def Applied (i : ℕ) (event : CallbackEvent) (p : Outcome → Prop) (cs : List (Txn Row × Tables)) :
    Condition :=
  fun w T => ∃ c, Applies event p c ∧ commitRule.Marked i (c :: cs) w T

/-- It has made at most this one. -/
def AppliedOrNot (i : ℕ) (event : CallbackEvent) (p : Outcome → Prop) (cs : List (Txn Row × Tables)) :
    Condition :=
  fun w T => commitRule.Marked i cs w T ∨ Applied i event p cs w T

section Commits

variable {p : Outcome → Prop} {cs : List (Txn Row × Tables)}

/-- Nobody else can change the rows that the transaction has written and not committed. -/
theorem Recorded.stable : Stable (ruleSpec rt commitRule) i (.runOnce settings dispatcherId) (Recorded event p) :=
  .exists fun _ => .exists fun _ => .exists fun _ => .exists fun _ => .exists fun _ =>
    Stable.and (.own fun _ => _) Stage.stable

/-- The commit of what is recorded. -/
theorem commit_applied : Triple (ruleSpec rt commitRule) i (.runOnce settings dispatcherId)
    (fun w T => Recorded event p w T ∧ commitRule.Marked i cs w T) (perform .commit)
    (fun _ w T => Idle w T ∧ Applied i event p cs w T) fun _ => AppliedOrNot i event p cs := by
  have hcommit := @commit_leaving rt i (.runOnce settings dispatcherId) _ commitRule cs (Recorded event p)
    (fun k => ∃ c, k = some c ∧ Applies event p c) Recorded.stable (fun w T hrecorded => by
      obtain ⟨o, now, σs, e, m, ho, t, rfl, hhas⟩ := hrecorded
      obtain rfl := hhas.start
      exact ⟨(t, w.committed), commitMark_open hhas.live, o, e, m, ho, hhas.changed⟩) fun _ _ => trivial
  refine hcommit.conseq (fun _ _ h => h) ?_ ?_
  · rintro - w T ⟨hidle, _, ⟨c, rfl, hc⟩, hmarked⟩
    exact ⟨hidle, c, hc, hmarked⟩
  · rintro - w T (hmarked | ⟨_, ⟨c, rfl, hc⟩, hmarked⟩)
    · exact .inl hmarked
    · exact .inr ⟨c, hc, hmarked⟩

/-- Nothing is committed where no transaction is open. -/
theorem commit_nothing {l : Actor} : Triple (ruleSpec rt commitRule) i l
    (fun w T => Idle w T ∧ commitRule.Marked i cs w T) (perform .commit)
    (fun _ w T => Idle w T ∧ commitRule.Marked i cs w T) fun _ => commitRule.Marked i cs := by
  have hcommit := @commit_leaving rt i l _ commitRule cs Idle (· = none) Idle.stable
    (fun w T hidle => by rw [show T = none from hidle]; rfl) fun _ _ => trivial
  refine hcommit.conseq (fun _ _ h => h) ?_ ?_
  · rintro - w T ⟨hidle, _, rfl, hmarked⟩
    exact ⟨hidle, hmarked⟩
  · rintro - w T (hmarked | ⟨_, rfl, hmarked⟩) <;> exact hmarked

/-- The connection is given back after what has been applied. -/
theorem commit_after : Triple (ruleSpec rt commitRule) i (.runOnce settings dispatcherId)
    (fun w T => Idle w T ∧ Applied i event p cs w T) (perform .commit)
    (fun _ w T => Idle w T ∧ Applied i event p cs w T) fun _ => AppliedOrNot i event p cs := by
  have hone : ∀ c, Triple (ruleSpec rt commitRule) i (.runOnce settings dispatcherId)
      (fun w T => Applies event p c ∧ Idle w T ∧ commitRule.Marked i (c :: cs) w T) (perform .commit)
      (fun _ w T => Idle w T ∧ Applied i event p cs w T) fun _ => AppliedOrNot i event p cs :=
    fun c => .pure_pre fun hc => commit_nothing.conseq (fun _ _ h => h)
      (fun _ _ _ h => ⟨h.1, c, hc, h.2⟩) fun _ _ _ h => .inr ⟨c, hc, h⟩
  exact (Triple.exists_pre hone).pre fun _ _ ⟨hidle, c, hc, hmarked⟩ => ⟨c, hc, hidle, hmarked⟩

/-- A rollback takes nothing back that is committed. -/
theorem rollback_after {l : Actor} : Triple (ruleSpec rt commitRule) i l (AppliedOrNot i event p cs)
    (perform .rollback) (fun _ => AppliedOrNot i event p cs) fun _ => AppliedOrNot i event p cs := by
  have hone : ∀ c, Triple (ruleSpec rt commitRule) i l
      (fun w T => Applies event p c ∧ commitRule.Marked i (c :: cs) w T) (perform .rollback)
      (fun _ => AppliedOrNot i event p cs) fun _ => AppliedOrNot i event p cs := fun c =>
    .pure_pre fun hc => rollback_marked.conseq (fun _ _ h => h) (fun _ _ _ h => .inr ⟨c, hc, h⟩)
      fun _ _ _ h => .inr ⟨c, hc, h⟩
  exact .or_pre (rollback_marked.conseq (fun _ _ h => h) (fun _ _ _ h => .inl h) fun _ _ _ h => .inl h)
    (.exists_pre hone)

/-- A transaction that does what is recorded. -/
theorem transaction_applied {α : Type} {x : Db α}
    (hx : ∀ now, Triple (commitSpec rt) i (.runOnce settings dispatcherId)
      (fun w T => Pending now [] [] w T ∧ EventKnown event w.committed) x (fun _ => Recorded event p) anything)
    (hinside : Triple (ruleSpec rt commitRule) i (.runOnce settings dispatcherId) (commitRule.Inside i cs) x
      (fun _ => commitRule.Inside i cs) fun _ => commitRule.Inside i cs) :
    Triple (ruleSpec rt commitRule) i (.runOnce settings dispatcherId)
      (fun w T => (Idle w T ∧ EventKnown event w.committed) ∧ commitRule.Marked i cs w T) (transaction x)
      (fun _ w T => Idle w T ∧ Applied i event p cs w T) fun _ => AppliedOrNot i event p cs := by
  have hstable : Stable (ruleSpec rt commitRule) i (.runOnce settings dispatcherId) fun w T =>
      (Idle w T ∧ EventKnown event w.committed) ∧ commitRule.Marked i cs w T :=
    (ruled_stable (Idle.stable.and (eventKnown_lasting event).stable)).and LogRule.marked_stable
  have hidle : Triple (commitSpec rt) i (.runOnce settings dispatcherId) Idle (perform .start)
      (fun _ w T => ∃ now, Pending now [] [] w T) anything := Triple.idle_start
  have hinsideStart : Triple (ruleSpec rt commitRule) i (.runOnce settings dispatcherId)
      (commitRule.Marked i cs) (perform .start) (fun _ => commitRule.Inside i cs)
      fun _ => commitRule.Marked i cs := start_inside
  have hstart := ruled (Triple.keep (eventKnown_lasting event) hidle) hinsideStart
  refine Triple.transaction_after hstable (fun _ _ h => h.1.1)
    (hstart.conseq (fun _ _ h => h) (fun _ _ _ h => h) fun _ _ _ h => .inl h.2)
    (Triple.pre (.exists_pre fun now => (ruled (hx now) hinside).conseq (fun _ _ h => h)
      (fun _ _ _ h => ⟨h.1, h.2.2⟩) fun _ _ _ h => h.2.2)
      fun _ _ ⟨⟨⟨now, h⟩, hc⟩, hms⟩ => ⟨now, ⟨h, hc⟩, hms⟩)
    (fun _ => commit_applied) fun _ => ?_
  exact rollback_marked.conseq (fun _ _ h => h) (fun _ _ _ h => .inl h) fun _ _ _ h => .inl h

/-- The same on a connection of its own. -/
theorem withConnection_applied {α : Type} {x : Db α}
    (hx : Triple (ruleSpec rt commitRule) i (.runOnce settings dispatcherId)
      (fun w T => (Idle w T ∧ EventKnown event w.committed) ∧ commitRule.Marked i cs w T) x
      (fun _ w T => Idle w T ∧ Applied i event p cs w T) fun _ => AppliedOrNot i event p cs) :
    Triple (ruleSpec rt commitRule) i (.runOnce settings dispatcherId)
      (fun w T => (Idle w T ∧ EventKnown event w.committed) ∧ commitRule.Marked i cs w T) (withConnection x)
      (fun _ w T => Idle w T ∧ Applied i event p cs w T) fun _ => AppliedOrNot i event p cs := by
  have hidle : Triple (commitSpec rt) i (.runOnce settings dispatcherId) Idle (ask .getConnection)
      (fun _ => Idle) anything := Triple.ask_ok commitSpec_logs Idle.stable Idle.unlogged
  have hmarked : Triple (ruleSpec rt commitRule) i (.runOnce settings dispatcherId) (commitRule.Marked i cs)
      (ask .getConnection) (fun _ => commitRule.Marked i cs) fun _ => commitRule.Marked i cs :=
    ask_marked fun _ _ _ => rfl
  have hask := ruled (Triple.keep (eventKnown_lasting event) hidle) hmarked
  have hdiscard : Triple (ruleSpec rt commitRule) i (.runOnce settings dispatcherId) (AppliedOrNot i event p cs)
      discard (fun _ => AppliedOrNot i event p cs) fun _ => AppliedOrNot i event p cs :=
    .tryCatch rollback_after fun _ => .pure _ fun _ _ h => h
  exact Triple.withConnection_after
    (hask.conseq (fun _ _ h => h) (fun _ _ _ h => h) fun _ _ _ h => .inl h.2) hx (fun _ => commit_after)
    fun _ => .bind hdiscard fun _ => .throw _ fun _ _ h => h

/-- Within a transaction, what is made of statements leaves no marks. -/
theorem inside_marked : Composite (fun _ => True) False (fun _ => True) fun {α : Type} (x : Db α) =>
    Triple (ruleSpec rt commitRule) i (.runOnce settings dispatcherId) (commitRule.Inside i cs) x
      (fun _ => commitRule.Inside i cs) fun _ => commitRule.Inside i cs :=
  inside_composite (fun _ _ _ => rfl) fun _ _ _ => rfl

/-- A try that returns has committed one outcome; one that raises has committed one or none. -/
theorem persistOnce_applied : Triple (ruleSpec rt commitRule) i (.runOnce settings dispatcherId)
    (fun w T => (Idle w T ∧ EventKnown event w.committed) ∧ commitRule.Marked i cs w T)
    (persistOnce event settings error)
    (fun _ w T => (Idle w T ∧ EventKnown event w.committed) ∧
      Applied i event (OutcomeOf settings event error) cs w T)
    fun _ w T => (Idle w T ∧ EventKnown event w.committed) ∧
      AppliedOrNot i event (OutcomeOf settings event error) cs w T := by
  have hmatches : ∀ _ : UUID, True := fun _ => trivial
  have hmarks : Triple (ruleSpec rt commitRule) i (.runOnce settings dispatcherId)
      (fun w T => (Idle w T ∧ EventKnown event w.committed) ∧ commitRule.Marked i cs w T)
      (persistOnce event settings error)
      (fun _ w T => Idle w T ∧ Applied i event (OutcomeOf settings event error) cs w T)
      fun _ => AppliedOrNot i event (OutcomeOf settings event error) cs := by
    cases error with
    | none =>
      exact withConnection_applied (.bind (transaction_applied markDelivered_body
        (inside_marked.deliveredBody hmatches hmatches event)) fun _ => .pure _ fun _ _ h => h)
    | some error =>
      exact withConnection_applied (transaction_applied
        (fun now => (markFailedAttempt_body now).post fun _ _ _ h => h.mono fun _ ho => ho.1)
        (inside_marked.failedAttemptBody hmatches hmatches event settings error))
  refine (ruled (Triple.retain (eventKnown_lasting event) (persistOnce_triple error)) hmarks).conseq
    (fun _ _ h => ⟨h.1, h⟩) (fun _ _ _ h => ⟨⟨h.1.1.1, h.1.2⟩, h.2.2⟩) fun _ _ _ h => ⟨h.1, h.2⟩

/-- Likewise for the release of the claim. -/
theorem release_applied {error : Option String} : Triple (ruleSpec rt commitRule) i (.runOnce settings dispatcherId)
    (fun w T => (Idle w T ∧ EventKnown event w.committed) ∧ commitRule.Marked i cs w T)
    (withConnection (releaseClaim event error))
    (fun _ w T => Idle w T ∧ Applied i event (· = .released error) cs w T)
    fun _ => AppliedOrNot i event (· = .released error) cs :=
  withConnection_applied (transaction_applied releaseClaim_body (inside_marked.updateEvent fun _ => trivial))

end Commits

/-! ## What they return -/

/-- The outcome of a try is that the event has finally failed. -/
def FinallyFails (settings : Settings) (event : CallbackEvent) (error : Option String) : Prop :=
  error.isSome = true ∧ settings.callbackMaxAttempts ≤ event.attempts + 1

/-- A value that a transaction returns is one that its body returned. -/
theorem transaction_returns {α : Type} {P : α → Prop} {x : Db α} (hx : x.Returns P) :
    (transaction x).Returns P :=
  .bind fun _ => .bind fun _ => finish_returns hx (fun _ ha => .bind fun _ => .pure ha) fun _ =>
    .bind fun _ => .throw

/-- The same of a block with a connection, which adds only its COMMIT. -/
theorem withConnection_returns {α : Type} {P : α → Prop} {x : Db α} (hx : x.Returns P) :
    (withConnection x).Returns P :=
  .bind fun _ => finish_returns hx (fun _ ha => .bind fun _ => .pure ha) fun _ => .bind fun _ => .throw

/-- A try says of the event that it has failed for good exactly if the settings say so of its attempts. -/
theorem persistOnce_returns :
    (persistOnce event settings error).Returns fun finalFailed =>
      finalFailed = true ↔ FinallyFails settings event error := by
  cases error with
  | none => exact withConnection_returns (.bind fun _ => .pure (by simp [FinallyFails]))
  | some error =>
    refine withConnection_returns (transaction_returns ?_)
    by_cases hlast : settings.callbackMaxAttempts ≤ event.attempts + 1
    · rw [if_pos hlast]
      exact .bind fun _ => .bind fun _ => .pure (by simp [FinallyFails, hlast])
    · rw [if_neg hlast]
      exact .bind fun _ => .bind fun _ => .pure (by simp [FinallyFails, hlast])

/-- The event has failed exactly if that is its outcome. -/
theorem OutcomeOf.failed_iff {o : Outcome} {now : Time} {row : CallbackEventRow}
    (h : OutcomeOf settings event error o) :
    (o.apply now row).status = .failed ↔ FinallyFails settings event error := by
  cases error with
  | none =>
    obtain rfl : o = .delivered := h
    exact iff_of_false (fun hst => by cases hst) fun hfails => by cases hfails.1
  | some error =>
    have h : FailedAttempt settings event error o := h
    unfold FailedAttempt at h
    split at h
    · next hlast =>
      subst h
      exact iff_of_true rfl ⟨rfl, hlast⟩
    · next hmore =>
      obtain ⟨jitter, rfl⟩ := h
      exact iff_of_false (fun hst => by cases hst) fun hfails => hmore hfails.2

/-- It counts the attempt. -/
theorem OutcomeOf.attempts {o : Outcome} {now : Time} {row : CallbackEventRow}
    (h : OutcomeOf settings event error o) : (o.apply now row).attempts = row.attempts + 1 := by
  cases error with
  | none =>
    obtain rfl : o = .delivered := h
    rfl
  | some error =>
    have h : FailedAttempt settings event error o := h
    unfold FailedAttempt at h
    split at h
    · subst h
      rfl
    · obtain ⟨jitter, rfl⟩ := h
      rfl

/-! ## The lock -/

/-- The lock of the claimed row is not taken over: no other session takes it from the row. -/
def NotTakenOver (i : ℕ) (e : UUID) (locked : CallbackEventRow) (log : List LogEntry) : Prop :=
  ∀ entry ∈ log, entry.session ≠ i → ∀ t b row, entry.event.commit? = some (t, b) →
    b.lookup (.callbackEvents e) = some locked → (patch t.writes b).lookup (.callbackEvents e) = some row →
      row.lockedBy = locked.lockedBy ∧ row.lockedUntil = locked.lockedUntil

/-- What leaves the lock leaves the row. -/
theorem EventStep.locked {l : Actor} {t : Txn Row} {e : UUID} {locked : CallbackEventRow}
    {v : Option CallbackEventRow} (h : EventStep l t e (some locked) v) (hst : locked.status = .inProgress)
    (hby : locked.lockedBy ≠ none)
    (hkept : ∀ row, v = some row → row.lockedBy = locked.lockedBy ∧ row.lockedUntil = locked.lockedUntil) :
    v = some locked := by
  cases h with
  | same => rfl
  | claimed hl tie σ hσ he =>
    obtain ⟨hby', huntil⟩ := hkept _ rfl
    refine congrArg some ?_
    cases locked
    simp_all [CallbackEventRow.claimed]
  | outcome hl o =>
    have hnone : (o.apply t.start locked).lockedBy = none := by cases o <;> rfl
    exact absurd ((hkept _ rfl).1.symm.trans hnone) hby

/-! ## What the transactions have done -/

/-- A transaction that returns has applied one outcome of the kind `p`; one that raises has applied one
or none. -/
def Attempt.Does {α : Type} (event : CallbackEvent) (p : Outcome → Prop) (a : Attempt α) : Prop :=
  match a.result with
  | .ok _ => ∃ c, a.commits = [c] ∧ Applies event p c
  | .error _ => a.commits = [] ∨ ∃ c, a.commits = [c] ∧ Applies event p c

section Attempts

variable {α : Type} {w w₁ : ServiceWorld} {T T₁ : Option (Txn Row)} {p : Outcome → Prop}

/-- The session can begin a transaction for the event. -/
abbrev CanPersist (event : CallbackEvent) : Condition := fun w T => Idle w T ∧ EventKnown event w.committed

/-- A session that has committed the outcome has committed once, and that commit applies it. -/
theorem Applied.commits {cs new : List (Txn Row × Tables)} (hlog : commits i w₁.log = new ++ cs)
    (h : Applied i event p cs w₁ T₁) : ∃ c, new = [c] ∧ Applies event p c := by
  obtain ⟨c, hc, hmarked⟩ := h
  have happend : new ++ cs = [c] ++ cs := hlog.symm.trans hmarked
  exact ⟨c, List.append_cancel_right happend, hc⟩

/-- A try that ends with an exception may have committed the outcome before its acknowledgement was lost. -/
theorem AppliedOrNot.commits {cs new : List (Txn Row × Tables)}
    (hlog : ReadCommitted.commits i w₁.log = new ++ cs) (h : AppliedOrNot i event p cs w₁ T₁) :
    new = [] ∨ ∃ c, new = [c] ∧ Applies event p c := by
  rcases h with hmarked | h
  · have happend : new ++ cs = [] ++ cs := hlog.symm.trans hmarked
    exact .inl (List.append_cancel_right happend)
  · exact .inr (h.commits hlog)

/-- The triple of a transaction, read off one execution of it: the commits that it made apply the outcome, or
there are none. -/
theorem Attempted.does {x : Db α} {a : Attempt α}
    (hx : ∀ cs, Triple (ruleSpec rt commitRule) i (.runOnce settings dispatcherId)
      (fun w T => CanPersist event w T ∧ commitRule.Marked i cs w T) x (fun _ => Applied i event p cs)
      fun _ => AppliedOrNot i event p cs)
    (h : Attempted rt i settings dispatcherId x w T a w₁ T₁) (hw : CanPersist event w T) : a.Does event p := by
  obtain ⟨⟨τ, hexec⟩, hlog⟩ := h
  have hout := (hx (commits i w.log)).executes hexec ⟨hw, rfl⟩
  unfold Attempt.Does
  cases hr : a.result with
  | ok b =>
    rw [hr] at hout
    exact Applied.commits hlog hout
  | error e =>
    rw [hr] at hout
    exact AppliedOrNot.commits hlog hout

/-- A try makes at most one commit, which applies an outcome of the event by the result of the POST. -/
theorem Attempted.try_does {a : Attempt Bool}
    (h : Attempted rt i settings dispatcherId (persistOnce event settings error) w T a w₁ T₁)
    (hw : CanPersist event w T) : a.Does event (OutcomeOf settings event error) :=
  h.does (fun _ => persistOnce_applied.conseq (fun _ _ h => h) (fun _ _ _ h => h.2) fun _ _ _ h => h.2) hw

/-- The last resort makes at most one commit, which gives the claim back with the text of the error. -/
theorem Attempted.release_does {a : Attempt Unit} {error : Option String}
    (h : Attempted rt i settings dispatcherId (withConnection (releaseClaim event error)) w T a w₁ T₁)
    (hw : CanPersist event w T) : a.Does event (· = .released error) :=
  h.does (fun _ => release_applied.post fun _ _ _ h => h.2) hw

/-- The session is ready for the next transaction after a try. -/
theorem Attempted.ready {a : Attempt Bool}
    (h : Attempted rt i settings dispatcherId (persistOnce event settings error) w T a w₁ T₁)
    (hw : CanPersist event w T) : CanPersist event w₁ T₁ := by
  obtain ⟨⟨τ, hexec⟩, -⟩ := h
  have hout := (@persistOnce_applied rt i settings dispatcherId event error (commits i w.log)).executes hexec ⟨hw, rfl⟩
  cases hr : a.result with
  | ok b =>
    rw [hr] at hout
    exact hout.1
  | error e =>
    rw [hr] at hout
    exact hout.1

/-- Where the older tries have been rolled back, the last one begins as the first. -/
theorem Tries.last {older : List (Attempt Bool)} {last : Attempt Bool}
    (h : Tries rt i settings dispatcherId event error w T (older ++ [last]) w₁ T₁) (hw : CanPersist event w T)
    (hnone : ∀ a ∈ older, a.commits = []) : ∃ w' T', CanPersist event w' T' ∧
      commits i w'.log = commits i w.log ∧
      Attempted rt i settings dispatcherId (persistOnce event settings error) w' T' last w₁ T₁ := by
  induction older generalizing w T with
  | nil =>
    cases h with
    | cons hattempted hrest =>
      cases hrest
      exact ⟨w, T, hw, rfl, hattempted⟩
  | cons a older ih =>
    cases h with
    | cons hattempted hrest =>
      obtain ⟨w', T', hready, hlog, hlast⟩ := ih hrest (hattempted.ready hw) fun b hb =>
        hnone b (List.mem_cons_of_mem _ hb)
      refine ⟨w', T', hready, hlog.trans (hattempted.2.trans ?_), hlast⟩
      rw [hnone a List.mem_cons_self, List.nil_append]

end Attempts

/-! ## Exactly once or not at all -/

section Once

variable {w w₁ : ServiceWorld} {T₁ : Option (Txn Row)} {τ : ServiceTrace} {r : Except Exn Bool}
  {row₀ : CallbackEventRow} {now₀ : Time}

/-- The row that the claim of the event has left. -/
abbrev lockedRow (settings : Settings) (dispatcherId : String) (now₀ : Time) (row₀ : CallbackEventRow) :
    CallbackEventRow :=
  row₀.claimed dispatcherId settings.callbackTimeoutSeconds now₀

/-- The commits of the session find the row as the claim has left it, and without commits it stays so. -/
theorem locked_until_commit (hpast : Past rt w) (hpast₁ : Past rt w₁) {new : List LogEntry}
    (hlog : w₁.log = new ++ w.log)
    (hrow : w.committed.lookup (.callbackEvents event.eventId)
      = some (lockedRow settings dispatcherId now₀ row₀))
    (hlock : NotTakenOver i event.eventId (lockedRow settings dispatcherId now₀ row₀) new) :
    (commits i new = [] → w₁.committed.lookup (.callbackEvents event.eventId)
      = some (lockedRow settings dispatcherId now₀ row₀)) ∧
    ∀ c, commits i new = [c] → c.2.lookup (.callbackEvents event.eventId)
      = some (lockedRow settings dispatcherId now₀ row₀) := by
  have hchained : Chained ∅ (new ++ w.log) w₁.committed := hlog ▸ hpast₁.history.chained
  obtain ⟨m, hold, hnew⟩ := hchained.split
  obtain rfl := hpast.history.chained.unique hold
  have hothers : ∀ e ∈ new, e.session ≠ i → ∀ t b, e.event.commit? = some (t, b) →
      b.lookup (.callbackEvents event.eventId) = w.committed.lookup (.callbackEvents event.eventId) →
      (patch t.writes b).lookup (.callbackEvents event.eventId)
        = b.lookup (.callbackEvents event.eventId) := by
    intro e he hi t b hc hsame
    have hb := hsame.trans hrow
    have hmem : e ∈ w₁.log := hlog ▸ List.mem_append_left _ he
    have hstep := (hpast₁.legal hmem hc).eventStep event.eventId
    rw [hb] at hstep ⊢
    exact hstep.locked rfl (fun h => by cases h) fun row hrow' => hlock e he hi t b row hc hb hrow'
  obtain ⟨hnone, hfirst⟩ := hnew.row_by_session hothers
  exact ⟨fun h => (hnone h).trans hrow, fun c hc => (hfirst [] c hc).trans hrow⟩

/-- The commit `c` has written the outcome: it finds the row of the claim, counts the attempt and does
nothing else; the event has failed exactly if `finalFailed`. -/
structure Written (settings : Settings) (event : CallbackEvent) (error : Option String)
    (locked : CallbackEventRow) (finalFailed : Bool) (c : Txn Row × Tables) : Prop where
  applies : Applies event (OutcomeOf settings event error) c
  found : c.2.lookup (.callbackEvents event.eventId) = some locked
  left : ∃ row, (patch c.1.writes c.2).lookup (.callbackEvents event.eventId) = some row ∧
    row.attempts = locked.attempts + 1 ∧ (finalFailed = true ↔ row.status = .failed)

/-- The commit `c` has given the claim back: it leaves the event as the row `row₀` was before the claim,
but for the status, the lock and the last error, and leaves everything else alone. -/
structure GivenBack (event : CallbackEvent) (locked row₀ : CallbackEventRow) (c : Txn Row × Tables) :
    Prop where
  found : c.2.lookup (.callbackEvents event.eventId) = some locked
  left : ∃ lastError, (patch c.1.writes c.2).lookup (.callbackEvents event.eventId) = some
    { row₀ with status := .pending, lockedBy := none, lockedUntil := none, lastError := lastError }
  others : ∀ k, ¬ IsIndexKey k → k ≠ .callbackEvents event.eventId →
    (patch c.1.writes c.2).lookup k = c.2.lookup k

/-- The row that is found gets the outcome. -/
theorem Applies.left {p : Outcome → Prop} {c : Txn Row × Tables} {locked : CallbackEventRow}
    (h : Applies event p c) (hfound : c.2.lookup (.callbackEvents event.eventId) = some locked) :
    ∃ o, p o ∧ (patch c.1.writes c.2).lookup (.callbackEvents event.eventId)
      = some (o.apply c.1.start locked) := by
  obtain ⟨o, e, m, ho, hchanged⟩ := h
  obtain ⟨hold, hnew⟩ := hchanged.lookup (.callbackEvents event.eventId) (fun h => h) (o.dlookup_event ..)
  obtain rfl := Option.some.inj (hfound.symm.trans hold)
  exact ⟨o, ho, hnew⟩

/-- On the row that the claim has locked, the outcome is the one that is meant to be written. -/
theorem Applies.written {c : Txn Row × Tables} {locked : CallbackEventRow} {finalFailed : Bool}
    (h : Applies event (OutcomeOf settings event error) c)
    (hfound : c.2.lookup (.callbackEvents event.eventId) = some locked)
    (hfails : finalFailed = true ↔ FinallyFails settings event error) :
    Written settings event error locked finalFailed c where
  applies := h
  found := hfound
  left := by
    obtain ⟨o, ho, hnew⟩ := h.left hfound
    exact ⟨_, hnew, ho.attempts, hfails.trans ho.failed_iff.symm⟩

/-- On the locked row, a release leaves a pending event that keeps its attempts. -/
theorem Applies.givenBack {c : Txn Row × Tables} {lastError : Option String}
    (h : Applies event (· = .released lastError) c)
    (hfound : c.2.lookup (.callbackEvents event.eventId)
      = some (lockedRow settings dispatcherId now₀ row₀)) :
    GivenBack event (lockedRow settings dispatcherId now₀ row₀) row₀ c where
  found := hfound
  left := by
    obtain ⟨o, rfl, hnew⟩ := h.left hfound
    exact ⟨_, hnew⟩
  others k hk hne := by
    obtain ⟨o, e, m, rfl, hchanged⟩ := h
    exact hchanged.frame k hk (List.dlookup_cons_ne _ _ hne)

/-- A transaction has applied one outcome or none. -/
theorem Attempt.Does.cases {α : Type} {p : Outcome → Prop} {a : Attempt α} (h : a.Does event p) :
    a.commits = [] ∨ ∃ c, a.commits = [c] ∧ Applies event p c := by
  unfold Attempt.Does at h
  split at h
  · exact .inr h
  · exact h

/-- Attempts that have all been rolled back count as none. -/
theorem countP_committed {α : Type} {attempts : List (Attempt α)} (h : ∀ a ∈ attempts, a.commits = []) :
    attempts.countP Attempt.committed = 0 :=
  List.countP_eq_zero.mpr fun a ha => by simp [Attempt.committed, h a ha]

/-- A try that returns has committed. -/
theorem Attempt.Does.committed {α : Type} {p : Outcome → Prop} {a : Attempt α} {b : α}
    (h : a.Does event p) (hb : a.result = .ok b) : a.committed = true := by
  unfold Attempt.Does at h
  rw [hb] at h
  obtain ⟨c, hc, -⟩ := h
  simp [Attempt.committed, hc]

/-- **The outcome is persisted exactly once or not at all.** The claimed event has the lock of the
claim, and it is not taken over. Where tries that raise have been rolled back, the function returns
exactly if one try has committed, and that has written the outcome. Otherwise it raises what a
transaction has raised, and the session has committed nothing, or given the claim back. -/
theorem persisted_exactly_once (hpast : Past rt w)
    (hrow : w.committed.lookup (.callbackEvents event.eventId)
      = some (lockedRow settings dispatcherId now₀ row₀))
    (hmatch : event.matchId = row₀.matchId)
    (h : Dispatches rt i settings dispatcherId (persistDeliveryOutcome event settings error) w none τ r w₁ T₁)
    (hlock : ∀ new, w₁.log = new ++ w.log →
      NotTakenOver i event.eventId (lockedRow settings dispatcherId now₀ row₀) new) :
    (∃ tries release, Persisted rt i settings dispatcherId event error w r tries release w₁) ∧
    ∀ tries release, Persisted rt i settings dispatcherId event error w r tries release w₁ →
      (∀ a ∈ tries, a.RollsBack) →
      ((∃ finalFailed, r = .ok finalFailed) ↔ tries.countP Attempt.committed = 1) ∧
      (∀ finalFailed, r = .ok finalFailed → ∃ c, commits i w₁.log = c :: commits i w.log ∧
        Written settings event error (lockedRow settings dispatcherId now₀ row₀) finalFailed c) ∧
      ∀ e, r = .error e → tries.countP Attempt.committed = 0 ∧
        ((∃ a ∈ tries, a.result = .error e) ∨ ∃ a ∈ release, a.result = .error e) ∧
        ((commits i w₁.log = commits i w.log ∧ w₁.committed.lookup (.callbackEvents event.eventId)
            = some (lockedRow settings dispatcherId now₀ row₀)) ∨
          ∃ c, commits i w₁.log = c :: commits i w.log ∧
            GivenBack event (lockedRow settings dispatcherId now₀ row₀) row₀ c) := by
  refine ⟨persisted_of_executes h, fun tries release hpersisted hrolled => ?_⟩
  have hpast₁ : Past rt w₁ := Prog.Executes.known h hpast
  have hready : CanPersist event w none := ⟨rfl, _, hrow, hmatch.symm⟩
  -- the new part of the log
  have hgrows : ∀ v v', (ruleSpec rt commitRule).rely i (.runOnce settings dispatcherId) v v' →
      v.log <:+ v'.log := fun _ _ hrely => hrely.1.log
  obtain ⟨new, hnew⟩ := Prog.Executes.log hgrows h
  -- the lock holds from the claim to the first commit of the session, which finds the claimed row
  obtain ⟨hnone, hone⟩ := locked_until_commit hpast hpast₁ hnew.symm hrow (hlock new hnew.symm)
  have hcommits : commits i w₁.log = commits i new ++ commits i w.log := by rw [← hnew]; exact marks_append
  cases hpersisted with
  | @returned older last finalFailed _ _ htries hretry hlength hlast =>
    -- tries before the last one raised, so they were rolled back
    have holder : ∀ a ∈ older, a.commits = [] := fun a ha =>
      hrolled a (List.mem_append_left _ ha) ((hretry a ha).imp fun _ h => h.1)
    obtain ⟨w', T', hready', hlog', hattempted⟩ := htries.last hready holder
    -- the last try ran to its end, and what it returned says which outcome it took
    have hfails : finalFailed = true ↔ FinallyFails settings event error := by
      obtain ⟨⟨τ', hexec⟩, -⟩ := hattempted
      rw [hlast] at hexec
      exact persistOnce_returns _ _ hexec.runs
    have hdoes := hattempted.try_does hready'
    -- of all the tries only the last one has committed
    have hcount : (older ++ [last]).countP Attempt.committed = 1 := by
      rw [List.countP_append, countP_committed holder, List.countP_singleton, hdoes.committed hlast]
      rfl
    refine ⟨iff_of_true ⟨finalFailed, rfl⟩ hcount, fun b hb => ?_, fun e he => by cases he⟩
    cases hb
    unfold Attempt.Does at hdoes
    rw [hlast] at hdoes
    obtain ⟨c, hc, happlies⟩ := hdoes
    have hlogged : commits i w₁.log = c :: commits i w.log := by rw [hattempted.2, hlog', hc]; rfl
    -- its commit is the first of the session, so it finds the row as it was claimed
    have hfirst : commits i new = [c] :=
      List.append_cancel_right (hcommits.symm.trans hlogged : _ = [c] ++ commits i w.log)
    exact ⟨c, hlogged, happlies.written (hone c hfirst) hfails⟩
  | @raised older last lastExc e release' w' _ T' _ htries hretry hlength hlast hstop hrelease hraise =>
    -- here every try has raised, the last one too
    have hall : ∀ a ∈ older ++ [last], a.commits = [] := by
      intro a ha
      refine hrolled a ha ?_
      rcases List.mem_append.mp ha with ha | ha
      · exact (hretry a ha).imp fun _ h => h.1
      · rw [List.mem_singleton.mp ha]
        exact ⟨lastExc, hlast⟩
    obtain ⟨w'', T'', hready', hlog', hattempted⟩ :=
      htries.last hready fun a ha => hall a (List.mem_append_left _ ha)
    have hlog : commits i w'.log = commits i w.log := by
      rw [hattempted.2, hall last (List.mem_append_right _ List.mem_cons_self), hlog']
      rfl
    have hcount := countP_committed hall
    -- no try has committed, so the count is 0 and the function has not returned
    have hnotOne : ¬ (older ++ [last]).countP Attempt.committed = 1 := by
      rw [hcount]
      exact Nat.zero_ne_one
    refine ⟨iff_of_false (fun ⟨_, hr⟩ => nomatch hr) hnotOne, fun b hb => (by cases hb), fun e' he' =>
      ⟨hcount, ?_, ?_⟩⟩
    -- what is raised is the last try's exception, or that of the release that followed
    · cases he'
      cases hresult : release'.result with
      | ok u =>
        rw [hresult] at hraise
        exact .inl ⟨last, List.mem_append_right _ List.mem_cons_self, hraise ▸ hlast⟩
      | error e' =>
        rw [hresult] at hraise
        exact .inr ⟨release', rfl, hraise ▸ hresult⟩
    -- whatever the session has committed is the release's commit
    · have hnewCommits : commits i new = release'.commits := by
        refine List.append_cancel_right (hcommits.symm.trans ?_)
        rw [hrelease.2, hlog]
      rcases (hrelease.release_does (hattempted.ready hready')).cases with hnothing | ⟨c, hc, happlies⟩
      · exact .inl ⟨by rw [hrelease.2, hlog, hnothing]; rfl, hnone (hnewCommits.trans hnothing)⟩
      · exact .inr ⟨c, by rw [hrelease.2, hlog, hc]; rfl, happlies.givenBack (hone c (hnewCommits.trans hc))⟩

end Once

/-! ## A round on its own -/

/-- The sample run before its dispatcher starts. -/
def matchedState : ServiceState := (service sampleRuntime).after (sampleScript.take 8) (emptyState 0)

/-- The dispatcher runs alone from the world `w` on. -/
abbrev Unhindered {α : Type} (x : Db α) (w : ServiceWorld) (a : α) (w' : ServiceWorld) : Prop :=
  Prog.alone quietAnswer 4 (.runOnce sampleSettings "d") x.run w none = some (.ok a, w', none)

/-- It runs alone from `w` on, and the surroundings decide as in `cs`. -/
abbrev Steered {α : Type} (x : Db α) (cs : List (Choice Reply Exn)) (w : ServiceWorld) (r : Except Exn α)
    (w' : ServiceWorld) : Prop :=
  Prog.steered 4 (.runOnce sampleSettings "d") x.run cs w none = some (r, w', none)

/-- The world in which it claims. -/
def startedWorld : ServiceWorld := matchedState.world.push 4 (.runOnce sampleSettings "d") .begun

/-- The delivery of the event is logged. -/
def delivered (event : CallbackEvent) (w : ServiceWorld) : ServiceWorld :=
  ((w.push 4 (.runOnce sampleSettings "d") (.emit (.recordClaimed 1))).push 4
    (.runOnce sampleSettings "d") (.call .wallClock (.ok (0 : ℤ)))).push 4 (.runOnce sampleSettings "d")
      (.call (postOf sampleRuntime sampleSettings event (secondsText 0 ++ "Z")) (.ok (.response 200)))

/-- A connection is given out. -/
def connected : Choice Reply Exn := .answer fun c => .ok (quietAnswer 0 c)

/-- The exception that psycopg raises for a transaction chosen as the victim of a deadlock. -/
def deadlock : Exn := .deadlockDetected "deadlock detected"

/-- The update of the event's row ends with a deadlock. -/
def deadlocked : List (Choice Reply Exn) :=
  [connected, .proceed, .proceed, .proceed, .fail deadlock, .proceed, .proceed]

/-- A try that ends with a deadlock and commits nothing. -/
def deadlockedTry (event : CallbackEvent) (w : ServiceWorld) : Option ServiceWorld :=
  match Prog.steered 4 (.runOnce sampleSettings "d") (persistOnce event sampleSettings none).run deadlocked
    w none with
  | some (.error (.deadlockDetected text), w', none) =>
    if text = "deadlock detected" ∧ (commits 4 w'.log).length = (commits 4 w.log).length then some w' else none
  | _ => none

/-- A try that succeeds. -/
def smoothTry (event : CallbackEvent) (w : ServiceWorld) : Option ServiceWorld :=
  match Prog.steered 4 (.runOnce sampleSettings "d") (persistOnce event sampleSettings none).run
    (connected :: List.replicate 8 .proceed) w none with
  | some (.ok false, w', none) => some w'
  | _ => none

/-- The release of the claim after deadlocks. -/
def smoothRelease (event : CallbackEvent) (w : ServiceWorld) : Option ServiceWorld :=
  match Prog.steered 4 (.runOnce sampleSettings "d")
    (withConnection (releaseClaim event (some (trim deadlock.str)))).run
    (connected :: List.replicate 6 .proceed) w none with
  | some (.ok (), w', none) =>
    if (commits 4 w'.log).length = (commits 4 w.log).length + 1 then some w' else none
  | _ => none

/-- After the delivery of the event the first try can succeed, or two tries end with deadlocks and the
third one succeeds, or that ends with a deadlock as well and the claim is released. -/
def persistsSteered (event : CallbackEvent) (w : ServiceWorld) : Bool :=
  (smoothTry event w).isSome &&
    ((deadlockedTry event w).bind (deadlockedTry event)).any fun w₂ =>
      (smoothTry event w₂).isSome && ((deadlockedTry event w₂).bind (smoothRelease event)).isSome

/-- The dispatcher claims an event, and persists the outcome of its delivery in each of these ways. -/
def persistsAlone : Bool :=
  match Prog.alone quietAnswer 4 (.runOnce sampleSettings "d") (claimBatch sampleSettings "d").run
    startedWorld none with
  | some (.ok [event], w, none) =>
    (w.committed.lookup (.callbackEvents event.eventId)).any (fun row => row.status = .inProgress ∧
      row.lockedBy = some "d" ∧ row.lockedUntil = some (0 + seconds 3) ∧ row.matchId = event.matchId) &&
    persistsSteered event (delivered event w)
  | _ => false

/-- Every stage of the run without failures succeeds. -/
theorem persistsAlone_true : persistsAlone = true := by decide +kernel

/-- The stages of that run: a claim locks the row of the event, and the outcome finds it so. -/
theorem persistsAlone_stages : ∃ (event : CallbackEvent) (w : ServiceWorld) (row : CallbackEventRow),
    Unhindered (claimBatch sampleSettings "d") startedWorld [event] w ∧
      w.committed.lookup (.callbackEvents event.eventId) = some (lockedRow sampleSettings "d" 0 row) ∧
      row.matchId = event.matchId ∧ persistsSteered event (delivered event w) = true := by
  have h := persistsAlone_true
  unfold persistsAlone at h
  split at h
  · next event w hclaim =>
    obtain ⟨hlocked, hsteered⟩ := (Bool.and_eq_true _ _).mp h
    obtain ⟨row, hrow, hfields⟩ := (Option.any_eq_true _ _).mp hlocked
    obtain ⟨hst, hby, huntil, hmatch⟩ := of_decide_eq_true hfields
    have hclaimed : lockedRow sampleSettings "d" 0 row = row := by
      cases row
      simp_all [lockedRow, CallbackEventRow.claimed, sampleSettings]
    exact ⟨event, w, row, hclaim, hclaimed.symm ▸ hrow, hmatch, hsteered⟩
  · cases h

/-- Every actor keeps the rule. -/
theorem commitRule_program (i : ℕ) (l : Actor) : Triple (ruleSpec rt commitRule) i l
    (fun w T => Idle w T ∧ commitRule.Marked i [] w T) (program rt l)
    (fun a w _ => commitRule.Answers i l (.ok a) w.log) fun e w _ => commitRule.Answers i l (.error e) w.log := by
  have hlogs : (ruleSpec rt commitRule).Logs i l := fun w ev _ hfacts =>
    LogRule.spec_push grows_growth hfacts.1 trivial
  have hcommits : (ruleSpec rt commitRule).Commits i l fun _ _ => True := ruleSpec_commits fun _ _ _ _ _ _ => trivial
  exact (Triple.of_commits hlogs hcommits).conseq (fun _ _ h => h) (fun _ _ _ _ _ _ _ => trivial)
    fun _ _ _ _ _ _ _ => trivial

/-- In every reachable state of the service, all sessions keep to the rule on commits. -/
theorem commitRule_good {clock : Time} {s : ServiceState} (hs : (service rt).Reachable (emptyState clock) s) :
    (ruleSpec rt commitRule).Good (service rt) s :=
  LogRule.good_of_reachable grows_growth (fun _ _ => rfl) commitRule_program (fun _ h => service_past h) hs

/-- The counter of claimed events is moved without a look at the tables. -/
theorem record_alone (w : ServiceWorld) : Unhindered (record (.recordClaimed 1)) w ()
    (w.push 4 (.runOnce sampleSettings "d") (.emit (.recordClaimed 1))) := rfl

/-- The POST of the event gets the sample's answer and only adds to the log. -/
theorem deliver_alone (event : CallbackEvent) (w : ServiceWorld) :
    Unhindered (deliverEvent sampleRuntime event sampleSettings)
      (w.push 4 (.runOnce sampleSettings "d") (.emit (.recordClaimed 1))) none (delivered event w) := rfl

/-- Before the dispatcher starts, every session is over. -/
theorem matchedState_over : ∀ x ∈ matchedState.sessions, x = none := by
  have h : matchedState.sessions.all Option.isNone = true := by decide +kernel
  exact fun x hx => Option.isNone_iff_eq_none.mp (List.all_eq_true.mp h x hx)

/-- Four sessions have run, so that the dispatcher is number four. -/
theorem matchedState_length : matchedState.sessions.length = 4 := by decide +kernel

/-- In some run the world is `w`, and the dispatcher has `p` before it, with nobody in its way. -/
def AtWork (p : Prog Row Reply Exn Metric (Except Exn Answer)) (w : ServiceWorld) : Prop :=
  ∃ s born, (service sampleRuntime).Reachable (emptyState 0) s ∧
    s.Solo 4 (.runOnce sampleSettings "d") born p none ∧ s.world = w

/-- What the log has gained is of session 4. -/
def OwnLog (w w' : ServiceWorld) : Prop := ∃ new, w'.log = new ++ w.log ∧ ∀ e ∈ new, e.session = 4

/-- Two stages in which only this session writes into the log follow each other. -/
theorem OwnLog.trans {w w' w'' : ServiceWorld} (h : OwnLog w w') (h' : OwnLog w' w'') : OwnLog w w'' := by
  obtain ⟨new, hnew, hsession⟩ := h
  obtain ⟨new', hnew', hsession'⟩ := h'
  refine ⟨new' ++ new, by rw [hnew', hnew, List.append_assoc], fun e he => ?_⟩
  exact (List.mem_append.mp he).elim (hsession' e) (hsession e)

/-- Where only this session has written into the log, nobody has taken the event over. -/
theorem OwnLog.notTakenOver {w w' : ServiceWorld} (h : OwnLog w w') {e : UUID} {locked : CallbackEventRow} :
    ∀ new, w'.log = new ++ w.log → NotTakenOver 4 e locked new := by
  intro new hnew entry hentry hother
  obtain ⟨new', hnew', hsession⟩ := h
  rw [List.append_cancel_right (hnew.symm.trans hnew')] at hentry
  exact absurd (hsession entry hentry) hother

section AtWork

variable {α : Type} {x : Db α} {next : Except Exn α → Prog Row Reply Exn Metric (Except Exn Answer)}
  {w w' : ServiceWorld} {cs : List (Choice Reply Exn)} {r : Except Exn α}

/-- A session at work belongs to a run of the service, whose past is known. -/
theorem AtWork.past {p : Prog Row Reply Exn Metric (Except Exn Answer)} (h : AtWork p w) :
    Past sampleRuntime w := by
  obtain ⟨s, born, hs, -, rfl⟩ := h
  exact service_past hs

/-- The dispatcher carries out what it is about to do. -/
theorem AtWork.steered (h : AtWork (Prog.bind x.run next) w) (hrun : Steered x cs w r w') :
    AtWork (next r) w' ∧ OwnLog w w' ∧
      ∃ made, Attempted sampleRuntime 4 sampleSettings "d" x w none ⟨r, made⟩ w' none := by
  obtain ⟨s, born, hs, hsolo, hw⟩ := h
  have hlawful : (ruleSpec sampleRuntime commitRule).Lawful (service sampleRuntime) :=
    LogRule.spec_lawful grows_growth fun _ _ => rfl
  have hgood : ∀ s, (service sampleRuntime).Reachable (emptyState 0) s →
      (ruleSpec sampleRuntime commitRule).Good (service sampleRuntime) s ∧
        (ruleSpec sampleRuntime commitRule).known s.world := fun s hs =>
    ⟨commitRule_good hs, service_past hs⟩
  obtain ⟨s', τ, hs', hsolo', hw', hexec⟩ := Prog.steered_executes hlawful hgood hs hsolo hw hrun
  exact ⟨⟨s', born, hs', hsolo', hw'⟩, Prog.steered_entries hrun, Dispatches.attempted hexec⟩

/-- A part of the program that runs without hindrance leads the session on to the next one. -/
theorem AtWork.unhindered {a : α} (h : AtWork (Prog.bind x.run next) w) (hrun : Unhindered x w a w') :
    AtWork (next (.ok a)) w' := by
  obtain ⟨cs, hcs⟩ := Prog.steered_of_alone hrun
  exact (h.steered hcs).1

/-- After the delivery of the event its outcome is to be persisted. -/
theorem atWork_delivered {event : CallbackEvent}
    (hclaim : Unhindered (claimBatch sampleSettings "d") startedWorld [event] w) :
    ∃ next, AtWork (Prog.bind (persistDeliveryOutcome event sampleSettings none).run next)
      (delivered event w) := by
  obtain ⟨s, hstep, hworld, hsolo⟩ : ∃ s', (service sampleRuntime).Step matchedState s' ∧
      s'.world = matchedState.world.push matchedState.sessions.length (.runOnce sampleSettings "d") .begun ∧
      s'.Solo matchedState.sessions.length (.runOnce sampleSettings "d") matchedState.world.committed
        (program sampleRuntime (.runOnce sampleSettings "d")).run none :=
    System.solo_of_start matchedState_over _
  rw [matchedState_length] at hworld hsolo
  have hprogram := (Prog.bind_ret (program sampleRuntime (.runOnce sampleSettings "d")).run).symm.trans
    ((Client.run_bind (runOnce sampleRuntime sampleSettings "d")
      (fun n => (pure (.processed n) : Db Answer)) .ret).trans
      (Client.run_bind (claimBatch sampleSettings "d") _ _))
  rw [hprogram] at hsolo
  have hstart : AtWork _ startedWorld := ⟨s, _, .step (System.reachable_after _ _) hstep, hsolo, hworld⟩
  have hclaimed := hstart.unhindered hclaim
  dsimp only at hclaimed
  rw [Client.run_bind] at hclaimed
  have hrecorded := hclaimed.unhindered (record_alone w)
  dsimp only at hrecorded
  rw [Client.run_bind, deliverEvents, Client.run_bind] at hrecorded
  have hdelivered := hrecorded.unhindered (deliver_alone event w)
  dsimp only at hdelivered
  rw [Client.run_bind, attempt_run] at hdelivered
  exact ⟨_, hdelivered⟩

end AtWork

section Stages

variable {w w' : ServiceWorld} {n : ℕ}
  {next : Except Exn (Except Exn Bool) → Prog Row Reply Exn Metric (Except Exn Answer)}

/-- One try of the sample. -/
abbrev SampleTry (event : CallbackEvent) (w : ServiceWorld) (a : Attempt Bool) (w' : ServiceWorld) : Prop :=
  Attempted sampleRuntime 4 sampleSettings "d" (persistOnce event sampleSettings none) w none a w' none

/-- After a deadlock the loop goes on. -/
theorem afterTry_deadlock (n : ℕ) : afterTry event sampleSettings none (n + 1) next (.error deadlock)
    = Prog.bind (persistTries event sampleSettings none (n + 1)).run next := by
  have hagain : ¬((!isDeadlock deadlock) = true ∨ n + 1 = 0) := by simp [isDeadlock, deadlock]
  unfold afterTry
  dsimp only
  rw [if_neg hagain]

/-- A try that nothing hinders succeeds and commits. -/
theorem smoothTry_stage (h : AtWork (Prog.bind (persistTries event sampleSettings none (n + 1)).run next) w)
    (htry : smoothTry event w = some w') :
    OwnLog w w' ∧ ∃ made, SampleTry event w ⟨.ok false, made⟩ w' := by
  rw [persistTries_run] at h
  unfold smoothTry at htry
  split at htry
  · next hrun =>
    cases htry
    exact (h.steered hrun).2
  · cases htry

/-- A try that is rolled back by a deadlock leads to the next try, and has committed nothing. -/
theorem deadlockedTry_stage (h : AtWork (Prog.bind (persistTries event sampleSettings none (n + 1)).run next) w)
    (htry : deadlockedTry event w = some w') :
    AtWork (afterTry event sampleSettings none n next (.error deadlock)) w' ∧ OwnLog w w' ∧
      SampleTry event w ⟨.error deadlock, []⟩ w' := by
  rw [persistTries_run] at h
  unfold deadlockedTry at htry
  split at htry
  · next text _ hrun =>
    obtain ⟨⟨rfl, hlength⟩, heq⟩ := Option.ite_none_right_eq_some.mp htry
    cases heq
    obtain ⟨hwork, hown, made, hattempted⟩ := h.steered hrun
    have hmade : made = [] := by
      have hcommits : (commits 4 w'.log).length = (made ++ commits 4 w.log).length :=
        congrArg List.length hattempted.2
      rw [List.length_append] at hcommits
      exact List.length_eq_zero_iff.mp (by omega)
    exact ⟨hwork, hown, hmade ▸ hattempted⟩
  · cases htry

/-- The last resort, where nothing hinders it, commits once. -/
theorem smoothRelease_stage {next : Except Exn Unit → Prog Row Reply Exn Metric (Except Exn Answer)}
    (h : AtWork (Prog.bind (withConnection (releaseClaim event (some (trim deadlock.str)))).run next) w)
    (hrelease : smoothRelease event w = some w') :
    OwnLog w w' ∧ (commits 4 w'.log).length = (commits 4 w.log).length + 1 ∧
      ∃ made, Attempted sampleRuntime 4 sampleSettings "d"
        (withConnection (releaseClaim event (some (trim deadlock.str)))) w none ⟨.ok (), made⟩ w' none := by
  unfold smoothRelease at hrelease
  split at hrelease
  · next hrun =>
    obtain ⟨hlength, heq⟩ := Option.ite_none_right_eq_some.mp hrelease
    cases heq
    obtain ⟨-, hown, hattempted⟩ := h.steered hrun
    exact ⟨hown, hlength, hattempted⟩
  · cases hrelease

end Stages

/-- The tries that the function makes in this sample. -/
def deadlockedAttempt : Attempt Bool := ⟨.error deadlock, []⟩

/-- The sample's failed try has raised a deadlock and committed nothing. -/
theorem deadlockedAttempt_deadlocked : deadlockedAttempt.Deadlocked := ⟨deadlock, rfl, rfl⟩

/-- Of the tries that can be made after the delivery of one event, the first one succeeds; or two end with
deadlocks and the third one succeeds, and the outcome is written once; or three end with deadlocks, and
the claim is given back. -/
theorem persisted_exactly_once_sample : ∃ (event : CallbackEvent) (w : ServiceWorld) (row₀ : CallbackEventRow),
    (∃ w₁ tries c, Persisted sampleRuntime 4 sampleSettings "d" event none w (.ok false) tries none w₁ ∧
      tries.length = 1 ∧ tries.countP Attempt.committed = 1 ∧ commits 4 w₁.log = c :: commits 4 w.log ∧
      Written sampleSettings event none (lockedRow sampleSettings "d" 0 row₀) false c) ∧
    (∃ w₁ last c, Persisted sampleRuntime 4 sampleSettings "d" event none w (.ok false)
        ([deadlockedAttempt, deadlockedAttempt] ++ [last]) none w₁ ∧
      commits 4 w₁.log = c :: commits 4 w.log ∧
      Written sampleSettings event none (lockedRow sampleSettings "d" 0 row₀) false c) ∧
    ∃ w₁ release c, Persisted sampleRuntime 4 sampleSettings "d" event none w (.error deadlock)
        ([deadlockedAttempt, deadlockedAttempt] ++ [deadlockedAttempt]) (some release) w₁ ∧
      commits 4 w₁.log = c :: commits 4 w.log ∧
      GivenBack event (lockedRow sampleSettings "d" 0 row₀) row₀ c := by
  obtain ⟨event, w, row, hclaim, hrow, hmatch, hsteered⟩ := persistsAlone_stages
  simp only [persistsSteered, Bool.and_eq_true, Option.any_eq_true, Option.isSome_iff_exists,
    Option.bind_eq_some_iff] at hsteered
  obtain ⟨⟨w₁, hfirst⟩, w₃, ⟨w₂, htry, htry'⟩, ⟨w₄, hthird⟩, w₆, w₅, htry'', hrelease⟩ := hsteered
  obtain ⟨next, hwork⟩ := atWork_delivered hclaim
  have hpast := hwork.past
  have hrow' : (delivered event w).committed.lookup (.callbackEvents event.eventId)
      = some (lockedRow sampleSettings "d" 0 row) := hrow
  rw [persistDeliveryOutcome_run] at hwork
  -- the two tries that both longer runs begin with
  obtain ⟨hwork₂, hown₂, htried₂⟩ := deadlockedTry_stage hwork htry
  rw [afterTry_deadlock 1] at hwork₂
  obtain ⟨hwork₃, hown₃, htried₃⟩ := deadlockedTry_stage hwork₂ htry'
  rw [afterTry_deadlock 0] at hwork₃
  have hdeadlocked : ∀ a ∈ [deadlockedAttempt, deadlockedAttempt], a.Deadlocked := by
    simp [deadlockedAttempt_deadlocked]
  refine ⟨event, delivered event w, row, ?_, ?_, ?_⟩
  · obtain ⟨hown, made, htried⟩ := smoothTry_stage hwork hfirst
    have hpersisted : Persisted sampleRuntime 4 sampleSettings "d" event none (delivered event w) (.ok false)
        ([] ++ [⟨.ok false, made⟩]) none w₁ :=
      .returned (.cons htried .nil) (fun _ ha => (List.not_mem_nil ha).elim) (by decide) rfl
    obtain ⟨τ, T₁, hexec⟩ := hpersisted.executes
    obtain ⟨hone, hwritten, -⟩ := (persisted_exactly_once hpast hrow' hmatch.symm hexec hown.notTakenOver).2
      _ _ hpersisted (by simp [Attempt.RollsBack, Attempt.Raised])
    obtain ⟨c, hlog, hc⟩ := hwritten false rfl
    exact ⟨w₁, _, c, hpersisted, rfl, hone.mp ⟨false, rfl⟩, hlog, hc⟩
  · obtain ⟨hown, made, htried⟩ := smoothTry_stage hwork₃ hthird
    have hpersisted : Persisted sampleRuntime 4 sampleSettings "d" event none (delivered event w) (.ok false)
        ([deadlockedAttempt, deadlockedAttempt] ++ [⟨.ok false, made⟩]) none w₄ :=
      .returned (.cons htried₂ (.cons htried₃ (.cons htried .nil))) hdeadlocked (by decide) rfl
    obtain ⟨τ, T₁, hexec⟩ := hpersisted.executes
    obtain ⟨-, hwritten, -⟩ := (persisted_exactly_once hpast hrow' hmatch.symm hexec
      (hown₂.trans (hown₃.trans hown)).notTakenOver).2 _ _ hpersisted
      (by simp [Attempt.RollsBack, Attempt.Raised, deadlockedAttempt])
    obtain ⟨c, hlog, hc⟩ := hwritten false rfl
    exact ⟨w₄, _, c, hpersisted, hlog, hc⟩
  · obtain ⟨hwork₅, hown₅, htried₅⟩ := deadlockedTry_stage hwork₃ htry''
    obtain ⟨hown, hlength, made, hreleased⟩ := smoothRelease_stage hwork₅ hrelease
    have hpersisted : Persisted sampleRuntime 4 sampleSettings "d" event none (delivered event w)
        (.error deadlock) ([deadlockedAttempt, deadlockedAttempt] ++ [deadlockedAttempt])
        (some ⟨.ok (), made⟩) w₆ :=
      .raised (.cons htried₂ (.cons htried₃ (.cons htried₅ .nil))) hdeadlocked (by decide) rfl (.inr rfl)
        hreleased rfl
    obtain ⟨τ, T₁, hexec⟩ := hpersisted.executes
    obtain ⟨-, -, hraised⟩ := (persisted_exactly_once hpast hrow' hmatch.symm hexec
      (hown₂.trans (hown₃.trans (hown₅.trans hown))).notTakenOver).2 _ _ hpersisted
      (by simp [Attempt.RollsBack, Attempt.Raised, deadlockedAttempt])
    obtain ⟨-, -, ⟨hnothing, -⟩ | ⟨c, hlog, hc⟩⟩ := hraised deadlock rfl
    · -- the release has committed
      rw [hnothing, htried₅.2, htried₃.2, htried₂.2] at hlength
      exact absurd hlength (Nat.succ_ne_self _).symm
    · exact ⟨w₆, _, c, hpersisted, hlog, hc⟩

end Matchmaking
