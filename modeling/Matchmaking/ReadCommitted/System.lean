import Matchmaking.ReadCommitted.Program

/-!
# Concurrent sessions and their runs

A `System` says which programs clients run, and which clients never run at the same time. Its states
hold the shared world and a growing list of sessions; the index of a session is its identity for
good. In one step a session is started, carries out one operation, ends, or crashes, or the clock
moves on. A crash and an end drop the session's transaction: the server rolls it back.
-/

namespace ReadCommitted

variable {K X : Type} {V : K → Type} {Y : X → Type} {E M R L : Type}

/-- A running client: what it acts as, the committed store at its start, the rest of its program,
its open transaction. -/
structure Session (V : K → Type) (Y : X → Type) (E M R L : Type) where
  actor : L
  born : Store V
  prog : Prog V Y E M (Except E R)
  txn : Option (Txn V)

/-- The shared world and the sessions; a session that is over is `none`. -/
structure State (V : K → Type) (Y : X → Type) (E M R L : Type) where
  world : World V Y E M R L
  sessions : List (Option (Session V Y E M R L))

/-- The clients of a database: for each actor the program that its sessions run, and which actors cannot run
at the same time. -/
structure System (V : K → Type) (Y : X → Type) (E M R L : Type) where
  /-- The program an actor runs. -/
  program : L → Client V Y E M R
  /-- Actors that never run at the same time. -/
  exclusive : L → L → Bool

/-- One step of a run. Any session may take the next step, at any time and with any choice of the
surroundings, which is all that is assumed about scheduling. -/
inductive Action (Y : X → Type) (E L : Type)
  | start (l : L)
  | exec (i : ℕ) (c : Choice Y E)
  | finish (i : ℕ)
  | crash (i : ℕ)
  | tick (d : ℕ)

/-- Whether an open transaction holds row `k` locked. A connection without a transaction holds nothing. -/
def holding [DecidableEq K] (T : Option (Txn V)) (k : K) : Bool := T.any fun t => t.holds k

namespace State

/-- The state in which a run begins, with these committed rows, at this time, and without sessions. -/
def initial (s₀ : Store V) (clock : Time) : State V Y E M R L :=
  { world := { committed := s₀, clock := clock, log := [] }, sessions := [] }

/-- Session `i`, while it runs. The numbers of sessions that are over are not used again. -/
def session (s : State V Y E M R L) (i : ℕ) : Option (Session V Y E M R L) := s.sessions[i]?.join

/-- The rows that sessions other than `i` hold locked, which are those that session `i` has to wait for. -/
def locked [DecidableEq K] (s : State V Y E M R L) (i : ℕ) (k : K) : Bool :=
  (List.range s.sessions.length).any fun j =>
    j != i && (s.session j).any fun x => holding x.txn k

/-- Whether a running session excludes the actor `l`, which then cannot start. -/
def excludes (sys : System V Y E M R L) (s : State V Y E M R L) (l : L) : Bool :=
  (List.range s.sessions.length).any fun j => (s.session j).any fun x => sys.exclusive l x.actor

/-- Replace the world and session `i`, and leave the other sessions as they are. -/
def update (s : State V Y E M R L) (i : ℕ) (w : World V Y E M R L)
    (x : Option (Session V Y E M R L)) : State V Y E M R L :=
  { world := w, sessions := s.sessions.set i x }

end State

variable [DecidableEq K]

namespace System

variable (sys : System V Y E M R L)

/-- Carry out one action, if it is possible now. A crash takes a session away together with its open
transaction; what it has committed stays. -/
def exec (a : Action Y E L) (s : State V Y E M R L) : Option (State V Y E M R L) :=
  match a with
  | .start l =>
      let x : Session V Y E M R L := ⟨l, s.world.committed, (sys.program l).run, none⟩
      if s.excludes sys l then none
      else some { world := s.world.push s.sessions.length l .begun, sessions := s.sessions ++ [some x] }
  | .exec i c =>
      match s.session i with
      | some ⟨l, born, .op o next, T⟩ =>
          (o.exec i l (s.locked i) c s.world T).map fun (r, w, T') =>
            s.update i w (some ⟨l, born, next r, T'⟩)
      | _ => none
  | .finish i =>
      match s.session i with
      | some ⟨l, born, .ret r, _⟩ => some (s.update i (s.world.push i l (.answer born r)) none)
      | _ => none
  | .crash i => (s.session i).map fun _ => s.update i s.world none
  | .tick d => some { s with world := { s.world with clock := s.world.clock + d } }

/-- One step of a run, by whatever action. -/
def Step (s s' : State V Y E M R L) : Prop := ∃ a, sys.exec a s = some s'

/-- The states of the runs from `s₀`. A run has finitely many steps, in any order that the sessions allow. -/
inductive Reachable (s₀ : State V Y E M R L) : State V Y E M R L → Prop
  | refl : Reachable s₀ s₀
  | step {s s'} : Reachable s₀ s → sys.Step s s' → Reachable s₀ s'

theorem Reachable.trans {sys : System V Y E M R L} {s₀ s₁ s₂ : State V Y E M R L}
    (h₁ : sys.Reachable s₀ s₁) (h₂ : sys.Reachable s₁ s₂) : sys.Reachable s₀ s₂ := by
  induction h₂ with
  | refl => exact h₁
  | step _ hstep ih => exact .step ih hstep

/-- Let session `i` carry out `n` operations, or end; `answer` replies to its calls, by the length of
the log. -/
def advance (answer : ℕ → (x : X) → Except E (Y x)) (i : ℕ) :
    ℕ → State V Y E M R L → Option (State V Y E M R L)
  | 0, s => some s
  | n + 1, s =>
      match s.session i with
      | none => some s
      | some ⟨_, _, .ret _, _⟩ => sys.exec (.finish i) s
      | some ⟨_, _, .op (.call _) _, _⟩ =>
          (sys.exec (.exec i (.answer (answer s.world.log.length))) s).bind (advance answer i n)
      | some ⟨_, _, .op _ _, _⟩ => (sys.exec (.exec i .proceed) s).bind (advance answer i n)

/-- A session that advances by itself makes steps of the system. -/
theorem reachable_of_advance {sys : System V Y E M R L} {answer : ℕ → (x : X) → Except E (Y x)}
    {i n : ℕ} {s s' : State V Y E M R L} (h : sys.advance answer i n s = some s') :
    sys.Reachable s s' := by
  induction n generalizing s with
  | zero =>
    obtain rfl : s = s' := Option.some.inj h
    exact .refl
  | succ n ih =>
    have hbind : ∀ a, (sys.exec a s).bind (sys.advance answer i n) = some s' → sys.Reachable s s' := by
      intro a hbind
      obtain ⟨s₁, hstep, hrest⟩ := Option.bind_eq_some_iff.mp hbind
      exact Reachable.trans (.step .refl ⟨a, hstep⟩) (ih hrest)
    simp only [advance] at h
    split at h
    · obtain rfl : s = s' := Option.some.inj h
      exact .refl
    · exact .step .refl ⟨_, h⟩
    · exact hbind _ h
    · exact hbind _ h

/-- One move of a scripted run: an action, or a session that advances. -/
inductive Move (Y : X → Type) (E L : Type)
  | act (a : Action Y E L)
  | advance (answer : ℕ → (x : X) → Except E (Y x)) (i n : ℕ)

/-- Carry out a move, which may stand for many steps of one session. -/
def move (m : Move Y E L) (s : State V Y E M R L) : Option (State V Y E M R L) :=
  match m with
  | .act a => sys.exec a s
  | .advance answer i n => sys.advance answer i n s

/-- Carry out a script from left to right, if each of its moves is possible. -/
def play : List (Move Y E L) → State V Y E M R L → Option (State V Y E M R L)
  | [], s => some s
  | m :: ms, s => (sys.move m s).bind (play ms)

/-- Every script that can be carried out is a run. -/
theorem reachable_of_play {sys : System V Y E M R L} {ms : List (Move Y E L)}
    {s s' : State V Y E M R L} (h : sys.play ms s = some s') : sys.Reachable s s' := by
  induction ms generalizing s with
  | nil =>
    obtain rfl : s = s' := Option.some.inj h
    exact .refl
  | cons m ms ih =>
    obtain ⟨s₁, hmove, hrest⟩ := Option.bind_eq_some_iff.mp h
    refine Reachable.trans ?_ (ih hrest)
    cases m with
    | act a => exact .step .refl ⟨a, hmove⟩
    | advance answer i n => exact reachable_of_advance hmove

/-- The state a script leads to; the first state if it gets stuck. -/
def after (ms : List (Move Y E L)) (s : State V Y E M R L) : State V Y E M R L :=
  (sys.play ms s).getD s

/-- So does every script: this is what makes the samples runs. -/
theorem reachable_after {sys : System V Y E M R L} (ms : List (Move Y E L))
    (s : State V Y E M R L) : sys.Reachable s (sys.after ms s) := by
  unfold after
  cases h : sys.play ms s with
  | none => exact .refl
  | some s' => exact reachable_of_play h

end System

end ReadCommitted
