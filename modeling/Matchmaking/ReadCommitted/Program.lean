import Matchmaking.ReadCommitted.Store
import Mathlib.Data.List.Basic

/-!
# Database programs under READ COMMITTED

A client is a `Prog`: a tree of database operations and outside calls with one continuation for
every reply, an exception included. `Op.exec` carries out one operation of one session:

* a `select` sees the newest committed rows and the transaction's own writes;
* a `row` operation works on the newest version of one row, under that row's lock. The keys of a
  transaction's pending writes are the locks it holds. A locked row blocks the operation, or is
  passed over with `skipLocked`. An SQL statement that touches rows found by a `WHERE` is a
  `select` for its snapshot followed by one `row` per key, whose function tests the `WHERE` again;
* any operation may fail; a failed statement leaves the transaction `aborted`, able only to roll
  back; a commit may also succeed without its acknowledgement arriving.

Every commit, outside call and answer is recorded in the log of the `World`.
-/

namespace ReadCommitted

variable {K X : Type}

/-- What a row operation does with the newest version of its row. -/
inductive RowAction (α E : Type)
  | leave
  | put (v : α)
  | delete
  | raise (e : E)

/-- One operation of a client, indexed by the type of its reply. Implicit parameters: rows `V`,
replies `Y` of outside calls, exceptions `E`, recorded marks `M`. -/
inductive Op (V : K → Type) (Y : X → Type) (E M : Type) : Type → Type 1
  /-- Whether a transaction is open on the connection. -/
  | inTransaction : Op V Y E M Bool
  /-- Open a transaction unless one is open. -/
  | start : Op V Y E M Unit
  /-- Read: the function gets the transaction's time stamp and what it sees. -/
  | select {β : Type} (f : Time → Store V → β) : Op V Y E M β
  /-- Lock and change one row; the reply is the version written, if any. -/
  | row (k : K) (skipLocked : Bool) (f : Time → Option (V k) → RowAction (V k) E) :
      Op V Y E M (Option (V k))
  | savepoint : Op V Y E M Unit
  | releaseSavepoint : Op V Y E M Unit
  | rollbackToSavepoint : Op V Y E M Unit
  | commit : Op V Y E M Unit
  | rollback : Op V Y E M Unit
  /-- Ask the outside world. -/
  | call (x : X) : Op V Y E M (Y x)
  /-- Leave a mark in the log; cannot fail. -/
  | emit (m : M) : Op V Y E M Unit

/-- A client program: a result, or an operation with one continuation for each reply. The continuation also
gets the exceptions, so a program decides for itself which of them it catches. -/
inductive Prog (V : K → Type) (Y : X → Type) (E M : Type) (α : Type) : Type 1
  | ret (a : α) : Prog V Y E M α
  | op {β : Type} (o : Op V Y E M β) (next : Except E β → Prog V Y E M α) : Prog V Y E M α

namespace Prog

variable {V : K → Type} {Y : X → Type} {E M α β γ : Type}

/-- Run `p`, then `f` on its result. The operations of `p` come first, and nothing happens between the two
parts that could not happen between any two operations. -/
def bind : Prog V Y E M α → (α → Prog V Y E M β) → Prog V Y E M β
  | .ret a, f => f a
  | .op o next, f => .op o fun r => (next r).bind f

instance : Monad (Prog V Y E M) where
  pure := .ret
  bind := Prog.bind

theorem bind_ret (p : Prog V Y E M α) : p.bind .ret = p := by
  induction p with
  | ret a => rfl
  | op o next ih => exact congrArg (Prog.op o) (funext ih)

theorem bind_assoc (p : Prog V Y E M α) (f : α → Prog V Y E M β) (g : β → Prog V Y E M γ) :
    (p.bind f).bind g = p.bind fun a => (f a).bind g := by
  induction p with
  | ret a => rfl
  | op o next ih => exact congrArg (Prog.op o) (funext ih)

/-- The laws of a monad, which `do` blocks rely on. -/
instance : LawfulMonad (Prog V Y E M) :=
  LawfulMonad.mk' _ bind_ret (fun _ _ => rfl) fun p f g => bind_assoc p f g

end Prog

/-- Client programs with exceptions of type `E`: an operation that raises ends the program unless a handler
takes the exception up. -/
abbrev Client (V : K → Type) (Y : X → Type) (E M : Type) := ExceptT E (Prog V Y E M)

/-- A client that performs one operation and returns its reply, or raises the exception that it has got in its
place. -/
def perform {V : K → Type} {Y : X → Type} {E M β : Type} (o : Op V Y E M β) : Client V Y E M β :=
  ExceptT.mk (.op o .ret)

/-! ## The shared world -/

/-- The private state of an open transaction. Nothing of it is visible to other sessions but the locks, which
are the keys of its pending writes. -/
structure Txn (V : K → Type) where
  /-- Its time stamp: the clock when it was opened. -/
  start : Time
  writes : Writes V := []
  /-- Pending writes at the open savepoints, innermost first. -/
  saved : List (Writes V) := []
  /-- The snapshots its reads have seen, newest first. -/
  reads : List (Store V) := []
  aborted : Bool := false

/-- What the log records of a run. The log is no part of the database: it is there for statements about what
has been committed, asked and answered, and in which order. -/
inductive Event (V : K → Type) (Y : X → Type) (E M R : Type)
  | begun
  | commit (t : Txn V) (before : Store V)
  | call (x : X) (y : Except E (Y x))
  | emit (m : M)
  /-- The program ended; `born` is the committed store when it started. -/
  | answer (born : Store V) (r : Except E R)

/-- A log entry: which session, acting as what, at what time, did what. -/
structure Entry (V : K → Type) (Y : X → Type) (E M R L : Type) where
  session : ℕ
  actor : L
  time : Time
  event : Event V Y E M R

/-- What all sessions share: the committed rows, the clock of the server, and the log of what has happened so
far. -/
structure World (V : K → Type) (Y : X → Type) (E M R L : Type) where
  committed : Store V
  clock : Time
  /-- The history of the run, newest entry first. -/
  log : List (Entry V Y E M R L)

/-- How the surroundings decide one operation. All choices are possible at every operation that they make
sense for, so that a property of all runs covers every failure. -/
inductive Choice (Y : X → Type) (E : Type)
  /-- The server carries the operation out. -/
  | proceed
  /-- The operation raises. -/
  | fail (e : E)
  /-- The commit takes place, but the client sees an exception. -/
  | ackLost (e : E)
  /-- The reply of an outside call. -/
  | answer (y : (x : X) → Except E (Y x))

variable [DecidableEq K] {V : K → Type} {Y : X → Type} {E M R L : Type}

namespace Txn

/-- What the transaction sees: the committed rows of the moment, under its own pending writes. -/
def view (t : Txn V) (s : Store V) : Store V := patch t.writes s

/-- The rows the transaction holds locked: those it has pending versions of, and those pending at
a savepoint it can return to. -/
def holds (t : Txn V) (k : K) : Bool :=
  (t.writes.dlookup k).isSome || t.saved.any fun ws => (ws.dlookup k).isSome

/-- The transaction with one more pending write. It is put in front, so that it hides earlier writes to the
same row. -/
def write (t : Txn V) (k : K) (o : Option (V k)) : Txn V := { t with writes := ⟨k, o⟩ :: t.writes }

/-- The transaction after an error of the server, which refuses everything from then on but a return to a
savepoint or the end. -/
def abort (t : Txn V) : Txn V := { t with aborted := true }

/-- The transaction after a query, with the view that the query was answered from among its snapshots. -/
def read (t : Txn V) (s : Store V) : Txn V := { t with reads := t.view s :: t.reads }

end Txn

namespace World

/-- Add a log entry of session `i`, at the present time; the committed rows stay as they are. -/
def push (w : World V Y E M R L) (i : ℕ) (l : L) (ev : Event V Y E M R) : World V Y E M R L :=
  { w with log := ⟨i, l, w.clock, ev⟩ :: w.log }

/-- Install a transaction's writes; an aborted transaction is rolled back instead. -/
def commit (w : World V Y E M R L) (i : ℕ) (l : L) (t : Txn V) : World V Y E M R L :=
  if t.aborted then w
  else { w.push i l (.commit t w.committed) with committed := patch t.writes w.committed }

/-- The transaction of a connection, opened now if none is open. -/
def txn (w : World V Y E M R L) (T : Option (Txn V)) : Txn V := T.getD { start := w.clock }

end World

/-- The result of one operation: its reply, the world and the session's transaction after it. -/
abbrev Effect (V : K → Type) (Y : X → Type) (E M R L β : Type) :=
  Except E β × World V Y E M R L × Option (Txn V)

/-- A statement that changes only the session's own transaction. It is carried out, or fails and leaves the
transaction aborted; other choices of the surroundings make no sense for it. -/
def statement {β : Type} (c : Choice Y E) (w : World V Y E M R L) (t : Txn V)
    (body : Option (Except E β × Txn V)) : Option (Effect V Y E M R L β) :=
  match c with
  | .proceed => body.map fun (r, t') => (r, w, some t')
  | .fail e => some (.error e, w, some t.abort)
  | _ => none

/-- Access one row under its lock. A row that another session has locked makes the operation wait, which means
that it cannot take place now, or is passed over with `skipLocked`. -/
def Txn.access (t : Txn V) (s : Store V) (locked : K → Bool) (k : K) (skipLocked : Bool)
    (f : Time → Option (V k) → RowAction (V k) E) : Option (Except E (Option (V k)) × Txn V) :=
  if locked k then if skipLocked then some (.ok none, t) else none
  else match f t.start ((t.view s).lookup k) with
    | .leave => some (.ok none, t)
    | .put v => some (.ok (some v), t.write k (some v))
    | .delete => some (.ok none, t.write k none)
    | .raise e => some (.error e, t.abort)

/-- Carry out one operation of session `i`; `locked` are the rows other sessions hold. `none` means
that the operation cannot take place this way now. -/
def Op.exec (i : ℕ) (l : L) (locked : K → Bool) (c : Choice Y E) {β : Type} (o : Op V Y E M β)
    (w : World V Y E M R L) (T : Option (Txn V)) : Option (Effect V Y E M R L β) :=
  let t := w.txn T
  match o with
  | .inTransaction => some (.ok T.isSome, w, T)
  | .start => statement c w t (some (.ok (), t))
  | .select f =>
      statement c w t (if t.aborted then none else some (.ok (f t.start (t.view w.committed)),
        t.read w.committed))
  | .row k skipLocked f =>
      statement c w t (if t.aborted then none else t.access w.committed locked k skipLocked f)
  | .savepoint =>
      statement c w t (if t.aborted then none else some (.ok (), { t with saved := t.writes :: t.saved }))
  | .releaseSavepoint =>
      statement c w t (if t.aborted then none else some (.ok (), { t with saved := t.saved.tail }))
  | .rollbackToSavepoint =>
      statement c w t (match t.saved with
        | ws :: rest => some (.ok (), { t with writes := ws, saved := rest, aborted := false })
        | [] => none)
  | .commit => match c with
      | .proceed => some (.ok (), T.elim w (w.commit i l), none)
      | .fail e => some (.error e, w, none)
      | .ackLost e => some (.error e, T.elim w (w.commit i l), none)
      | .answer _ => none
  | .rollback => match c with
      | .proceed => some (.ok (), w, none)
      | .fail e => some (.error e, w, none)
      | _ => none
  | .call x => match c with
      | .answer y => some (y x, w.push i l (.call x (y x)), T)
      | _ => none
  | .emit m => some (.ok (), w.push i l (.emit m), T)

end ReadCommitted
