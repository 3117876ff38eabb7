import Matchmaking.Composition
import Matchmaking.Refinement
import Matchmaking.ReadCommitted.LockOrder

/-!
# Locks of matches and events

Whoever locks a match and an event in one transaction locks the match first: the worker that makes
both, and the dispatcher that records an outcome. A claim locks many events, but it passes over locked
ones and so never waits.
-/

namespace Matchmaking

open ReadCommitted

variable {α : Type} {n m m' : ℕ}

/-- Matches before events; rows of other tables are outside of the order. -/
def lockRank : Key → ℕ
  | .matches _ => 1
  | .callbackEvents _ => 2
  | _ => 0

/-- Rows of `matches` and `callback_events`. -/
def IsCallbackKey : Key → Prop
  | .matches _ | .callbackEvents _ => True
  | _ => False

theorem lockRank_pos {k : Key} (hk : IsCallbackKey k) : 0 < lockRank k := by
  cases k <;> first | exact hk.elim | exact Nat.zero_lt_succ _

/-- From level `n`, the program locks matches and events in order and ends at level `m`, or at the
highest level with an exception. -/
abbrev LocksTo (n : ℕ) (x : Db α) (m : ℕ) : Prop := Ordered lockRank n x m 2

/-- What touches neither matches nor events leaves the level as it is. -/
theorem levels (n : ℕ) : Composite (fun k => lockRank k = 0) True (fun _ => True)
    fun {α : Type} (x : Db α) =>
    Ordered lockRank n x n n := Ordered.composes

theorem ticketLevels (n : ℕ) : Composite.Tickets fun {α : Type} (x : Db α) => Ordered lockRank n x n n :=
  Composite.tickets (levels n) (fun _ => rfl) fun _ _ _ _ => rfl

/-- The same below the highest level. -/
theorem locksTo {x : Db α} (h : Ordered lockRank n x n n) (hn : n ≤ 2) : LocksTo n x n :=
  h.conseq (Nat.le_refl n) (Nat.le_refl n) hn

/-! ## Transactions -/

theorem LocksTo.attempt {x : Db α} (h : LocksTo n x 2) : Ordered lockRank n (attempt x) 2 m' :=
  .tryCatch (.bind h fun _ => .pure _ (Nat.le_refl 2)) fun _ => .pure _ (Nat.le_refl 2)

/-- A connection is given back without locks. -/
theorem LocksTo.withConnection {x : Db α} (h : LocksTo 0 x 2) :
    Ordered lockRank 0 (withConnection x) 0 0 := by
  have hrollback : Ordered lockRank 2 (perform .rollback : Db Unit) 0 0 := Ordered.rollback
  refine .bind ((levels 0).ask .getConnection) fun _ => .bind h.attempt ?_
  rintro (e | a)
  · exact .bind (.tryCatch hrollback fun _ => .pure _ (Nat.le_refl 0)) fun _ =>
      .throw e (Nat.le_refl 0)
  · exact .bind .commit fun _ => .pure a (Nat.le_refl 0)

theorem LocksTo.transaction {x : Db α} (h : LocksTo n x 2) (hn : n ≤ 2) :
    LocksTo n (transaction x) 2 := by
  refine .bind (locksTo ((levels n).perform trivial) hn) fun nested =>
    .bind (locksTo ((levels n).perform (by cases nested <;> trivial)) hn) fun _ => .bind h.attempt ?_
  rintro (e | a)
  · refine .bind (locksTo (Composite.attempt (levels 2) ((levels 2).perform ?_)) (Nat.le_refl 2))
      fun _ => .throw e (Nat.le_refl 2)
    cases nested <;> trivial
  · refine .bind (locksTo ((levels 2).perform ?_) (Nat.le_refl 2)) fun _ => .pure a (Nat.le_refl 2)
    cases nested <;> trivial

/-! ## The dispatcher -/

/-- A row that the level allows is locked. -/
theorem LocksTo.updateByKey {k : Key} {cond : Time → Row k → Bool} {set : Time → Row k → Row k}
    (hn : n < lockRank k) (hk : lockRank k ≤ 2) : LocksTo n (updateByKey k cond set) (lockRank k) := by
  have hn' := Nat.le_of_lt hn
  exact .bind (locksTo ((levels n).perform trivial) (Nat.le_trans hn' hk)) fun _ =>
    .ite (fun _ => .row hn (Nat.le_refl _) hk) fun _ => .pure _ hn'

theorem setMatchStatus_locks (matchId : UUID) (status : MatchStatus) :
    LocksTo 0 (setMatchStatus matchId status) 1 :=
  .bind (LocksTo.updateByKey Nat.zero_lt_one (Nat.le_succ 1)) fun _ => .pure _ (Nat.le_refl 1)

theorem updateEvent_locks (hn : n < 2) (eventId : UUID)
    (set : Time → CallbackEventRow → CallbackEventRow) : LocksTo n (updateEvent eventId set) 2 :=
  .bind (LocksTo.updateByKey hn (Nat.le_refl 2)) fun _ => .pure _ (Nat.le_refl 2)

/-- One try at an outcome: the match, if it is concerned, before the event. -/
theorem persistOnce_locks (event : CallbackEvent) (settings : Settings) (error : Option String) :
    Ordered lockRank 0 (persistOnce event settings error) 0 0 := by
  cases error with
  | none =>
    exact LocksTo.withConnection (.bind (LocksTo.transaction (.bind (setMatchStatus_locks _ _) fun _ =>
      updateEvent_locks Nat.one_lt_two _ _) (Nat.zero_le 2)) fun _ => .pure _ (Nat.le_refl 2))
  | some error =>
    have hbackoff : Ordered lockRank 0 (nextBackoffSeconds (event.attempts + 1) settings) 0 0 :=
      (levels 0).bind ((levels 0).ask _) fun _ => (levels 0).pure _
    refine LocksTo.withConnection (LocksTo.transaction (.ite (fun _ => ?_) fun _ => ?_) (Nat.zero_le 2))
    · exact .bind (setMatchStatus_locks _ _) fun _ => .bind (updateEvent_locks Nat.one_lt_two _ _)
        fun _ => .pure _ (Nat.le_refl 2)
    · exact .bind (locksTo hbackoff (Nat.zero_le 2)) fun _ =>
        .bind (updateEvent_locks Nat.zero_lt_two _ _) fun _ => .pure _ (Nat.le_refl 2)

theorem persistDeliveryOutcome_locks (event : CallbackEvent) (settings : Settings)
    (error : Option String) : Ordered lockRank 0 (persistDeliveryOutcome event settings error) 0 0 := by
  have htries : ∀ n, Ordered lockRank 0 (persistTries event settings error n) 0 0 := by
    intro n
    induction n with
    | zero => exact .pure _ (Nat.le_refl 0)
    | succ n ih =>
      refine .bind ((levels 0).attempt (persistOnce_locks event settings error)) ?_
      rintro (e | finalFailed)
      · exact .ite (fun _ => .pure _ (Nat.le_refl 0)) fun _ => ih
      · exact .pure _ (Nat.le_refl 0)
  refine .bind (htries _) ?_
  rintro (e | finalFailed)
  · exact .bind (LocksTo.withConnection (LocksTo.transaction (updateEvent_locks Nat.zero_lt_two _ _)
      (Nat.zero_le 2))) fun _ => .throw _ (Nat.le_refl 0)
  · exact .pure _ (Nat.le_refl 0)

theorem claimBatch_locks (settings : Settings) (dispatcherId : String) :
    Ordered lockRank 0 (claimBatch settings dispatcherId) 0 0 := by
  have hrows : ∀ secret ids, LocksTo 2 (claimRows settings dispatcherId secret ids) 2 := by
    intro secret ids
    induction ids with
    | nil => exact .pure _ (Nat.le_refl 2)
    | cons id ids ih =>
      exact .bind (.skip (Nat.le_refl 2) (Nat.le_refl 2) (Nat.le_refl 2)) fun _ =>
        .bind ih fun _ => .pure _ (Nat.le_refl 2)
  have hclaim : LocksTo 0 (claimCallbackEvents dispatcherId settings) 2 :=
    .bind (locksTo ((levels 0).ask _) (Nat.zero_le 2)) fun _ =>
      .bind (locksTo ((levels 0).select) (Nat.zero_le 2)) fun _ =>
        .bind ((hrows _ _).conseq (Nat.zero_le 2) (Nat.le_refl 2) (Nat.le_refl 2)) fun _ =>
          .bind (locksTo ((levels 2).ask _) (Nat.le_refl 2)) fun _ => .pure _ (Nat.le_refl 2)
  exact LocksTo.withConnection (.bind hclaim fun _ => .bind .commit fun _ => .pure _ (Nat.le_refl 2))

theorem runOnce_locks (rt : Runtime) (settings : Settings) (dispatcherId : String) :
    Ordered lockRank 0 (runOnce rt settings dispatcherId) 0 0 := by
  have hdeliver : ∀ events, Ordered lockRank 0 (deliverEvents rt settings events) 0 0 := by
    intro events
    induction events with
    | nil => exact .pure _ (Nat.le_refl 0)
    | cons event events ih =>
      refine .bind ((levels 0).deliverEvent rt event settings) fun _ => .bind ((levels 0).attempt
        (persistDeliveryOutcome_locks event settings _)) ?_
      rintro (e | finalFailed)
      · exact ih
      · exact .bind ((levels 0).record trivial) fun _ => ih
  exact .bind (claimBatch_locks settings dispatcherId) fun events =>
    .bind ((levels 0).record trivial) fun _ => .bind (hdeliver events) fun _ => .pure _ (Nat.le_refl 0)

/-! ## The worker -/

/-- The match is inserted before the event. -/
theorem insertMatch_locks (first second : WaitingTicket) (workerId : String) :
    LocksTo 0 (insertMatch first second workerId) 2 := by
  have hplayer : ∀ m ticket, LocksTo 1 (addPlayer m workerId ticket) 1 := fun m ticket =>
    locksTo ((levels 1).bind ((levels 1).insertRow rfl) fun _ =>
      (levels 1).bind ((levels 1).updateTicket (ticketLevels 1)) fun _ => (levels 1).pure _)
      (Nat.le_succ 1)
  refine .bind (locksTo ((levels 0).ask _) (Nat.zero_le 2)) fun matchId =>
    .bind (.row Nat.zero_lt_one (Nat.le_refl 1) (Nat.le_succ 1)) ?_
  rintro (_ | matchRow)
  · exact .throw _ (Nat.le_succ 1)
  · exact .bind (hplayer matchId first) fun _ => .bind (hplayer matchId second) fun _ =>
      .bind (locksTo ((levels 1).callbackUrl _) (Nat.le_succ 1)) fun _ =>
        .bind (locksTo ((levels 1).ask _) (Nat.le_succ 1)) fun eventId =>
          .bind (.row Nat.one_lt_two (Nat.le_refl 2) (Nat.le_refl 2)) fun _ => .pure _ (Nat.le_refl 2)

theorem createMatchFromPair_locks (first second : WaitingTicket) (workerId : String) (seconds : ℕ) :
    LocksTo 0 (createMatchFromPair first second workerId seconds) 2 := by
  have hreserve : ∀ id, LocksTo 0 (reserveTicket id workerId seconds) 0 := fun id =>
    locksTo ((levels 0).reserveTicket (ticketLevels 0) id workerId seconds) (Nat.zero_le 2)
  have hrelease : ∀ n, n ≤ 2 → ∀ id, LocksTo n (releaseTicket id workerId) n := fun n hn id =>
    locksTo ((levels n).releaseTicket (ticketLevels n) id workerId) hn
  refine .bind (hreserve _) fun _ => .ite (fun _ => .pure _ (Nat.zero_le 2)) fun _ =>
    .bind (hreserve _) fun _ => .ite (fun _ => .bind (hrelease 0 (Nat.zero_le 2) _) fun _ =>
      .pure _ (Nat.zero_le 2)) fun _ => .bind (LocksTo.attempt (LocksTo.transaction
        (insertMatch_locks first second workerId) (Nat.zero_le 2))) ?_
  rintro (e | _)
  · exact .ite (fun _ => .bind (hrelease 2 (Nat.le_refl 2) _) fun _ =>
      .bind (hrelease 2 (Nat.le_refl 2) _) fun _ => .throw _ (Nat.le_refl 2)) fun _ =>
        .throw _ (Nat.le_refl 2)
  · exact .pure _ (Nat.le_refl 2)

/-- Each pair ends with a commit or a rollback. -/
theorem processPairs_locks (settings : Settings) (workerId : String) (loopStart : Time)
    (pairs : List (WaitingTicket × WaitingTicket)) (created processed : ℕ) :
    LocksTo 0 (processPairs settings workerId loopStart pairs created processed) 0 := by
  induction pairs generalizing created processed with
  | nil => exact .pure _ (Nat.le_refl 0)
  | cons pair pairs ih =>
    refine .ite (fun _ => .pure _ (Nat.le_refl 0)) fun _ =>
      .bind (locksTo ((levels 0).ask _) (Nat.zero_le 2)) fun _ =>
        .ite (fun _ => .pure _ (Nat.le_refl 0)) fun _ =>
          .bind (createMatchFromPair_locks pair.1 pair.2 workerId _).attempt ?_
    have hrecord : ∀ x, LocksTo 2 (record x) 2 := fun _ => (levels 2).record trivial
    have hskip : LocksTo 2 (do
        record .recordMatchFailure
        record .recordRollback
        perform .rollback
        processPairs settings workerId loopStart pairs created (processed + 1)) 0 :=
      .bind (hrecord _) fun _ => .bind (hrecord _) fun _ => .bind .rollback fun _ => ih _ _
    rintro (e | made)
    · exact .ite (fun _ => hskip) fun _ => .throw _ (Nat.le_refl 2)
    · cases made with
      | true => exact .bind (hrecord _) fun _ => .bind .commit fun _ => ih _ _
      | false => exact hskip

theorem runLoop_locks (settings : Settings) (workerId : String) (offset : ℕ) :
    Ordered lockRank 0 (runLoop settings workerId offset) 0 0 := by
  have hplain : ∀ {α : Type} {x : Db α}, Ordered lockRank 0 x 0 0 → LocksTo 0 x 0 := fun h =>
    locksTo h (Nat.zero_le 2)
  have hrecord : ∀ x, LocksTo 0 (record x) 0 := fun _ => hplain ((levels 0).record trivial)
  have hmatch : ∀ loopStart, LocksTo 0 (matchTickets settings workerId loopStart) 0 := fun loopStart =>
    .bind (hplain ((levels 0).cleanupExpiredReservations (ticketLevels 0))) fun _ =>
      .bind (hrecord _) fun _ => .bind .commit fun _ =>
      .bind (hplain ((levels 0).listOwnedPartitions workerId)) fun _ => .bind (hrecord _) fun _ =>
      .bind (hplain ((levels 0).fetchWaitingTickets _ _ _ _)) fun _ =>
      .bind (hplain ((levels 0).findPairs _ settings)) fun _ =>
      .bind (processPairs_locks settings workerId loopStart _ 0 0) fun _ => hrecord _
  refine .bind ((levels 0).ask _) fun loopStart => LocksTo.withConnection (.bind
    (hplain ((levels 0).attempt ((levels 0).bind ((levels 0).leaseOperations (fun _ => rfl)
      (fun _ => rfl) settings workerId offset) fun _ => (levels 0).bind ((levels 0).commit trivial) fun _ =>
        (levels 0).pure _))) ?_)
  rintro (e | counts)
  · exact .ite (fun _ => .bind .rollback fun _ => .bind (hrecord _) fun _ =>
      .throw _ (Nat.zero_le 2)) fun _ => .throw _ (Nat.zero_le 2)
  · exact .bind (hrecord _) fun _ => .bind (hrecord _) fun _ => .bind (hrecord _) fun _ =>
      (hmatch loopStart).conseq (Nat.le_refl 0) (Nat.zero_le 2) (Nat.le_refl 2)

/-! ## All programs -/

theorem program_locks (rt : Runtime) (l : Actor) : Ordered lockRank 0 (program rt l) 0 0 := by
  have h := levels 0
  have htickets := ticketLevels 0
  cases l with
  | initMain settings =>
    exact h.bind (h.initMain (fun _ => rfl) (fun _ => rfl) trivial settings) fun _ => h.pure _
  | migrate settings =>
    exact h.bind (h.migrate (fun _ => rfl) (fun _ => rfl) trivial settings) fun _ => h.pure _
  | runLoop settings workerId offset =>
    exact h.bind (runLoop_locks settings workerId offset) fun _ => h.pure _
  | shutdownWorker workerId =>
    exact h.bind (h.shutdownWorker (fun _ => rfl) (fun _ => rfl) trivial workerId) fun _ => h.pure _
  | runOnce settings dispatcherId =>
    exact h.bind (runOnce_locks rt settings dispatcherId) fun _ => h.pure _
  | createTicket settings xTenantId key body =>
    exact h.respond (h.withTenant trivial fun id t =>
      h.createTicket htickets (fun _ _ => rfl) trivial (fun _ => trivial) rt settings key body id t)
  | listTickets xTenantId => exact h.respond (h.withTenant trivial fun id _ => h.listTickets trivial id)
  | getTicket xTenantId ticketId =>
    exact h.respond (h.withTenant trivial fun id _ => h.getTicket trivial rt ticketId id)
  | cancelTicket xTenantId ticketId =>
    exact h.respond (h.withTenant trivial fun id _ =>
      h.cancelTicket htickets trivial (fun _ => trivial) rt ticketId id)
  | getMatch xTenantId matchId => exact h.respond (h.withTenant trivial fun id _ => h.getMatch trivial rt matchId id)

/-- **No deadlock on matches and events.** In every reachable state of the service, whatever actors run, the
wait-for graph on the row locks of matches and events has no cycle: every transaction locks a match before
its event, and claims skip the rows that are locked. -/
theorem no_callback_deadlock {rt : Runtime} {clock : Time} {s : ServiceState}
    (hs : (service rt).Reachable (emptyState clock) s) (i : ℕ) :
    ¬ Relation.TransGen (s.WaitsFor IsCallbackKey) i i :=
  acyclic (fun l => ⟨0, 0, program_locks rt l⟩) (fun _ => lockRank_pos) hs i

/-- Two dispatchers hold an overdue event; the second has locked the match, the first is about to. -/
def contendedScript : List (System.Move Reply Exn Actor) :=
  runs 0 (.migrate sampleSettings) ++ runs 1 (sampleRequest none "p1") ++
    runs 2 (sampleRequest none "p2") ++ runs 3 (.runLoop sampleSettings "w" 0) ++
    [.act (.start (.runOnce sampleSettings "a")), .advance sampleReply 4 9, .act (.tick 10000000),
      .act (.start (.runOnce sampleSettings "b")), .advance sampleReply 5 15,
      .advance sampleReply 4 5]

def contendedState : ServiceState := (service sampleRuntime).after contendedScript (emptyState 0)

/-- Waiting without a circle. -/
theorem no_callback_deadlock_contended : contendedState.WaitsFor IsCallbackKey 4 5 ∧
    ¬ Relation.TransGen (contendedState.WaitsFor IsCallbackKey) 4 4 := by
  refine ⟨⟨by decide, .matches 61, trivial, by decide +kernel, ?_⟩,
    no_callback_deadlock (System.reachable_after contendedScript _) 4⟩
  exact (Option.any_eq_true ..).mp (by decide +kernel : ((contendedState.session 5).any
    fun y => holding y.txn (.matches 61)) = true)

end Matchmaking
