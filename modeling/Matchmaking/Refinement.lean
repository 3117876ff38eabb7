import Matchmaking.Worker.Commits
import Matchmaking.Dispatcher.Commits
import Matchmaking.Api.Commits
import Matchmaking.ReadCommitted.Confirmed

/-!
# Every run of the service is a run of the abstract service

Whatever the actors, their interleaving and the failures: each commit in the log of a reachable state
is `Legal`, and the committed store is the replay of these commits.
-/

namespace Matchmaking

open ReadCommitted ReadCommitted.Triple

variable {rt : Runtime} {i : ℕ} {born : Tables}

/-- The operations of a session with their replies. -/
abbrev ServiceTrace := Trace Row Reply Exn Metric

/-- `try: x` ends without an exception, as `x` ends. -/
theorem of_attempt {S : Spec Row Reply Exn Metric Answer Actor} {l : Actor} {α : Type} {x : Db α}
    {r : Except Exn (Except Exn α)} {w w₁ : ServiceWorld} {T T₁ : Option (Txn Row)} {τ : ServiceTrace}
    (h : (attempt x).Executes S i l w T τ r w₁ T₁) : ∃ r', r = .ok r' ∧ x.Executes S i l w T τ r' w₁ T₁ := by
  obtain ⟨r', rfl, hbody⟩ | ⟨e, w', T', τ₁, τ₂, rfl, hbody, hpure⟩ := h.of_tryCatch
  · obtain ⟨e, heq, -⟩ | ⟨a, w', T', τ₁, τ₂, rfl, hx, hpure⟩ := hbody.of_bind
    · cases heq
    · cases hpure
      exact ⟨.ok a, rfl, (List.append_nil τ₁).symm ▸ hx⟩
  · cases hpure
    obtain ⟨e', heq, hx⟩ | ⟨a, w', T', τ₁, τ₂, rfl, -, hpure⟩ := hbody.of_bind
    · cases heq
      exact ⟨.error e, rfl, (List.append_nil τ₁).symm ▸ hx⟩
    · cases hpure

/-- The same of its exchanges. -/
theorem runs_of_attempt {α : Type} {x : Db α} {r : Except Exn (Except Exn α)} {τ : ServiceTrace}
    (h : (attempt x).Runs τ r) : ∃ r', r = .ok r' ∧ x.Runs τ r' := by
  obtain ⟨r', rfl, hbody⟩ | ⟨e, τ₁, τ₂, rfl, hbody, hpure⟩ := h.of_tryCatch
  · obtain ⟨e, heq, -⟩ | ⟨a, τ₁, τ₂, rfl, hx, hpure⟩ := hbody.of_bind
    · cases heq
    · cases hpure
      exact ⟨.ok a, rfl, (List.append_nil τ₁).symm ▸ hx⟩
  · cases hpure
    obtain ⟨e', heq, hx⟩ | ⟨a, τ₁, τ₂, rfl, -, hpure⟩ := hbody.of_bind
    · cases heq
      exact ⟨.error e, rfl, (List.append_nil τ₁).symm ▸ hx⟩
    · cases hpure

/-- An attempt goes on with whatever its body ends with. -/
theorem attempt_run {α β : Type} (x : Db α)
    (next : Except Exn (Except Exn α) → Prog Row Reply Exn Metric β) :
    Prog.bind (attempt x).run next = Prog.bind x.run fun r => next (.ok r) := by
  refine (Prog.bind_assoc _ _ next).trans ((Prog.bind_assoc x.run _ _).trans ?_)
  refine congrArg (Prog.bind x.run) (funext fun r => ?_)
  cases r with
  | ok a => rfl
  | error e => rfl

/-- Going on after an attempt returns what its first way returns, if the other way only raises. -/
theorem finish_returns {α β : Type} {P : α → Prop} {Q : β → Prop} {x : Db α} {f : α → Db β} {g : Exn → Db β}
    (hx : x.Returns P) (hf : ∀ a, P a → (f a).Returns Q) (hg : ∀ e, (g e).Returns Q) :
    Client.Returns Q (attempt x >>= fun r => match r with
      | .ok a => f a
      | .error e => g e) := by
  intro τ b h
  obtain ⟨e, heq, -⟩ | ⟨r, τ₁, τ₂, -, h₁, h₂⟩ := Client.Runs.of_bind h
  · cases heq
  obtain ⟨r', heq, hbody⟩ := runs_of_attempt h₁
  cases heq
  cases r with
  | ok a => exact hf a (hx _ _ hbody) _ _ h₂
  | error e => exact hg e _ _ h₂

theorem Answered.error {l : Actor} {e : Exn} {s : Tables} : Answered rt l born (.error e) s := by
  cases l with
  | createTicket settings xTenantId key body =>
    cases xTenantId with
    | none => trivial
    | some tenantId => cases key <;> trivial
  | _ => trivial

/-- Programs that only make their actor's changes of single rows. -/
theorem rows_answered {l : Actor} (hx : UsesRows l.rows (program rt l))
    (hl : ∀ a s, Answered rt l born (.ok a) s) :
    Triple (commitSpec rt) i l (fun w T => Idle w T ∧ Persist born w.committed) (program rt l)
      (fun a w _ => Answered rt l born (.ok a) w.committed)
      (fun e w _ => Answered rt l born (.error e) w.committed) :=
  (triple_rows hx).conseq (fun _ _ h => Follows.idle h.1) (fun a w _ _ => hl a w.committed)
    fun _ _ _ _ => .error

/-- Every actor commits legally and answers truly. -/
theorem program_triple (hborn : KeysKnown born) (l : Actor) :
    Triple (commitSpec rt) i l (fun w T => Idle w T ∧ Persist born w.committed) (program rt l)
      (fun a w _ => Answered rt l born (.ok a) w.committed)
      (fun e w _ => Answered rt l born (.error e) w.committed) := by
  cases l with
  | initMain settings =>
    exact rows_answered (.bind (UsesRows.initMain settings) fun _ => .pure _) fun _ _ => trivial
  | migrate settings =>
    exact rows_answered (.bind (UsesRows.migrate settings) fun _ => .pure _) fun _ _ => trivial
  | runLoop settings workerId offset =>
    have hloop : Triple (commitSpec rt) i (.runLoop settings workerId offset)
        (fun w T => Idle w T ∧ Persist born w.committed)
        (program rt (.runLoop settings workerId offset)) anything anything :=
      .bind (runLoop_triple.pre fun _ _ h => h.1) fun _ => .pure _ fun _ _ _ => trivial
    exact hloop.conseq (fun _ _ h => h) (fun _ _ _ _ => trivial) fun _ _ _ _ => .error
  | shutdownWorker workerId =>
    exact rows_answered (.bind UsesRows.shutdownWorker fun _ => .pure _) fun _ _ => trivial
  | runOnce settings dispatcherId =>
    have hround : Triple (commitSpec rt) i (.runOnce settings dispatcherId)
        (fun w T => Idle w T ∧ Persist born w.committed)
        (program rt (.runOnce settings dispatcherId)) anything anything :=
      .bind (runOnce_triple.pre fun _ _ h => h.1) fun _ => .pure _ fun _ _ _ => trivial
    exact hround.conseq (fun _ _ h => h) (fun _ _ _ _ => trivial) fun _ _ _ _ => .error
  | createTicket settings xTenantId key body =>
    exact (createTicket_answered hborn).conseq (fun _ _ h => h) (fun _ _ _ h => h)
      fun _ _ _ _ => .error
  | listTickets xTenantId =>
    exact rows_answered (.bind (UsesRows.withTenant fun _ _ _ => UsesRows.listTickets _) fun _ => .pure _)
      fun _ _ => trivial
  | getTicket xTenantId ticketId =>
    exact rows_answered (.bind (UsesRows.withTenant fun _ _ _ => UsesRows.getTicket ..) fun _ => .pure _)
      fun _ _ => trivial
  | cancelTicket xTenantId ticketId =>
    refine rows_answered (.bind (UsesRows.withTenant fun tenantId _ hx => ?_) fun _ => .pure _)
      fun _ _ => trivial
    subst hx
    exact UsesRows.cancelTicket ..
  | getMatch xTenantId matchId =>
    exact rows_answered (.bind (UsesRows.withTenant fun _ _ _ => UsesRows.getMatch ..) fun _ => .pure _)
      fun _ _ => trivial

/-! ## Runs -/

/-- Systems in which the actors run the service's programs, with any condition on which of them exclude each
other. -/
abbrev actors (rt : Runtime) (exclusive : Actor → Actor → Bool) :
    System Row Reply Exn Metric Answer Actor where
  program := program rt
  exclusive := exclusive

/-- Reachable states are good for the specification. -/
theorem commitSpec_good {exclusive : Actor → Actor → Bool}
    (hsymm : ∀ l l', exclusive l l' = exclusive l' l) {clock : Time} {s : ServiceState}
    (hs : (actors rt exclusive).Reachable (emptyState clock) s) :
    (commitSpec rt).Good (actors rt exclusive) s := by
  refine Spec.sound (commitSpec_lawful hsymm) (fun i l w hfacts _ => ?_)
    ⟨fun _ he => (List.not_mem_nil he).elim, fun _ he => (List.not_mem_nil he).elim⟩ rfl rfl
    (fun _ h => history hsymm h) hs
  have hprog := (@program_triple rt i w.committed (keysKnown_of_facts hfacts) l).sound w none
    ⟨rfl, .refl _⟩
  refine wp_mono ?_ _ w none hprog
  rintro (e | a) w' T' h <;> exact h

/-- **Refinement.** In every reachable state, all commits so far were legal and all answers agree
with the committed keys. -/
theorem story {exclusive : Actor → Actor → Bool}
    (hsymm : ∀ l l', exclusive l l' = exclusive l' l) {clock : Time} {s : ServiceState}
    (hs : (actors rt exclusive).Reachable (emptyState clock) s) : Story rt s.world :=
  (commitSpec_good hsymm hs).inv

/-- What is known of the world of a reachable state. -/
structure Past (rt : Runtime) (w : ServiceWorld) : Prop where
  story : Story rt w
  history : History ∅ w

theorem past_of_reachable {exclusive : Actor → Actor → Bool}
    (hsymm : ∀ l l', exclusive l l' = exclusive l' l) {clock : Time} {s : ServiceState}
    (hs : (actors rt exclusive).Reachable (emptyState clock) s) : Past rt s.world :=
  ⟨story hsymm hs, ReadCommitted.history hsymm hs⟩

theorem service_past {clock : Time} {s : ServiceState}
    (hs : (service rt).Reachable (emptyState clock) s) : Past rt s.world :=
  past_of_reachable (fun _ _ => rfl) hs

namespace Past

variable {w : ServiceWorld} (h : Past rt w)

include h

theorem legal {e : LogEntry} (he : e ∈ w.log) {t : Txn Row} {b : Tables}
    (hc : e.event.commit? = some (t, b)) : Legal rt e.actor t b :=
  h.story.legal e he t b hc

/-- Durable rows that a commit leaves are still there. -/
theorem later {e : LogEntry} (he : e ∈ w.log) {t : Txn Row} {b : Tables}
    (hc : e.event.commit? = some (t, b)) : Persist (patch t.writes b) w.committed := by
  obtain ⟨newer, older, hlog⟩ := List.append_of_mem he
  have hchain := h.history.chained
  rw [hlog] at hchain
  exact (hchain.cut hc).2.invariant (.refl _) fun e' he' _ _ hc' hs =>
    hs.trans (h.legal (hlog ▸ List.mem_append_left _ he') hc').persist

variable {I : Tables → Prop} (h₀ : I ∅)
  (hstep : ∀ l t b, Legal rt l t b → I b → I (patch t.writes b))

include h₀ hstep

/-- What legal commits keep holds of the committed store. -/
theorem invariant : I w.committed :=
  h.history.chained.invariant h₀ fun _ he t b hc => hstep _ t b (h.legal he hc)

/-- What legal commits keep holds of every store that was committed on. -/
theorem before {e : LogEntry} (he : e ∈ w.log) {t : Txn Row} {b : Tables}
    (hc : e.event.commit? = some (t, b)) : I b :=
  h.history.chained.before h₀ (fun _ he t b hc => hstep _ t b (h.legal he hc)) he hc

end Past

/-- The rows that a request finds committed when it comes in are there when it is answered. -/
theorem born_persists {clock : Time} {s : ServiceState}
    (hs : (service rt).Reachable (emptyState clock) s) {e : LogEntry} (he : e ∈ s.world.log)
    {born : Tables} {r : Except Exn Answer} (hr : e.event = .answer born r) :
    Persist born s.world.committed :=
  ((hs.born fun _ hs => (service_past hs).history.chained).2 e he born r hr).invariant
    (service_past hs).history.chained (.refl born) fun _ he _ _ hc hs' =>
      hs'.trans ((service_past hs).legal he hc).persist

/-! ## A run of the service -/

/-- Library functions for sample runs. The hashes are constant, and no text is read as a UUID. -/
def sampleRuntime : Runtime where
  sha256 _ := 0
  hmacSha256 _ _ := 0
  uuidIn _ := none

/-- Replies of quiet surroundings: callbacks succeed, and every UUID is new. -/
def sampleReply (k : ℕ) : (c : Call) → Except Exn (Reply c)
  | .getConnection => .ok ()
  | .genRandomUuid => .ok (BitVec.ofNat 128 k)
  | .wallClock => .ok (0 : ℤ)
  | .perfCounter => .ok (0 : ℤ)
  | .tieBreak => .ok BitVec.toNat
  | .redisIncr _ => .ok (1 : ℕ)
  | .randint low _ => .ok ⟨low, fun h => ⟨Nat.le_refl low, h⟩⟩
  | .post .. => .ok (.response 200)

/-- The same replies, where nothing fails, as a function for runs of a program alone. -/
def quietAnswer (k : ℕ) : (c : Call) → Reply c
  | .getConnection => ()
  | .genRandomUuid => BitVec.ofNat 128 k
  | .wallClock => (0 : ℤ)
  | .perfCounter => (0 : ℤ)
  | .tieBreak => BitVec.toNat
  | .redisIncr _ => (1 : ℕ)
  | .randint low _ => ⟨low, fun h => ⟨Nat.le_refl low, h⟩⟩
  | .post .. => .response 200

/-- A reply of surroundings in which callbacks time out and all else succeeds. -/
def timeoutReply (k : ℕ) : (c : Call) → Except Exn (Reply c)
  | .post .. => .ok (.httpError "timed out")
  | c => sampleReply k c

/-- Let an actor run from its start to its end, as session `i`. -/
def runs (i : ℕ) (l : Actor) : List (System.Move Reply Exn Actor) :=
  [.act (.start l), .advance sampleReply i 100]

def sampleSettings : Settings := { matchmakingPartitions := 1 }

/-- A ticket request of a player of studio_a, with or without an idempotency key. -/
def sampleRequest (key : Option String) (playerId : String) : Actor :=
  .createTicket sampleSettings (some "studio_a") key ⟨playerId, "eu", "ranked", 0⟩

/-- Set-up, two tickets, their match, and its callback: one iteration each of a worker and a dispatcher. -/
def sampleScript : List (System.Move Reply Exn Actor) :=
  runs 0 (.migrate sampleSettings) ++ runs 1 (sampleRequest none "p1") ++
    runs 2 (sampleRequest (some "k") "p2") ++ runs 3 (.runLoop sampleSettings "w" 0) ++
    runs 4 (.runOnce sampleSettings "d")

def sampleState : ServiceState := (service sampleRuntime).after sampleScript (emptyState 0)

theorem sampleState_reachable : (service sampleRuntime).Reachable (emptyState 0) sampleState :=
  System.reachable_after sampleScript _

end Matchmaking
