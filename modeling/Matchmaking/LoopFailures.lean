import Matchmaking.WorkerCounters
import Mathlib.Algebra.Order.BigOperators.Group.Finset

/-!
# Failures of an iteration

A statement that fails while a match is made costs the pair only. A COMMIT or a ROLLBACK that fails ends
the loop over the pairs, and with it the iteration, before its statistics are recorded. Hence the
counters of a worker are right if and only if no such failure follows a pair that has been counted.
-/

namespace Matchmaking

open ReadCommitted ReadCommitted.Triple

variable {rt : Runtime} {i : ℕ} {l : Actor} {settings : Settings} {workerId : String} {offset : ℕ}
  {α β : Type}

/-! ## Traces -/

/-- A failure that ends the loop over the pairs: of a COMMIT, of a ROLLBACK, of a look at the clock, or of
a statement with something else than an `Exception`. -/
def endsLoop : Exchange Row Reply Exn Metric → Bool
  | ⟨.commit, .error _⟩ => true
  | ⟨.rollback, .error _⟩ => true
  | ⟨.call .perfCounter, .error _⟩ => true
  | ⟨.rollbackToSavepoint, .error _⟩ => false
  | ⟨.emit _, _⟩ => false
  | ⟨_, .error e⟩ => !e.isException
  | ⟨_, .ok _⟩ => false

/-- A pair has been counted. -/
def CountsPair (τ : ServiceTrace) : Prop := .recordMatch ∈ emits τ ∨ .recordMatchFailure ∈ emits τ

/-- The statistics have been recorded. -/
def RecordsStats (τ : ServiceTrace) : Prop :=
  ∃ fetched found created skipped exceeded,
    .recordLoopStats fetched found created skipped exceeded ∈ emits τ

/-- A pair has been counted, and the statistics have not been recorded. -/
structure Unaccounted (τ : ServiceTrace) : Prop where
  counted : CountsPair τ
  unrecorded : ¬ RecordsStats τ

/-- The loop over the pairs is ended by a failure after a pair has been counted. -/
def Interrupted (τ : ServiceTrace) : Prop :=
  ∃ τ₁ x τ₂, τ = τ₁ ++ x :: τ₂ ∧ endsLoop x = true ∧ Unaccounted τ₁

/-- No failure ends the loop. -/
def Smooth (τ : ServiceTrace) : Prop := ∀ x ∈ τ, endsLoop x = false

/-- No pair is counted, and no statistics are recorded. -/
def Uncounted (τ : ServiceTrace) : Prop := ∀ m ∈ emits τ, isPairMetric m = false

/-- A failure ends the loop, and no pair is counted any more. -/
def Ended (τ : ServiceTrace) : Prop :=
  ∃ τ₁ x τ₂, τ = τ₁ ++ x :: τ₂ ∧ endsLoop x = true ∧ Uncounted τ₂

section Traces

variable {τ τ' : ServiceTrace}

/-- A loop is free of failures that end it when its parts are. -/
theorem Smooth.append (h : Smooth τ) (h' : Smooth τ') : Smooth (τ ++ τ') := fun x hx =>
  (List.mem_append.mp hx).elim (h x) (h' x)

/-- Two parts that count nothing make a whole that counts nothing. -/
theorem Uncounted.append (h : Uncounted τ) (h' : Uncounted τ') : Uncounted (τ ++ τ') := by
  intro m hm
  rw [emits_append] at hm
  exact (List.mem_append.mp hm).elim (h m) (h' m)

/-- What comes before the failure may count pairs; the description only bounds what comes after it. -/
theorem Ended.prepend (h : Ended τ') : Ended (τ ++ τ') := by
  obtain ⟨τ₁, x, τ₂, rfl, hx, hτ₂⟩ := h
  exact ⟨τ ++ τ₁, x, τ₂, (List.append_assoc ..).symm, hx, hτ₂⟩

/-- After the failure only parts that count nothing may follow. -/
theorem Ended.append (h : Ended τ) (h' : Uncounted τ') : Ended (τ ++ τ') := by
  obtain ⟨τ₁, x, τ₂, rfl, hx, hτ₂⟩ := h
  exact ⟨τ₁, x, τ₂ ++ τ', by rw [List.append_assoc, List.cons_append], hx, hτ₂.append h'⟩

/-- A pair is counted in a trace if one of its parts counts one. -/
theorem countsPair_append : CountsPair (τ ++ τ') ↔ CountsPair τ ∨ CountsPair τ' := by
  unfold CountsPair
  rw [emits_append, List.mem_append, List.mem_append, or_or_or_comm]

/-- The statistics are recorded in a trace if they are recorded in one of its parts. -/
theorem recordsStats_append : RecordsStats (τ ++ τ') ↔ RecordsStats τ ∨ RecordsStats τ' := by
  simp only [RecordsStats, emits_append, List.mem_append, exists_or]

/-- Both the match and the failure of a pair are metrics of pairs, so neither occurs. -/
theorem Uncounted.not_countsPair (h : Uncounted τ) : ¬ CountsPair τ := fun hcounts =>
  hcounts.elim (fun hm => by cases h _ hm) fun hm => by cases h _ hm

/-- The statistics of the loop are metrics of pairs as well. -/
theorem Uncounted.not_recordsStats (h : Uncounted τ) : ¬ RecordsStats τ :=
  fun ⟨_, _, _, _, _, hm⟩ => by cases h _ hm

/-- Failures count nothing. -/
theorem uncounted_of_endsLoop {x : Exchange Row Reply Exn Metric} (hx : endsLoop x = true) :
    Uncounted [x] := by
  obtain ⟨o, r⟩ := x
  cases o with
  | emit m => cases r <;> cases hx
  | _ => exact fun _ hm => absurd hm List.not_mem_nil

/-- The marks of an execution are among those that the program uses. -/
theorem emits_of_uses {A : Key → Prop} {ends : Prop} {p : Metric → Prop} {x : Db α} {r : Except Exn α}
    (hx : x.Uses (Op.Within A ends p)) (h : x.Runs τ r) : ∀ m ∈ emits τ, p m := by
  intro m hm
  obtain ⟨⟨o, r'⟩, hmem, hemit⟩ := List.mem_filterMap.mp hm
  have ho := h.uses hx _ hmem
  cases o with
  | emit m' =>
    cases hemit
    exact ho
  | _ => cases hemit

/-- The programs that use no metric of pairs are closed under all constructs of the model, so the lists of
operations in `Composition` apply to them. -/
theorem uncounted_composite : Composite (fun _ => True) True (fun m => isPairMetric m = false)
    fun {α : Type} (x : Db α) => x.Uses (Op.Within (fun _ => True) True fun m => isPairMetric m = false) where
  perform := .perform
  pure := .pure
  throw := .throw
  bind := .bind
  tryCatch := .tryCatch

/-- A program that uses no metric of pairs counts nothing, whatever the others do meanwhile. -/
theorem uncounted_of_uses {x : Db α} {r : Except Exn α}
    (hx : x.Uses (Op.Within (fun _ => True) True fun m => isPairMetric m = false)) (h : x.Runs τ r) :
    Uncounted τ :=
  emits_of_uses hx h

end Traces

/-! ## Exceptions -/

/-- How a part of an iteration ends: it has taken up every failure, or it passes one on that ends the
loop. -/
def Confined (caught : Exn → Bool) (τ : ServiceTrace) (r : Except Exn α) : Prop :=
  match r with
  | .ok _ => Smooth τ
  | .error e => if caught e then Smooth τ else Ended τ

/-- What comes first has taken up every failure. -/
theorem Confined.prepend {caught : Exn → Bool} {τ τ' : ServiceTrace} {r : Except Exn α} (h : Smooth τ)
    (h' : Confined caught τ' r) : Confined caught (τ ++ τ') r := by
  cases r with
  | ok a => exact h.append h'
  | error e =>
    change if caught e = true then Smooth _ else Ended _ at h'
    show if caught e = true then Smooth _ else Ended _
    split at h'
    · next he =>
      rw [if_pos he]
      exact h.append h'
    · next he =>
      rw [if_neg he]
      exact h'.prepend

/-- From `P`, the client ends as described, with exceptions that are `caught` or end the loop. -/
def Confines (rt : Runtime) (i : ℕ) (l : Actor) (caught : Exn → Bool) (P : Condition) (x : Db α) : Prop :=
  ∀ w T τ r w₁ T₁, P w T → x.Executes (ruleSpec rt loopRule) i l w T τ r w₁ T₁ → Confined caught τ r

namespace Confines

variable {caught : Exn → Bool} {P : Condition}

/-- A part that returns has taken up every failure: there was none. -/
theorem pure (a : α) : Confines rt i l caught P (pure a : Db α) := by
  intro w T τ r w₁ T₁ _ h
  obtain ⟨rfl, rfl⟩ := h.runs.of_pure
  exact fun _ hx => absurd hx List.not_mem_nil

/-- An exception of the part's own, and not of the database, is one of those that are taken up. -/
theorem throw {e : Exn} (he : caught e = true) : Confines rt i l caught P (throw e : Db α) := by
  intro w T τ r w₁ T₁ _ h
  obtain ⟨rfl, rfl⟩ := h.runs.of_throw
  show if caught e = true then Smooth [] else Ended []
  rw [if_pos he]
  exact fun _ hx => absurd hx List.not_mem_nil

/-- A single operation. -/
theorem perform {o : Op Row Reply Exn Metric α}
    (ho : ∀ e, o.CanReply (.error e) → endsLoop ⟨o, .error e⟩ = !caught e)
    (hok : ∀ a, endsLoop ⟨o, .ok a⟩ = false) : Confines rt i l caught P (perform o) := by
  intro w T τ r w₁ T₁ _ h
  obtain ⟨rfl, hcan⟩ := h.runs.of_perform
  have hsmooth : endsLoop ⟨o, r⟩ = false → Smooth [⟨o, r⟩] := fun hx y hy => by
    rw [List.mem_singleton.mp hy, hx]
  cases r with
  | ok a => exact hsmooth (hok a)
  | error e =>
    show if caught e = true then Smooth _ else Ended _
    have he := ho e hcan
    cases hc : caught e with
    | true => exact hsmooth (by rw [he, hc]; rfl)
    | false =>
      rw [hc] at he
      exact ⟨[], _, [], rfl, he, fun _ hm => absurd hm List.not_mem_nil⟩

theorem ite {c : Prop} [Decidable c] {x y : Db α} (hx : c → Confines rt i l caught P x)
    (hy : ¬ c → Confines rt i l caught P y) : Confines rt i l caught P (if c then x else y) := by
  split
  · exact hx ‹_›
  · exact hy ‹_›

/-- A condition on values is a hypothesis of the proof and does not concern the world. -/
theorem pure_pre {p : Prop} {x : Db α} (hx : p → Confines rt i l caught (fun _ _ => True) x) :
    Confines rt i l caught (fun _ _ => p) x :=
  fun _ _ _ _ _ _ hp h => hx hp _ _ _ _ _ _ trivial h

/-- What comes first establishes `Q`. -/
theorem bind_of {Q : α → Condition} {x : Db α} {f : α → Db β} (hx : Confines rt i l caught P x)
    (hq : ∀ w T τ a w₁ T₁, P w T → x.Executes (ruleSpec rt loopRule) i l w T τ (.ok a) w₁ T₁ → Q a w₁ T₁)
    (hf : ∀ a, Confines rt i l caught (Q a) (f a)) : Confines rt i l caught P (x >>= f) := by
  intro w T τ r w₁ T₁ hw h
  obtain ⟨e, rfl, hfirst⟩ | ⟨a, w', T', τ₁, τ₂, rfl, hfirst, hrest⟩ := h.of_bind
  · exact hx w T τ (.error e) w₁ T₁ hw hfirst
  · have hsmooth : Smooth τ₁ := hx _ _ _ _ _ _ hw hfirst
    exact Confined.prepend hsmooth (hf a _ _ _ _ _ _ (hq _ _ _ _ _ _ hw hfirst) hrest)

/-- A failure of the first part that is taken up ends the whole; one that is not ends the loop, and the second
part never counts. -/
theorem bind {x : Db α} {f : α → Db β} (hx : Confines rt i l caught P x)
    (hf : ∀ a, Confines rt i l caught (fun _ _ => True) (f a)) :
    Confines rt i l caught P (x >>= f) :=
  hx.bind_of (Q := fun _ _ _ => True) (fun _ _ _ _ _ _ _ _ => trivial) hf

/-- `try: x`, and what is done with its outcome: an exception that `x` has taken up may be handled, one
that ends the loop is raised again. -/
theorem attempt {handled : Exn → Bool} {x : Db α} {f : Except Exn α → Db β}
    (hx : Confines rt i l handled P x)
    (hok : ∀ a, Confines rt i l caught (fun _ _ => True) (f (.ok a)))
    (hhandled : ∀ e, handled e = true → Confines rt i l caught (fun _ _ => True) (f (.error e)))
    (hraised : ∀ e τ r, handled e = false → (f (.error e)).Runs τ r →
      Uncounted τ ∧ ∃ e', r = .error e' ∧ caught e' = false) :
    Confines rt i l caught P (Matchmaking.attempt x >>= f) := by
  intro w T τ r w₁ T₁ hw h
  obtain ⟨e, rfl, hfirst⟩ | ⟨a, w', T', τ₁, τ₂, rfl, hfirst, hrest⟩ := h.of_bind
  · obtain ⟨r', heq, -⟩ := of_attempt hfirst
    cases heq
  obtain ⟨a, heq, hbody⟩ := of_attempt hfirst
  cases heq
  have hconfined := hx _ _ _ _ _ _ hw hbody
  cases a with
  | ok a => exact .prepend hconfined (hok a _ _ _ _ _ _ trivial hrest)
  | error e =>
    change if handled e = true then Smooth _ else Ended _ at hconfined
    cases hh : handled e with
    | true =>
      rw [hh] at hconfined
      exact .prepend hconfined (hhandled e hh _ _ _ _ _ _ trivial hrest)
    | false =>
      rw [hh] at hconfined
      obtain ⟨hquiet, e', rfl, he'⟩ := hraised e _ _ hh hrest.runs
      show if caught e' = true then Smooth _ else Ended _
      rw [he']
      exact Ended.append hconfined hquiet

end Confines

/-! ## A match -/

section Match

variable {P : Condition}

/-- Statements raise what the server raises. -/
theorem select_confines {f : Time → Tables → α} :
    Confines rt i l Exn.isException P (perform (.select f)) :=
  .perform (fun _ _ => rfl) fun _ => rfl

/-- Updates of tickets are a query and then statements on one row, all of which raise only what the server
raises. -/
theorem updateTicket_confines {id : UUID} {cond : Time → Ticket → Bool}
    {set : Time → Ticket → Ticket} : Confines rt i l Exn.isException P (updateTicket id cond set) := by
  refine .bind select_confines fun _ => .ite (fun _ => .bind (.perform (fun _ _ => rfl) fun _ => rfl) ?_)
    fun _ => .pure _
  rintro (_ | t)
  · exact .pure _
  · exact .bind (.bind (.perform (fun _ _ => rfl) fun _ => rfl) fun _ => .pure _) fun _ => .pure _

theorem insertRow_confines {k : Key} {row : Time → Row k} :
    Confines rt i l Exn.isException P (insertRow k row) :=
  .perform (fun _ _ => rfl) fun _ => rfl

/-- An identifier is asked of the database, which may fail like every other statement. -/
theorem genRandomUuid_confines : Confines rt i l Exn.isException P (ask .genRandomUuid) :=
  .perform (fun _ _ => rfl) fun _ => rfl

theorem reserveTicket_confines (id : UUID) (seconds : ℕ) :
    Confines rt i l Exn.isException P (reserveTicket id workerId seconds) :=
  .bind updateTicket_confines fun _ => .pure _

theorem releaseTicket_confines (id : UUID) :
    Confines rt i l Exn.isException P (releaseTicket id workerId) :=
  .bind updateTicket_confines fun _ => .pure _

/-- The statements of a match, in the order of the source. Two exceptions are its own: a row that is not
returned, and a tenant without a callback URL. -/
theorem insertMatch_confines (first second : WaitingTicket) :
    Confines rt i l Exn.isException P (insertMatch first second workerId) := by
  refine .bind genRandomUuid_confines fun matchId => .bind insertRow_confines ?_
  rintro (_ | row)
  · exact .throw rfl
  have hadd : ∀ ticket, Confines rt i l Exn.isException (fun _ _ => True)
      (addPlayer matchId workerId ticket) := fun _ =>
    .bind insertRow_confines fun _ => .bind updateTicket_confines fun _ => .pure _
  refine .bind (hadd _) fun _ => .bind (hadd _) fun _ => .bind (.bind select_confines ?_) fun url =>
    .bind genRandomUuid_confines fun _ => .bind insertRow_confines fun _ => .pure _
  rintro (_ | url)
  · exact .throw rfl
  · exact .pure _

/-- A match is made within an open transaction, so its own ROLLBACK is one to a savepoint. -/
theorem createMatchFromPair_confines (first second : WaitingTicket) (seconds : ℕ) :
    Confines rt i (.runLoop settings workerId offset) Exn.isException P
      (createMatchFromPair first second workerId seconds) := by
  refine .bind_of (Q := fun _ w T => ∃ ms, loopRule.Inside i ms w T) (reserveTicket_confines _ _)
    (fun w T τ _ w₁ T₁ _ h => ⟨_, (reserveTicket_inside first.ticketId seconds).executes h rfl⟩)
    fun _ => .ite (fun _ => .pure _) fun _ => ?_
  -- the reservations stay inside the transaction
  have hreserve : ∀ w T τ b w₁ T₁, (∃ ms, loopRule.Inside i ms w T) →
      (reserveTicket second.ticketId workerId seconds).Executes (ruleSpec rt loopRule) i
        (.runLoop settings workerId offset) w T τ (.ok b) w₁ T₁ → ∃ ms, loopRule.Inside i ms w₁ T₁ := by
    rintro w T τ b w₁ T₁ ⟨ms, hms⟩ h
    have hinside := @loop_inside rt i settings workerId offset ms
    exact ⟨ms, (hinside.reserveTicket (hinside.tickets (fun _ => trivial) fun _ _ _ _ => trivial)
      second.ticketId workerId seconds).executes h hms⟩
  refine .bind_of (Q := fun _ w T => ∃ ms, loopRule.Inside i ms w T) (reserveTicket_confines _ _) hreserve
    fun _ => .ite (fun _ => .bind (releaseTicket_confines _) fun _ => .pure _) fun _ => ?_
  have hnested : ∀ w T τ b w₁ T₁, (∃ ms, loopRule.Inside i ms w T) →
      (perform .inTransaction : Db Bool).Executes (ruleSpec rt loopRule) i
        (.runLoop settings workerId offset) w T τ (.ok b) w₁ T₁ → b = true := by
    rintro w T τ b w₁ T₁ ⟨ms, hms⟩ h
    exact ((LogRule.inTransaction_inside (F := fun _ _ _ => True)).executes h hms).1
  -- inside one, `transaction` is a savepoint, and its ROLLBACK goes back to it
  have htransaction : Confines rt i (.runLoop settings workerId offset) Exn.isException
      (fun w T => ∃ ms, loopRule.Inside i ms w T) (transaction (insertMatch first second workerId)) := by
    refine .bind_of (Q := fun nested _ _ => nested = true) (.perform (fun _ h => h.elim) fun _ => rfl)
      hnested fun nested => .pure_pre ?_
    rintro rfl
    refine .bind (.perform (fun _ _ => rfl) fun _ => rfl) fun _ => .attempt (insertMatch_confines _ _)
      (fun _ => .bind (.perform (fun _ _ => rfl) fun _ => rfl) fun _ => .pure _) (fun e he => ?_) ?_
    · have hback : Confines rt i (.runLoop settings workerId offset) (fun _ => true) (fun _ _ => True)
          (perform .rollbackToSavepoint) := .perform (fun _ _ => rfl) fun _ => rfl
      exact .attempt hback (fun _ => .throw he) (fun _ _ => .throw he) fun _ _ _ h => by cases h
    · intro e τ r he h
      have h : (do
          let _ ← attempt (perform .rollbackToSavepoint)
          throw e : Db Unit).Runs τ r := h
      refine ⟨uncounted_of_uses (.bind (uncounted_composite.attempt (uncounted_composite.perform
        (o := .rollbackToSavepoint) trivial)) fun _ => .throw e) h, e, ?_, he⟩
      obtain ⟨e', -, hback⟩ | ⟨_, τ₁, τ₂, -, -, hthrow⟩ := h.of_bind
      · obtain ⟨_, heq, -⟩ := runs_of_attempt hback
        cases heq
      · exact hthrow.of_throw.2
  refine .attempt htransaction (fun _ => .pure _) (fun e he => ?_) ?_
  · exact .ite (fun _ => .bind (releaseTicket_confines _) fun _ => .bind (releaseTicket_confines _)
      fun _ => .throw he) fun hne => absurd he hne
  · intro e τ r he h
    have h : Client.Runs (if e.isException = true then _ else throw e) τ r := h
    rw [he] at h
    obtain ⟨rfl, rfl⟩ := h.of_throw
    exact ⟨fun _ hm => absurd hm List.not_mem_nil, e, rfl, he⟩

end Match

/-! ## The loop over the pairs -/

/-- The loop over the pairs ends by itself, or by a failure. -/
theorem processPairs_confines {loopStart : Time} (pairs : List (WaitingTicket × WaitingTicket)) :
    ∀ created processed, Confines rt i (.runLoop settings workerId offset) (fun _ => false)
      (fun _ _ => True) (processPairs settings workerId loopStart pairs created processed) := by
  induction pairs with
  | nil => exact fun _ _ => .pure _
  | cons pair pairs ih =>
    intro created processed
    have hrecord : ∀ m, Confines rt i (.runLoop settings workerId offset) (fun _ => false)
        (fun _ _ => True) (record m) := fun m => .perform (fun _ h => h.elim) fun _ => rfl
    have hskip : Confines rt i (.runLoop settings workerId offset) (fun _ => false) (fun _ _ => True) (do
        record .recordMatchFailure
        record .recordRollback
        perform .rollback
        processPairs settings workerId loopStart pairs created (processed + 1)) :=
      .bind (hrecord _) fun _ => .bind (hrecord _) fun _ =>
        .bind (.perform (fun _ _ => rfl) fun _ => rfl) fun _ => ih _ _
    refine .ite (fun _ => .pure _) fun _ => .bind (.perform (fun _ _ => rfl) fun _ => rfl) fun _ =>
      .ite (fun _ => .pure _) fun _ => .attempt (createMatchFromPair_confines _ _ _) ?_ ?_ ?_
    · rintro (_ | _)
      · exact hskip
      · exact .bind (hrecord _) fun _ => .bind (.perform (fun _ _ => rfl) fun _ => rfl) fun _ => ih _ _
    · exact fun e he => .ite (fun _ => hskip) fun hne => absurd he hne
    · intro e τ r he h
      have h : Client.Runs (if e.isException = true then _ else throw e) τ r := h
      rw [he] at h
      obtain ⟨rfl, rfl⟩ := h.of_throw
      exact ⟨fun _ hm => absurd hm List.not_mem_nil, e, rfl, rfl⟩

/-- The loop over the pairs records no statistics. -/
theorem processPairs_unrecorded {loopStart : Time} {pairs : List (WaitingTicket × WaitingTicket)}
    {created processed : ℕ} {τ : ServiceTrace} {r : Except Exn (ℕ × ℕ × Bool)}
    (h : (processPairs settings workerId loopStart pairs created processed).Runs τ r) :
    ¬ RecordsStats τ := by
  have hcomposite : Composite (fun _ => True) True (fun m => ∀ a b c d e, m ≠ .recordLoopStats a b c d e)
      fun {α : Type} (x : Db α) => x.Uses (Op.Within (fun _ => True) True
        fun m => ∀ a b c d e, m ≠ .recordLoopStats a b c d e) :=
    ⟨.perform, .pure, .throw, .bind, .tryCatch⟩
  have htickets := hcomposite.tickets (fun _ => trivial) fun _ _ _ _ => trivial
  have huses := hcomposite.processPairs htickets (fun _ => trivial) (fun _ _ => trivial)
    (fun _ => trivial) trivial ⟨fun _ _ _ _ _ h => (by cases h), fun _ _ _ _ _ h => (by cases h),
      fun _ _ _ _ _ h => (by cases h)⟩ settings workerId loopStart pairs created processed
  exact fun ⟨_, _, _, _, _, hm⟩ => emits_of_uses huses h _ hm _ _ _ _ _ rfl

/-! ## The iteration -/

/-- What an iteration does: nothing that counts, or what comes before the loop over the pairs, the loop,
which ends by itself or by a failure, and what follows; after a loop that ends by itself these are the
statistics. -/
inductive Iterated : ServiceTrace → Prop
  | none {τ : ServiceTrace} (h : Uncounted τ) : Iterated τ
  | ended {τ₁ τ₂ τ₃ : ServiceTrace} (h₁ : Uncounted τ₁) (h₂ : Ended τ₂)
      (hunrecorded : ¬ RecordsStats τ₂) (h₃ : Uncounted τ₃) :
      Iterated (τ₁ ++ (τ₂ ++ τ₃))
  | done {τ₁ τ₂ τ₃ : ServiceTrace} {a b c d : ℕ} {e : Bool} (h₁ : Uncounted τ₁) (h₂ : Smooth τ₂) :
      Iterated (τ₁ ++ (τ₂ ++ ⟨.emit (.recordLoopStats a b c d e), .ok ()⟩ :: τ₃))

namespace Iterated

variable {τ τ' : ServiceTrace}

/-- What comes before the loop counts nothing, so the form is that of what follows. -/
theorem prepend (h : Uncounted τ) (h' : Iterated τ') : Iterated (τ ++ τ') := by
  cases h' with
  | none h' => exact .none (h.append h')
  | ended h₁ h₂ hunrecorded h₃ =>
    rw [← List.append_assoc]
    exact .ended (h.append h₁) h₂ hunrecorded h₃
  | done h₁ h₂ =>
    rw [← List.append_assoc]
    exact .done (h.append h₁) h₂

theorem append (h : Iterated τ) (h' : Uncounted τ') : Iterated (τ ++ τ') := by
  cases h with
  | none h => exact .none (h.append h')
  | ended h₁ h₂ hunrecorded h₃ =>
    rw [List.append_assoc, List.append_assoc]
    exact .ended h₁ h₂ hunrecorded (h₃.append h')
  | done h₁ h₂ =>
    rw [List.append_assoc, List.append_assoc, List.cons_append]
    exact .done h₁ h₂

/-- The counters are left open exactly by a failure that ends the loop after a pair has been counted. -/
theorem unaccounted_iff (h : Iterated τ) : Unaccounted τ ↔ Interrupted τ := by
  cases h with
  | none h =>
    refine iff_of_false (fun hopen => h.not_countsPair hopen.counted) ?_
    rintro ⟨τ₁, x, τ₂, rfl, -, hopen⟩
    exact h.not_countsPair (countsPair_append.mpr (.inl hopen.counted))
  | @ended τ₁ τ₂ τ₃ h₁ h₂ hunrecorded h₃ =>
    have hnone : ¬ RecordsStats (τ₁ ++ (τ₂ ++ τ₃)) := by
      rw [recordsStats_append, recordsStats_append]
      exact not_or.mpr ⟨h₁.not_recordsStats, not_or.mpr ⟨hunrecorded, h₃.not_recordsStats⟩⟩
    constructor
    · intro hopen
      obtain ⟨σ₁, x, σ₂, rfl, hx, hσ₂⟩ := h₂
      have heq : τ₁ ++ (σ₁ ++ x :: σ₂ ++ τ₃) = τ₁ ++ σ₁ ++ x :: (σ₂ ++ τ₃) := by simp
      rw [heq] at hnone hopen ⊢
      refine ⟨_, x, _, rfl, hx, ?_, fun h => hnone (recordsStats_append.mpr (.inl h))⟩
      -- the failure and what follows it count nothing
      have hrest : Uncounted ([x] ++ (σ₂ ++ τ₃)) := (uncounted_of_endsLoop hx).append (hσ₂.append h₃)
      exact (countsPair_append.mp hopen.counted).resolve_right hrest.not_countsPair
    · rintro ⟨ρ₁, y, ρ₂, heq, -, hopen⟩
      refine ⟨?_, hnone⟩
      rw [heq]
      exact countsPair_append.mpr (.inl hopen.counted)
  | @done τ₁ τ₂ τ₃ a b c d e h₁ h₂ =>
    refine iff_of_false (fun hopen => hopen.unrecorded ?_) ?_
    · rw [recordsStats_append, recordsStats_append]
      exact .inr (.inr ⟨a, b, c, d, e, List.mem_cons_self⟩)
    -- such a failure would have to precede the loop, or to follow the statistics
    rintro ⟨ρ₁, y, ρ₂, heq, hy, hopen⟩
    have hstats : ∀ {σ σ' : ServiceTrace}, ⟨.emit (.recordLoopStats a b c d e), .ok ()⟩ :: σ ≠ y :: σ' := by
      intro σ σ' h
      rw [← (List.cons.inj h).1] at hy
      cases hy
    obtain ⟨σ, rfl, hrest⟩ | ⟨σ, rfl, -⟩ := List.append_eq_append_iff.mp heq
    · obtain ⟨σ', rfl, hend⟩ | ⟨σ', rfl, hend⟩ := List.append_eq_append_iff.mp hrest
      · obtain ⟨-, hhead⟩ | ⟨σ'', rfl, -⟩ := List.cons_eq_append_iff.mp hend
        · exact hstats hhead.symm
        · refine hopen.unrecorded ?_
          rw [recordsStats_append, recordsStats_append]
          exact .inr (.inr ⟨a, b, c, d, e, List.mem_cons_self⟩)
      · obtain ⟨-, hhead⟩ | ⟨σ'', rfl, -⟩ := List.cons_eq_append_iff.mp hend
        · exact hstats hhead
        · cases (h₂ y (List.mem_append_right _ List.mem_cons_self)).symm.trans hy
    · exact h₁.not_countsPair (countsPair_append.mpr (.inl hopen.counted))

end Iterated

/-- The operations count nothing. -/
def CountsNothing (x : Db α) : Prop :=
  x.Uses (Op.Within (fun _ => True) True fun m => isPairMetric m = false)

/-- Executions of the client have the form of an iteration. -/
def Iterates (rt : Runtime) (i : ℕ) (l : Actor) (x : Db α) : Prop :=
  ∀ w T τ r w₁ T₁, x.Executes (ruleSpec rt loopRule) i l w T τ r w₁ T₁ → Iterated τ

namespace Iterates

/-- A program that counts nothing has the form of an iteration that never reaches the pairs. -/
theorem of_nothing {x : Db α} (hx : CountsNothing x) : Iterates rt i l x :=
  fun _ _ _ _ _ _ h => .none (uncounted_of_uses hx h.runs)

/-- The steps before the loop over the pairs count nothing, whether or not they fail. -/
theorem bind {x : Db α} {f : α → Db β} (hx : CountsNothing x) (hf : ∀ a, Iterates rt i l (f a)) :
    Iterates rt i l (x >>= f) := by
  intro w T τ r w₁ T₁ h
  obtain ⟨e, rfl, hfirst⟩ | ⟨a, w', T', τ₁, τ₂, rfl, hfirst, hrest⟩ := h.of_bind
  · exact .none (uncounted_of_uses hx hfirst.runs)
  · exact .prepend (uncounted_of_uses hx hfirst.runs) (hf a _ _ _ _ _ _ hrest)

/-- A `try` around the iteration: its handler and what follows count nothing. -/
theorem attempt {x : Db α} {f : Except Exn α → Db β} (hx : Iterates rt i l x)
    (hf : ∀ r, CountsNothing (f r)) : Iterates rt i l (Matchmaking.attempt x >>= f) := by
  intro w T τ r w₁ T₁ h
  obtain ⟨e, rfl, hfirst⟩ | ⟨a, w', T', τ₁, τ₂, rfl, hfirst, hrest⟩ := h.of_bind
  · obtain ⟨_, heq, -⟩ := of_attempt hfirst
    cases heq
  · obtain ⟨_, -, hbody⟩ := of_attempt hfirst
    exact (hx _ _ _ _ _ _ hbody).append (uncounted_of_uses (hf a) hrest.runs)

/-- Taking the connection before the loop, and the COMMIT or ROLLBACK after it, count nothing. -/
theorem withConnection {x : Db α} (hx : Iterates rt i l x) : Iterates rt i l (withConnection x) := by
  refine .bind (uncounted_composite.ask _) fun _ => .attempt hx ?_
  rintro (e | a)
  · exact uncounted_composite.bind (uncounted_composite.discard trivial) fun _ => .throw e
  · exact uncounted_composite.bind (uncounted_composite.commit trivial) fun _ => .pure a

/-- The loop over the pairs, and the statistics. -/
theorem processPairs {loopStart : Time} {pairs : List (WaitingTicket × WaitingTicket)} {fetched : ℕ} :
    Iterates rt i (.runLoop settings workerId offset) (do
      let (matchesCreated, processedPairs, budgetExceeded) ←
        processPairs settings workerId loopStart pairs 0 0
      record (.recordLoopStats fetched pairs.length matchesCreated (pairs.length - processedPairs)
        budgetExceeded)) := by
  have hnil : Uncounted [] := fun _ hm => absurd hm List.not_mem_nil
  intro w T τ r w₁ T₁ h
  obtain ⟨e, rfl, hloop⟩ | ⟨⟨created, processed, exceeded⟩, w', T', τ₁, τ₂, rfl, hloop, hrecord⟩ := h.of_bind
  · have hended : Ended τ := processPairs_confines pairs 0 0 _ _ _ _ _ _ trivial hloop
    have hiterated : Iterated ([] ++ (τ ++ [])) :=
      .ended hnil hended (processPairs_unrecorded hloop.runs) hnil
    rwa [List.nil_append, List.append_nil] at hiterated
  · have hsmooth : Smooth τ₁ := processPairs_confines pairs 0 0 _ _ _ _ _ _ trivial hloop
    obtain ⟨rfl, hcan⟩ := hrecord.runs.of_perform
    cases r with
    | error e => exact hcan.elim
    | ok u => exact List.nil_append _ ▸ Iterated.done hnil hsmooth

end Iterates

/-- Everything before the loop over the pairs is made of operations that count nothing; the loop itself is
`processPairs`. -/
theorem matchTickets_iterates {loopStart : Time} :
    Iterates rt i (.runLoop settings workerId offset) (matchTickets settings workerId loopStart) := by
  have h := uncounted_composite
  have htickets := h.tickets (fun _ => trivial) fun _ _ _ _ => trivial
  exact .bind (h.cleanupExpiredReservations htickets) fun _ => .bind (h.record rfl) fun _ =>
    .bind (h.commit trivial) fun _ => .bind (h.listOwnedPartitions workerId) fun _ =>
    .bind (h.record rfl) fun _ => .bind (h.fetchWaitingTickets ..) fun _ =>
    .bind (h.findPairs _ settings) fun _ => .processPairs

/-- The lease transaction and its two handlers count nothing either, so the form of an iteration is that of
its matching. -/
theorem runLoop_iterates :
    Iterates rt i (.runLoop settings workerId offset) (runLoop settings workerId offset) := by
  have h := uncounted_composite
  have hleases : CountsNothing (leaseTransaction settings workerId offset) :=
    h.bind (h.leaseOperations (fun _ => trivial) (fun _ => trivial) settings workerId offset) fun _ =>
      h.bind (h.commit trivial) fun _ => h.pure _
  refine .bind (h.ask _) fun loopStart => .withConnection (.bind (h.attempt hleases) ?_)
  rintro (e | counts)
  · exact .of_nothing (h.ite (fun _ => h.bind (h.rollback trivial) fun _ => h.bind (h.record rfl) fun _ =>
      .throw e) fun _ => .throw e)
  · exact .bind (h.record rfl) fun _ => .bind (h.record rfl) fun _ => .bind (h.record rfl) fun _ =>
      matchTickets_iterates

/-! ## Main result -/

/-- Session `j` is an iteration of the worker's loop, and it has ended. -/
def LoopEnded (workerId : String) (log : List LogEntry) (j : ℕ) : Prop :=
  ∃ e ∈ log, e.session = j ∧ (∃ settings offset, e.actor = .runLoop settings workerId offset) ∧
    ∃ born r, e.event = .answer born r

section Runs

variable {clock : Time} {s : ServiceState} {ρ : ℕ → ServiceTrace} {j : ℕ}

/-- The trace of an iteration that has ended has the form of an iteration, in every run and with any other
sessions beside it. -/
theorem LoopEnded.iterated (h : LoopEnded workerId s.world.log j)
    (htr : (service rt).Traced (emptyState clock) s ρ) : Iterated (ρ j) := by
  obtain ⟨e, he, rfl, ⟨settings, offset, hactor⟩, born, r, hans⟩ := h
  obtain ⟨-, w₀, w₁, T₁, -, hex, -⟩ := (service_executed loopRule_kept htr).ended e he born r hans
  rw [hactor] at hex
  have hprogram : Iterates rt e.session (.runLoop settings workerId offset)
      (program rt (.runLoop settings workerId offset)) := by
    intro w T τ r w₁ T₁ h
    obtain ⟨e, rfl, hloop⟩ | ⟨_, w', T', τ₁, τ₂, rfl, hloop, hpure⟩ := h.of_bind
    · exact runLoop_iterates _ _ _ _ _ _ hloop
    · obtain ⟨rfl, -⟩ := hpure.runs.of_pure
      rw [List.append_nil]
      exact runLoop_iterates _ _ _ _ _ _ hloop
  exact hprogram _ _ _ _ _ _ hex

/-- The marks of an iteration are the metrics of its trace. -/
theorem LoopEnded.mem_marks (h : LoopEnded workerId s.world.log j)
    (htr : (service rt).Traced (emptyState clock) s ρ) {m : Metric} (hm : isPairMetric m = true) :
    .metric m ∈ marks loopMark j s.world.log ↔ m ∈ emits (ρ j) := by
  obtain ⟨e, he, hsession, ⟨settings, offset, hactor⟩, -⟩ := h
  rw [htr.emitted rfl, ReadCommitted.mem_marks]
  constructor
  · rintro ⟨e', he', hj, hmark⟩
    refine ⟨e', he', hj, ?_⟩
    have ha : e'.actor = .runLoop settings workerId offset :=
      (htr.reachable.same_actor he' he (hj.trans hsession.symm)).trans hactor
    simp only [loopMark, ha] at hmark
    split at hmark
    · next hemit =>
      split at hmark <;> cases hmark
      exact hemit
    · split at hmark <;> cases hmark
    · cases hmark
  · rintro ⟨e', he', hj, hemit⟩
    have ha : e'.actor = .runLoop settings workerId offset :=
      (htr.reachable.same_actor he' he (hj.trans hsession.symm)).trans hactor
    refine ⟨e', he', hj, ?_⟩
    simp only [loopMark, ha, hemit, hm, if_true]

/-- The counters are left open by the failures that interrupt the loop over the pairs. -/
theorem LoopEnded.cutShort_iff (h : LoopEnded workerId s.world.log j)
    (htr : (service rt).Traced (emptyState clock) s ρ) :
    CutShort (marks loopMark j s.world.log) ↔ Interrupted (ρ j) := by
  have hmem := fun {m} hm => @LoopEnded.mem_marks rt workerId clock s ρ j h htr m hm
  rw [← (h.iterated htr).unaccounted_iff]
  have hcounts : CountsPair (ρ j) ↔ .metric .recordMatch ∈ marks loopMark j s.world.log ∨
      .metric .recordMatchFailure ∈ marks loopMark j s.world.log := by
    rw [hmem rfl, hmem rfl, CountsPair]
  have hstats : RecordsStats (ρ j) ↔ HasStats (marks loopMark j s.world.log) := by
    unfold RecordsStats HasStats
    simp only [hmem (m := .recordLoopStats _ _ _ _ _) rfl]
  exact ⟨fun h => ⟨hcounts.mpr h.counted, fun hs => h.unrecorded (hstats.mp hs)⟩,
    fun h => ⟨hcounts.mp h.counted, fun hs => h.unrecorded (hstats.mpr hs)⟩⟩

/-- **Worker counters.** Over any iterations of a worker that have ended, the growth of the counter of
matches is the number of matches committed, and in each of them the pairs found are accounted for, if and
only if in none of them a COMMIT, a ROLLBACK or a look at the clock fails, or a statement ends with
something else than an `Exception`, between the first pair and the statistics. -/
theorem counters_true_iff (htr : (service rt).Traced (emptyState clock) s ρ) {loops : Finset ℕ}
    (hended : ∀ j ∈ loops, LoopEnded workerId s.world.log j) :
    ((∑ j ∈ loops, (growth (marks loopMark j s.world.log)).matchesCreated
        = ∑ j ∈ loops, matchesCommitted (marks loopMark j s.world.log)) ∧
      ∀ j ∈ loops, PairsAccounted (marks loopMark j s.world.log)) ↔
        ∀ j ∈ loops, ¬ Interrupted (ρ j) := by
  have hfine := fun j => loops_fine htr.reachable j
  have hcut := fun j hj => not_congr ((hended j hj).cutShort_iff htr)
  rw [eq_comm, Finset.sum_eq_sum_iff_of_le fun j _ => (hfine j).committed, ← forall₂_and]
  exact forall₂_congr fun j hj => (hfine j).counted_iff.trans (hcut j hj)

end Runs

/-! ## A match whose COMMIT fails -/

/-- Session `j` has answered as an iteration of the worker. -/
def isLoopAnswer (workerId : String) (j : ℕ) (e : LogEntry) : Bool :=
  e.session = j && (match e.actor with | .runLoop _ w _ => w = workerId | _ => false) &&
    (answer? e.event).isSome

/-- The log of a finished run shows which sessions are iterations that have ended. -/
theorem loopEnded_of_any {log : List LogEntry} {j : ℕ} (h : log.any (isLoopAnswer workerId j) = true) :
    LoopEnded workerId log j := by
  obtain ⟨e, he, hend⟩ := List.any_eq_true.mp h
  simp only [isLoopAnswer, Bool.and_eq_true, decide_eq_true_eq] at hend
  obtain ⟨⟨hj, hactor⟩, hans⟩ := hend
  split at hactor
  · next settings w offset heq =>
    obtain rfl : w = workerId := of_decide_eq_true hactor
    refine ⟨e, he, hj, ⟨settings, offset, heq⟩, ?_⟩
    cases hev : e.event with
    | answer born r => exact ⟨born, r, rfl⟩
    | _ => rw [hev] at hans; cases hans
  · cases hactor

/-- A worker finds one pair, and the COMMIT of its match fails. -/
def uncommittedScript : List (System.Move Reply Exn Actor) :=
  runs 0 (.migrate sampleSettings) ++ runs 1 (sampleRequest none "p1") ++
    runs 2 (sampleRequest none "p2") ++
    [.act (.start (.runLoop sampleSettings "w" 0)), .advance sampleReply 3 47,
      .act (.exec 3 (.fail (.other "server closed the connection unexpectedly"))),
      .advance sampleReply 3 100]

/-- The state after this run, in which the COMMIT of a match fails. -/
def uncommittedState : ServiceState := (service sampleRuntime).after uncommittedScript (emptyState 0)

/-- The run follows the steps of the service, so its end is a state that the service can reach. -/
theorem uncommittedState_reachable :
    (service sampleRuntime).Reachable (emptyState 0) uncommittedState :=
  System.reachable_after uncommittedScript _

/-- A match is counted that is not committed, and its pair is not counted as found. -/
theorem match_miscounted : ∃ ρ, (service sampleRuntime).Traced (emptyState 0) uncommittedState ρ ∧
    LoopEnded "w" uncommittedState.world.log 3 ∧
    (growth (marks loopMark 3 uncommittedState.world.log)).matchesCreated = 1 ∧
    matchesCommitted (marks loopMark 3 uncommittedState.world.log) = 0 ∧
    (growth (marks loopMark 3 uncommittedState.world.log)).pairsFoundTotal = 0 := by
  obtain ⟨ρ, hρ⟩ := uncommittedState_reachable.traced
  exact ⟨ρ, hρ, loopEnded_of_any (by decide +kernel), by decide +kernel, by decide +kernel,
    by decide +kernel⟩

/-- In the traces of this run the counters are left open exactly by the interruption. -/
theorem counters_true_iff_uncommitted : ∃ ρ : ℕ → ServiceTrace,
    (service sampleRuntime).Traced (emptyState 0) uncommittedState ρ ∧
    (((∑ j ∈ {3}, (growth (marks loopMark j uncommittedState.world.log)).matchesCreated
        = ∑ j ∈ {3}, matchesCommitted (marks loopMark j uncommittedState.world.log)) ∧
      ∀ j ∈ ({3} : Finset ℕ), PairsAccounted (marks loopMark j uncommittedState.world.log)) ↔
        ∀ j ∈ ({3} : Finset ℕ), ¬ Interrupted (ρ j)) ∧ Interrupted (ρ 3) := by
  obtain ⟨ρ, hρ⟩ := uncommittedState_reachable.traced
  have hended : LoopEnded "w" uncommittedState.world.log 3 := loopEnded_of_any (by decide +kernel)
  have hloops : ∀ j ∈ ({3} : Finset ℕ), LoopEnded "w" uncommittedState.world.log j :=
    fun j hj => Finset.mem_singleton.mp hj ▸ hended
  have hiff := counters_true_iff hρ hloops
  refine ⟨ρ, hρ, hiff, ?_⟩
  by_contra hfree
  have hsums := (hiff.mpr fun j hj => Finset.mem_singleton.mp hj ▸ hfree).1
  rw [Finset.sum_singleton, Finset.sum_singleton] at hsums
  exact absurd hsums (by decide +kernel)

end Matchmaking
