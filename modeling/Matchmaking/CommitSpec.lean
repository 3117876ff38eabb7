import Matchmaking.Effects
import Matchmaking.Footprints
import Matchmaking.Rules
import Matchmaking.ReadCommitted.History

/-!
# The specification of the service

The specification that every session of the service is shown to meet: all its commits are `Legal`,
and the answer to a request with an idempotency key agrees with the row of the key (`Answered`).
Programs that change single rows meet it by their footprints alone.
-/

namespace Matchmaking

open ReadCommitted

/-- All logged commits are legal in the tables that they were made to. -/
def LegalLog (rt : Runtime) (log : List LogEntry) : Prop :=
  ∀ e ∈ log, ∀ t b, e.event.commit? = some (t, b) → Legal rt e.actor t b

/-- What an answer to a request for the key `key` says about the row of the key, where `born` is the
committed store when the request came in and `s` a later one. -/
structure AnswerOf (rt : Runtime) (tenantId key : String) (body : TicketCreate) (born : Tables)
    (r : Response) (s : Tables) : Prop where
  created : r.status = 201 → ∃ row, s.lookup (.idempotencyKeys tenantId key) = some row ∧
    row.requestHash = computeRequestHashFromModel rt body.modelDump ∧
    r.body = excludeNone row.responseBody
  replayed : r.status = 200 → ∃ row, s.lookup (.idempotencyKeys tenantId key) = some row ∧
    row.requestHash = computeRequestHashFromModel rt body.modelDump ∧
    r.body = replayOf row.responseBody
  repeated : ∀ row, born.lookup (.idempotencyKeys tenantId key) = some row →
    row.requestHash = computeRequestHashFromModel rt body.modelDump →
    r = ⟨200, replayOf row.responseBody⟩

/-- `AnswerOf` for the actors it is about; an exception leaves no answer. -/
def Answered (rt : Runtime) : Actor → Tables → Except Exn Answer → Tables → Prop
  | .createTicket _ (some tenantId) (some key) body, born, .ok (.response r), s =>
    AnswerOf rt tenantId key body born r s
  | _, _, _, _ => True

/-- What an answer says of the tables it was made from stays true while rows persist. -/
theorem AnswerOf.persist {rt : Runtime} {tenantId key : String} {body : TicketCreate}
    {born s s' : Tables} {r : Response} (h : AnswerOf rt tenantId key body born r s)
    (hs : Persist s s') : AnswerOf rt tenantId key body born r s' :=
  ⟨fun hr => (h.created hr).imp fun _ h => ⟨hs.key h.1, h.2⟩,
    fun hr => (h.replayed hr).imp fun _ h => ⟨hs.key h.1, h.2⟩, h.repeated⟩

/-- The same of all answers of an actor. -/
theorem Answered.persist {rt : Runtime} {l : Actor} {born s s' : Tables} {r : Except Exn Answer}
    (h : Answered rt l born r s) (hs : Persist s s') : Answered rt l born r s' := by
  unfold Answered at h ⊢
  split at h
  · exact AnswerOf.persist h hs
  · trivial

/-- The answer an event gives, and the committed store when its request came in. -/
def answer? : Event Row Reply Exn Metric Answer → Option (Tables × Except Exn Answer)
  | .answer born r => some (born, r)
  | _ => none

/-- The commits of a world are legal, and its answers agree with the committed keys. -/
structure Story (rt : Runtime) (w : ServiceWorld) : Prop where
  legal : LegalLog rt w.log
  answered : ∀ e ∈ w.log, ∀ born r, answer? e.event = some (born, r) →
    Answered rt e.actor born r w.committed

/-- How the world may move: durable rows stay, and the log grows. -/
structure Grows (w w' : ServiceWorld) : Prop where
  persist : Persist w.committed w'.committed
  log : w.log <:+ w'.log

theorem Grows.refl (w : ServiceWorld) : Grows w w := ⟨.refl _, List.suffix_refl _⟩

theorem Grows.trans {w w' w'' : ServiceWorld} (h : Grows w w') (h' : Grows w' w'') : Grows w w'' :=
  ⟨h.persist.trans h'.persist, h.log.trans h'.log⟩

/-- An entry of the log leaves the tables alone. -/
theorem Grows.push (w : ServiceWorld) (i : ℕ) (l : Actor) (ev : Event Row Reply Exn Metric Answer) :
    Grows w (w.push i l ev) := ⟨.refl _, List.suffix_cons _ _⟩

/-- What the log shows it goes on showing. -/
theorem Grows.logged {w w' : ServiceWorld} (h : Grows w w') {p : LogEntry → Prop}
    (hp : ∃ e ∈ w.log, p e) : ∃ e ∈ w'.log, p e :=
  hp.imp fun _ he => ⟨h.log.subset he.1, he.2⟩

/-- The specification that every session meets: it commits legally and answers truly. -/
def commitSpec (rt : Runtime) : Spec Row Reply Exn Metric Answer Actor where
  inv := Story rt
  known := History ∅
  rely _ _ := Grows
  guar _ _ := Grows
  post _ l born r w := Answered rt l born r w.committed

variable {rt : Runtime} {i : ℕ} {l : Actor} {α : Type}

namespace Story

/-- The invariant of a run is kept by entries that are no commits, if an answer among them is right. -/
theorem push {w : ServiceWorld} (h : Story rt w) {ev : Event Row Reply Exn Metric Answer}
    (hev : ev.commit? = none)
    (hans : ∀ born r, answer? ev = some (born, r) → Answered rt l born r w.committed) :
    Story rt (w.push i l ev) where
  legal e he t b hc := by
    rcases List.mem_cons.mp he with rfl | he
    · cases hev.symm.trans hc
    · exact h.legal e he t b hc
  answered e he born r hr := by
    rcases List.mem_cons.mp he with rfl | he
    · exact hans born r hr
    · exact h.answered e he born r hr

/-- It is kept by every commit that the rules allow. -/
theorem commit {w : ServiceWorld} (h : Story rt w) {t : Txn Row} (ht : t.aborted = false)
    (hlegal : Legal rt l t w.committed) : Story rt (w.commit i l t) := by
  simp only [World.commit, ht, Bool.false_eq_true, if_false]
  refine ⟨fun e he t' b hc => ?_, fun e he born r hr => ?_⟩
  · rcases List.mem_cons.mp he with rfl | he
    · obtain ⟨rfl, rfl⟩ := Prod.mk.inj (Option.some.inj hc)
      exact hlegal
    · exact h.legal e he t' b hc
  · rcases List.mem_cons.mp he with rfl | he
    · cases hr
    · exact (h.answered e he born r hr).persist hlegal.persist

end Story

/-- What each actor guarantees, the others rely on; this is the side condition of soundness. -/
theorem commitSpec_lawful {sys : System Row Reply Exn Metric Answer Actor}
    (hsymm : ∀ l l', sys.exclusive l l' = sys.exclusive l' l) : (commitSpec rt).Lawful sys where
  exclusive_symm := hsymm
  rely_refl _ _ _ := .refl _
  rely_trans _ _ _ _ _ h h' := h.trans h'
  guar_rely _ _ _ _ _ _ _ _ _ h := h
  post_stable _ _ _ _ _ _ h _ hpost := hpost.persist h.persist
  tick w _ _ h := ⟨⟨h.legal, h.answered⟩, fun _ _ => ⟨.refl _, List.suffix_refl _⟩⟩
  begun _ _ _ h := ⟨.push .., h.push rfl fun _ _ hr => by cases hr⟩
  answer _ _ _ _ _ h hpost := ⟨.push .., h.push rfl fun _ _ hr => by cases hr; exact hpost⟩

/-- Every actor may ask and count at any point. -/
theorem commitSpec_logs : (commitSpec rt).Logs i l := by
  intro w ev hev h
  refine ⟨.push .., h.1.push ?_ fun _ _ hr => ?_⟩
  · cases ev <;> first | rfl | cases hev
  · cases ev <;> first | exact hev.elim | cases hr

/-- Every commit that is legal in the tables it is made to is allowed. -/
theorem commitSpec_commits {C : ServiceWorld → Txn Row → Prop}
    (h : ∀ w t, (commitSpec rt).facts w → C w t → Legal rt l t w.committed) :
    (commitSpec rt).Commits i l C := by
  intro w t hfacts _ habort _ hC
  have hlegal := h w t hfacts hC
  refine ⟨?_, hfacts.1.commit habort hlegal⟩
  simp only [World.commit, habort, Bool.false_eq_true, if_false]
  exact ⟨hlegal.persist, List.suffix_cons _ _⟩

/-- What persists, lasts. -/
theorem commitSpec_lasting (C : Tables → Prop) (hC : ∀ s s', Persist s s' → C s → C s') :
    (commitSpec rt).Lasting i l fun w => C w.committed :=
  ⟨fun _ _ h _ => hC _ _ h.persist, fun _ _ h _ => hC _ _ h.persist⟩

/-- What is logged, stays logged. -/
theorem commitSpec_logged (p : LogEntry → Prop) :
    (commitSpec rt).Lasting i l fun w => ∃ e ∈ w.log, p e :=
  ⟨fun _ _ h _ ⟨e, he, hp⟩ => ⟨e, h.log.subset he, hp⟩,
    fun _ _ h _ ⟨e, he, hp⟩ => ⟨e, h.log.subset he, hp⟩⟩

/-! ## Programs that change single rows -/

/-- So are commits that change rows by the rules of their actor. -/
theorem commitSpec_rows : (commitSpec rt).Commits i l fun w t =>
    ∀ k, l.rows t.start k (w.committed.lookup k) ((patch t.writes w.committed).lookup k) :=
  commitSpec_commits fun _ _ _ h => .rows h

/-- Without a transaction there is nothing that could break a relation on rows. -/
theorem Follows.idle {Φ : RowRel Row} {w : ServiceWorld} {T : Option (Txn Row)} (h : Idle w T) :
    Follows Φ w T := fun _ ht => by rw [h] at ht; cases ht

/-- A part of an actor's program that only makes the actor's changes of single rows. -/
theorem triple_rows {x : Db α} (hx : UsesRows l.rows x) :
    Triple (commitSpec rt) i l (Follows l.rows) x (fun _ => Follows l.rows) fun _ => Follows l.rows :=
  .of_uses l.rows_refl l.rows_trans commitSpec_logs commitSpec_rows hx

/-- The COMMIT after statements that follow the rules of the actor's rows. -/
theorem triple_commit_rows : Triple (commitSpec rt) i l (Follows l.rows) (perform .commit)
    (fun _ => Idle) fun _ => Idle :=
  .stage_commit (Follows.stable _) (fun _ _ _ h => Follows.view l.rows_refl h) commitSpec_rows

/-- Transactions without changes, of actors that may touch index entries. -/
theorem commitSpec_unchanged (hl : ∀ now tenantId playerId region queueName v v',
      l.rows now (.uqActiveTicket tenantId playerId region queueName) v v') :
    (commitSpec rt).Commits i l fun _ t => ∀ k, ¬ IsIndexKey k → t.writes.dlookup k = none := by
  refine commitSpec_commits fun _ t _ h => .rows fun k => ?_
  by_cases hk : IsIndexKey k
  · cases k <;> first | exact hk.elim | exact hl ..
  · rw [lookup_patch_of_notMem (h k hk)]
    exact l.rows_refl ..

end Matchmaking
