import Matchmaking.CreateOutcomes

/-!
# Requests that carry a key

What the rows of `idempotency_keys` say, and which answers they lead to: the 201 to the request that
has created the ticket of a key, and the 200 to those that repeat it (`replayOf`).
-/

namespace Matchmaking

open ReadCommitted

/-! ## Fields of documents -/

namespace Json

/-- The value that was set, and the values of all other fields. -/
theorem get?_set (fields : List (String × Json)) (name : String) (v : Json) (name' : String) :
    ((obj fields).set name v).get? name' = if name' = name then some v else (obj fields).get? name' := by
  by_cases hname : name' = name
  · subst hname
    rw [if_pos rfl, set, get?, List.find?_append]
    have hnone : (fields.filter fun f => f.1 ≠ name').find? (fun f => f.1 = name') = none := by
      rw [List.find?_eq_none]
      intro f hf
      simpa using (List.mem_filter.mp hf).2
    rw [hnone]
    simp
  · rw [if_neg hname, set, get?, get?, List.find?_append, List.find?_filter]
    have hlast : [(name, v)].find? (fun f => f.1 = name') = none := by simp [Ne.symm hname]
    rw [hlast, Option.or_none]
    congr 2
    funext f
    by_cases hf : f.1 = name' <;> simp [hf, hname]

theorem get?_append (fields rest : List (String × Json)) (name : String) :
    (obj (fields ++ rest)).get? name = ((obj fields).get? name).or ((obj rest).get? name) := by
  rw [get?, get?, get?, List.find?_append]
  cases fields.find? fun f => f.1 = name <;> rfl

/-- The document has the fields of `original`, and `idempotent_replay` with the value true; in which
order does not matter. -/
def Repeats (replay original : Json) : Prop :=
  ∀ name, replay.get? name =
    if name = "idempotent_replay" then some (.bool true) else original.get? name

/-- It has besides, with the value null, the fields that a ticket gets when it is matched or cancelled. -/
def RepeatsWithNulls (replay original : Json) : Prop :=
  ∀ name, replay.get? name =
    if name = "idempotent_replay" then some (.bool true)
    else if name ∈ ["match_id", "matched_at", "cancelled_at"] then some .null
    else original.get? name

end Json

variable {rt : Runtime}

namespace NewTicket

variable (n : NewTicket) (now : Time)

/-- The fields of the 201 for the ticket. -/
def fields : List (String × Json) := [
  ("ticket_id", .str (uuidText n.ticketId)),
  ("tenant_id", .str n.tenantId),
  ("player_id", .str n.body.playerId),
  ("region", .str n.body.region),
  ("queue_name", .str n.body.queueName),
  ("skill", .int n.body.skill),
  ("partition_id", .int n.partitionId),
  ("status", .str TicketStatus.waiting.text),
  ("created_at", .str (isoText now))]

theorem excludeNone_response : excludeNone (ticketResponse n.ticketId (n.ticket now)) = .obj (n.fields now) :=
  rfl

theorem response_fields : ticketResponse n.ticketId (n.ticket now) = .obj (n.fields now ++ [
    ("match_id", .null), ("matched_at", .null), ("cancelled_at", .null), ("idempotent_replay", .null)]) :=
  rfl

/-- A replay of the ticket has three fields more than its 201, apart from `idempotent_replay`. -/
theorem replay_fields : (replayOf (ticketResponse n.ticketId (n.ticket now))).RepeatsWithNulls
    (excludeNone (ticketResponse n.ticketId (n.ticket now))) := by
  intro name
  rw [replayOf, excludeNone_response, response_fields, Json.get?_set, Json.get?_append]
  by_cases hreplay : name = "idempotent_replay"
  · rw [if_pos hreplay, if_pos hreplay]
  rw [if_neg hreplay, if_neg hreplay]
  by_cases hnull : name ∈ ["match_id", "matched_at", "cancelled_at"]
  · rw [if_pos hnull]
    simp only [List.mem_cons, List.not_mem_nil, or_false] at hnull
    rcases hnull with rfl | rfl | rfl <;> rfl
  · rw [if_neg hnull]
    simp only [List.mem_cons, List.not_mem_nil, or_false, not_or] at hnull
    obtain ⟨hmatch, hmatched, hcancelled⟩ := hnull
    have hrest : (Json.obj [("match_id", .null), ("matched_at", .null), ("cancelled_at", .null),
        ("idempotent_replay", .null)]).get? name = none := by
      simp [Json.get?, Ne.symm hmatch, Ne.symm hmatched, Ne.symm hcancelled, Ne.symm hreplay]
    rw [hrest, Option.or_none]

end NewTicket

/-! ## Where the rows of keys come from -/

/-- An entry of the log that creates the ticket `n` at time `now`. -/
def CreatedBy (rt : Runtime) (n : NewTicket) (now : Time) (e : LogEntry) : Prop :=
  ∃ t b, e.event.commit? = some (t, b) ∧ t.start = now ∧ Creates rt e.actor t b n

/-- Every row of a key is that of a ticket that was created with it. -/
theorem Past.key_created {w : ServiceWorld} (h : Past rt w) {tenantId key : String} {row : IdempotencyKey}
    (hrow : w.committed.lookup (.idempotencyKeys tenantId key) = some row) : ∃ n now, ∃ e ∈ w.log,
      CreatedBy rt n now e ∧ n.tenantId = tenantId ∧ n.key = some key ∧ row = n.keyRow rt now := by
  refine h.history.chained.invariant (I := fun s => ∀ row : IdempotencyKey,
    s.lookup (.idempotencyKeys tenantId key) = some row → ∃ n now, ∃ e ∈ w.log, CreatedBy rt n now e ∧
      n.tenantId = tenantId ∧ n.key = some key ∧ row = n.keyRow rt now) (fun _ hnone => by cases hnone)
    (fun e he t b hc ih row hrow => ?_) row hrow
  obtain hold | ⟨n, hcreates, htenant, hkey, rfl⟩ := (h.legal he hc).key_origin hrow
  · exact ih row hold
  · exact ⟨n, t.start, e, he, ⟨t, b, hc, rfl, hcreates⟩, htenant, hkey, rfl⟩

/-! ## Replays -/

/-- The body of the 201 for the ticket that was created with the key. -/
def IsOriginal (rt : Runtime) (log : List LogEntry) (tenantId key : String) (original : Json) : Prop :=
  ∃ n now, ∃ e ∈ log, CreatedBy rt n now e ∧ n.tenantId = tenantId ∧ n.key = some key ∧
    original = excludeNone (ticketResponse n.ticketId (n.ticket now))

/-- A request of the tenant for the key is answered `r`. -/
def KeyAnswer (tenantId key : String) (r : Response) (e : LogEntry) : Prop :=
  ∃ settings body born, e.actor = .createTicket settings (some tenantId) (some key) body ∧
    e.event = .answer born (.ok (.response r))

section Runs

variable {clock : Time} {st : ServiceState} {e : LogEntry} {tenantId key : String} {r : Response}

theorem Past.key_answer {w : ServiceWorld} (h : Past rt w) (he : e ∈ w.log) (hr : KeyAnswer tenantId key r e) :
    ∃ settings body born, e.actor = .createTicket settings (some tenantId) (some key) body ∧
      AnswerOf rt tenantId key body born r w.committed := by
  obtain ⟨settings, body, born, hactor, hevent⟩ := hr
  have hanswered := h.story.answered e he born _ (by rw [hevent]; rfl)
  rw [hactor] at hanswered
  exact ⟨settings, body, born, hactor, hanswered⟩

/-- A replay has the fields of the 201, and others that are null. -/
theorem Past.replay_padded {w : ServiceWorld} (h : Past rt w) (he : e ∈ w.log)
    (hr : KeyAnswer tenantId key r e) (hstatus : r.status = 200) :
    ∃ original, IsOriginal rt w.log tenantId key original ∧ r.body.RepeatsWithNulls original := by
  obtain ⟨-, body, born, -, hanswer⟩ := h.key_answer he hr
  obtain ⟨row, hrow, -, hbody⟩ := hanswer.replayed hstatus
  obtain ⟨n, now, e₀, he₀, hcreated, htenant, hkey, rfl⟩ := h.key_created hrow
  rw [hbody]
  exact ⟨_, ⟨n, now, e₀, he₀, hcreated, htenant, hkey, rfl⟩, n.replay_fields now⟩

/-- A 201 has no field `match_id`. -/
theorem IsOriginal.not_repeats {log : List LogEntry} {original original' replay : Json}
    (h : IsOriginal rt log tenantId key original) (hpadded : replay.RepeatsWithNulls original') :
    ¬ replay.Repeats original := fun hrepeats => by
  obtain ⟨n, now, -, -, -, -, -, rfl⟩ := h
  have hmatch := hpadded "match_id"
  rw [hrepeats "match_id"] at hmatch
  cases hmatch

/-- The body of a 201 is the original. -/
theorem Past.created_original {w : ServiceWorld} (h : Past rt w) (he : e ∈ w.log)
    (hr : KeyAnswer tenantId key r e) (hstatus : r.status = 201) :
    IsOriginal rt w.log tenantId key r.body := by
  obtain ⟨-, body, born, -, hanswer⟩ := h.key_answer he hr
  obtain ⟨row, hrow, -, hbody⟩ := hanswer.created hstatus
  obtain ⟨n, now, e₀, he₀, hcreated, htenant, hkey, rfl⟩ := h.key_created hrow
  exact ⟨n, now, e₀, he₀, hcreated, htenant, hkey, hbody⟩

/-- **No replay repeats the answer.** In every run, the body of a 200 for a key has the fields of the
body of the 201 for it, `idempotent_replay`, and three fields with the value null that the 201 does not
have. -/
theorem replay_never_repeats (hs : (service rt).Reachable (emptyState clock) st) (he : e ∈ st.world.log)
    (hr : KeyAnswer tenantId key r e) (hstatus : r.status = 200) :
    (∃ original, IsOriginal rt st.world.log tenantId key original ∧ r.body.RepeatsWithNulls original) ∧
      (∀ original, IsOriginal rt st.world.log tenantId key original → ¬ r.body.Repeats original) ∧
      ∀ e' ∈ st.world.log, ∀ r', KeyAnswer tenantId key r' e' → r'.status = 201 →
        IsOriginal rt st.world.log tenantId key r'.body := by
  have hpast := service_past hs
  obtain ⟨original, horiginal, hpadded⟩ := hpast.replay_padded he hr hstatus
  exact ⟨⟨original, horiginal, hpadded⟩, fun _ h => h.not_repeats hpadded,
    fun _ he' _ hr' hstatus' => hpast.created_original he' hr' hstatus'⟩

end Runs

/-! ## A request that is sent twice -/

/-- The second request of the sample run, sent again. -/
def replayState : ServiceState :=
  (service sampleRuntime).after (sampleScript ++ runs 5 (sampleRequest (some "k") "p2")) (emptyState 0)

theorem replayState_reachable : (service sampleRuntime).Reachable (emptyState 0) replayState :=
  System.reachable_after _ _

/-- A 200 for the key. -/
def isReplay (e : LogEntry) : Bool :=
  match e.actor, e.event with
  | .createTicket _ (some tenantId) (some key) _, .answer _ (.ok (.response r)) =>
    tenantId = "studio_a" && key = "k" && r.status = 200
  | _, _ => false

theorem exists_replay : ∃ e ∈ replayState.world.log, ∃ r, KeyAnswer "studio_a" "k" r e ∧ r.status = 200 := by
  have hany : replayState.world.log.any isReplay = true := by decide +kernel
  obtain ⟨e, he, hreplay⟩ := List.any_eq_true.mp hany
  unfold isReplay at hreplay
  split at hreplay
  · next settings tenantId key body born r hactor hevent =>
    simp only [Bool.and_eq_true, decide_eq_true_eq] at hreplay
    obtain ⟨⟨rfl, rfl⟩, hstatus⟩ := hreplay
    exact ⟨e, he, r, ⟨settings, body, born, hactor, hevent⟩, hstatus⟩
  · cases hreplay

/-- The replay has fields that the 201 does not have. -/
theorem replay_differs : ∃ e ∈ replayState.world.log, ∃ r original, KeyAnswer "studio_a" "k" r e ∧
    r.status = 200 ∧ IsOriginal sampleRuntime replayState.world.log "studio_a" "k" original ∧
    ¬ r.body.Repeats original := by
  obtain ⟨e, he, r, hr, hstatus⟩ := exists_replay
  obtain ⟨original, horiginal, hpadded⟩ :=
    (service_past replayState_reachable).replay_padded he hr hstatus
  exact ⟨e, he, r, original, hr, hstatus, horiginal, horiginal.not_repeats hpadded⟩

/-- A request is replayed in that run: its body has the nulls, and it repeats no original body. -/
theorem replay_never_repeats_sample : ∃ r : Response, (∃ original, r.body.RepeatsWithNulls original) ∧
    ∀ original, IsOriginal sampleRuntime replayState.world.log "studio_a" "k" original →
      ¬ r.body.Repeats original := by
  obtain ⟨e, he, r, hr, hstatus⟩ := exists_replay
  obtain ⟨⟨original, -, hpadded⟩, hnever, -⟩ := replay_never_repeats replayState_reachable he hr hstatus
  exact ⟨r, ⟨original, hpadded⟩, hnever⟩

end Matchmaking
