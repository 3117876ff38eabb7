import Matchmaking.Runtime

/-!
# Idempotency keys

`models/tickets.py` and `core/idempotency.py`: the bodies of ticket requests and answers, the hash of
a request body, and the three statements on `idempotency_keys`.
-/

namespace Matchmaking

open ReadCommitted

/-! ## Request and response bodies -/

/-- The body of a create request, once its texts are known to be encodable. -/
@[ext]
structure TicketCreate where
  playerId : String
  region : String
  queueName : String
  skill : ℤ
deriving DecidableEq

/-- `model_dump(mode="json")`. -/
def TicketCreate.modelDump (body : TicketCreate) : Json :=
  .obj [
    ("player_id", .str body.playerId),
    ("region", .str body.region),
    ("queue_name", .str body.queueName),
    ("skill", .int body.skill)]

/-- `sort_keys=True` on the fields of a body. -/
theorem Json.sortFields_ticket (a b c d : String) :
    Json.sortFields [("player_id", a), ("region", b), ("queue_name", c), ("skill", d)]
      = [("player_id", a), ("queue_name", c), ("region", b), ("skill", d)] := by
  have hskill : "queue_name".toList ≤ "skill".toList := by decide
  have hregion : ¬ "region".toList ≤ "queue_name".toList := by decide
  have hregion' : "region".toList ≤ "skill".toList := by decide
  have hplayer : "player_id".toList ≤ "queue_name".toList := by decide
  rw [Json.sortFields, List.insertionSort_cons, List.insertionSort_cons, List.insertionSort_cons,
    List.insertionSort_cons, List.insertionSort_nil, List.orderedInsert_nil,
    List.orderedInsert_cons, if_pos hskill, List.orderedInsert_cons, if_neg hregion,
    List.orderedInsert_cons, if_pos hplayer, List.orderedInsert_cons, if_pos hregion']

/-- The canonical text of a body. -/
theorem TicketCreate.dumps_modelDump (body : TicketCreate) : body.modelDump.dumps = "\x7b" ++
    (Json.quote "player_id" ++ ":" ++ Json.quote body.playerId ++ "," ++
      (Json.quote "queue_name" ++ ":" ++ Json.quote body.queueName) ++ "," ++
      (Json.quote "region" ++ ":" ++ Json.quote body.region) ++ "," ++
      (Json.quote "skill" ++ ":" ++ toString body.skill)) ++ "\x7d" := by
  simp only [modelDump, Json.dumps, Json.dumpsFields, Json.sortFields_ticket]
  rfl

/-- The canonical text tells the body. -/
theorem TicketCreate.dumps_inj {body body' : TicketCreate}
    (h : body.modelDump.dumps = body'.modelDump.dumps) : body = body' := by
  have hlist := congrArg String.toList h
  rw [dumps_modelDump, dumps_modelDump] at hlist
  simp only [String.toList_append, List.append_assoc] at hlist
  -- the text of each value ends before the name of the next field
  obtain ⟨hplayer, hlist⟩ := Json.quote_append_inj
    (List.append_cancel_left (List.append_cancel_left (List.append_cancel_left hlist)))
  obtain ⟨hqueue, hlist⟩ := Json.quote_append_inj
    (List.append_cancel_left (List.append_cancel_left (List.append_cancel_left hlist)))
  obtain ⟨hregion, hlist⟩ := Json.quote_append_inj
    (List.append_cancel_left (List.append_cancel_left (List.append_cancel_left hlist)))
  have hskill := toString_int_inj (List.append_cancel_right
    (List.append_cancel_left (List.append_cancel_left (List.append_cancel_left hlist))))
  exact TicketCreate.ext hplayer hregion hqueue hskill

/-- `TicketResponse` as JSON, absent fields as `null`. -/
def ticketResponse (ticketId : UUID) (t : Ticket) : Json :=
  .obj [
    ("ticket_id", .str (uuidText ticketId)),
    ("tenant_id", .str t.tenantId),
    ("player_id", .str t.playerId),
    ("region", .str t.region),
    ("queue_name", .str t.queueName),
    ("skill", .int t.skill),
    ("partition_id", .int t.partitionId),
    ("status", .str t.status.text),
    ("created_at", .str (isoText t.createdAt)),
    ("match_id", t.matchId.elim .null fun m => .str (uuidText m)),
    ("matched_at", t.matchedAt.elim .null fun u => .str (isoText u)),
    ("cancelled_at", t.cancelledAt.elim .null fun u => .str (isoText u)),
    ("idempotent_replay", .null)]

/-- `response_model_exclude_none`. -/
def excludeNone : Json → Json
  | .obj fields => .obj (fields.filter fun f => match f.2 with
      | .null => false
      | _ => true)
  | j => j

/-- `{**stored_response, "idempotent_replay": True}`. -/
def replayOf (storedResponse : Json) : Json := storedResponse.set "idempotent_replay" (.bool true)

/-! ## Keys -/

/-- The SHA-256 of a text, in hexadecimal digits. -/
def computeRequestHash (rt : Runtime) (text : String) : String := Json.hex 64 (rt.sha256 text).toNat

/-- The hash that decides whether two bodies under one key are the same: that of the canonical JSON. -/
def computeRequestHashFromModel (rt : Runtime) (body : Json) : String :=
  computeRequestHash rt body.dumps

/-- The text of a hash tells the hash. -/
theorem computeRequestHash_inj {rt : Runtime} {text text' : String}
    (h : computeRequestHash rt text = computeRequestHash rt text') : rt.sha256 text = rt.sha256 text' := by
  have hmod := Json.hex_inj (congrArg String.toList h)
  have hlt := (rt.sha256 text).isLt
  have hlt' := (rt.sha256 text').isLt
  apply BitVec.eq_of_toNat_eq
  rwa [Nat.mod_eq_of_lt (by omega), Nat.mod_eq_of_lt (by omega)] at hmod

/-- The stored response of a key and whether its request hash is the given one. -/
def fetchStoredResponse (key tenantId requestHash : String) : Db (Option (Json × Bool)) := do
  let row ← perform (.select fun _ s => s.lookup (.idempotencyKeys tenantId key))
  match row with
  | none => pure none
  | some (row : IdempotencyKey) => pure (some (row.responseBody, row.requestHash = requestHash))

/-- The first look at a key, before admission and outside of the transaction. -/
def checkIdempotencyKey (key tenantId requestHash : String) : Db (Option (Json × Bool)) :=
  autocommit (fetchStoredResponse key tenantId requestHash)

/-- Claim a key: the insert waits for a transaction that has inserted the same key. -/
def reserveIdempotencyKey (key tenantId requestHash : String) : Db Bool := do
  let row ← insertRowIfAbsent (.idempotencyKeys tenantId key) fun now =>
    { requestHash := requestHash
      responseStatus := 0
      responseBody := .obj []
      createdAt := now }
  pure row.isSome

/-- `SET response_status = ..., response_body = ..., ticket_id = ...`. -/
def IdempotencyKey.finalized (responseStatus : ℕ) (responseBody : Json) (ticketId : UUID)
    (row : IdempotencyKey) : IdempotencyKey :=
  { row with
    responseStatus := responseStatus
    responseBody := responseBody
    ticketId := some ticketId }

/-- The reserved key gets the response that replays will give. -/
def finalizeIdempotencyKey (key tenantId : String) (responseStatus : ℕ) (responseBody : Json)
    (ticketId : UUID) : Db Unit := do
  let _ ← updateByKey (.idempotencyKeys tenantId key) (fun _ _ => true)
    fun _ row => row.finalized responseStatus responseBody ticketId

end Matchmaking
