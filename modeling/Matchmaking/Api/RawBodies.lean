import Matchmaking.Api.Routes

/-!
# Request bodies as Python has them

A Python `str` is a list of code points, and a code point may be a surrogate on its own. The model
`TicketCreate` of `models/tickets.py` accepts such texts and `json.dumps` escapes them, but
`str.encode()` refuses them: in `compute_partition_id`, and in the driver. A body without them is a
`TicketCreate`, and `createTicketRaw` is then `createTicket`.
-/

namespace Matchmaking

open ReadCommitted

/-! ## Texts -/

/-- A code point: a character, or one of the surrogates from `U+D800` to `U+DFFF`. -/
inductive CodePoint
  | char (c : Char)
  | surrogate (n : Fin 2048)

/-- A Python `str`. -/
abbrev PyStr := List CodePoint

namespace CodePoint

/-- The character of a code point, if it is one; surrogates are not. -/
def char? : CodePoint → Option Char
  | .char c => some c
  | .surrogate _ => none

/-- One code point of a string literal, as `ensure_ascii` writes it. -/
def escape : CodePoint → String
  | .char c => Json.escape c
  | .surrogate n => "\\u" ++ Json.hex 4 (55296 + n)

end CodePoint

namespace PyStr

/-- A text without surrogates. -/
def ofString (text : String) : PyStr := text.toList.map .char

/-- `str.encode()`, which a surrogate makes raise; the bytes are given by the text they encode. -/
def encode (s : PyStr) : Option String := (s.mapM CodePoint.char?).map String.ofList

/-- `json.dumps` of a text, with everything beyond ASCII escaped, so that surrogates pass. -/
def quote (s : PyStr) : String := "\"" ++ String.join (s.map CodePoint.escape) ++ "\""

/-- A well-formed text is encoded as it is. -/
@[simp]
theorem encode_ofString (text : String) : (ofString text).encode = some text := by
  have hchars : ∀ cs : List Char, (cs.map CodePoint.char).mapM CodePoint.char? = some cs := by
    intro cs
    induction cs with
    | nil => rfl
    | cons c cs ih => rw [List.map_cons, List.mapM_cons, ih]; rfl
  rw [encode, ofString, hchars, Option.map_some, String.ofList_toList]

/-- Its JSON is that of the well-formed text. -/
@[simp]
theorem quote_ofString (text : String) : (ofString text).quote = Json.quote text := by
  rw [quote, ofString, List.map_map]
  rfl

end PyStr

/-! ## Bodies -/

/-- `TicketCreate`, as the request model accepts it: any `str` passes, also one that no encoding can
represent. -/
structure RawTicketCreate where
  playerId : PyStr
  region : PyStr
  queueName : PyStr
  skill : ℤ

/-- A body without surrogates, as one of those that the request model accepts. -/
def TicketCreate.raw (body : TicketCreate) : RawTicketCreate where
  playerId := .ofString body.playerId
  region := .ofString body.region
  queueName := .ofString body.queueName
  skill := body.skill

/-- `json.dumps` of the body's fields, with `sort_keys=True`; this is where a surrogate is still only
escaped. -/
def RawTicketCreate.dumps (body : RawTicketCreate) : String := "\x7b" ++
  (Json.quote "player_id" ++ ":" ++ body.playerId.quote ++ "," ++
    (Json.quote "queue_name" ++ ":" ++ body.queueName.quote) ++ "," ++
    (Json.quote "region" ++ ":" ++ body.region.quote) ++ "," ++
    (Json.quote "skill" ++ ":" ++ toString body.skill)) ++ "\x7d"

/-- A body of well-formed texts has the JSON that the canonical form gives. -/
theorem TicketCreate.dumps_raw (body : TicketCreate) : body.raw.dumps = body.modelDump.dumps := by
  rw [dumps_modelDump, RawTicketCreate.dumps]
  simp only [raw, PyStr.quote_ofString]

/-! ## Creating a ticket -/

/-- The exception of `str.encode()` for a text with a surrogate, which nothing in the handler catches. -/
def unicodeEncodeError : Exn := .other "'utf-8' codec can't encode character: surrogates not allowed"

/-- The statements from the insert on: the driver encodes the texts of the row. -/
def insertAndFinalizeRaw (tenantId : String) (key : Option String) (body : RawTicketCreate)
    (region queueName : String) (partitionId : ℕ) : Db Response :=
  match body.playerId.encode with
  | none => throw unicodeEncodeError
  | some playerId => insertAndFinalize tenantId key ⟨playerId, region, queueName, body.skill⟩ partitionId

/-- The transaction of `create_ticket`. The driver encodes the player when it sends the INSERT, so the key is
reserved before a surrogate is found there. -/
def createInTransactionRaw (tenantId : String) (key : Option String) (requestHash : String)
    (body : RawTicketCreate) (region queueName : String) (partitionId : ℕ) : Db Response :=
  match key with
  | none => insertAndFinalizeRaw tenantId none body region queueName partitionId
  | some key => do
    if ← reserveIdempotencyKey key tenantId requestHash then
      insertAndFinalizeRaw tenantId (some key) body region queueName partitionId
    else do
      match ← fetchStoredResponse key tenantId requestHash with
      | some (storedResponse, hashMatched) => pure (replayResponse storedResponse hashMatched)
      | none => pure idempotencyKeyConflict

/-- `create_ticket` after `compute_partition_id` has encoded the region and the queue. -/
def createEncoded (rt : Runtime) (settings : Settings) (tenantId : String) (tenant : Tenant)
    (key : Option String) (requestHash : String) (body : RawTicketCreate) (region queueName : String) :
    Db Response :=
  if settings.matchmakingPartitions = 0 then throw (.other "integer modulo by zero")
  else do
    let partitionId := computePartitionId rt tenantId region queueName settings.matchmakingPartitions
    match ← admission settings tenantId tenant partitionId with
    | some rejection => pure rejection
    | none =>
      match ← attempt (asyncTransaction
        (createInTransactionRaw tenantId key requestHash body region queueName partitionId)) with
      | .ok response => pure response
      | .error .uniqueViolation =>
        pure (httpException 409 "An active ticket already exists for this player in this queue")
      | .error e => throw e

/-- `create_ticket` after the first look at the key. Region and queue are encoded for the partition, before
admission. -/
def createNewTicketRaw (rt : Runtime) (settings : Settings) (tenantId : String) (tenant : Tenant)
    (key : Option String) (requestHash : String) (body : RawTicketCreate) : Db Response :=
  match body.region.encode, body.queueName.encode with
  | some region, some queueName =>
    createEncoded rt settings tenantId tenant key requestHash body region queueName
  | _, _ => throw unicodeEncodeError

/-- `create_ticket` on a body whose texts may hold surrogates: the key is looked up by the hash of the escaped
text, and only then are the texts encoded. -/
def createTicketRaw (rt : Runtime) (settings : Settings) (idempotencyKey : Option String)
    (body : RawTicketCreate) (tenantId : String) (tenant : Tenant) : Db Response :=
  match idempotencyKey with
  | none => createNewTicketRaw rt settings tenantId tenant none "" body
  | some key => do
    let requestHash := computeRequestHash rt body.dumps
    match ← checkIdempotencyKey key tenantId requestHash with
    | some (storedResponse, hashMatched) => pure (replayResponse storedResponse hashMatched)
    | none => createNewTicketRaw rt settings tenantId tenant (some key) requestHash body

/-! ## Bodies without surrogates -/

section Encoded

variable {rt : Runtime} {settings : Settings} {tenantId requestHash : String} {tenant : Tenant}
  {key : Option String} {partitionId : ℕ}

/-- Where the player can be encoded, the transaction is that of the encoded body. -/
theorem createInTransactionRaw_encoded {body : RawTicketCreate} {playerId region queueName : String}
    (hplayer : body.playerId.encode = some playerId) :
    createInTransactionRaw tenantId key requestHash body region queueName partitionId
      = createInTransaction tenantId key requestHash ⟨playerId, region, queueName, body.skill⟩
        partitionId := by
  have hinsert : ∀ key, insertAndFinalizeRaw tenantId key body region queueName partitionId
      = insertAndFinalize tenantId key ⟨playerId, region, queueName, body.skill⟩ partitionId := by
    intro key
    rw [insertAndFinalizeRaw, hplayer]
  cases key with
  | none => exact hinsert none
  | some key =>
    rw [createInTransactionRaw, hinsert]
    rfl

/-- Without surrogates nothing is refused, so the handler is that of well-formed bodies. -/
theorem createNewTicketRaw_raw (body : TicketCreate) :
    createNewTicketRaw rt settings tenantId tenant key requestHash body.raw
      = createNewTicket rt settings tenantId tenant key requestHash body := by
  have htransaction : ∀ partitionId,
      createInTransactionRaw tenantId key requestHash body.raw body.region body.queueName partitionId
        = createInTransaction tenantId key requestHash body partitionId := fun partitionId =>
    createInTransactionRaw_encoded (PyStr.encode_ofString body.playerId)
  have hregion : body.raw.region.encode = some body.region := PyStr.encode_ofString _
  have hqueue : body.raw.queueName.encode = some body.queueName := PyStr.encode_ofString _
  rw [createNewTicketRaw, hregion, hqueue]
  simp only [createEncoded, htransaction]
  rfl

/-- **Well-formed texts.** Of a body without surrogates `create_ticket` makes what it makes of the texts
that the body encodes. -/
theorem createTicketRaw_raw (body : TicketCreate) :
    createTicketRaw rt settings key body.raw tenantId tenant
      = createTicket rt settings key body tenantId tenant := by
  cases key with
  | none => exact createNewTicketRaw_raw body
  | some key =>
    simp only [createTicketRaw, createNewTicketRaw_raw, body.dumps_raw]
    rfl

end Encoded

end Matchmaking
