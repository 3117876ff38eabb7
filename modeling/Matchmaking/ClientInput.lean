import Matchmaking.Api.RawBodies
import Matchmaking.DataIsolation

/-!
# Inputs that the database refuses

The request models take any integer and any Python string, the columns do not. What a request does that
is left alone: it ends in a documented answer exactly where the texts can be encoded and every value that
reaches the database fits its column.
-/

namespace Matchmaking

open ReadCommitted

/-! ## Documented answers -/

/-- The statuses that the endpoints for tickets and matches document. -/
def documentedStatuses : List ℕ := [200, 201, 404, 409, 429, 503]

/-- `INCR` replies at least one. -/
def CountsFromOne (answer : ℕ → (c : Call) → Reply c) : Prop :=
  ∀ n key, (1 : ℕ) ≤ answer n (.redisIncr key)

/-- The outcome is a documented answer. -/
def Documented (r : Except Exn Answer) : Prop :=
  ∃ response : Response, r = .ok (.response response) ∧ response.status ∈ documentedStatuses

/-- The values of a new ticket fit their columns. -/
structure FitsColumns (body : TicketCreate) (partitionId : ℕ) : Prop where
  playerId : (body.playerId.toList.any fun c => c.toNat = 0) = false
  region : (body.region.toList.any fun c => c.toNat = 0) = false
  queueName : (body.queueName.toList.any fun c => c.toNat = 0) = false
  skill : -2 ^ 31 ≤ body.skill ∧ body.skill < 2 ^ 31
  partitionId : -2 ^ 31 ≤ (partitionId : ℤ) ∧ (partitionId : ℤ) < 2 ^ 31

/-- The values of a new ticket can be encoded and fit their columns. -/
def RawTicketCreate.Fits (body : RawTicketCreate) (region queueName : String) (partitionId : ℕ) : Prop :=
  ∃ playerId, body.playerId.encode = some playerId ∧
    FitsColumns ⟨playerId, region, queueName, body.skill⟩ partitionId

section Insert

variable {rt : Runtime} {answer : ℕ → (c : Call) → Reply c} {i : ℕ} {l : Actor} {w : ServiceWorld}
  {T : Option (Txn Row)} {tenantId requestHash : String} {key : Option String} {body : TicketCreate}
  {partitionId : ℕ} {α : Type}

/-- The endpoint answers with a documented status. -/
def Response.Documented (r : Response) : Prop := r.status ∈ documentedStatuses

end Insert

/-! ## Admission -/

/-- The surroundings count a first request and show no delay. -/
structure Quiet (answer : ℕ → (c : Call) → Reply c) : Prop where
  first : ∀ n key, (answer n (.redisIncr key) : ℕ) = 1
  still : ∀ n n', (answer n' .perfCounter : ℤ) = answer n .perfCounter

/-- A check leaves the rows alone. It turns a request down with a documented answer, always where `c`
fails, and in quiet surroundings only there. -/
structure Screens (quiet c : Prop) (w : ServiceWorld) (d : Option Response) (w' : ServiceWorld)
    (T : Option (Txn Row)) : Prop where
  closed : T = none
  committed : w'.committed = w.committed
  documented : ∀ r, d = some r → r.Documented
  needed : d = none → c
  enough : quiet → c → d = none

section Admission

variable {rt : Runtime} {answer : ℕ → (c : Call) → Reply c} {i : ℕ} {l : Actor} {w : ServiceWorld}
  {settings : Settings} {tenantId : String} {tenant : Tenant} {partitionId : ℕ}

/-- A check that finds nothing to refuse lets the request through, and its condition holds. -/
theorem Screens.pass {quiet c : Prop} {w' : ServiceWorld} (hs : w'.committed = w.committed) (hc : c) :
    Screens quiet c w none w' none :=
  ⟨rfl, hs, fun _ h => (by cases h), fun _ => hc, fun _ _ => rfl⟩

/-- A check that refuses answers as documented; where nothing else interferes, its condition fails. -/
theorem Screens.refuse {quiet c : Prop} {w' : ServiceWorld} {r : Response} (hs : w'.committed = w.committed)
    (hr : r.Documented) (hno : quiet → ¬ c) : Screens quiet c w (some r) w' none :=
  ⟨rfl, hs, fun _ h => Option.some.inj h ▸ hr, fun h => (by cases h), fun hquiet hc => (hno hquiet hc).elim⟩

/-- A check whose outcome is decided by the rows. -/
theorem Screens.decided {quiet : Prop} {b : Bool} {w' : ServiceWorld} {r : Response}
    (hs : w'.committed = w.committed) (hr : r.Documented) :
    Screens quiet (b = true) w (if b then none else some r) w' none := by
  cases b with
  | true => exact .pass hs rfl
  | false => exact .refuse hs hr fun _ h => Bool.false_ne_true h

/-- Going over the rate limit or the quota is a documented 429. -/
theorem tenantRateLimitResponse_documented (tenantId : String) (n : ℤ) :
    (tenantRateLimitResponse tenantId n).Documented := by
  simp [Response.Documented, documentedStatuses, tenantRateLimitResponse]

/-- The rate limit refuses, in a quiet environment, only a tenant that may not create anything. -/
theorem checkRateLimit_gives (hcounts : CountsFromOne answer) : Client.Gives answer i l
    (checkRateLimit tenantId tenant) (Screens (Quiet answer) (1 ≤ tenant.maxTicketsPerSecond) w) w none := by
  refine .bind (.bind (.call_now (.pure (.bind (.call_now ?_)))))
  dsimp only
  split
  · rename_i hover
    refine .bind (.bind (.call_now (.pure (.pure (.refuse rfl (tenantRateLimitResponse_documented _ _) ?_)))))
    intro hquiet hrate
    rw [hquiet.first] at hover
    omega
  · rename_i hunder
    exact .pure (.pass rfl ((Int.ofNat_le.mpr (hcounts _ _)).trans (Int.not_lt.mp hunder)))

/-- One more check, whose rejections are counted. -/
theorem Screens.next {quiet c c' : Prop} {d : Option Response} {w' : ServiceWorld} {T : Option (Txn Row)}
    {m : Metric} {rest : Db (Option Response)} (h : Screens quiet c w d w' T)
    (hrest : Client.Gives answer i l rest (Screens quiet c' w') w' none) :
    Client.Gives answer i l (match d with
      | some rejection => do
        record m
        pure (some rejection)
      | none => rest) (Screens quiet (c ∧ c') w) w' T := by
  obtain ⟨rfl, hs, hdocumented, hneeded, henough⟩ := h
  cases d with
  | some rejection =>
    refine .bind (.emit (.pure (.refuse hs (hdocumented rejection rfl) fun hquiet hc => ?_)))
    cases henough hquiet hc.1
  | none =>
    refine hrest.mono fun d w'' T h => ?_
    exact ⟨h.closed, h.committed.trans hs, h.documented, fun hd => ⟨hneeded rfl, h.needed hd⟩,
      fun hquiet hc => h.enough hquiet hc.2⟩

end Admission

/-! ## Requests -/

section Requests

variable {rt : Runtime} {answer : ℕ → (c : Call) → Reply c} {i : ℕ} {l : Actor} {w : ServiceWorld}
  {settings : Settings} {tenantId requestHash : String} {tenant : Tenant} {key : Option String}
  {body : RawTicketCreate}

/-- The answers of the other endpoints are documented, for ids that are UUIDs. -/
theorem Serves.documented {now : Time} {s s' : Tables} {r : Except Exn Answer}
    (h : Serves rt tenantId now s l r s') (hid : ∀ text, l.namedId? = some text → (rt.uuidIn text).isSome = true) :
    Documented r := by
  cases h with
  | list => exact ⟨_, rfl, by simp [documentedStatuses]⟩
  | @get text id =>
    refine ⟨_, rfl, ?_⟩
    cases ownTicket? tenantId id s <;> simp [ticketAnswer, httpException, documentedStatuses]
  | @cancel text id =>
    refine ⟨_, rfl, ?_⟩
    cases cancellable? tenantId id s <;> simp [cancelAnswer, httpException, documentedStatuses]
  | @getMatch text id =>
    refine ⟨_, rfl, ?_⟩
    cases ownMatch? tenantId id s <;> simp [matchAnswer, httpException, documentedStatuses]
  | malformed hl hmalformed =>
    have hsome := hid _ hl
    rw [hmalformed] at hsome
    cases hsome

end Requests

/-! ## Quiet surroundings -/

end Matchmaking
