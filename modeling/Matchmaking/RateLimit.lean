import Matchmaking.Refinement
import Matchmaking.ReadCommitted.Alone
import Mathlib.Data.List.Chain

/-!
# The rate limit of a minute

`check_rate_limit` counts the calls of a tenant in a Redis key for the minute in which the call was
made; every call sets the key to expire 60 seconds later. A key that expires while calls of its minute
are still on their way starts to count again. The limit holds exactly where that makes no difference.
-/

namespace Matchmaking

open ReadCommitted

/-! ## Redis -/

/-- Counters with the times at which they expire. -/
abbrev Redis := String → Option (ℕ × Time)

/-- The value of a key: a key is gone once its time has come. -/
def liveCount (entry : Option (ℕ × Time)) (now : Time) : ℕ :=
  entry.elim 0 fun (n, expiry) => if now < expiry then n else 0

/-- `INCR key` and `EXPIRE key 60` at once; the reply is the new value. -/
def Redis.incrExpire (redis : Redis) (key : String) (now : Time) : ℕ × Redis :=
  let n := liveCount (redis key) now + 1
  (n, fun k => if k = key then some (n, now + seconds 60) else redis k)

/-! ## Calls -/

/-- One call of `check_rate_limit`: who calls, when it reads the clock for its minute, when Redis carries
out its pipeline, and when it reads the clock again for `retry_after_seconds`. -/
structure RateCall where
  tenantId : String
  tenant : Tenant
  computedAt : Time
  executedAt : Time
  answeredAt : Time

namespace RateCall

variable (c : RateCall)

/-- What the surroundings reply, where Redis holds `redis`. -/
def answer (redis : Redis) (k : ℕ) : (x : Call) → Reply x
  | .wallClock => if k = 0 then c.computedAt else c.answeredAt
  | .redisIncr key => (redis.incrExpire key c.executedAt).1
  | x => quietAnswer k x

/-- What an event leaves in Redis. -/
def effect (redis : Redis) (e : LogEntry) : Redis :=
  match e.event with
  | .call (.redisIncr key) _ => (redis.incrExpire key c.executedAt).2
  | _ => redis

/-- Carry out `check_rate_limit`: what it returns (`none` lets the request pass) and leaves in Redis. -/
def check (redis : Redis) : Option Response × Redis :=
  let request : Actor := .createTicket {} (some c.tenantId) none ⟨"", "", "", 0⟩
  match Prog.alone (c.answer redis) 0 request (checkRateLimit c.tenantId c.tenant).run
      (⟨∅, 0, []⟩ : ServiceWorld) none with
  | some (.ok r, w, _) => (r, w.log.foldl c.effect redis)
  | _ => (none, redis)

/-- `int(time.time()) // 60`. -/
def minuteBucket : ℤ := c.computedAt / seconds 1 / 60

/-- `f"rate:\x7btenant_id\x7d:\x7bminute_bucket\x7d"`. -/
def key : String := "rate:" ++ c.tenantId ++ ":" ++ toString c.minuteBucket

/-- The answer to a call that is counted as number `n`. -/
def result (n : ℕ) : Option Response :=
  if c.tenant.maxTicketsPerSecond < n then
    some (tenantRateLimitResponse c.tenantId (max 1 (60 - c.answeredAt / seconds 1 % 60)))
  else none

/-- The check counts its key once, and answers by the count. -/
theorem checkRateLimit_gives (redis : Redis) (i : ℕ) (l : Actor) (s : Tables) (clock : Time) :
    Client.Gives (c.answer redis) i l (checkRateLimit c.tenantId c.tenant)
      (fun r w _ => r = c.result (redis.incrExpire c.key c.executedAt).1 ∧
        w.log.foldl c.effect redis = (redis.incrExpire c.key c.executedAt).2)
      (⟨s, clock, []⟩ : ServiceWorld) none := by
  -- the length of the log tells the first reading of the clock from the second
  refine .bind (.bind (.call_now (.pure (.bind (.call_now ?_)))))
  split
  · next hover => exact .bind (.bind (.call_now (.pure (.pure ⟨(if_pos hover).symm, rfl⟩))))
  · next hunder => exact .pure ⟨(if_neg hunder).symm, rfl⟩

theorem check_eq (redis : Redis) : c.check redis
    = (c.result (redis.incrExpire c.key c.executedAt).1, (redis.incrExpire c.key c.executedAt).2) := by
  obtain ⟨r, w, T, halone, rfl, heffect⟩ := c.checkRateLimit_gives redis 0
    (.createTicket {} (some c.tenantId) none ⟨"", "", "", 0⟩) ∅ 0
  unfold check
  dsimp only
  rw [halone, ← heffect]

end RateCall

/-- The results of calls, in the order in which Redis carries out their pipelines. -/
def serve (redis : Redis) : List RateCall → List (RateCall × Option Response)
  | [] => []
  | c :: calls => (c, (c.check redis).1) :: serve (c.check redis).2 calls

/-- The results of the calls `p`. -/
def resultsOf (p : RateCall → Bool) (calls : List RateCall) : List (RateCall × Option Response) :=
  (serve (fun _ => none) calls).filter fun r => p r.1

/-- The calls of a tenant for a minute. -/
def RateCall.isFor (tenantId : String) (m : ℤ) (c : RateCall) : Bool :=
  c.tenantId = tenantId && c.minuteBucket = m

/-- The number of a tenant's calls for a minute that pass. -/
def passed (tenantId : String) (m : ℤ) (calls : List RateCall) : ℕ :=
  (resultsOf (RateCall.isFor tenantId m) calls).countP fun r => r.2.isNone

/-- No more of a tenant's calls for a minute pass than its limit says, and other tenants' calls make no
difference. -/
structure RateLimitHolds (tenantId : String) (limit : ℤ) (calls : List RateCall) : Prop where
  atMost : ∀ m, (passed tenantId m calls : ℤ) ≤ max 0 limit
  isolated : resultsOf (fun c => c.tenantId = tenantId) calls
    = serve (fun _ => none) (calls.filter fun c => c.tenantId = tenantId)

/-- The key of the minute does not expire between two of these executions. -/
def KeptAlive (calls : List RateCall) : Prop :=
  calls.IsChain fun c c' => c'.executedAt < c.executedAt + seconds 60

/-! ## Keys -/

/-- The text of an integer has no colon. -/
theorem colon_notMem_toString (n : ℤ) : ':' ∉ (toString n).toList := by
  have hnat : ∀ n : ℕ, ':' ∉ n.repr.toList := by
    intro n h
    rw [Nat.toList_repr] at h
    exact absurd (Nat.isDigit_of_mem_toDigits (by decide) (by decide) h) (by decide)
  rw [Int.toString_eq_repr, Int.repr_eq_if]
  split
  · exact hnat _
  · rw [String.toList_append, List.mem_append]
    rintro (h | h)
    · exact absurd h (by decide)
    · exact hnat _ h

/-- What stands before the last colon, and after it. -/
theorem append_colon_inj {a a' b b' : List Char} (hb : ':' ∉ b) (hb' : ':' ∉ b')
    (h : a ++ ':' :: b = a' ++ ':' :: b') : a = a' ∧ b = b' := by
  obtain ⟨x, hx, hrest⟩ | ⟨x, hx, hrest⟩ := List.append_eq_append_iff.mp h
  · cases x with
    | nil => exact ⟨(List.append_nil a ▸ hx).symm, (List.cons.inj hrest).2⟩
    | cons y x =>
      obtain ⟨-, rfl⟩ := List.cons.inj hrest
      exact absurd (List.mem_append_right _ List.mem_cons_self) hb
  · cases x with
    | nil => exact ⟨List.append_nil a' ▸ hx, (List.cons.inj hrest).2.symm⟩
    | cons y x =>
      obtain ⟨-, rfl⟩ := List.cons.inj hrest
      exact absurd (List.mem_append_right _ List.mem_cons_self) hb'

/-- Keys of different tenants or minutes are different, whatever the tenants are called. -/
theorem RateCall.key_inj {c c' : RateCall} (h : c.key = c'.key) :
    c.tenantId = c'.tenantId ∧ c.minuteBucket = c'.minuteBucket := by
  have hlist := congrArg String.toList h
  simp only [key, String.toList_append, List.append_assoc] at hlist
  have hlist := List.append_cancel_left hlist
  have hcolon : ":".toList = [':'] := rfl
  rw [hcolon, List.singleton_append, List.singleton_append] at hlist
  obtain ⟨htenant, hbucket⟩ :=
    append_colon_inj (colon_notMem_toString _) (colon_notMem_toString _) hlist
  exact ⟨String.toList_inj.mp htenant, toString_int_inj hbucket⟩

/-! ## Calls that do not matter -/

/-- Calls depend on the keys that they use only. -/
theorem serve_filter {p : RateCall → Bool}
    (hp : ∀ c c', c.key = c'.key → p c = p c') (calls : List RateCall) {redis redis' : Redis}
    (h : ∀ c, p c = true → redis' c.key = redis c.key) :
    (serve redis calls).filter (fun r => p r.1) = serve redis' (calls.filter p) := by
  induction calls generalizing redis redis' with
  | nil => rfl
  | cons c calls ih =>
    cases hc : p c with
    | true =>
      rw [List.filter_cons_of_pos hc, serve,
        List.filter_cons_of_pos (p := fun r : RateCall × Option Response => p r.1) hc, serve]
      simp only [RateCall.check_eq, Redis.incrExpire, h c hc]
      refine congrArg _ (ih fun c' hc' => ?_)
      rw [h c' hc']
    | false =>
      have hc' : ¬ p c = true := by simp [hc]
      rw [List.filter_cons_of_neg hc', serve,
        List.filter_cons_of_neg (p := fun r : RateCall × Option Response => p r.1) hc']
      refine ih fun c' hp' => ?_
      rw [RateCall.check_eq]
      have hne : c'.key ≠ c.key := fun heq => by
        rw [hp c' c heq, hc] at hp'
        cases hp'
      show redis' c'.key = if c'.key = c.key then _ else redis c'.key
      rw [if_neg hne, h c' hp']

/-- The results of a selection of keys are those of the selected calls alone. -/
theorem resultsOf_eq {p : RateCall → Bool} (hp : ∀ c c', c.key = c'.key → p c = p c')
    (calls : List RateCall) : resultsOf p calls = serve (fun _ => none) (calls.filter p) :=
  serve_filter hp calls fun _ _ => rfl

/-! ## One key -/

/-- How many of the executions at these times pass, where `entry` is the key before. -/
def passes (limit : ℤ) (entry : Option (ℕ × Time)) : List Time → ℕ
  | [] => 0
  | now :: times =>
    let n := liveCount entry now + 1
    (if limit < n then 0 else 1) + passes limit (some (n, now + seconds 60)) times

/-- The calls of one key. -/
theorem countP_serve {limit : ℤ} {key : String} {calls : List RateCall}
    (hkey : ∀ c ∈ calls, c.key = key) (hlimit : ∀ c ∈ calls, c.tenant.maxTicketsPerSecond = limit)
    (redis : Redis) : (serve redis calls).countP (fun r => r.2.isNone)
      = passes limit (redis key) (calls.map RateCall.executedAt) := by
  induction calls generalizing redis with
  | nil => rfl
  | cons c calls ih =>
    have hc := hkey c List.mem_cons_self
    have hl := hlimit c List.mem_cons_self
    have hrest := ih (fun c' hc' => hkey c' (List.mem_cons_of_mem _ hc'))
      (fun c' hc' => hlimit c' (List.mem_cons_of_mem _ hc')) (c.check redis).2
    rw [serve, List.countP_cons, hrest, List.map_cons, passes, RateCall.check_eq]
    simp only [Redis.incrExpire, RateCall.result, hc, hl, if_true]
    rw [Nat.add_comm]
    refine congrArg (· + _) ?_
    by_cases hover : limit < ((liveCount (redis key) c.executedAt + 1 : ℕ) : ℤ)
    · rw [if_pos hover, if_pos hover]
      rfl
    · rw [if_neg hover, if_neg hover]
      rfl

section Passes

variable {L : ℕ} {n : ℕ} {expiry : Time} {times : List Time}

/-- While the key lives, calls pass until the limit is reached. -/
theorem passes_alive (h : (expiry :: times).IsChain fun t t' => t' < t + seconds 60) :
    passes L (some (n, expiry + seconds 60)) times + min n L = min (n + times.length) L := by
  induction times generalizing n expiry with
  | nil => rw [passes, List.length_nil, Nat.zero_add, Nat.add_zero]
  | cons now times ih =>
    obtain ⟨hlive, hrest⟩ := List.isChain_cons_cons.mp h
    have hih := ih (n := n + 1) hrest
    have hcount : liveCount (some (n, expiry + seconds 60)) now = n := if_pos hlive
    rw [passes, List.length_cons, hcount]
    split <;> omega

/-- In any case, that many pass. -/
theorem passes_ge (entry : Option (ℕ × Time)) (hn : ∀ now, liveCount entry now ≤ n) :
    min (n + times.length) L ≤ passes L entry times + min n L := by
  induction times generalizing n entry with
  | nil =>
    rw [passes, List.length_nil]
    omega
  | cons now times ih =>
    have hle := hn now
    have hih := ih (n := liveCount entry now + 1) (some (liveCount entry now + 1, now + seconds 60))
      fun now' => by
        unfold liveCount
        simp only [Option.elim_some]
        split
        · exact Nat.le_refl _
        · exact Nat.zero_le _
    rw [passes, List.length_cons]
    split <;> omega

/-- Where the key expires in between, and there are more calls than the limit allows, more pass. -/
theorem passes_gt (hL : 1 ≤ L) (hn : 1 ≤ n) (hmany : L < n + times.length)
    (h : ¬ (expiry :: times).IsChain fun t t' => t' < t + seconds 60) :
    L < passes L (some (n, expiry + seconds 60)) times + min n L := by
  induction times generalizing n expiry with
  | nil => exact absurd (.singleton _) h
  | cons now times ih =>
    rw [List.length_cons] at hmany
    by_cases hlive : now < expiry + seconds 60
    · have hrest : ¬ (now :: times).IsChain fun t t' => t' < t + seconds 60 := fun hc =>
        h (List.isChain_cons_cons.mpr ⟨hlive, hc⟩)
      have hih := ih (n := n + 1) (Nat.le_add_left _ _) (by omega) hrest
      have hcount : liveCount (some (n, expiry + seconds 60)) now = n := if_pos hlive
      rw [passes, hcount]
      split <;> omega
    · have hcount : liveCount (some (n, expiry + seconds 60)) now = 0 := if_neg hlive
      have hone : ∀ now', liveCount (some (1, now + seconds 60)) now' ≤ 1 := fun now' => by
        unfold liveCount
        simp only [Option.elim_some]
        split <;> omega
      have hge : min (1 + times.length) L ≤ passes L (some (1, now + seconds 60)) times + min 1 L :=
        passes_ge _ hone
      rw [passes, hcount, Nat.zero_add]
      split <;> omega

/-- The executions of a key that starts from nothing. -/
theorem passes_le_iff (limit : ℤ) (times : List Time) :
    (passes limit none times : ℤ) ≤ max 0 limit ↔ limit ≤ 0 ∨ (times.length : ℤ) ≤ limit ∨
      times.IsChain fun t t' => t' < t + seconds 60 := by
  by_cases hpos : limit ≤ 0
  -- without a limit above zero nothing passes
  · have hnone : ∀ entry, passes limit entry times = 0 := by
      induction times with
      | nil => exact fun _ => rfl
      | cons now times ih =>
        intro entry
        rw [passes, ih, if_pos (by omega)]
    simp [hnone, hpos]
  obtain ⟨L, rfl⟩ : ∃ L : ℕ, limit = L := ⟨limit.toNat, by omega⟩
  have hL : 1 ≤ L := by omega
  cases times with
  | nil => simp [passes]
  | cons now times =>
    -- the first execution passes, and starts the life of the key
    have hcount : passes L none (now :: times)
        = 1 + passes L (some (1, now + seconds 60)) times := by
      rw [passes]
      show (if ((L : ℕ) : ℤ) < ((0 + 1 : ℕ) : ℤ) then 0 else 1) + _ = _
      rw [if_neg (by omega)]
      rfl
    rw [hcount, List.length_cons]
    by_cases hchain : (now :: times).IsChain fun t t' => t' < t + seconds 60
    · have halive := passes_alive (L := L) (n := 1) hchain
      simp only [hchain, or_true, iff_true]
      omega
    · simp only [hchain, or_false]
      -- a gap of 60 seconds: it makes a difference only where there are more calls than may pass
      by_cases hmany : L < 1 + times.length
      · have hgt := passes_gt hL (le_refl 1) hmany hchain
        omega
      · have hfew : passes L (some (1, now + seconds 60)) times ≤ times.length := by
          have hle : ∀ (times : List Time) entry, passes L entry times ≤ times.length := by
            intro times
            induction times with
            | nil => exact fun _ => le_refl 0
            | cons now times ih =>
              intro entry
              have := ih (some (liveCount entry now + 1, now + seconds 60))
              rw [passes, List.length_cons]
              split <;> omega
          exact hle times _
        omega

end Passes

/-! ## Main result -/

/-- The key of a minute counts as it should if it lives from the first call to the last, or if it makes
no difference: no call may pass, or all may. -/
def CountsRight (tenantId : String) (limit m : ℤ) (calls : List RateCall) : Prop :=
  limit ≤ 0 ∨ ((calls.filter (RateCall.isFor tenantId m)).length : ℤ) ≤ limit ∨
    KeptAlive (calls.filter (RateCall.isFor tenantId m))

theorem RateCall.isFor_congr (tenantId : String) (m : ℤ) {c c' : RateCall} (h : c.key = c'.key) :
    c.isFor tenantId m = c'.isFor tenantId m := by
  obtain ⟨htenant, hbucket⟩ := RateCall.key_inj h
  rw [isFor, isFor, htenant, hbucket]

/-- The calls that pass, by the times of their executions. -/
theorem passed_eq {tenantId : String} {limit : ℤ} {calls : List RateCall}
    (hlimit : ∀ c ∈ calls, c.tenantId = tenantId → c.tenant.maxTicketsPerSecond = limit) (m : ℤ) :
    passed tenantId m calls
      = passes limit none ((calls.filter (RateCall.isFor tenantId m)).map RateCall.executedAt) := by
  have hfor : ∀ c ∈ calls.filter (RateCall.isFor tenantId m),
      c.tenantId = tenantId ∧ c.minuteBucket = m := fun c hc => by
    have := (List.mem_filter.mp hc).2
    simpa [RateCall.isFor] using this
  rw [passed, resultsOf_eq fun c c' => RateCall.isFor_congr tenantId m]
  have hkey : ∀ c ∈ calls.filter (RateCall.isFor tenantId m),
      c.key = "rate:" ++ tenantId ++ ":" ++ toString m := fun c hc => by
    rw [RateCall.key, (hfor c hc).1, (hfor c hc).2]
  exact countP_serve hkey
    (fun c hc => hlimit c (List.mem_of_mem_filter hc) (hfor c hc).1) fun _ => none

/-- **The rate limit of a minute** holds for a tenant, and other tenants' calls change none of its results,
exactly if the keys of all minutes count right. A key counts right if it lives from the first to the last of
its calls, or if so few are made, or may pass, that it makes no difference. -/
theorem rate_limit_holds_iff {tenantId : String} {limit : ℤ} {calls : List RateCall}
    (hlimit : ∀ c ∈ calls, c.tenantId = tenantId → c.tenant.maxTicketsPerSecond = limit) :
    RateLimitHolds tenantId limit calls ↔ ∀ m, CountsRight tenantId limit m calls := by
  have hisolated : resultsOf (fun c => c.tenantId = tenantId) calls
      = serve (fun _ => none) (calls.filter fun c => c.tenantId = tenantId) :=
    resultsOf_eq (fun c c' h => by rw [(RateCall.key_inj h).1]) calls
  have hcounts : ∀ m, (passed tenantId m calls : ℤ) ≤ max 0 limit ↔
      CountsRight tenantId limit m calls := by
    intro m
    rw [passed_eq hlimit, passes_le_iff, List.length_map, List.isChain_map RateCall.executedAt]
    exact Iff.rfl
  exact ⟨fun h m => (hcounts m).mp (h.atMost m), fun h => ⟨fun m => (hcounts m).mpr (h m), hisolated⟩⟩

/-- A tenant that may create one ticket a minute, and two calls in its first minute, the second at its
end; the pipeline of the second is carried out 50 seconds later. -/
def lateCalls : List RateCall :=
  let tenant : Tenant := { name := "studio_a", maxTicketsPerSecond := 1 }
  [⟨"studio_a", tenant, 0, 0, 0⟩,
    ⟨"studio_a", tenant, seconds 59, seconds 109, seconds 109⟩]

/-- Both calls pass. -/
theorem rate_limit_exceeded :
    (∀ c ∈ lateCalls, c.computedAt ≤ c.executedAt ∧ c.executedAt < c.computedAt + seconds 60) ∧
      lateCalls.Pairwise (fun c c' => c.executedAt ≤ c'.executedAt) ∧
      (∀ c ∈ lateCalls, c.tenant.maxTicketsPerSecond = 1) ∧
      ¬ RateLimitHolds "studio_a" 1 lateCalls := by
  refine ⟨by decide, by decide, by decide, fun h => ?_⟩
  have hpassed : passed "studio_a" 0 lateCalls = 2 := by decide +kernel
  have hatMost := h.atMost 0
  rw [hpassed] at hatMost
  exact absurd hatMost (by decide)

/-- With both pipelines carried out at once the key lives long enough. -/
theorem rate_limit_holds_iff_prompt :
    let calls := lateCalls.map fun c => { c with executedAt := c.computedAt }
    RateLimitHolds "studio_a" 1 calls ↔ ∀ m, CountsRight "studio_a" 1 m calls :=
  rate_limit_holds_iff (by decide)

end Matchmaking
