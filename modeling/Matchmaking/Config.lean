import Matchmaking.ReadCommitted.Store

/-!
# Settings

The fields of `Settings` (`app/config.py`) that the modelled code reads, with its defaults.
-/

namespace Matchmaking

open ReadCommitted (Time)

/-- Time stamps count microseconds, the resolution of `TIMESTAMPTZ` and `datetime`. -/
def seconds (n : ℕ) : Time := n * 1000000

/-- A duration of at least a second takes time. -/
theorem seconds_pos {n : ℕ} (h : 0 < n) : (0 : ℤ) < seconds n := by
  unfold seconds
  omega

/-- The environment of the service, as far as the modelled code reads it. -/
structure Settings where
  matchmakingPartitions : ℕ := 128
  defaultTicketRateLimitPerMinute : ℕ := 300
  defaultMaxWaitingTickets : ℕ := 5000
  defaultMaxPartitionDepth : ℕ := 1000
  loadSheddingEnabled : Bool := true
  dbLatencyShedThresholdMs : ℕ := 200
  workerLeaseSeconds : ℕ := 15
  workerPartitionBatchSize : ℕ := 8
  workerTicketBatchSize : ℕ := 100
  workerLoopBudgetMs : ℕ := 2000
  workerMaxPairsPerLoop : ℕ := 20
  workerFreshnessBias : Bool := true
  workerElasticRebalanceEnabled : Bool := true
  workerHeartbeatSeconds : ℕ := 30
  matchSize : ℕ := 2
  skillDeltaInitial : ℤ := 100
  skillDeltaAfter30s : ℤ := 200
  skillDeltaAfter60s : ℤ := 400
  callbackBatchSize : ℕ := 50
  callbackTenantConcurrencyLimit : ℕ := 10
  callbackTimeoutSeconds : ℕ := 3
  callbackMaxAttempts : ℕ := 5
  callbackBaseBackoffSeconds : ℕ := 2
  callbackMaxBackoffSeconds : ℕ := 60
  callbackJitterSeconds : ℕ := 3
deriving DecidableEq

end Matchmaking
