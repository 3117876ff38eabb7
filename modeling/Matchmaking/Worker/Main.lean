import Matchmaking.Worker.Leases
import Matchmaking.Worker.Matching

/-!
# The worker

`worker/main.py`: one iteration of the worker's loop, and its shutdown. Sleeping is left out: time may
pass between any two operations.
-/

namespace Matchmaking

open ReadCommitted

/-- A reservation lasts half as long as a lease, and five seconds at least. -/
def reservationSeconds (settings : Settings) : ℕ := max 5 (settings.workerLeaseSeconds / 2)

/-- The lease operations of one iteration, up to the commit: leases renewed, claimed and given
back. -/
def leaseOperations (settings : Settings) (workerId : String) (partitionOffset : ℕ) :
    Db (ℕ × ℕ × ℕ) := do
  recordWorkerHeartbeat workerId
  let renewed ← renewOwnedPartitions workerId settings.workerLeaseSeconds
  let newlyClaimed ← claimAvailablePartitions workerId settings.workerLeaseSeconds
    settings.workerPartitionBatchSize settings.matchmakingPartitions partitionOffset
  if settings.workerElasticRebalanceEnabled then do
    let activeWorkers ← countActiveWorkers settings.workerHeartbeatSeconds
    let fairCap := fairPartitionCap settings.matchmakingPartitions activeWorkers
    let released ← releaseExcessPartitions workerId fairCap
    pure (renewed, newlyClaimed.length, released)
  else pure (renewed, newlyClaimed.length, 0)

/-- The lease transaction of one iteration: the operations above and their COMMIT, with the numbers that are
counted. -/
def leaseTransaction (settings : Settings) (workerId : String) (partitionOffset : ℕ) :
    Db (ℕ × ℕ × ℕ) := do
  let counts ← leaseOperations settings workerId partitionOffset
  perform .commit
  pure counts

/-- The loop over the pairs: how many matches it made, how many pairs it took up, and whether it ran
out of its time budget. -/
def processPairs (settings : Settings) (workerId : String) (loopStart : Time) :
    List (WaitingTicket × WaitingTicket) → ℕ → ℕ → Db (ℕ × ℕ × Bool)
  | [], matchesCreated, processedPairs => pure (matchesCreated, processedPairs, false)
  | (first, second) :: pairs, matchesCreated, processedPairs =>
    if settings.workerMaxPairsPerLoop ≤ matchesCreated then
      pure (matchesCreated, processedPairs, false)
    else do
      let now ← ask .perfCounter
      if settings.workerLoopBudgetMs * 1000 ≤ now - loopStart then
        pure (matchesCreated, processedPairs, true)
      else do
        match ← attempt (createMatchFromPair first second workerId
          (reservationSeconds settings)) with
        | .error e =>
          if e.isException then do
            record .recordMatchFailure
            record .recordRollback
            perform .rollback
            processPairs settings workerId loopStart pairs matchesCreated (processedPairs + 1)
          else throw e
        | .ok true => do
          record .recordMatch
          perform .commit
          processPairs settings workerId loopStart pairs (matchesCreated + 1) (processedPairs + 1)
        | .ok false => do
          record .recordMatchFailure
          record .recordRollback
          perform .rollback
          processPairs settings workerId loopStart pairs matchesCreated (processedPairs + 1)

/-- What an iteration does once it holds its leases: expired reservations are cleaned up and committed,
tickets are fetched and paired, and the pairs become matches. -/
def matchTickets (settings : Settings) (workerId : String) (loopStart : Time) : Db Unit := do
  let expired ← cleanupExpiredReservations
  record (.recordReservationsExpired expired)
  perform .commit
  let ownedPartitions ← listOwnedPartitions workerId
  record (.recordOwnedPartitions ownedPartitions.length)
  let tickets ← fetchWaitingTickets ownedPartitions settings.workerTicketBatchSize
    settings.workerFreshnessBias none
  let pairs ← findPairs tickets settings
  let (matchesCreated, processedPairs, budgetExceeded) ←
    processPairs settings workerId loopStart pairs 0 0
  record (.recordLoopStats tickets.length pairs.length matchesCreated
    (pairs.length - processedPairs) budgetExceeded)

/-- One iteration of `run_loop`. The connection is held over both transactions, the one on leases and those of
the matches. -/
def runLoop (settings : Settings) (workerId : String) (partitionOffset : ℕ) : Db Unit := do
  let loopStart ← ask .perfCounter
  withConnection do
    match ← attempt (leaseTransaction settings workerId partitionOffset) with
    | .error e =>
      if e.isException then do
        perform .rollback
        record .recordLeaseClaimFailure
        throw e
      else throw e
    | .ok (renewed, newlyClaimed, released) => do
      record (.recordLeasesRenewed renewed)
      record (.recordLeasesClaimed newlyClaimed)
      record (.recordPartitionsReleased released)
      matchTickets settings workerId loopStart

/-- The database part of `shutdown_worker`; its exceptions are only logged. -/
def shutdownWorker (workerId : String) : Db Unit := do
  match ← attempt (withConnection do
    let _ ← releaseOwnedPartitions workerId
    removeWorkerHeartbeat workerId
    perform .commit) with
  | .ok () => pure ()
  | .error e => if e.isException then pure () else throw e

end Matchmaking
