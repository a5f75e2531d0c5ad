import GumServer.Lts
import GumServer.Store

/-!
# The running service

Several parties work on one database: the webhook handlers, the reconciler, the outbox workers and
the operators, each on any number of replicas, each reading a row, asking somebody, and writing
later. Everything in flight is a `Task` that remembers what it has read; a step takes one task
through its next statement, its next call, or the commit of its next transaction.

A transaction commits in one step: its first write holds the row until then. What the code reads
before that write is a step of its own, so that anything may happen in between. A task may be
dropped anywhere (a crash, an error, a lost connection), an outbox job may be claimed again once
its lock has run out, and a statement may commit without its worker learning of it.

The engine is a map from idempotency keys to jobs: a key it knows is answered with the same job,
a new one with a new job. Whatever else it or the indexer says comes with the action.
-/

namespace GumServer

/-! ## Messages -/

/-- `IndexerWatch`. -/
structure IndexerWatch where
  id : Uuid
  chainId : U64
  paymentAddress : Address
  confirmedAmount : Option String

/-- `IndexerEvent`. -/
structure IndexerEvent where
  id : String
  eventType : String
  watch : IndexerWatch
  transfer : Option Value

/-- `WatchDetail`: what a poll of a watch answers. -/
structure WatchDetail where
  status : String
  confirmedAmount : Option String
deriving DecidableEq

/-- `confirmed`: an absent or malformed total counts as nothing. -/
def confirmedTotal (lib : Crates) (confirmedAmount : Option String) : U256 :=
  (confirmedAmount.bind lib.fromStrRadix).getD 0

/-- The event names the indexer's handler knows. -/
inductive IndexerEventKind : Type where
  | paymentPending | paymentConfirmed | paymentOrphaned | thresholdReached | watchExpired | other
deriving DecidableEq

/-- The kind of an event by its name. -/
def IndexerEventKind.ofStr (name : String) : IndexerEventKind :=
  if name = "payment.pending" then .paymentPending
  else if name = "payment.confirmed" then .paymentConfirmed
  else if name = "payment.orphaned" then .paymentOrphaned
  else if name = "threshold.reached" then .thresholdReached
  else if name = "watch.expired" then .watchExpired
  else .other

/-- The watch states the reconciler acts on. -/
inductive WatchStatus : Type where
  | completed | closed | active
deriving DecidableEq

/-- The state of a watch by its name. -/
def WatchStatus.ofStr (name : String) : WatchStatus :=
  if name = "completed" then .completed
  else if name = "expired" ∨ name = "cancelled" then .closed
  else .active

/-! ## What is in flight -/

/-- `OutboxJob`: a row as a worker claimed it. -/
structure OutboxJob where
  id : Uuid
  depositId : Uuid
  payload : Payload
  /-- when the row was queued, in microseconds -/
  createdAt : ℤ

/-- `Attempt`: how a job attempt ended. -/
inductive Attempt : Type where
  | done : Attempt
  | retry : String → Attempt
  | dead : String → Attempt

/-- Where a worker is with its job. -/
inductive Stage : Type where
  /-- nothing has been read yet -/
  | claimed : Stage
  /-- past its expiry: the expiry is about to be recorded -/
  | expiring (deposit : Deposit) : Stage
  /-- about to ask the indexer for a watch -/
  | registering (deposit : Deposit) : Stage
  /-- the watch is about to be recorded -/
  | registered (deposit : Deposit) (watch : Uuid) : Stage
  /-- the indexer refused: the failure is about to be recorded -/
  | refused (message : String) : Stage
  /-- about to submit to the engine -/
  | submitting (deposit : Deposit) (key : String) : Stage
  /-- the job is about to be recorded -/
  | submitted (deposit : Deposit) (job : Uuid) (replayed : Bool) : Stage
  /-- the engine refused: the failure is about to be recorded -/
  | rejected (deposit : Deposit) (message : String) : Stage
  /-- about to call the app -/
  | delivering : Stage
  /-- about to finalise the row -/
  | finishing (attempt : Attempt) : Stage
  /-- abandoned by its timeout: about to be rescheduled -/
  | rescheduling (error : String) : Stage

/-- A task in flight, with the rows it has read. -/
inductive Task : Type where
  /-- the indexer's handler, past its lookup; and past the `SELECT` of `apply_payment_orphaned` -/
  | indexer (event : IndexerEvent) (deposit : Deposit) (seen : Option Deposit) : Task
  /-- `apply_settlement` on a report about a job: of the engine's handler, which holds a claim on
  the event, or of the reconciler -/
  | settling (claim : Option String) (job : Uuid) (deposit : Deposit) (outcome : SettlementOutcome)
      (retries : Option ℕ) : Task
  /-- a stale open deposit, loaded -/
  | openStale (deposit : Deposit) (watch : Uuid) : Task
  /-- and its watch, polled -/
  | openPolled (deposit : Deposit) (watchId : Uuid) (watch : Option WatchDetail)
      (polledAt : String) : Task
  /-- a stale paid deposit, loaded -/
  | paidStale (deposit : Deposit) (job : Uuid) : Task
  /-- a paid deposit whose job the engine does not know -/
  | paidUnknown (deposit : Deposit) (job : Uuid) : Task
  /-- about to `touch` a row -/
  | touching (id : Uuid) : Task
  /-- an overdue deposit, about to be expired -/
  | overdue (id : Uuid) : Task
  /-- an outbox worker -/
  | worker (job : OutboxJob) (stage : Stage) : Task

/-- The configuration the tasks read. -/
structure Env where
  readers : Readers
  indexerConfigured : Bool
  engineConfigured : Bool
  openStaleSecs : ℤ
  paidStaleSecs : ℤ
  paidRepollSecs : ℤ
  lockTtlSecs : ℤ
  /-- `webhooks.max_age_secs` -/
  maxAgeSecs : ℤ

/-- What an upstream answers. -/
inductive Answer (α : Type) : Type where
  | ok : α → Answer α
  /-- 4xx: asking again will not help -/
  | rejected : String → Answer α
  /-- anything else: try again later -/
  | unavailable : String → Answer α

/-- What the engine does with a submission. -/
inductive Reply : Type where
  /-- it has a job for the key, and says so -/
  | accepted (job : Uuid) : Reply
  /-- it has a job for the key, and the answer is lost -/
  | lost (job : Uuid) (error : String) : Reply
  | rejected (message : String) : Reply
  | unavailable (message : String) : Reply

/-- What a task meets on its next step. -/
inductive Input : Type where
  /-- its statement goes through -/
  | go : Input
  /-- its statement fails, and nothing is written -/
  | failed (error : String) : Input
  /-- its statement is committed, and fails all the same for the task -/
  | unacknowledged (error : String) : Input
  /-- the time on its own clock, as it loads its deposit -/
  | load (now : DateTime) : Input
  | watch (answer : Answer Uuid) : Input
  | polledWatch (watch : Option WatchDetail) (polledAt : String) : Input
  | polledJob (job : Option Job) (polledAt : String) : Input
  | submit (reply : Reply) : Input
  /-- the app's webhook took the event, or not -/
  | deliver (error : Option String) : Input
  /-- the time on its own clock and the backoff, as it reschedules -/
  | schedule (now : DateTime) (delay : ℤ) : Input

/-! ## Writes -/

/-- A transaction: an inbound claim, a watch bound on sight, a transition. -/
structure Tx where
  claim : Option (Sender × String)
  bind : Option (Uuid × Uuid)
  op : Option (Op × Uuid)

/-- A transaction of one transition. -/
def Tx.of (op : Op) (id : Uuid) : Tx := ⟨none, none, some (op, id)⟩

/-- What one step commits. -/
inductive Write : Type where
  | nothing : Write
  | tx : Tx → Write
  | touch : Uuid → Write
  /-- `UPDATE outbox SET next_attempt_at`, with the backoff in microseconds -/
  | reschedule : Uuid → ℤ → String → Write
  /-- `mark_dead` -/
  | markDead : Uuid → String → Write
  /-- `DELETE FROM outbox` -/
  | delete : Uuid → Write

/-- The columns of a row put off by a backoff. -/
def OutboxRow.putOff (now : DateTime) (delay : ℤ) (error : String) (r : OutboxRow) : OutboxRow :=
  { r with
    nextAttemptAt := now.toMicros + delay
    lockedUntil := none
    lastError := some error }

/-- The columns of a row that is given up on. -/
def OutboxRow.kill (now : DateTime) (error : String) (r : OutboxRow) : OutboxRow :=
  { r with deadAt := some now.toMicros, lockedUntil := none, lastError := some error }

namespace Db

variable (db : Db) (now : DateTime) (mint : Mint)

/-- `claim_inbound`, committed. -/
def claimInbound (claim : Option (Sender × String)) : Db :=
  match claim with
  | none => db
  | some key => { db with inbound := db.inbound.put key now.toMicros }

/-- The watch id an event brings, on a row that has none. -/
def bindWatch (bind : Option (Uuid × Uuid)) : Db :=
  match bind with
  | none => db
  | some (id, watch) =>
    { db with deposits := db.deposits.modify id fun d =>
        if d.watchId.isNone then
          { d with watchId := some watch, watchRegisteredAt := d.watchRegisteredAt.or (some now) }
        else d }

/-- A transition, when there is one. -/
def applyOp (op : Option (Op × Uuid)) : Db :=
  match op with
  | none => db
  | some (op, id) => (db.apply now mint op.transition id).getD db

/-- Commit a transaction. -/
def transact (tx : Tx) : Db :=
  ((db.claimInbound now tx.claim).bindWatch now tx.bind).applyOp now mint tx.op

/-- Commit a write. -/
def write : Write → Db
  | .nothing => db
  | .tx tx => db.transact now mint tx
  | .touch id => { db with deposits := db.deposits.modify id fun d => { d with updatedAt := now } }
  | .reschedule row delay error =>
    { db with outbox := db.outbox.modify row (OutboxRow.putOff now delay error) }
  | .markDead row error => { db with outbox := db.outbox.modify row (OutboxRow.kill now error) }
  | .delete row => { db with outbox := db.outbox.erase row }

end Db

end GumServer
