import GumServer.World

/-!
# Steps of the service

What each task does next (`Task.next`), and what can happen to the service as a whole (`step`).
The decisions are the source's: `reconciler.rs`, `webhooks/inbound.rs` and `outbox/mod.rs`, in
terms of what the task has read and of what it meets. A step of a task is the write it commits,
the engine afterwards, and the task that is left.
-/

namespace GumServer

/-- The jobs the engine has, by idempotency key. -/
abbrev Engine : Type := KeyMap String Uuid

/-! ## Handlers and the reconciler -/

/-- The transition an indexer event asks for, with the row that was read for it. -/
def indexerOp (lib : Crates) (event : IndexerEvent) (seen : Option Deposit) : Option Op :=
  let confirmed := confirmedTotal lib event.watch.confirmedAmount
  let data : Value := .object [
    ("indexer_event_id", .string event.id),
    ("transfer", event.transfer.getD .null),
    ("confirmed_amount", .string (toString confirmed.val))]
  match IndexerEventKind.ofStr event.eventType with
  | .paymentPending => some (.applyPaymentPending data)
  | .paymentConfirmed => some (.applyPaymentConfirmed confirmed data)
  | .paymentOrphaned => some (.applyPaymentOrphaned data seen)
  | .thresholdReached => some (.applyThresholdReached confirmed data)
  | .watchExpired => some (.applyExpired data)
  | .other => none

/-- The transaction of the indexer's handler. -/
def indexerTx (lib : Crates) (event : IndexerEvent) (deposit : Deposit) (seen : Option Deposit) :
    Tx where
  claim := some (.indexer, event.id)
  bind := if deposit.watchId.isNone && seen.isNone then some (deposit.id, event.watch.id) else none
  op := (indexerOp lib event seen).map fun op => (op, deposit.id)

/-- The row that `apply_payment_orphaned` reads before it holds it: the only transition that is no
update of its row. A handler that has just bound the row's watch holds it already. -/
def orphanedRow (db : Db) (event : IndexerEvent) (deposit : Deposit) : Option Deposit :=
  if IndexerEventKind.ofStr event.eventType = .paymentOrphaned then
    (db.deposits.get? deposit.id).filter fun d => deposit.watchId.isSome || d.watchId.isSome
  else none

/-- The retries of a deposit: `count(*)` of its `settlement_retried` events. -/
def Db.retries (db : Db) (id : Uuid) : ℕ :=
  db.events.countP fun e => decide (e.depositId = id) && decide (e.eventType = .settlementRetried)

/-- The transition `apply_settlement` ends in, with the retries counted when it counts them. -/
def settlementOp (outcome : SettlementOutcome) (retries : ℕ) : Option Op :=
  match outcome with
  | .included txHash blockNumber data => some (.applySettlementIncluded txHash blockNumber data)
  | .settled txHash blockNumber data => some (.applySettled txHash blockNumber data)
  | .failed code message txHash revertData data =>
    if outcome.isRetryable && decide (retries < SettlementOutcome.MAX_AUTO_RETRIES) then
      some (.resubmit (.object [
        ("automatic", .bool true), ("reason", .string code), ("detail", .string message)]))
    else some (.applyFailed code message txHash revertData data)
  | .pending => none

/-- The transition a polled watch asks for, compared with the row as it was loaded. -/
def openOp (lib : Crates) (deposit : Deposit) (watchId : Uuid) (watch : WatchDetail)
    (polledAt : String) : Option Op :=
  let confirmed := confirmedTotal lib watch.confirmedAmount
  let ours := (lib.fromStrRadix deposit.confirmedAmount).getD 0
  let data : Value := .object [
    ("watch_id", .string watchId.text),
    ("polled_at", .string polledAt),
    ("watch_status", .string watch.status),
    ("confirmed_amount", .string (toString confirmed.val)),
    ("source", .string "reconciler")]
  match WatchStatus.ofStr watch.status with
  | .completed => some (.applyThresholdReached confirmed data)
  | .closed => some (.applyExpired data)
  | .active => if confirmed > ours then some (.applyPaymentConfirmed confirmed data) else none

/-- Whether a transition would hit its row. -/
def Db.applies (db : Db) (op : Option Op) (id : Uuid) : Bool :=
  match op, db.deposits.get? id with
  | some op, some d => op.transition.guard d
  | _, _ => false

/-- The reason of a resubmission for a job the engine does not know. -/
def unknownJobData : Value :=
  .object [("automatic", .bool true), ("reason", .string "engine_job_unknown")]

/-! ## Workers -/

/-- Whether one time is not after another. -/
def DateTime.notAfter (a b : DateTime) : Bool :=
  decide (a.secs < b.secs) || (decide (a.secs = b.secs) && decide (a.nanos ≤ b.nanos))

namespace Worker

/-- The reads at the head of `register_watch`. -/
def loadRegister (env : Env) (now : DateTime) : Option Deposit → Stage
  | none => .finishing (.dead "deposit no longer exists")
  | some d =>
    if d.watchId.isSome || d.status.isTerminal then .finishing .done
    else if d.expiresAt.notAfter now then .expiring d
    else if env.indexerConfigured then .registering d
    else .finishing (.retry "indexer is not configured")

/-- The reads at the head of `submit_execute`. -/
def loadSubmit (env : Env) (key : Option String) : Option Deposit → Stage
  | none => .finishing (.dead "deposit no longer exists")
  | some d =>
    if d.status ≠ .paid then .finishing .done
    else if d.engineJobId.isSome then .finishing .done
    else if env.engineConfigured then
      .submitting d (key.getD ("deposit:" ++ d.id.text ++ ":execute"))
    else .finishing (.retry "engine is not configured")

/-- The reads at the head of `notify_app`: the owner's secret. -/
def loadNotify (db : Db) : Option Deposit → Stage
  | none => .finishing (.dead "deposit owner not found")
  | some d =>
    if (db.users.get? d.userId).isSome then .delivering
    else .finishing (.dead "deposit owner not found")

/-- The reads a job starts with. -/
def load (env : Env) (db : Db) (now : DateTime) (job : OutboxJob) : Stage :=
  match job.payload with
  | .registerWatch => loadRegister env now (db.deposits.get? job.depositId)
  | .submitExecute key => loadSubmit env key (db.deposits.get? job.depositId)
  | .notifyApp _ _ _ => loadNotify db (db.deposits.get? job.depositId)

/-- The transaction a worker is about to commit, and how its attempt ends if it does. -/
def statement (job : OutboxJob) : Stage → Option (Op × Uuid × Attempt)
  | .expiring d => some (.applyExpired (.object
      [("reason", .string "expired before the watch was registered")]), d.id, .done)
  | .registered d watch => some (.markWatchRegistered watch, d.id, .done)
  | .refused message => some (.failOpen "watch_rejected" message, job.depositId, .dead message)
  | .submitted d engineJob replayed => some (.markEngineSubmitted engineJob replayed, d.id, .done)
  | .rejected d message => some (.applyFailed "engine_rejected" message none none
      (.object [("error", .string message)]), d.id, .dead message)
  | _ => none

/-- The indexer's answer to a registration. -/
def answerWatch (d : Deposit) : Answer Uuid → Stage
  | .ok watch => .registered d watch
  | .rejected message => .refused message
  | .unavailable message => .finishing (.retry message)

/-- The engine's answer to a submission. -/
def answerSubmit (engine : Engine) (d : Deposit) (key : String) : Reply → Stage
  | .accepted job => .submitted d job (engine.get? key).isSome
  | .lost _ error => .finishing (.retry error)
  | .rejected message => .rejected d message
  | .unavailable message => .finishing (.retry message)

/-- The engine after a submission. A key it knows stands for its job; a new key gets a job that
no other key has. -/
def submit (engine : Engine) (key : String) : Reply → Option Engine
  | .accepted job | .lost job _ =>
    match engine.get? key with
    | some known => if known = job then some engine else none
    | none => if job ∈ engine.values then none else some (engine.put key job)
  | .rejected _ | .unavailable _ => some engine

/-- `retry_later`, by `schedule`: only a notification is ever given up on. -/
def retryLater (env : Env) (job : OutboxJob) (now : DateTime) (delay : ℤ) (error : String) :
    Write :=
  let age := (now.toMicros - job.createdAt).tdiv 1000000
  if job.payload.kind = .notifyApp ∧ age > env.maxAgeSecs then .markDead job.id error
  else .reschedule job.id delay error

/-- The last statement of a job. -/
def finalise (env : Env) (job : OutboxJob) : Attempt → Input → Option Write
  | .done, .go => some (.delete job.id)
  | .dead error, .go => some (.markDead job.id error)
  | .retry error, .schedule now delay => some (retryLater env job now delay error)
  | _, _ => none

/-- The commit of the transaction a worker is at, if it is at one. -/
def settle (engine : Engine) (job : OutboxJob) (stage : Stage) (input : Input) :
    Option (Write × Engine × Option Stage) :=
  match statement job stage, input with
  | some (op, id, attempt), .go => some (.tx (.of op id), engine, some (.finishing attempt))
  | some _, .failed error => some (.nothing, engine, some (.finishing (.retry error)))
  | some (op, id, _), .unacknowledged error =>
    some (.tx (.of op id), engine, some (.finishing (.retry error)))
  | _, _ => none

/-- A worker's next step. -/
def next (env : Env) (db : Db) (engine : Engine) (job : OutboxJob) (stage : Stage) (input : Input) :
    Option (Write × Engine × Option Stage) :=
  match stage, input with
  | .claimed, .load now => some (.nothing, engine, some (load env db now job))
  | .claimed, .failed error => some (.nothing, engine, some (.finishing (.retry error)))
  | .registering d, .watch answer => some (.nothing, engine, some (answerWatch d answer))
  | .submitting d key, .submit reply =>
    (submit engine key reply).map fun engine' =>
      (.nothing, engine', some (answerSubmit engine d key reply))
  | .delivering, .deliver none => some (.nothing, engine, some (.finishing .done))
  | .delivering, .deliver (some error) =>
    some (.nothing, engine, some (.finishing (.retry error)))
  | .finishing attempt, input =>
    (finalise env job attempt input).map fun write => (write, engine, none)
  | .rescheduling error, .schedule now delay =>
    some (retryLater env job now delay error, engine, none)
  | stage, input => settle engine job stage input

end Worker

/-! ## Tasks -/

/-- A task's next step: what it commits, the engine afterwards, and the task that is left. -/
def Task.next (env : Env) (db : Db) (engine : Engine) (task : Task) (input : Input) :
    Option (Write × Engine × Option Task) :=
  match task, input with
  | .indexer event d none, .go =>
    match orphanedRow db event d with
    | some row => some (.nothing, engine, some (.indexer event d (some row)))
    | none => some (.tx (indexerTx env.readers.lib event d none), engine, none)
  | .indexer event d (some seen), .go =>
    some (.tx (indexerTx env.readers.lib event d (some seen)), engine, none)
  | .settling claim job d outcome retries, .go =>
    if outcome.isRetryable && retries.isNone then
      -- the retries are counted before the row is updated
      some (.nothing, engine, some (.settling claim job d outcome (some (db.retries d.id))))
    else
      some (.tx ⟨claim.map fun id => (.engine, id), none,
        (settlementOp outcome (retries.getD 0)).map fun op => (op, d.id)⟩, engine, none)
  | .openStale d watchId, .polledWatch watch polledAt =>
    some (.nothing, engine, some (.openPolled d watchId watch polledAt))
  | .openPolled d _ none _, .go => some (.tx (.of .reregisterWatch d.id), engine, none)
  | .openPolled d watchId (some watch) polledAt, .go =>
    let op := openOp env.readers.lib d watchId watch polledAt
    some (.tx ⟨none, none, op.map fun op => (op, d.id)⟩, engine,
      if db.applies op d.id then none else some (.touching d.id))
  | .paidStale d job, .polledJob none _ => some (.nothing, engine, some (.paidUnknown d job))
  | .paidStale d job, .polledJob (some polled) polledAt =>
    some (.nothing, engine, some
      (match SettlementOutcome.fromJob env.readers job polled polledAt d with
      | some outcome => .settling none job d outcome none
      | none => .touching d.id))
  | .paidUnknown d _, .go => some (.tx (.of (.resubmit unknownJobData) d.id), engine, none)
  | .touching id, .go => some (.touch id, engine, none)
  | .overdue id, .go => some (.tx (.of (.applyExpired (.object
      [("reason", .string "expiry passed without threshold")])) id), engine, none)
  | .worker job stage, input =>
    (Worker.next env db engine job stage input).map fun (write, engine', stage') =>
      (write, engine', stage'.map (.worker job))
  | _, _ => none

/-! ## The service -/

/-- The state of the service and of the engine behind it. -/
structure World where
  /-- the database's clock -/
  clock : DateTime
  db : Db
  /-- every id minted so far -/
  minted : List Uuid
  engine : Engine
  /-- what is in flight, by a name for it -/
  tasks : KeyMap ℕ Task

/-- What can happen. -/
inductive Action : Type where
  /-- time passes -/
  | tick (now : DateTime) : Action
  /-- a user signs up, or changes the default webhook -/
  | setUser (user : String) (url : Option String) : Action
  /-- `create_deposit`, committed -/
  | create (new : NewDeposit) (user : String) (id : Uuid) (mint : Mint) : Action
  /-- the indexer delivers an event, and its handler looks the deposit up -/
  | indexerEvent (task : ℕ) (event : IndexerEvent) (found : Option Uuid) : Action
  /-- the engine delivers an event, and its handler looks the deposit up -/
  | engineEvent (task : ℕ) (event : EngineEvent) (found : Option Uuid) : Action
  /-- the reconciler loads a stale open deposit -/
  | staleOpen (task : ℕ) (id : Uuid) : Action
  /-- the reconciler loads a stale paid deposit -/
  | stalePaid (task : ℕ) (id : Uuid) : Action
  /-- the reconciler selects an overdue deposit -/
  | overdue (task : ℕ) (id : Uuid) : Action
  /-- a worker claims an outbox row -/
  | claim (task : ℕ) (row : Uuid) : Action
  /-- a task goes on -/
  | advance (task : ℕ) (input : Input) (mint : Mint) : Action
  /-- a task ends where it is -/
  | drop (task : ℕ) : Action
  /-- a worker's timeout strikes; a statement it has sent may still go through -/
  | abandon (task rescheduler : ℕ) (error : String) : Action
  /-- an operator retries a settlement -/
  | retrySettlement (id : Uuid) (mint : Mint) : Action
  /-- an operator requeues an outbox row -/
  | requeue (row : Uuid) : Action
  /-- old inbound ids are pruned -/
  | prune : Action

namespace World

variable (w : World)

/-- Whether the ids have never been minted, and differ. -/
def fresh (ids : List Uuid) : Bool := decide ids.Nodup && ids.all fun id => !w.minted.contains id

/-- Whether a task name is free. -/
def free (task : ℕ) : Bool := (w.tasks.get? task).isNone

/-- Start a task. -/
def start (name : ℕ) (task : Task) : World := { w with tasks := w.tasks.put name task }

/-- Whether an inbound id is committed or held by a handler. -/
def claimed (sender : Sender) (id : String) : Bool :=
  (w.db.inbound.get? (sender, id)).isSome || w.tasks.values.any fun
    | .indexer event _ _ => decide (sender = .indexer) && decide (event.id = id)
    | .settling (some held) _ _ _ _ => decide (sender = .engine) && decide (held = id)
    | _ => false

/-- Whether a deposit is the one an indexer event is about: `get_by_watch`, else
`get_by_payment_address`. -/
def matchesWatch (watch : IndexerWatch) (d : Deposit) : Bool :=
  if w.db.deposits.rows.any fun d => d.watchId == some watch.id then d.watchId == some watch.id
  else d.chainId == watch.chainId.toI64 && d.paymentAddress == watch.paymentAddress.lowerHex

/-- `now() - make_interval(secs => secs)`, in microseconds. -/
def ago (secs : ℤ) : ℤ := w.clock.toMicros - secs * 1000000

/-- The `WHERE` clause of `stale_open`. -/
def isStaleOpen (env : Env) (d : Deposit) : Bool :=
  d.status.isOpen && decide (d.updatedAt.toMicros < w.ago env.openStaleSecs)

/-- The `WHERE` clause of `stale_paid`. -/
def isStalePaid (env : Env) (d : Deposit) : Bool :=
  d.status == .paid &&
  decide ((d.engineSubmittedAt.getD d.updatedAt).toMicros < w.ago env.paidStaleSecs) &&
  decide (d.updatedAt.toMicros < w.ago env.paidRepollSecs)

/-- `EXPIRY_GRACE_SECS`. -/
def EXPIRY_GRACE_SECS : ℤ := 86400

/-- The `WHERE` clause of `expire_overdue`. -/
def isOverdue (d : Deposit) : Bool :=
  d.status.isOpen && decide (d.expiresAt.toMicros < w.ago EXPIRY_GRACE_SECS)

/-- The `WHERE` clause of `claim`: due, unlocked, and the first of its deposit and kind. -/
def isDue (row : OutboxRow) : Bool :=
  row.deadAt.isNone && decide (row.nextAttemptAt ≤ w.clock.toMicros) &&
  row.lockedUntil.all (fun t => decide (t < w.clock.toMicros)) &&
  !w.db.outbox.rows.any fun p => decide (p.depositId = row.depositId) &&
    decide (p.payload.kind = row.payload.kind) && decide (p.id < row.id) && p.deadAt.isNone

/-- The columns `claim` sets. -/
def lock (env : Env) (row : OutboxRow) : OutboxRow :=
  { row with
    attempts := row.attempts + 1
    lockedUntil := some (w.clock.toMicros + env.lockTtlSecs * 1000000) }

/-- The job `claim` returns. -/
def jobOf (row : OutboxRow) : OutboxJob := ⟨row.id, row.depositId, row.payload, row.createdAt⟩

/-- The rest of `create_deposit`: the row, its first event, and the job that registers the watch. -/
def created (d : Deposit) (mint : Mint) : Db :=
  (({ w.db with deposits := w.db.deposits.put d }).recordEvent w.clock mint d .created
    (.object []) d).enqueue w.clock mint.job d.id .registerWatch

/-- Whether the table takes a new row: its owner exists, and its address is nobody else's. -/
def insertable (d : Deposit) : Bool :=
  (w.db.users.get? d.userId).isSome && !w.db.deposits.rows.any fun other =>
    decide (other.chainId = d.chainId) && decide (other.paymentAddress = d.paymentAddress)

/-- The columns `admin_requeue` sets. -/
def requeued (row : OutboxRow) : OutboxRow :=
  { row with
    deadAt := none
    nextAttemptAt := w.clock.toMicros
    lockedUntil := none
    createdAt := w.clock.toMicros }

/-- The world after a task's step. -/
def after (name : ℕ) (mint : Mint) (write : Write) (engine : Engine) (task : Option Task) : World where
  clock := w.clock
  db := w.db.write w.clock mint write
  minted := mint.ids ++ w.minted
  engine := engine
  tasks := match task with
    | some task => w.tasks.put name task
    | none => w.tasks.erase name

end World

/-- Take the rest only when a check passes. -/
def require (ok : Bool) (w : World) : Option World := if ok then some w else none

/-- **One step of the service.** -/
def step (env : Env) (w : World) : Action → Option World
  | .tick now => require (decide (w.clock.toMicros ≤ now.toMicros)) { w with clock := now }
  | .setUser user url => some { w with db := { w.db with users := w.db.users.put user url } }
  | .create new user id mint =>
    (insertDeposit new id user w.clock).bind fun d =>
      require (w.fresh (id :: mint.ids) && w.insertable d)
        { w with db := w.created d mint, minted := id :: mint.ids ++ w.minted }
  | .indexerEvent task event none =>
    require (w.free task && !w.claimed .indexer event.id &&
        !w.db.deposits.rows.any (w.matchesWatch event.watch))
      { w with db := w.db.claimInbound w.clock (some (.indexer, event.id)) }
  | .indexerEvent task event (some id) =>
    (w.db.deposits.get? id).bind fun d =>
      require (w.free task && !w.claimed .indexer event.id && w.matchesWatch event.watch d)
        (w.start task (.indexer event d none))
  | .engineEvent task event none =>
    require (w.free task && !w.claimed .engine event.eventId &&
        !w.db.deposits.rows.any fun d => d.engineJobId == some event.jobId)
      { w with db := w.db.claimInbound w.clock (some (.engine, event.eventId)) }
  | .engineEvent task event (some id) =>
    (w.db.deposits.get? id).bind fun d =>
      require (w.free task && !w.claimed .engine event.eventId &&
          d.engineJobId == some event.jobId)
        (w.start task (.settling (some event.eventId) event.jobId d
          (SettlementOutcome.fromEvent env.readers event d) none))
  | .staleOpen task id =>
    (w.db.deposits.get? id).bind fun d => d.watchId.bind fun watch =>
      require (w.free task && env.indexerConfigured && w.isStaleOpen env d)
        (w.start task (.openStale d watch))
  | .stalePaid task id =>
    (w.db.deposits.get? id).bind fun d => d.engineJobId.bind fun job =>
      require (w.free task && env.engineConfigured && w.isStalePaid env d)
        (w.start task (.paidStale d job))
  | .overdue task id =>
    (w.db.deposits.get? id).bind fun d =>
      require (w.free task && w.isOverdue d) (w.start task (.overdue d.id))
  | .claim task row =>
    (w.db.outbox.get? row).bind fun r =>
      require (w.free task && w.isDue r)
        { w.start task (.worker (World.jobOf r) .claimed) with
          db := { w.db with outbox := w.db.outbox.put (w.lock env r) } }
  | .advance task input mint =>
    (w.tasks.get? task).bind fun t => (t.next env w.db w.engine input).bind fun n =>
      require (w.fresh mint.ids) (w.after task mint n.1 n.2.1 n.2.2)
  | .drop task => some { w with tasks := w.tasks.erase task }
  | .abandon task rescheduler error =>
    match w.tasks.get? task with
    | some (.worker job _) =>
      require (w.free rescheduler) (w.start rescheduler (.worker job (.rescheduling error)))
    | _ => none
  | .retrySettlement id mint =>
    require (w.fresh mint.ids)
      { w with
        db := w.db.transact w.clock mint (.of .retrySettlement id)
        minted := mint.ids ++ w.minted }
  | .requeue row => some { w with db := { w.db with outbox := w.db.outbox.modify row w.requeued } }
  | .prune => some { w with db := { w.db with
      inbound := w.db.inbound.filter fun e => decide (w.ago (7 * 86400) ≤ e.2) } }

/-- The service before anything has happened. -/
def World.init (clock : DateTime) : World :=
  ⟨clock, ⟨KeyMap.empty, Table.empty, [], Table.empty, KeyMap.empty⟩, [], KeyMap.empty,
    KeyMap.empty⟩

/-- The states the service can get to. -/
def Reachable (env : Env) (w : World) : Prop :=
  ∃ clock, Lts.Reaches (step env) Lts.Any (World.init clock) w

section Reachable

variable {env : Env} {w w' : World}

theorem Reachable.trans (h : Reachable env w) (hrun : Lts.Reaches (step env) Lts.Any w w') :
    Reachable env w' := by
  obtain ⟨clock, hreach⟩ := h
  exact ⟨clock, hreach.trans hrun⟩

theorem Reachable.tail (h : Reachable env w) {a : Action} (hstep : step env w a = some w') :
    Reachable env w' := by
  obtain ⟨clock, hreach⟩ := h
  exact ⟨clock, hreach.tail trivial hstep⟩

end Reachable

/-! ## The fixture's deposit, up to its payment -/

namespace Fixture

/-- The fixture's request, as it is stored. -/
def new : NewDeposit where
  chainId := 31337
  tokenSymbol := "USDC"
  tokenAddress := usdc
  tokenDecimals := 6
  amount := (terms 1).amount
  receiver := receiver
  calls := (terms 1).calls
  recovery := (terms 1).recovery
  salt := 1
  expiresAt := expiry
  paymentAddress := ⟨0x00b90992c77b829feaea0ebba6d07204c98b5984, by decide⟩
  reference := none
  webhookUrl := none

/-- The default configuration; no report below carries a receipt or revert data. -/
def env : Env where
  readers := {
    lib := Crates.reference
    serde := {
      address := fun v => v.asStr.bind Crates.reference.parseAddress
      word := fun v => v.asStr.bind Crates.reference.parseB256
      bytes := fun v => v.asStr.bind Crates.reference.parseBytes }
    revert := { view := fun _ _ => .null, describe := fun _ _ => "" } }
  indexerConfigured := true
  engineConfigured := true
  openStaleSecs := 900
  paidStaleSecs := 60
  paidRepollSecs := 30
  lockTtlSecs := 60
  maxAgeSecs := 86400

/-- Ids that no other call mints. -/
def mint (n : ℕ) : Mint :=
  ⟨Fin.ofNat _ (1000 + 3 * n), Fin.ofNat _ (1001 + 3 * n), Fin.ofNat _ (1002 + 3 * n)⟩

/-- Seconds after the request, within the hour. -/
def later (secs : ℕ) : DateTime :=
  .ofSecs (1799996400 + (secs % 3600 : ℕ)) (by simp only [MIN_SECS, MAX_SECS]; omega)

/-- The indexer's notice that the amount is there. -/
def thresholdReached : IndexerEvent where
  id := "evt-threshold"
  eventType := "threshold.reached"
  watch := ⟨55, 31337, new.paymentAddress, some "2500000"⟩
  transfer := none

/-- A deposit is created, as number 7, and paid before its watch is registered. -/
def untilPaid : List Action := [
  .setUser "user" none,
  .create new "user" 7 (mint 0),
  .indexerEvent 0 thresholdReached (some 7),
  .advance 0 .go (mint 1)]

/-- A worker submits it to the engine, which makes it job 500. -/
def untilBound : List Action := untilPaid ++ [
  .claim 1 (mint 1).job,
  .advance 1 (.load requestedAt) (mint 2),
  .advance 1 (.submit (.accepted 500)) (mint 3),
  .advance 1 .go (mint 4)]

/-- The engine's notice that job 500 expired before it was executed. -/
def jobExpired : EngineEvent where
  eventId := "evt-expired"
  event := "transaction.failed"
  jobId := 500
  outcome := none
  txHash := none
  blockNumber := none
  receipt := none
  reincluded := false
  error := some ⟨"expired", "deadline passed", none⟩

/-- Its status, and the job it is bound to. -/
def statusOf (w : World) : Option (DepositStatus × Option Uuid) :=
  (w.db.deposits.get? 7).map fun d => (d.status, d.engineJobId)

end Fixture

end GumServer
