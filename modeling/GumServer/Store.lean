import GumServer.Create
import GumServer.KeyMap
import GumServer.Settlement
import GumServer.Table

/-!
# The store

`deposit/store.rs` and the two transitions beside it (`fail_open` in the outbox, `resubmit` in the
inbound webhooks). Every change of a deposit has one shape: an `UPDATE … WHERE id = $1 AND guard`,
and if it hit the row, an event on the timeline and perhaps a job in the outbox, all in one
transaction. That shape is `Transition`, and its effect `Db.apply`; each function of the source is
the transition with its own guard, columns, event and job.

A guard that does not hold leaves the database as it was (`Db.apply` is `none`).
-/

namespace GumServer

/-! ## Tables -/

/-- The kinds of outbox jobs. -/
inductive JobKind : Type where
  | registerWatch | submitExecute | notifyApp
deriving DecidableEq

/-- The payload of an outbox job. A notification carries the event and the deposit its body is
rendered from. -/
inductive Payload : Type where
  | registerWatch : Payload
  /-- with the engine's idempotency key -/
  | submitExecute : Option String → Payload
  | notifyApp : String → DepositEvent → Deposit → Payload

/-- The kind of a payload. -/
def Payload.kind : Payload → JobKind
  | registerWatch => .registerWatch
  | submitExecute _ => .submitExecute
  | notifyApp _ _ _ => .notifyApp

/-- An `outbox` row. Its times are in microseconds. -/
structure OutboxRow where
  id : Uuid
  depositId : Uuid
  payload : Payload
  attempts : ℕ
  nextAttemptAt : ℤ
  lockedUntil : Option ℤ
  lastError : Option String
  deadAt : Option ℤ
  createdAt : ℤ

/-- Who delivers inbound webhooks. -/
inductive Sender : Type where
  | indexer | engine
deriving DecidableEq

/-- The tables the lifecycle reads and writes. -/
structure Db where
  /-- `users.default_webhook_url` -/
  users : KeyMap String (Option String)
  deposits : Table Deposit.id
  /-- `deposit_events`, oldest first -/
  events : List DepositEvent
  outbox : Table OutboxRow.id
  /-- `inbound_events`, with the time each was received -/
  inbound : KeyMap (Sender × String) ℤ

/-- The ids a transaction mints, should it need them. -/
structure Mint where
  event : Uuid
  notify : Uuid
  job : Uuid
deriving DecidableEq

/-- The minted ids. -/
def Mint.ids (m : Mint) : List Uuid := [m.event, m.notify, m.job]

theorem Mint.job_mem (m : Mint) : m.job ∈ m.ids := by simp [Mint.ids]

namespace Db

variable (db : Db) (now : DateTime) (mint : Mint)

/-- A row as it is queued. -/
def newRow (row id : Uuid) (payload : Payload) : OutboxRow where
  id := row
  depositId := id
  payload := payload
  attempts := 0
  nextAttemptAt := now.toMicros
  lockedUntil := none
  lastError := none
  deadAt := none
  createdAt := now.toMicros

/-- `enqueue`. -/
def enqueue (row id : Uuid) (payload : Payload) : Db :=
  { db with outbox := db.outbox.put (newRow now row id payload) }

/-- `webhook_url_for`: the deposit's own, else its owner's default. -/
def webhookUrlFor (d : Deposit) : Option String :=
  if d.webhookUrl.isSome then d.webhookUrl else (db.users.get? d.userId).bind id

/-- The event a transition records on a row. -/
def eventOf (d : Deposit) (type : EventType) (data : Value) : DepositEvent where
  id := mint.event
  depositId := d.id
  sequence := d.eventSeq + 1
  eventType := type
  data := data
  createdAt := now

/-- The timeline part of `record_event`: the next sequence number, and the event under it. -/
def appendEvent (d : Deposit) (type : EventType) (data : Value) : Db :=
  { db with
    deposits := db.deposits.put { d with eventSeq := d.eventSeq + 1 }
    events := db.events ++ [eventOf now mint d type data] }

/-- `record_event`: the timeline of the row `d`, and the app's webhook with the row it is given, which
may have been read before. -/
def recordEvent (d : Deposit) (type : EventType) (data : Value) (snapshot : Deposit) : Db :=
  let db := db.appendEvent now mint d type data
  match db.webhookUrlFor snapshot with
  | some url =>
    if type.isAppFacing then
      db.enqueue now mint.notify d.id (.notifyApp url (eventOf now mint d type data) snapshot)
    else db
  | none => db

end Db

/-! ## Transitions -/

/-- A guarded change of a deposit. -/
structure Transition where
  /-- the `WHERE` clause, beside the id -/
  guard : Deposit → Bool
  /-- the `SET` clause, at a time -/
  set : DateTime → Deposit → Deposit
  /-- what is recorded -/
  event : Option (EventType × Value)
  /-- the job queued with the event's sequence number -/
  job : Uuid → ℕ → Option Payload
  /-- the row that `record_event` is given, where it is not the one the update returns -/
  seen : Option Deposit := none

/-- The row that `record_event` is given. -/
def Transition.snapshot (t : Transition) (now : DateTime) (d : Deposit) : Deposit :=
  t.seen.getD (t.set now d)

/-- `update_deposit`: every update stamps the row. -/
def stamped (set : DateTime → Deposit → Deposit) (now : DateTime) (d : Deposit) : Deposit :=
  { set now d with updatedAt := now }

/-- No job is queued. -/
def noJob (_ : Uuid) (_ : ℕ) : Option Payload := none

/-- The idempotency key of the settlement queued with an event: `deposit:{id}:execute:{sequence}`. -/
def executeKey (id : Uuid) (sequence : ℕ) : String :=
  "deposit:" ++ id.text ++ ":execute:" ++ toString sequence

/-- `enqueue_execute`. -/
def enqueueExecute (id : Uuid) (sequence : ℕ) : Option Payload :=
  some (.submitExecute (some (executeKey id sequence)))

/-- `status IN ('pending', 'partial_paid')`. -/
def whereOpen (d : Deposit) : Bool := d.status.isOpen

/-- `status = 'paid'`. -/
def wherePaid (d : Deposit) : Bool := d.status == .paid

/-- `detected_at = COALESCE(detected_at, now())`. -/
def detected (now : DateTime) (d : Deposit) : Deposit :=
  { d with detectedAt := d.detectedAt.or (some now) }

/-- `mark_watch_registered`. -/
def markWatchRegistered (watch : Uuid) : Transition where
  guard d := d.watchId.isNone
  set := stamped fun now d => { d with watchId := some watch, watchRegisteredAt := some now }
  event := some (.watchRegistered, .object [("watch_id", .string watch.text)])
  job := noJob

/-- `apply_payment_pending`. -/
def applyPaymentPending (data : Value) : Transition where
  guard := whereOpen
  set := stamped fun now d => { detected now d with status := .partialPaid }
  event := some (.detected, data)
  job := noJob

/-- `apply_payment_confirmed`. -/
def applyPaymentConfirmed (confirmed : U256) (data : Value) : Transition where
  guard := whereOpen
  set := stamped fun now d =>
    { detected now d with status := .partialPaid, confirmedAmount := toString confirmed.val }
  event := some (.paymentConfirmed, data)
  job := noJob

/-- `apply_payment_orphaned`: whatever the status, and with the row a plain `SELECT` has read, if it
has read one before. -/
def applyPaymentOrphaned (data : Value) (seen : Option Deposit) : Transition where
  guard _ := true
  set _ d := d
  event := some (.paymentOrphaned, data)
  job := noJob
  seen := seen

/-- `apply_threshold_reached`. -/
def applyThresholdReached (confirmed : U256) (data : Value) : Transition where
  guard := whereOpen
  set := stamped fun now d =>
    { detected now d with status := .paid, confirmedAmount := toString confirmed.val }
  event := some (.ready, data)
  job := enqueueExecute

/-- `apply_expired`. -/
def applyExpired (data : Value) : Transition where
  guard := whereOpen
  set := stamped fun now d => { d with status := .expired, expiredAt := some now }
  event := some (.expired, data)
  job := noJob

/-- `mark_engine_submitted`: only a fresh job is recorded on the timeline. -/
def markEngineSubmitted (job : Uuid) (replayed : Bool) : Transition where
  guard d := wherePaid d && (d.engineJobId.isNone || d.engineJobId == some job)
  set := stamped fun now d => { d with engineJobId := some job, engineSubmittedAt := some now }
  event := if replayed then none
    else some (.settlementSubmitted, .object [("engine_job_id", .string job.text)])
  job := noJob

/-- `apply_settlement_included`. -/
def applySettlementIncluded (txHash : String) (blockNumber : Option ℤ) (data : Value) :
    Transition where
  guard := wherePaid
  set := stamped fun _ d => { d with txHash := some txHash, blockNumber := blockNumber }
  event := some (.settlementIncluded, data)
  job := noJob

/-- `apply_settled`. -/
def applySettled (txHash : String) (blockNumber : Option ℤ) (data : Value) : Transition where
  guard := wherePaid
  set := stamped fun now d =>
    { d with
      status := .settled
      settledAt := some now
      txHash := some txHash
      blockNumber := blockNumber.or d.blockNumber }
  event := some (.settled, data)
  job := noJob

/-- `apply_failed`: the code goes on the event too. -/
def applyFailed (code message : String) (txHash : Option String) (revertData : Option (List UInt8))
    (data : Value) : Transition where
  guard := wherePaid
  set := stamped fun now d =>
    { d with
      status := .failed
      failedAt := some now
      failureCode := some code
      failureMessage := some message
      txHash := txHash.or d.txHash
      failureRevertData := revertData.map lowerHex }
  event := some (.failed, data.set "code" (.string code))
  job := noJob

/-- `fail_open`: a deposit that has not been paid yet fails. -/
def failOpen (code message : String) : Transition where
  guard := whereOpen
  set := stamped fun now d =>
    { d with
      status := .failed
      failedAt := some now
      failureCode := some code
      failureMessage := some message }
  event := some (.failed, .object [("code", .string code), ("message", .string message)])
  job := noJob

/-- `retry_settlement`: a failed deposit goes back to `paid`, with a fresh `execute`. -/
def retrySettlement : Transition where
  guard d := d.status == .failed
  set := stamped fun _ d =>
    { d with
      status := .paid
      engineJobId := none
      engineSubmittedAt := none
      failureCode := none
      failureMessage := none
      failureRevertData := none
      failedAt := none }
  event := some (.settlementRetried, .object [])
  job := enqueueExecute

/-- `resubmit`: a deposit that is still `paid` leaves its job, and a fresh `execute` is queued. -/
def resubmit (data : Value) : Transition where
  guard := wherePaid
  set := stamped fun _ d => { d with engineJobId := none, engineSubmittedAt := none }
  event := some (.settlementRetried, data)
  job := enqueueExecute

/-- `reregister_watch`. -/
def reregisterWatch : Transition where
  guard := whereOpen
  set := stamped fun _ d => { d with watchId := none, watchRegisteredAt := none }
  event := some (.watchLost, .object [])
  job _ _ := some .registerWatch

/-- The transitions of the source. -/
inductive Op : Type where
  | markWatchRegistered (watch : Uuid) : Op
  | applyPaymentPending (data : Value) : Op
  | applyPaymentConfirmed (confirmed : U256) (data : Value) : Op
  | applyPaymentOrphaned (data : Value) (seen : Option Deposit) : Op
  | applyThresholdReached (confirmed : U256) (data : Value) : Op
  | applyExpired (data : Value) : Op
  | markEngineSubmitted (job : Uuid) (replayed : Bool) : Op
  | applySettlementIncluded (txHash : String) (blockNumber : Option ℤ) (data : Value) : Op
  | applySettled (txHash : String) (blockNumber : Option ℤ) (data : Value) : Op
  | applyFailed (code message : String) (txHash : Option String)
      (revertData : Option (List UInt8)) (data : Value) : Op
  | failOpen (code message : String) : Op
  | retrySettlement : Op
  | resubmit (data : Value) : Op
  | reregisterWatch : Op

/-- The transition a name stands for. -/
def Op.transition : Op → Transition
  | .markWatchRegistered watch => GumServer.markWatchRegistered watch
  | .applyPaymentPending data => GumServer.applyPaymentPending data
  | .applyPaymentConfirmed confirmed data => GumServer.applyPaymentConfirmed confirmed data
  | .applyPaymentOrphaned data seen => GumServer.applyPaymentOrphaned data seen
  | .applyThresholdReached confirmed data => GumServer.applyThresholdReached confirmed data
  | .applyExpired data => GumServer.applyExpired data
  | .markEngineSubmitted job replayed => GumServer.markEngineSubmitted job replayed
  | .applySettlementIncluded txHash blockNumber data =>
    GumServer.applySettlementIncluded txHash blockNumber data
  | .applySettled txHash blockNumber data => GumServer.applySettled txHash blockNumber data
  | .applyFailed code message txHash revertData data =>
    GumServer.applyFailed code message txHash revertData data
  | .failOpen code message => GumServer.failOpen code message
  | .retrySettlement => GumServer.retrySettlement
  | .resubmit data => GumServer.resubmit data
  | .reregisterWatch => GumServer.reregisterWatch

/-! ## Applying a transition -/

namespace Db

variable (db : Db) (now : DateTime) (mint : Mint)

/-- The row a transition sets. -/
def setRow (t : Transition) (d : Deposit) : Db :=
  { db with deposits := db.deposits.put (t.set now d) }

/-- Queue a job, when there is one. -/
def queue (id : Uuid) : Option Payload → Db
  | none => db
  | some payload => db.enqueue now mint.job id payload

/-- What an update that hit its row does: the row, its event, and the job that goes with it. -/
def commit (t : Transition) (d : Deposit) : Db :=
  match t.event with
  | none => db.setRow now t d
  | some (type, data) =>
    ((db.setRow now t d).recordEvent now mint (t.set now d) type data (t.snapshot now d)).queue now
      mint (t.set now d).id (t.job (t.set now d).id ((t.set now d).eventSeq + 1))

/-- **The guarded transition**: `none` when the row is missing or not eligible. -/
def apply (t : Transition) (id : Uuid) : Option Db :=
  match db.deposits.get? id with
  | none => none
  | some d => if t.guard d then some (db.commit now mint t d) else none

end Db

/-! ## What a transition does -/

/-- The row a transition leaves. -/
def Transition.row (t : Transition) (now : DateTime) (d : Deposit) : Deposit :=
  match t.event with
  | none => t.set now d
  | some _ => { t.set now d with eventSeq := (t.set now d).eventSeq + 1 }

/-- An update gives its event the row it returns. -/
theorem Transition.snapshot_of_unseen {t : Transition} (h : t.seen = none) (now : DateTime)
    (d : Deposit) : t.snapshot now d = t.set now d := by
  rw [snapshot, h, Option.getD_none]

/-- No transition changes the id of its row. -/
@[simp] theorem Op.set_id (op : Op) (now : DateTime) (d : Deposit) :
    (op.transition.set now d).id = d.id := by
  cases op <;> rfl

/-- Nor the sequence, which its event moves. -/
@[simp] theorem Op.set_eventSeq (op : Op) (now : DateTime) (d : Deposit) :
    (op.transition.set now d).eventSeq = d.eventSeq := by
  cases op <;> rfl

@[simp] theorem Op.row_id (op : Op) (now : DateTime) (d : Deposit) :
    (op.transition.row now d).id = d.id := by
  rw [Transition.row]
  split <;> exact op.set_id now d

/-- A timeline only grows. -/
theorem Op.le_row_eventSeq (op : Op) (now : DateTime) (d : Deposit) :
    d.eventSeq ≤ (op.transition.row now d).eventSeq := by
  rw [Transition.row]
  split
  · exact Nat.le_of_eq (op.set_eventSeq now d).symm
  · dsimp only
    rw [Op.set_eventSeq]
    exact Nat.le_succ _

/-- A transition queues a job only with an event. -/
theorem Op.event_of_job {op : Op} {id : Uuid} {n : ℕ} {payload : Payload}
    (h : op.transition.job id n = some payload) : ∃ e, op.transition.event = some e := by
  cases op <;> first | exact ⟨_, rfl⟩ | cases h

namespace Db

variable {db : Db} {now : DateTime} {mint : Mint} {d : Deposit}

@[simp] theorem newRow_id (row id : Uuid) (payload : Payload) :
    (newRow now row id payload).id = row := rfl

theorem recordEvent_deposits (type : EventType) (data : Value) (snapshot : Deposit) :
    (db.recordEvent now mint d type data snapshot).deposits =
      db.deposits.put { d with eventSeq := d.eventSeq + 1 } := by
  rw [recordEvent]
  split
  · split <;> rfl
  · rfl

theorem recordEvent_events (type : EventType) (data : Value) (snapshot : Deposit) :
    (db.recordEvent now mint d type data snapshot).events =
      db.events ++ [eventOf now mint d type data] := by
  rw [recordEvent]
  split
  · split <;> rfl
  · rfl

/-- A recorded event queues a notification or nothing. -/
theorem recordEvent_outbox (type : EventType) (data : Value) (snapshot : Deposit) :
    (db.recordEvent now mint d type data snapshot).outbox = db.outbox ∨
    ∃ url, (db.recordEvent now mint d type data snapshot).outbox = db.outbox.put
      (newRow now mint.notify d.id (.notifyApp url (eventOf now mint d type data) snapshot)) := by
  rw [recordEvent]
  split
  · next url hurl =>
    split
    · exact .inr ⟨url, rfl⟩
    · exact .inl rfl
  · exact .inl rfl

@[simp] theorem queue_deposits (id : Uuid) (job : Option Payload) :
    (db.queue now mint id job).deposits = db.deposits := by
  cases job <;> rfl

@[simp] theorem queue_events (id : Uuid) (job : Option Payload) :
    (db.queue now mint id job).events = db.events := by
  cases job <;> rfl

variable (db now mint d) (op : Op)

theorem commit_of_event {type : EventType} {data : Value}
    (h : op.transition.event = some (type, data)) :
    db.commit now mint op.transition d =
      ((db.setRow now op.transition d).recordEvent now mint (op.transition.set now d) type data
        (op.transition.snapshot now d)).queue now mint d.id
          (op.transition.job d.id (d.eventSeq + 1)) := by
  rw [commit, h]
  simp only [Op.set_id, Op.set_eventSeq]

theorem commit_of_no_event (h : op.transition.event = none) :
    db.commit now mint op.transition d = db.setRow now op.transition d := by
  rw [commit, h]

/-- The rows after a transition: the one it hit, and no other. -/
theorem commit_deposits (id : Uuid) :
    (db.commit now mint op.transition d).deposits.get? id =
      if d.id = id then some (op.transition.row now d) else db.deposits.get? id := by
  rcases h : op.transition.event with _ | ⟨type, data⟩
  · rw [commit_of_no_event db now mint d op h, setRow, Table.get?_put, Op.set_id,
      Transition.row, h]
  · rw [commit_of_event db now mint d op h, queue_deposits, recordEvent_deposits, setRow,
      Table.get?_put, Table.get?_put, Transition.row, h]
    dsimp only
    rw [Op.set_id]
    split <;> rfl

/-- The timeline after a transition: its event at the end. -/
theorem commit_events :
    (db.commit now mint op.transition d).events = db.events ++
      (op.transition.event.map fun e =>
        eventOf now mint (op.transition.set now d) e.1 e.2).toList := by
  rcases h : op.transition.event with _ | ⟨type, data⟩
  · rw [commit_of_no_event db now mint d op h]
    simp [setRow]
  · rw [commit_of_event db now mint d op h, queue_events, recordEvent_events]
    rfl

/-- A transition leaves the rows of the outbox, but for the ids it mints. -/
theorem commit_outbox_of_ne {row : Uuid} (hn : row ≠ mint.notify) (hj : row ≠ mint.job) :
    (db.commit now mint op.transition d).outbox.get? row = db.outbox.get? row := by
  have hqueue (db : Db) (id : Uuid) (job : Option Payload) :
      (db.queue now mint id job).outbox.get? row = db.outbox.get? row := by
    cases job with
    | none => rfl
    | some payload =>
      rw [queue, enqueue, Table.get?_put_ne]
      exact Ne.symm hj
  rcases h : op.transition.event with _ | ⟨type, data⟩
  · rw [commit_of_no_event db now mint d op h]
    rfl
  · rw [commit_of_event db now mint d op h, hqueue]
    rcases @recordEvent_outbox (db.setRow now op.transition d) now mint (op.transition.set now d)
      type data (op.transition.snapshot now d) with hsame | ⟨url, hput⟩
    · rw [hsame]
      rfl
    · rw [hput, Table.get?_put_ne]
      · rfl
      · exact Ne.symm hn

/-- The job of a transition is queued under the id minted for it. -/
theorem commit_outbox_job {payload : Payload}
    (h : op.transition.job d.id (d.eventSeq + 1) = some payload) :
    (db.commit now mint op.transition d).outbox.get? mint.job =
      some (newRow now mint.job d.id payload) := by
  obtain ⟨⟨type, data⟩, hevent⟩ := Op.event_of_job h
  rw [commit_of_event db now mint d op hevent, h, queue, enqueue]
  exact Table.get?_put_self _ _

/-- A row is the notification of a transition's event. -/
def IsNotice (now : DateTime) (mint : Mint) (op : Op) (d : Deposit) (r : OutboxRow) : Prop :=
  ∃ url type data, op.transition.event = some (type, data) ∧
    r = newRow now mint.notify d.id (.notifyApp url
      (eventOf now mint (op.transition.set now d) type data) (op.transition.snapshot now d))

theorem IsNotice.kind {r : OutboxRow} (h : IsNotice now mint op d r) :
    r.payload.kind = .notifyApp := by
  obtain ⟨url, type, data, -, rfl⟩ := h
  rfl

/-- A row the outbox did not have is the notification of the transition, or its job. -/
theorem commit_outbox_new {row : Uuid} {r : OutboxRow}
    (h : (db.commit now mint op.transition d).outbox.get? row = some r) :
    db.outbox.get? row = some r ∨ IsNotice now mint op d r ∨
      ∃ payload, op.transition.job d.id (d.eventSeq + 1) = some payload ∧
        r = newRow now mint.job d.id payload := by
  rcases hevent : op.transition.event with _ | ⟨type, data⟩
  · rw [commit_of_no_event db now mint d op hevent] at h
    exact .inl h
  · rw [commit_of_event db now mint d op hevent] at h
    have hrecord : ∀ {r : OutboxRow}, ((db.setRow now op.transition d).recordEvent now mint
        (op.transition.set now d) type data (op.transition.snapshot now d)).outbox.get? row =
          some r →
        db.outbox.get? row = some r ∨ IsNotice now mint op d r := by
      intro r h
      rcases @recordEvent_outbox (db.setRow now op.transition d) now mint
        (op.transition.set now d) type data (op.transition.snapshot now d) with
        hsame | ⟨url, hput⟩
      · rw [hsame] at h
        exact .inl h
      · rw [hput, Table.get?_put] at h
        split at h
        · obtain rfl := Option.some.inj h
          exact .inr ⟨url, type, data, hevent, by rw [Op.set_id]⟩
        · exact .inl h
    cases hjob : op.transition.job d.id (d.eventSeq + 1) with
    | none =>
      rw [hjob, queue] at h
      rcases hrecord h with h | h
      · exact .inl h
      · exact .inr (.inl h)
    | some payload =>
      rw [hjob, queue, enqueue, Table.get?_put] at h
      split at h
      · exact .inr (.inr ⟨payload, rfl, (Option.some.inj h).symm⟩)
      · rcases hrecord h with h | h
        · exact .inl h
        · exact .inr (.inl h)

end Db

end GumServer
