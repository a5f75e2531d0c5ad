import GumServer.Deposit

/-!
# What an engine report means

The engine reports on a settlement job by webhook (`EngineEvent`) and answers polls (`Job`). Both
are read as a `SettlementOutcome`: the engine's own verdict says whether the transaction went
through, and the receipt's logs say where the money went (`executionOutcome`).

Decoding `execute`'s revert data (`chain/revert.rs`) only fills in a message and an event field;
it is a parameter here, as are alloy's deserialisers.
-/

namespace GumServer

/-! ## Receipts -/

/-- alloy's deserialisers of JSON values. -/
structure Deserializers where
  address : Value → Option Address
  word : Value → Option B256
  bytes : Value → Option (List UInt8)

/-- `ReceiptLog`. -/
structure ReceiptLog where
  address : Address
  topics : List B256
  data : List UInt8
deriving DecidableEq

/-- A log from its fields; its data may be absent. -/
def ReceiptLog.ofFields (serde : Deserializers) (address topics : Value) (data : Option Value) :
    Option ReceiptLog := do
  let address ← serde.address address
  let topics ← topics.asArray.bind (List.mapM serde.word)
  let data ← match data with
    | none => some []
    | some data => serde.bytes data
  some { address, topics, data }

/-- A log in the node's JSON encoding. A derived deserialiser also reads the fields of a struct in
their order from an array. -/
def ReceiptLog.ofValue (serde : Deserializers) : Value → Option ReceiptLog
  | .array [address, topics] => ofFields serde address topics none
  | .array [address, topics, data] => ofFields serde address topics (some data)
  | v => (v.get "address").bind fun address => (v.get "topics").bind fun topics =>
      ofFields serde address topics (v.get "data")

/-- The logs of a receipt; none when any of them does not parse. -/
def receiptLogs (serde : Deserializers) (receipt : Option Value) : List ReceiptLog :=
  ((((receipt.bind fun r => r.get "logs").bind Value.asArray).bind
    (List.mapM (ReceiptLog.ofValue serde))).getD [])

/-- `IPayment::Settled::SIGNATURE_HASH`. -/
def SETTLED_TOPIC : B256 :=
  ⟨0x7823e479a1a4ebe2418874847436f8a1680c5ee5b17f38bb59dbff28e1b45552, by decide⟩

/-- `IPayment::Recovered::SIGNATURE_HASH`. -/
def RECOVERED_TOPIC : B256 :=
  ⟨0xfff3b3844276f57024e0b42afec1a37f75db36511e43819a4f2a63ab7862b648, by decide⟩

/-- `IPayment::WrongChain::SIGNATURE_HASH`. -/
def WRONG_CHAIN_TOPIC : B256 :=
  ⟨0x24497bc308635bccbc06f4997297d2158da178be2267eeead419bfdb19d42d4b, by decide⟩

/-- `ExecutionOutcome`. -/
inductive ExecutionOutcome : Type where
  /-- every call succeeded, and together they spent the amount -/
  | settled : ExecutionOutcome
  /-- the payment had expired and the balance went to recovery -/
  | recoveredOnly : ExecutionOutcome
  /-- the payment was deployed on another chain -/
  | wrongChain : ExecutionOutcome
  /-- no event of the payment was found -/
  | noEvents : ExecutionOutcome
deriving DecidableEq

/-- The loop of `execution_outcome`, over the logs that are left. -/
def executionOutcomeFrom (payment : Address) (recovered : Bool) : List ReceiptLog → ExecutionOutcome
  | [] => if recovered then .recoveredOnly else .noEvents
  | log :: logs =>
    if log.address ≠ payment then executionOutcomeFrom payment recovered logs
    else
      match log.topics with
      | [] => executionOutcomeFrom payment recovered logs
      | topic :: _ =>
        if topic = SETTLED_TOPIC then .settled
        else if topic = WRONG_CHAIN_TOPIC then .wrongChain
        else executionOutcomeFrom payment (recovered || topic == RECOVERED_TOPIC) logs

/-- `execution_outcome`. -/
def executionOutcome (logs : List ReceiptLog) (payment : Address) : ExecutionOutcome :=
  executionOutcomeFrom payment false logs

/-! ## Reports -/

/-- `EngineError`. -/
structure EngineError where
  code : String
  message : String
  /-- in hex, when the engine's simulation reverted -/
  revertData : Option String
deriving DecidableEq

/-- `EngineError::revert_bytes`. -/
def EngineError.revertBytes (lib : Crates) (e : EngineError) : Option (List UInt8) :=
  e.revertData.bind lib.parseBytes

/-- `EngineEvent`: a webhook of the engine. -/
structure EngineEvent where
  eventId : String
  event : String
  jobId : Uuid
  outcome : Option String
  txHash : Option B256
  blockNumber : Option U64
  receipt : Option Value
  reincluded : Bool
  error : Option EngineError

/-- `clients::engine::Job`: what a poll answers. -/
structure Job where
  status : String
  outcome : Option String
  txHash : Option B256
  blockNumber : Option U64
  receipt : Option Value
  error : Option EngineError

/-- The event names the handler knows. -/
inductive EngineEventKind : Type where
  | included | confirmed | failed | other
deriving DecidableEq

/-- The kind of an event by its name. -/
def EngineEventKind.ofStr (name : String) : EngineEventKind :=
  if name = "transaction.included" then .included
  else if name = "transaction.confirmed" then .confirmed
  else if name = "transaction.failed" then .failed
  else .other

/-- The job states the reconciler acts on. -/
inductive JobStatus : Type where
  | confirmed | failed | inFlight
deriving DecidableEq

/-- The state of a job by its name. -/
def JobStatus.ofStr (name : String) : JobStatus :=
  if name = "confirmed" then .confirmed else if name = "failed" then .failed else .inFlight

/-! ## Outcomes -/

/-- `SettlementOutcome`. -/
inductive SettlementOutcome : Type where
  /-- mined, waiting for the confirmation -/
  | included (txHash : String) (blockNumber : Option ℤ) (data : Value) : SettlementOutcome
  | settled (txHash : String) (blockNumber : Option ℤ) (data : Value) : SettlementOutcome
  | failed (code message : String) (txHash : Option String) (revertData : Option (List UInt8))
      (data : Value) : SettlementOutcome
  /-- nothing terminal yet -/
  | pending : SettlementOutcome

/-- The reading of `execute`'s revert data. -/
structure RevertDecoder where
  /-- `RevertView::of_execute`, as JSON -/
  view : List UInt8 → List Call → Value
  /-- `decode_execute(..).describe(..)` -/
  describe : List UInt8 → List Call → String

/-- What the reports are read with. -/
structure Readers where
  lib : Crates
  serde : Deserializers
  revert : RevertDecoder

/-- `value[key] = v` on an object. -/
def Value.set (self : Value) (key : String) (v : Value) : Value :=
  match self with
  | .object fields => .object (fields.filter (fun f => f.1 ≠ key) ++ [(key, v)])
  | other => other

/-- `json!` of an optional string. -/
def Value.ofStr? (s : Option String) : Value := (s.map Value.string).getD .null

/-- `json!` of an optional `u64`. -/
def Value.ofU64? (n : Option U64) : Value := (n.map fun n => Value.number (.posInt n)).getD .null

/-- A hash as `{:#x}`. -/
def hashText (hash : Option B256) : Option String := hash.map fun h => lowerHex (B256.toBytes h)

namespace SettlementOutcome

variable (r : Readers)

/-- `SettlementOutcome::engine_failure`. -/
def engineFailure (error : Option EngineError) (txHash : Option String) (deposit : Deposit)
    (data : Value) : SettlementOutcome :=
  let (defaultCode, defaultMessage) :=
    if txHash.isSome then ("execution_reverted", "PaymentFactory.execute reverted")
    else ("failed", "the engine could not execute the transaction")
  let code := (error.map (·.code)).getD defaultCode
  let engineMessage := ((error.map (·.message)).filter (· ≠ "")).getD defaultMessage
  let revertData := error.bind (EngineError.revertBytes r.lib)
  let calls := (deposit.callsOf r.lib).getD []
  let data := data.set "engine_message" (.string engineMessage)
  match revertData with
  | some bytes =>
    .failed ("engine_" ++ code) (r.revert.describe bytes calls) txHash revertData
      (data.set "revert" (r.revert.view bytes calls))
  | none => .failed ("engine_" ++ code) engineMessage txHash none data

/-- The failure of a transaction that went through but did not settle. -/
def unsettled (code message txHash : String) (data : Value) : SettlementOutcome :=
  .failed code message (some txHash) none data

/-- `SettlementOutcome::from_receipt`. -/
def fromReceipt (outcome : Option String) (txHash : Option String) (blockNumber : Option ℤ)
    (receipt : Option Value) (error : Option EngineError) (deposit : Deposit) (data : Value) :
    SettlementOutcome :=
  match txHash with
  | none => .pending
  | some txHash =>
    let data := data.set "receipt" (receipt.getD .null)
    if outcome = some "success" then
      match executionOutcome (receiptLogs r.serde receipt)
        ((deposit.paymentAddressOf r.lib).getD 0) with
      | .settled => .settled txHash blockNumber data
      | .recoveredOnly => unsettled "expired_on_chain"
          "the payment expired before it was executed; the balance was forwarded to recovery"
          txHash data
      | .wrongChain => unsettled "wrong_chain"
          "Payment was deployed on a chain other than the deposit's" txHash data
      | .noEvents => unsettled "unexpected_outcome"
          "execute succeeded but the payment address emitted no Settled event" txHash data
    else if outcome = some "reverted" then engineFailure r error (some txHash) deposit data
    else .pending

/-- `SettlementOutcome::from_event`. -/
def fromEvent (event : EngineEvent) (deposit : Deposit) : SettlementOutcome :=
  let txHash := hashText event.txHash
  let blockNumber := event.blockNumber.map U64.toI64
  let data : Value := .object [
    ("engine_event_id", .string event.eventId),
    ("engine_job_id", .string event.jobId.text),
    ("tx_hash", .ofStr? txHash),
    ("block_number", .ofU64? event.blockNumber),
    ("outcome", .ofStr? event.outcome),
    ("reincluded", .bool event.reincluded)]
  match EngineEventKind.ofStr event.event with
  | .included =>
    match txHash with
    | some txHash => .included txHash blockNumber data
    | none => .pending
  | .confirmed =>
    fromReceipt r event.outcome txHash blockNumber event.receipt event.error deposit data
  | .failed => engineFailure r event.error txHash deposit data
  | .other => .pending

/-- What the reconciler makes of a polled job; `none` is a job still in flight. -/
def fromJob (jobId : Uuid) (job : Job) (polledAt : String) (deposit : Deposit) :
    Option SettlementOutcome :=
  let txHash := hashText job.txHash
  let data : Value := .object [
    ("engine_job_id", .string jobId.text),
    ("polled_at", .string polledAt),
    ("status", .string job.status),
    ("outcome", .ofStr? job.outcome),
    ("tx_hash", .ofStr? txHash),
    ("block_number", .ofU64? job.blockNumber),
    ("source", .string "reconciler")]
  match JobStatus.ofStr job.status with
  | .confirmed => some (fromReceipt r job.outcome txHash (job.blockNumber.map U64.toI64) job.receipt
      job.error deposit data)
  | .failed => some (engineFailure r job.error txHash deposit data)
  | .inFlight => none

/-- `RETRYABLE_ENGINE_ERRORS`. -/
def RETRYABLE_ENGINE_ERRORS : List String := ["expired", "stuck_cancelled", "internal"]

/-- `MAX_AUTO_RETRIES`. -/
def MAX_AUTO_RETRIES : ℕ := 3

/-- `str::strip_prefix("engine_").unwrap_or(..)`. -/
def engineCode (code : String) : String :=
  if "engine_".toList.isPrefixOf code.toList then String.ofList (code.toList.drop 7) else code

/-- Whether a failure is worth an automatic resubmission: the transaction never executed. -/
def isRetryable : SettlementOutcome → Bool
  | .failed code _ txHash _ _ => RETRYABLE_ENGINE_ERRORS.contains (engineCode code) && txHash.isNone
  | _ => false

end SettlementOutcome

end GumServer
