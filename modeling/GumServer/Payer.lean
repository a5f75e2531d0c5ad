import Mathlib.Tactic.FinCases
import GumServer.Step

/-!
# What a payer sees

`deposit/pay.rs`: the view behind the hosted payment page. Nobody is asked who they are, so it
carries what is needed to pay and to watch the payment land, and nothing else of the row. The data
of an event is open-ended JSON; what passes is an allowlist of fields, at two levels, without nulls.

The view is a function of what it publishes: two deposits that agree there look the same, whatever
else is in their rows and on their timelines.
-/

namespace GumServer

/-! ## The view -/

/-- The timeline entries a payer sees. -/
def PAYER_EVENTS : List EventType :=
  [.created, .detected, .paymentConfirmed, .paymentOrphaned, .ready, .settlementSubmitted,
    .settlementIncluded, .settled, .failed, .expired]

/-- The fields of an indexer's transfer passed through to the payer. -/
def TRANSFER_FIELDS : List String :=
  ["tx_hash", "log_index", "block_number", "block_hash", "from", "amount", "status"]

/-- The fields of an event's data passed through to the payer. -/
def DATA_FIELDS : List String := ["confirmed_amount", "tx_hash", "block_number"]

/-- `events_through`: the deposit's events of these types up to a sequence, oldest first. -/
def eventsThrough (events : List DepositEvent) (id : Uuid) (through : ℕ) (types : List EventType) :
    List DepositEvent :=
  (events.filter fun e =>
    decide (e.depositId = id) && decide (e.sequence ≤ through) && decide (e.eventType ∈ types))
    |>.mergeSort fun a b => decide (a.sequence ≤ b.sequence)

/-- `Timestamps`. -/
structure Timestamps where
  createdAt : DateTime
  updatedAt : DateTime
  detectedAt : Option DateTime
  settledAt : Option DateTime
  failedAt : Option DateTime
  expiredAt : Option DateTime

/-- `PayerFailure`: the code alone, a message can be internal. -/
structure PayerFailure where
  code : String

/-- `PayerEvent`. -/
structure PayerEvent where
  id : Uuid
  sequence : ℕ
  /-- serialised as `type` -/
  eventType : String
  createdAt : DateTime
  data : Value

/-- `PayerView`. -/
structure PayerView where
  id : Uuid
  status : DepositStatus
  sequence : ℕ
  paymentAddress : String
  chainId : U64
  token : String
  tokenAddress : String
  tokenDecimals : UInt8
  amount : String
  confirmedAmount : String
  expiresAt : DateTime
  txHash : Option String
  blockNumber : Option U64
  failure : Option PayerFailure
  timestamps : Timestamps
  serverTime : String
  events : List PayerEvent

namespace Value

/-- `Value::is_null`. -/
def isNull : Value → Bool
  | null => true
  | _ => false

/-- A field that is there and not null: `get(field).filter(|v| !v.is_null())`. -/
def present (v : Value) (field : String) : Option Value := (v.get field).filter (!·.isNull)

/-- `pick`: the present ones of some fields, inserted into an object. -/
def pick (source : Value) (fields : List String) (into : Value) : Value :=
  fields.foldl (fun into field => ((source.present field).map (into.set field)).getD into) into

end Value

/-- The transfer of an event's data, cut to the payer-safe fields. -/
def payerTransfer (data : Value) : Value :=
  match data.get "transfer" with
  | some (.object transfer) =>
    (Value.object []).set "transfer" (Value.pick (.object transfer) TRANSFER_FIELDS (.object []))
  | _ => .object []

/-- `payer_data`: the payer-safe fields of an event's data. -/
def payerData (type : EventType) (data : Value) : Value :=
  if data.isObject then
    let out := data.pick DATA_FIELDS (payerTransfer data)
    if type = .failed then data.pick ["code"] out else out
  else .object []

/-- An event as the payer sees it. -/
def DepositEvent.payer (e : DepositEvent) : PayerEvent where
  id := e.id
  sequence := e.sequence
  eventType := e.eventType.asStr
  createdAt := e.createdAt
  data := payerData e.eventType e.data

section View

-- `DateTime::to_rfc3339_opts(SecondsFormat::Millis, true)`
variable (toRfc3339 : DateTime → String)

/-- `PayerView::new`. -/
def PayerView.new (d : Deposit) (events : List DepositEvent) (now : DateTime) : PayerView where
  id := d.id
  status := d.status
  sequence := d.eventSeq
  paymentAddress := d.paymentAddress
  chainId := U64.ofInt d.chainId
  token := d.tokenSymbol
  tokenAddress := d.tokenAddress
  tokenDecimals := UInt8.ofInt d.tokenDecimals
  amount := d.amount
  confirmedAmount := d.confirmedAmount
  expiresAt := d.expiresAt
  txHash := d.txHash
  blockNumber := d.blockNumber.map U64.ofInt
  failure := d.failureCode.map PayerFailure.mk
  timestamps := ⟨d.createdAt, d.updatedAt, d.detectedAt, d.settledAt, d.failedAt, d.expiredAt⟩
  serverTime := toRfc3339 now
  events := events.map DepositEvent.payer

/-- The answer of `view` on a row it read: its events up to the row's own sequence. -/
def payerView (events : List DepositEvent) (d : Deposit) (now : DateTime) : PayerView :=
  PayerView.new toRfc3339 d (eventsThrough events d.id d.eventSeq PAYER_EVENTS) now

end View

/-! ## What is published -/

/-- Two rows agree on what the view publishes of a row. -/
structure Deposit.SamePublished (d d' : Deposit) : Prop where
  id : d.id = d'.id
  status : d.status = d'.status
  eventSeq : d.eventSeq = d'.eventSeq
  paymentAddress : d.paymentAddress = d'.paymentAddress
  chainId : U64.ofInt d.chainId = U64.ofInt d'.chainId
  tokenSymbol : d.tokenSymbol = d'.tokenSymbol
  tokenAddress : d.tokenAddress = d'.tokenAddress
  tokenDecimals : UInt8.ofInt d.tokenDecimals = UInt8.ofInt d'.tokenDecimals
  amount : d.amount = d'.amount
  confirmedAmount : d.confirmedAmount = d'.confirmedAmount
  expiresAt : d.expiresAt = d'.expiresAt
  txHash : d.txHash = d'.txHash
  blockNumber : d.blockNumber.map U64.ofInt = d'.blockNumber.map U64.ofInt
  failureCode : d.failureCode = d'.failureCode
  createdAt : d.createdAt = d'.createdAt
  updatedAt : d.updatedAt = d'.updatedAt
  detectedAt : d.detectedAt = d'.detectedAt
  settledAt : d.settledAt = d'.settledAt
  failedAt : d.failedAt = d'.failedAt
  expiredAt : d.expiredAt = d'.expiredAt

/-- The field of an event's transfer, where there is one. -/
def Value.transferField (v : Value) (field : String) : Option Value :=
  (v.get "transfer").bind (·.present field)

/-- There is a transfer: an object under its name. -/
def Value.hasTransfer (v : Value) : Bool := (v.get "transfer").any Value.isObject

/-- Two data of an event type agree on the allowlisted fields. -/
structure SameData (type : EventType) (v v' : Value) : Prop where
  /-- one has a transfer when the other does -/
  transfer : v.hasTransfer = v'.hasTransfer
  transferFields : ∀ field ∈ TRANSFER_FIELDS, v.transferField field = v'.transferField field
  dataFields : ∀ field ∈ DATA_FIELDS, v.present field = v'.present field
  /-- a failure's code is public -/
  code : type = .failed → v.present "code" = v'.present "code"

/-- Two events agree on what the view publishes of an event. -/
structure DepositEvent.SamePublished (e e' : DepositEvent) : Prop where
  id : e.id = e'.id
  sequence : e.sequence = e'.sequence
  eventType : e.eventType = e'.eventType
  createdAt : e.createdAt = e'.createdAt
  data : SameData e.eventType e.data e'.data

/-- The deposit's events of the types a payer sees. -/
def payerVisible (events : List DepositEvent) (id : Uuid) : List DepositEvent :=
  events.filter fun e => decide (e.depositId = id) && decide (e.eventType ∈ PAYER_EVENTS)

/-! ## Nothing else shows -/

section Data

variable {v v' : Value} {fields : List String}

/-- What is picked depends on the picked fields. -/
theorem Value.pick_congr (h : ∀ field ∈ fields, v.present field = v'.present field)
    (into : Value) : v.pick fields into = v'.pick fields into := by
  rw [Value.pick, Value.pick]
  induction fields generalizing into with
  | nil => rfl
  | cons field fields ih =>
    rw [List.foldl_cons, List.foldl_cons, h field List.mem_cons_self]
    exact ih (fun f hf => h f (List.mem_cons_of_mem _ hf)) _

/-- There is nothing to pick from what is no object. -/
theorem Value.pick_of_not_isObject (h : v.isObject = false) (fields : List String) (into : Value) :
    v.pick fields into = into := by
  have hpresent (field : String) : v.present field = none := by
    cases v with
    | object => cases h
    | _ => rfl
  rw [Value.pick]
  induction fields with
  | nil => rfl
  | cons field fields ih => rw [List.foldl_cons, hpresent, Option.map_none, Option.getD_none, ih]

theorem payerTransfer_of_not_isObject (h : v.isObject = false) : payerTransfer v = .object [] := by
  cases v with
  | object => cases h
  | _ => rfl

/-- Data that is no object needs no case of its own. -/
theorem payerData_eq (type : EventType) (v : Value) :
    payerData type v = if type = .failed then
      v.pick ["code"] (v.pick DATA_FIELDS (payerTransfer v)) else
      v.pick DATA_FIELDS (payerTransfer v) := by
  cases h : v.isObject with
  | true => simp only [payerData, h, if_true]
  | false => simp [payerData, h, Value.pick_of_not_isObject, payerTransfer_of_not_isObject]

/-- An object under `transfer` is cut to its fields, anything else is dropped. -/
theorem payerTransfer_eq (v : Value) :
    payerTransfer v = if v.hasTransfer then
      (Value.object []).set "transfer"
        (((v.get "transfer").getD .null).pick TRANSFER_FIELDS (.object [])) else .object [] := by
  rw [payerTransfer, Value.hasTransfer]
  rcases v.get "transfer" with _ | w
  · rfl
  · cases w <;> rfl

theorem Value.present_transfer (v : Value) (field : String) :
    ((v.get "transfer").getD .null).present field = v.transferField field := by
  rw [Value.transferField]
  cases v.get "transfer" <;> rfl

variable {type : EventType}

theorem SameData.payerTransfer (h : SameData type v v') : payerTransfer v = payerTransfer v' := by
  have hpick (into : Value) : ((v.get "transfer").getD .null).pick TRANSFER_FIELDS into =
      ((v'.get "transfer").getD .null).pick TRANSFER_FIELDS into := by
    apply Value.pick_congr
    intro field hfield
    rw [Value.present_transfer, Value.present_transfer, h.transferFields field hfield]
  rw [payerTransfer_eq, payerTransfer_eq, h.transfer, hpick]

/-- The payer sees the allowlisted fields of an event's data. -/
theorem SameData.payerData (h : SameData type v v') : payerData type v = payerData type v' := by
  have hdata (into : Value) : v.pick DATA_FIELDS into = v'.pick DATA_FIELDS into :=
    Value.pick_congr h.dataFields into
  rw [payerData_eq, payerData_eq, h.payerTransfer, hdata]
  split
  · next hfailed =>
    apply Value.pick_congr
    intro field hfield
    obtain rfl := List.mem_singleton.mp hfield
    exact h.code hfailed
  · rfl

end Data

/-- The payer sees of an event what the view publishes of it. -/
theorem DepositEvent.SamePublished.payer {e e' : DepositEvent} (h : e.SamePublished e') :
    e.payer = e'.payer := by
  have hdata := h.data.payerData
  rw [DepositEvent.payer, DepositEvent.payer, h.id, h.sequence, h.createdAt, hdata, h.eventType]

/-- Sorted and cut to the payer's fields, or the other way round: the order is by a field the
payer sees. -/
theorem eventsThrough_payer (events : List DepositEvent) (id : Uuid) (through : ℕ) :
    (eventsThrough events id through PAYER_EVENTS).map DepositEvent.payer =
      (((payerVisible events id).map DepositEvent.payer).filter
        (decide <| ·.sequence ≤ through)).mergeSort
        fun a b => decide (a.sequence ≤ b.sequence) := by
  have hsplit : (events.filter fun e => decide (e.depositId = id) &&
      decide (e.sequence ≤ through) && decide (e.eventType ∈ PAYER_EVENTS)) =
      (payerVisible events id).filter fun e => decide (e.payer.sequence ≤ through) := by
    rw [payerVisible, List.filter_filter]
    apply List.filter_congr
    intro e _
    rw [Bool.and_right_comm, Bool.and_comm]
    rfl
  rw [eventsThrough, hsplit, List.filter_map]
  exact List.map_mergeSort fun _ _ _ _ => rfl

/-- **Nothing private shows.** Two deposits that agree on what the view publishes, the one event by
event as the other on the types a payer sees, are answered alike at the same time. -/
theorem payerView_private (toRfc3339 : DateTime → String) {d d' : Deposit}
    {events events' : List DepositEvent} (hd : d.SamePublished d')
    (hevents : List.Forall₂ DepositEvent.SamePublished (payerVisible events d.id)
      (payerVisible events' d'.id)) (now : DateTime) :
    payerView toRfc3339 events d now = payerView toRfc3339 events' d' now := by
  have hmap : (payerVisible events d.id).map DepositEvent.payer =
      (payerVisible events' d'.id).map DepositEvent.payer := by
    rw [← List.forall₂_eq_eq_eq, List.forall₂_map_left_iff, List.forall₂_map_right_iff]
    exact hevents.imp fun _ _ h => h.payer
  have hpayer : (eventsThrough events d.id d.eventSeq PAYER_EVENTS).map DepositEvent.payer =
      (eventsThrough events' d'.id d'.eventSeq PAYER_EVENTS).map DepositEvent.payer := by
    rw [eventsThrough_payer, eventsThrough_payer, hmap, hd.eventSeq]
  rw [payerView, payerView, PayerView.new, PayerView.new, hpayer, hd.id, hd.status, hd.eventSeq,
    hd.paymentAddress, hd.chainId, hd.tokenSymbol, hd.tokenAddress, hd.tokenDecimals, hd.amount,
    hd.confirmedAmount, hd.expiresAt, hd.txHash, hd.blockNumber, hd.failureCode, hd.createdAt,
    hd.updatedAt, hd.detectedAt, hd.settledAt, hd.failedAt, hd.expiredAt]

/-! ## Two deposits a payer cannot tell apart -/

namespace Fixture

/-- A deposit that was paid, and whose settlement failed. -/
def stuck : Deposit where
  id := 7
  userId := "user"
  chainId := 31337
  tokenSymbol := "USDC"
  tokenAddress := usdc.lowerHex
  tokenDecimals := 6
  amount := "2500000"
  receiver := receiver.lowerHex
  calls := []
  recovery := receiver.lowerHex
  salt := "0x01"
  expiresAt := expiry
  paymentAddress := new.paymentAddress.lowerHex
  reference := none
  webhookUrl := none
  status := .failed
  confirmedAmount := "2500000"
  watchId := some 55
  watchRegisteredAt := some (later 5)
  engineJobId := some 500
  engineSubmittedAt := some (later 20)
  txHash := none
  blockNumber := none
  failureCode := some "engine_expired"
  failureMessage := some "deadline passed"
  failureRevertData := none
  eventSeq := 4
  detectedAt := some (later 10)
  settledAt := none
  failedAt := some (later 30)
  expiredAt := none
  createdAt := later 0
  updatedAt := later 30

/-- Somebody else's, with other calls, ids and reasons. -/
def stuckToo : Deposit :=
  { stuck with
    userId := "somebody"
    receiver := usdc.lowerHex
    calls := [⟨usdc.lowerHex, "0x"⟩]
    recovery := usdc.lowerHex
    salt := "0x02"
    reference := some "invoice"
    webhookUrl := some "https://app.example"
    watchId := some 56
    engineJobId := some 501
    failureMessage := some "PaymentFactory.execute reverted"
    failureRevertData := some "0x08c379a0" }

/-- An event of the deposit, at its second. -/
def eventAt (sequence : ℕ) (type : EventType) (data : List (String × Value)) : DepositEvent where
  id := Fin.ofNat _ (2000 + sequence)
  depositId := 7
  sequence := sequence
  eventType := type
  data := .object data
  createdAt := later (10 * sequence)

/-- What is recorded of a transfer, beside the sender it reports. -/
def seen (sender : String) (extra : List (String × Value)) : Value :=
  .object (("from", .string sender) :: extra)

/-- The timeline of the first. -/
def stuckEvents : List DepositEvent := [
  eventAt 1 .created [],
  eventAt 2 .watchRegistered [("watch_id", .string "55")],
  eventAt 3 .detected [("transfer", seen "0x09" []), ("tx_hash", .null)],
  eventAt 4 .failed [("code", .string "engine_expired"), ("message", .string "deadline passed")]]

/-- The timeline of the second: another message, another hidden event, data a payer never sees. -/
def stuckTooEvents : List DepositEvent := [
  eventAt 1 .created [("code", .string "private")],
  eventAt 2 .reconciled [("confirmed_amount", .string "1")],
  eventAt 3 .detected [("transfer", seen "0x09" [("watch", .null)]), ("engine_job_id", .null)],
  eventAt 4 .failed [("code", .string "engine_expired"), ("message", .string "reverted")]]

end Fixture

/-- The two look the same, and are not. -/
theorem payerView_private_sample :
    Fixture.stuck.userId ≠ Fixture.stuckToo.userId ∧
    Fixture.stuck.failureMessage ≠ Fixture.stuckToo.failureMessage ∧
    payerView (fun _ => "now") Fixture.stuckEvents Fixture.stuck Fixture.expiry =
      payerView (fun _ => "now") Fixture.stuckTooEvents Fixture.stuckToo Fixture.expiry := by
  refine ⟨by decide, by decide, payerView_private _ ?_ ?_ _⟩
  · constructor <;> rfl
  · have hvisible : List.Forall₂ DepositEvent.SamePublished
        (payerVisible Fixture.stuckEvents 7) (payerVisible Fixture.stuckTooEvents 7) := by
      refine .cons ?_ (.cons ?_ (.cons ?_ .nil)) <;>
        refine ⟨rfl, rfl, rfl, rfl, rfl, fun field hfield => ?_, fun field hfield => ?_,
          fun hfailed => ?_⟩
      any_goals first | rfl | cases hfailed | (fin_cases hfield <;> rfl)
    exact hvisible

end GumServer
