import GumServer.Chrono
import GumServer.Json
import GumServer.Payment

/-!
# Deposits

`deposit/mod.rs`: a row of `deposits` as every query selects it, the events of its timeline, and
what is computed from a row. Addresses are lowercase hex text and amounts decimal text, so the
terms of a payment are parsed back from the row (`Deposit.terms`) before they are sent anywhere.
-/

namespace GumServer

open Bytes

/-! ## Identifiers -/

/-- `uuid::Uuid`. -/
abbrev Uuid : Type := Fin (2 ^ 128)

instance Uuid.instNeZero : NeZero (2 ^ 128) := ⟨by decide⟩

/-- `Uuid::to_string`: hex in five groups. -/
def Uuid.text (id : Uuid) : String :=
  let hex := hexChars (toBe 16 id.val)
  String.ofList (hex.take 8 ++ '-' :: ((hex.drop 8).take 4 ++ '-' :: ((hex.drop 12).take 4 ++
    '-' :: ((hex.drop 16).take 4 ++ '-' :: hex.drop 20))))

theorem length_hexChars (bs : List UInt8) : (hexChars bs).length = 2 * bs.length := by
  induction bs with
  | nil => rfl
  | cons b bs ih =>
    simp only [hexChars, List.length_cons, ih]
    omega

@[simp] theorem Uuid.length_text (id : Uuid) : id.text.toList.length = 36 := by
  simp [Uuid.text, length_hexChars]

theorem hexChars_injective {as bs : List UInt8} (h : hexChars as = hexChars bs) : as = bs := by
  have hdecode := unhex_hexChars as
  rw [h, unhex_hexChars] at hdecode
  exact (Option.some.inj hdecode).symm

/-- A group of a text and what follows it. -/
theorem drop_eq_take_append {α : Type} (cs : List α) (n k : ℕ) :
    cs.drop n = (cs.drop n).take k ++ cs.drop (n + k) := by
  rw [← List.drop_drop, List.take_append_drop]

theorem Uuid.text_injective : Function.Injective Uuid.text := by
  intro a b h
  have hlist := congrArg String.toList h
  have hlen (id : Uuid) : (hexChars (toBe 16 id.val)).length = 32 := by simp [length_hexChars]
  simp only [Uuid.text, String.toList_ofList] at hlist
  obtain ⟨h1, hlist⟩ := List.append_inj hlist (by simp [hlen])
  obtain ⟨h2, hlist⟩ := List.append_inj (List.cons.inj hlist).2 (by simp [hlen])
  obtain ⟨h3, hlist⟩ := List.append_inj (List.cons.inj hlist).2 (by simp [hlen])
  obtain ⟨h4, hlist⟩ := List.append_inj (List.cons.inj hlist).2 (by simp [hlen])
  have h5 := (List.cons.inj hlist).2
  have hhex : hexChars (toBe 16 a.val) = hexChars (toBe 16 b.val) := by
    have hsplit (cs : List Char) : cs.take 8 ++ ((cs.drop 8).take 4 ++ ((cs.drop 12).take 4 ++
        ((cs.drop 16).take 4 ++ cs.drop 20))) = cs := by
      rw [← drop_eq_take_append cs 16 4, ← drop_eq_take_append cs 12 4,
        ← drop_eq_take_append cs 8 4, List.take_append_drop]
    rw [← hsplit (hexChars (toBe 16 a.val)), h1, h2, h3, h4, h5, hsplit]
  have hbytes := congrArg beNat (hexChars_injective hhex)
  have ha : a.val < 256 ^ 16 := a.isLt
  have hb : b.val < 256 ^ 16 := b.isLt
  rw [beNat_toBe_of_lt ha, beNat_toBe_of_lt hb] at hbytes
  exact Fin.ext hbytes

/-! ## Rows -/

/-- `DepositStatus`. -/
inductive DepositStatus : Type where
  | pending | partialPaid | paid | settled | failed | expired
deriving DecidableEq

namespace DepositStatus

/-- `DepositStatus::is_terminal`. -/
def isTerminal : DepositStatus → Bool
  | settled | failed | expired => true
  | pending | partialPaid | paid => false

/-- `status IN ('pending', 'partial_paid')`. -/
def isOpen : DepositStatus → Bool
  | pending | partialPaid => true
  | paid | settled | failed | expired => false

end DepositStatus

/-- `CallView`: a settlement call as stored and served, in lowercase hex. -/
structure CallView where
  target : String
  data : String
deriving DecidableEq

/-- `CallView::from(&Call)`. -/
def CallView.ofCall (call : Call) : CallView :=
  ⟨call.target.lowerHex, lowerHex call.data.toList⟩

/-- `CallView::to_call`; `none` is the panic on text that does not parse. -/
def CallView.toCall (lib : Crates) (view : CallView) : Option Call := do
  let target ← lib.parseAddress view.target
  let data ← (lib.parseBytes view.data).bind Vec.ofList?
  some { target, data }

@[simp] theorem CallView.toCall_ofCall (lib : Crates) (call : Call) :
    (CallView.ofCall call).toCall lib = some call := by
  simp [CallView.toCall, CallView.ofCall]

/-- A `deposits` row. -/
structure Deposit where
  id : Uuid
  userId : String
  /-- a `BIGINT` -/
  chainId : ℤ
  tokenSymbol : String
  tokenAddress : String
  /-- a `SMALLINT` -/
  tokenDecimals : ℤ
  /-- `amount::text` -/
  amount : String
  receiver : String
  /-- the settlement calls, in order -/
  calls : List CallView
  recovery : String
  salt : String
  expiresAt : DateTime
  paymentAddress : String
  reference : Option String
  webhookUrl : Option String
  status : DepositStatus
  /-- `confirmed_amount::text` -/
  confirmedAmount : String
  watchId : Option Uuid
  watchRegisteredAt : Option DateTime
  engineJobId : Option Uuid
  engineSubmittedAt : Option DateTime
  txHash : Option String
  blockNumber : Option ℤ
  failureCode : Option String
  failureMessage : Option String
  /-- `execute`'s revert data, in hex -/
  failureRevertData : Option String
  /-- the sequence of the last event -/
  eventSeq : ℕ
  detectedAt : Option DateTime
  settledAt : Option DateTime
  failedAt : Option DateTime
  expiredAt : Option DateTime
  createdAt : DateTime
  updatedAt : DateTime
deriving DecidableEq

namespace Deposit

variable (lib : Crates) (d : Deposit)

/-- `Deposit::payment_address`. -/
def paymentAddressOf : Option Address := lib.parseAddress d.paymentAddress

/-- `Deposit::calls`. -/
def callsOf : Option (List Call) := d.calls.mapM (CallView.toCall lib)

/-- `Deposit::terms`; `none` is the panic on text that does not parse. -/
def terms : Option PaymentTerms := do
  let token ← lib.parseAddress d.tokenAddress
  let amount ← lib.fromStrRadix d.amount
  let calls ← (d.callsOf lib).bind Vec.ofList?
  let recovery ← lib.parseAddress d.recovery
  let salt ← lib.parseB256 d.salt
  some {
    token, amount, calls
    expirationTimestamp := U64.ofInt d.expiresAt.timestamp
    recovery, salt
    chainId := U64.ofInt d.chainId }

end Deposit

/-- `clients::engine::SubmitTransaction`. -/
structure SubmitTransaction where
  chainId : U64
  /-- `to` -/
  target : Address
  data : List UInt8
  /-- `webhook.url` -/
  webhook : String
deriving DecidableEq

/-- The submission `submit_execute` makes for a deposit. -/
def Deposit.submitTransaction (lib : Crates) (factory : Address) (webhook : String) (d : Deposit) :
    Option SubmitTransaction :=
  (d.terms lib).map fun terms => {
    chainId := U64.ofInt d.chainId
    target := factory
    data := terms.executeCalldata
    webhook := webhook }

/-! ## Events -/

/-- The event types of a timeline. -/
inductive EventType : Type where
  | created | watchRegistered | watchLost | reconciled | detected | paymentConfirmed
  | paymentOrphaned | ready | settlementSubmitted | settlementIncluded | settlementRetried
  | settled | failed | expired
deriving DecidableEq

namespace EventType

/-- The text of an event type. -/
def asStr : EventType → String
  | created => "deposit.created"
  | watchRegistered => "deposit.watch_registered"
  | watchLost => "deposit.watch_lost"
  | reconciled => "deposit.reconciled"
  | detected => "deposit.detected"
  | paymentConfirmed => "deposit.payment_confirmed"
  | paymentOrphaned => "deposit.payment_orphaned"
  | ready => "deposit.ready"
  | settlementSubmitted => "deposit.settlement_submitted"
  | settlementIncluded => "deposit.settlement_included"
  | settlementRetried => "deposit.settlement_retried"
  | settled => "deposit.settled"
  | failed => "deposit.failed"
  | expired => "deposit.expired"

/-- `is_app_facing`: also delivered to the app's webhook. -/
def isAppFacing : EventType → Bool
  | detected | paymentConfirmed | paymentOrphaned | ready | settled | failed | expired => true
  | _ => false

end EventType

/-- `DepositEvent`: a `deposit_events` row. -/
structure DepositEvent where
  id : Uuid
  depositId : Uuid
  sequence : ℕ
  eventType : EventType
  data : Value
  createdAt : DateTime

end GumServer
