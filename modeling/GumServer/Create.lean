import GumServer.Deposit
import GumServer.Request

/-!
# Storing a deposit

`create_deposit` binds a validated request to the columns of `deposits` and reads the row back
with `RETURNING`. The columns differ from what is bound and from what is read: an amount goes in
as decimal text cast to `NUMERIC(78, 0)` and comes out as text, the calls go through `JSONB`, the
time through `TIMESTAMPTZ`, the chain id through a signed `BIGINT`.

The columns themselves store what they are given. What has to be shown is that no term is changed
by the encodings around them: the terms of the row are the ones the address was derived from.
-/

namespace GumServer

open Bytes

/-! ## Columns -/

/-- The columns `create_deposit` writes, as the table types them. -/
structure Columns where
  id : Uuid
  userId : String
  chainId : ℤ
  tokenSymbol : String
  tokenAddress : String
  tokenDecimals : ℤ
  /-- `NUMERIC(78, 0)` -/
  amount : ℕ
  receiver : String
  /-- `JSONB` -/
  calls : Value
  recovery : String
  salt : String
  /-- `TIMESTAMPTZ`, in microseconds -/
  expiresAt : ℤ
  paymentAddress : String
  reference : Option String
  webhookUrl : Option String

/-- `CAST(text AS numeric)` into `NUMERIC(78, 0)`, on decimal digits: nothing else is bound. -/
def numericOfText (text : String) : Option ℕ :=
  if text ≠ "" ∧ text.toList.all Char.isDigit ∧ Nat.ofDigitChars 10 text.toList 0 < 10 ^ 78 then
    some (Nat.ofDigitChars 10 text.toList 0)
  else none

/-- `numeric::text`. -/
def textOfNumeric (n : ℕ) : String := toString n

/-- A call as JSON. -/
def CallView.toValue (view : CallView) : Value :=
  .object [("target", .string view.target), ("data", .string view.data)]

/-- A call read from JSON. -/
def CallView.ofValue (v : Value) : Option CallView := do
  let target ← v.strField "target"
  let data ← v.strField "data"
  some { target, data }

/-- `create_deposit`'s bindings, under the id it minted. -/
def NewDeposit.bind (new : NewDeposit) (id : Uuid) (userId : String) : Option Columns := do
  let amount ← numericOfText (toString new.amount.val)
  some {
    id := id
    userId := userId
    chainId := new.chainId.toI64
    tokenSymbol := new.tokenSymbol
    tokenAddress := new.tokenAddress.lowerHex
    tokenDecimals := new.tokenDecimals.val
    amount := amount
    receiver := new.receiver.lowerHex
    calls := .array (new.calls.toList.map fun call => (CallView.ofCall call).toValue)
    recovery := new.recovery.lowerHex
    salt := lowerHex (B256.toBytes new.salt)
    expiresAt := new.expiresAt.toMicros
    paymentAddress := new.paymentAddress.lowerHex
    reference := new.reference.map fun r => lowerHex (B256.toBytes r)
    webhookUrl := new.webhookUrl }

/-- The row of some columns, the others at their defaults. -/
def Columns.read (c : Columns) (now : DateTime) : Option Deposit := do
  let calls ← c.calls.asArray.bind (List.mapM CallView.ofValue)
  let expiresAt ← DateTime.ofMicros c.expiresAt
  some {
    id := c.id
    userId := c.userId
    chainId := c.chainId
    tokenSymbol := c.tokenSymbol
    tokenAddress := c.tokenAddress
    tokenDecimals := c.tokenDecimals
    amount := textOfNumeric c.amount
    receiver := c.receiver
    calls := calls
    recovery := c.recovery
    salt := c.salt
    expiresAt := expiresAt
    paymentAddress := c.paymentAddress
    reference := c.reference
    webhookUrl := c.webhookUrl
    status := .pending
    confirmedAmount := textOfNumeric 0
    watchId := none
    watchRegisteredAt := none
    engineJobId := none
    engineSubmittedAt := none
    txHash := none
    blockNumber := none
    failureCode := none
    failureMessage := none
    failureRevertData := none
    eventSeq := 0
    detectedAt := none
    settledAt := none
    failedAt := none
    expiredAt := none
    createdAt := now
    updatedAt := now }

/-- The `INSERT … RETURNING` of `create_deposit`. -/
def insertDeposit (new : NewDeposit) (id : Uuid) (userId : String) (now : DateTime) :
    Option Deposit :=
  (new.bind id userId).bind fun columns => columns.read now

/-! ## What the encodings keep -/

section Encodings

/-- A 256-bit number is inside `NUMERIC(78, 0)`. -/
theorem numericOfText_toString (n : U256) : numericOfText (toString n.val) = some n.val := by
  have htext : toString n.val = String.ofList (Nat.toDigits 10 n.val) := by
    rw [show toString n.val = n.val.repr from rfl, Nat.repr_eq_ofList_toDigits]
  have hne : String.ofList (Nat.toDigits 10 n.val) ≠ "" := by
    intro h
    have hlist := congrArg String.toList h
    rw [String.toList_ofList] at hlist
    exact Nat.toDigits_ne_nil hlist
  have hlt : n.val < 10 ^ 78 := Nat.lt_of_lt_of_le n.isLt (by decide)
  rw [numericOfText, htext]
  simp only [String.toList_ofList, Nat.ofDigitChars_ten_toDigits]
  exact if_pos ⟨hne, all_isDigit_toDigits n.val, hlt⟩

@[simp] theorem CallView.ofValue_toValue (view : CallView) :
    CallView.ofValue view.toValue = some view := rfl

theorem mapM_ofValue_toValue (views : List CallView) :
    (views.map CallView.toValue).mapM CallView.ofValue = some views := by
  induction views with
  | nil => rfl
  | cons view views ih => simp [ih]

theorem mapM_toCall_ofCall (lib : Crates) (calls : List Call) :
    (calls.map CallView.ofCall).mapM (CallView.toCall lib) = some calls := by
  induction calls with
  | nil => rfl
  | cons call calls ih => simp [ih]

end Encodings

/-! ## The row of a validated request -/

/-- What the row of a new deposit has of its terms. -/
structure Stores (d : Deposit) (new : NewDeposit) : Prop where
  chainId : d.chainId = new.chainId.toI64
  tokenAddress : d.tokenAddress = new.tokenAddress.lowerHex
  amount : d.amount = toString new.amount.val
  calls : d.calls = new.calls.toList.map CallView.ofCall
  recovery : d.recovery = new.recovery.lowerHex
  salt : d.salt = lowerHex (B256.toBytes new.salt)
  expiresAt : d.expiresAt = new.expiresAt
  paymentAddress : d.paymentAddress = new.paymentAddress.lowerHex

/-- A request at a whole second is stored: nothing it binds is refused, and the row reads back. -/
theorem exists_insertDeposit (new : NewDeposit) {t : DateTime}
    (hexpires : new.expiresAt = t.wholeSeconds) (id : Uuid) (userId : String) (now : DateTime) :
    ∃ d, insertDeposit new id userId now = some d ∧ Stores d new := by
  have hcalls : (new.calls.toList.map fun call => (CallView.ofCall call).toValue).mapM
      CallView.ofValue = some (new.calls.toList.map CallView.ofCall) := by
    have h := mapM_ofValue_toValue (new.calls.toList.map CallView.ofCall)
    rw [List.map_map] at h
    exact h
  have htime : DateTime.ofMicros new.expiresAt.toMicros = some new.expiresAt := by
    rw [hexpires]
    exact t.ofMicros_toMicros_wholeSeconds
  simp only [insertDeposit, NewDeposit.bind, numericOfText_toString, Option.bind_eq_bind,
    Option.bind_some, Columns.read, Value.asArray, hcalls, htime]
  exact ⟨_, rfl, rfl, rfl, rfl, rfl, rfl, rfl, rfl, rfl⟩

namespace Stores

variable {d : Deposit} {new : NewDeposit} (lib : Crates)

/-- The terms of the row are the new deposit's. -/
theorem terms_eq (h : Stores d new) : d.terms lib = some {
    token := new.tokenAddress
    amount := new.amount
    calls := new.calls
    expirationTimestamp := U64.ofInt new.expiresAt.timestamp
    recovery := new.recovery
    salt := new.salt
    chainId := new.chainId } := by
  have hcalls : d.callsOf lib = some new.calls.toList := by
    rw [Deposit.callsOf, h.calls, mapM_toCall_ofCall]
  rw [Deposit.terms, h.tokenAddress, h.amount, hcalls, h.recovery, h.salt, h.expiresAt, h.chainId]
  simp only [Crates.parseAddress_lowerHex, Crates.fromStrRadix_toString,
    Crates.parseB256_lowerHex, Vec.ofList?_toList, Option.bind_eq_bind, Option.bind_some,
    U64.ofInt_toI64]

/-- The address of the row is the new deposit's. -/
theorem paymentAddressOf_eq (h : Stores d new) :
    d.paymentAddressOf lib = some new.paymentAddress := by
  rw [Deposit.paymentAddressOf, h.paymentAddress, Crates.parseAddress_lowerHex]

end Stores

/-- A row as it is inserted: open, bound to nothing yet, and with nothing known of a settlement. -/
structure Inserted (d : Deposit) (new : NewDeposit) (id : Uuid) : Prop where
  id : d.id = id
  calls : d.calls = new.calls.toList.map CallView.ofCall
  paymentAddress : d.paymentAddress = new.paymentAddress.lowerHex
  status : d.status = .pending
  confirmedAmount : d.confirmedAmount = "0"
  watchId : d.watchId = none
  engineJobId : d.engineJobId = none
  txHash : d.txHash = none
  failureCode : d.failureCode = none
  eventSeq : d.eventSeq = 0

theorem Inserted.of_insert {new : NewDeposit} {id : Uuid} {userId : String} {now : DateTime}
    {d : Deposit} (h : insertDeposit new id userId now = some d) : Inserted d new id := by
  obtain ⟨columns, hcolumns, hread⟩ := Option.bind_eq_some_iff.mp h
  obtain ⟨amount, -, hbind⟩ := Option.bind_eq_some_iff.mp hcolumns
  obtain ⟨calls, hcalls, hread⟩ := Option.bind_eq_some_iff.mp hread
  obtain ⟨expiresAt, -, hread⟩ := Option.bind_eq_some_iff.mp hread
  obtain rfl := Option.some.inj hbind
  obtain rfl := Option.some.inj hread
  have hviews := mapM_ofValue_toValue (new.calls.toList.map CallView.ofCall)
  rw [List.map_map] at hviews
  exact ⟨rfl, Option.some.inj (hcalls.symm.trans hviews), rfl, rfl, rfl, rfl, rfl, rfl, rfl, rfl⟩

/-- The `INSERT` stamps its row. -/
theorem stamps_of_insert {new : NewDeposit} {id : Uuid} {userId : String} {now : DateTime}
    {d : Deposit} (h : insertDeposit new id userId now = some d) :
    d.createdAt = now ∧ d.updatedAt = now := by
  obtain ⟨columns, -, hread⟩ := Option.bind_eq_some_iff.mp h
  obtain ⟨calls, -, hread⟩ := Option.bind_eq_some_iff.mp hread
  obtain ⟨expiresAt, -, hread⟩ := Option.bind_eq_some_iff.mp hread
  rw [← Option.some.inj hread]
  exact ⟨rfl, rfl⟩

/-- **The row keeps the committed terms.** Whatever a validated request is stored as, the row's
terms are the ones its payment address was derived from, the address of the row's terms is the
stored one, and the settlement submitted for the row executes exactly those terms. -/
theorem validated_terms_stored (lib : Crates) (keccak256 : List UInt8 → B256)
    (parseUrl : String → Except String Url) (v : Validator) (req : CreateDepositRequest)
    (now : DateTime) (salt : B256) (new : NewDeposit)
    (h : Validator.validate lib keccak256 parseUrl v req now salt = .ok new)
    (id : Uuid) (userId : String) (storedAt : DateTime) :
    ∃ (d : Deposit) (terms : PaymentTerms),
      insertDeposit new id userId storedAt = some d ∧
      terms = {
        token := new.tokenAddress
        amount := new.amount
        calls := new.calls
        expirationTimestamp := U64.ofInt req.expiresAt.timestamp
        recovery := v.recovery
        salt := salt
        chainId := new.chainId } ∧
      new.paymentAddress = terms.paymentAddress keccak256 v.factory ∧
      d.terms lib = some terms ∧
      d.paymentAddressOf lib = some (terms.paymentAddress keccak256 v.factory) ∧
      ∀ webhook, d.submitTransaction lib v.factory webhook = some {
        chainId := terms.chainId
        target := v.factory
        data := terms.executeCalldata
        webhook := webhook } := by
  obtain ⟨_, chain, token, amount, receiver, reference, webhookUrl, -, -, -, -, -, -, -, hnew⟩ :=
    Validator.validate_eq_ok h
  have hexpires : new.expiresAt = req.expiresAt.wholeSeconds := by rw [hnew]; rfl
  obtain ⟨d, hd, hstores⟩ := exists_insertDeposit new hexpires id userId storedAt
  have hterms := hstores.terms_eq lib
  have haddress := hstores.paymentAddressOf_eq lib
  subst hnew
  refine ⟨d, _, hd, rfl, rfl, hterms, haddress, ?_⟩
  intro webhook
  rw [Deposit.submitTransaction, hterms, Option.map_some, hstores.chainId, U64.ofInt_toI64]
  rfl

namespace Fixture

/-- A registry with the fixture's chain and token. -/
def registry : Registry :=
  .fromConfig [("anvil", ⟨"anvil", 31337, true, [⟨"usdc", usdc, 6⟩]⟩)]

/-- The fixture's configuration. -/
def validator : Validator where
  registry := registry
  minExpiryLeadSecs := 300
  maxExpirySecs := 30 * 86400
  allowInsecureTargets := false
  factory := factory
  recovery := (terms 1).recovery

/-- The second the fixture's payments expire. -/
def expiry : DateTime := .ofSecs 1800000000 (by decide)

/-- An hour before. -/
def requestedAt : DateTime := .ofSecs 1799996400 (by decide)

/-- The request of the fixture's payment. -/
def request : CreateDepositRequest where
  chainId := .string " anvil"
  token := "usdc"
  amount := .string "2500000"
  receiver := "0x70997970c51812dc3a010c7d01b50e0d17dc79c8"
  expiresAt := expiry
  reference := none
  webhookUrl := some ""

/-- No webhook is given, so no URL is parsed. -/
def parseUrl (_ : String) : Except String Url := .error "relative URL without a base"

/-- The fixture's request, validated under the salt 1. -/
def validated : Except ApiError NewDeposit :=
  Validator.validate Crates.reference keccak256 parseUrl validator request requestedAt 1

theorem validated_terms : validated.toOption.map
    (fun new => (new.tokenAddress, new.amount, new.calls, new.chainId)) =
      some ((terms 1).token, (terms 1).amount, (terms 1).calls, (terms 1).chainId) := by
  decide +kernel

theorem exists_validated : ∃ new, validated = .ok new ∧ new.tokenAddress = (terms 1).token ∧
    new.amount = (terms 1).amount ∧ new.calls = (terms 1).calls ∧
    new.chainId = (terms 1).chainId := by
  obtain ⟨new, hnew, heq⟩ := Option.map_eq_some_iff.mp validated_terms
  simp only [Prod.mk.injEq] at heq
  exact ⟨new, Checks.toOption_eq_some.mp hnew, heq⟩

end Fixture

/-- On the fixture: the row of its request has the fixture's terms. -/
theorem validated_terms_stored_fixture :
    ∃ new d, Fixture.validated = .ok new ∧
      insertDeposit new 7 "user" Fixture.requestedAt = some d ∧
      d.terms Crates.reference = some (Fixture.terms 1) ∧
      d.paymentAddressOf Crates.reference =
        some ((Fixture.terms 1).paymentAddress Fixture.keccak256 Fixture.factory) := by
  obtain ⟨new, hnew, htoken, hamount, hcalls, hchain⟩ := Fixture.exists_validated
  obtain ⟨d, terms, hd, hterms, -, hread, haddress, -⟩ := validated_terms_stored Crates.reference
    Fixture.keccak256 Fixture.parseUrl Fixture.validator Fixture.request Fixture.requestedAt 1 new
    hnew 7 "user" Fixture.requestedAt
  have hfixture : terms = Fixture.terms 1 := by
    rw [hterms, htoken, hamount, hcalls, hchain]
    rfl
  rw [hfixture] at hread haddress
  exact ⟨new, d, hnew, hd, hread, haddress⟩

end GumServer
