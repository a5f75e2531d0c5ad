import GumServer.Json
import GumServer.Checks

/-!
# Relay's quote and its signed order

The wire types of a Relay quote (`clients/relay.rs`), what the service expects of it
(`Expected`), and `check_order`: the signed order behind the route, held to the
deposit's terms. The order is untyped JSON, so every field is looked up by name and a
missing one falls back to an empty string before it is compared.

`OrderHolds` is what the check is for: each clause names the field it found and the
value it carried, so none of them is met by a field that was not there.
`checkOrder_holds` says an accepted order has all of them.
-/

namespace GumServer

open Checks

/-! ## Relay's contracts and the terms -/

/-- Relay's contracts on one chain, by role. -/
structure RelayRoles where
  /-- takes deposits and holds them for solver-signed orders -/
  depositories : List Address
  /-- pulls the payer's allowance and runs the route's calls -/
  approvalProxies : List Address
  /-- forwards the transaction's value to Relay's solver -/
  receivers : List Address
  /-- runs a route's nested calls -/
  routers : List Address

namespace RelayRoles

/-- Is this one of Relay's contracts at all? -/
def contains (r : RelayRoles) (a : Address) : Bool :=
  r.depositories.contains a || r.approvalProxies.contains a || r.receivers.contains a ||
    r.routers.contains a

/-- A spender a wallet or router may approve. -/
def mayHoldAllowance (r : RelayRoles) (a : Address) : Bool :=
  r.depositories.contains a || r.approvalProxies.contains a

end RelayRoles

/-- What a route must do, from the deposit and the payer's choice. -/
structure Expected where
  user : Address
  originChainId : U64
  originCurrency : Address
  destinationChainId : U64
  token : Address
  recipient : Address
  amount : U256
  relayRoles : RelayRoles
  originDecimals : UInt8
  tokenDecimals : UInt8
  /-- Relay's names for the origin chain, lowercased -/
  originChainNames : List String
  /-- Relay's names for the deposit's chain, lowercased -/
  destinationChainNames : List String

/-- Is the address the payer's token? The native currency has no contract. -/
def Expected.isToken (want : Expected) (callee : Address) : Prop :=
  want.originCurrency ≠ 0 ∧ callee = want.originCurrency

instance (want : Expected) (callee : Address) : Decidable (want.isToken callee) :=
  inferInstanceAs (Decidable (_ ∧ _))

/-! ## The wire types

Only the fields a check or the answer reads. -/

/-- A token's listing. -/
structure QuoteCurrency where
  chainId : U64
  address : String
  symbol : String
  name : String
  decimals : UInt8
  /-- `metadata.logoURI` -/
  logoUri : Option String

/-- An amount of a token, in base units. -/
structure QuoteAmount where
  currency : QuoteCurrency
  amount : String
  amountUsd : Option String
  minimumAmount : Option String

/-- `details` of a quote. -/
structure QuoteDetails where
  sender : String
  recipient : String
  currencyIn : QuoteAmount
  currencyOut : QuoteAmount
  /-- `totalImpact.usd` -/
  totalImpactUsd : Option String
  timeEstimate : Option Float

/-- One step of the route; `items` are the transactions' open JSON. -/
structure QuoteStep where
  id : String
  description : String
  kind : String
  items : List Value

/-- `POST /quote/v2`'s answer. -/
structure Quote where
  requestId : Option String
  steps : List QuoteStep
  /-- `fees.gas` -/
  gasFee : Option QuoteAmount
  details : QuoteDetails
  protocol : Option Value

/-! ## Fields -/

section Fields

variable (lib : Crates)

/-- `same_address`: does the text spell this address? -/
def sameAddress (raw : String) (want : Address) : Bool := lib.parseAddress raw == some want

/-- `base_units`: a decimal number of base units. -/
def baseUnits (raw : Option String) : Option U256 := raw.bind fun s => lib.fromStrRadix (trim s)

/-- Is this signed-order chain field the given chain? By number, by a number in text, or
by one of Relay's names for it. -/
def isChain (field : Option Value) (id : U64) (names : List String) : Bool :=
  match field with
  | none => false
  | some field =>
    if field.asU64 = some id then true
    else match field.asStr.map trim with
      | none => false
      | some spelled =>
        match parseU64 spelled with
        | some n => n == id
        | none => names.any (· == toAsciiLowercase spelled)

/-- `get(key).and_then(Value::as_str).unwrap_or_default()`. -/
def textField (v : Value) (key : String) : String := (v.strField key).getD ""

end Fields

/-! ## The signed order -/

section Order

variable (lib : Crates)

/-- One payment of the order: to the payment address, in the deposit's token; its
guaranteed minimum is added to the running total. -/
def checkPayment (want : Expected) (total : U256) (p : Value) : Except String U256 := do
  let recipient := textField p "recipient"
  let currency := textField p "currency"
  refuseIf (!sameAddress lib recipient want.recipient || !sameAddress lib currency want.token)
    s!"the order pays {currency} to {recipient}"
  let minimum ← okOr ((p.strField "minimumAmount").bind fun s => baseUnits lib (some s))
    "a payment of the signed order has no minimumAmount"
  okOr (checkedAdd total minimum) "the signed order's payments overflow"

/-- One refund of an input: to the payer in what they paid with, or to the payment
address in the deposit's token. -/
def checkRefund (want : Expected) (_ : Unit) (refund : Value) : Except String Unit :=
  let recipient := textField refund "recipient"
  let currency := textField refund "currency"
  let toPayer :=
    sameAddress lib recipient want.user && sameAddress lib currency want.originCurrency
  let toDeposit := sameAddress lib recipient want.recipient && sameAddress lib currency want.token
  let onOrigin := isChain (refund.get "chainId") want.originChainId want.originChainNames
  let onDestination :=
    isChain (refund.get "chainId") want.destinationChainId want.destinationChainNames
  let chain := lib.debugValue (refund.get "chainId")
  refuseIf (!(onOrigin && toPayer) && !(onDestination && toDeposit))
    s!"the order refunds {currency} to {recipient} on {chain}, neither the payer's nor this payment's"

/-- One input of the order: the origin currency on the origin chain, with refunds that
come back; its amount is added to the running total. -/
def checkInput (want : Expected) (taken : U256) (input : Value) : Except String U256 := do
  let payment ← okOr ((input.get "payment").filter Value.isObject)
    "an input of the signed order has no payment"
  let currency := textField payment "currency"
  refuseIf (!sameAddress lib currency want.originCurrency)
    s!"the order takes {currency}, not what the payer chose"
  let chain := lib.debugValue (payment.get "chainId")
  refuseIf (!isChain (payment.get "chainId") want.originChainId want.originChainNames)
    s!"the order takes {currency} on {chain}"
  let amount ← okOr (baseUnits lib (payment.strField "amount"))
    "an input of the signed order has no amount"
  let taken ← okOr (checkedAdd taken amount) "the signed order's inputs overflow"
  let refunds ← okOr ((input.get "refunds").bind Value.asArray)
    "an input of the signed order has no refunds"
  refuseIf refunds.isEmpty "an input of the signed order has nowhere its refunds go"
  each (checkRefund lib want) refunds ()
  pure taken

/-- The signed order behind the route (`protocol.v2.orderData`). A missing or malformed
term is a refusal. -/
def checkOrder (order : Value) (want : Expected) (inputAmount : U256) : Except String Unit := do
  let output ← okOr (order.get "output") "the signed order has no output"
  let payments ← okOr ((output.get "payments").bind Value.asArray)
    "the signed order has no payments to check"
  refuseIf payments.isEmpty "the signed order pays nothing"
  let chain := lib.debugValue (output.get "chainId")
  refuseIf (!isChain (output.get "chainId") want.destinationChainId want.destinationChainNames)
    s!"the signed order settles on {chain}"
  let total ← each (checkPayment lib want) payments 0
  refuseIf (total < want.amount) s!"the order guarantees {total}, less than {want.amount}"
  let inputs ← okOr ((order.get "inputs").bind Value.asArray) "the signed order has no inputs"
  refuseIf inputs.isEmpty "the signed order takes nothing"
  let taken ← each (checkInput lib want) inputs 0
  refuseIf (taken != inputAmount) s!"the order takes {taken}, not the quoted {inputAmount}"

end Order

/-! ## What an accepted order says -/

section Holds

variable (lib : Crates)

/-- The field is there, is a string, and spells this address. -/
def SpellsAddress (v : Value) (key : String) (a : Address) : Prop :=
  ∃ s, v.get key = some (.string s) ∧ lib.parseAddress s = some a

/-- The field is there, is a string, and is this number of base units. -/
def SpellsAmount (v : Value) (key : String) (n : U256) : Prop :=
  ∃ s, v.get key = some (.string s) ∧ lib.fromStrRadix (trim s) = some n

/-- The field is there and names this chain, by number or by one of its names. -/
def NamesChain (v : Value) (key : String) (id : U64) (names : List String) : Prop :=
  v.get key = some (.number (.posInt id)) ∨
    ∃ s, v.get key = some (.string s) ∧
      (parseU64 (trim s) = some id ∨ toAsciiLowercase (trim s) ∈ names)

/-- A payment of the order: `minimum` of the deposit's token, to the payment address. -/
def PaysDeposit (want : Expected) (p : Value) (minimum : U256) : Prop :=
  SpellsAddress lib p "recipient" want.recipient ∧ SpellsAddress lib p "currency" want.token ∧
    SpellsAmount lib p "minimumAmount" minimum

/-- A refund that comes back: to the payer in the origin currency on the origin chain, or
to the payment address in the deposit's token on the deposit's chain. -/
def RefundsBack (want : Expected) (refund : Value) : Prop :=
  (SpellsAddress lib refund "recipient" want.user ∧
    SpellsAddress lib refund "currency" want.originCurrency ∧
    NamesChain refund "chainId" want.originChainId want.originChainNames) ∨
  (SpellsAddress lib refund "recipient" want.recipient ∧
    SpellsAddress lib refund "currency" want.token ∧
    NamesChain refund "chainId" want.destinationChainId want.destinationChainNames)

/-- An input of the order: `amount` of the origin currency on the origin chain, and at
least one refund, all of which come back. -/
def TakesOrigin (want : Expected) (input : Value) (amount : U256) : Prop :=
  (∃ payment, input.get "payment" = some payment ∧
    SpellsAddress lib payment "currency" want.originCurrency ∧
    NamesChain payment "chainId" want.originChainId want.originChainNames ∧
    SpellsAmount lib payment "amount" amount) ∧
  ∃ refunds, input.get "refunds" = some (.array refunds) ∧ refunds ≠ [] ∧
    ∀ refund ∈ refunds, RefundsBack lib want refund

/-- The exact sum of some amounts, as an unbounded number. -/
def total (amounts : List U256) : ℕ := (amounts.map Fin.val).sum

/-- The terms of a signed order, every one of them read from a field that is there. -/
structure OrderHolds (order : Value) (want : Expected) (inputAmount : U256) : Prop where
  /-- what it pays: the deposit's token to the payment address, no less than wanted -/
  pays : ∃ output payments minimums,
    order.get "output" = some output ∧ output.get "payments" = some (.array payments) ∧
    payments ≠ [] ∧
    NamesChain output "chainId" want.destinationChainId want.destinationChainNames ∧
    List.Forall₂ (PaysDeposit lib want) payments minimums ∧
    want.amount.val ≤ total minimums
  /-- what it takes: the origin currency on the origin chain, exactly the quoted input -/
  takes : ∃ inputs amounts,
    order.get "inputs" = some (.array inputs) ∧ inputs ≠ [] ∧
    List.Forall₂ (TakesOrigin lib want) inputs amounts ∧
    total amounts = inputAmount.val

variable {lib}

theorem sameAddress_iff {raw : String} {a : Address} :
    sameAddress lib raw a = true ↔ lib.parseAddress raw = some a := by
  simp [sameAddress]

/-- A field that compares equal to an address is there: the empty default parses to none. -/
theorem spellsAddress_of_same {v : Value} {key : String} {a : Address}
    (h : sameAddress lib (textField v key) a = true) : SpellsAddress lib v key a := by
  rw [sameAddress_iff, textField] at h
  rcases hf : v.strField key with _ | s
  · rw [hf, Option.getD_none, lib.parseAddress_empty] at h
    cases h
  · rw [hf, Option.getD_some] at h
    exact ⟨s, Value.strField_eq_some.mp hf, h⟩

theorem spellsAmount_of_units {v : Value} {key : String} {n : U256}
    (h : baseUnits lib (v.strField key) = some n) : SpellsAmount lib v key n := by
  obtain ⟨s, hs, hn⟩ := Option.bind_eq_some_iff.mp h
  exact ⟨s, Value.strField_eq_some.mp hs, hn⟩

theorem isChain_number {n id : U64} {names : List String}
    (h : isChain (some (.number (.posInt n))) id names = true) : n = id := by
  rw [isChain] at h
  simp only [Value.asU64, Value.asStr, Option.map_none, Option.some.injEq] at h
  by_contra hne
  rw [if_neg hne] at h
  cases h

theorem isChain_string {s : String} {id : U64} {names : List String}
    (h : isChain (some (.string s)) id names = true) :
    parseU64 (trim s) = some id ∨ toAsciiLowercase (trim s) ∈ names := by
  rw [isChain] at h
  simp only [Value.asU64, Value.asStr, Option.map_some, reduceCtorEq, if_false] at h
  rcases hp : parseU64 (trim s) with _ | n
  · simp only [hp] at h
    obtain ⟨name, hname, heq⟩ := List.any_eq_true.mp h
    exact .inr (eq_of_beq heq ▸ hname)
  · simp only [hp] at h
    exact .inl (congrArg some (eq_of_beq h))

/-- A field that passes for a chain is there, and names it. -/
theorem namesChain_of_is {v : Value} {key : String} {id : U64} {names : List String}
    (h : isChain (v.get key) id names = true) : NamesChain v key id names := by
  rw [NamesChain]
  rcases hf : v.get key with _ | field
  · rw [hf] at h
    cases h
  · rw [hf] at h
    cases field with
    | number n =>
      cases n with
      | posInt m =>
        obtain rfl := isChain_number h
        exact .inl rfl
      | negInt _ => cases h
      | float _ => cases h
    | string s => exact .inr ⟨s, rfl, isChain_string h⟩
    | null => cases h
    | bool _ => cases h
    | array _ => cases h
    | object _ => cases h

/-- A step that adds one amount, repeated: the loop added exactly the sum of them, and
each element had the amount that was added for it. -/
theorem each_sum {step : U256 → Value → Except String U256} {R : Value → U256 → Prop}
    (hstep : ∀ {acc v acc'}, step acc v = .ok acc' →
      ∃ n, R v n ∧ acc'.val = acc.val + n.val) :
    ∀ {vs : List Value} {acc acc' : U256}, each step vs acc = .ok acc' →
      ∃ ns, List.Forall₂ R vs ns ∧ acc'.val = acc.val + total ns := by
  intro vs
  induction vs with
  | nil =>
    intro acc acc' h
    obtain rfl := Except.ok.inj h
    exact ⟨[], .nil, by simp [total]⟩
  | cons v vs ih =>
    intro acc acc' h
    obtain ⟨mid, hv, hvs⟩ := each_cons_eq_ok.mp h
    obtain ⟨n, hn, hmid⟩ := hstep hv
    obtain ⟨ns, hns, hacc⟩ := ih hvs
    refine ⟨n :: ns, .cons hn hns, ?_⟩
    rw [hacc, hmid, total, total, List.map_cons, List.sum_cons]
    omega

theorem checkPayment_ok {want : Expected} {acc acc' : U256} {p : Value}
    (h : checkPayment lib want acc p = .ok acc') :
    ∃ n, PaysDeposit lib want p n ∧ acc'.val = acc.val + n.val := by
  obtain ⟨hsame, h⟩ := refuseIf_bind_eq_ok.mp h
  obtain ⟨minimum, hmin, h⟩ := okOr_bind_eq_ok.mp h
  obtain ⟨s, hs, hn⟩ := Option.bind_eq_some_iff.mp hmin
  simp only [Bool.or_eq_false_iff, Bool.not_eq_false'] at hsame
  refine ⟨minimum, ⟨spellsAddress_of_same hsame.1, spellsAddress_of_same hsame.2, ?_⟩,
    checkedAdd_eq_some.mp (okOr_eq_ok.mp h)⟩
  exact spellsAmount_of_units (by rw [hs]; exact hn)

theorem checkRefund_ok {want : Expected} {u v : Unit} {refund : Value}
    (h : checkRefund lib want u refund = .ok v) : RefundsBack lib want refund := by
  have h := refuseIf_eq_ok.mp h
  simp only [Bool.and_eq_false_iff, Bool.not_eq_false', Bool.and_eq_true] at h
  rcases h with ⟨hchain, hto, hcur⟩ | ⟨hchain, hto, hcur⟩
  · exact .inl ⟨spellsAddress_of_same hto, spellsAddress_of_same hcur, namesChain_of_is hchain⟩
  · exact .inr ⟨spellsAddress_of_same hto, spellsAddress_of_same hcur, namesChain_of_is hchain⟩

theorem checkRefunds_ok {want : Expected} {refunds : List Value} {u v : Unit}
    (h : each (checkRefund lib want) refunds u = .ok v) :
    ∀ refund ∈ refunds, RefundsBack lib want refund := by
  intro refund hmem
  obtain ⟨_, _, hrefund⟩ := each_mem h hmem
  exact checkRefund_ok hrefund

theorem checkInput_ok {want : Expected} {acc acc' : U256} {input : Value}
    (h : checkInput lib want acc input = .ok acc') :
    ∃ n, TakesOrigin lib want input n ∧ acc'.val = acc.val + n.val := by
  obtain ⟨payment, hpay, h⟩ := okOr_bind_eq_ok.mp h
  obtain ⟨hcur, h⟩ := refuseIf_bind_eq_ok.mp h
  obtain ⟨hchain, h⟩ := refuseIf_bind_eq_ok.mp h
  obtain ⟨amount, hamount, h⟩ := okOr_bind_eq_ok.mp h
  obtain ⟨taken, htaken, h⟩ := okOr_bind_eq_ok.mp h
  obtain ⟨refunds, hrefunds, h⟩ := okOr_bind_eq_ok.mp h
  obtain ⟨hne, h⟩ := refuseIf_bind_eq_ok.mp h
  obtain ⟨u, hback, h⟩ := bind_eq_ok.mp h
  obtain rfl := pure_eq_ok.mp h
  obtain ⟨rs, hrs, hrsa⟩ := Option.bind_eq_some_iff.mp hrefunds
  rw [Value.asArray_eq_some] at hrsa
  subst hrsa
  refine ⟨amount, ⟨⟨payment, (Option.filter_eq_some_iff.mp hpay).1, ?_, ?_, ?_⟩,
    refunds, hrs, ?_, checkRefunds_ok hback⟩, checkedAdd_eq_some.mp htaken⟩
  · exact spellsAddress_of_same (by simpa using hcur)
  · exact namesChain_of_is (by simpa using hchain)
  · exact spellsAmount_of_units hamount
  · simpa using hne

/-- **An accepted order holds**: it pays the deposit, takes the quoted input and refunds
only the payer or the payment. -/
theorem checkOrder_holds {order : Value} {want : Expected} {inputAmount : U256} {u : Unit}
    (h : checkOrder lib order want inputAmount = .ok u) :
    OrderHolds lib order want inputAmount := by
  obtain ⟨output, hout, h⟩ := okOr_bind_eq_ok.mp h
  obtain ⟨payments, hpayments, h⟩ := okOr_bind_eq_ok.mp h
  obtain ⟨hpne, h⟩ := refuseIf_bind_eq_ok.mp h
  obtain ⟨hchain, h⟩ := refuseIf_bind_eq_ok.mp h
  obtain ⟨sum, hsum, h⟩ := bind_eq_ok.mp h
  obtain ⟨hamount, h⟩ := refuseIf_bind_eq_ok.mp h
  obtain ⟨inputs, hinputs, h⟩ := okOr_bind_eq_ok.mp h
  obtain ⟨hine, h⟩ := refuseIf_bind_eq_ok.mp h
  obtain ⟨taken, htaken, h⟩ := bind_eq_ok.mp h
  have heq := refuseIf_eq_ok.mp h
  obtain ⟨ps, hps, hpsa⟩ := Option.bind_eq_some_iff.mp hpayments
  obtain ⟨is, his, hisa⟩ := Option.bind_eq_some_iff.mp hinputs
  rw [Value.asArray_eq_some] at hpsa hisa
  subst hpsa hisa
  obtain ⟨minimums, hmins, htotal⟩ := each_sum (R := PaysDeposit lib want) checkPayment_ok hsum
  obtain ⟨amounts, hams, htook⟩ := each_sum (R := TakesOrigin lib want) checkInput_ok htaken
  have hzero : (0 : U256).val = 0 := rfl
  rw [hzero, Nat.zero_add] at htotal htook
  constructor
  · refine ⟨output, payments, minimums, hout, hps, List.isEmpty_eq_false_iff.mp hpne,
      namesChain_of_is (by simpa using hchain), hmins, ?_⟩
    have hle : ¬ sum < want.amount := decide_eq_false_iff_not.mp hamount
    rw [Fin.lt_def, htotal] at hle
    exact Nat.le_of_not_lt hle
  · refine ⟨inputs, amounts, his, List.isEmpty_eq_false_iff.mp hine, hams, ?_⟩
    have hsame : taken = inputAmount := bne_eq_false_iff_eq.mp heq
    rw [← hsame, htook]

end Holds

end GumServer
