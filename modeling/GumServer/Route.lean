import GumServer.RelayCall

/-!
# Holding a quote to the terms

`check_quote` (`deposit/relay.rs`): the quote's own figures, the signed order behind it,
and every transaction the wallet would sign. What comes back is the route the page may
execute; anything else is a refusal with its reason.

The route's transactions are checked in order, with the wallet's tab threaded through
them; the native value and the tab are held against the quoted input at the end.
-/

namespace GumServer

open Bytes Checks

/-! ## What the page gets -/

/-- A token, as the page shows it. -/
structure SourceToken where
  address : String
  symbol : String
  name : String
  decimals : UInt8
  logoUri : Option String

/-- An amount of a token on a chain. -/
structure RouteAmount where
  chainId : U64
  currency : SourceToken
  amount : String
  amountUsd : Option String

/-- What the route costs on top of the amount. -/
structure RouteFees where
  routeUsd : Option String
  gas : Option RouteAmount

/-- One transaction for the wallet to send. -/
structure RouteStep where
  id : String
  description : String
  chainId : U64
  callee : String
  data : String
  /-- wei, decimal string -/
  value : String

/-- An accepted route. -/
structure RouteQuote where
  requestId : String
  quotedAt : String
  origin : RouteAmount
  destination : RouteAmount
  fees : RouteFees
  timeEstimateSecs : Option Float
  steps : List RouteStep

/-- `logo`: only over https. -/
def logo (uri : Option String) : Option String :=
  uri.filter fun u => "https://".toList.isPrefixOf u.toList

/-- `route_amount`. -/
def routeAmount (a : QuoteAmount) : RouteAmount where
  chainId := a.currency.chainId
  currency := {
    address := toAsciiLowercase a.currency.address
    symbol := a.currency.symbol
    name := a.currency.name
    decimals := a.currency.decimals
    logoUri := logo a.currency.logoUri }
  amount := a.amount
  amountUsd := a.amountUsd

/-- `is_hash`: `0x` and sixty-four hex digits. -/
def isHash (raw : String) : Bool :=
  byteLen raw == 66 && match strip0x raw.toList with
    | some cs => cs.all isHexDigit
    | none => false

/-! ## One transaction -/

section Step

variable (lib : Crates)

/-- The bytes of a step's calldata: `0x`, an even length, hex digits only. -/
def stepCalldata (calldata : String) : Option (List UInt8) :=
  match strip0x calldata.toList with
  | none => none
  | some cs =>
    if byteLen calldata % 2 = 0 ∧ cs.all isHexDigit then lib.hexDecode (String.ofList cs) else none

/-- The value a step attaches: nothing, or a decimal number of wei. -/
def stepValue (id : String) (value : Option Value) : Except String String :=
  match value with
  | none => .ok "0"
  | some .null => .ok "0"
  | some (.string s) =>
    if (baseUnits lib (some s)).isSome then .ok (trim s)
    else .error s!"step {id} has value {lib.displayValue (.string s)}"
  | some other => .error s!"step {id} has value {lib.displayValue other}"

/-- A call of the wallet on the payer's token: an allowance or a transfer to Relay, for no
more than the quoted input. -/
def checkTokenStep (id : String) (want : Expected) (inputAmount : U256) (bytes : List UInt8)
    (spend : Spend) : Except String Spend := do
  let (selector, args) ← okOr (splitAtChecked bytes 4) s!"step {id} calls the token with no selector"
  refuseIf ((selector != APPROVE && selector != TRANSFER) || args.length < 64)
    s!"step {id} makes an unexpected call on the payer's token"
  let target := Address.ofBytes ((args.drop 12).take 20)
  let amount := U256.ofBytes ((args.drop 32).take 32)
  refuseIf (inputAmount < amount)
    s!"step {id} approves or transfers {amount}, more than the quoted {inputAmount}"
  if selector = APPROVE then do
    refuseIf (!want.relayRoles.mayHoldAllowance target)
      s!"step {id} approves {target.lowerHex}, which may not hold an allowance"
    pure (spend.grant target amount)
  else do
    refuseIf (!want.relayRoles.depositories.contains target)
      s!"step {id} transfers to {target.lowerHex}, which is not Relay's depository"
    (spend.transfer amount).mapError fun e => s!"step {id} {e}"

/-- The check of a transaction that was spelled out: on the token, or on Relay's contracts. -/
def checkCall (id : String) (want : Expected) (inputAmount : U256) (callee : Address)
    (calldata : List UInt8) (value : U256) (s : Spend) : Except String Spend :=
  if want.isToken callee then checkTokenStep id want inputAmount calldata s
  else if want.relayRoles.contains callee then do
    let spent ← checkRelayCall ⟨callee, calldata, value⟩ ⟨id, want, inputAmount, 0⟩ (some s)
    pure (spent.getD s)
  else
    .error s!"step {id} calls {callee.lowerHex}, which is not one of Relay's contracts on the origin chain"

/-- `check_step`: one transaction, from the payer on the origin chain, to the payer's token
or to one of Relay's contracts. -/
def checkStep (id description : String) (data : Value) (want : Expected) (inputAmount : U256)
    (spend : Spend) : Except String (RouteStep × Spend) := do
  let chainId := ((data.get "chainId").bind Value.asU64).getD 0
  refuseIf (chainId != want.originChainId)
    s!"step {id} runs on chain {chainId}, not the origin"
  let sender := textField data "from"
  refuseIf (!sameAddress lib sender want.user)
    s!"step {id} is sent from {sender}, not the payer"
  let callee ← okOr (lib.parseAddress (textField data "to")) s!"step {id} has no valid target"
  let calldata := textField data "data"
  let bytes ← okOr (stepCalldata lib calldata) s!"step {id} has malformed calldata"
  let value ← stepValue lib id (data.get "value")
  let valueWei := (baseUnits lib (some value)).getD U256.MAX
  let spend ← checkCall id want inputAmount callee bytes valueWei spend
  pure (⟨id, description, chainId, callee.lowerHex, toAsciiLowercase calldata, value⟩, spend)

/-- `is_approval`: is this step's transaction only an approval on the payer's token? Read
from the transaction itself. -/
def isApproval (data : Value) (want : Expected) : Bool :=
  if want.originCurrency = 0 then false
  else
    let callee := (data.strField "to").bind lib.parseAddress
    let selector := (((data.strField "data").bind fun c => strip0x c.toList).filter
      fun cs => 8 ≤ byteLen (String.ofList cs)).bind
        fun cs => lib.hexDecode (String.ofList (cs.take 8))
    match callee, selector with
    | some callee, some selector => callee == want.originCurrency && selector == APPROVE
    | _, _ => false

end Step

/-! ## The route -/

section Quote

variable (lib : Crates)

/-- How far the loop over the transactions has come. -/
structure Progress where
  steps : List RouteStep
  funded : Bool
  spend : Spend

/-- One transaction of the loop: none may follow the one that funds the payment. -/
def checkItem (want : Expected) (inputAmount : U256) (step : QuoteStep) (acc : Progress)
    (item : Value) : Except String Progress := do
  refuseIf acc.funded
    s!"step {step.id} comes after the payment is funded; a route must end at its funding transaction, so the wallet owns the payment as soon as one transaction has gone out"
  let (routeStep, spend) ← checkStep lib step.id step.description item want inputAmount acc.spend
  pure ⟨acc.steps ++ [routeStep], !isApproval lib item want, spend⟩

/-- One step of the loop: plain transactions only. -/
def checkItems (want : Expected) (inputAmount : U256) (acc : Progress) (step : QuoteStep) :
    Except String Progress := do
  refuseIf (step.kind != "transaction")
    s!"step {step.id} is a {step.kind} step; only transactions are supported"
  each (checkItem lib want inputAmount step) step.items acc

/-- The wei of one step, added up; a value that is no number counts as the largest. -/
def addValue (value : U256) (step : RouteStep) : Except String U256 :=
  okOr (checkedAdd value ((baseUnits lib (some step.value)).getD U256.MAX))
    "the route's native value overflows"

/-- `{:?}` of an optional string. -/
def debugOption (s : Option String) : String :=
  match s with
  | some s => s!"Some({lib.debugStr s})"
  | none => "None"

/-- The quote's own figures: who pays, who is paid, what, and how much is guaranteed. The
answer is the quoted input. -/
def checkDetails (d : QuoteDetails) (want : Expected) : Except String U256 := do
  refuseIf (!sameAddress lib d.sender want.user) s!"sender {d.sender} is not the payer"
  refuseIf (!sameAddress lib d.recipient want.recipient)
    s!"recipient {d.recipient} is not the payment address"
  let out := d.currencyOut
  refuseIf (out.currency.chainId != want.destinationChainId ||
      !sameAddress lib out.currency.address want.token)
    s!"pays {out.currency.address} on chain {out.currency.chainId}, not the deposit's token"
  refuseIf (out.currency.decimals != want.tokenDecimals)
    s!"pays in {out.currency.decimals} decimals, not the deposit token's {want.tokenDecimals}"
  let shown := debugOption lib out.minimumAmount
  let guaranteed ← okOr (baseUnits lib out.minimumAmount)
    s!"guarantees {shown}, which is no number of base units"
  refuseIf (guaranteed < want.amount) s!"guarantees {shown}, less than {want.amount}"
  let input := d.currencyIn
  refuseIf (input.currency.chainId != want.originChainId ||
      !sameAddress lib input.currency.address want.originCurrency)
    s!"takes {input.currency.address} on chain {input.currency.chainId}, not what the payer chose"
  refuseIf (input.currency.decimals != want.originDecimals)
    s!"takes {input.currency.decimals} decimals on the origin chain, not the {want.originDecimals} Relay lists for it"
  okOr (baseUnits lib (some input.amount))
    s!"input amount {lib.debugStr input.amount} is not base units"

/-- `protocol.v2.orderData`, when it is an object. -/
def signedOrder (quote : Quote) : Option Value :=
  (quote.protocol.bind fun p => p.pointer ["v2", "orderData"]).filter Value.isObject

/-- What the page gets of an accepted quote. -/
def routeQuote (quotedAt : String) (quote : Quote) (want : Expected) (steps : List RouteStep) :
    RouteQuote where
  requestId := toAsciiLowercase (quote.requestId.getD "")
  quotedAt
  origin := routeAmount quote.details.currencyIn
  destination := { routeAmount quote.details.currencyOut with amount := toString want.amount }
  fees := {
    routeUsd := quote.details.totalImpactUsd.bind lib.routeUsd
    gas := (quote.gasFee.filter fun g => g.amount != "0").map routeAmount }
  timeEstimateSecs := quote.details.timeEstimate.filter fun t => t.isFinite && 0 ≤ t
  steps

/-- `check_quote`. Returns what the page may execute, or why not. -/
def checkQuote (quotedAt : String) (quote : Quote) (want : Expected) :
    Except String RouteQuote := do
  let requestId := quote.requestId.getD ""
  refuseIf (!isHash requestId) s!"request id {lib.debugStr requestId} is not a 32-byte hex id"
  let inputAmount ← checkDetails lib quote.details want
  let order ← okOr (signedOrder quote) "no signed order (protocol.v2.orderData) to check"
  checkOrder lib order want inputAmount
  let done ← each (checkItems lib want inputAmount) quote.steps ⟨[], false, Spend.new⟩
  refuseIf (!done.funded) "no steps to execute"
  let value ← each (addValue lib) done.steps 0
  let limit := if want.originCurrency = 0 then inputAmount else 0
  refuseIf (limit < value) s!"the steps send {value} wei of value; the quote takes {limit}"
  let taken ← done.spend.exposure
  refuseIf (inputAmount < taken)
    s!"the steps take {taken} from the wallet; the quote is for {inputAmount}"
  pure (routeQuote lib quotedAt quote want done.steps)

end Quote

end GumServer
