import GumServer.Faults
import GumServer.Router

/-!
# Evaluating the checks of a quote

The checks again, with the operations the source leaves unchecked as what they are: `&raw[2..]` cuts
text, `&args[12..32]` takes a slice, `expect` wants a value, `-` subtracts at 256 bits, `depth + 1`
adds at eight, and every call of `check_relay_call` or `check_nested_call` takes a frame of the
stack. Each definition here is the one of the same name in the checks, step for step; only the
operations can fault.

What only calls checked operations (`get`, `split_at_checked`, `checked_add`) is not repeated: it is
lifted into the sequence as it stands.
-/

namespace GumServer.Evaluation

open Bytes Checks Faults

/-! ## Reading -/

namespace Abi

/-- `Abi::address`: the word is an array of thirty-two, the slices of it are not. -/
def address (r : Abi) : Faulty Unit (Address × Abi) := do
  let (w, r) ← r.word
  let front ← range w 0 12
  refuseIf (front.any (· ≠ 0)) ()
  let back ← range w 12 w.length
  let bytes ← exactly 20 back
  pure (Address.ofBytes bytes, r)

/-- `Abi::uint`. -/
def uint (r : Abi) : Faulty Unit (U256 × Abi) := do
  let (w, r) ← r.word
  let bytes ← atMost 32 w
  pure (U256.ofBytes bytes, r)

/-- `Abi::offset`. -/
def offset (r : Abi) : Faulty Unit (ℕ × Abi) := do
  let (n, r) ← uint r
  if n.val ≤ MAX_ABI_OFFSET then pure (n.val, r) else found none

/-- `Abi::bytes`. -/
def bytesArg (r : Abi) : Faulty Unit (List UInt8 × Abi) := do
  let (off, r) ← offset r
  let start := r.base + off
  let (len, _) ← uint (r.moved start start)
  if MAX_ABI_BYTES < len.val then found none
  else do
    let data ← slice? r.bytes (start + 32) len.val
    pure (data, r)

/-- Read so many items in a row. -/
def items {α : Type} (item : Abi → Faulty Unit (α × Abi)) : ℕ → Abi → Faulty Unit (List α)
  | 0, _ => pure []
  | n + 1, r => do
    let (a, r) ← item r
    let rest ← items item n r
    pure (a :: rest)

/-- `Abi::static_items`. -/
def staticItems {α : Type} (item : Abi → Faulty Unit (α × Abi)) (r : Abi) :
    Faulty Unit (List α × Abi) := do
  let (off, r) ← offset r
  let start := r.base + off
  let (len, inner) ← uint (r.moved start start)
  if MAX_ABI_ITEMS < len.val then found none
  else do
    let out ← items item len.val (inner.moved inner.pos inner.pos)
    pure (out, r)

/-- A `bool`: a word that is zero or one. -/
def boolean (r : Abi) : Faulty Unit (Bool × Abi) := do
  let (raw, r) ← uint r
  if raw = 0 then pure (false, r) else if raw = 1 then pure (true, r) else found none

/-- One nested call, behind its offset. -/
def nestedCall (r : Abi) : Faulty Unit (NestedCall × Abi) := do
  let (off, r) ← offset r
  let start := r.base + off
  let (target, el) ← address (r.moved start start)
  let (allowFailure, el) ← boolean el
  let (value, el) ← uint el
  let (data, _) ← bytesArg el
  pure (⟨target, allowFailure, value, data⟩, r)

/-- `Abi::nested_calls`. -/
def nestedCalls (r : Abi) : Faulty Unit (List NestedCall × Abi) := staticItems nestedCall r

end Abi

/-- Read `depositErc20`'s arguments. -/
def readDepositErc20 (args : List UInt8) : Faulty Unit DepositErc20 := do
  let (depositor, r) ← Abi.address (GumServer.Abi.new args)
  let (token, r) ← Abi.address r
  let (amount, r) ← Abi.uint r
  let (orderId, _) ← r.word
  pure { depositor, token, amount, orderId }

/-- Read `depositNative`'s arguments. -/
def readDepositNative (args : List UInt8) : Faulty Unit DepositNative := do
  let (depositor, r) ← Abi.address (GumServer.Abi.new args)
  let (orderId, _) ← r.word
  pure { depositor, orderId }

/-- Read what is pulled. -/
def readPulls (r : Abi) : Faulty Unit (Pulls × Abi) := do
  let (tokens, r) ← Abi.staticItems Abi.address r
  let (amounts, r) ← Abi.staticItems Abi.uint r
  pure ({ tokens, amounts }, r)

/-- Read the nested calls and who gets the surplus. -/
def readMulticall (withMetadata : Bool) (r : Abi) : Faulty Unit Multicall := do
  let (calls, r) ← Abi.nestedCalls r
  let (refundTo, r) ← Abi.address r
  let (nftRecipient, r) ← Abi.address r
  if withMetadata then do
    let _ ← Abi.bytesArg r
    pure { calls, refundTo, nftRecipient }
  else pure { calls, refundTo, nftRecipient }

/-! ## Calls on Relay's contracts -/

/-- `Spend::pull`: the covered part is subtracted. -/
def pull (s : Spend) (spender : Address) (amount : U256) : Faulty String Spend := do
  let allowances ← match s.allowances.get? spender with
    | some slot => do
      let covered := if amount < slot then amount else slot
      let left ← sub slot covered
      pure (s.allowances.put spender left)
    | none => pure s.allowances
  Spend.transfer { s with allowances } amount

section Relay

variable (route : Route)

/-- Charge a draw-down to the wallet's tab, where one is kept. -/
def chargePull (spend : Option Spend) (spender : Address) (amount : U256) :
    Faulty String (Option Spend) :=
  match spend with
  | some spend => do
    let spend ← mapErr route.refuse (pull spend spender amount)
    pure (some spend)
  | none => pure none

/-- A deposit. -/
def checkDepositErc20 (callee : Address) (args : List UInt8) (spend : Option Spend) :
    Faulty String (Option Spend) := do
  let d ← mapErr (fun _ => route.refuse "has malformed depositErc20 arguments")
    (readDepositErc20 args)
  checkPayee route d.depositor "deposits as"
  refuseIf (d.token != route.want.originCurrency)
    (route.refuse s!"deposits {d.token.lowerHex}, not the token being paid with")
  refuseIf (route.inputAmount < d.amount)
    (route.refuse s!"deposits {d.amount}, more than the quoted {route.inputAmount}")
  chargePull route spend callee d.amount

/-- A native deposit. -/
def checkDepositNative (args : List UInt8) : Faulty String Unit := do
  let d ← mapErr (fun _ => route.refuse "has malformed depositNative arguments")
    (readDepositNative args)
  checkPayee route d.depositor "deposits as"

/-- One pulled token. -/
def checkPull (callee : Address) (acc : Option Spend × U256) (pulled : Address × U256) :
    Faulty String (Option Spend × U256) := do
  let (token, amount) := pulled
  refuseIf (token != route.want.originCurrency)
    (route.refuse s!"pulls {token.lowerHex}, not the token being paid with")
  refuseIf (route.want.originCurrency == 0)
    (route.refuse "pulls the chain's native currency, which no allowance can")
  refuseIf (route.inputAmount < amount)
    (route.refuse s!"pulls {amount}, more than the quoted {route.inputAmount}")
  let spend ← chargePull route acc.1 callee amount
  let pulledTotal ← okOr (checkedAdd acc.2 amount)
    (route.refuse "pulls more than a quote can bound")
  pure (spend, pulledTotal)

/-- One nested call of the loop; the nesting depth is a byte. -/
def checkNested (nested : NestedCall → Route → Option Flow → Faulty String (Option Flow))
    (txValue : U256) (acc : U256 × Option Flow) (call : NestedCall) :
    Faulty String (U256 × Option Flow) := do
  refuseIf call.allowFailure (route.refuse "nests a call that may fail without saying so")
  let nestedValue ← okOr (checkedAdd acc.1 call.value) (route.refuse "nested calls overflow")
  refuseIf (txValue < nestedValue)
    (route.refuse "nests calls worth more than the transaction's value")
  let depth ← add 8 route.depth 1
  let flow ← mapErr route.refuse (nested call { route with depth } acc.2)
  pure (nestedValue, flow)

/-- Everything a `transferAndMulticall` pulls, added up. -/
def checkPulls (callee : Address) (pulls : Option Pulls) (spend : Option Spend) :
    Faulty String (Option Spend × U256) :=
  match pulls with
  | none => pure (spend, 0)
  | some p => do
    refuseIf (p.tokens.length != p.amounts.length)
      (route.refuse "pulls tokens and amounts of different lengths")
    (p.tokens.zip p.amounts).foldlM (checkPull route callee) (spend, 0)

/-- The balance of a pull; what is left is worked out for the refusal. -/
def checkFlow (flow : Option Flow) (pulledTotal : U256) : Faulty String Unit :=
  match flow.filter fun flow => flow.consumed != pulledTotal with
  | none => pure ()
  | some flow => do
    let left ← sub pulledTotal flow.consumed
    refuseIf true
      (route.refuse s!"leaves {left} of the pulled {pulledTotal} in Relay's router, where anyone could sweep it")

/-- What the router may be asked to run. -/
def checkMulticall (nested : NestedCall → Route → Option Flow → Faulty String (Option Flow))
    (callee : Address) (txValue : U256) (pulls : Option Pulls) (m : Multicall)
    (spend : Option Spend) : Faulty String (Option Spend) := do
  checkPayee route m.refundTo "sends its surplus to"
  checkPayee route m.nftRecipient "sends its claims to"
  refuseIf (pulls.isSome && m.calls.isEmpty)
    (route.refuse "pulls the quoted input but runs no calls to deposit it")
  let (spend, pulledTotal) ← checkPulls route callee pulls spend
  let (_, flow) ← m.calls.foldlM (checkNested route nested txValue)
    (0, pulls.map fun _ => Flow.new)
  checkFlow route flow pulledTotal
  pure spend

/-- A call on the payer's token, nested in a multicall: the arguments are sliced out. -/
def checkNestedToken (call : NestedCall) (flow : Option Flow) : Faulty String (Option Flow) := do
  let roles := route.want.relayRoles
  refuseIf (call.value != 0)
    (route.refuse "sends value with a call on the token, which takes none")
  let (selector, args) ← okOr (splitAtChecked call.data 4)
    (route.refuse "nests a call on the token with no selector")
  refuseIf (selector != APPROVE && selector != TRANSFER)
    (route.refuse
      s!"nests an unexpected call on the payer's token ({String.ofList (hexChars selector)})")
  refuseIf (args.length < 64)
    (route.refuse "nests a call on the token with truncated arguments")
  let spender ← range args 12 32
  let spender ← exactly 20 spender
  let spender := Address.ofBytes spender
  let amount ← range args 32 64
  let amount ← atMost 32 amount
  let amount := U256.ofBytes amount
  refuseIf (route.inputAmount < amount)
    (route.refuse s!"nests a call for {amount}, more than the quoted {route.inputAmount}")
  if selector = APPROVE then do
    refuseIf (!roles.mayHoldAllowance spender)
      (route.refuse s!"nests an allowance to {spender.lowerHex}, which may not hold one")
    match flow with
    | none => pure none
    | some flow => do
      let slot ← okOr (checkedAdd ((flow.granted.get? spender).getD 0) amount)
        (route.refuse "nested allowances overflow")
      pure (some { flow with granted := flow.granted.put spender slot })
  else if flow.isSome then
    sure (.error (route.refuse
      s!"nests a plain transfer to {spender.lowerHex}, which a misbehaving token could silently not make"))
  else do
    refuseIf (!roles.depositories.contains spender)
      (route.refuse s!"nests a transfer to {spender.lowerHex}, which is not Relay's depository")
    pure flow

/-- A nested deposit draws the router's fresh allowance down: the flow must be there, and the
amount is subtracted. -/
def chargeDeposit (target : Address) (data : List UInt8) (flow : Option Flow) :
    Faulty String (Option Flow) := do
  let amount ← atMost 32 ((slice? data 68 32).getD [])
  let amount := U256.ofBytes amount
  let flow ← expect flow
  let slot ← okOr (flow.granted.get? target)
    (route.refuse s!"draws down {amount} no nested call approved")
  refuseIf (slot < amount)
    (route.refuse s!"draws down {amount}, more than the nested calls approved")
  let left ← sub slot amount
  let consumed ← okOr (checkedAdd flow.consumed amount) (route.refuse "nested deposits overflow")
  pure (some ⟨flow.granted.put target left, consumed⟩)

end Relay

mutual

/-- A call to one of Relay's contracts, on a stack of so many frames. -/
def checkRelayCall : ℕ → WalletCall → Route → Option Spend → Faulty String (Option Spend)
  | 0, _, _, _ => attempt (.error .depth)
  | frames + 1, call, route, spend => do
    let (selector, args) ← okOr (splitAtChecked call.calldata 4)
      s!"step {route.id} calls {call.callee.lowerHex} with no selector"
    let nested := checkNestedCall frames
    let unknown := s!"{call.callee.lowerHex}{String.ofList (hexChars selector)}"
    let entrypoint ← okOr (Entrypoint.ofSelector selector)
      (route.refuse s!"makes a call the checks don't decode ({unknown}…)")
    checkRole route call.callee entrypoint
    match entrypoint with
    | .depositErc20 => checkDepositErc20 route call.callee args spend
    | .depositErc20All =>
      sure (.error (route.refuse "deposits by the wallet's whole allowance, which no quote bounds"))
    | .depositNative => do
      checkDepositNative route args
      pure spend
    | .multicall withMetadata => do
      let m ← mapErr (fun _ => route.refuse "has malformed multicall arguments")
        (readMulticall withMetadata (GumServer.Abi.new args))
      checkMulticall route nested call.callee call.value none m spend
    | .transferAndMulticall withMetadata => do
      let (pulls, r) ← mapErr
        (fun _ => route.refuse "has malformed transferAndMulticall arguments")
        (readPulls (GumServer.Abi.new args))
      let m ← mapErr (fun _ => route.refuse "has malformed multicall arguments")
        (readMulticall withMetadata r)
      checkMulticall route nested call.callee call.value (some pulls) m spend
    | .forward => do
      let _ ← mapErr (fun _ => route.refuse "has malformed forward arguments")
        (Abi.bytesArg (GumServer.Abi.new args))
      pure spend

/-- A call nested in a Relay router's multicall. -/
def checkNestedCall : ℕ → NestedCall → Route → Option Flow → Faulty String (Option Flow)
  | 0, _, _, _ => attempt (.error .depth)
  | frames + 1, call, route, flow =>
    let want := route.want
    if 1 < route.depth then
      sure (.error (route.refuse "nests calls within nested calls"))
    else if want.isToken call.target then
      checkNestedToken route call flow
    else if want.relayRoles.contains call.target then do
      let pullsDeposit := flow.isSome && want.relayRoles.depositories.contains call.target &&
        DEPOSIT_ERC20.isPrefixOf call.data
      let depth ← add 8 route.depth 1
      let _ ← checkRelayCall frames ⟨call.target, call.data, call.value⟩ { route with depth } none
      if pullsDeposit then chargeDeposit route call.target call.data flow else pure flow
    else
      sure (.error (route.refuse
        s!"nests a call to {call.target.lowerHex}, which is neither Relay's nor the payer's token"))

end

/-! ## Transactions -/

/-- `is_hash`: the text is cut only where it starts with `0x`. -/
def isHash (raw : String) : Except Fault Bool :=
  if byteLen raw = 66 ∧ (strip0x raw.toList).isSome then do
    let digits ← textFrom raw 2
    pure (digits.toList.all isHexDigit)
  else pure false

section Step

variable (lib : Crates)

/-- The bytes of a step's calldata: the text is cut twice, once to look at it, once to decode it. -/
def stepCalldata (calldata : String) : Except Fault (Option (List UInt8)) :=
  if (strip0x calldata.toList).isSome ∧ byteLen calldata % 2 = 0 then do
    let digits ← textFrom calldata 2
    if digits.toList.all isHexDigit then do
      let digits ← textFrom calldata 2
      pure (lib.hexDecode digits)
    else pure none
  else pure none

/-- A call of the wallet on the payer's token: the arguments are sliced out. -/
def checkTokenStep (id : String) (want : Expected) (inputAmount : U256) (bytes : List UInt8)
    (spend : Spend) : Faulty String Spend := do
  let (selector, args) ← okOr (splitAtChecked bytes 4) s!"step {id} calls the token with no selector"
  refuseIf ((selector != APPROVE && selector != TRANSFER) || args.length < 64)
    s!"step {id} makes an unexpected call on the payer's token"
  let target ← range args 12 32
  let target ← exactly 20 target
  let target := Address.ofBytes target
  let amount ← range args 32 64
  let amount ← atMost 32 amount
  let amount := U256.ofBytes amount
  refuseIf (inputAmount < amount)
    s!"step {id} approves or transfers {amount}, more than the quoted {inputAmount}"
  if selector = APPROVE then do
    refuseIf (!want.relayRoles.mayHoldAllowance target)
      s!"step {id} approves {target.lowerHex}, which may not hold an allowance"
    pure (spend.grant target amount)
  else do
    refuseIf (!want.relayRoles.depositories.contains target)
      s!"step {id} transfers to {target.lowerHex}, which is not Relay's depository"
    (spend.transfer amount).mapError fun e => s!"step {id} {e}"

/-- The frames that `check_relay_call` and `check_nested_call` take of the stack, one within the
other: a transaction's call, a call nested in it, a multicall in that, and the refusal of its
calls. -/
def FRAMES : ℕ := 4

/-- The check of a transaction that was spelled out. -/
def checkCall (id : String) (want : Expected) (inputAmount : U256) (callee : Address)
    (calldata : List UInt8) (value : U256) (s : Spend) : Faulty String Spend :=
  if want.isToken callee then checkTokenStep id want inputAmount calldata s
  else if want.relayRoles.contains callee then do
    let spent ← checkRelayCall FRAMES ⟨callee, calldata, value⟩ ⟨id, want, inputAmount, 0⟩ (some s)
    pure (spent.getD s)
  else
    sure (.error
      s!"step {id} calls {callee.lowerHex}, which is not one of Relay's contracts on the origin chain")

/-- `check_step`. -/
def checkStep (id description : String) (data : Value) (want : Expected) (inputAmount : U256)
    (spend : Spend) : Faulty String (RouteStep × Spend) := do
  let chainId := ((data.get "chainId").bind Value.asU64).getD 0
  refuseIf (chainId != want.originChainId)
    s!"step {id} runs on chain {chainId}, not the origin"
  let sender := textField data "from"
  refuseIf (!sameAddress lib sender want.user)
    s!"step {id} is sent from {sender}, not the payer"
  let callee ← okOr (lib.parseAddress (textField data "to")) s!"step {id} has no valid target"
  let calldata := textField data "data"
  let bytes ← stepCalldata lib calldata
  let bytes ← okOr bytes s!"step {id} has malformed calldata"
  let value ← stepValue lib id (data.get "value")
  let valueWei := (baseUnits lib (some value)).getD U256.MAX
  let spend ← checkCall id want inputAmount callee bytes valueWei spend
  pure (⟨id, description, chainId, callee.lowerHex, toAsciiLowercase calldata, value⟩, spend)

/-- `is_approval`: eight bytes are cut off the digits, whatever text they are. -/
def isApproval (data : Value) (want : Expected) : Except Fault Bool :=
  if want.originCurrency = 0 then pure false
  else do
    let callee := (data.strField "to").bind lib.parseAddress
    let digits := ((data.strField "data").bind fun c => strip0x c.toList).filter
      fun cs => 8 ≤ byteLen (String.ofList cs)
    let selector ← match digits with
      | some cs => do
        let front ← textTo (String.ofList cs) 8
        pure (lib.hexDecode front)
      | none => pure none
    match callee, selector with
    | some callee, some selector => pure (callee == want.originCurrency && selector == APPROVE)
    | _, _ => pure false

end Step

/-! ## The route -/

section Quote

variable (lib : Crates)

/-- One transaction of the loop. -/
def checkItem (want : Expected) (inputAmount : U256) (step : QuoteStep) (acc : Progress)
    (item : Value) : Faulty String Progress := do
  refuseIf acc.funded
    s!"step {step.id} comes after the payment is funded; a route must end at its funding transaction, so the wallet owns the payment as soon as one transaction has gone out"
  let (routeStep, spend) ← checkStep lib step.id step.description item want inputAmount acc.spend
  let approval ← isApproval lib item want
  pure ⟨acc.steps ++ [routeStep], !approval, spend⟩

/-- One step of the loop. -/
def checkItems (want : Expected) (inputAmount : U256) (acc : Progress) (step : QuoteStep) :
    Faulty String Progress := do
  refuseIf (step.kind != "transaction")
    s!"step {step.id} is a {step.kind} step; only transactions are supported"
  step.items.foldlM (checkItem lib want inputAmount step) acc

/-- `check_quote`, evaluated. -/
def checkQuote (quotedAt : String) (quote : Quote) (want : Expected) :
    Faulty String RouteQuote := do
  let requestId := quote.requestId.getD ""
  let hash ← isHash requestId
  refuseIf (!hash) s!"request id {lib.debugStr requestId} is not a 32-byte hex id"
  let inputAmount ← checkDetails lib quote.details want
  let order ← okOr (signedOrder quote) "no signed order (protocol.v2.orderData) to check"
  checkOrder lib order want inputAmount
  let done ← quote.steps.foldlM (checkItems lib want inputAmount) ⟨[], false, Spend.new⟩
  refuseIf (!done.funded) "no steps to execute"
  let value ← each (addValue lib) done.steps 0
  let limit := if want.originCurrency = 0 then inputAmount else 0
  refuseIf (limit < value) s!"the steps send {value} wei of value; the quote takes {limit}"
  let taken ← done.spend.exposure
  refuseIf (inputAmount < taken)
    s!"the steps take {taken} from the wallet; the quote is for {inputAmount}"
  pure (routeQuote lib quotedAt quote want done.steps)

end Quote

end GumServer.Evaluation
