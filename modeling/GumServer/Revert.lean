import GumServer.Settlement

/-!
# Why a settlement reverted

`chain/revert.rs`: the revert data of `PaymentFactory.execute`, decoded as far as it goes. The
factory passes on what the `Payment` constructor reverts with, and that wraps the revert data of a
failing settlement call, so a reason may have another one inside.

A reason is read in two ways: as a sentence (`Reason.describe`) for the failure's message, and level
by level as JSON (`RevertView.of`) for the event. The text of a call's own revert is anybody's, and
is cleaned of NUL when it is decoded (`sanitize`).

The ABI decoders are alloy's, and a parameter (`RevertAbi`).
-/

namespace GumServer

open Bytes

/-! ## Errors -/

/-- `IPaymentErrors`. -/
inductive PaymentError : Type where
  | insufficientTokenBalance (balance required : U256)
  | callFailed (index : U256) (revertData : List UInt8)
  | callTargetHasNoCode (index : U256) (target : Address)
  | amountNotSpent (remaining : U256)

/-- `IPaymentFactoryErrors`. -/
inductive PaymentFactoryError : Type where
  | alreadyDeployed
  | deploymentFailed
  | initCodeTooLarge (length : U256)

/-- `ICallTargetErrors`. -/
inductive CallTargetError : Type where
  | erc20InsufficientBalance (sender : Address) (balance needed : U256)
  | erc20InvalidSender (sender : Address)
  | erc20InvalidReceiver (receiver : Address)
  | erc20InsufficientAllowance (spender : Address) (allowance needed : U256)
  | erc20InvalidApprover (approver : Address)
  | erc20InvalidSpender (spender : Address)
  | enforcedPause
  | accountIsFrozen (frozenAccount : Address)
  | transferPaused
  | insufficientBalance
  | insufficientAllowance
  | transferFailed
  | transferFromFailed
  | approveFailed

/-- U+0000. -/
def NUL : Char := Char.ofNat 0

/-- alloy's decoders, and its texts for panics. -/
structure RevertAbi where
  paymentError : List UInt8 → Option PaymentError
  paymentFactoryError : List UInt8 → Option PaymentFactoryError
  /-- `Revert::abi_decode`: the string of an `Error(string)` -/
  revert : List UInt8 → Option String
  /-- `Panic::abi_decode`: the code of a `Panic(uint256)` -/
  panic : List UInt8 → Option U256
  callTargetError : List UInt8 → Option CallTargetError
  /-- `IERC20::transferCall::abi_decode`: the recipient and the amount -/
  transferCall : List UInt8 → Option (Address × U256)
  /-- `PanicKind::from_number`, displayed -/
  panicKind : U256 → Option String
  /-- the texts are plain -/
  panicKind_plain : ∀ {code text}, panicKind code = some text → NUL ∉ text.toList

/-! ## Reasons -/

/-- `Reason`. -/
inductive Reason : Type where
  | insufficientTokenBalance (balance required : U256)
  | callFailed (index : U256) (revertData : List UInt8) (reason : Reason)
  | callTargetHasNoCode (index : U256) (target : Address)
  | amountNotSpent (remaining : U256)
  | alreadyDeployed
  | deploymentFailed
  | initCodeTooLarge (length : U256)
  | message (text : String)
  | panic (code : U256)
  | custom (signature : String) (args : List (String × String))
  /-- reverted without data -/
  | empty
  | unrecognised (data : List UInt8)

/-- `sanitize`: PostgreSQL takes no NUL, so it is spelled out. -/
def sanitize (message : String) : String :=
  String.ofList (message.toList.flatMap fun c => if c = NUL then "\\0".toList else [c])

/-- The reason of a call target's custom error. -/
def CallTargetError.reason : CallTargetError → Reason
  | erc20InsufficientBalance sender balance needed =>
    .custom "ERC20InsufficientBalance(address,uint256,uint256)"
      [("sender", sender.lowerHex), ("balance", toString balance.val),
        ("needed", toString needed.val)]
  | erc20InvalidSender sender => .custom "ERC20InvalidSender(address)" [("sender", sender.lowerHex)]
  | erc20InvalidReceiver receiver =>
    .custom "ERC20InvalidReceiver(address)" [("receiver", receiver.lowerHex)]
  | erc20InsufficientAllowance spender allowance needed =>
    .custom "ERC20InsufficientAllowance(address,uint256,uint256)"
      [("spender", spender.lowerHex), ("allowance", toString allowance.val),
        ("needed", toString needed.val)]
  | erc20InvalidApprover approver =>
    .custom "ERC20InvalidApprover(address)" [("approver", approver.lowerHex)]
  | erc20InvalidSpender spender =>
    .custom "ERC20InvalidSpender(address)" [("spender", spender.lowerHex)]
  | enforcedPause => .custom "EnforcedPause()" []
  | accountIsFrozen frozenAccount =>
    .custom "AccountIsFrozen(address)" [("frozenAccount", frozenAccount.lowerHex)]
  | transferPaused => .custom "TransferPaused()" []
  | insufficientBalance => .custom "InsufficientBalance()" []
  | insufficientAllowance => .custom "InsufficientAllowance()" []
  | transferFailed => .custom "TransferFailed()" []
  | transferFromFailed => .custom "TransferFromFailed()" []
  | approveFailed => .custom "ApproveFailed()" []

section Decode

variable (abi : RevertAbi)

/-- `decode_call`. -/
def Reason.decodeCall (data : List UInt8) : Reason :=
  if data.isEmpty then .empty
  else match abi.revert data, abi.panic data, abi.callTargetError data with
    | some reason, _, _ => .message (sanitize reason)
    | none, some code, _ => .panic code
    | none, none, some error => error.reason
    | none, none, none => .unrecognised data

/-- `decode_execute`. -/
def Reason.decodeExecute (data : List UInt8) : Reason :=
  match abi.paymentError data, abi.paymentFactoryError data with
  | some (.insufficientTokenBalance balance required), _ => .insufficientTokenBalance balance required
  | some (.callFailed index revertData), _ =>
    .callFailed index revertData (Reason.decodeCall abi revertData)
  | some (.callTargetHasNoCode index target), _ => .callTargetHasNoCode index target
  | some (.amountNotSpent remaining), _ => .amountNotSpent remaining
  | none, some .alreadyDeployed => .alreadyDeployed
  | none, some .deploymentFailed => .deploymentFailed
  | none, some (.initCodeTooLarge length) => .initCodeTooLarge length
  | none, none => Reason.decodeCall abi data

end Decode

/-- `call_at`. -/
def callAt (index : U256) (calls : List Call) : Option Call := calls[index.val]?

/-- `describe_call`: the call, and what it was to do. -/
def describeCall (abi : RevertAbi) (index : U256) (calls : List Call) : String :=
  match callAt index calls with
  | none => "call " ++ toString index.val
  | some call =>
    match abi.transferCall call.data.toList with
    | some (recipient, amount) => "call " ++ toString index.val ++ " (transfer of " ++
        toString amount.val ++ " to " ++ recipient.lowerHex ++ ")"
    | none => "call " ++ toString index.val ++ " (to " ++ call.target.lowerHex ++ ")"

/-- `{code:#x}` of a number: no leading zeros. -/
def hexNumber (n : U256) : String :=
  let digits := (hexChars (toBe 32 n.val)).dropWhile (· = '0')
  "0x" ++ String.ofList (if digits.isEmpty then ['0'] else digits)

namespace Reason

/-- `Reason::signature`. -/
def signature : Reason → Option String
  | insufficientTokenBalance _ _ => some "InsufficientTokenBalance(uint256,uint256)"
  | callFailed _ _ _ => some "CallFailed(uint256,bytes)"
  | callTargetHasNoCode _ _ => some "CallTargetHasNoCode(uint256,address)"
  | amountNotSpent _ => some "AmountNotSpent(uint256)"
  | alreadyDeployed => some "AlreadyDeployed()"
  | deploymentFailed => some "DeploymentFailed()"
  | initCodeTooLarge _ => some "InitCodeTooLarge(uint256)"
  | message _ => some "Error(string)"
  | panic _ => some "Panic(uint256)"
  | custom signature _ => some signature
  | empty | unrecognised _ => none

/-- The name in front of a signature's parameters. -/
def nameOf (signature : String) : String :=
  String.ofList (signature.toList.takeWhile (· ≠ '('))

/-- `Reason::name`. -/
def name (r : Reason) : Option String := r.signature.map nameOf

/-- `Reason::args`. -/
def args : Reason → List (String × String)
  | insufficientTokenBalance balance required =>
    [("balance", toString balance.val), ("required", toString required.val)]
  | callFailed index _ _ => [("index", toString index.val)]
  | callTargetHasNoCode index target =>
    [("index", toString index.val), ("target", target.lowerHex)]
  | amountNotSpent remaining => [("remaining", toString remaining.val)]
  | message text => [("message", text)]
  | panic code => [("code", toString code.val)]
  | custom _ args => args
  | initCodeTooLarge length => [("length", toString length.val)]
  | alreadyDeployed | deploymentFailed | empty | unrecognised _ => []

section Describe

variable (abi : RevertAbi)

/-- What a call target can have said, in words; the errors of `Payment` and its factory are none
of it. -/
def callText : Reason → Option String
  | message text => some text
  | panic code => some (match abi.panicKind code with
    | some kind => "panic " ++ hexNumber code ++ " (" ++ kind ++ ")"
    | none => "panic " ++ hexNumber code)
  | custom signature args => some (nameOf signature ++ "(" ++
      ", ".intercalate (args.map fun arg => arg.1 ++ ": " ++ arg.2) ++ ")")
  | empty => some "no reason given"
  | unrecognised data => some (if data.length ≥ 4 then
      "an unrecognised error (selector " ++ lowerHex (data.take 4) ++ ")"
    else "unrecognised data " ++ lowerHex data)
  | _ => none

/-- The sentence of `describe`, given how the reason inside reads. -/
def sentence (calls : List Call) (inner : String) : Reason → String
  | insufficientTokenBalance balance required => "the payment address holds " ++
      toString balance.val ++ ", less than the " ++ toString required.val ++ " it settles"
  | callFailed index _ _ => "settlement " ++ describeCall abi index calls ++ " reverted: " ++ inner
  | callTargetHasNoCode index target => "settlement call " ++ toString index.val ++
      " targets " ++ target.lowerHex ++ ", which has no code on this chain"
  | amountNotSpent remaining => "the settlement calls succeeded but left " ++
      toString remaining.val ++ " of the amount unspent " ++
      "(a token that returns false instead of reverting does this)"
  | alreadyDeployed => "the payment was already executed: an earlier execute went through, " ++
      "and its receipt says whether it settled or went to recovery"
  | deploymentFailed => "the Payment constructor reverted without data (e.g. out of gas)"
  | initCodeTooLarge length => "the encoded payment terms are " ++ toString length.val ++
      " bytes, past EIP-3860's 49,152-byte init-code limit"
  | custom signature args => if signature = "TransferFailed()" then
      "the payment's own transfer of the token to the recovery address failed"
    else "reverted: " ++ ((custom signature args).callText abi).getD ""
  | other => "reverted: " ++ (other.callText abi).getD ""

/-- `Reason::describe`. The reason inside reads as `describe_call_reason` has it: as what a call
target can have said, or else described in full. -/
def describe : Reason → List Call → String
  | callFailed index revertData reason, calls =>
    (callFailed index revertData reason).sentence abi calls
      ((reason.callText abi).getD (reason.describe []))
  | reason, calls => reason.sentence abi calls ""

end Describe

end Reason

/-! ## Levels -/

/-- `CallRef` as JSON: a settlement call by its position. -/
def CallRef.json (index : U256) (call : Call) : Value :=
  .object [
    ("index", .number (.posInt (U64.ofInt index.val))),
    ("target", .string call.target.lowerHex)]

/-- A field that is left out when there is nothing in it. -/
def Value.field? (name : String) (v : Option Value) : List (String × Value) :=
  (v.map fun v => (name, v)).toList

namespace RevertView

/-- `RevertKind`. -/
def kind : Reason → String
  | .empty => "empty"
  | .unrecognised _ => "unrecognised"
  | _ => "decoded"

/-- The settlement call a reason is about. -/
def callOf (reason : Reason) (calls : List Call) : Option Value :=
  match reason with
  | .callFailed index _ _ | .callTargetHasNoCode index _ =>
    (callAt index calls).map (CallRef.json index)
  | _ => none

/-- One level of revert data, without the reason inside it. -/
def level (data : List UInt8) (reason : Reason) (calls : List Call) : List (String × Value) :=
  [("kind", .string (kind reason)), ("data", .string (lowerHex data))] ++
    Value.field? "selector"
      (if data.length ≥ 4 then some (.string (lowerHex (data.take 4))) else none) ++
    Value.field? "name" (reason.name.map .string) ++
    Value.field? "signature" (reason.signature.map .string) ++
    Value.field? "args" (if kind reason = "decoded" then
      some (.object (reason.args.map fun arg => (arg.1, .string arg.2))) else none) ++
    Value.field? "call" (callOf reason calls)

/-- `RevertView::of`, as JSON. -/
def of : List UInt8 → Reason → List Call → Value
  | data, .callFailed index revertData reason, calls =>
    .object (level data (.callFailed index revertData reason) calls ++
      [("reason", of revertData reason [])])
  | data, reason, calls => .object (level data reason calls)

/-- `RevertView::of_execute`. -/
def ofExecute (abi : RevertAbi) (data : List UInt8) (calls : List Call) : Value :=
  of data (Reason.decodeExecute abi data) calls

end RevertView

/-- The reading of revert data, with alloy's decoders. -/
def RevertDecoder.ofAbi (abi : RevertAbi) : RevertDecoder where
  view := RevertView.ofExecute abi
  describe data calls := (Reason.decodeExecute abi data).describe abi calls

end GumServer
