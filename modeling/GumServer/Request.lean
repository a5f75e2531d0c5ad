import GumServer.Checks
import GumServer.Chrono
import GumServer.Payment
import GumServer.Registry
import GumServer.Target

/-!
# Requests for a deposit

`deposit/request.rs`: the checks a `POST /v1/deposit` goes through before an address is issued,
and the terms the address is derived from. The salt is drawn at random and is an argument here.

`Validator.validate` is the source's order of checks, with its refusals. What the later modules
need of it is `validate_eq_ok`: an accepted request names a chain and a token, and the deposit is
`NewDeposit.of` what was parsed.
-/

namespace GumServer

open Bytes Checks

/-- `ApiError`. -/
structure ApiError where
  status : ℕ
  code : String
  message : String
deriving DecidableEq

/-- `ApiError::invalid`. -/
def ApiError.invalid (message : String) : ApiError := ⟨400, "invalid_request", message⟩

/-- `CreateDepositRequest`. -/
structure CreateDepositRequest where
  /-- chain id, as number or string, or slug -/
  chainId : Value
  /-- symbol or contract address -/
  token : String
  /-- base units, as a decimal string -/
  amount : Value
  receiver : String
  expiresAt : DateTime
  reference : Option String
  webhookUrl : Option String

/-- `NewDeposit`: a validated request, ready to be stored. -/
structure NewDeposit where
  chainId : U64
  tokenSymbol : String
  tokenAddress : Address
  tokenDecimals : U8
  amount : U256
  receiver : Address
  calls : Vec Call
  recovery : Address
  salt : B256
  expiresAt : DateTime
  paymentAddress : Address
  reference : Option B256
  webhookUrl : Option String
deriving DecidableEq

/-- The configuration requests are checked against. -/
structure Validator where
  registry : Registry
  /-- `payments.min_expiry_lead_secs` -/
  minExpiryLeadSecs : ℤ
  /-- `payments.max_expiry_secs` -/
  maxExpirySecs : ℤ
  /-- `webhooks.allow_insecure_targets` -/
  allowInsecureTargets : Bool
  factory : Address
  recovery : Address

/-! ## Fields -/

/-- The text of an amount, which must be a string. -/
def amountText : Value → Except ApiError String
  | .string s => .ok (trim s)
  | .number _ => .error (.invalid "amount must be a string of base units, not a JSON number")
  | _ => .error (.invalid "amount must be a string of base units")

/-- `parse_amount`: whole decimal digits only, above zero. -/
def parseAmount (lib : Crates) (v : Value) : Except ApiError U256 := do
  let text ← amountText v
  refuseIf (text == "" || !text.toList.all Char.isDigit)
    (.invalid "amount must contain only decimal digits (base units, no sign, no decimal point)")
  refuseIf (byteLen text > 78) (.invalid "amount does not fit uint256")
  let amount ← okOr (lib.fromStrRadix text) (.invalid "amount does not fit uint256")
  refuseIf (amount == 0) (.invalid "amount must be greater than zero")
  pure amount

/-- `str::trim_start_matches("0x")`, on characters. -/
def trimStart0x : List Char → List Char
  | '0' :: 'x' :: cs => trimStart0x cs
  | cs => cs

/-- The case of one digit of a checksummed address: upper where the hash's nibble is high. -/
def checksumChar (c : Char) (nibble : ℕ) : Char := if nibble ≥ 8 then c.toUpper else c

/-- `Address::to_checksum(None)`: EIP-55. -/
def Address.toChecksum (keccak256 : List UInt8 → B256) (a : Address) : String :=
  let hex := hexChars a.toBytes
  let hash := B256.toBytes (keccak256 (hex.map fun c => UInt8.ofNat c.toNat))
  let nibbles := hash.flatMap fun b => [b.toNat / 16, b.toNat % 16]
  String.ofList ('0' :: 'x' :: List.zipWith checksumChar hex nibbles)

/-- `parse_address`: not zero, and checksummed when its case is mixed. -/
def parseAddressField (lib : Crates) (keccak256 : List UInt8 → B256) (field raw : String) :
    Except ApiError Address := do
  let address ← okOr (lib.parseAddress (trim raw)) (.invalid (field ++ " is not a valid EVM address"))
  refuseIf (address == 0) (.invalid (field ++ " must not be the zero address"))
  let hex := trimStart0x (trim raw).toList
  let mixed := hex.any Char.isLower && hex.any Char.isUpper
  refuseIf (mixed && address.toChecksum keccak256 != trim raw)
    (.invalid (field ++ " has an invalid EIP-55 checksum"))
  pure address

/-- The trimmed text of an optional field; a blank one is absent. -/
def presentText (field : Option String) : Option String :=
  (field.map trim).filter (· ≠ "")

/-! ## The validator -/

/-- The deposit of what a request names: the terms, and the address derived from them. -/
def NewDeposit.of (keccak256 : List UInt8 → B256) (factory recovery : Address) (salt : B256)
    (chain : ChainSpec) (token : TokenSpec) (amount : U256) (receiver : Address)
    (expiresAt : DateTime) (reference : Option B256) (webhookUrl : Option String) : NewDeposit :=
  let terms : PaymentTerms := {
    token := token.address
    amount := amount
    calls := ⟨[Call.transfer token.address receiver amount], by rw [List.length_singleton]; decide⟩
    expirationTimestamp := U64.ofInt expiresAt.timestamp
    recovery := recovery
    salt := salt
    chainId := chain.chainId }
  { chainId := chain.chainId
    tokenSymbol := token.symbol
    tokenAddress := token.address
    tokenDecimals := token.decimals
    amount := amount
    receiver := receiver
    paymentAddress := terms.paymentAddress keccak256 factory
    calls := terms.calls
    recovery := recovery
    salt := salt
    expiresAt := expiresAt
    reference := reference
    webhookUrl := webhookUrl }

namespace Validator

variable (lib : Crates) (keccak256 : List UInt8 → B256) (parseUrl : String → Except String Url)

/-- The chain a request names, as text. -/
def chainRaw (v : Value) : Except ApiError String :=
  match v with
  | .string s => .ok (trim s)
  | .number (.posInt n) => .ok (toString n.val)
  | _ => .error (.invalid "chain_id must be a chain id or slug")

/-- The refusal of a chain that is not offered. -/
def unsupportedChain (registry : Registry) (raw : String) : ApiError :=
  let known := registry.chains.map fun c => c.name ++ " (" ++ toString c.chainId.val ++ ")"
  ⟨400, "unsupported_chain",
    "unsupported chain " ++ lib.debugStr raw ++ "; supported: " ++ ", ".intercalate known⟩

/-- The refusal of a token the chain does not have. -/
def unsupportedToken (chain : ChainSpec) (raw : String) : ApiError :=
  ⟨400, "unsupported_token",
    "token " ++ lib.debugStr raw ++ " is not supported on " ++ chain.name ++ "; supported: " ++
      ", ".intercalate (chain.tokens.map (·.symbol))⟩

/-- The checks on the time a payment expires, `lead` seconds from now. -/
def checkLead (v : Validator) (lead : ℤ) : Except ApiError Unit := do
  refuseIf (decide (lead < v.minExpiryLeadSecs)) (.invalid
    ("expires_at must be at least " ++ toString v.minExpiryLeadSecs ++ " seconds in the future"))
  refuseIf (decide (lead > v.maxExpirySecs)) (.invalid
    ("expires_at must be at most " ++ toString v.maxExpirySecs ++ " seconds in the future"))

/-- The reference: absent, blank, or a hash. -/
def parseReference (field : Option String) : Except ApiError (Option B256) :=
  match presentText field with
  | none => .ok none
  | some raw =>
    (okOr (lib.parseB256 raw) (.invalid "reference must be a 0x-prefixed bytes32")).map some

/-- The webhook of the deposit: absent, blank, or a target that may be called. -/
def parseWebhookUrl (v : Validator) (field : Option String) : Except ApiError (Option String) :=
  match presentText field with
  | none => .ok none
  | some raw =>
    ((validateTarget parseUrl raw v.allowInsecureTargets).mapError
      fun m => ApiError.invalid ("webhook_url: " ++ m)).map fun url => some url.text

/-- `Validator::validate`. -/
def validate (v : Validator) (req : CreateDepositRequest) (now : DateTime) (salt : B256) :
    Except ApiError NewDeposit := do
  let raw ← chainRaw req.chainId
  let chain ← okOr ((v.registry.chain raw).filter (·.enabled)) (unsupportedChain lib v.registry raw)
  let token ← okOr (chain.token lib req.token) (unsupportedToken lib chain req.token)
  let amount ← parseAmount lib req.amount
  let receiver ← parseAddressField lib keccak256 "receiver" req.receiver
  refuseIf (receiver == v.recovery) (.invalid "receiver must not be the recovery address")
  refuseIf (receiver == token.address || receiver == v.factory ||
      receiver == paymentImplementation keccak256 v.factory)
    (.invalid "receiver must not be a contract of the payment system")
  v.checkLead (DateTime.numSeconds (req.expiresAt.signedDurationSince now))
  -- the contract takes whole seconds: what is stored is what is hashed
  let expiresAt := req.expiresAt.wholeSeconds
  let reference ← parseReference lib req.reference
  let webhookUrl ← v.parseWebhookUrl parseUrl req.webhookUrl
  pure (.of keccak256 v.factory v.recovery salt chain token amount receiver expiresAt reference
    webhookUrl)

variable {lib keccak256 parseUrl}

/-- What an accepted request has been through, as far as the deposit goes. -/
theorem validate_eq_ok {v : Validator} {req : CreateDepositRequest} {now : DateTime} {salt : B256}
    {new : NewDeposit} (h : validate lib keccak256 parseUrl v req now salt = .ok new) :
    ∃ raw chain token amount receiver reference webhookUrl,
      chainRaw req.chainId = .ok raw ∧
      (v.registry.chain raw).filter (·.enabled) = some chain ∧
      chain.token lib req.token = some token ∧
      parseAmount lib req.amount = .ok amount ∧
      parseAddressField lib keccak256 "receiver" req.receiver = .ok receiver ∧
      parseReference lib req.reference = .ok reference ∧
      v.parseWebhookUrl parseUrl req.webhookUrl = .ok webhookUrl ∧
      new = .of keccak256 v.factory v.recovery salt chain token amount receiver
        req.expiresAt.wholeSeconds reference webhookUrl := by
  obtain ⟨raw, hraw, h⟩ := bind_eq_ok.mp h
  obtain ⟨chain, hchain, h⟩ := okOr_bind_eq_ok.mp h
  obtain ⟨token, htoken, h⟩ := okOr_bind_eq_ok.mp h
  obtain ⟨amount, hamount, h⟩ := bind_eq_ok.mp h
  obtain ⟨receiver, hreceiver, h⟩ := bind_eq_ok.mp h
  obtain ⟨-, h⟩ := refuseIf_bind_eq_ok.mp h
  obtain ⟨-, h⟩ := refuseIf_bind_eq_ok.mp h
  obtain ⟨-, -, h⟩ := bind_eq_ok.mp h
  obtain ⟨reference, hreference, h⟩ := bind_eq_ok.mp h
  obtain ⟨webhookUrl, hwebhookUrl, h⟩ := bind_eq_ok.mp h
  exact ⟨raw, chain, token, amount, receiver, reference, webhookUrl, hraw, hchain, htoken, hamount,
    hreceiver, hreference, hwebhookUrl, (pure_eq_ok.mp h).symm⟩

end Validator

end GumServer
