import Mathlib.Data.List.Destutter
import Mathlib.Data.List.Sort
import GumServer.Deposit
import GumServer.Request
import GumServer.Route
import GumServer.Step

/-!
# What a payer can pay with

`GET /v1/pay/{id}/sources` and its token search (`deposit/relay.rs`), over Relay's list of chains
(`clients/relay.rs`) and the tokens that were checked to route in one step
(`deposit/relay_tokens.rs`).

What is offered and what can be quoted are computed in different places. They agree: whatever is
offered passes the checks a quote makes of the payer's choice, and whatever passes them is offered
(`sources_agree_with_quote`).
-/

namespace GumServer

open Checks

/-! ## Relay's wire types

Only the fields that are read. -/

/-- `RelayChainCurrency`. -/
structure RelayChainCurrency where
  symbol : String
  name : String
  address : String
  decimals : UInt8
  /-- `metadata.logoURI` -/
  logoUri : Option String

/-- `RelayRouterContracts`. -/
structure RelayRouterContracts where
  erc20Router : Option String
  approvalProxy : Option String

/-- `RelayContracts`. -/
structure RelayContracts where
  multicall3 : Option String
  relayReceiver : Option String
  erc20Router : Option String
  approvalProxy : Option String
  v3 : Option RelayRouterContracts

/-- `RelayProtocolV2`. -/
structure RelayProtocolV2 where
  depository : Option String
  /-- how Relay's signed orders name the chain -/
  chainId : Option String

/-- `RelayChain`. -/
structure RelayChain where
  id : U64
  name : String
  displayName : String
  vmType : String
  disabled : Bool
  depositEnabled : Bool
  httpRpcUrl : String
  explorerUrl : String
  iconUrl : Option String
  currency : Option RelayChainCurrency
  featuredTokens : List RelayChainCurrency
  erc20Currencies : List RelayChainCurrency
  solverCurrencies : List RelayChainCurrency
  contracts : Option RelayContracts
  /-- `protocol.v2` -/
  protocol : Option RelayProtocolV2

/-- `RelayCurrency`: an entry of Relay's token search. -/
structure RelayCurrency where
  chainId : U64
  address : String
  symbol : String
  name : String
  decimals : UInt8
  vmType : String
  /-- `metadata.logoURI` -/
  logoUri : Option String

/-- `UpstreamError`, as far as an answer depends on it. -/
inductive UpstreamError : Type where
  | notConfigured : UpstreamError
  /-- a 4xx: asking again will not help -/
  | rejected (code message : String) : UpstreamError
  /-- no answer, a 5xx or 429, or an unexpected body -/
  | unavailable (message : String) : UpstreamError

/-- `relay_error`. -/
def relayError : UpstreamError → ApiError
  | .notConfigured => ⟨503, "relay_disabled", "paying with other tokens is not available"⟩
  | _ => ⟨503, "relay_unavailable", "routing is unavailable right now; try again shortly"⟩

/-! ## The tokens that route in one step -/

/-- `DirectToken`. Its address is text in the source, of lowercase digits. -/
structure DirectToken where
  chainId : U64
  /-- zero for the chain's native currency -/
  address : Address

/-- `DIRECT_TOKENS`. -/
def DIRECT_TOKENS : List DirectToken := [
  -- Abstract
  ⟨2741, 0⟩,
  ⟨2741, 0x84a71ccd554cc1b02749b35d22f684cc8ec987e1⟩,
  -- ApeChain
  ⟨33139, 0⟩,
  -- Arbitrum
  ⟨42161, 0⟩,
  ⟨42161, 0x7f9fbf9bdd3f4105c478b996b648fe6e828a1e98⟩,
  ⟨42161, 0xaf88d065e77c8cc2239327c5edb3a432268e5831⟩,
  ⟨42161, 0xfd086bc7cd5c481dcc9c85ebe478a1c0b69fcbb9⟩,
  -- Arc
  ⟨5042, 0⟩,
  ⟨5042, 0x3600000000000000000000000000000000000000⟩,
  -- Avalanche
  ⟨43114, 0xb97ef9ef8734c71904d8002f8b6bc66dd9c48a6e⟩,
  ⟨43114, 0x5d3a1ff2b6bab83b63cd9ad0787074081a52ef34⟩,
  -- Base
  ⟨8453, 0⟩,
  ⟨8453, 0xcbb7c0000ab88b473b1f5afd9ef808440eed33bf⟩,
  ⟨8453, 0x833589fcd6edb6e08f4c7c32d4f71b54bda02913⟩,
  ⟨8453, 0xfde4c96c8593536e31f229ea8f37b2ada2699bb2⟩,
  -- Berachain
  ⟨80094, 0x549943e04f40284185054145c6e4e9568c1d3241⟩,
  ⟨80094, 0x2f6f07cdcf3588944bf4c42ac74ff24bf56e7590⟩,
  -- Blast
  ⟨81457, 0x4300000000000000000000000000000000000004⟩,
  -- BNB
  ⟨56, 0⟩,
  ⟨56, 0xa9616e5e23ec1582c2828b025becf3ef610e266f⟩,
  ⟨56, 0x8ac76a51cc950d9822d68b83fe1ad97b32cd580d⟩,
  ⟨56, 0x5d3a1ff2b6bab83b63cd9ad0787074081a52ef34⟩,
  ⟨56, 0x55d398326f99059ff775485246999027b3197955⟩,
  -- BOB
  ⟨60808, 0⟩,
  -- Boba Network
  ⟨288, 0⟩,
  -- Celo
  ⟨42220, 0xceba9300f2b948710d2653dd7b07f33a8b32118c⟩,
  -- Cronos
  ⟨25, 0⟩,
  ⟨25, 0x3d7f2c478aafdb65542bcb44bceec05849999d2d⟩,
  ⟨25, 0xc21223249ca28397b4b6541dffaecc539bff0c59⟩,
  -- Doma
  ⟨97477, 0⟩,
  ⟨97477, 0x31eef89d5215c305304a2fa5376a1f1b6c5dc477⟩,
  -- Ethereal
  ⟨5064014, 0⟩,
  -- Ethereum
  ⟨1, 0⟩,
  ⟨1, 0x4d224452801aced8b2f0aebe155379bb5d594381⟩,
  ⟨1, 0x00000000efe302beaa2b3e6e1b18d08d69a9012a⟩,
  ⟨1, 0x6b175474e89094c44da98b954eedeac495271d0f⟩,
  ⟨1, 0xaca92e438df0b2401ff60da7e4337b687a2435da⟩,
  ⟨1, 0x6c3ea9036406852006290770bedfcaba0e23a0e8⟩,
  ⟨1, 0xa0b86991c6218b36c1d19d4a2e9eb0ce3606eb48⟩,
  ⟨1, 0x4c9edd5852cd905f086c759e8383e09bff1e68b3⟩,
  ⟨1, 0xe343167631d89b6ffc58b88d6b7fb0228795491d⟩,
  ⟨1, 0xec2af1c8b110a61fd9c3fa6a554a031ca9943926⟩,
  ⟨1, 0xdac17f958d2ee523a2206206994597c13d831ec7⟩,
  -- Flow EVM
  ⟨747, 0xf1815bd50389c46847f0bda824ec8da914045d14⟩,
  -- Gensyn
  ⟨685689, 0⟩,
  ⟨685689, 0x5b32c997211621d55a89cc5abaf1cc21f3a6ddf5⟩,
  -- Gnosis
  ⟨100, 0x2a22f9c3b484c3629090feed35f17ff8f88f76f0⟩,
  -- HyperEVM
  ⟨999, 0⟩,
  ⟨999, 0xb88339cb7199b77e23db6e890353e22632ba630f⟩,
  ⟨999, 0x5d3a1ff2b6bab83b63cd9ad0787074081a52ef34⟩,
  ⟨999, 0xb8ce59fc3717ada4c02eadf9682a9e934f625ebb⟩,
  -- Ink
  ⟨57073, 0⟩,
  ⟨57073, 0x2d270e6886d130d724215a266106e6832161eaed⟩,
  ⟨57073, 0x0200c29006150606b650577bbe7b6248f58470c1⟩,
  -- Katana
  ⟨747474, 0⟩,
  ⟨747474, 0x203a662b0bd271a6ed5a60edfbd04bfce608fd36⟩,
  ⟨747474, 0x2dca96907fde857dd3d816880a0df407eeb2d2f2⟩,
  -- Linea
  ⟨59144, 0⟩,
  ⟨59144, 0xaca92e438df0b2401ff60da7e4337b687a2435da⟩,
  ⟨59144, 0x176211869ca2b568f2a7d4ee941e073a821ee1ff⟩,
  -- Lisk
  ⟨1135, 0⟩,
  -- Manta Pacific
  ⟨169, 0⟩,
  -- Mantle
  ⟨5000, 0x09bc4e0d864854c6afb6eb9a9cdf58ac190d0df9⟩,
  -- MegaETH
  ⟨4326, 0⟩,
  ⟨4326, 0xfafddbb3fc7688494971a79cc65dca3ef82079e7⟩,
  ⟨4326, 0xb8ce59fc3717ada4c02eadf9682a9e934f625ebb⟩,
  -- Metis
  ⟨1088, 0x420000000000000000000000000000000000000a⟩,
  -- Mode
  ⟨34443, 0⟩,
  -- Monad
  ⟨143, 0⟩,
  ⟨143, 0x00000000efe302beaa2b3e6e1b18d08d69a9012a⟩,
  ⟨143, 0xaca92e438df0b2401ff60da7e4337b687a2435da⟩,
  ⟨143, 0x754704bc059f8c67012fed69bc8a327a5aafb603⟩,
  -- Morph
  ⟨2818, 0⟩,
  -- Mythos
  ⟨42018, 0⟩,
  ⟨42018, 0x0685b38c8228f595688dec1d7c69d036b3ee52d7⟩,
  -- Optimism
  ⟨10, 0⟩,
  ⟨10, 0x0b2c639c533813f4aa9d7837caf62653d097ff85⟩,
  ⟨10, 0x94b008aa00579c1307b0ef2c499ad98a8ce58e58⟩,
  -- Plasma
  ⟨9745, 0xb8ce59fc3717ada4c02eadf9682a9e934f625ebb⟩,
  -- Plume
  ⟨98866, 0xdddd73f5df1f0dc31373357beac77545dc5a6f3f⟩,
  ⟨98866, 0xca59ca09e5602fae8b629dee83ffa819741f14be⟩,
  -- Polygon
  ⟨137, 0xc011a7e12a19f7b1f670d46f03b03f3342e82dfb⟩,
  ⟨137, 0x3c499c542cef5e3811e1192ce70d8cc03d5c3359⟩,
  ⟨137, 0x2791bca1f2de4661ed88a30c99a7a9449aa84174⟩,
  ⟨137, 0xc2132d05d31c914a87c6611c10748aeb04b58e8f⟩,
  -- Robinhood Chain
  ⟨4663, 0⟩,
  ⟨4663, 0x5fc5360d0400a0fd4f2af552add042d716f1d168⟩,
  -- Ronin
  ⟨2020, 0x0b7007c13325c48911f73a2dad5fa5dcbf808adc⟩,
  -- Scroll
  ⟨534352, 0⟩,
  -- Shape
  ⟨360, 0⟩,
  -- Somnia
  ⟨5031, 0⟩,
  -- Soneium
  ⟨1868, 0xba9986d2381edf1da03b0b9c1f8b00dc4aacc369⟩,
  -- Sonic
  ⟨146, 0x29219dd400f2bf60e5a23d13be72b486d4038894⟩,
  -- Stable
  ⟨988, 0x779ded0c9e1022225f8e0630b35a9b54be713736⟩,
  -- Superseed
  ⟨5330, 0⟩,
  -- Tempo
  ⟨4217, 0x20c000000000000000000000b9537d11c60e8b50⟩,
  ⟨4217, 0x20c00000000000000000000014f22ca97301eb73⟩,
  -- Unichain
  ⟨130, 0⟩,
  ⟨130, 0x078d782b760474a361dda0af3839290b0ef57ad6⟩,
  -- World Chain
  ⟨480, 0⟩,
  ⟨480, 0x79a02482a880bce3f13e09da970dc34db4cd24d1⟩,
  -- X Layer
  ⟨196, 0xb6ceceab302e2e4948951ee7843fc24e92933061⟩,
  ⟨196, 0x4ae46a509f6b1d9056937ba4500cb143933d2dc8⟩,
  -- zkSync Era
  ⟨324, 0⟩]

/-- `is_direct`: the token routes in one step from this chain. -/
def isDirect (chainId : U64) (address : String) : Bool :=
  DIRECT_TOKENS.any fun t => t.chainId == chainId && eqIgnoreAsciiCase t.address.lowerHex address

/-! ## Chains -/

/-- `NATIVE`: the address of a chain's native currency. -/
def NATIVE : String := "0x0000000000000000000000000000000000000000"

/-- `NATIVE_ALIASES`. -/
def NATIVE_ALIASES : List (U64 × String) := [(5042, "0x3600000000000000000000000000000000000000")]

/-- `str::starts_with("https://")`. -/
def isHttps (url : String) : Bool := "https://".toList.isPrefixOf url.toList

/-- `str::trim_end_matches('/')`. -/
def trimSlashes (url : String) : String :=
  String.ofList (url.toList.reverse.dropWhile (· == '/')).reverse

/-- `list.sort(); list.dedup();` -/
def sortDedup {α : Type} [LE α] [DecidableLE α] [DecidableEq α] (l : List α) : List α :=
  (l.insertionSort (· ≤ ·)).destutter (· ≠ ·)

/-- `.filter(|t| seen.insert(key(t)))`: the first of each key that has not been seen. -/
def firstSeen {α : Type} (key : α → String) : List String → List α → List α
  | _, [] => []
  | seen, a :: as =>
    if key a ∈ seen then firstSeen key seen as else a :: firstSeen key (key a :: seen) as

/-- `usable`: an EVM chain Relay routes from. -/
def usable (c : RelayChain) : Bool := c.vmType == "evm" && !c.disabled && isHttps c.httpRpcUrl

/-- `can_receive`. -/
def canReceive (chains : List RelayChain) (chainId : U64) : Bool :=
  chains.any fun c => c.id == chainId && c.vmType == "evm" && !c.disabled && c.depositEnabled

/-- `pays_directly`: Relay's solver takes this token on this chain as it is, and it was checked to
route in one step. -/
def paysDirectly (c : RelayChain) (address : String) : Bool :=
  isDirect c.id address && c.solverCurrencies.any fun t => eqIgnoreAsciiCase t.address address

/-- `RelayChain::relay_roles`. -/
def RelayChain.relayRoles (lib : Crates) (c : RelayChain) : RelayRoles :=
  let parse (raw : Option String) : Option Address := (raw.bind lib.parseAddress).filter (· ≠ 0)
  let v3 := c.contracts.bind fun k => k.v3
  { depositories := sortDedup [parse (c.protocol.bind fun p => p.depository)].reduceOption
    approvalProxies := sortDedup [
      parse (c.contracts.bind fun k => k.approvalProxy),
      parse (v3.bind fun v => v.approvalProxy)].reduceOption
    receivers := sortDedup [parse (c.contracts.bind fun k => k.relayReceiver)].reduceOption
    routers := sortDedup [
      parse (c.contracts.bind fun k => k.erc20Router),
      parse (v3.bind fun v => v.erc20Router)].reduceOption }

/-- `chain_names`: as Relay's signed orders spell a chain. -/
def chainNames (c : RelayChain) : List String :=
  let names := [toAsciiLowercase c.name]
  let names := if c.displayName.isEmpty then names else names ++ [toAsciiLowercase c.displayName]
  sortDedup (names ++ ((c.protocol.bind fun p => p.chainId).map toAsciiLowercase).toList)

/-- `chain_token_decimals`: of one of Relay's own tokens on a chain. -/
def chainTokenDecimals (c : RelayChain) (currency : Address) : Option UInt8 :=
  if currency = 0 then c.currency.map fun n => n.decimals
  else
    ((c.featuredTokens ++ c.erc20Currencies ++ c.solverCurrencies).find? fun t =>
      eqIgnoreAsciiCase t.address currency.lowerHex).map fun t => t.decimals

/-! ## Sources -/

/-- `SourceChain`. -/
structure SourceChain where
  id : U64
  name : String
  iconUrl : Option String
  explorerUrl : String
  rpcUrl : String
  multicall3 : Option String
  /-- described in any case: it pays for gas -/
  native : SourceToken
  nativePayable : Bool
  nativeAlias : Option String
  tokens : List SourceToken

/-- `SourceToken::of`. -/
def SourceToken.ofCurrency (c : RelayChainCurrency) : SourceToken where
  address := toAsciiLowercase c.address
  symbol := c.symbol
  name := c.name
  decimals := c.decimals
  logoUri := logo c.logoUri

/-- The native currency of a chain that names none. -/
def SourceToken.ether : SourceToken where
  address := NATIVE
  symbol := "ETH"
  name := "Ether"
  decimals := 18
  logoUri := none

/-- The logo of a chain's featured entry for a token. -/
def RelayChain.featuredLogo (c : RelayChain) (address : String) : Option String :=
  (c.featuredTokens.find? fun t => eqIgnoreAsciiCase t.address address).bind fun t =>
    logo t.logoUri

/-- The tokens a chain lists, before the deposit's own: its solver's, that route in one step. -/
def directTokens (c : RelayChain) : List SourceToken :=
  (firstSeen (fun t => toAsciiLowercase t.address) [NATIVE]
    (c.solverCurrencies.filter fun t => isDirect c.id t.address)).map fun t =>
      { SourceToken.ofCurrency t with logoUri := (logo t.logoUri).or (c.featuredLogo t.address) }

/-- The deposit's own token, as its chain lists it. -/
def ownToken (deposit : Deposit) : SourceToken where
  address := deposit.tokenAddress
  symbol := deposit.tokenSymbol
  name := deposit.tokenSymbol
  decimals := .ofInt deposit.tokenDecimals
  logoUri := none

/-- `source_chain`. -/
def sourceChain (lib : Crates) (c : RelayChain) (deposit : Deposit) : SourceChain :=
  let native := (c.currency.map SourceToken.ofCurrency).getD .ether
  let tokens := directTokens c
  let isOwn := c.id.toI64 == deposit.chainId &&
    !(NATIVE :: tokens.map SourceToken.address).contains deposit.tokenAddress
  { id := c.id
    name := if c.displayName.isEmpty then c.name else c.displayName
    iconUrl := c.iconUrl.filter isHttps
    explorerUrl := trimSlashes c.explorerUrl
    rpcUrl := c.httpRpcUrl
    multicall3 := (c.contracts.bind fun k => k.multicall3).filter fun a =>
      (lib.parseAddress a).any (· ≠ 0)
    native := { native with logoUri := native.logoUri.or (c.featuredLogo NATIVE) }
    nativePayable := paysDirectly c NATIVE
    nativeAlias := (NATIVE_ALIASES.find? fun entry => entry.1 == c.id).map Prod.snd
    tokens := if isOwn then ownToken deposit :: tokens else tokens }

/-- `fill_logos`, over Relay's answer for the tokens without a logo. -/
def SourceToken.fillLogo (found : U64 → String → Option String) (chainId : U64) (t : SourceToken) :
    SourceToken :=
  if t.logoUri.isNone then { t with logoUri := logo (found chainId t.address) } else t

def SourceChain.fillLogos (found : U64 → String → Option String) (c : SourceChain) : SourceChain :=
  { c with
    native := c.native.fillLogo found c.id
    tokens := c.tokens.map (SourceToken.fillLogo found c.id) }

/-- `accepts_payment`. -/
def acceptsPayment (d : Deposit) : Bool := d.status == .pending || d.status == .partialPaid

/-- `Sources`. -/
structure Sources where
  available : Bool
  reason : Option String
  chains : List SourceChain

/-- The chains of an answer: the deposit's first, and those without anything to pay with left
out. -/
def sourceChains (lib : Crates) (chains : List RelayChain) (deposit : Deposit) : List SourceChain :=
  (((chains.filter usable).map (sourceChain lib · deposit)).filter fun c =>
      c.id.toI64 == deposit.chainId || c.nativePayable || !c.tokens.isEmpty).insertionSort
    fun a b => (a.id.toI64 != deposit.chainId) ≤ (b.id.toI64 != deposit.chainId)

/-- `open_deposit`, over the parser of ids. -/
def Db.openDeposit (db : Db) (parseUuid : String → Option Uuid) (id : String) :
    Except ApiError Deposit :=
  okOr ((parseUuid id).bind fun id => db.deposits.get? id) ⟨404, "not_found", "no such deposit"⟩

/-- `sources`, with what the database and Relay answer. -/
def sources (lib : Crates) (configured : Bool) (opened : Except ApiError Deposit)
    (chains : Except UpstreamError (List RelayChain)) (logos : U64 → String → Option String) :
    Except ApiError Sources := do
  let deposit ← opened
  if !configured then pure ⟨false, some "disabled", []⟩
  else if !acceptsPayment deposit then pure ⟨false, some "closed", []⟩
  else
    let chains ← chains.mapError relayError
    if !canReceive chains (.ofInt deposit.chainId) then
      pure ⟨false, some "destination_unsupported", []⟩
    else pure ⟨true, none, (sourceChains lib chains deposit).map (SourceChain.fillLogos logos)⟩

/-! ## Token search -/

/-- `TokenSearch`. -/
structure TokenSearch where
  q : String
  chainId : Option U64

/-- `FoundToken`. -/
structure FoundToken where
  chainId : U64
  token : SourceToken

/-- `MAX_SEARCH_LEN`. -/
def MAX_SEARCH_LEN : ℕ := 64

/-- The chains a search is made on. -/
def searchChains (usableIds : List U64) : Option U64 → Except ApiError (List U64)
  | some id =>
    if usableIds.contains id then .ok [id]
    else .error ⟨400, "unsupported_chain", "Relay does not route from this chain"⟩
  | none => .ok usableIds

/-- `search_tokens`, with what the database, the limiter and Relay answer. -/
def searchTokens (lib : Crates) (query : Except String TokenSearch)
    (opened : Except ApiError Deposit) (read : Except ApiError Unit)
    (chains : Except UpstreamError (List RelayChain))
    (search : List U64 → String → Except UpstreamError (List RelayCurrency)) :
    Except ApiError (List FoundToken) := do
  let query ← query.mapError ApiError.invalid
  let _ ← opened
  read
  let term := trim query.q
  refuseIf (MAX_SEARCH_LEN < byteLen term)
    (.invalid s!"q must be at most {MAX_SEARCH_LEN} characters")
  let chains ← chains.mapError relayError
  let usableIds := (chains.filter usable).map RelayChain.id
  let chainIds ← searchChains usableIds query.chainId
  let found ← (search chainIds term).mapError relayError
  pure ((found.filter fun c => (c.vmType.isEmpty || c.vmType == "evm") &&
      usableIds.contains c.chainId && (lib.parseAddress c.address).isSome &&
      chains.any fun chain => chain.id == c.chainId && paysDirectly chain c.address).map fun c =>
    ⟨c.chainId, toAsciiLowercase c.address, c.symbol, c.name, c.decimals, logo c.logoUri⟩)

/-! ## The payer's choice -/

/-- The checks `quote` makes of the payer's chain and token. -/
def quoteOrigin (probe : Bool) (chains : List RelayChain) (originChainId : U64)
    (originCurrency : Address) : Except ApiError RelayChain := do
  let origin ← okOr (chains.find? fun c => c.id == originChainId && usable c)
    ⟨400, "unsupported_chain", "Relay does not route from this chain"⟩
  let currency := originCurrency.lowerHex
  let probing := probe && origin.solverCurrencies.any fun t => eqIgnoreAsciiCase t.address currency
  refuseIf (!probing && !paysDirectly origin currency)
    ⟨400, "unsupported_token", "that token can't pay this directly; pick one from the list"⟩
  pure origin

/-! ## Lists without repetitions -/

section Lists

variable {α : Type}

theorem mem_destutter'_of_mem [DecidableEq α] {l : List α} {a b : α} (h : a = b ∨ a ∈ l) :
    a ∈ l.destutter' (· ≠ ·) b := by
  induction l generalizing b with
  | nil => simpa using h
  | cons c l ih =>
    rw [List.destutter']
    split
    · rcases h with rfl | h
      · exact List.mem_cons_self
      · exact List.mem_cons_of_mem _ (ih (List.mem_cons.mp h))
    · next heq =>
      obtain rfl := not_not.mp heq
      rcases h with rfl | h
      · exact ih (.inl rfl)
      · exact ih (List.mem_cons.mp h)

/-- A list that is sorted and freed of repetitions has its old members. -/
@[simp] theorem mem_sortDedup [LE α] [DecidableLE α] [DecidableEq α] {l : List α} {a : α} :
    a ∈ sortDedup l ↔ a ∈ l := by
  have hdestutter (l : List α) : a ∈ l.destutter (· ≠ ·) ↔ a ∈ l := by
    refine ⟨fun h => (List.destutter_sublist _ l).subset h, fun h => ?_⟩
    cases l with
    | nil => cases h
    | cons b l => exact mem_destutter'_of_mem (List.mem_cons.mp h)
  rw [sortDedup, hdestutter, List.mem_insertionSort]

variable {key : α → String} {seen : List String} {l : List α}

/-- Every key that had not been seen is kept, in some member of the list. -/
theorem mem_map_firstSeen {k : String} :
    k ∈ (firstSeen key seen l).map key ↔ k ∈ l.map key ∧ k ∉ seen := by
  induction l generalizing seen with
  | nil => simp [firstSeen]
  | cons a l ih =>
    rw [firstSeen]
    split
    · next hseen =>
      rw [ih, List.map_cons, List.mem_cons]
      refine and_congr_left fun hk => ?_
      exact ⟨.inr, fun h => h.resolve_left fun heq => hk (heq ▸ hseen)⟩
    · next hseen =>
      rw [List.map_cons, List.mem_cons, ih, List.map_cons, List.mem_cons, List.mem_cons, not_or]
      by_cases hk : k = key a
      · simp [hk, hseen]
      · simp [hk]

/-- And once. -/
theorem nodup_map_firstSeen : ((firstSeen key seen l).map key).Nodup := by
  induction l generalizing seen with
  | nil => exact List.nodup_nil
  | cons a l ih =>
    rw [firstSeen]
    split
    · exact ih
    · rw [List.map_cons, List.nodup_cons, mem_map_firstSeen]
      exact ⟨fun h => h.2 List.mem_cons_self, ih⟩

end Lists

/-! ## Addresses as text -/

theorem NATIVE_eq : NATIVE = (0 : Address).lowerHex := by decide +kernel

theorem map_toLower_hexChars (bs : List UInt8) :
    (hexChars bs).map Char.toLower = hexChars bs := by
  have hdigit : ∀ n < 16, (Nat.digitChar n).toLower = Nat.digitChar n := by decide
  induction bs with
  | nil => rfl
  | cons b bs ih =>
    have hb := b.toNat_lt
    rw [hexChars, List.map_cons, List.map_cons, hdigit _ (by omega), hdigit _ (by omega), ih]

/-- `{:#x}` is lowercase. -/
@[simp] theorem toAsciiLowercase_lowerHex (a : Address) :
    toAsciiLowercase a.lowerHex = a.lowerHex := by
  rw [Address.lowerHex, lowerHex, toAsciiLowercase, String.toList_ofList, List.map_cons,
    List.map_cons, map_toLower_hexChars]
  rfl

theorem eqIgnoreAsciiCase_iff {s t : String} :
    eqIgnoreAsciiCase s t = true ↔ toAsciiLowercase s = toAsciiLowercase t := beq_iff_eq

/-- A token is on the list under its own spelling. -/
theorem isDirect_iff {chainId : U64} {s : String} : isDirect chainId s = true ↔
    ∃ t ∈ DIRECT_TOKENS, t.chainId = chainId ∧ toAsciiLowercase s = t.address.lowerHex := by
  rw [isDirect, List.any_eq_true]
  refine exists_congr fun t => and_congr_right fun _ => ?_
  rw [Bool.and_eq_true, beq_iff_eq, eqIgnoreAsciiCase_iff, toAsciiLowercase_lowerHex]
  exact and_congr_right fun _ => eq_comm

theorem isDirect_congr {chainId : U64} {s t : String}
    (h : toAsciiLowercase s = toAsciiLowercase t) : isDirect chainId s = isDirect chainId t := by
  rw [Bool.eq_iff_iff, isDirect_iff, isDirect_iff, h]

theorem paysDirectly_iff {c : RelayChain} {s : String} : paysDirectly c s = true ↔
    ∃ t ∈ c.solverCurrencies, isDirect c.id t.address = true ∧
      toAsciiLowercase t.address = toAsciiLowercase s := by
  rw [paysDirectly, Bool.and_eq_true, List.any_eq_true]
  constructor
  · rintro ⟨hdirect, t, ht, heq⟩
    rw [eqIgnoreAsciiCase_iff] at heq
    exact ⟨t, ht, (isDirect_congr heq).trans hdirect, heq⟩
  · rintro ⟨t, ht, hdirect, heq⟩
    exact ⟨(isDirect_congr heq).symm.trans hdirect, t, ht, eqIgnoreAsciiCase_iff.mpr heq⟩

/-! ## What is offered -/

/-- A chain offers a token, under its address. -/
def SourceChain.Offers (c : SourceChain) (address : String) : Prop :=
  address ∈ c.tokens.map SourceToken.address ∨ (c.nativePayable = true ∧ address = NATIVE)

section Offers

variable {lib : Crates} {c : RelayChain} {deposit : Deposit}

/-- The addresses of the listed tokens: those that are paid with directly, the native currency
apart. -/
theorem mem_directTokens {x : String} : x ∈ (directTokens c).map SourceToken.address ↔
    (∃ t ∈ c.solverCurrencies, isDirect c.id t.address = true ∧ toAsciiLowercase t.address = x) ∧
      x ≠ NATIVE := by
  have hmap : (directTokens c).map SourceToken.address =
      (firstSeen (fun t => toAsciiLowercase t.address) [NATIVE]
        (c.solverCurrencies.filter fun t => isDirect c.id t.address)).map
          fun t => toAsciiLowercase t.address := by
    rw [directTokens, List.map_map]
    rfl
  rw [hmap, mem_map_firstSeen, List.mem_map, List.mem_singleton]
  simp only [List.mem_filter, and_assoc]

/-- **A chain offers what it is paid with directly**, the deposit's own token apart. -/
theorem sourceChain_offers {a : Address}
    (hother : ¬ (c.id.toI64 = deposit.chainId ∧ a.lowerHex = deposit.tokenAddress)) :
    (sourceChain lib c deposit).Offers a.lowerHex ↔ paysDirectly c a.lowerHex = true := by
  have htokens : a.lowerHex ∈ (sourceChain lib c deposit).tokens.map SourceToken.address ↔
      a.lowerHex ∈ (directTokens c).map SourceToken.address := by
    rw [sourceChain]
    dsimp only
    split
    · next hown =>
      rw [Bool.and_eq_true, beq_iff_eq] at hown
      rw [List.map_cons, List.mem_cons]
      exact ⟨fun h => h.resolve_left fun heq => hother ⟨hown.1, heq⟩, .inr⟩
    · exact Iff.rfl
  have hpayable : (sourceChain lib c deposit).nativePayable = paysDirectly c NATIVE := rfl
  rw [SourceChain.Offers, htokens, mem_directTokens, hpayable]
  by_cases hnative : a.lowerHex = NATIVE
  · simp [hnative]
  · have hpays := @paysDirectly_iff c a.lowerHex
    rw [toAsciiLowercase_lowerHex] at hpays
    simp [hnative, hpays]

/-- Whatever is offered is an address, in the spelling `quote` gives it. -/
theorem sourceChain_spelled {x : String} (h : (sourceChain lib c deposit).Offers x) :
    x = deposit.tokenAddress ∨ ∃ a : Address, x = a.lowerHex := by
  have hdirect (h : x ∈ (directTokens c).map SourceToken.address) : ∃ a : Address, x = a.lowerHex := by
    obtain ⟨⟨t, -, hdirect, rfl⟩, -⟩ := mem_directTokens.mp h
    obtain ⟨entry, -, -, heq⟩ := isDirect_iff.mp hdirect
    exact ⟨entry.address, heq⟩
  rcases h with htoken | ⟨-, rfl⟩
  · rw [sourceChain] at htoken
    dsimp only at htoken
    split at htoken
    · rcases List.mem_cons.mp htoken with rfl | htoken
      · exact .inl rfl
      · exact .inr (hdirect htoken)
    · exact .inr (hdirect htoken)
  · exact .inr ⟨0, NATIVE_eq⟩

/-- And it is offered once: a listed token is not the native currency. -/
theorem sourceChain_nodup :
    (NATIVE :: (sourceChain lib c deposit).tokens.map SourceToken.address).Nodup := by
  have hdirect : (NATIVE :: (directTokens c).map SourceToken.address).Nodup := by
    rw [List.nodup_cons, mem_directTokens]
    refine ⟨fun h => h.2 rfl, ?_⟩
    rw [directTokens, List.map_map]
    exact nodup_map_firstSeen
  rw [sourceChain]
  dsimp only
  split
  · next hown =>
    rw [Bool.and_eq_true, Bool.not_eq_true', List.contains_eq_mem, decide_eq_false_iff_not] at hown
    rw [List.map_cons]
    exact (List.Perm.swap _ _ _).nodup (List.nodup_cons.mpr ⟨hown.2, hdirect⟩)
  · exact hdirect

theorem fillLogos_addresses {found : U64 → String → Option String} {s : SourceChain} :
    (s.fillLogos found).tokens.map SourceToken.address = s.tokens.map SourceToken.address := by
  have haddress (t : SourceToken) : (t.fillLogo found s.id).address = t.address := by
    rw [SourceToken.fillLogo]
    split <;> rfl
  rw [SourceChain.fillLogos, List.map_map]
  simp only [Function.comp_def, haddress]

theorem fillLogos_offers {found : U64 → String → Option String} {s : SourceChain}
    {address : String} : (s.fillLogos found).Offers address ↔ s.Offers address := by
  rw [SourceChain.Offers, SourceChain.Offers, fillLogos_addresses]
  rfl

/-- The chains of an answer. -/
theorem mem_sourceChains {chains : List RelayChain} {s : SourceChain} :
    s ∈ sourceChains lib chains deposit ↔ ∃ c ∈ chains, usable c = true ∧
      sourceChain lib c deposit = s ∧
      (s.id.toI64 = deposit.chainId ∨ s.nativePayable = true ∨ s.tokens ≠ []) := by
  have hkept (s : SourceChain) : (s.id.toI64 == deposit.chainId || s.nativePayable ||
      !s.tokens.isEmpty) = true ↔
        s.id.toI64 = deposit.chainId ∨ s.nativePayable = true ∨ s.tokens ≠ [] := by
    simp [or_assoc]
  rw [sourceChains, List.mem_insertionSort, List.mem_filter, List.mem_map, hkept]
  constructor
  · rintro ⟨⟨c, hc, rfl⟩, hpays⟩
    obtain ⟨hmem, husable⟩ := List.mem_filter.mp hc
    exact ⟨c, hmem, husable, rfl, hpays⟩
  · rintro ⟨c, hmem, husable, rfl, hpays⟩
    exact ⟨⟨c, List.mem_filter.mpr ⟨hmem, husable⟩, rfl⟩, hpays⟩

/-- A chain that offers something is in the answer. -/
theorem SourceChain.Offers.listed {s : SourceChain} {address : String} (h : s.Offers address) :
    s.nativePayable = true ∨ s.tokens ≠ [] := by
  rcases h with htoken | ⟨hnative, -⟩
  · right
    rintro hnil
    rw [hnil] at htoken
    cases htoken
  · exact .inl hnative

/-! ## What can be quoted -/

/-- **The checks of a quote**, without probing. -/
theorem quoteOrigin_ok {chains : List RelayChain} {chainId : U64} {currency : Address}
    {origin : RelayChain} : quoteOrigin false chains chainId currency = .ok origin ↔
      (chains.find? fun c => c.id == chainId && usable c) = some origin ∧
        paysDirectly origin currency.lowerHex = true := by
  rw [quoteOrigin, okOr_bind_eq_ok]
  simp only [Bool.false_and, Bool.not_false, Bool.true_and, refuseIf_bind_eq_ok, pure_eq_ok,
    Bool.not_eq_false']
  constructor
  · rintro ⟨c, hfind, hpays, rfl⟩
    exact ⟨hfind, hpays⟩
  · rintro ⟨hfind, hpays⟩
    exact ⟨origin, hfind, hpays, rfl⟩

/-- With one chain to an id, the usable one under it is found. -/
theorem find_usable {chains : List RelayChain} (hids : (chains.map RelayChain.id).Nodup)
    (hc : c ∈ chains) (husable : usable c = true) :
    (chains.find? fun c' => c'.id == c.id && usable c') = some c := by
  induction chains with
  | nil => cases hc
  | cons first chains ih =>
    rw [List.map_cons, List.nodup_cons] at hids
    rcases List.mem_cons.mp hc with rfl | hc
    · rw [List.find?_cons_of_pos]
      simp [husable]
    · rw [List.find?_cons_of_neg]
      · exact ih hids.2 hc
      · have hne : first.id ≠ c.id := fun heq => hids.1 (heq ▸ List.mem_map_of_mem hc)
        simp [hne]

end Offers

/-- An answer that offers something: the deposit is open, and Relay can pay to its chain. -/
theorem sources_available {lib : Crates} {configured : Bool} {opened : Except ApiError Deposit}
    {chains : Except UpstreamError (List RelayChain)} {logos : U64 → String → Option String}
    {body : Sources} (h : sources lib configured opened chains logos = .ok body)
    (havailable : body.available = true) : ∃ deposit list, opened = .ok deposit ∧
      chains = .ok list ∧ acceptsPayment deposit = true ∧
      canReceive list (.ofInt deposit.chainId) = true ∧
      body.chains = (sourceChains lib list deposit).map (SourceChain.fillLogos logos) := by
  obtain ⟨deposit, hopened, h⟩ := bind_eq_ok.mp h
  split at h
  · obtain rfl := pure_eq_ok.mp h
    cases havailable
  split at h
  · obtain rfl := pure_eq_ok.mp h
    cases havailable
  next haccepts =>
  obtain ⟨list, hlist, h⟩ := bind_eq_ok.mp h
  split at h
  · obtain rfl := pure_eq_ok.mp h
    cases havailable
  next hreceive =>
  obtain rfl := pure_eq_ok.mp h
  exact ⟨deposit, list, hopened, mapError_eq_ok.mp hlist, by simpa using haccepts,
    by simpa using hreceive, rfl⟩

/-- What is offered can be quoted, as long as Relay lists a chain once. -/
theorem offered_quotable {lib : Crates} {list : List RelayChain} {deposit : Deposit}
    {logos : U64 → String → Option String} {chainId : U64} {currency : Address}
    (hids : (list.map RelayChain.id).Nodup)
    (hother : ¬ (chainId.toI64 = deposit.chainId ∧ currency.lowerHex = deposit.tokenAddress))
    (h : ∃ s ∈ (sourceChains lib list deposit).map (SourceChain.fillLogos logos),
      s.id = chainId ∧ s.Offers currency.lowerHex) :
    ∃ origin, quoteOrigin false list chainId currency = .ok origin := by
  obtain ⟨s, hs, rfl, hoffers⟩ := h
  obtain ⟨s', hs', rfl⟩ := List.mem_map.mp hs
  obtain ⟨c, hc, husable, rfl, -⟩ := mem_sourceChains.mp hs'
  rw [fillLogos_offers] at hoffers
  exact ⟨c, quoteOrigin_ok.mpr ⟨find_usable hids hc husable,
    (sourceChain_offers hother).mp hoffers⟩⟩

/-- **What is offered can be quoted, and what can be quoted is offered.** A token other than the
deposit's own is in the answer, on a chain, exactly if `quote` takes it from there; as long as
Relay lists a chain once. And whatever is offered is spelled as `quote` spells it, and offered on a
chain once. -/
theorem sources_agree_with_quote (lib : Crates) (opened : Except ApiError Deposit)
    (chains : Except UpstreamError (List RelayChain)) (logos : U64 → String → Option String)
    (body : Sources) (h : sources lib true opened chains logos = .ok body)
    (havailable : body.available = true) : ∃ deposit list, opened = .ok deposit ∧
      chains = .ok list ∧
      (∀ chainId currency,
        ¬ (chainId.toI64 = deposit.chainId ∧ currency.lowerHex = deposit.tokenAddress) →
        (∀ origin, quoteOrigin false list chainId currency = .ok origin →
          ∃ s ∈ body.chains, s.id = chainId ∧ s.Offers currency.lowerHex) ∧
        ((list.map RelayChain.id).Nodup →
          (∃ s ∈ body.chains, s.id = chainId ∧ s.Offers currency.lowerHex) →
          ∃ origin, quoteOrigin false list chainId currency = .ok origin)) ∧
      ∀ s ∈ body.chains, (NATIVE :: s.tokens.map SourceToken.address).Nodup ∧
        ∀ x, s.Offers x → x = deposit.tokenAddress ∨ ∃ a : Address, x = a.lowerHex := by
  obtain ⟨deposit, list, hopened, hchains, -, -, hbody⟩ := sources_available h havailable
  refine ⟨deposit, list, hopened, hchains, fun chainId currency hother => ⟨?_, ?_⟩, ?_⟩
  · intro origin horigin
    obtain ⟨hfind, hpays⟩ := quoteOrigin_ok.mp horigin
    have hmatch := List.find?_some hfind
    rw [Bool.and_eq_true, beq_iff_eq] at hmatch
    obtain ⟨rfl, husable⟩ := hmatch
    have hoffers := (@sourceChain_offers lib origin deposit currency hother).mpr hpays
    refine ⟨(sourceChain lib origin deposit).fillLogos logos, ?_, rfl,
      fillLogos_offers.mpr hoffers⟩
    rw [hbody]
    refine List.mem_map_of_mem (mem_sourceChains.mpr ⟨origin, List.mem_of_find?_eq_some hfind,
      husable, rfl, .inr hoffers.listed⟩)
  · intro hids hoffered
    rw [hbody] at hoffered
    exact offered_quotable hids hother hoffered
  · intro s hs
    rw [hbody] at hs
    obtain ⟨s', hs', rfl⟩ := List.mem_map.mp hs
    obtain ⟨c, -, -, rfl, -⟩ := mem_sourceChains.mp hs'
    rw [fillLogos_addresses]
    exact ⟨sourceChain_nodup, fun x hx => sourceChain_spelled (fillLogos_offers.mp hx)⟩

/-- **A search finds nothing else**: what it finds can be quoted too, under the same proviso. -/
theorem search_agrees_with_quote (lib : Crates) (query : Except String TokenSearch)
    (opened : Except ApiError Deposit) (read : Except ApiError Unit) (list : List RelayChain)
    (search : List U64 → String → Except UpstreamError (List RelayCurrency))
    (found : List FoundToken) (h : searchTokens lib query opened read (.ok list) search = .ok found)
    (hids : (list.map RelayChain.id).Nodup) :
    ∀ t ∈ found, ∃ a origin, t.token.address = Address.lowerHex a ∧
      quoteOrigin false list t.chainId a = .ok origin := by
  obtain ⟨query, -, h⟩ := bind_eq_ok.mp h
  obtain ⟨-, -, h⟩ := bind_eq_ok.mp h
  obtain ⟨-, -, h⟩ := bind_eq_ok.mp h
  obtain ⟨-, h⟩ := refuseIf_bind_eq_ok.mp h
  obtain ⟨_, hlist, h⟩ := bind_eq_ok.mp h
  obtain rfl := Except.ok.inj hlist
  obtain ⟨_, -, h⟩ := bind_eq_ok.mp h
  obtain ⟨entries, -, h⟩ := bind_eq_ok.mp h
  obtain rfl := pure_eq_ok.mp h
  intro t ht
  obtain ⟨entry, hentry, rfl⟩ := List.mem_map.mp ht
  have hkept := (List.mem_filter.mp hentry).2
  simp only [Bool.and_eq_true, List.any_eq_true, beq_iff_eq, List.contains_iff_mem] at hkept
  obtain ⟨⟨⟨-, husable⟩, -⟩, c, hc, hid, hpays⟩ := hkept
  obtain ⟨c', hc', hid'⟩ := List.mem_map.mp husable
  obtain ⟨hmem, husable⟩ := List.mem_filter.mp hc'
  obtain rfl := List.inj_on_of_nodup_map hids hmem hc (hid'.trans hid.symm)
  obtain ⟨listed, hlisted, hdirect, heq⟩ := paysDirectly_iff.mp hpays
  obtain ⟨direct, -, -, hspelled⟩ := isDirect_iff.mp hdirect
  have haddress := heq.symm.trans hspelled
  refine ⟨direct.address, c', haddress, quoteOrigin_ok.mpr ⟨?_, ?_⟩⟩
  · rw [← hid]
    exact find_usable hids hc husable
  · refine paysDirectly_iff.mpr ⟨listed, hlisted, hdirect, ?_⟩
    rw [toAsciiLowercase_lowerHex, hspelled]

/-! ## The fixture's chains -/

namespace Fixture

/-- USDC on Base. -/
def baseUsdc : Address := 0x833589fcd6edb6e08f4c7c32d4f71b54bda02913

/-- A token of Relay's, without a logo. -/
def relayToken (symbol address : String) (decimals : UInt8) : RelayChainCurrency :=
  ⟨symbol, symbol, address, decimals, none⟩

/-- Base, whose USDC Relay lists in capitals, and twice; its WETH takes two steps. -/
def base : RelayChain where
  id := 8453
  name := "base"
  displayName := "Base"
  vmType := "evm"
  disabled := false
  depositEnabled := true
  httpRpcUrl := "https://mainnet.base.org"
  explorerUrl := "https://basescan.org/"
  iconUrl := none
  currency := some (relayToken "ETH" NATIVE 18)
  featuredTokens := []
  erc20Currencies := [relayToken "USDC" baseUsdc.lowerHex 6]
  solverCurrencies := [
    relayToken "USDC" "0x833589FCD6EDB6E08F4C7C32D4F71B54BDA02913" 6,
    relayToken "USDC" baseUsdc.lowerHex 6,
    relayToken "WETH" "0x4200000000000000000000000000000000000006" 18]
  contracts := some {
    multicall3 := none
    relayReceiver := none
    erc20Router := some "0x0000000000000000000000000000000000007777"
    approvalProxy := some "0x0000000000000000000000000000000000004444"
    v3 := none }
  protocol := some ⟨some "0x0000000000000000000000000000000000003333", none⟩

/-- The chain of the fixture's deposit. -/
def anvil : RelayChain := { base with
  id := 31337, name := "anvil", displayName := "", solverCurrencies := [] }

/-- The answer for a deposit, without logos. -/
def sourcesFor (d : Deposit) : Except ApiError Sources :=
  sources Crates.reference true (.ok d) (.ok [anvil, base]) fun _ _ => none

end Fixture

/-- The fixture's deposit can be paid with USDC on Base. -/
theorem sources_agree_with_quote_fixture : ∃ d body,
    insertDeposit Fixture.new 7 "user" Fixture.requestedAt = some d ∧
    Fixture.sourcesFor d = .ok body ∧
    ∃ s ∈ body.chains, s.id = 8453 ∧ s.Offers Fixture.baseUsdc.lowerHex := by
  have hrun : ((insertDeposit Fixture.new 7 "user" Fixture.requestedAt).bind fun d =>
      (Fixture.sourcesFor d).toOption.map fun body =>
        (body.available, d.chainId)) = some (true, 31337) := by decide +kernel
  obtain ⟨d, hd, hrun⟩ := Option.bind_eq_some_iff.mp hrun
  obtain ⟨body, hbody, hfound⟩ := Option.map_eq_some_iff.mp hrun
  obtain ⟨havailable, hchain⟩ := Prod.mk.inj hfound
  rw [toOption_eq_some] at hbody
  obtain ⟨deposit, list, hopened, hlist, hoffers, -⟩ := sources_agree_with_quote
    Crates.reference (.ok d) (.ok [Fixture.anvil, Fixture.base]) (fun _ _ => none) body hbody
    havailable
  obtain rfl := Except.ok.inj hopened
  obtain rfl := Except.ok.inj hlist
  have hother : ¬ ((8453 : U64).toI64 = d.chainId ∧ Fixture.baseUsdc.lowerHex = d.tokenAddress) := by
    rw [hchain]
    rintro ⟨h, -⟩
    exact absurd h (by decide)
  have horigin : quoteOrigin false [Fixture.anvil, Fixture.base] 8453 Fixture.baseUsdc =
      .ok Fixture.base := quoteOrigin_ok.mpr ⟨rfl, by decide +kernel⟩
  exact ⟨d, body, hd, hbody, (hoffers 8453 Fixture.baseUsdc hother).1 _ horigin⟩

end GumServer
