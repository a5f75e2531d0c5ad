import GumServer.Accepted
import GumServer.Sources
import GumServer.Stored

/-!
# Quotes for a deposit

`POST /v1/pay/{id}/quote` (`deposit/relay.rs`): from the deposit in the database and the payer's
choice, to a request of Relay's, and from Relay's answer to the route the page may execute.

`check_quote` holds an answer to what was expected. Here is where the expectation comes from: at any
point of any run, an answer goes out only for an open deposit, and what it was held to is that
deposit's own payment address, token and chain, as they were created, for no more than is owed
(`quoted_routes_pay_deposits`).
-/

namespace GumServer

open Checks

/-! ## What the handler reads -/

/-- `QuoteBody`. -/
structure QuoteBody where
  user : String
  originChainId : U64
  originCurrency : String
  amount : String

/-- `QuoteRequest`. -/
structure QuoteRequest where
  user : String
  recipient : String
  refundTo : String
  refundOnOrigin : Bool
  originChainId : U64
  originCurrency : String
  destinationChainId : U64
  destinationCurrency : String
  amount : String
  tradeType : String
  referrer : String
  enableTrueExactOutput : Bool
  forceSolverExecution : Bool

/-- `RelayConfig`, as far as quotes go. -/
structure RelayConfig where
  /-- whether there is a key and an address -/
  configured : Bool
  minTimeLeftSecs : ℤ
  probeUnlistedTokens : Bool
  referrer : String

/-- What the limiters answer. -/
structure LimitsAnswer where
  quotesPerDeposit : Bool
  quotes : Bool
  readsPerDeposit : Bool

/-- What Relay answers. -/
structure RelayAnswers where
  chains : Except UpstreamError (List RelayChain)
  search : List U64 → String → Except UpstreamError (List RelayCurrency)
  quote : QuoteRequest → Except UpstreamError Quote

/-- How a handler ends without an answer. -/
inductive Halt : Type where
  | refused (e : ApiError) : Halt
  /-- an `expect` failed -/
  | panicked : Halt

/-- `?` on an answer of the error type. -/
def orRefuse {α : Type} (x : Except ApiError α) : Except Halt α := x.mapError .refused

/-! ## The handler -/

/-- `rate_limited`. -/
def rateLimited (message : String) : ApiError := ⟨429, "rate_limited", message⟩

/-- `RouteLimits::quote`. -/
def LimitsAnswer.quote (limits : LimitsAnswer) : Except ApiError Unit := do
  refuseIf (!limits.quotesPerDeposit)
    (rateLimited "too many quotes for this payment; wait a few seconds")
  refuseIf (!limits.quotes) (rateLimited "quotes are busy; try again in a few seconds")

/-- `RouteLimits::read`. -/
def LimitsAnswer.read (limits : LimitsAnswer) : Except ApiError Unit :=
  refuseIf (!limits.readsPerDeposit)
    (rateLimited "too many requests for this payment; wait a few seconds")

/-- `quote_error`: Relay's refusals, in words a payer can act on. -/
def quoteError : UpstreamError → ApiError
  | .rejected code message =>
    if code = "AMOUNT_TOO_LOW" then
      ⟨422, "amount_too_low", "this amount is too small to route from that token"⟩
    else if code = "AMOUNT_TOO_HIGH" ∨ code = "INSUFFICIENT_LIQUIDITY" then
      ⟨422, "insufficient_liquidity", message⟩
    else if code = "SWAP_IMPACT_TOO_HIGH" then
      ⟨422, "price_impact_too_high", "that token's price impact is too high for this amount"⟩
    else if code = "SANCTIONED_WALLET_ADDRESS" ∨ code = "SANCTIONED_CURRENCY" then
      ⟨422, "blocked", "Relay can't route from this wallet or token"⟩
    else if code = "CHAIN_DISABLED" ∨ code = "ROUTE_TEMPORARILY_RESTRICTED" then
      ⟨422, "route_unavailable", "this route is paused right now; try another token or chain"⟩
    else ⟨422, "no_route", "no route from that token right now; try another"⟩
  | err => relayError err

/-- What is still owed of a deposit, as its row reads. -/
def Deposit.owed (lib : Crates) (d : Deposit) : U256 :=
  let total := (lib.fromStrRadix d.amount).getD 0
  let confirmed := (lib.fromStrRadix d.confirmedAmount).getD 0
  -- `saturating_sub`
  if confirmed ≤ total then total - confirmed else 0

/-- What `expected` reads of the payer's choice: who pays, with what, and how much. -/
def QuoteBody.read (lib : Crates) (deposit : Deposit) (body : QuoteBody) :
    Except ApiError (Address × Address × U256) := do
  let user ← okOr (lib.parseAddress (trim body.user)) (.invalid "user is not an address")
  refuseIf (user == 0) (.invalid "user must not be the zero address")
  let originCurrency ← okOr (lib.parseAddress (trim body.originCurrency))
    (.invalid "origin_currency is not an address")
  let amount := trim body.amount
  refuseIf (amount.isEmpty || !amount.toList.all Char.isDigit)
    (.invalid "amount must be a whole number of base units")
  let amount ← okOr (lib.fromStrRadix amount) (.invalid "amount does not fit uint256")
  let owed := deposit.owed lib
  refuseIf (amount == 0 || decide (owed < amount))
    (.invalid s!"amount must be between 1 and {owed}, what is still owed")
  pure (user, originCurrency, amount)

/-- `expected`. -/
def expected (lib : Crates) (deposit : Deposit) (body : QuoteBody) : Except Halt Expected := do
  let (user, originCurrency, amount) ← orRefuse (body.read lib deposit)
  let token ← okOr (lib.parseAddress deposit.tokenAddress) Halt.panicked
  let recipient ← okOr (deposit.paymentAddressOf lib) Halt.panicked
  pure {
    user
    originChainId := body.originChainId
    originCurrency
    destinationChainId := .ofInt deposit.chainId
    token
    recipient
    amount
    relayRoles := ⟨[], [], [], []⟩
    originDecimals := 0
    tokenDecimals := .ofInt deposit.tokenDecimals
    originChainNames := []
    destinationChainNames := [] }

/-- The decimals of the payer's token: Relay's own listing on the chain, else its token search
there. -/
def originDecimals (limits : LimitsAnswer) (relay : RelayAnswers) (origin : RelayChain)
    (want : Expected) : Except ApiError UInt8 :=
  match chainTokenDecimals origin want.originCurrency with
  | some decimals => .ok decimals
  | none => do
    limits.read
    let term := want.originCurrency.lowerHex
    let found ← (relay.search [want.originChainId] term).mapError relayError
    let entry := found.find? fun t =>
      t.chainId == want.originChainId && eqIgnoreAsciiCase t.address term
    okOr (entry.map fun t => t.decimals)
      (.invalid "that token is not known to Relay on this chain; it can't be quoted safely")

/-- What is asked of Relay. -/
def quoteRequest (config : RelayConfig) (deposit : Deposit) (want : Expected) : QuoteRequest where
  user := want.user.lowerHex
  recipient := want.recipient.lowerHex
  refundTo := want.user.lowerHex
  refundOnOrigin := true
  originChainId := want.originChainId
  originCurrency := want.originCurrency.lowerHex
  destinationChainId := want.destinationChainId
  destinationCurrency := want.token.lowerHex
  amount := toString want.amount
  tradeType := "EXACT_OUTPUT"
  referrer := s!"{config.referrer}|{deposit.id.text}"
  enableTrueExactOutput := true
  forceSolverExecution := want.originChainId == want.destinationChainId

/-- The expectation, once Relay's chains are known. -/
def Expected.on (lib : Crates) (want : Expected) (chains : List RelayChain) (origin : RelayChain)
    (decimals : UInt8) : Expected :=
  { want with
    relayRoles := origin.relayRoles lib
    originChainNames := chainNames origin
    destinationChainNames :=
      ((chains.find? fun c => c.id == want.destinationChainId).map chainNames).getD []
    originDecimals := decimals }

/-- The first part of `quote`: the checks, up to what Relay is asked and held to. -/
def prepareQuote (lib : Crates) (config : RelayConfig) (deposit : Deposit) (now : DateTime)
    (body : QuoteBody) (limits : LimitsAnswer) (relay : RelayAnswers) : Except Halt Expected := do
  orRefuse (refuseIf (!acceptsPayment deposit)
    ⟨409, "closed", "this payment is no longer accepting funds"⟩)
  let left := DateTime.numSeconds (deposit.expiresAt.signedDurationSince now)
  orRefuse (refuseIf (left < config.minTimeLeftSecs) ⟨409, "closing",
    "this payment closes too soon for a route to land; pay in the requested token instead"⟩)
  let want ← expected lib deposit body
  orRefuse (refuseIf
    (want.originChainId == want.destinationChainId && want.originCurrency == want.token)
    (.invalid "that is the requested token itself: send it with a plain transfer"))
  let chains ← orRefuse (relay.chains.mapError relayError)
  let origin ← orRefuse
    (quoteOrigin config.probeUnlistedTokens chains want.originChainId want.originCurrency)
  let decimals ← orRefuse (originDecimals limits relay origin want)
  orRefuse (refuseIf (!canReceive chains want.destinationChainId)
    ⟨409, "route_unavailable", "Relay does not route to this payment's chain right now"⟩)
  orRefuse limits.quote
  pure (want.on lib chains origin decimals)

/-- `quote`, with what the database, the clock, the limiters and Relay answer. -/
def quote (lib : Crates) (config : RelayConfig) (opened : Except ApiError Deposit) (now : DateTime)
    (body : Except String QuoteBody) (limits : LimitsAnswer) (relay : RelayAnswers)
    (quotedAt : String) : Except Halt RouteQuote := do
  let body ← orRefuse (body.mapError .invalid)
  orRefuse (refuseIf (!config.configured)
    ⟨503, "relay_disabled", "paying with other tokens is not available"⟩)
  let deposit ← orRefuse opened
  let want ← prepareQuote lib config deposit now body limits relay
  let answer ← orRefuse ((relay.quote (quoteRequest config deposit want)).mapError quoteError)
  orRefuse ((checkQuote lib quotedAt answer want).mapError fun _ =>
    ⟨502, "route_rejected", "the route did not match this payment; try another token"⟩)

/-! ## What a quote was made from -/

@[simp] theorem orRefuse_eq_ok {α : Type} {x : Except ApiError α} {a : α} :
    orRefuse x = .ok a ↔ x = .ok a := mapError_eq_ok

/-- A refusal is not a panic. -/
@[simp] theorem orRefuse_ne_panicked {α : Type} {x : Except ApiError α} :
    orRefuse x ≠ .error .panicked := by
  cases x <;> simp [orRefuse, Except.mapError]

theorem bind_ne_panicked {α β : Type} {x : Except Halt α} {f : α → Except Halt β}
    (hx : x ≠ .error .panicked) (hf : ∀ a, x = .ok a → f a ≠ .error .panicked) :
    (x >>= f) ≠ .error .panicked := by
  cases x with
  | error e =>
    intro h
    cases h
    exact hx rfl
  | ok a => exact hf a rfl

section Rows

variable {lib : Crates} {d : Deposit} {new : NewDeposit} {body : QuoteBody}

/-- What the row says is owed is what is owed. -/
theorem Holds.owed (h : Holds d new) {confirmed : U256}
    (htotal : d.confirmedAmount = toString confirmed.val) :
    (d.owed lib).val = new.amount.val - confirmed.val := by
  rw [Deposit.owed, h.amount, htotal, Crates.fromStrRadix_toString, Crates.fromStrRadix_toString]
  dsimp only [Option.getD_some]
  split
  · next hle => exact Fin.sub_val_of_le hle
  · next hlt =>
    have hlt : new.amount.val < confirmed.val := Fin.not_le.mp hlt
    rw [Nat.sub_eq_zero_of_le hlt.le]
    rfl

/-- The payer's choice is for something, and for no more than is owed. -/
theorem QuoteBody.read_ok {choice : Address × Address × U256}
    (h : body.read lib d = .ok choice) :
    lib.parseAddress (trim body.user) = some choice.1 ∧ choice.1 ≠ 0 ∧
      lib.parseAddress (trim body.originCurrency) = some choice.2.1 ∧
      choice.2.2 ≠ 0 ∧ choice.2.2 ≤ d.owed lib := by
  obtain ⟨user, huser, h⟩ := okOr_bind_eq_ok.mp h
  obtain ⟨hzero, h⟩ := refuseIf_bind_eq_ok.mp h
  obtain ⟨currency, hcurrency, h⟩ := okOr_bind_eq_ok.mp h
  obtain ⟨-, h⟩ := refuseIf_bind_eq_ok.mp h
  obtain ⟨amount, -, h⟩ := okOr_bind_eq_ok.mp h
  obtain ⟨hamount, h⟩ := refuseIf_bind_eq_ok.mp h
  obtain rfl := pure_eq_ok.mp h
  rw [Bool.or_eq_false_iff, beq_eq_false_iff_ne, decide_eq_false_iff_not] at hamount
  exact ⟨huser, beq_eq_false_iff_ne.mp hzero, hcurrency, hamount.1, Fin.not_lt.mp hamount.2⟩

/-- The expectation of a stored deposit is made of the terms it was created with. -/
theorem Holds.expected (h : Holds d new) : expected lib d body =
    (orRefuse (body.read lib d)).map fun choice => {
      user := choice.1
      originChainId := body.originChainId
      originCurrency := choice.2.1
      destinationChainId := new.chainId
      token := new.tokenAddress
      recipient := new.paymentAddress
      amount := choice.2.2
      relayRoles := ⟨[], [], [], []⟩
      originDecimals := 0
      tokenDecimals := .ofInt new.tokenDecimals.val
      originChainNames := []
      destinationChainNames := [] } := by
  rw [GumServer.expected, h.tokenAddress, h.chainId, h.tokenDecimals, Deposit.paymentAddressOf,
    h.paymentAddress, Crates.parseAddress_lowerHex, Crates.parseAddress_lowerHex, U64.ofInt_toI64]
  cases body.read lib d <;> rfl

theorem Holds.expected_ne_panicked (h : Holds d new) :
    GumServer.expected lib d body ≠ .error .panicked := by
  rw [h.expected]
  cases body.read lib d <;> simp [orRefuse, Except.mapError, Except.map]

end Rows

/-! ## What a wallet is handed -/

/-- A transaction runs on the payer's chain, and calls the payer's token or one of Relay's
contracts there. -/
def RouteStep.StaysWith (st : RouteStep) (want : Expected) : Prop :=
  st.chainId = want.originChainId ∧ ∃ callee : Address, st.callee = callee.lowerHex ∧
    (want.isToken callee ∨ want.relayRoles.contains callee = true)

section Steps

variable {lib : Crates} {want : Expected} {inputAmount : U256}

theorem checkStep_staysWith {id description : String} {data : Value} {s s' : Spend}
    {st : RouteStep} (h : checkStep lib id description data want inputAmount s = .ok (st, s')) :
    st.StaysWith want := by
  obtain ⟨hchain, -, callee, calldata, value, -, hcall, rfl⟩ := checkStep_ok.mp h
  refine ⟨hchain, callee, rfl, ?_⟩
  rw [checkCall] at hcall
  split at hcall
  · next htoken => exact .inl htoken
  split at hcall
  · next hrelay => exact .inr hrelay
  · cases hcall

/-- So does every transaction the loop has come by. -/
def Progress.StaysWith (acc : Progress) (want : Expected) : Prop :=
  ∀ st ∈ acc.steps, st.StaysWith want

theorem checkItem_staysWith {step : QuoteStep} {acc acc' : Progress} {item : Value}
    (h : checkItem lib want inputAmount step acc item = .ok acc') (hold : acc.StaysWith want) :
    acc'.StaysWith want := by
  obtain ⟨-, h⟩ := refuseIf_bind_eq_ok.mp h
  obtain ⟨⟨st, s'⟩, hstep, h⟩ := bind_eq_ok.mp h
  obtain rfl := pure_eq_ok.mp h
  intro st' hst'
  rcases List.mem_append.mp hst' with hst' | hst'
  · exact hold st' hst'
  · obtain rfl := List.mem_singleton.mp hst'
    exact checkStep_staysWith hstep

theorem Accepted.staysWith {quote : Quote} {done : Progress}
    (h : Accepted lib quote want inputAmount done) : done.StaysWith want := by
  refine each_invariant (P := fun acc => acc.StaysWith want) ?_ h.items ?_
  · intro acc step acc' hstep
    obtain ⟨-, hitems⟩ := refuseIf_bind_eq_ok.mp hstep
    exact each_invariant checkItem_staysWith hitems
  · intro st hst
    cases hst

end Steps

/-! ## Quotes of a run -/

/-- A route was quoted for a deposit that was created as `new`. -/
structure QuotedFor (lib : Crates) (config : RelayConfig) (relay : RelayAnswers) (now : DateTime)
    (body : QuoteBody) (d : Deposit) (new : NewDeposit) (want : Expected) (route : RouteQuote) :
    Prop where
  /-- the deposit takes payments, for long enough -/
  opened : acceptsPayment d = true
  inTime : config.minTimeLeftSecs ≤ DateTime.numSeconds (d.expiresAt.signedDurationSince now)
  /-- it is the one that is paid, on its chain and in its token -/
  recipient : want.recipient = new.paymentAddress
  chain : want.destinationChainId = new.chainId
  token : want.token = new.tokenAddress
  decimals : want.tokenDecimals.toNat = new.tokenDecimals.val
  /-- something, and no more than is owed -/
  amount : ∃ confirmed : U256, d.confirmedAmount = toString confirmed.val ∧ 0 < want.amount.val ∧
    want.amount.val + confirmed.val ≤ new.amount.val
  /-- the payer is who asked, and pays with what was asked for -/
  payer : lib.parseAddress (trim body.user) = some want.user ∧ want.user ≠ 0
  choice : body.originChainId = want.originChainId ∧
    lib.parseAddress (trim body.originCurrency) = some want.originCurrency
  /-- from a chain Relay routes from, whose contracts are those it lists -/
  origin : ∃ chains origin, relay.chains = .ok chains ∧ origin ∈ chains ∧
    origin.id = want.originChainId ∧ usable origin = true ∧
    want.relayRoles = origin.relayRoles lib ∧
    (config.probeUnlistedTokens = false → paysDirectly origin want.originCurrency.lowerHex = true)
  /-- Relay was asked for that, and its signed order is for it -/
  order : ∃ answer order inputAmount, relay.quote (quoteRequest config d want) = .ok answer ∧
    signedOrder answer = some order ∧ OrderHolds lib order want inputAmount
  /-- and the wallet is handed nothing else -/
  steps : ∀ st ∈ route.steps, st.StaysWith want

section Quoting

variable {lib : Crates} {config : RelayConfig} {relay : RelayAnswers} {now : DateTime}
  {body : QuoteBody} {d : Deposit} {new : NewDeposit} {limits : LimitsAnswer} {quotedAt : String}

/-- The origin of a quote: usable, and paid from directly, unless tokens are being probed. -/
theorem quoteOrigin_origin {probe : Bool} {chains : List RelayChain} {chainId : U64}
    {currency : Address} {origin : RelayChain}
    (h : quoteOrigin probe chains chainId currency = .ok origin) :
    origin ∈ chains ∧ origin.id = chainId ∧ usable origin = true ∧
      (probe = false → paysDirectly origin currency.lowerHex = true) := by
  have hdirect : probe = false → paysDirectly origin currency.lowerHex = true := by
    rintro rfl
    exact (quoteOrigin_ok.mp h).2
  obtain ⟨c, hfind, h⟩ := okOr_bind_eq_ok.mp h
  obtain ⟨-, h⟩ := refuseIf_bind_eq_ok.mp h
  obtain rfl := pure_eq_ok.mp h
  have hmatch := List.find?_some hfind
  rw [Bool.and_eq_true, beq_iff_eq] at hmatch
  exact ⟨List.mem_of_find?_eq_some hfind, hmatch.1, hmatch.2, hdirect⟩

/-- Nothing on the way to an expectation panics. -/
theorem Holds.prepareQuote_ne_panicked (hholds : Holds d new) :
    prepareQuote lib config d now body limits relay ≠ .error .panicked := by
  refine bind_ne_panicked orRefuse_ne_panicked fun _ _ => ?_
  refine bind_ne_panicked orRefuse_ne_panicked fun _ _ => ?_
  refine bind_ne_panicked hholds.expected_ne_panicked fun _ _ => ?_
  refine bind_ne_panicked orRefuse_ne_panicked fun _ _ => ?_
  refine bind_ne_panicked orRefuse_ne_panicked fun _ _ => ?_
  refine bind_ne_panicked orRefuse_ne_panicked fun _ _ => ?_
  refine bind_ne_panicked orRefuse_ne_panicked fun _ _ => ?_
  refine bind_ne_panicked orRefuse_ne_panicked fun _ _ => ?_
  refine bind_ne_panicked orRefuse_ne_panicked fun _ _ => ?_
  intro h
  cases h

/-- **An accepted answer** was held to the deposit it was asked for. -/
theorem Holds.quotedFor (hholds : Holds d new) (htotal : d.HasTotal) {want : Expected}
    (h : prepareQuote lib config d now body limits relay = .ok want) {answer : Quote}
    (hanswer : relay.quote (quoteRequest config d want) = .ok answer) {route : RouteQuote}
    (hroute : checkQuote lib quotedAt answer want = .ok route) :
    QuotedFor lib config relay now body d new want route := by
  obtain ⟨_, hopened, h⟩ := bind_eq_ok.mp h
  obtain ⟨_, htime, h⟩ := bind_eq_ok.mp h
  obtain ⟨first, hfirst, h⟩ := bind_eq_ok.mp h
  obtain ⟨_, -, h⟩ := bind_eq_ok.mp h
  obtain ⟨chains, hchains, h⟩ := bind_eq_ok.mp h
  obtain ⟨origin, horigin, h⟩ := bind_eq_ok.mp h
  obtain ⟨decimals, -, h⟩ := bind_eq_ok.mp h
  obtain ⟨_, -, h⟩ := bind_eq_ok.mp h
  obtain ⟨_, -, h⟩ := bind_eq_ok.mp h
  obtain rfl := pure_eq_ok.mp h
  rw [orRefuse_eq_ok, refuseIf_eq_ok] at hopened htime
  rw [orRefuse_eq_ok, mapError_eq_ok] at hchains
  rw [orRefuse_eq_ok] at horigin
  rw [hholds.expected, map_eq_ok] at hfirst
  obtain ⟨choice, hchoice, rfl⟩ := hfirst
  obtain ⟨huser, hzero, hcurrency, hsome, hle⟩ := QuoteBody.read_ok (orRefuse_eq_ok.mp hchoice)
  obtain ⟨hmem, hid, husable, hdirect⟩ := quoteOrigin_origin horigin
  obtain ⟨inputAmount, done, haccepted, hsteps⟩ := checkQuote_ok hroute
  obtain ⟨order, horder, hcheck⟩ := haccepted.order
  obtain ⟨confirmed, hconfirmed⟩ := htotal
  refine {
    opened := by simpa using hopened
    inTime := not_lt.mp (decide_eq_false_iff_not.mp htime)
    recipient := rfl
    chain := rfl
    token := rfl
    decimals := ?_
    amount := ?_
    payer := ⟨huser, hzero⟩
    choice := ⟨rfl, hcurrency⟩
    origin := ⟨chains, origin, hchains, hmem, hid, husable, rfl, hdirect⟩
    order := ⟨answer, order, inputAmount, hanswer, horder, checkOrder_holds hcheck⟩
    steps := ?_ }
  · have hlt := new.tokenDecimals.isLt
    change (UInt8.ofInt new.tokenDecimals.val).toNat = new.tokenDecimals.val
    rw [UInt8.ofInt, UInt8.toNat_ofNat']
    omega
  · have howed : choice.2.2.val ≤ (d.owed lib).val := hle
    rw [hholds.owed hconfirmed] at howed
    have hpos : 0 < choice.2.2.val := by
      rw [Nat.pos_iff_ne_zero]
      exact fun h => hsome (Fin.ext h)
    exact ⟨confirmed, hconfirmed, hpos, by
      change choice.2.2.val + confirmed.val ≤ new.amount.val
      omega⟩
  · rw [hsteps]
    exact haccepted.staysWith

end Quoting

/-- A step leaves every row the terms it was created with. -/
theorem Reachable.holds_later {env : Env} {w w' : World} (hw : Reachable env w)
    (hrun : Lts.Reaches (step env) Lts.Any w w') {id : Uuid} {d : Deposit} {new : NewDeposit}
    (hd : w.db.deposits.get? id = some d) (hholds : Holds d new) :
    ∃ d', w'.db.deposits.get? id = some d' ∧ Holds d' new := by
  refine hrun.invariant (P := fun w => ∃ d', w.db.deposits.get? id = some d' ∧ Holds d' new)
    ⟨d, hd, hholds⟩ ?_
  rintro t a u hreach ⟨d', hd', hholds'⟩ - hstep
  have hfit := JobsFit.reachable (hw.trans hreach)
  exact ⟨_, hfit.row_after hstep hd', hholds'.congr ((t.commits env a).row_fixedTerms t.clock d')⟩

/-- **Routes are quoted for the deposit alone.** At any point of any run, whatever the payer asks
for and whatever Relay answers, `quote` does not panic; and when it hands out a route, it is for an
open deposit, to the payment address, in the token and on the chain it was created with and will
keep, for something and no more than is owed; Relay was asked for just that, its signed order is for
it, and every transaction calls the payer's token or a contract that Relay lists on that chain. -/
theorem quoted_routes_pay_deposits (env : Env) (w : World) (hw : Reachable env w) (lib : Crates)
    (config : RelayConfig) (parseUuid : String → Option Uuid) (path : String) (now : DateTime)
    (body : Except String QuoteBody) (limits : LimitsAnswer) (relay : RelayAnswers)
    (quotedAt : String) :
    let answer := quote lib config (w.db.openDeposit parseUuid path) now body limits relay quotedAt
    answer ≠ .error .panicked ∧ ∀ route, answer = .ok route →
      ∃ payer id d new want, body = .ok payer ∧ parseUuid path = some id ∧
        w.db.deposits.get? id = some d ∧ QuotedFor lib config relay now payer d new want route ∧
        ∀ w', Lts.Reaches (step env) Lts.Any w w' →
          ∃ d', w'.db.deposits.get? id = some d' ∧ Holds d' new := by
  intro answer
  have hopen {d : Deposit} (h : w.db.openDeposit parseUuid path = .ok d) :
      ∃ id, parseUuid path = some id ∧ w.db.deposits.get? id = some d :=
    Option.bind_eq_some_iff.mp (okOr_eq_ok.mp h)
  refine ⟨?_, ?_⟩
  · refine bind_ne_panicked orRefuse_ne_panicked fun payer _ => ?_
    refine bind_ne_panicked orRefuse_ne_panicked fun _ _ => ?_
    refine bind_ne_panicked orRefuse_ne_panicked fun d hd => ?_
    obtain ⟨id, -, hd⟩ := hopen (orRefuse_eq_ok.mp hd)
    obtain ⟨new, hholds⟩ := hw.stored hd
    refine bind_ne_panicked hholds.prepareQuote_ne_panicked fun _ _ => ?_
    exact bind_ne_panicked orRefuse_ne_panicked fun _ _ => orRefuse_ne_panicked
  · intro route h
    obtain ⟨payer, hpayer, h⟩ := bind_eq_ok.mp h
    obtain ⟨_, -, h⟩ := bind_eq_ok.mp h
    obtain ⟨d, hd, h⟩ := bind_eq_ok.mp h
    obtain ⟨want, hwant, h⟩ := bind_eq_ok.mp h
    obtain ⟨q, hq, h⟩ := bind_eq_ok.mp h
    rw [orRefuse_eq_ok, mapError_eq_ok] at hpayer hq h
    obtain ⟨id, hid, hd⟩ := hopen (orRefuse_eq_ok.mp hd)
    obtain ⟨new, hholds⟩ := hw.stored hd
    exact ⟨payer, id, d, new, want, hpayer, hid, hd,
      hholds.quotedFor (hw.hasTotal hd) hwant hq h, fun w' hrun => hw.holds_later hrun hd hholds⟩

/-! ## The sample's quote, for a deposit -/

deriving instance DecidableEq for RelayRoles, Expected

namespace Fixture

/-- A deposit that the sample's quote pays. -/
def routed : NewDeposit := { new with
  chainId := 8453, tokenAddress := Sample.settled, paymentAddress := Sample.payment }

/-- The sample's origin, whose token Relay's solver takes. -/
def ethereum : RelayChain := { base with
  id := 1
  name := "ethereum"
  displayName := ""
  erc20Currencies := [relayToken "T" Sample.token.lowerHex 6]
  solverCurrencies := [relayToken "T" Sample.token.lowerHex 6]
  contracts := some {
    multicall3 := none
    relayReceiver := none
    erc20Router := none
    approvalProxy := some Sample.proxy.lowerHex
    v3 := none } }

/-- Relay's answers. -/
def relay : RelayAnswers where
  chains := .ok [base, ethereum]
  search _ _ := .ok []
  quote _ := .ok (Sample.quote 9)

/-- A configuration that lets tokens be tried out. -/
def relayConfig : RelayConfig := ⟨true, 600, true, "gum"⟩

/-- The payer's choice. -/
def payerBody : QuoteBody := ⟨Sample.user.lowerHex, 1, Sample.token.lowerHex, "990"⟩

/-- What the sample's quote is held to, for a deposit. -/
def wantFor (d : Deposit) : Except Halt Expected :=
  prepareQuote Crates.reference relayConfig d requestedAt payerBody ⟨true, true, true⟩ relay

end Fixture

/-- The sample's quote, for a deposit it pays. -/
theorem quoted_routes_pay_deposits_fixture : ∃ w d route want,
    Reachable Fixture.env w ∧ w.db.deposits.get? 7 = some d ∧
    quote Crates.reference Fixture.relayConfig (w.db.openDeposit (fun _ => some 7) "7")
      Fixture.requestedAt (.ok Fixture.payerBody) ⟨true, true, true⟩ Fixture.relay
      "2026-01-01T00:00:00.000Z" = .ok route ∧
    ∃ new, QuotedFor Crates.reference Fixture.relayConfig Fixture.relay Fixture.requestedAt
      Fixture.payerBody d new want route := by
  obtain ⟨w, hrun, hfound⟩ : ∃ w,
      Lts.Reaches (step Fixture.env) Lts.Any (World.init Fixture.requestedAt) w ∧
      ((w.db.deposits.get? 7).bind fun d => (Fixture.wantFor d).toOption) = some Sample.want :=
    @Lts.exists_reaches_of_run _ _ _ _ _ _ _
      [.setUser "user" none, .create Fixture.routed "user" 7 (Fixture.mint 0)] _ _
      (by decide +kernel)
  obtain ⟨d, hd, hfound⟩ := Option.bind_eq_some_iff.mp hfound
  have hwant := toOption_eq_some.mp hfound
  have hw : Reachable Fixture.env w := ⟨_, hrun⟩
  obtain ⟨done, haccepted, -⟩ := Sample.quote_accepted
  obtain ⟨route, hroute, -⟩ := @Accepted.checkQuote _ "2026-01-01T00:00:00.000Z" _ _ _ _ haccepted
  have hquote : quote Crates.reference Fixture.relayConfig
      (w.db.openDeposit (fun _ => some 7) "7") Fixture.requestedAt (.ok Fixture.payerBody)
      ⟨true, true, true⟩ Fixture.relay "2026-01-01T00:00:00.000Z" = .ok route := by
    refine bind_eq_ok.mpr ⟨Fixture.payerBody, rfl, bind_eq_ok.mpr ⟨(), rfl, ?_⟩⟩
    refine bind_eq_ok.mpr ⟨d, orRefuse_eq_ok.mpr (okOr_eq_ok.mpr hd), ?_⟩
    refine bind_eq_ok.mpr ⟨Sample.want, hwant, bind_eq_ok.mpr ⟨Sample.quote 9, rfl, ?_⟩⟩
    exact orRefuse_eq_ok.mpr (mapError_eq_ok.mpr hroute)
  obtain ⟨payer, id, d', new, want', hpayer, hid, hd', hquoted, -⟩ := (quoted_routes_pay_deposits
    Fixture.env w hw Crates.reference Fixture.relayConfig (fun _ => some 7) "7"
    Fixture.requestedAt (.ok Fixture.payerBody) ⟨true, true, true⟩ Fixture.relay _).2 route hquote
  obtain rfl := Except.ok.inj hpayer
  obtain rfl := Option.some.inj hid
  obtain rfl := Option.some.inj (hd.symm.trans hd')
  exact ⟨w, d, route, want', hw, hd, hquote, new, hquoted⟩

end GumServer
