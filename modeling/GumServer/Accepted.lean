import GumServer.Route

/-!
# What the checks let through

The exact conditions under which each checker accepts, read off its sequence of checks.
Every property of an accepted route below starts from these and never unfolds a checker.

`readAct` is what a call does where it lands: the payer's token reads an approval or a
transfer, a contract of Relay's reads the entrypoints of its own role. An accepted call,
nested or not, is one that is read in full (`checkRelayCall_ok`, `checkNestedCall_reads`).
-/

namespace GumServer

open Bytes Checks

/-! ## Calls where they land -/

/-- Does the contract at this address serve the entrypoint? -/
def Entry.servedBy (roles : RelayRoles) (callee : Address) : Entry → Bool
  | .depositErc20 _ => roles.depositories.contains callee
  | .depositErc20All => roles.depositories.contains callee
  | .depositNative _ => roles.depositories.contains callee
  | .multicall _ => roles.routers.contains callee
  | .transferAndMulticall _ _ => roles.approvalProxies.contains callee
  | .forward => roles.receivers.contains callee

/-- What a call does. -/
inductive Act : Type where
  /-- an allowance on the payer's token -/
  | approve (spender : Address) (amount : U256)
  /-- a transfer of the payer's token -/
  | transfer (recipient : Address) (amount : U256)
  /-- an entrypoint of one of Relay's contracts -/
  | relay (entry : Entry)
deriving DecidableEq

/-- A call on the token, as the token reads it. -/
def TokenCall.act (call : TokenCall) : Option Act :=
  if call.selector = APPROVE then some (.approve call.target call.amount)
  else if call.selector = TRANSFER then some (.transfer call.target call.amount)
  else none

/-- What a call with these bytes does at this address; `none` is anything else at all. -/
def readAct (want : Expected) (callee : Address) (calldata : List UInt8) : Option Act :=
  if want.isToken callee then (readTokenCall calldata).bind TokenCall.act
  else ((readEntry calldata).filter (Entry.servedBy want.relayRoles callee)).map .relay

/-- The calls a call nests. -/
def Act.nested : Act → List NestedCall
  | .relay (.multicall m) => m.calls
  | .relay (.transferAndMulticall _ m) => m.calls
  | _ => []

/-! ## Calls on Relay's contracts -/

/-- A recipient the checks let through: the payer or nobody. -/
def Route.Pays (route : Route) (payee : Address) : Prop :=
  payee = 0 ∨ payee = route.want.user

/-- The conditions on a call that was read, with the tab before and after it. -/
def Accepts (route : Route) (callee : Address) (txValue : U256) (spend spend' : Option Spend) :
    Entry → Prop
  | .depositErc20 d =>
    route.Pays d.depositor ∧ d.token = route.want.originCurrency ∧ d.amount ≤ route.inputAmount ∧
      chargePull route spend callee d.amount = .ok spend'
  | .depositErc20All => False
  | .depositNative d => route.Pays d.depositor ∧ spend' = spend
  | .multicall m =>
    checkMulticall route (fun n flow => checkNestedCall n route.deeper flow) callee txValue none m
      spend = .ok spend'
  | .transferAndMulticall p m =>
    checkMulticall route (fun n flow => checkNestedCall n route.deeper flow) callee txValue (some p)
      m spend = .ok spend'
  | .forward => spend' = spend

section Relay

variable {route : Route} {callee : Address} {spend spend' : Option Spend}

theorem checkPayee_ok {payee : Address} {what : String} {u : Unit} :
    checkPayee route payee what = .ok u ↔ route.Pays payee := by
  rw [checkPayee, Route.Pays]
  rw [refuseIf_eq_ok, Bool.and_eq_false_iff, bne_eq_false_iff_eq, bne_eq_false_iff_eq]

theorem checkDepositErc20_ok {args : List UInt8} :
    checkDepositErc20 route callee args spend = .ok spend' ↔
      ∃ d, readDepositErc20 args = some d ∧
        Accepts route callee 0 spend spend' (.depositErc20 d) := by
  simp only [checkDepositErc20, Accepts]
  rw [okOr_bind_eq_ok]
  refine exists_congr fun d => and_congr_right fun _ => ?_
  rw [bind_eq_ok]
  simp only [checkPayee_ok, refuseIf_bind_eq_ok, bne_eq_false_iff_eq, decide_eq_false_iff_not,
    Fin.not_lt, exists_and_left, exists_const]

theorem checkDepositNative_ok {args : List UInt8} {u : Unit} :
    checkDepositNative route args = .ok u ↔
      ∃ d, readDepositNative args = some d ∧ route.Pays d.depositor := by
  rw [checkDepositNative]
  rw [okOr_bind_eq_ok]
  simp only [checkPayee_ok]

/-- **A call on Relay's contracts** is accepted exactly when it is read as an entrypoint its
address serves, on acceptable terms. -/
theorem checkRelayCall_ok {call : WalletCall} :
    checkRelayCall call route spend = .ok spend' ↔
      ∃ e, readEntry call.calldata = some e ∧
        e.servedBy route.want.relayRoles call.callee = true ∧
        Accepts route call.callee call.value spend spend' e := by
  rw [checkRelayCall]
  rw [readEntry]
  rcases splitAtChecked call.calldata 4 with _ | ⟨selector, args⟩
  · simp
  simp only [okOr_some_bind, Option.bind_eq_bind, Option.bind_some]
  rcases Entrypoint.ofSelector selector with _ | entrypoint
  · simp
  simp only [okOr_some_bind, Option.bind_some]
  cases entrypoint with
  | depositErc20 =>
    simp only [checkRole, refuseIf_bind_eq_ok, Bool.not_eq_false', checkDepositErc20_ok,
      Option.map_eq_some_iff]
    constructor
    · rintro ⟨hrole, d, hd, h⟩
      exact ⟨_, ⟨d, hd, rfl⟩, hrole, h⟩
    · rintro ⟨_, ⟨d, hd, rfl⟩, hrole, h⟩
      exact ⟨hrole, d, hd, h⟩
  | depositErc20All =>
    simp only [checkRole, refuseIf_bind_eq_ok, Option.some.injEq]
    constructor
    · rintro ⟨-, h⟩
      cases h
    · rintro ⟨_, rfl, -, h⟩
      exact h.elim
  | depositNative =>
    simp only [checkRole, refuseIf_bind_eq_ok, Bool.not_eq_false', Option.map_eq_some_iff]
    simp only [bind_eq_ok, checkDepositNative_ok, pure_eq_ok]
    constructor
    · rintro ⟨hrole, _, ⟨d, hd, hpays⟩, rfl⟩
      exact ⟨_, ⟨d, hd, rfl⟩, hrole, hpays, rfl⟩
    · rintro ⟨_, ⟨d, hd, rfl⟩, hrole, hpays, rfl⟩
      exact ⟨hrole, (), ⟨d, hd, hpays⟩, rfl⟩
  | multicall withMetadata =>
    simp only [checkRole, refuseIf_bind_eq_ok, Bool.not_eq_false', okOr_bind_eq_ok,
      Option.map_eq_some_iff]
    constructor
    · rintro ⟨hrole, m, hm, h⟩
      exact ⟨_, ⟨m, hm, rfl⟩, hrole, h⟩
    · rintro ⟨_, ⟨m, hm, rfl⟩, hrole, h⟩
      exact ⟨hrole, m, hm, h⟩
  | transferAndMulticall withMetadata =>
    simp only [checkRole, refuseIf_bind_eq_ok, Bool.not_eq_false', okOr_bind_eq_ok,
      Option.bind_eq_some_iff, Option.map_eq_some_iff]
    constructor
    · rintro ⟨hrole, ⟨p, r⟩, hp, m, hm, h⟩
      exact ⟨_, ⟨⟨p, r⟩, hp, m, hm, rfl⟩, hrole, h⟩
    · rintro ⟨_, ⟨⟨p, r⟩, hp, m, hm, rfl⟩, hrole, h⟩
      exact ⟨hrole, ⟨p, r⟩, hp, m, hm, h⟩
  | forward =>
    simp only [checkRole, refuseIf_bind_eq_ok, Bool.not_eq_false', okOr_bind_eq_ok, pure_eq_ok,
      Option.map_eq_some_iff]
    constructor
    · rintro ⟨hrole, b, hb, rfl⟩
      exact ⟨_, ⟨b, hb, rfl⟩, hrole, rfl⟩
    · rintro ⟨_, ⟨b, hb, rfl⟩, hrole, rfl⟩
      exact ⟨hrole, b, hb, rfl⟩

theorem checkMulticall_ok {nested : NestedCall → Option Flow → Except String (Option Flow)}
    {txValue : U256} {pulls : Option Pulls} {m : Multicall} :
    checkMulticall route nested callee txValue pulls m spend = .ok spend' ↔
      route.Pays m.refundTo ∧ route.Pays m.nftRecipient ∧
        (pulls.isSome && m.calls.isEmpty) = false ∧
        ∃ pulledTotal nestedValue flow,
          checkPulls route callee pulls spend = .ok (spend', pulledTotal) ∧
          each (checkNested route nested txValue) m.calls (0, pulls.map fun _ => Flow.new) =
            .ok (nestedValue, flow) ∧
          checkFlow route flow pulledTotal = .ok () := by
  rw [checkMulticall]
  rw [bind_eq_ok]
  simp only [checkPayee_ok, exists_and_left, exists_const]
  refine and_congr_right fun _ => ?_
  rw [bind_eq_ok]
  simp only [checkPayee_ok, exists_and_left, exists_const]
  refine and_congr_right fun _ => ?_
  rw [refuseIf_bind_eq_ok]
  refine and_congr_right fun _ => ?_
  constructor
  · intro h
    obtain ⟨⟨spent, pulledTotal⟩, hpulls, h⟩ := bind_eq_ok.mp h
    obtain ⟨⟨nestedValue, flow⟩, hcalls, h⟩ := bind_eq_ok.mp h
    obtain ⟨u, hflow, h⟩ := bind_eq_ok.mp h
    obtain rfl := pure_eq_ok.mp h
    exact ⟨pulledTotal, hpulls, nestedValue, flow, hcalls, hflow⟩
  · rintro ⟨pulledTotal, hpulls, nestedValue, flow, hcalls, hflow⟩
    refine bind_eq_ok.mpr ⟨_, hpulls, bind_eq_ok.mpr ⟨_, hcalls, ?_⟩⟩
    exact bind_eq_ok.mpr ⟨(), hflow, rfl⟩

theorem checkNested_ok {nested : NestedCall → Option Flow → Except String (Option Flow)}
    {txValue : U256} {acc acc' : U256 × Option Flow} {n : NestedCall} :
    checkNested route nested txValue acc n = .ok acc' ↔
      n.allowFailure = false ∧ checkedAdd acc.1 n.value = some acc'.1 ∧ ¬ txValue < acc'.1 ∧
        nested n acc.2 = .ok acc'.2 := by
  rw [checkNested]
  rw [refuseIf_bind_eq_ok, okOr_bind_eq_ok]
  refine and_congr_right fun _ => ?_
  constructor
  · rintro ⟨nestedValue, hadd, h⟩
    obtain ⟨hle, h⟩ := refuseIf_bind_eq_ok.mp h
    obtain ⟨flow, hn, h⟩ := bind_eq_ok.mp h
    obtain rfl := pure_eq_ok.mp h
    exact ⟨hadd, decide_eq_false_iff_not.mp hle, mapError_eq_ok.mp hn⟩
  · rintro ⟨hadd, hle, hn⟩
    refine ⟨acc'.1, hadd, refuseIf_bind_eq_ok.mpr ⟨decide_eq_false_iff_not.mpr hle, ?_⟩⟩
    exact bind_eq_ok.mpr ⟨acc'.2, mapError_eq_ok.mpr hn, rfl⟩

/-! ## Nested calls -/

/-- What the flow says a spender may still draw from the router. -/
def Flow.undrawn (f : Flow) (k : Address) : ℕ := ((f.granted.get? k).map Fin.val).getD 0

/-- An allowance of the router's, added to the flow. -/
structure Flow.Grants (spender : Address) (amount : U256) (f f' : Flow) : Prop where
  consumed : f'.consumed = f.consumed
  undrawn : ∀ k, f'.undrawn k = if k = spender then f.undrawn k + amount.val else f.undrawn k

/-- A deposit out of the router, drawn from the flow. -/
structure Flow.Deposits (depository : Address) (amount : U256) (f f' : Flow) : Prop where
  covered : amount.val ≤ f.undrawn depository
  consumed : f'.consumed.val = f.consumed.val + amount.val
  undrawn : ∀ k, f'.undrawn k = if k = depository then f.undrawn k - amount.val else f.undrawn k

/-- Everything an accepted nested call can be, and what it does to the flow. -/
inductive NestedStep (want : Expected) (n : NestedCall) : Option Flow → Option Flow → Prop where
  /-- an allowance on the token, to whoever turns it into a deposit -/
  | approve {flow flow' : Option Flow} {spender : Address} {amount : U256}
      (reads : readAct want n.target n.data = some (.approve spender amount))
      (holder : want.relayRoles.mayHoldAllowance spender = true)
      (effect : Option.Rel (Flow.Grants spender amount) flow flow') :
      NestedStep want n flow flow'
  /-- a transfer to the depository, where nothing was pulled -/
  | transfer {recipient : Address} {amount : U256}
      (reads : readAct want n.target n.data = some (.transfer recipient amount)) :
      NestedStep want n none none
  /-- a deposit of the token -/
  | deposit {flow flow' : Option Flow} {d : DepositErc20}
      (reads : readAct want n.target n.data = some (.relay (.depositErc20 d)))
      (token : d.token = want.originCurrency)
      (effect : Option.Rel (Flow.Deposits n.target d.amount) flow flow') :
      NestedStep want n flow flow'
  /-- a native deposit -/
  | depositNative {flow : Option Flow} {d : DepositNative}
      (reads : readAct want n.target n.data = some (.relay (.depositNative d))) :
      NestedStep want n flow flow
  /-- value forwarded -/
  | forward {flow : Option Flow}
      (reads : readAct want n.target n.data = some (.relay .forward)) :
      NestedStep want n flow flow
  /-- a multicall that runs nothing -/
  | multicall {flow : Option Flow} {m : Multicall}
      (reads : readAct want n.target n.data = some (.relay (.multicall m)))
      (empty : m.calls = []) :
      NestedStep want n flow flow

theorem readAct_token {want : Expected} {c : Address} (calldata : List UInt8)
    (htoken : want.isToken c) :
    readAct want c calldata = (readTokenCall calldata).bind TokenCall.act := if_pos htoken

theorem readAct_relay {want : Expected} {c : Address} {calldata : List UInt8} {e : Entry}
    (htoken : ¬ want.isToken c) (he : readEntry calldata = some e)
    (hrole : e.servedBy want.relayRoles c = true) :
    readAct want c calldata = some (.relay e) := by
  rw [readAct, if_neg htoken, he, Option.filter_some, if_pos hrole]
  rfl

/-- The token knows none of the entrypoints of Relay's contracts. -/
theorem tokenAct_eq_none {calldata selector args : List UInt8} {entrypoint : Entrypoint}
    (hsplit : splitAtChecked calldata 4 = some (selector, args))
    (hsel : Entrypoint.ofSelector selector = some entrypoint) :
    (readTokenCall calldata).bind TokenCall.act = none := by
  have hact : ∀ target amount, (TokenCall.mk selector target amount).act = none := by
    intro target amount
    rw [TokenCall.act]
    split
    · next h =>
      obtain rfl : selector = APPROVE := h
      cases hsel
    · split
      · next h =>
        obtain rfl : selector = TRANSFER := h
        cases hsel
      · rfl
  rw [readTokenCall]
  rw [hsplit, Option.bind_eq_bind, Option.bind_some]
  dsimp only
  split
  · rfl
  · exact hact _ _

/-- Bytes that start a pull are read as one, wherever they are read at all. -/
theorem readAct_pull {want : Expected} {c : Address} {calldata : List UInt8} {act : Act}
    (hpull : StartsPull calldata) (h : readAct want c calldata = some act) :
    ∃ p m, act = .relay (.transferAndMulticall p m) := by
  rw [readAct] at h
  split at h
  · obtain ⟨selector, args, _, hsplit, hsel⟩ := hpull.splitAt
    rw [tokenAct_eq_none hsplit hsel] at h
    cases h
  · obtain ⟨e, he, rfl⟩ := Option.map_eq_some_iff.mp h
    obtain ⟨p, m, rfl⟩ := readEntry_pull hpull (Option.filter_eq_some_iff.mp he).1
    exact ⟨p, m, rfl⟩

theorem Flow.undrawn_put {f : Flow} {k spender : Address} {v consumed : U256} :
    Flow.undrawn ⟨f.granted.put spender v, consumed⟩ k =
      if k = spender then v.val else f.undrawn k := by
  simp only [Flow.undrawn]
  split
  · next h =>
    subst h
    rw [KeyMap.get?_put_self]
    rfl
  · next h => rw [KeyMap.get?_put_ne _ _ h]

theorem checkNestedToken_step {n : NestedCall} {flow flow' : Option Flow}
    (htoken : route.want.isToken n.target) (h : checkNestedToken route n flow = .ok flow') :
    NestedStep route.want n flow flow' := by
  obtain ⟨-, h⟩ := refuseIf_bind_eq_ok.mp h
  obtain ⟨⟨selector, args⟩, hsplit, h⟩ := okOr_bind_eq_ok.mp h
  obtain ⟨hsel, h⟩ := refuseIf_bind_eq_ok.mp h
  obtain ⟨hlen, h⟩ := refuseIf_bind_eq_ok.mp h
  obtain ⟨-, h⟩ := refuseIf_bind_eq_ok.mp h
  have hread : readTokenCall n.data = some ⟨selector, Address.ofBytes ((args.drop 12).take 20),
      U256.ofBytes ((args.drop 32).take 32)⟩ := by
    rw [readTokenCall, hsplit]
    exact if_neg (decide_eq_false_iff_not.mp hlen)
  have hact := readAct_token n.data htoken
  rw [hread, Option.bind_some, TokenCall.act] at hact
  dsimp only at hact
  split at h
  · next happrove =>
    rw [if_pos happrove] at hact
    obtain ⟨hholder, h⟩ := refuseIf_bind_eq_ok.mp h
    refine .approve hact (by simpa using hholder) ?_
    rcases flow with _ | f
    · obtain rfl := pure_eq_ok.mp h
      exact .none
    · obtain ⟨slot, hslot, h⟩ := okOr_bind_eq_ok.mp h
      obtain rfl := pure_eq_ok.mp h
      refine .some ⟨rfl, fun k => ?_⟩
      rw [Flow.undrawn_put, checkedAdd_eq_some.mp hslot, val_getD_zero]
      split
      · next hk => rw [hk, Flow.undrawn]
      · rfl
  · next happrove =>
    have htransfer : selector = TRANSFER := by
      rw [Bool.and_eq_false_iff, bne_eq_false_iff_eq, bne_eq_false_iff_eq] at hsel
      exact hsel.resolve_left happrove
    rw [if_neg happrove, if_pos htransfer] at hact
    split at h
    · cases h
    · next hnone =>
      obtain ⟨-, h⟩ := refuseIf_bind_eq_ok.mp h
      obtain rfl := pure_eq_ok.mp h
      obtain rfl := Option.not_isSome_iff_eq_none.mp hnone
      exact .transfer hact

/-- Below the first nesting level every nested call is refused. -/
theorem checkNestedCall_deep {n : NestedCall} {flow flow' : Option Flow}
    (hdepth : 1 < route.depth) : checkNestedCall n route flow ≠ .ok flow' := by
  intro h
  unfold checkNestedCall at h
  rw [dif_pos hdepth] at h
  cases h

/-- So a multicall run from a nested call runs nothing. -/
theorem calls_eq_nil_of_deep {txValue : U256} {pulls : Option Pulls} {m : Multicall}
    (hdepth : 1 < route.deeper.depth)
    (h : checkMulticall route (fun n flow => checkNestedCall n route.deeper flow) callee txValue
      pulls m spend = .ok spend') : pulls = none ∧ m.calls = [] := by
  obtain ⟨-, -, hempty, _, _, _, -, hcalls, -⟩ := checkMulticall_ok.mp h
  rcases hm : m.calls with _ | ⟨n, rest⟩
  · rw [hm, List.isEmpty_nil, Bool.and_true, Option.isSome_eq_false_iff,
      Option.isNone_iff_eq_none] at hempty
    exact ⟨hempty, rfl⟩
  · rw [hm] at hcalls
    obtain ⟨acc, hn, -⟩ := each_cons_eq_ok.mp hcalls
    exact absurd (checkNested_ok.mp hn).2.2.2 (checkNestedCall_deep hdepth)

/-- The reader of `depositErc20` finds the amount where the flow reads it. -/
theorem depositAmount_eq {data : List UInt8} {d : DepositErc20}
    (h : readEntry data = some (.depositErc20 d)) :
    DEPOSIT_ERC20.isPrefixOf data = true ∧
      U256.ofBytes ((slice? data 68 32).getD []) = d.amount := by
  obtain ⟨args, rfl, hd⟩ := readEntry_depositErc20 h
  refine ⟨List.isPrefixOf_iff_prefix.mpr (List.prefix_append _ _), ?_⟩
  rw [readDepositErc20_eq] at hd
  obtain ⟨depositor, -, hd⟩ := Option.bind_eq_some_iff.mp hd
  obtain ⟨token, -, hd⟩ := Option.bind_eq_some_iff.mp hd
  obtain ⟨amount, hamount, hd⟩ := Option.bind_eq_some_iff.mp hd
  obtain ⟨orderId, -, rfl⟩ := Option.map_eq_some_iff.mp hd
  rw [slice?_append (w := DEPOSIT_ERC20) (i := 4) rfl 64, hamount]
  rfl

theorem chargeDeposit_ok {target : Address} {data : List UInt8} {f : Flow} {flow' : Option Flow}
    {amount : U256} (hamount : U256.ofBytes ((slice? data 68 32).getD []) = amount)
    (h : chargeDeposit route target data f = .ok flow') :
    ∃ f', flow' = some f' ∧ Flow.Deposits target amount f f' := by
  rw [chargeDeposit] at h
  rw [hamount] at h
  obtain ⟨slot, hslot, h⟩ := okOr_bind_eq_ok.mp h
  obtain ⟨hle, h⟩ := refuseIf_bind_eq_ok.mp h
  obtain ⟨consumed, hconsumed, h⟩ := okOr_bind_eq_ok.mp h
  obtain rfl := pure_eq_ok.mp h
  have hle : amount ≤ slot := Fin.not_lt.mp (decide_eq_false_iff_not.mp hle)
  have hundrawn : f.undrawn target = slot.val := by
    rw [Flow.undrawn, hslot]
    rfl
  refine ⟨_, rfl, ?_, checkedAdd_eq_some.mp hconsumed, fun k => ?_⟩
  · rw [hundrawn]
    exact hle
  · rw [Flow.undrawn_put, Fin.sub_val_of_le hle]
    split
    · next hk => rw [hk, hundrawn]
    · rfl

/-- A nested call on one of Relay's contracts: what it is read as, with the flow charged for
a deposit and for nothing else. -/
theorem checkNestedRelay_step {n : NestedCall} {flow flow' : Option Flow} {e : Entry}
    {spent : Option Spend} (htoken : ¬ route.want.isToken n.target)
    (hread : readEntry n.data = some e)
    (hrole : e.servedBy route.want.relayRoles n.target = true)
    (haccepts : Accepts route.deeper n.target n.value none spent e)
    (hflow : (match flow with
      | none => pure none
      | some flow =>
        if route.want.relayRoles.depositories.contains n.target &&
            DEPOSIT_ERC20.isPrefixOf n.data then
          chargeDeposit route n.target n.data flow
        else pure (some flow)) = .ok flow') :
    NestedStep route.want n flow flow' := by
  have hact := readAct_relay htoken hread hrole
  have hsame : (∀ d, e ≠ .depositErc20 d) → flow' = flow := by
    intro hne
    have hstarts : DEPOSIT_ERC20.isPrefixOf n.data = false := by
      by_contra hp
      obtain ⟨args, hargs⟩ := List.isPrefixOf_iff_prefix.mp (Bool.not_eq_false _ ▸ hp)
      rw [← hargs, readEntry_append_depositErc20] at hread
      obtain ⟨d, -, hd⟩ := Option.map_eq_some_iff.mp hread
      exact hne d hd.symm
    rw [hstarts, Bool.and_false] at hflow
    cases flow with
    | none => exact (pure_eq_ok.mp hflow).symm
    | some f => exact (pure_eq_ok.mp hflow).symm
  cases e with
  | depositErc20 d =>
    obtain ⟨hstarts, hamount⟩ := depositAmount_eq hread
    refine .deposit hact haccepts.2.1 ?_
    cases flow with
    | none =>
      obtain rfl := pure_eq_ok.mp hflow
      exact .none
    | some f =>
      have hdepo : route.want.relayRoles.depositories.contains n.target = true := hrole
      rw [hdepo, hstarts] at hflow
      obtain ⟨f', rfl, hdeposits⟩ := chargeDeposit_ok hamount hflow
      exact .some hdeposits
  | depositErc20All => exact haccepts.elim
  | depositNative d =>
    obtain rfl := hsame (fun _ => nofun)
    exact .depositNative hact
  | multicall m =>
    obtain rfl := hsame (fun _ => nofun)
    exact .multicall hact (calls_eq_nil_of_deep (Nat.le_add_left 2 _) haccepts).2
  | transferAndMulticall p m =>
    cases (calls_eq_nil_of_deep (Nat.le_add_left 2 _) haccepts).1
  | forward =>
    obtain rfl := hsame (fun _ => nofun)
    exact .forward hact

/-- **A nested call** that is accepted is one of six things. -/
theorem checkNestedCall_step {n : NestedCall} {flow flow' : Option Flow}
    (h : checkNestedCall n route flow = .ok flow') : NestedStep route.want n flow flow' := by
  unfold checkNestedCall at h
  dsimp only at h
  split at h
  · cases h
  split at h
  · next htoken => exact checkNestedToken_step htoken h
  next htoken =>
  split at h
  · obtain ⟨spent, hrelay, h⟩ := bind_eq_ok.mp h
    obtain ⟨e, hread, hrole, haccepts⟩ := checkRelayCall_ok.mp hrelay
    exact checkNestedRelay_step htoken hread hrole haccepts h
  · cases h

/-! ## Runs of nested calls and pulls -/

/-- The nested calls of a multicall, one after the other. -/
inductive NestedRun (want : Expected) : List NestedCall → Option Flow → Option Flow → Prop where
  /-- nothing to run -/
  | nil {flow : Option Flow} : NestedRun want [] flow flow
  /-- the first one, then the rest -/
  | cons {n : NestedCall} {rest : List NestedCall} {flow mid flow' : Option Flow}
      (firm : n.allowFailure = false) (step : NestedStep want n flow mid)
      (run : NestedRun want rest mid flow') : NestedRun want (n :: rest) flow flow'

theorem checkNested_run {calls : List NestedCall} {txValue : U256}
    {acc acc' : U256 × Option Flow}
    (h : each (checkNested route (fun n flow => checkNestedCall n route.deeper flow) txValue)
      calls acc = .ok acc') : NestedRun route.want calls acc.2 acc'.2 := by
  induction calls generalizing acc with
  | nil =>
    obtain rfl := Except.ok.inj h
    exact .nil
  | cons n rest ih =>
    obtain ⟨mid, hn, hrest⟩ := each_cons_eq_ok.mp h
    obtain ⟨hfirm, -, -, hcall⟩ := checkNested_ok.mp hn
    have hstep := checkNestedCall_step hcall
    exact .cons hfirm hstep (ih hrest)

/-- A flow that is followed is followed to the end. -/
theorem NestedRun.isSome {want : Expected} {calls : List NestedCall} {flow flow' : Option Flow}
    (h : NestedRun want calls flow flow') : flow'.isSome = flow.isSome := by
  induction h with
  | nil => rfl
  | cons _ step _ ih =>
    rw [ih]
    cases step with
    | approve _ _ effect => cases effect <;> rfl
    | transfer _ => rfl
    | deposit _ _ effect => cases effect <;> rfl
    | depositNative _ => rfl
    | forward _ => rfl
    | multicall _ _ => rfl

/-- Draw-downs by one spender, one after the other, on the wallet's tab. -/
inductive PullRun (spender : Address) : List U256 → Spend → Spend → Prop where
  /-- nothing to pull -/
  | nil {s : Spend} : PullRun spender [] s s
  /-- the first one, then the rest -/
  | cons {amount : U256} {rest : List U256} {s mid s' : Spend}
      (step : s.pull spender amount = .ok mid) (run : PullRun spender rest mid s') :
      PullRun spender (amount :: rest) s s'

theorem chargePull_some {s : Spend} {amount : U256} {spent : Option Spend}
    (h : chargePull route (some s) callee amount = .ok spent) :
    ∃ s', spent = some s' ∧ s.pull callee amount = .ok s' := by
  obtain ⟨s', hs', rfl⟩ := map_eq_ok.mp h
  exact ⟨s', rfl, mapError_eq_ok.mp hs'⟩

theorem checkPull_run {tokens : List Address} {amounts : List U256} {s : Spend} {t : U256}
    {out : Option Spend × U256} (hlen : tokens.length = amounts.length)
    (h : each (checkPull route callee) (tokens.zip amounts) (some s, t) = .ok out) :
    (∀ token ∈ tokens, token = route.want.originCurrency) ∧
      (∃ s', out.1 = some s' ∧ PullRun callee amounts s s') ∧
      out.2.val = t.val + total amounts := by
  induction tokens generalizing amounts s t with
  | nil =>
    obtain rfl := List.length_eq_zero_iff.mp hlen.symm
    obtain rfl := Except.ok.inj h
    exact ⟨nofun, ⟨s, rfl, .nil⟩, rfl⟩
  | cons token tokens ih =>
    obtain ⟨amount, amounts, rfl⟩ := List.exists_cons_of_length_eq_add_one hlen.symm
    obtain ⟨mid, hpull, hrest⟩ := each_cons_eq_ok.mp h
    obtain ⟨htoken, hpull⟩ := refuseIf_bind_eq_ok.mp hpull
    obtain ⟨-, hpull⟩ := refuseIf_bind_eq_ok.mp hpull
    obtain ⟨-, hpull⟩ := refuseIf_bind_eq_ok.mp hpull
    obtain ⟨spent, hspent, hpull⟩ := bind_eq_ok.mp hpull
    obtain ⟨t', ht', hpull⟩ := okOr_bind_eq_ok.mp hpull
    obtain rfl := pure_eq_ok.mp hpull
    obtain ⟨s₁, rfl, hs₁⟩ := chargePull_some hspent
    obtain ⟨htokens, ⟨s', hout, hrun⟩, htotal⟩ := ih (Nat.succ.inj hlen) hrest
    refine ⟨?_, ⟨s', hout, .cons hs₁ hrun⟩, ?_⟩
    · intro tk htk
      rcases List.mem_cons.mp htk with rfl | htk
      · exact bne_eq_false_iff_eq.mp htoken
      · exact htokens tk htk
    · rw [htotal, checkedAdd_eq_some.mp ht', total, total, List.map_cons, List.sum_cons]
      exact Nat.add_assoc _ _ _

end Relay

/-! ## Transactions of the wallet -/

/-- Everything an accepted transaction of the wallet can be, and what it does to the tab. -/
inductive WalletStep (want : Expected) (callee : Address) (calldata : List UInt8) :
    Spend → Spend → Prop where
  /-- an allowance -/
  | approve {s : Spend} {spender : Address} {amount : U256}
      (reads : readAct want callee calldata = some (.approve spender amount)) :
      WalletStep want callee calldata s (s.grant spender amount)
  /-- a transfer -/
  | transfer {s s' : Spend} {recipient : Address} {amount : U256}
      (reads : readAct want callee calldata = some (.transfer recipient amount))
      (effect : s.transfer amount = .ok s') : WalletStep want callee calldata s s'
  /-- a deposit of the token -/
  | deposit {s s' : Spend} {d : DepositErc20}
      (reads : readAct want callee calldata = some (.relay (.depositErc20 d)))
      (token : d.token = want.originCurrency)
      (effect : s.pull callee d.amount = .ok s') : WalletStep want callee calldata s s'
  /-- a native deposit -/
  | depositNative {s : Spend} {d : DepositNative}
      (reads : readAct want callee calldata = some (.relay (.depositNative d))) :
      WalletStep want callee calldata s s
  /-- value forwarded -/
  | forward {s : Spend} (reads : readAct want callee calldata = some (.relay .forward)) :
      WalletStep want callee calldata s s
  /-- nested calls that run on nothing of the wallet's -/
  | multicall {s : Spend} {m : Multicall} {flow : Option Flow}
      (reads : readAct want callee calldata = some (.relay (.multicall m)))
      (run : NestedRun want m.calls none flow) : WalletStep want callee calldata s s
  /-- tokens pulled into the router, and nested calls that deposit all of them -/
  | transferAndMulticall {s s' : Spend} {p : Pulls} {m : Multicall} {flow : Flow}
      (reads : readAct want callee calldata = some (.relay (.transferAndMulticall p m)))
      (tokens : ∀ token ∈ p.tokens, token = want.originCurrency)
      (lengths : p.tokens.length = p.amounts.length)
      (effect : PullRun callee p.amounts s s')
      (run : NestedRun want m.calls (some Flow.new) (some flow))
      (consumed : flow.consumed.val = total p.amounts) : WalletStep want callee calldata s s'

section Wallet

variable {want : Expected} {callee : Address} {calldata : List UInt8} {inputAmount : U256}

theorem checkTokenStep_step {id : String} {s s' : Spend} (htoken : want.isToken callee)
    (h : checkTokenStep id want inputAmount calldata s = .ok s') :
    WalletStep want callee calldata s s' := by
  obtain ⟨⟨selector, args⟩, hsplit, h⟩ := okOr_bind_eq_ok.mp h
  obtain ⟨hsel, h⟩ := refuseIf_bind_eq_ok.mp h
  obtain ⟨-, h⟩ := refuseIf_bind_eq_ok.mp h
  rw [Bool.or_eq_false_iff, decide_eq_false_iff_not] at hsel
  have hact : readAct want callee calldata = _ := readAct_token calldata htoken
  rw [readTokenCall, hsplit] at hact
  simp only [Option.bind_eq_bind, Option.bind_some, if_neg hsel.2, TokenCall.act] at hact
  split at h
  · next happrove =>
    rw [if_pos happrove] at hact
    obtain ⟨-, h⟩ := refuseIf_bind_eq_ok.mp h
    obtain rfl := pure_eq_ok.mp h
    exact .approve hact
  · next happrove =>
    have htransfer : selector = TRANSFER := by
      rw [Bool.and_eq_false_iff, bne_eq_false_iff_eq, bne_eq_false_iff_eq] at hsel
      exact hsel.1.resolve_left happrove
    rw [if_neg happrove, if_pos htransfer] at hact
    obtain ⟨-, h⟩ := refuseIf_bind_eq_ok.mp h
    exact .transfer hact (mapError_eq_ok.mp h)

theorem checkRelayCall_step {route : Route} {value : U256} {s : Spend} {spent : Option Spend}
    (htoken : ¬ route.want.isToken callee)
    (h : checkRelayCall ⟨callee, calldata, value⟩ route (some s) = .ok spent) :
    ∃ s', spent = some s' ∧ WalletStep route.want callee calldata s s' := by
  obtain ⟨e, hread, hrole, haccepts⟩ := checkRelayCall_ok.mp h
  have hact := readAct_relay htoken hread hrole
  cases e with
  | depositErc20 d =>
    obtain ⟨s', rfl, hpull⟩ := chargePull_some haccepts.2.2.2
    exact ⟨s', rfl, .deposit hact haccepts.2.1 hpull⟩
  | depositErc20All => exact haccepts.elim
  | depositNative d => exact ⟨s, haccepts.2, .depositNative hact⟩
  | multicall m =>
    obtain ⟨-, -, -, _, _, flow, hpulls, hcalls, -⟩ := checkMulticall_ok.mp haccepts
    obtain ⟨rfl, -⟩ := Prod.mk.inj (pure_eq_ok.mp hpulls)
    exact ⟨s, rfl, .multicall hact (checkNested_run hcalls)⟩
  | transferAndMulticall p m =>
    obtain ⟨-, -, -, t, _, flow, hpulls, hcalls, hflow⟩ := checkMulticall_ok.mp haccepts
    obtain ⟨hlen, hpulls⟩ := refuseIf_bind_eq_ok.mp hpulls
    have hlen := bne_eq_false_iff_eq.mp hlen
    obtain ⟨htokens, ⟨s', hs', hrun⟩, htotal⟩ := checkPull_run hlen hpulls
    refine ⟨s', hs', ?_⟩
    have hnested := checkNested_run hcalls
    obtain ⟨f, rfl⟩ := Option.isSome_iff_exists.mp hnested.isSome
    refine .transferAndMulticall hact htokens hlen hrun hnested ?_
    rw [bne_eq_false_iff_eq.mp (refuseIf_eq_ok.mp hflow), htotal]
    exact Nat.zero_add _
  | forward => exact ⟨s, haccepts, .forward hact⟩

variable {lib : Crates}

/-- A step's calldata is accepted exactly when it is `0x` and hex text that decodes. -/
theorem stepCalldata_eq_some {text : String} {bytes : List UInt8} :
    stepCalldata lib text = some bytes ↔
      ∃ cs, text.toList = '0' :: 'x' :: cs ∧ unhex cs = some bytes := by
  rw [stepCalldata]
  constructor
  · intro h
    split at h
    · cases h
    · next cs hcs =>
      split at h
      · rw [lib.hexDecode_eq, String.toList_ofList] at h
        exact ⟨cs, strip0x_eq_some.mp hcs, h⟩
      · cases h
  · rintro ⟨cs, htext, hcs⟩
    obtain ⟨hall, hlen⟩ := all_isHexDigit_of_unhex hcs
    have heven : byteLen text % 2 = 0 := by
      rw [← String.ofList_toList (s := text), htext, byteLen_cons, byteLen_cons,
        byteLen_of_hex hall, hlen]
      have h0 : ('0' : Char).utf8Size = 1 := by decide
      have hx : ('x' : Char).utf8Size = 1 := by decide
      omega
    rw [strip0x_eq_some.mpr htext]
    dsimp only
    rw [if_pos ⟨heven, hall⟩, lib.hexDecode_eq, String.toList_ofList, hcs]

theorem strField_of_parse {data : Value} {key : String}
    (h : lib.parseAddress (textField data key) = some callee) :
    (data.strField key).bind lib.parseAddress = some callee := by
  rw [textField] at h
  rcases hf : data.strField key with _ | s
  · rw [hf, Option.getD_none, lib.parseAddress_empty] at h
    cases h
  · rw [hf, Option.getD_some] at h
    exact h

theorem isApproval_relay {data : Value}
    (hcallee : lib.parseAddress (textField data "to") = some callee)
    (htoken : ¬ want.isToken callee) : isApproval lib data want = false := by
  rw [isApproval]
  split
  · rfl
  · next hzero =>
    have hne : callee ≠ want.originCurrency := fun h => htoken ⟨hzero, h⟩
    rw [strField_of_parse hcallee]
    dsimp only
    split
    · next heq _ =>
      obtain rfl := Option.some.inj heq
      rw [beq_eq_false_iff_ne.mpr hne, Bool.false_and]
    · rfl

/-- On the token, an approval is told by the selector of the calldata that was checked. -/
theorem isApproval_token {data : Value} (htoken : want.isToken callee)
    (hcallee : lib.parseAddress (textField data "to") = some callee)
    (hcalldata : stepCalldata lib (textField data "data") = some calldata)
    (hlen : 4 ≤ calldata.length) :
    isApproval lib data want = (calldata.take 4 == APPROVE) := by
  obtain ⟨cs, htext, hcs⟩ := stepCalldata_eq_some.mp hcalldata
  obtain ⟨hall, hcslen⟩ := all_isHexDigit_of_unhex hcs
  have hdata : data.strField "data" = some (textField data "data") := by
    rw [textField] at htext ⊢
    rcases hf : data.strField "data" with _ | s
    · rw [hf] at htext
      cases htext
    · rfl
  rw [isApproval]
  rw [if_neg htoken.1, strField_of_parse hcallee, hdata, Option.bind_some,
    strip0x_eq_some.mpr htext]
  have hlong : 8 ≤ byteLen (String.ofList cs) := by
    rw [byteLen_of_hex hall]
    omega
  rw [Option.filter_some, if_pos (decide_eq_true hlong), Option.bind_some, lib.hexDecode_eq,
    String.toList_ofList, unhex_take hcs 4]
  dsimp only
  rw [htoken.2, beq_self_eq_true, Bool.true_and]

/-- The transaction a step's open JSON spells: its target, its bytes and its value. -/
structure Spells (lib : Crates) (id : String) (data : Value) (callee : Address)
    (calldata : List UInt8) (value : String) : Prop where
  callee : lib.parseAddress (textField data "to") = some callee
  calldata : stepCalldata lib (textField data "data") = some calldata
  value : stepValue lib id (data.get "value") = .ok value

/-- **One transaction** is accepted exactly when it is the payer's, on the origin chain, spells
out a call and the call is accepted. -/
theorem checkStep_ok {id description : String} {data : Value} {s s' : Spend} {st : RouteStep} :
    checkStep lib id description data want inputAmount s = .ok (st, s') ↔
      ((data.get "chainId").bind Value.asU64).getD 0 = want.originChainId ∧
      sameAddress lib (textField data "from") want.user = true ∧
      ∃ callee calldata value, Spells lib id data callee calldata value ∧
        checkCall id want inputAmount callee calldata
          ((baseUnits lib (some value)).getD U256.MAX) s = .ok s' ∧
        st = ⟨id, description, ((data.get "chainId").bind Value.asU64).getD 0, callee.lowerHex,
          toAsciiLowercase (textField data "data"), value⟩ := by
  rw [checkStep]
  rw [refuseIf_bind_eq_ok, refuseIf_bind_eq_ok, bne_eq_false_iff_eq, Bool.not_eq_false']
  refine and_congr_right fun _ => and_congr_right fun _ => ?_
  constructor
  · intro h
    obtain ⟨callee, hcallee, h⟩ := okOr_bind_eq_ok.mp h
    obtain ⟨calldata, hcalldata, h⟩ := okOr_bind_eq_ok.mp h
    obtain ⟨value, hvalue, h⟩ := bind_eq_ok.mp h
    obtain ⟨s₁, hcall, h⟩ := bind_eq_ok.mp h
    obtain ⟨rfl, rfl⟩ := Prod.mk.inj (pure_eq_ok.mp h)
    exact ⟨callee, calldata, value, ⟨hcallee, hcalldata, hvalue⟩, hcall, rfl⟩
  · rintro ⟨callee, calldata, value, ⟨hcallee, hcalldata, hvalue⟩, hcall, rfl⟩
    refine okOr_bind_eq_ok.mpr ⟨callee, hcallee, okOr_bind_eq_ok.mpr ⟨calldata, hcalldata, ?_⟩⟩
    exact bind_eq_ok.mpr ⟨value, hvalue, bind_eq_ok.mpr ⟨s', hcall, rfl⟩⟩

theorem checkCall_step {id : String} {value : U256} {s s' : Spend}
    (h : checkCall id want inputAmount callee calldata value s = .ok s') :
    WalletStep want callee calldata s s' := by
  rw [checkCall] at h
  split at h
  · next htoken => exact checkTokenStep_step htoken h
  next htoken =>
  split at h
  · obtain ⟨spent, hrelay, h⟩ := bind_eq_ok.mp h
    obtain ⟨s₁, rfl, hstep⟩ := checkRelayCall_step htoken hrelay
    obtain rfl := pure_eq_ok.mp h
    exact hstep
  · cases h

end Wallet

/-! ## Quotes -/

/-- What an accepted quote passed, part by part. -/
structure Accepted (lib : Crates) (quote : Quote) (want : Expected) (inputAmount : U256)
    (done : Progress) : Prop where
  requestId : isHash (quote.requestId.getD "") = true
  details : checkDetails lib quote.details want = .ok inputAmount
  order : ∃ order, signedOrder quote = some order ∧ checkOrder lib order want inputAmount = .ok ()
  items : each (checkItems lib want inputAmount) quote.steps ⟨[], false, Spend.new⟩ = .ok done
  funded : done.funded = true
  value : ∃ value, each (addValue lib) done.steps 0 = .ok value ∧
    value ≤ if want.originCurrency = 0 then inputAmount else 0
  spend : ∃ taken, done.spend.exposure = .ok taken ∧ taken ≤ inputAmount

section Quotes

variable {lib : Crates} {quotedAt : String} {quote : Quote} {want : Expected}

/-- The figures that passed: who pays, who is paid, and the quoted input. -/
theorem checkDetails_ok {d : QuoteDetails} {inputAmount : U256}
    (h : checkDetails lib d want = .ok inputAmount) :
    lib.parseAddress d.sender = some want.user ∧
      lib.parseAddress d.recipient = some want.recipient ∧
      baseUnits lib (some d.currencyIn.amount) = some inputAmount := by
  obtain ⟨hsender, h⟩ := refuseIf_bind_eq_ok.mp h
  obtain ⟨hrecipient, h⟩ := refuseIf_bind_eq_ok.mp h
  obtain ⟨-, h⟩ := refuseIf_bind_eq_ok.mp h
  obtain ⟨-, h⟩ := refuseIf_bind_eq_ok.mp h
  obtain ⟨_, -, h⟩ := okOr_bind_eq_ok.mp h
  obtain ⟨-, h⟩ := refuseIf_bind_eq_ok.mp h
  obtain ⟨-, h⟩ := refuseIf_bind_eq_ok.mp h
  obtain ⟨-, h⟩ := refuseIf_bind_eq_ok.mp h
  rw [Bool.not_eq_false'] at hsender hrecipient
  exact ⟨sameAddress_iff.mp hsender, sameAddress_iff.mp hrecipient, okOr_eq_ok.mp h⟩

/-- Every transaction of an accepted quote was spelled out, and its call accepted. -/
theorem Accepted.call {inputAmount : U256} {done : Progress}
    (h : Accepted lib quote want inputAmount done) {step : QuoteStep} {item : Value}
    (hstep : step ∈ quote.steps) (hitem : item ∈ step.items) :
    ∃ callee calldata value s s', Spells lib step.id item callee calldata value ∧
      checkCall step.id want inputAmount callee calldata
        ((baseUnits lib (some value)).getD U256.MAX) s = .ok s' := by
  obtain ⟨_, _, hitems⟩ := each_mem h.items hstep
  obtain ⟨-, hitems⟩ := refuseIf_bind_eq_ok.mp hitems
  obtain ⟨acc, _, hone⟩ := each_mem hitems hitem
  obtain ⟨-, hone⟩ := refuseIf_bind_eq_ok.mp hone
  obtain ⟨⟨st, s'⟩, hchecked, -⟩ := bind_eq_ok.mp hone
  obtain ⟨-, -, callee, calldata, value, hspells, hcall, -⟩ := checkStep_ok.mp hchecked
  exact ⟨callee, calldata, value, acc.spend, s', hspells, hcall⟩

/-- So each of them is a step of the wallet's. -/
theorem Accepted.item {inputAmount : U256} {done : Progress}
    (h : Accepted lib quote want inputAmount done) {step : QuoteStep} {item : Value}
    (hstep : step ∈ quote.steps) (hitem : item ∈ step.items) :
    ∃ callee calldata value s s', Spells lib step.id item callee calldata value ∧
      WalletStep want callee calldata s s' := by
  obtain ⟨callee, calldata, value, s, s', hspells, hcall⟩ := h.call hstep hitem
  exact ⟨callee, calldata, value, s, s', hspells, checkCall_step hcall⟩

/-- **An accepted quote** passed every part of the check, and its route is what the loop over
its transactions built. -/
theorem checkQuote_ok {rq : RouteQuote} (h : checkQuote lib quotedAt quote want = .ok rq) :
    ∃ inputAmount done, Accepted lib quote want inputAmount done ∧ rq.steps = done.steps := by
  obtain ⟨hid, h⟩ := refuseIf_bind_eq_ok.mp h
  obtain ⟨inputAmount, hdetails, h⟩ := bind_eq_ok.mp h
  obtain ⟨order, horder, h⟩ := okOr_bind_eq_ok.mp h
  obtain ⟨u, hcheck, h⟩ := bind_eq_ok.mp h
  obtain ⟨done, hitems, h⟩ := bind_eq_ok.mp h
  obtain ⟨hfunded, h⟩ := refuseIf_bind_eq_ok.mp h
  obtain ⟨value, hvalue, h⟩ := bind_eq_ok.mp h
  obtain ⟨hlimit, h⟩ := refuseIf_bind_eq_ok.mp h
  obtain ⟨taken, htaken, h⟩ := bind_eq_ok.mp h
  obtain ⟨hle, h⟩ := refuseIf_bind_eq_ok.mp h
  obtain rfl := pure_eq_ok.mp h
  exact ⟨inputAmount, done, {
    requestId := by simpa using hid
    details := hdetails
    order := ⟨order, horder, hcheck⟩
    items := hitems
    funded := by simpa using hfunded
    value := ⟨value, hvalue, Fin.not_lt.mp (decide_eq_false_iff_not.mp hlimit)⟩
    spend := ⟨taken, htaken, Fin.not_lt.mp (decide_eq_false_iff_not.mp hle)⟩ }, rfl⟩

/-- And a quote that passes every part is accepted. -/
theorem Accepted.checkQuote {inputAmount : U256} {done : Progress}
    (h : Accepted lib quote want inputAmount done) :
    ∃ rq, checkQuote lib quotedAt quote want = .ok rq ∧ rq.steps = done.steps := by
  obtain ⟨order, horder, hcheck⟩ := h.order
  obtain ⟨value, hvalue, hlimit⟩ := h.value
  obtain ⟨taken, htaken, hle⟩ := h.spend
  refine ⟨routeQuote lib quotedAt quote want done.steps, ?_, rfl⟩
  refine refuseIf_bind_eq_ok.mpr ⟨by simp [h.requestId], bind_eq_ok.mpr ⟨_, h.details, ?_⟩⟩
  refine okOr_bind_eq_ok.mpr ⟨order, horder, bind_eq_ok.mpr ⟨(), hcheck, ?_⟩⟩
  refine bind_eq_ok.mpr ⟨done, h.items, refuseIf_bind_eq_ok.mpr ⟨by simp [h.funded], ?_⟩⟩
  refine bind_eq_ok.mpr ⟨value, hvalue, refuseIf_bind_eq_ok.mpr
    ⟨decide_eq_false_iff_not.mpr (Fin.not_lt.mpr hlimit), ?_⟩⟩
  exact bind_eq_ok.mpr ⟨taken, htaken, refuseIf_bind_eq_ok.mpr
    ⟨decide_eq_false_iff_not.mpr (Fin.not_lt.mpr hle), rfl⟩⟩

end Quotes

/-! ## A route through the approval proxy

An approval of the proxy, then one transaction that pulls into the router and deposits from
there. The order id of the deposit is left open. -/

namespace Sample

/-- The payer. -/
def user : Address := 0x1111

/-- The payer's token. -/
def token : Address := 0x2222

/-- Relay's depository. -/
def depository : Address := 0x3333

/-- Relay's approval proxy. -/
def proxy : Address := 0x4444

/-- The payment address. -/
def payment : Address := 0x5555

/-- The deposit's token. -/
def settled : Address := 0x6666

/-- What the route must do. -/
def want : Expected where
  user := user
  originChainId := 1
  originCurrency := token
  destinationChainId := 8453
  token := settled
  recipient := payment
  amount := 990
  relayRoles := ⟨[depository], [proxy], [], []⟩
  originDecimals := 6
  tokenDecimals := 6
  originChainNames := ["ethereum"]
  destinationChainNames := ["base"]

/-- `approve(spender, amount)`. -/
def approval (spender : Address) (amount : ℕ) : List UInt8 :=
  APPROVE ++ toBe 32 spender.val ++ toBe 32 amount

/-- `depositErc20(0, token, amount, id)`. -/
def deposit (amount id : ℕ) : List UInt8 :=
  DEPOSIT_ERC20 ++ toBe 32 0 ++ toBe 32 token.val ++ toBe 32 amount ++ toBe 32 id

/-- A nested call in its encoding, its data padded to whole words. -/
def nested (target : Address) (data : List UInt8) : List UInt8 :=
  toBe 32 target.val ++ toBe 32 0 ++ toBe 32 0 ++ toBe 32 128 ++ toBe 32 data.length ++ data ++
    List.replicate ((32 - data.length % 32) % 32) 0

/-- `transferAndMulticall` of the amount: approve the depository, then deposit. -/
def pull (amount id : ℕ) : List UInt8 :=
  let first := nested token (approval depository amount)
  TRANSFER_AND_MULTICALL_V2 ++ toBe 32 160 ++ toBe 32 224 ++ toBe 32 288 ++ toBe 32 0 ++ toBe 32 0 ++
    toBe 32 1 ++ toBe 32 token.val ++ toBe 32 1 ++ toBe 32 amount ++
    toBe 32 2 ++ toBe 32 64 ++ toBe 32 (64 + first.length) ++
    first ++ nested depository (deposit amount id)

/-- A transaction's open JSON. -/
def item (callee : Address) (calldata : List UInt8) : Value :=
  .object [("from", .string user.lowerHex), ("to", .string callee.lowerHex),
    ("data", .string (lowerHex calldata)), ("value", .null), ("chainId", .number (.posInt 1))]

/-- The signed order. -/
def order : Value :=
  .object [
    ("output", .object [("chainId", .string "base"), ("payments", .array [
      .object [("recipient", .string payment.lowerHex), ("currency", .string settled.lowerHex),
        ("minimumAmount", .string "990")]])]),
    ("inputs", .array [
      .object [
        ("payment", .object [("currency", .string token.lowerHex), ("chainId", .string "ethereum"),
          ("amount", .string "1000")]),
        ("refunds", .array [
          .object [("recipient", .string user.lowerHex), ("currency", .string token.lowerHex),
            ("chainId", .string "ethereum")]])]])]

/-- An amount of a token. -/
def amountOf (chainId : U64) (currency : Address) (amount : String) : QuoteAmount where
  currency := ⟨chainId, currency.lowerHex, "T", "Token", 6, none⟩
  amount := amount
  amountUsd := none
  minimumAmount := some amount

/-- The quote's figures. -/
def details : QuoteDetails where
  sender := user.lowerHex
  recipient := payment.lowerHex
  currencyIn := amountOf 1 token "1000"
  currencyOut := amountOf 8453 settled "990"
  totalImpactUsd := none
  timeEstimate := none

/-- The quote, with this order id in its deposit. -/
def quote (id : ℕ) : Quote where
  requestId := some (lowerHex (toBe 32 7))
  steps := [
    ⟨"approve", "Approve", "transaction", [item token (approval proxy 1000)]⟩,
    ⟨"deposit", "Deposit", "transaction", [item proxy (pull 1000 id)]⟩]
  gasFee := none
  details := details
  protocol := some (.object [("v2", .object [("orderData", order)])])

theorem details_ok : checkDetails Crates.reference details want = .ok 1000 := by
  decide +kernel

theorem order_ok : checkOrder Crates.reference order want 1000 = .ok () := by
  decide +kernel

theorem stepCalldata_lowerHex (bytes : List UInt8) :
    stepCalldata Crates.reference (lowerHex bytes) = some bytes :=
  stepCalldata_eq_some.mpr ⟨hexChars bytes, String.toList_ofList, unhex_hexChars bytes⟩

theorem item_callee (callee : Address) (calldata : List UInt8) :
    Crates.reference.parseAddress (textField (item callee calldata) "to") = some callee :=
  Crates.reference.parseAddress_lowerHex callee

theorem item_calldata (callee : Address) (calldata : List UInt8) :
    stepCalldata Crates.reference (textField (item callee calldata) "data") = some calldata :=
  stepCalldata_lowerHex calldata

/-- The step the page gets for a sample transaction. -/
def step (id description : String) (callee : Address) (calldata : List UInt8) : RouteStep :=
  ⟨id, description, 1, callee.lowerHex, toAsciiLowercase (lowerHex calldata), "0"⟩

/-- A sample transaction is accepted when its call is. -/
theorem item_ok {id description : String} {callee : Address} {calldata : List UInt8}
    {spend spend' : Spend}
    (h : checkCall id want 1000 callee calldata 0 spend = .ok spend') :
    checkStep Crates.reference id description (item callee calldata) want 1000 spend =
      .ok (step id description callee calldata, spend') := by
  refine checkStep_ok.mpr ⟨rfl, ?_, callee, calldata, "0", ⟨?_, ?_, rfl⟩, ?_, rfl⟩
  · exact sameAddress_iff.mpr (Crates.reference.parseAddress_lowerHex user)
  · exact item_callee callee calldata
  · exact item_calldata callee calldata
  · exact h

theorem approval_ok : checkCall "approve" want 1000 token (approval proxy 1000) 0 Spend.new =
    .ok (Spend.new.grant proxy 1000) := by
  decide +kernel

theorem pull_ok : checkCall "deposit" want 1000 proxy (pull 1000 9) 0
    (Spend.new.grant proxy 1000) = .ok ⟨1000, KeyMap.empty.put proxy 0⟩ := by
  decide +kernel

/-- The steps of the accepted sample quote. -/
def steps : List RouteStep :=
  [step "approve" "Approve" token (approval proxy 1000),
    step "deposit" "Deposit" proxy (pull 1000 9)]

/-- **The sample quote is accepted.** -/
theorem quote_accepted : ∃ done, Accepted Crates.reference (quote 9) want 1000 done ∧
    done.steps = steps := by
  have happroval : isApproval Crates.reference (item token (approval proxy 1000)) want = true :=
    isApproval_token (by decide +kernel) (item_callee _ _) (item_calldata _ _) (by decide +kernel)
  have hpull : isApproval Crates.reference (item proxy (pull 1000 9)) want = false :=
    isApproval_relay (item_callee _ _) (by decide +kernel)
  refine ⟨⟨steps, true, ⟨1000, KeyMap.empty.put proxy 0⟩⟩, ?_, rfl⟩
  constructor
  · decide +kernel
  · exact details_ok
  · exact ⟨order, rfl, order_ok⟩
  · refine each_cons_eq_ok.mpr ⟨_, refuseIf_bind_eq_ok.mpr ⟨rfl, each_cons_eq_ok.mpr
      ⟨_, refuseIf_bind_eq_ok.mpr ⟨rfl, bind_eq_ok.mpr ⟨_, item_ok approval_ok, rfl⟩⟩, rfl⟩⟩, ?_⟩
    rw [happroval]
    refine each_cons_eq_ok.mpr ⟨_, refuseIf_bind_eq_ok.mpr ⟨rfl, each_cons_eq_ok.mpr
      ⟨_, refuseIf_bind_eq_ok.mpr ⟨rfl, bind_eq_ok.mpr ⟨_, item_ok pull_ok, rfl⟩⟩, rfl⟩⟩, ?_⟩
    rw [hpull]
    rfl
  · rfl
  · exact ⟨0, by decide +kernel, Nat.le_refl _⟩
  · exact ⟨1000, by decide +kernel, Nat.le_refl _⟩

end Sample

/-! ## The terms -/

/-- **The terms of an accepted quote**: the payer sends it, the payment address receives it,
and its signed order holds for the quoted input. -/
theorem accepted_quote_terms {lib : Crates} {quotedAt : String} {quote : Quote} {want : Expected}
    {rq : RouteQuote}
    (h : checkQuote lib quotedAt quote want = .ok rq) :
    lib.parseAddress quote.details.sender = some want.user ∧
      lib.parseAddress quote.details.recipient = some want.recipient ∧
      ∃ inputAmount order,
        baseUnits lib (some quote.details.currencyIn.amount) = some inputAmount ∧
        (quote.protocol.bind fun p => p.pointer ["v2", "orderData"]) = some order ∧
        OrderHolds lib order want inputAmount := by
  obtain ⟨inputAmount, done, hacc, -⟩ := checkQuote_ok h
  obtain ⟨hsender, hrecipient, hinput⟩ := checkDetails_ok hacc.details
  obtain ⟨order, horder, hcheck⟩ := hacc.order
  have hpointer := (Option.filter_eq_some_iff.mp horder).1
  exact ⟨hsender, hrecipient, inputAmount, order, hinput, hpointer, checkOrder_holds hcheck⟩

theorem accepted_quote_terms_sample :
    ∃ rq, checkQuote Crates.reference "2026-01-01T00:00:00.000Z" (Sample.quote 9) Sample.want =
        .ok rq ∧
      Crates.reference.parseAddress (Sample.quote 9).details.sender = some Sample.want.user ∧
      Crates.reference.parseAddress (Sample.quote 9).details.recipient =
        some Sample.want.recipient ∧
      ∃ inputAmount order,
        baseUnits Crates.reference (some (Sample.quote 9).details.currencyIn.amount) =
          some inputAmount ∧
        ((Sample.quote 9).protocol.bind fun p => p.pointer ["v2", "orderData"]) = some order ∧
        OrderHolds Crates.reference order Sample.want inputAmount := by
  obtain ⟨done, hacc, -⟩ := Sample.quote_accepted
  obtain ⟨rq, hrq, -⟩ := hacc.checkQuote
  exact ⟨rq, hrq, accepted_quote_terms hrq⟩

end GumServer
