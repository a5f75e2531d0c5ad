import GumServer.Calldata
import GumServer.KeyMap
import GumServer.Quote

/-!
# What a call on Relay's contracts may do

`check_relay_call` and `check_nested_call` (`deposit/relay.rs`): every call of a route is
decoded and held against the route's terms. The two recurse into each other through the
nested calls of a multicall; the depth counter stops the recursion, and is what makes it
well founded here.

Two accounts are kept on the way. `Spend` is the wallet's tab: what has moved out, and the
largest allowance granted to each spender less what was drawn. `Flow` follows one pull
through the router: the allowances its nested calls granted, and what they deposited.
-/

namespace GumServer

open Bytes Checks

/-! ## The wallet's tab -/

/-- What a route may yet take from the payer's wallet, in the token it quoted. -/
structure Spend where
  /-- token moved out at once -/
  pulled : U256
  /-- allowance granted by this route, still unspent, per spender -/
  allowances : KeyMap Address U256
deriving DecidableEq

namespace Spend

/-- `Spend::default`. -/
def new : Spend := ⟨0, KeyMap.empty⟩

/-- An approval. A later approval of the same spender replaces it, so the largest wins. -/
def grant (s : Spend) (spender : Address) (amount : U256) : Spend :=
  let slot := (s.allowances.get? spender).getD 0
  { s with allowances := s.allowances.put spender (if slot < amount then amount else slot) }

/-- A plain `transfer` from the wallet. -/
def transfer (s : Spend) (amount : U256) : Except String Spend := do
  let pulled ← okOr (checkedAdd s.pulled amount) "the route's token spending overflows"
  pure { s with pulled }

/-- The allowance a draw-down leaves: less what it covered. -/
def drawn (slot amount : U256) : U256 :=
  let covered := if amount < slot then amount else slot
  slot - covered

/-- A draw-down of the payer's allowance by a Relay contract. The whole amount leaves the
wallet, and the allowance that was drawn down stops counting. -/
def pull (s : Spend) (spender : Address) (amount : U256) : Except String Spend :=
  let allowances := match s.allowances.get? spender with
    | some slot => s.allowances.put spender (drawn slot amount)
    | none => s.allowances
  transfer { s with allowances } amount

/-- Everything the route could still take: what moved, plus every allowance it granted. -/
def exposure (s : Spend) : Except String U256 :=
  each (fun sum a => okOr (checkedAdd sum a) "the route's token spending overflows")
    s.allowances.values s.pulled

/-- What the tab adds up to, as an unbounded number. -/
def bound (s : Spend) : ℕ := s.pulled.val + s.allowances.total Fin.val

/-- What the tab says a spender may still draw. -/
def tracked (s : Spend) (k : Address) : ℕ := ((s.allowances.get? k).map Fin.val).getD 0

variable {s s' : Spend} {k spender : Address} {amount taken : U256}

theorem drawn_val (slot amount : U256) : (drawn slot amount).val = slot.val - amount.val := by
  rw [drawn]
  split
  · next h => exact Fin.sub_val_of_le (Fin.le_of_lt h)
  · next h =>
    have hle : slot.val ≤ amount.val := Nat.le_of_not_lt h
    rw [Fin.sub_val_of_le (Fin.le_refl slot)]
    omega

theorem tracked_put (s : Spend) (spender : Address) (v : U256) (k : Address) :
    tracked { s with allowances := s.allowances.put spender v } k =
      if k = spender then v.val else s.tracked k := by
  simp only [tracked]
  split
  · next h =>
    subst h
    rw [KeyMap.get?_put_self]
    rfl
  · next h => rw [KeyMap.get?_put_ne _ _ h]

theorem tracked_grant : (s.grant spender amount).tracked k =
    if k = spender then max (s.tracked spender) amount.val else s.tracked k := by
  have hslot : ((s.allowances.get? spender).getD 0).val = s.tracked spender := val_getD_zero _
  rw [grant, tracked_put]
  split
  · split
    · next h =>
      rw [Fin.lt_def, hslot] at h
      omega
    · next h =>
      rw [Fin.lt_def, hslot] at h
      omega
  · rfl

theorem transfer_eq_ok (h : s.transfer amount = .ok s') :
    s'.pulled.val = s.pulled.val + amount.val ∧ s'.allowances = s.allowances := by
  obtain ⟨pulled, hadd, h⟩ := okOr_bind_eq_ok.mp h
  obtain rfl := pure_eq_ok.mp h
  exact ⟨checkedAdd_eq_some.mp hadd, rfl⟩

theorem pull_eq_ok (h : s.pull spender amount = .ok s') :
    s'.pulled.val = s.pulled.val + amount.val ∧
      ∀ k, s'.tracked k = if k = spender then s.tracked k - amount.val else s.tracked k := by
  obtain ⟨hpulled, hallow⟩ := transfer_eq_ok h
  refine ⟨hpulled, fun k => ?_⟩
  rw [tracked, hallow]
  rcases hslot : s.allowances.get? spender with _ | slot
  · dsimp only
    by_cases hk : k = spender
    · subst hk
      rw [if_pos rfl, tracked, hslot]
      exact (Nat.zero_sub _).symm
    · rw [if_neg hk, tracked]
  · have hput := tracked_put s spender (drawn slot amount) k
    rw [tracked] at hput
    rw [hput]
    split
    · next hk =>
      subst hk
      rw [drawn_val, tracked, hslot]
      rfl
    · rfl

/-- An approval never takes anything off the tab. -/
theorem bound_le_grant : s.bound ≤ (s.grant spender amount).bound := by
  have hput := KeyMap.total_put Fin.val s.allowances spender
    (if (s.allowances.get? spender).getD 0 < amount then amount
      else (s.allowances.get? spender).getD 0)
  rw [← val_getD_zero] at hput
  unfold bound grant
  dsimp only
  split at hput
  · next hlt =>
    rw [if_pos hlt]
    rw [Fin.lt_def] at hlt
    omega
  · next hlt =>
    rw [if_neg hlt]
    omega

theorem bound_le_transfer (h : s.transfer amount = .ok s') : s.bound ≤ s'.bound := by
  obtain ⟨hpulled, hallow⟩ := transfer_eq_ok h
  simp only [bound]
  rw [hpulled, hallow]
  omega

/-- Nor does a draw-down: what stops counting as an allowance counts as moved. -/
theorem bound_le_pull (h : s.pull spender amount = .ok s') : s.bound ≤ s'.bound := by
  obtain ⟨hpulled, hallow⟩ := transfer_eq_ok h
  dsimp only at hpulled hallow
  simp only [bound]
  rw [hpulled, hallow]
  rcases hslot : s.allowances.get? spender with _ | slot
  · dsimp only
    omega
  · have hput := KeyMap.total_put Fin.val s.allowances spender (drawn slot amount)
    rw [hslot, Option.map_some, Option.getD_some, drawn_val] at hput
    dsimp only
    omega

/-- The sum at the end is exact, or the route is refused. -/
theorem exposure_eq_ok (h : s.exposure = .ok taken) : taken.val = s.bound := by
  have hsum : ∀ {vs : List U256} {acc out : U256},
      each (fun sum a => okOr (checkedAdd sum a) "the route's token spending overflows") vs acc =
        .ok out → out.val = acc.val + (vs.map Fin.val).sum := by
    intro vs
    induction vs with
    | nil =>
      intro acc out h
      obtain rfl := Except.ok.inj h
      rfl
    | cons v vs ih =>
      intro acc out h
      obtain ⟨mid, hmid, hrest⟩ := each_cons_eq_ok.mp h
      have hadd := checkedAdd_eq_some.mp (okOr_eq_ok.mp hmid)
      rw [ih hrest, hadd, List.map_cons, List.sum_cons]
      omega
  rw [hsum h, bound, KeyMap.total, KeyMap.values, List.map_map]
  rfl

end Spend

/-! ## The checks -/

/-- A call a route makes: to one of Relay's contracts, or to the payer's token. -/
structure WalletCall where
  callee : Address
  calldata : List UInt8
  /-- wei the wallet attaches -/
  value : U256

/-- What one `transferAndMulticall` pull must account for. -/
structure Flow where
  /-- allowances the nested calls granted the depository, still undrawn -/
  granted : KeyMap Address U256
  /-- tokens the nested calls moved into the depository -/
  consumed : U256

/-- `Flow::default`. -/
def Flow.new : Flow := ⟨KeyMap.empty, 0⟩

/-- What every call of a route is held against. -/
structure Route where
  id : String
  want : Expected
  inputAmount : U256
  depth : ℕ

/-- The route one nesting level down. -/
def Route.deeper (route : Route) : Route := { route with depth := route.depth + 1 }

/-- `refuse`: a refusal names its step. -/
def Route.refuse (route : Route) (what : String) : String := s!"step {route.id} {what}"

section Relay

variable (route : Route)

/-- Each entrypoint belongs to one role, and a role is only trusted at its own address. -/
def checkRole (callee : Address) (entrypoint : Entrypoint) : Except String Unit :=
  let roles := route.want.relayRoles
  let addr := callee.lowerHex
  match entrypoint with
  | .depositErc20 | .depositErc20All | .depositNative =>
    refuseIf (!roles.depositories.contains callee)
      (route.refuse s!"deposits through {addr}, which is not Relay's depository")
  | .multicall _ =>
    refuseIf (!roles.routers.contains callee)
      (route.refuse s!"runs nested calls through {addr}, which is not Relay's router")
  | .transferAndMulticall _ =>
    refuseIf (!roles.approvalProxies.contains callee)
      (route.refuse
        s!"pulls on an allowance through {addr}, which is not Relay's approval proxy")
  | .forward =>
    refuseIf (!roles.receivers.contains callee)
      (route.refuse s!"forwards value through {addr}, which is not Relay's receiver")

/-- A recipient must be the payer or nobody. -/
def checkPayee (payee : Address) (what : String) : Except String Unit :=
  refuseIf (payee != 0 && payee != route.want.user)
    (route.refuse s!"{what} {payee.lowerHex}, not the payer")

/-- Charge a draw-down to the wallet's tab, where one is kept. -/
def chargePull (spend : Option Spend) (spender : Address) (amount : U256) :
    Except String (Option Spend) :=
  match spend with
  | some spend => ((spend.pull spender amount).mapError route.refuse).map some
  | none => pure none

/-- A deposit: Relay's depository draws the amount down from the caller's allowance to it.
The order id is read, and that is all. -/
def checkDepositErc20 (callee : Address) (args : List UInt8) (spend : Option Spend) :
    Except String (Option Spend) := do
  let d ← okOr (readDepositErc20 args) (route.refuse "has malformed depositErc20 arguments")
  checkPayee route d.depositor "deposits as"
  refuseIf (d.token != route.want.originCurrency)
    (route.refuse s!"deposits {d.token.lowerHex}, not the token being paid with")
  refuseIf (route.inputAmount < d.amount)
    (route.refuse s!"deposits {d.amount}, more than the quoted {route.inputAmount}")
  chargePull route spend callee d.amount

/-- A native deposit: its value is the transaction's, bounded with the rest of the route's. -/
def checkDepositNative (args : List UInt8) : Except String Unit := do
  let d ← okOr (readDepositNative args) (route.refuse "has malformed depositNative arguments")
  checkPayee route d.depositor "deposits as"

/-- One pulled token: the one being paid with, for no more than the quoted input. -/
def checkPull (callee : Address) (acc : Option Spend × U256) (pulled : Address × U256) :
    Except String (Option Spend × U256) := do
  let (token, amount) := pulled
  refuseIf (token != route.want.originCurrency)
    (route.refuse s!"pulls {token.lowerHex}, not the token being paid with")
  refuseIf (route.want.originCurrency == 0)
    (route.refuse "pulls the chain's native currency, which no allowance can")
  refuseIf (route.inputAmount < amount)
    (route.refuse s!"pulls {amount}, more than the quoted {route.inputAmount}")
  let spend ← chargePull route acc.1 callee amount
  let pulledTotal ← okOr (checkedAdd acc.2 amount)
    (route.refuse "pulls more than a quote can bound")
  pure (spend, pulledTotal)

/-- One nested call of the loop: it may not fail quietly, its value comes out of the
transaction's, and `nested` has the rest to say. -/
def checkNested (nested : NestedCall → Option Flow → Except String (Option Flow)) (txValue : U256)
    (acc : U256 × Option Flow) (call : NestedCall) : Except String (U256 × Option Flow) := do
  refuseIf call.allowFailure (route.refuse "nests a call that may fail without saying so")
  let nestedValue ← okOr (checkedAdd acc.1 call.value) (route.refuse "nested calls overflow")
  refuseIf (txValue < nestedValue)
    (route.refuse "nests calls worth more than the transaction's value")
  let flow ← (nested call acc.2).mapError route.refuse
  pure (nestedValue, flow)

/-- Everything a `transferAndMulticall` pulls, added up; a plain multicall pulls nothing. -/
def checkPulls (callee : Address) (pulls : Option Pulls) (spend : Option Spend) :
    Except String (Option Spend × U256) :=
  match pulls with
  | none => pure (spend, 0)
  | some p => do
    refuseIf (p.tokens.length != p.amounts.length)
      (route.refuse "pulls tokens and amounts of different lengths")
    each (checkPull route callee) (p.tokens.zip p.amounts) (spend, 0)

/-- A pull with nowhere to go strands the tokens in the router: every pulled token must come
out the far side, into the depository. -/
def checkFlow (flow : Option Flow) (pulledTotal : U256) : Except String Unit :=
  match flow with
  | none => pure ()
  | some flow =>
    refuseIf (flow.consumed != pulledTotal)
      (route.refuse s!"leaves {pulledTotal - flow.consumed} of the pulled {pulledTotal} in Relay's router, where anyone could sweep it")

/-- What the router may be asked to run: surplus back to the payer, something to run where
tokens were pulled, every nested call checked, and nothing pulled left behind. -/
def checkMulticall (nested : NestedCall → Option Flow → Except String (Option Flow))
    (callee : Address) (txValue : U256) (pulls : Option Pulls) (m : Multicall)
    (spend : Option Spend) : Except String (Option Spend) := do
  checkPayee route m.refundTo "sends its surplus to"
  checkPayee route m.nftRecipient "sends its claims to"
  refuseIf (pulls.isSome && m.calls.isEmpty)
    (route.refuse "pulls the quoted input but runs no calls to deposit it")
  let (spend, pulledTotal) ← checkPulls route callee pulls spend
  let (_, flow) ← each (checkNested route nested txValue) m.calls (0, pulls.map fun _ => Flow.new)
  checkFlow route flow pulledTotal
  pure spend

/-- A call on the payer's token, nested in a multicall: an allowance to whoever turns it
into a deposit, or, where nothing was pulled, a transfer to the depository. -/
def checkNestedToken (call : NestedCall) (flow : Option Flow) : Except String (Option Flow) := do
  let roles := route.want.relayRoles
  refuseIf (call.value != 0)
    (route.refuse "sends value with a call on the token, which takes none")
  let (selector, args) ← okOr (splitAtChecked call.data 4)
    (route.refuse "nests a call on the token with no selector")
  refuseIf (selector != APPROVE && selector != TRANSFER)
    (route.refuse
      s!"nests an unexpected call on the payer's token ({String.ofList (hexChars selector)})")
  refuseIf (args.length < 64)
    (route.refuse "nests a call on the token with truncated arguments")
  let spender := Address.ofBytes ((args.drop 12).take 20)
  let amount := U256.ofBytes ((args.drop 32).take 32)
  refuseIf (route.inputAmount < amount)
    (route.refuse s!"nests a call for {amount}, more than the quoted {route.inputAmount}")
  if selector = APPROVE then do
    refuseIf (!roles.mayHoldAllowance spender)
      (route.refuse s!"nests an allowance to {spender.lowerHex}, which may not hold one")
    match flow with
    | none => pure none
    | some flow => do
      let slot ← okOr (checkedAdd ((flow.granted.get? spender).getD 0) amount)
        (route.refuse "nested allowances overflow")
      pure (some { flow with granted := flow.granted.put spender slot })
  else if flow.isSome then
    -- a raw transfer may return false instead of reverting, leaving the tokens behind
    .error (route.refuse
      s!"nests a plain transfer to {spender.lowerHex}, which a misbehaving token could silently not make")
  else do
    refuseIf (!roles.depositories.contains spender)
      (route.refuse s!"nests a transfer to {spender.lowerHex}, which is not Relay's depository")
    pure flow

/-- A nested deposit draws the router's fresh allowance down; charge it to the flow. The
amount is the third word of the arguments, past the selector. -/
def chargeDeposit (target : Address) (data : List UInt8) (flow : Flow) :
    Except String (Option Flow) := do
  let amount := U256.ofBytes ((slice? data 68 32).getD [])
  let slot ← okOr (flow.granted.get? target)
    (route.refuse s!"draws down {amount} no nested call approved")
  refuseIf (slot < amount)
    (route.refuse s!"draws down {amount}, more than the nested calls approved")
  let consumed ← okOr (checkedAdd flow.consumed amount) (route.refuse "nested deposits overflow")
  pure (some ⟨flow.granted.put target (slot - amount), consumed⟩)

end Relay

mutual

/-- A call to one of Relay's contracts. `spend` is the wallet's tab, kept only for calls the
wallet itself makes. -/
def checkRelayCall (call : WalletCall) (route : Route) (spend : Option Spend) :
    Except String (Option Spend) := do
  let (selector, args) ← okOr (splitAtChecked call.calldata 4)
    s!"step {route.id} calls {call.callee.lowerHex} with no selector"
  let nested := fun (n : NestedCall) flow => checkNestedCall n route.deeper flow
  let unknown := s!"{call.callee.lowerHex}{String.ofList (hexChars selector)}"
  let entrypoint ← okOr (Entrypoint.ofSelector selector)
    (route.refuse s!"makes a call the checks don't decode ({unknown}…)")
  checkRole route call.callee entrypoint
  match entrypoint with
  | .depositErc20 => checkDepositErc20 route call.callee args spend
  | .depositErc20All =>
    .error (route.refuse "deposits by the wallet's whole allowance, which no quote bounds")
  | .depositNative => do
    checkDepositNative route args
    pure spend
  | .multicall withMetadata => do
    let m ← okOr (readMulticall withMetadata (Abi.new args))
      (route.refuse "has malformed multicall arguments")
    checkMulticall route nested call.callee call.value none m spend
  | .transferAndMulticall withMetadata => do
    let (pulls, r) ← okOr (readPulls (Abi.new args))
      (route.refuse "has malformed transferAndMulticall arguments")
    let m ← okOr (readMulticall withMetadata r)
      (route.refuse "has malformed multicall arguments")
    checkMulticall route nested call.callee call.value (some pulls) m spend
  | .forward => do
    let _ ← okOr (Abi.new args).bytesArg (route.refuse "has malformed forward arguments")
    pure spend
termination_by 2 * (5 - route.depth) + 1
decreasing_by all_goals simp only [Route.deeper]; omega

/-- A call nested in a Relay router's multicall, run by the router. -/
def checkNestedCall (call : NestedCall) (route : Route) (flow : Option Flow) :
    Except String (Option Flow) :=
  let want := route.want
  if _h : 1 < route.depth then .error (route.refuse "nests calls within nested calls")
  else if want.isToken call.target then
    checkNestedToken route call flow
  else if want.relayRoles.contains call.target then do
    let _ ← checkRelayCall ⟨call.target, call.data, call.value⟩ route.deeper none
    match flow with
    | none => pure none
    | some flow =>
      if want.relayRoles.depositories.contains call.target &&
          DEPOSIT_ERC20.isPrefixOf call.data then
        chargeDeposit route call.target call.data flow
      else pure (some flow)
  else
    .error (route.refuse
      s!"nests a call to {call.target.lowerHex}, which is neither Relay's nor the payer's token")
termination_by 2 * (5 - route.depth)
decreasing_by all_goals simp only [Route.deeper]; omega

end

end GumServer
