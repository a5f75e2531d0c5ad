import Mathlib.Logic.Function.Basic
import Mathlib.Algebra.BigOperators.Group.Finset.Piecewise
import GumServer.Accepted

/-!
# The wallet that executes a route

What an accepted route is for: a wallet sends its transactions in order, over a standard
ERC-20, and must not lose more than the quoted input. `Ledger` is the token as far as the
payer and Relay's router hold it, `Runs` what a call does to it: calls are read where they
land (`readAct`), and a call that is read as nothing may do anything at all.

`Backed` relates the tab the checks kept to the real allowances. It survives every
transaction, mined or reverted, whatever allowances the wallet had before
(`Backed.sends`), and bounds the wallet's exposure by the tab's at any point of the route.
-/

namespace GumServer

open Checks

/-! ## A standard ERC-20 -/

/-- Whose tokens and allowances matter. -/
inductive Holder : Type where
  /-- the wallet that pays -/
  | payer
  /-- Relay's router, which runs nested calls -/
  | router
deriving DecidableEq

/-- The origin token, and the wei the wallet has sent. -/
structure Ledger where
  balance : Holder → ℕ
  allowance : Holder → Address → ℕ
  /-- tokens that have left the wallet -/
  left : ℕ
  /-- spenders the wallet has approved -/
  approved : Finset Address
  /-- wei the wallet has sent -/
  native : ℕ

namespace Ledger

/-- An allowance is written. -/
def setAllowance (s : Ledger) (h : Holder) (spender : Address) (n : ℕ) : Ledger :=
  { s with allowance := Function.update s.allowance h (Function.update (s.allowance h) spender n) }

/-- `approve` overwrites the allowance. -/
def approve (s : Ledger) (h : Holder) (spender : Address) (n : ℕ) : Ledger :=
  { s.setAllowance h spender n with
    approved := if h = .payer then insert spender s.approved else s.approved }

/-- Tokens move out of a holder's balance, to another holder's or elsewhere. -/
def move (s : Ledger) (h : Holder) (dest : Option Holder) (n : ℕ) : Option Ledger :=
  if n ≤ s.balance h then
    let out := Function.update s.balance h (s.balance h - n)
    some { s with
      balance := match dest with
        | none => out
        | some g => Function.update out g (out g + n)
      left := if h = .payer then s.left + n else s.left }
  else none

/-- `transferFrom` draws the holder's allowance to the spender down. -/
def draw (s : Ledger) (h : Holder) (spender : Address) (dest : Option Holder) (n : ℕ) :
    Option Ledger :=
  if n ≤ s.allowance h spender then
    (s.setAllowance h spender (s.allowance h spender - n)).move h dest n
  else none

/-- Several draws by one spender into the router, all or none. -/
def drawAll (h : Holder) (spender : Address) : List U256 → Ledger → Option Ledger
  | [], s => some s
  | n :: rest, s => (s.draw h spender (some .router) n.val).bind (drawAll h spender rest)

end Ledger

/-- The amounts pulled in one token. -/
def Pulls.amountsOf (p : Pulls) (token : Address) : List U256 :=
  (p.tokens.zip p.amounts).filterMap fun e => if e.1 = token then some e.2 else none

mutual

/-- What a call by this holder, with these bytes at this address, may do when it succeeds. -/
inductive Runs (want : Expected) : Holder → Address → List UInt8 → Ledger → Ledger → Prop where
  /-- a call that is not understood may do anything -/
  | unread {h : Holder} {callee : Address} {data : List UInt8} {s s' : Ledger}
      (reads : readAct want callee data = none) : Runs want h callee data s s'
  /-- `approve` -/
  | approve {h : Holder} {callee : Address} {data : List UInt8} {s : Ledger} {spender : Address}
      {n : U256} (reads : readAct want callee data = some (.approve spender n)) :
      Runs want h callee data s (s.approve h spender n.val)
  /-- `transfer`, wherever the tokens end up -/
  | transfer {h : Holder} {callee : Address} {data : List UInt8} {s s' : Ledger}
      {recipient : Address} {n : U256} {dest : Option Holder}
      (reads : readAct want callee data = some (.transfer recipient n))
      (moves : s.move h dest n.val = some s') : Runs want h callee data s s'
  /-- `depositErc20` of the token: the depository draws the caller's allowance to it -/
  | deposit {h : Holder} {callee : Address} {data : List UInt8} {s s' : Ledger}
      {d : DepositErc20} (reads : readAct want callee data = some (.relay (.depositErc20 d)))
      (token : d.token = want.originCurrency)
      (draws : s.draw h callee none d.amount.val = some s') : Runs want h callee data s s'
  /-- `depositErc20` of another token -/
  | depositOther {h : Holder} {callee : Address} {data : List UInt8} {s : Ledger}
      {d : DepositErc20} (reads : readAct want callee data = some (.relay (.depositErc20 d)))
      (token : d.token ≠ want.originCurrency) : Runs want h callee data s s
  /-- `depositErc20` by the whole allowance -/
  | depositAll {h : Holder} {callee : Address} {data : List UInt8} {s s' : Ledger}
      (reads : readAct want callee data = some (.relay .depositErc20All))
      (draws : s.draw h callee none (s.allowance h callee) = some s') :
      Runs want h callee data s s'
  /-- `depositNative` moves no token -/
  | depositNative {h : Holder} {callee : Address} {data : List UInt8} {s : Ledger}
      {d : DepositNative} (reads : readAct want callee data = some (.relay (.depositNative d))) :
      Runs want h callee data s s
  /-- `forward` moves no token -/
  | forward {h : Holder} {callee : Address} {data : List UInt8} {s : Ledger}
      (reads : readAct want callee data = some (.relay .forward)) : Runs want h callee data s s
  /-- `multicall`: the router runs the nested calls -/
  | multicall {h : Holder} {callee : Address} {data : List UInt8} {s s' : Ledger} {m : Multicall}
      (reads : readAct want callee data = some (.relay (.multicall m)))
      (runs : RunsAll want m.calls s s') : Runs want h callee data s s'
  /-- `transferAndMulticall`: the proxy draws the caller's allowance to it into the router,
  which runs the nested calls -/
  | transferAndMulticall {h : Holder} {callee : Address} {data : List UInt8}
      {s mid s' : Ledger} {p : Pulls} {m : Multicall}
      (reads : readAct want callee data = some (.relay (.transferAndMulticall p m)))
      (draws : Ledger.drawAll h callee (p.amountsOf want.originCurrency) s = some mid)
      (runs : RunsAll want m.calls mid s') : Runs want h callee data s s'

/-- Nested calls, run by the router one after the other. -/
inductive RunsAll (want : Expected) : List NestedCall → Ledger → Ledger → Prop where
  /-- nothing to run -/
  | nil {s : Ledger} : RunsAll want [] s s
  /-- the first one, then the rest -/
  | cons {n : NestedCall} {rest : List NestedCall} {s mid s' : Ledger}
      (run : Runs want .router n.target n.data s mid) (runs : RunsAll want rest mid s') :
      RunsAll want (n :: rest) s s'
  /-- the first one failed, and was allowed to -/
  | skip {n : NestedCall} {rest : List NestedCall} {s s' : Ledger}
      (allowed : n.allowFailure = true) (runs : RunsAll want rest s s') :
      RunsAll want (n :: rest) s s'

end

/-- The wallet sends one step of a route, read back from its texts: it is mined, with its
value, or it reverts. -/
inductive Sends (lib : Crates) (want : Expected) (step : RouteStep) : Ledger → Ledger → Prop where
  /-- no effect at all -/
  | reverted {s : Ledger} : Sends lib want step s s
  /-- the call ran -/
  | mined {s s' : Ledger} {callee : Address} {calldata : List UInt8} {wei : U256}
      (reads : lib.parseAddress step.callee = some callee ∧
        lib.parseBytes step.data = some calldata ∧ baseUnits lib (some step.value) = some wei)
      (run : Runs want .payer callee calldata s s') :
      Sends lib want step s { s' with native := s.native + wei.val }

/-- Steps sent in order. -/
inductive SendsAll (lib : Crates) (want : Expected) : List RouteStep → Ledger → Ledger → Prop where
  /-- nothing to send -/
  | nil {s : Ledger} : SendsAll lib want [] s s
  /-- the first one, then the rest -/
  | cons {step : RouteStep} {rest : List RouteStep} {s mid s' : Ledger}
      (send : Sends lib want step s mid) (sends : SendsAll lib want rest mid s') :
      SendsAll lib want (step :: rest) s s'

/-! ## Frames

What a holder's operation leaves alone, and what it does to the two numbers that are
bounded below. -/

namespace Ledger

/-- The wallet's side of the ledger is untouched. -/
structure SamePayer (s s' : Ledger) : Prop where
  left : s'.left = s.left
  approved : s'.approved = s.approved
  allowance : s'.allowance .payer = s.allowance .payer

variable {s s' s'' : Ledger} {spender k : Address} {dest : Option Holder} {n : ℕ}

theorem SamePayer.refl (s : Ledger) : SamePayer s s := ⟨rfl, rfl, rfl⟩

theorem SamePayer.trans (h₁ : SamePayer s s') (h₂ : SamePayer s' s'') : SamePayer s s'' :=
  ⟨h₂.left.trans h₁.left, h₂.approved.trans h₁.approved, h₂.allowance.trans h₁.allowance⟩

theorem move_eq_some {h : Holder} : s.move h dest n = some s' ↔ n ≤ s.balance h ∧
    s' = { s with
      balance := match dest with
        | none => Function.update s.balance h (s.balance h - n)
        | some g => Function.update (Function.update s.balance h (s.balance h - n)) g
            (Function.update s.balance h (s.balance h - n) g + n)
      left := if h = .payer then s.left + n else s.left } := by
  rw [move]
  split
  · next hle => simp [hle, eq_comm]
  · next hle => simp [hle]

theorem draw_eq_some {h : Holder} : s.draw h spender dest n = some s' ↔
    n ≤ s.allowance h spender ∧
      (s.setAllowance h spender (s.allowance h spender - n)).move h dest n = some s' := by
  rw [draw]
  split
  · next hle => simp [hle]
  · next hle => simp [hle]

theorem setAllowance_self (s : Ledger) (h : Holder) (spender : Address) (n : ℕ) (k : Address) :
    (s.setAllowance h spender n).allowance h k =
    if k = spender then n else s.allowance h k := by
  rw [setAllowance]
  dsimp only
  rw [Function.update_self, Function.update_apply]

theorem setAllowance_router_payer (s : Ledger) (spender : Address) (n : ℕ) :
    (s.setAllowance .router spender n).allowance .payer = s.allowance .payer := by
  rw [setAllowance]
  dsimp only
  rw [Function.update_of_ne (by decide)]

theorem samePayer_approve_router : SamePayer s (s.approve .router spender n) :=
  ⟨rfl, rfl, setAllowance_router_payer s spender n⟩

theorem samePayer_move_router (h : s.move .router dest n = some s') : SamePayer s s' := by
  obtain ⟨-, rfl⟩ := move_eq_some.mp h
  exact ⟨rfl, rfl, rfl⟩

theorem samePayer_draw_router (h : s.draw .router spender dest n = some s') : SamePayer s s' := by
  obtain ⟨-, hmove⟩ := draw_eq_some.mp h
  have hset : SamePayer s (s.setAllowance .router spender (s.allowance .router spender - n)) :=
    ⟨rfl, rfl, setAllowance_router_payer _ _ _⟩
  exact hset.trans (samePayer_move_router hmove)

/-- A draw on the wallet: the tokens leave, and the spender's allowance is less by them. -/
theorem draw_payer (h : s.draw .payer spender dest n = some s') :
    s'.left = s.left + n ∧ s'.approved = s.approved ∧ n ≤ s.allowance .payer spender ∧
      ∀ k, s'.allowance .payer k =
        if k = spender then s.allowance .payer k - n else s.allowance .payer k := by
  obtain ⟨hle, hmove⟩ := draw_eq_some.mp h
  obtain ⟨-, rfl⟩ := move_eq_some.mp hmove
  refine ⟨rfl, rfl, hle, fun k => ?_⟩
  dsimp only
  rw [setAllowance_self]
  split
  · next hk => rw [hk]
  · rfl

/-- A draw into the router credits it. -/
theorem balance_draw_payer (h : s.draw .payer spender (some .router) n = some s') :
    s'.balance .router = s.balance .router + n := by
  obtain ⟨-, hmove⟩ := draw_eq_some.mp h
  obtain ⟨-, rfl⟩ := move_eq_some.mp hmove
  dsimp only
  rw [Function.update_self, Function.update_of_ne (by decide)]
  rfl

/-- A draw out of the router debits it. -/
theorem balance_draw_router (h : s.draw .router spender none n = some s') :
    s'.balance .router + n = s.balance .router := by
  obtain ⟨-, hmove⟩ := draw_eq_some.mp h
  obtain ⟨hle, rfl⟩ := move_eq_some.mp hmove
  dsimp only
  rw [Function.update_self]
  exact Nat.sub_add_cancel hle

end Ledger

/-- Everything pulled is in the one token, when every token is that one. -/
theorem Pulls.amountsOf_eq {p : Pulls} {token : Address}
    (htokens : ∀ t ∈ p.tokens, t = token) (hlen : p.tokens.length = p.amounts.length) :
    p.amountsOf token = p.amounts := by
  obtain ⟨tokens, amounts⟩ := p
  rw [Pulls.amountsOf]
  dsimp only at htokens hlen ⊢
  induction tokens generalizing amounts with
  | nil =>
    obtain rfl := List.length_eq_zero_iff.mp hlen.symm
    rfl
  | cons t tokens ih =>
    obtain ⟨n, amounts, rfl⟩ := List.exists_cons_of_length_eq_add_one hlen.symm
    have ht := htokens t List.mem_cons_self
    rw [List.zip_cons_cons, List.filterMap_cons, if_pos ht]
    rw [ih _ (fun t' h' => htokens t' (List.mem_cons_of_mem _ h')) (Nat.succ.inj hlen)]

/-! ## Calls that are read do what they say -/

section Reads

variable {want : Expected} {h : Holder} {callee : Address} {data : List UInt8} {s s' : Ledger}

theorem Runs.approve_inv {spender : Address} {n : U256}
    (hread : readAct want callee data = some (.approve spender n))
    (hrun : Runs want h callee data s s') : s' = s.approve h spender n.val := by
  cases hrun <;> simp_all

theorem Runs.transfer_inv {recipient : Address} {n : U256}
    (hread : readAct want callee data = some (.transfer recipient n))
    (hrun : Runs want h callee data s s') : ∃ dest, s.move h dest n.val = some s' := by
  cases hrun <;> simp_all
  exact ⟨_, ‹_›⟩

theorem Runs.deposit_inv {d : DepositErc20}
    (hread : readAct want callee data = some (.relay (.depositErc20 d)))
    (htoken : d.token = want.originCurrency) (hrun : Runs want h callee data s s') :
    s.draw h callee none d.amount.val = some s' := by
  cases hrun <;> simp_all

theorem Runs.depositNative_inv {d : DepositNative}
    (hread : readAct want callee data = some (.relay (.depositNative d)))
    (hrun : Runs want h callee data s s') : s' = s := by
  cases hrun <;> simp_all

theorem Runs.forward_inv (hread : readAct want callee data = some (.relay .forward))
    (hrun : Runs want h callee data s s') : s' = s := by
  cases hrun <;> simp_all

theorem Runs.multicall_inv {m : Multicall}
    (hread : readAct want callee data = some (.relay (.multicall m)))
    (hrun : Runs want h callee data s s') : RunsAll want m.calls s s' := by
  cases hrun <;> simp_all

theorem Runs.transferAndMulticall_inv {p : Pulls} {m : Multicall}
    (hread : readAct want callee data = some (.relay (.transferAndMulticall p m)))
    (hrun : Runs want h callee data s s') :
    ∃ mid, Ledger.drawAll h callee (p.amountsOf want.originCurrency) s = some mid ∧
      RunsAll want m.calls mid s' := by
  cases hrun <;> simp_all

end Reads

/-! ## Nested calls and the wallet -/

section Nested

variable {want : Expected} {s s' : Ledger}

/-- An accepted nested call does not touch the wallet: the router runs it, on the router's
own tokens and allowances. -/
theorem NestedStep.samePayer {n : NestedCall} {flow flow' : Option Flow}
    (hstep : NestedStep want n flow flow') (hrun : Runs want .router n.target n.data s s') :
    s.SamePayer s' := by
  cases hstep with
  | approve reads =>
    obtain rfl := hrun.approve_inv reads
    exact Ledger.samePayer_approve_router
  | transfer reads =>
    obtain ⟨dest, hmove⟩ := hrun.transfer_inv reads
    exact Ledger.samePayer_move_router hmove
  | deposit reads token =>
    exact Ledger.samePayer_draw_router (hrun.deposit_inv reads token)
  | depositNative reads =>
    obtain rfl := hrun.depositNative_inv reads
    exact .refl s'
  | forward reads =>
    obtain rfl := hrun.forward_inv reads
    exact .refl s'
  | multicall reads empty =>
    have hruns := hrun.multicall_inv reads
    rw [empty] at hruns
    cases hruns
    exact .refl _

theorem NestedRun.samePayer {calls : List NestedCall} {flow flow' : Option Flow}
    (hnested : NestedRun want calls flow flow') (hruns : RunsAll want calls s s') :
    s.SamePayer s' := by
  induction hnested generalizing s with
  | nil =>
    cases hruns
    exact .refl _
  | cons _ step _ ih =>
    cases hruns with
    | cons run runs => exact (step.samePayer run).trans (ih runs)
    | skip _ runs => exact ih runs

end Nested

/-! ## The tab and the real allowances -/

/-- The tab backs the ledger: what left the wallet, and what its approved spenders may draw
beyond what the tab tracks for them, has all been counted as moved. -/
def Backed (spend : Spend) (s : Ledger) : Prop :=
  s.left + ∑ k ∈ s.approved, (s.allowance .payer k - spend.tracked k) ≤ spend.pulled.val

/-- What the wallet has lost or stands to lose. -/
def Ledger.exposure (s : Ledger) : ℕ := s.left + ∑ k ∈ s.approved, s.allowance .payer k

section Backed

variable {spend spend' : Spend} {s s' : Ledger} {spender : Address} {amount : U256}

/-- **The bound**: a backed ledger is exposed to no more than the tab adds up to. -/
theorem Backed.exposure_le (h : Backed spend s) : s.exposure ≤ spend.bound := by
  have htracked : ∑ k ∈ s.approved, spend.tracked k ≤ spend.allowances.total Fin.val :=
    KeyMap.sum_le_total Fin.val spend.allowances s.approved fun _ _ => Nat.le_refl _
  have hsplit : ∑ k ∈ s.approved, s.allowance .payer k ≤
      ∑ k ∈ s.approved, ((s.allowance .payer k - spend.tracked k) + spend.tracked k) :=
    Finset.sum_le_sum fun k _ => by omega
  rw [Finset.sum_add_distrib] at hsplit
  rw [Backed] at h
  rw [Ledger.exposure, Spend.bound]
  omega

theorem Backed.samePayer (h : Backed spend s) (hsame : s.SamePayer s') : Backed spend s' := by
  rw [Backed]
  rw [hsame.left, hsame.approved, hsame.allowance]
  exact h

/-- An approval that did not happen only makes the tab larger. -/
theorem Backed.grant (h : Backed spend s) : Backed (spend.grant spender amount) s := by
  refine Nat.le_trans (Nat.add_le_add_left (Finset.sum_le_sum fun k _ => ?_) _) h
  rw [Spend.tracked_grant]
  split
  · next hk =>
    subst hk
    omega
  · exact Nat.le_refl _

/-- An approval: the spender may now draw no more than the tab tracks for it. -/
theorem Backed.approve (h : Backed spend s) :
    Backed (spend.grant spender amount) (s.approve .payer spender amount.val) := by
  have hnew : (s.approve .payer spender amount.val).allowance .payer spender -
      (spend.grant spender amount).tracked spender = 0 := by
    rw [Spend.tracked_grant, if_pos rfl]
    have hself := Ledger.setAllowance_self s .payer spender amount.val spender
    rw [if_pos rfl] at hself
    rw [Ledger.approve]
    dsimp only
    omega
  have hold : ∀ k ∈ s.approved, (s.approve .payer spender amount.val).allowance .payer k -
      (spend.grant spender amount).tracked k ≤ s.allowance .payer k - spend.tracked k := by
    intro k _
    by_cases hk : k = spender
    · subst hk
      rw [hnew]
      exact Nat.zero_le _
    · have hother := Ledger.setAllowance_self s .payer spender amount.val k
      rw [if_neg hk] at hother
      rw [Spend.tracked_grant, if_neg hk]
      rw [Ledger.approve]
      dsimp only
      omega
  have hsum : ∑ k ∈ insert spender s.approved,
      ((s.approve .payer spender amount.val).allowance .payer k -
        (spend.grant spender amount).tracked k) ≤
      ∑ k ∈ s.approved, (s.allowance .payer k - spend.tracked k) := by
    by_cases hmem : spender ∈ s.approved
    · rw [Finset.insert_eq_of_mem hmem]
      exact Finset.sum_le_sum hold
    · rw [Finset.sum_insert hmem, hnew, Nat.zero_add]
      exact Finset.sum_le_sum hold
  exact Nat.le_trans (Nat.add_le_add_left hsum _) h

/-- A transfer, whether or not the tokens moved. -/
theorem Backed.transfer (h : Backed spend s) (hspend : spend.transfer amount = .ok spend')
    (hmove : s' = s ∨ ∃ dest, s.move .payer dest amount.val = some s') : Backed spend' s' := by
  obtain ⟨hpulled, hallow⟩ := Spend.transfer_eq_ok hspend
  have htracked : ∀ k, spend'.tracked k = spend.tracked k := by
    intro k
    rw [Spend.tracked, hallow, Spend.tracked]
  rw [Backed] at h ⊢
  simp only [htracked]
  rcases hmove with rfl | ⟨dest, hmove⟩
  · omega
  · obtain ⟨-, rfl⟩ := Ledger.move_eq_some.mp hmove
    dsimp only
    rw [if_pos rfl]
    omega

/-- A draw-down that did not happen: what stops being tracked has been counted as moved. -/
theorem Backed.pull (h : Backed spend s) (hspend : spend.pull spender amount = .ok spend') :
    Backed spend' s := by
  obtain ⟨hpulled, htracked⟩ := Spend.pull_eq_ok hspend
  have hle : ∑ k ∈ s.approved, (s.allowance .payer k - spend'.tracked k) ≤
      ∑ k ∈ s.approved, ((s.allowance .payer k - spend.tracked k) +
        if k = spender then amount.val else 0) := by
    refine Finset.sum_le_sum fun k _ => ?_
    rw [htracked]
    split
    · omega
    · omega
  have hone : ∑ k ∈ s.approved, (if k = spender then amount.val else 0) ≤ amount.val := by
    rw [Finset.sum_ite_eq']
    split
    · exact Nat.le_refl _
    · exact Nat.zero_le _
  rw [Finset.sum_add_distrib] at hle
  rw [Backed] at h ⊢
  omega

/-- A draw-down: it leaves the wallet, and comes off the allowance and off the tab alike. -/
theorem Backed.draw {dest : Option Holder} (h : Backed spend s)
    (hspend : spend.pull spender amount = .ok spend')
    (hdraw : s.draw .payer spender dest amount.val = some s') : Backed spend' s' := by
  obtain ⟨hpulled, htracked⟩ := Spend.pull_eq_ok hspend
  obtain ⟨hleft, happroved, hle, hallow⟩ := Ledger.draw_payer hdraw
  have hsum : ∑ k ∈ s.approved, (s'.allowance .payer k - spend'.tracked k) ≤
      ∑ k ∈ s.approved, (s.allowance .payer k - spend.tracked k) := by
    refine Finset.sum_le_sum fun k _ => ?_
    rw [htracked, hallow]
    split
    · omega
    · exact Nat.le_refl _
  rw [Backed] at h ⊢
  rw [hleft, happroved, hpulled]
  omega

theorem Backed.pullRun {amounts : List U256} (h : Backed spend s)
    (hrun : PullRun spender amounts spend spend') : Backed spend' s := by
  induction hrun with
  | nil => exact h
  | cons step _ ih => exact ih (h.pull step)

theorem Backed.drawAll {amounts : List U256} (h : Backed spend s)
    (hrun : PullRun spender amounts spend spend')
    (hdraws : Ledger.drawAll .payer spender amounts s = some s') : Backed spend' s' := by
  induction hrun generalizing s with
  | nil =>
    obtain rfl := Option.some.inj hdraws
    exact h
  | cons step _ ih =>
    obtain ⟨mid, hdraw, hrest⟩ := Option.bind_eq_some_iff.mp hdraws
    exact ih (h.draw step hdraw) hrest

end Backed

/-! ## One transaction -/

section Step

variable {want : Expected} {callee : Address} {calldata : List UInt8} {spend spend' : Spend}
  {s s' : Ledger}

/-- A transaction that reverts is backed too: the tab has counted it, the ledger has not. -/
theorem WalletStep.backed_reverted (hstep : WalletStep want callee calldata spend spend')
    (h : Backed spend s) : Backed spend' s := by
  cases hstep with
  | approve _ => exact h.grant
  | transfer _ effect => exact h.transfer effect (.inl rfl)
  | deposit _ _ effect => exact h.pull effect
  | depositNative _ => exact h
  | forward _ => exact h
  | multicall _ _ => exact h
  | transferAndMulticall _ _ _ effect => exact h.pullRun effect

/-- **One transaction** of an accepted route keeps the ledger backed by the tab. -/
theorem WalletStep.backed_mined (hstep : WalletStep want callee calldata spend spend')
    (hrun : Runs want .payer callee calldata s s') (h : Backed spend s) : Backed spend' s' := by
  cases hstep with
  | approve reads =>
    obtain rfl := hrun.approve_inv reads
    exact h.approve
  | transfer reads effect =>
    exact h.transfer effect (.inr (hrun.transfer_inv reads))
  | deposit reads token effect => exact h.draw effect (hrun.deposit_inv reads token)
  | depositNative reads =>
    obtain rfl := hrun.depositNative_inv reads
    exact h
  | forward reads =>
    obtain rfl := hrun.forward_inv reads
    exact h
  | multicall reads run => exact h.samePayer (run.samePayer (hrun.multicall_inv reads))
  | transferAndMulticall reads tokens lengths effect run _ =>
    obtain ⟨mid, hdraws, hruns⟩ := hrun.transferAndMulticall_inv reads
    rw [Pulls.amountsOf_eq tokens lengths] at hdraws
    exact (h.drawAll effect hdraws).samePayer (run.samePayer hruns)

theorem PullRun.bound_le {spender : Address} {amounts : List U256}
    (hrun : PullRun spender amounts spend spend') : spend.bound ≤ spend'.bound := by
  induction hrun with
  | nil => exact Nat.le_refl _
  | cons step _ ih => exact (Spend.bound_le_pull step).trans ih

/-- The tab only grows along a route. -/
theorem WalletStep.bound_le (hstep : WalletStep want callee calldata spend spend') :
    spend.bound ≤ spend'.bound := by
  cases hstep with
  | approve _ => exact Spend.bound_le_grant
  | transfer _ effect => exact Spend.bound_le_transfer effect
  | deposit _ _ effect => exact Spend.bound_le_pull effect
  | depositNative _ => exact Nat.le_refl _
  | forward _ => exact Nat.le_refl _
  | multicall _ _ => exact Nat.le_refl _
  | transferAndMulticall _ _ _ effect => exact effect.bound_le

end Step

/-- A wallet before the route, with any balance and any allowances it had before. -/
structure Ledger.Fresh (s : Ledger) : Prop where
  left : s.left = 0
  approved : s.approved = ∅
  native : s.native = 0

/-! ## The route -/

section Route

variable {lib : Crates} {want : Expected} {inputAmount : U256}

/-- A step of the route, as the wallet reads it back, is the transaction that was checked. -/
structure Checked (lib : Crates) (want : Expected) (st : RouteStep) (spend spend' : Spend) :
    Prop where
  reads : ∃ callee calldata, lib.parseAddress st.callee = some callee ∧
    lib.parseBytes st.data = some calldata ∧ WalletStep want callee calldata spend spend'

/-- The steps of a route with the tab between them. -/
inductive CheckedRun (lib : Crates) (want : Expected) : List RouteStep → Spend → Spend → Prop where
  /-- no steps -/
  | nil {spend : Spend} : CheckedRun lib want [] spend spend
  /-- the first one, then the rest -/
  | cons {st : RouteStep} {rest : List RouteStep} {spend mid spend' : Spend}
      (step : Checked lib want st spend mid) (run : CheckedRun lib want rest mid spend') :
      CheckedRun lib want (st :: rest) spend spend'

theorem CheckedRun.append {l₁ l₂ : List RouteStep} {a b c : Spend}
    (h₁ : CheckedRun lib want l₁ a b) (h₂ : CheckedRun lib want l₂ b c) :
    CheckedRun lib want (l₁ ++ l₂) a c := by
  induction h₁ with
  | nil => exact h₂
  | cons step _ ih => exact .cons step (ih h₂)

/-- The calldata goes out in lowercase, and reads back as the bytes that were checked. -/
theorem parseBytes_lowercase {calldata : String} {bytes : List UInt8}
    (h : stepCalldata lib calldata = some bytes) :
    lib.parseBytes (toAsciiLowercase calldata) = some bytes := by
  obtain ⟨cs, hcs, hbytes⟩ := stepCalldata_eq_some.mp h
  have hlower : toAsciiLowercase calldata =
      String.ofList ('0' :: 'x' :: cs.map Char.toLower) := by
    rw [toAsciiLowercase, hcs]
    rfl
  rw [hlower]
  exact lib.parseBytes_hex (by rw [unhex_map_toLower, hbytes])

theorem checkStep_checked {id description : String} {data : Value} {spend spend' : Spend}
    {st : RouteStep}
    (h : checkStep lib id description data want inputAmount spend = .ok (st, spend')) :
    Checked lib want st spend spend' := by
  obtain ⟨-, -, callee, calldata, value, hspells, hcall, rfl⟩ := checkStep_ok.mp h
  exact ⟨callee, calldata, lib.parseAddress_lowerHex callee,
    parseBytes_lowercase hspells.calldata, checkCall_step hcall⟩

/-- The loop has appended steps it checked, with the tab between them. -/
def Progress.Extends (lib : Crates) (want : Expected) (x y : Progress) : Prop :=
  ∃ new, y.steps = x.steps ++ new ∧ CheckedRun lib want new x.spend y.spend

theorem Progress.Extends.refl (x : Progress) : x.Extends lib want x :=
  ⟨[], (List.append_nil _).symm, .nil⟩

theorem Progress.Extends.trans {x y z : Progress} (h₁ : x.Extends lib want y)
    (h₂ : y.Extends lib want z) : x.Extends lib want z := by
  obtain ⟨new₁, hy, hrun₁⟩ := h₁
  obtain ⟨new₂, hz, hrun₂⟩ := h₂
  exact ⟨new₁ ++ new₂, by rw [hz, hy, List.append_assoc], hrun₁.append hrun₂⟩

theorem checkItem_extends {step : QuoteStep} {acc acc' : Progress} {item : Value}
    (h : checkItem lib want inputAmount step acc item = .ok acc') : acc.Extends lib want acc' := by
  obtain ⟨-, h⟩ := refuseIf_bind_eq_ok.mp h
  obtain ⟨⟨st, spend⟩, hchecked, h⟩ := bind_eq_ok.mp h
  obtain rfl := pure_eq_ok.mp h
  exact ⟨[st], rfl, .cons (checkStep_checked hchecked) .nil⟩

theorem checkItems_extends {step : QuoteStep} {acc acc' : Progress}
    (h : checkItems lib want inputAmount acc step = .ok acc') : acc.Extends lib want acc' := by
  obtain ⟨-, h⟩ := refuseIf_bind_eq_ok.mp h
  exact each_rel (R := Progress.Extends lib want) .refl .trans checkItem_extends h

/-- The steps of an accepted quote, with the tab from nothing to what is held against the
quoted input. -/
theorem Accepted.run {quote : Quote} {done : Progress}
    (h : Accepted lib quote want inputAmount done) :
    CheckedRun lib want done.steps Spend.new done.spend := by
  obtain ⟨new, hnew, hrun⟩ :=
    each_rel (R := Progress.Extends lib want) .refl .trans checkItems_extends h.items
  rw [List.nil_append] at hnew
  rw [hnew]
  exact hrun

theorem CheckedRun.bound_le {steps : List RouteStep} {spend spend' : Spend}
    (hrun : CheckedRun lib want steps spend spend') : spend.bound ≤ spend'.bound := by
  induction hrun with
  | nil => exact Nat.le_refl _
  | cons step _ ih =>
    obtain ⟨_, _, -, -, hstep⟩ := step.reads
    exact hstep.bound_le.trans ih

/-- One transaction of the wallet, mined or reverted, keeps the ledger backed. -/
theorem Backed.sends {st : RouteStep} {spend spend' : Spend} {s s' : Ledger}
    (h : Backed spend s) (hchecked : Checked lib want st spend spend')
    (hsend : Sends lib want st s s') : Backed spend' s' := by
  obtain ⟨callee, calldata, hcallee, hcalldata, hstep⟩ := hchecked.reads
  cases hsend with
  | reverted => exact hstep.backed_reverted h
  | mined reads run =>
    obtain ⟨hcallee', hcalldata', -⟩ := reads
    obtain rfl := Option.some.inj (hcallee.symm.trans hcallee')
    obtain rfl := Option.some.inj (hcalldata.symm.trans hcalldata')
    have hmined := hstep.backed_mined run h
    exact hmined

/-- **A run** of the wallet over a prefix of the route is backed by the tab at that point,
which is no more than the tab at the end. -/
theorem CheckedRun.backed {steps pre : List RouteStep} {spend spend' : Spend} {s s' : Ledger}
    (hrun : CheckedRun lib want steps spend spend') (hpre : pre <+: steps)
    (hsends : SendsAll lib want pre s s') (h : Backed spend s) :
    ∃ mid : Spend, Backed mid s' ∧ mid.bound ≤ spend'.bound := by
  induction hrun generalizing pre s with
  | nil =>
    obtain rfl := List.prefix_nil.mp hpre
    cases hsends
    exact ⟨_, h, Nat.le_refl _⟩
  | cons step run ih =>
    cases hsends with
    | nil => exact ⟨_, h, (CheckedRun.cons step run).bound_le⟩
    | cons send sends =>
      obtain ⟨rfl, hrest⟩ := List.cons_prefix_cons.mp hpre
      exact ih hrest sends (h.sends step send)

/-- The wei a step counts for. -/
def RouteStep.wei (lib : Crates) (st : RouteStep) : ℕ :=
  ((baseUnits lib (some st.value)).getD U256.MAX).val

theorem addValue_sum {steps : List RouteStep} {acc out : U256}
    (h : each (addValue lib) steps acc = .ok out) :
    out.val = acc.val + (steps.map (RouteStep.wei lib)).sum := by
  induction steps generalizing acc with
  | nil =>
    obtain rfl := Except.ok.inj h
    rfl
  | cons st steps ih =>
    obtain ⟨mid, hst, hrest⟩ := each_cons_eq_ok.mp h
    have hadd := checkedAdd_eq_some.mp (okOr_eq_ok.mp hst)
    rw [ih hrest, hadd, List.map_cons, List.sum_cons, RouteStep.wei]
    exact Nat.add_assoc _ _ _

/-- The wallet sends no more wei than its steps count for. -/
theorem SendsAll.native_le {pre : List RouteStep} {s s' : Ledger}
    (h : SendsAll lib want pre s s') :
    s'.native ≤ s.native + (pre.map (RouteStep.wei lib)).sum := by
  induction h with
  | nil => exact Nat.le_refl _
  | @cons step rest s mid s' send _ ih =>
    have hmid : mid.native ≤ s.native + step.wei lib := by
      cases send with
      | reverted => exact Nat.le_add_right _ _
      | mined reads _ =>
        rw [RouteStep.wei, reads.2.2]
        exact Nat.le_refl _
    rw [List.map_cons, List.sum_cons]
    omega

/-- **The wallet's exposure**: at any point of an accepted route, with any allowances it had
before, what has left the wallet and what its approved spenders may still draw is at most the
quoted input; and it has sent no wei for a token, at most the quoted input otherwise. -/
theorem accepted_route_exposure_le {quotedAt : String} {quote : Quote} {rq : RouteQuote}
    {pre : List RouteStep} {s s' : Ledger}
    (haccepted : checkQuote lib quotedAt quote want = .ok rq)
    (hinput : baseUnits lib (some quote.details.currencyIn.amount) = some inputAmount)
    (hpre : pre <+: rq.steps) (hfresh : s.Fresh) (hsends : SendsAll lib want pre s s') :
    s'.left + ∑ k ∈ s'.approved, s'.allowance .payer k ≤ inputAmount.val ∧
      (want.originCurrency ≠ 0 → s'.native = 0) ∧
      (want.originCurrency = 0 → s'.native ≤ inputAmount.val) := by
  obtain ⟨input, done, hacc, hsteps⟩ := checkQuote_ok haccepted
  obtain ⟨-, -, hinput'⟩ := checkDetails_ok hacc.details
  obtain rfl := Option.some.inj (hinput'.symm.trans hinput)
  rw [hsteps] at hpre
  have hbacked : Backed Spend.new s := by
    rw [Backed]
    rw [hfresh.left, hfresh.approved, Finset.sum_empty]
    exact Nat.zero_le _
  obtain ⟨mid, hmid, hle⟩ := hacc.run.backed hpre hsends hbacked
  obtain ⟨taken, htaken, htakenle⟩ := hacc.spend
  obtain ⟨value, hvalue, hvaluele⟩ := hacc.value
  have hnative : s'.native ≤ value.val := by
    calc s'.native ≤ s.native + (pre.map (RouteStep.wei lib)).sum := hsends.native_le
      _ = (pre.map (RouteStep.wei lib)).sum := by rw [hfresh.native, Nat.zero_add]
      _ ≤ (done.steps.map (RouteStep.wei lib)).sum := (hpre.map _).sublist.sum_le_sum (by simp)
      _ = value.val := by
        rw [addValue_sum hvalue]
        exact (Nat.zero_add _).symm
  refine ⟨?_, fun htoken => ?_, fun hzero => ?_⟩
  · calc s'.left + ∑ k ∈ s'.approved, s'.allowance .payer k
        ≤ mid.bound := hmid.exposure_le
      _ ≤ done.spend.bound := hle
      _ = taken.val := (Spend.exposure_eq_ok htaken).symm
      _ ≤ input.val := htakenle
  · rw [if_neg htoken] at hvaluele
    exact Nat.le_zero.mp (hnative.trans hvaluele)
  · rw [if_pos hzero] at hvaluele
    exact hnative.trans hvaluele

end Route

/-! ## The sample route, mined -/

namespace Sample

/-- A wallet with enough of the token, and an old allowance to the depository. -/
def before : Ledger where
  balance
    | .payer => 5000
    | .router => 0
  allowance
    | .payer, k => if k = depository then 70 else 0
    | .router, _ => 0
  left := 0
  approved := ∅
  native := 0

/-- After the approval of the proxy. -/
def between : Ledger := before.approve .payer proxy 1000

/-- A sample step is read back by the wallet as the call it was made from. -/
theorem sends_step {id description : String} {callee : Address} {calldata : List UInt8}
    {s s' : Ledger} (hrun : Runs want .payer callee calldata s s') :
    Sends Crates.reference want (step id description callee calldata) s
      { s' with native := s.native + 0 } := by
  have hvalue : baseUnits Crates.reference (some "0") = some 0 := by decide +kernel
  refine @Sends.mined _ _ _ _ _ callee calldata 0 ⟨?_, ?_, hvalue⟩ hrun
  · exact Crates.reference.parseAddress_lowerHex callee
  · exact parseBytes_lowercase (stepCalldata_lowerHex calldata)

theorem reads_approval : readAct want token (approval proxy 1000) =
    some (.approve proxy 1000) := by
  decide +kernel

/-- The calls its pull nests: what was pulled is deposited. -/
def deposits : Multicall where
  calls := [⟨token, false, 0, approval depository 1000⟩, ⟨depository, false, 0, deposit 1000 9⟩]
  refundTo := 0
  nftRecipient := 0

theorem reads_pull : readAct want proxy (pull 1000 9) =
    some (.relay (.transferAndMulticall ⟨[token], [1000]⟩ deposits)) := by
  decide +kernel

theorem reads_deposit : readAct want depository (deposit 1000 9) =
    some (.relay (.depositErc20 ⟨0, token, 1000, Bytes.toBe 32 9⟩)) := by
  decide +kernel

/-- The pull runs through: the proxy draws the payer's allowance into the router, which approves the
depository and deposits. -/
theorem pull_runs : ∃ s', Runs want .payer proxy (pull 1000 9) between s' ∧ s'.left = 1000 ∧
    s'.native = 0 := by
  have hreads : readAct want token (approval depository 1000) = some (.approve depository 1000) := by
    decide +kernel
  obtain ⟨mid, hdraws, hrouter, hleft, hnative⟩ : ∃ mid, between.drawAll .payer proxy
      (Pulls.amountsOf ⟨[token], [1000]⟩ want.originCurrency) = some mid ∧
        mid.balance .router = 1000 ∧ mid.left = 1000 ∧ mid.native = 0 := ⟨_, rfl, rfl, rfl, rfl⟩
  obtain ⟨s', hdeposit, hleft', hnative'⟩ : ∃ s', (mid.approve .router depository 1000).draw .router
      depository none 1000 = some s' ∧ s'.left = mid.left ∧ s'.native = mid.native := by
    simp [Ledger.draw, Ledger.approve, Ledger.setAllowance, Ledger.move, hrouter]
  have hnested : RunsAll want deposits.calls mid s' :=
    .cons (.approve hreads) (.cons (.deposit reads_deposit rfl hdeposit) .nil)
  exact ⟨s', .transferAndMulticall reads_pull hdraws hnested, hleft'.trans hleft,
    hnative'.trans hnative⟩

end Sample

theorem accepted_route_exposure_le_sample :
    ∃ rq, checkQuote Crates.reference "2026-01-01T00:00:00.000Z" (Sample.quote 9) Sample.want =
        .ok rq ∧
      ∃ s', SendsAll Crates.reference Sample.want rq.steps Sample.before s' ∧ s'.left = 1000 ∧
        s'.left + ∑ k ∈ s'.approved, s'.allowance .payer k ≤ 1000 ∧
        (Sample.want.originCurrency ≠ 0 → s'.native = 0) ∧
        (Sample.want.originCurrency = 0 → s'.native ≤ 1000) := by
  obtain ⟨done, hacc, hsteps⟩ := Sample.quote_accepted
  obtain ⟨rq, hrq, hrqsteps⟩ := hacc.checkQuote
  obtain ⟨s', hruns, hleft, -⟩ := Sample.pull_runs
  have hsends : SendsAll Crates.reference Sample.want rq.steps Sample.before
      { s' with native := Sample.between.native + 0 } := by
    rw [hrqsteps, hsteps]
    exact .cons (Sample.sends_step (.approve Sample.reads_approval))
      (.cons (Sample.sends_step hruns) .nil)
  have hinput : baseUnits Crates.reference (some (Sample.quote 9).details.currencyIn.amount) =
      some 1000 := by decide +kernel
  exact ⟨rq, hrq, _, hsends, hleft, accepted_route_exposure_le hrq hinput List.prefix_rfl
    ⟨rfl, rfl, rfl⟩ hsends⟩

end GumServer
