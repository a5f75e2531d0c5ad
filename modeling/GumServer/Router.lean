import GumServer.Wallet

/-!
# Nothing pulled stays in the router

A `transferAndMulticall` moves the payer's tokens into Relay's router, where anyone could
sweep what its nested calls leave behind. `Conserved` is what an accepted one guarantees:
the nested deposits add up to exactly what was pulled, each is covered by allowances the
nested calls made before it, every other nested call moves no token, and so the router
holds what it held before whenever the transaction succeeds.

The flow kept by the checks is the running account of both sums (`NestedRun.undrawn`,
`NestedRun.consumed`).
-/

namespace GumServer

open Checks

/-! ## What nested calls add up to -/

/-- The allowance a nested call gives this spender. -/
def NestedCall.approves (want : Expected) (k : Address) (n : NestedCall) : ℕ :=
  match readAct want n.target n.data with
  | some (.approve spender amount) => if spender = k then amount.val else 0
  | _ => 0

/-- The tokens a nested call deposits. -/
def NestedCall.deposits (want : Expected) (n : NestedCall) : ℕ :=
  match readAct want n.target n.data with
  | some (.relay (.depositErc20 d)) => d.amount.val
  | _ => 0

/-- Everything these calls approve for one spender. -/
def approvedTo (want : Expected) (k : Address) (calls : List NestedCall) : ℕ :=
  (calls.map (NestedCall.approves want k)).sum

/-- Everything these calls deposit. -/
def deposited (want : Expected) (calls : List NestedCall) : ℕ :=
  (calls.map (NestedCall.deposits want)).sum

/-- Everything these calls deposit at one depository. -/
def depositedAt (want : Expected) (k : Address) (calls : List NestedCall) : ℕ :=
  deposited want (calls.filter fun n => n.target = k)

/-- A nested call that moves no token: an allowance to a contract that may hold one, a
native deposit, value forwarded, or a multicall that runs nothing. -/
def MovesNothing (want : Expected) (n : NestedCall) : Prop :=
  (∃ spender amount, readAct want n.target n.data = some (.approve spender amount) ∧
    want.relayRoles.mayHoldAllowance spender = true) ∨
  (∃ d, readAct want n.target n.data = some (.relay (.depositNative d))) ∨
  readAct want n.target n.data = some (.relay .forward) ∨
  ∃ m, readAct want n.target n.data = some (.relay (.multicall m)) ∧ m.calls = []

section Sums

variable {want : Expected} {k : Address} {n : NestedCall} {before calls : List NestedCall}

theorem approvedTo_concat :
    approvedTo want k (before ++ [n]) = approvedTo want k before + n.approves want k := by
  simp [approvedTo]

theorem deposited_cons :
    deposited want (n :: calls) = n.deposits want + deposited want calls := by
  simp [deposited]

theorem depositedAt_concat :
    depositedAt want k (before ++ [n]) =
      depositedAt want k before + if n.target = k then n.deposits want else 0 := by
  simp only [depositedAt, deposited]
  rw [List.filter_append, List.map_append, List.sum_append]
  by_cases hk : n.target = k
  · simp [hk]
  · simp [hk]

end Sums

/-! ## The flow is the account of both -/

section Flow

variable {want : Expected} {n : NestedCall} {f f' : Flow}

/-- One nested call, on the account. -/
theorem NestedStep.account (hstep : NestedStep want n (some f) (some f')) :
    f'.consumed.val = f.consumed.val + n.deposits want ∧
      ∀ k, f'.undrawn k + (if n.target = k then n.deposits want else 0) =
        f.undrawn k + n.approves want k := by
  cases hstep with
  | @approve _ _ spender _ reads holder effect =>
    cases effect with
    | some grants =>
      simp only [NestedCall.deposits, NestedCall.approves, reads, ite_self, Nat.add_zero]
      refine ⟨congrArg Fin.val grants.consumed, fun k => ?_⟩
      rw [grants.undrawn k]
      by_cases hk : k = spender
      · rw [if_pos hk, if_pos hk.symm]
      · rw [if_neg hk, if_neg (Ne.symm hk), Nat.add_zero]
  | deposit reads token effect =>
    cases effect with
    | some takes =>
      simp only [NestedCall.deposits, NestedCall.approves, reads, Nat.add_zero]
      refine ⟨takes.consumed, fun k => ?_⟩
      rw [takes.undrawn k]
      by_cases hk : k = n.target
      · subst hk
        rw [if_pos rfl, if_pos rfl]
        exact Nat.sub_add_cancel takes.covered
      · rw [if_neg hk, if_neg (Ne.symm hk), Nat.add_zero]
  | depositNative reads => simp [NestedCall.deposits, NestedCall.approves, reads]
  | forward reads => simp [NestedCall.deposits, NestedCall.approves, reads]
  | multicall reads empty => simp [NestedCall.deposits, NestedCall.approves, reads]

/-- The run of some calls is the run of the first ones, then of the rest. -/
theorem NestedRun.split {l₁ l₂ : List NestedCall} {a c : Option Flow}
    (hrun : NestedRun want (l₁ ++ l₂) a c) :
    ∃ b, NestedRun want l₁ a b ∧ NestedRun want l₂ b c := by
  induction l₁ generalizing a with
  | nil => exact ⟨a, .nil, hrun⟩
  | cons n l₁ ih =>
    cases hrun with
    | cons firm step run =>
      obtain ⟨b, h₁, h₂⟩ := ih run
      exact ⟨b, .cons firm step h₁, h₂⟩

/-- A followed flow stays followed over one call. -/
theorem NestedStep.exists_some {flow' : Option Flow} (hstep : NestedStep want n (some f) flow') :
    ∃ f', flow' = some f' := by
  cases hstep with
  | approve _ _ effect =>
    cases effect with
    | some _ => exact ⟨_, rfl⟩
  | deposit _ _ effect =>
    cases effect with
    | some _ => exact ⟨_, rfl⟩
  | depositNative _ => exact ⟨_, rfl⟩
  | forward _ => exact ⟨_, rfl⟩
  | multicall _ _ => exact ⟨_, rfl⟩

/-- **What was consumed** is what the calls deposited. -/
theorem NestedRun.consumed {calls : List NestedCall}
    (hrun : NestedRun want calls (some f) (some f')) :
    f'.consumed.val = f.consumed.val + deposited want calls := by
  induction calls generalizing f with
  | nil =>
    cases hrun
    rfl
  | cons n calls ih =>
    cases hrun with
    | cons _ step run =>
      obtain ⟨mid, rfl⟩ := step.exists_some
      rw [ih run, step.account.1, deposited_cons]
      omega

/-- **What is undrawn** is what the calls so far approved, less what they deposited. -/
theorem NestedRun.undrawn {calls before : List NestedCall} {k : Address}
    (hrun : NestedRun want calls (some f) (some f'))
    (hf : f.undrawn k + depositedAt want k before = approvedTo want k before) :
    f'.undrawn k + depositedAt want k (before ++ calls) = approvedTo want k (before ++ calls) := by
  induction calls generalizing f before with
  | nil =>
    cases hrun
    rw [List.append_nil]
    exact hf
  | cons n calls ih =>
    cases hrun with
    | cons _ step run =>
      obtain ⟨mid, rfl⟩ := step.exists_some
      have hmid := step.account.2 k
      have hsofar : mid.undrawn k + depositedAt want k (before ++ [n]) =
          approvedTo want k (before ++ [n]) := by
        rw [depositedAt_concat, approvedTo_concat]
        omega
      have hnext := ih run hsofar
      rw [List.append_assoc, List.singleton_append] at hnext
      exact hnext

end Flow

/-! ## The router's balance -/

section Balance

variable {want : Expected} {s s' : Ledger}

theorem balance_drawAll {spender : Address} {amounts : List U256}
    (h : Ledger.drawAll .payer spender amounts s = some s') :
    s'.balance .router = s.balance .router + total amounts := by
  induction amounts generalizing s with
  | nil =>
    obtain rfl := Option.some.inj h
    rfl
  | cons amount amounts ih =>
    obtain ⟨mid, hdraw, hrest⟩ := Option.bind_eq_some_iff.mp h
    rw [ih hrest, Ledger.balance_draw_payer hdraw, total, total, List.map_cons, List.sum_cons]
    omega

/-- One nested call takes out of the router what it deposits, and nothing else. -/
theorem NestedStep.balance {n : NestedCall} {f f' : Flow}
    (hstep : NestedStep want n (some f) (some f'))
    (hrun : Runs want .router n.target n.data s s') :
    s'.balance .router + n.deposits want = s.balance .router := by
  cases hstep with
  | approve reads holder effect =>
    obtain rfl := hrun.approve_inv reads
    rw [NestedCall.deposits, reads]
    rfl
  | deposit reads token effect =>
    rw [NestedCall.deposits, reads]
    exact Ledger.balance_draw_router (hrun.deposit_inv reads token)
  | depositNative reads =>
    obtain rfl := hrun.depositNative_inv reads
    rw [NestedCall.deposits, reads]
    rfl
  | forward reads =>
    obtain rfl := hrun.forward_inv reads
    rw [NestedCall.deposits, reads]
    rfl
  | multicall reads empty =>
    have hruns := hrun.multicall_inv reads
    rw [empty] at hruns
    cases hruns
    rw [NestedCall.deposits, reads]
    rfl

theorem NestedRun.balance {calls : List NestedCall} {f f' : Flow}
    (hnested : NestedRun want calls (some f) (some f')) (hruns : RunsAll want calls s s') :
    s'.balance .router + deposited want calls = s.balance .router := by
  induction calls generalizing f s with
  | nil =>
    cases hruns
    rfl
  | cons n calls ih =>
    cases hnested with
    | cons firm step run =>
      obtain ⟨mid, rfl⟩ := step.exists_some
      cases hruns with
      | cons hrun hruns =>
        have hone := step.balance hrun
        have hrest := ih run hruns
        rw [deposited_cons]
        omega
      | skip allowed _ =>
        rw [firm] at allowed
        cases allowed

end Balance

/-! ## Accepted pulls -/

/-- What an accepted `transferAndMulticall` guarantees. -/
structure Conserved (want : Expected) (callee : Address) (calldata : List UInt8) (p : Pulls)
    (m : Multicall) : Prop where
  /-- this is what the proxy reads -/
  reads : readAct want callee calldata = some (.relay (.transferAndMulticall p m))
  /-- the nested deposits are exactly what was pulled -/
  deposits : deposited want m.calls = total p.amounts
  /-- each is of the payer's token, and covered by earlier nested allowances not yet drawn -/
  covered : ∀ {before after : List NestedCall} {n : NestedCall} {d : DepositErc20},
    m.calls = before ++ n :: after →
    readAct want n.target n.data = some (.relay (.depositErc20 d)) →
    d.token = want.originCurrency ∧
      depositedAt want n.target before + d.amount.val ≤ approvedTo want n.target before
  /-- every other nested call moves nothing -/
  others : ∀ n ∈ m.calls,
    (∃ d, readAct want n.target n.data = some (.relay (.depositErc20 d))) ∨ MovesNothing want n
  /-- if it succeeds, the router holds what it held before -/
  settles : ∀ {s s' : Ledger}, Runs want .payer callee calldata s s' →
    s'.balance .router = s.balance .router

section Pulls

variable {want : Expected}

/-- A nested call under a pull is a deposit, or moves nothing. -/
theorem NestedStep.kind {n : NestedCall} {f : Flow} {flow' : Option Flow}
    (hstep : NestedStep want n (some f) flow') :
    (∃ d, readAct want n.target n.data = some (.relay (.depositErc20 d))) ∨
      MovesNothing want n := by
  cases hstep with
  | approve reads holder _ => exact .inr (.inl ⟨_, _, reads, holder⟩)
  | deposit reads _ _ => exact .inl ⟨_, reads⟩
  | depositNative reads => exact .inr (.inr (.inl ⟨_, reads⟩))
  | forward reads => exact .inr (.inr (.inr (.inl reads)))
  | multicall reads empty => exact .inr (.inr (.inr (.inr ⟨_, reads, empty⟩)))

/-- A nested call nests nothing and pulls nothing. -/
theorem NestedStep.flat {n : NestedCall} {flow flow' : Option Flow}
    (hstep : NestedStep want n flow flow') :
    ∃ act, readAct want n.target n.data = some act ∧ act.nested = [] ∧
      ∀ p m, act ≠ .relay (.transferAndMulticall p m) := by
  cases hstep with
  | approve reads _ _ => exact ⟨_, reads, rfl, nofun⟩
  | transfer reads => exact ⟨_, reads, rfl, nofun⟩
  | deposit reads _ _ => exact ⟨_, reads, rfl, nofun⟩
  | depositNative reads => exact ⟨_, reads, rfl, nofun⟩
  | forward reads => exact ⟨_, reads, rfl, nofun⟩
  | multicall reads empty => exact ⟨_, reads, empty, nofun⟩

theorem NestedRun.mem {calls : List NestedCall} {flow flow' : Option Flow} {n : NestedCall}
    (hrun : NestedRun want calls flow flow') (hn : n ∈ calls) :
    ∃ a b, NestedStep want n a b ∧ a.isSome = flow.isSome := by
  obtain ⟨before, after, rfl⟩ := List.append_of_mem hn
  obtain ⟨mid, hbefore, hrest⟩ := hrun.split
  cases hrest with
  | cons _ step _ => exact ⟨_, _, step, hbefore.isSome⟩

theorem WalletStep.conserved {callee : Address} {calldata : List UInt8} {spend spend' : Spend}
    {p : Pulls} {m : Multicall}
    (hstep : WalletStep want callee calldata spend spend')
    (hread : readAct want callee calldata = some (.relay (.transferAndMulticall p m))) :
    Conserved want callee calldata p m := by
  cases hstep with
  | transferAndMulticall reads tokens lengths _ run consumed =>
    obtain ⟨rfl, rfl⟩ : _ ∧ _ := by
      simpa using hread.symm.trans reads
    have hdeposits : deposited want m.calls = total p.amounts := by
      have hsum := run.consumed
      rw [consumed] at hsum
      exact (hsum.trans (Nat.zero_add _)).symm
    refine ⟨hread, hdeposits, ?_, ?_, ?_⟩
    · intro before after n d hcalls hd
      rw [hcalls] at run
      obtain ⟨mid, hbefore, hrest⟩ := run.split
      obtain ⟨f, rfl⟩ := Option.isSome_iff_exists.mp hbefore.isSome
      have hundrawn : f.undrawn n.target + depositedAt want n.target ([] ++ before) =
          approvedTo want n.target ([] ++ before) := hbefore.undrawn rfl
      rw [List.nil_append] at hundrawn
      cases hrest with
      | cons _ step _ =>
        cases step with
        | deposit reads' token effect =>
          obtain rfl : d = _ := by simpa using hd.symm.trans reads'
          cases effect with
          | some takes =>
            have hcovered := takes.covered
            exact ⟨token, by omega⟩
        | approve reads' => rw [hd] at reads'; cases reads'
        | depositNative reads' => rw [hd] at reads'; cases reads'
        | forward reads' => rw [hd] at reads'; cases reads'
        | multicall reads' => rw [hd] at reads'; cases reads'
    · intro n hn
      obtain ⟨a, b, hn, hsome⟩ := run.mem hn
      obtain ⟨f, rfl⟩ := Option.isSome_iff_exists.mp hsome
      exact hn.kind
    · intro s s' hrun
      obtain ⟨mid, hdraws, hruns⟩ := hrun.transferAndMulticall_inv hread
      rw [Pulls.amountsOf_eq tokens lengths] at hdraws
      have hin := balance_drawAll hdraws
      have hout := run.balance hruns
      omega
  | approve reads => rw [hread] at reads; cases reads
  | transfer reads => rw [hread] at reads; cases reads
  | deposit reads => rw [hread] at reads; cases reads
  | depositNative reads => rw [hread] at reads; cases reads
  | forward reads => rw [hread] at reads; cases reads
  | multicall reads => rw [hread] at reads; cases reads

theorem WalletStep.exists_reads {callee : Address} {calldata : List UInt8} {spend spend' : Spend}
    (hstep : WalletStep want callee calldata spend spend') :
    ∃ act, readAct want callee calldata = some act ∧ ∀ n ∈ act.nested,
      ∃ flow flow', NestedStep want n flow flow' := by
  have hmem : ∀ {calls : List NestedCall} {flow flow' : Option Flow},
      NestedRun want calls flow flow' → ∀ n ∈ calls, ∃ flow flow', NestedStep want n flow flow' := by
    intro calls flow flow' hrun n hn
    obtain ⟨a, b, hn, -⟩ := hrun.mem hn
    exact ⟨a, b, hn⟩
  cases hstep with
  | approve reads => exact ⟨_, reads, nofun⟩
  | transfer reads _ => exact ⟨_, reads, nofun⟩
  | deposit reads _ _ => exact ⟨_, reads, nofun⟩
  | depositNative reads => exact ⟨_, reads, nofun⟩
  | forward reads => exact ⟨_, reads, nofun⟩
  | multicall reads run => exact ⟨_, reads, hmem run⟩
  | transferAndMulticall reads _ _ _ run _ => exact ⟨_, reads, hmem run⟩

/-- **Pulls settle**: every `transferAndMulticall` of an accepted quote, of either version,
deposits exactly what it pulls and leaves nothing in the router; and no transaction of it
nests a call, or a pull, inside a nested call. -/
theorem accepted_pulls_settle {lib : Crates} {quotedAt : String} {quote : Quote}
    {rq : RouteQuote} {step : QuoteStep} {item : Value} {callee : Address}
    {calldata : List UInt8}
    (haccepted : checkQuote lib quotedAt quote want = .ok rq)
    (hstep : step ∈ quote.steps) (hitem : item ∈ step.items)
    (hcallee : lib.parseAddress (textField item "to") = some callee)
    (hcalldata : stepCalldata lib (textField item "data") = some calldata) :
    (StartsPull calldata → ∃ p m, Conserved want callee calldata p m) ∧
      ∃ act, readAct want callee calldata = some act ∧ ∀ n ∈ act.nested,
        ∃ act', readAct want n.target n.data = some act' ∧ act'.nested = [] ∧
          ∀ p m, act' ≠ .relay (.transferAndMulticall p m) := by
  obtain ⟨inputAmount, done, hacc, -⟩ := checkQuote_ok haccepted
  obtain ⟨callee', calldata', value, s, s', hspells, hwallet⟩ := hacc.item hstep hitem
  obtain rfl := Option.some.inj (hspells.callee.symm.trans hcallee)
  obtain rfl := Option.some.inj (hspells.calldata.symm.trans hcalldata)
  obtain ⟨act, hact, hnested⟩ := hwallet.exists_reads
  refine ⟨fun hpull => ?_, act, hact, fun n hn => ?_⟩
  · obtain ⟨p, m, rfl⟩ := readAct_pull hpull hact
    exact ⟨p, m, hwallet.conserved hact⟩
  · obtain ⟨_, _, hn⟩ := hnested n hn
    exact hn.flat

theorem accepted_pulls_settle_sample :
    ∃ rq, checkQuote Crates.reference "2026-01-01T00:00:00.000Z" (Sample.quote 9) Sample.want =
        .ok rq ∧
      StartsPull (Sample.pull 1000 9) ∧
      (∃ p m, Conserved Sample.want Sample.proxy (Sample.pull 1000 9) p m) ∧
      ∃ act, readAct Sample.want Sample.proxy (Sample.pull 1000 9) = some act ∧ ∀ n ∈ act.nested,
        ∃ act', readAct Sample.want n.target n.data = some act' ∧ act'.nested = [] ∧
          ∀ p m, act' ≠ .relay (.transferAndMulticall p m) := by
  obtain ⟨done, hacc, -⟩ := Sample.quote_accepted
  obtain ⟨rq, hrq, -⟩ := hacc.checkQuote
  have hpull : StartsPull (Sample.pull 1000 9) := .inr (by decide +kernel)
  have hstep : (⟨"deposit", "Deposit", "transaction",
      [Sample.item Sample.proxy (Sample.pull 1000 9)]⟩ : QuoteStep) ∈ (Sample.quote 9).steps :=
    .tail _ (.head _)
  have hsettles := accepted_pulls_settle hrq hstep (.head _) (Sample.item_callee _ _)
    (Sample.item_calldata _ _)
  exact ⟨rq, hrq, hpull, hsettles.1 hpull, hsettles.2⟩

end Pulls

end GumServer
