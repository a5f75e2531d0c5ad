import GumServer.Router

/-!
# What a route takes from the wallet

A wallet that executes an accepted route pays what its calls name: transfers, draws of the
depository and pulls of the proxy, or the wei of its transactions. All of it goes out with the last
one; whatever comes before only approves.

The checks hold the sum against the quoted input from above. Nothing holds it from below: a route
that deposits nothing is a route.
-/

namespace GumServer

open Bytes Checks

/-- The tokens a call of the wallet takes from it. -/
def Act.takes (want : Expected) : Act → ℕ
  | .transfer _ amount => amount.val
  | .relay (.depositErc20 d) => if d.token = want.originCurrency then d.amount.val else 0
  | .relay (.transferAndMulticall p _) => total (p.amountsOf want.originCurrency)
  | _ => 0

/-- The call of a step, as the wallet reads it back. -/
def RouteStep.act (lib : Crates) (want : Expected) (st : RouteStep) : Option Act :=
  (lib.parseAddress st.callee).bind fun callee =>
    (lib.parseBytes st.data).bind fun calldata => readAct want callee calldata

/-- The tokens a step takes from the wallet. -/
def RouteStep.takes (lib : Crates) (want : Expected) (st : RouteStep) : ℕ :=
  ((st.act lib want).map (Act.takes want)).getD 0

/-- A step that only approves. -/
def RouteStep.Approves (lib : Crates) (want : Expected) (st : RouteStep) : Prop :=
  ∃ spender amount, st.act lib want = some (.approve spender amount)

/-- The wallet executes steps in order, each of which is mined. -/
inductive Executes (lib : Crates) (want : Expected) : List RouteStep → Ledger → Ledger → Prop where
  /-- nothing to execute -/
  | nil {s : Ledger} : Executes lib want [] s s
  /-- the first one, then the rest -/
  | cons {step : RouteStep} {rest : List RouteStep} {s mid s' : Ledger} {callee : Address}
      {calldata : List UInt8} {wei : U256}
      (reads : lib.parseAddress step.callee = some callee ∧
        lib.parseBytes step.data = some calldata ∧ baseUnits lib (some step.value) = some wei)
      (run : Runs want .payer callee calldata s mid)
      (executes : Executes lib want rest { mid with native := s.native + wei.val } s') :
      Executes lib want (step :: rest) s s'

/-! ## One call -/

section Call

variable {want : Expected} {callee : Address} {calldata : List UInt8} {spend spend' : Spend}
  {s s' : Ledger}

theorem Ledger.left_drawAll {spender : Address} {amounts : List U256}
    (h : Ledger.drawAll .payer spender amounts s = some s') : s'.left = s.left + total amounts := by
  induction amounts generalizing s with
  | nil =>
    obtain rfl := Option.some.inj h
    rfl
  | cons amount amounts ih =>
    obtain ⟨mid, hdraw, hrest⟩ := Option.bind_eq_some_iff.mp h
    rw [ih hrest, (Ledger.draw_payer hdraw).1, total, total, List.map_cons, List.sum_cons]
    omega

theorem PullRun.pulled {spender : Address} {amounts : List U256}
    (h : PullRun spender amounts spend spend') :
    spend'.pulled.val = spend.pulled.val + total amounts := by
  induction h with
  | nil => rfl
  | cons step _ ih =>
    rw [ih, (Spend.pull_eq_ok step).1, total, total, List.map_cons, List.sum_cons]
    omega

/-- **What an accepted call takes** is what it puts on the tab, and what leaves the wallet when it is
run. -/
theorem WalletStep.takes (hstep : WalletStep want callee calldata spend spend') :
    ∃ act, readAct want callee calldata = some act ∧
      spend'.pulled.val = spend.pulled.val + act.takes want ∧
      ∀ {s s' : Ledger}, Runs want .payer callee calldata s s' →
        s'.left = s.left + act.takes want := by
  cases hstep with
  | approve reads =>
    refine ⟨_, reads, rfl, ?_⟩
    intro s s' hrun
    obtain rfl := hrun.approve_inv reads
    rfl
  | transfer reads effect =>
    refine ⟨_, reads, (Spend.transfer_eq_ok effect).1, ?_⟩
    intro s s' hrun
    obtain ⟨dest, hmove⟩ := hrun.transfer_inv reads
    obtain ⟨-, rfl⟩ := Ledger.move_eq_some.mp hmove
    rfl
  | deposit reads token effect =>
    refine ⟨_, reads, ?_, ?_⟩
    · rw [Act.takes, if_pos token]
      exact (Spend.pull_eq_ok effect).1
    · intro s s' hrun
      rw [Act.takes, if_pos token]
      exact (Ledger.draw_payer (hrun.deposit_inv reads token)).1
  | depositNative reads =>
    refine ⟨_, reads, rfl, ?_⟩
    intro s s' hrun
    obtain rfl := hrun.depositNative_inv reads
    rfl
  | forward reads =>
    refine ⟨_, reads, rfl, ?_⟩
    intro s s' hrun
    obtain rfl := hrun.forward_inv reads
    rfl
  | multicall reads run =>
    refine ⟨_, reads, rfl, ?_⟩
    intro s s' hrun
    exact (run.samePayer (hrun.multicall_inv reads)).left
  | transferAndMulticall reads tokens lengths effect run consumed =>
    refine ⟨_, reads, ?_, ?_⟩
    · rw [Act.takes, Pulls.amountsOf_eq tokens lengths]
      exact effect.pulled
    · intro s s' hrun
      obtain ⟨mid, hdraws, hruns⟩ := hrun.transferAndMulticall_inv reads
      rw [(run.samePayer hruns).left]
      exact Ledger.left_drawAll hdraws

end Call

/-! ## The route -/

section Route

variable {lib : Crates} {want : Expected} {inputAmount : U256}

theorem Checked.takes {st : RouteStep} {spend spend' : Spend}
    (h : Checked lib want st spend spend') :
    spend'.pulled.val = spend.pulled.val + st.takes lib want ∧
      ∀ {callee : Address} {calldata : List UInt8} {s s' : Ledger},
        lib.parseAddress st.callee = some callee → lib.parseBytes st.data = some calldata →
        Runs want .payer callee calldata s s' → s'.left = s.left + st.takes lib want := by
  obtain ⟨callee, calldata, hcallee, hcalldata, hstep⟩ := h.reads
  obtain ⟨act, hread, hpulled, hleft⟩ := hstep.takes
  have htakes : st.takes lib want = act.takes want := by
    rw [RouteStep.takes, RouteStep.act, hcallee, Option.bind_some, hcalldata, Option.bind_some,
      hread]
    rfl
  rw [htakes]
  refine ⟨hpulled, ?_⟩
  intro callee' calldata' s s' hcallee' hcalldata' hrun
  obtain rfl := Option.some.inj (hcallee.symm.trans hcallee')
  obtain rfl := Option.some.inj (hcalldata.symm.trans hcalldata')
  exact hleft hrun

theorem CheckedRun.pulled {steps : List RouteStep} {spend spend' : Spend}
    (h : CheckedRun lib want steps spend spend') :
    spend'.pulled.val = spend.pulled.val + (steps.map (RouteStep.takes lib want)).sum := by
  induction h with
  | nil => rfl
  | cons step _ ih =>
    rw [ih, step.takes.1, List.map_cons, List.sum_cons]
    exact Nat.add_assoc _ _ _

/-- **What leaves the wallet** is what the steps take. -/
theorem CheckedRun.executes {steps : List RouteStep} {spend spend' : Spend} {s s' : Ledger}
    (h : CheckedRun lib want steps spend spend') (hexec : Executes lib want steps s s') :
    s'.left = s.left + (steps.map (RouteStep.takes lib want)).sum ∧
      s'.native = s.native + (steps.map (RouteStep.wei lib)).sum := by
  induction h generalizing s with
  | nil =>
    cases hexec
    exact ⟨rfl, rfl⟩
  | cons step _ ih =>
    cases hexec with
    | cons reads run rest =>
      obtain ⟨hcallee, hcalldata, hwei⟩ := reads
      obtain ⟨hleft, hnative⟩ := ih rest
      have hone := step.takes.2 hcallee hcalldata run
      dsimp only at hleft hnative
      rw [List.map_cons, List.sum_cons, List.map_cons, List.sum_cons, RouteStep.wei, hwei]
      refine ⟨?_, ?_⟩
      · rw [hleft, hone]
        exact Nat.add_assoc _ _ _
      · rw [hnative]
        exact Nat.add_assoc _ _ _

/-! ## Everything but the last step approves -/

theorem isApproval_approves {id description : String} {item : Value} {st : RouteStep}
    {spend spend' : Spend}
    (h : checkStep lib id description item want inputAmount spend = .ok (st, spend'))
    (happroval : isApproval lib item want = true) : st.Approves lib want := by
  obtain ⟨-, -, callee, calldata, value, hspells, hcall, rfl⟩ := checkStep_ok.mp h
  by_cases htoken : want.isToken callee
  · rw [checkCall, if_pos htoken] at hcall
    obtain ⟨⟨selector, args⟩, hsplit, hcall⟩ := okOr_bind_eq_ok.mp hcall
    obtain ⟨hsel, hcall⟩ := refuseIf_bind_eq_ok.mp hcall
    rw [Bool.or_eq_false_iff, decide_eq_false_iff_not] at hsel
    obtain ⟨hbytes, hlen⟩ := splitAtChecked_eq_some.mp hsplit
    have hselector : calldata.take 4 = selector := by rw [hbytes, List.take_left' hlen]
    have hlong : 4 ≤ calldata.length := by
      rw [hbytes, List.length_append]
      omega
    rw [isApproval_token htoken hspells.callee hspells.calldata hlong, hselector] at happroval
    have hact := readAct_token calldata htoken
    rw [readTokenCall, hsplit] at hact
    simp only [Option.bind_eq_bind, Option.bind_some, if_neg hsel.2, TokenCall.act,
      if_pos (eq_of_beq happroval)] at hact
    refine ⟨Address.ofBytes ((args.drop 12).take 20), U256.ofBytes ((args.drop 32).take 32), ?_⟩
    rw [RouteStep.act, lib.parseAddress_lowerHex, Option.bind_some,
      parseBytes_lowercase hspells.calldata, Option.bind_some]
    exact hact
  · rw [isApproval_relay hspells.callee htoken] at happroval
    cases happroval

/-- The loop has gone over approvals, and over the step that funds the payment if it has seen it. -/
def Progress.Funds (lib : Crates) (want : Expected) (acc : Progress) : Prop :=
  ∃ approvals last, acc.steps = approvals ++ last ∧
    (∀ st ∈ approvals, st.Approves lib want) ∧ last.length = if acc.funded then 1 else 0

theorem checkItem_funds {step : QuoteStep} {acc acc' : Progress} {item : Value}
    (h : checkItem lib want inputAmount step acc item = .ok acc') (hacc : acc.Funds lib want) :
    acc'.Funds lib want := by
  obtain ⟨hopen, h⟩ := refuseIf_bind_eq_ok.mp h
  obtain ⟨⟨st, spend⟩, hchecked, h⟩ := bind_eq_ok.mp h
  obtain rfl := pure_eq_ok.mp h
  obtain ⟨approvals, last, hsteps, happroves, hlast⟩ := hacc
  rw [hopen] at hlast
  obtain rfl := List.length_eq_zero_iff.mp hlast
  rw [List.append_nil] at hsteps
  subst hsteps
  cases happroval : isApproval lib item want with
  | true =>
    refine ⟨acc.steps ++ [st], [], (List.append_nil _).symm, ?_, rfl⟩
    intro st' hst'
    rcases List.mem_append.mp hst' with hst' | hst'
    · exact happroves st' hst'
    · obtain rfl := List.mem_singleton.mp hst'
      exact isApproval_approves hchecked happroval
  | false => exact ⟨acc.steps, [st], rfl, happroves, rfl⟩

theorem checkItems_funds {step : QuoteStep} {acc acc' : Progress}
    (h : checkItems lib want inputAmount acc step = .ok acc') (hacc : acc.Funds lib want) :
    acc'.Funds lib want := by
  obtain ⟨-, h⟩ := refuseIf_bind_eq_ok.mp h
  exact each_rel (R := fun x y => x.Funds lib want → y.Funds lib want) (fun _ hx => hx)
    (fun hxy hyz hx => hyz (hxy hx)) checkItem_funds h hacc

/-- **An accepted route** is a list of approvals and one step that is something else. -/
theorem Accepted.funds {quote : Quote} {done : Progress}
    (h : Accepted lib quote want inputAmount done) :
    ∃ approvals last, done.steps = approvals ++ [last] ∧
      ∀ st ∈ approvals, st.Approves lib want := by
  have hnew : Progress.Funds lib want ⟨[], false, Spend.new⟩ := ⟨[], [], rfl, nofun, rfl⟩
  obtain ⟨approvals, last, hsteps, happroves, hlast⟩ :=
    each_rel (R := fun x y => x.Funds lib want → y.Funds lib want) (fun _ hx => hx)
      (fun hxy hyz hx => hyz (hxy hx)) checkItems_funds h.items hnew
  rw [h.funded] at hlast
  obtain ⟨st, rfl⟩ := List.length_eq_one_iff.mp hlast
  exact ⟨approvals, st, hsteps, happroves⟩

theorem RouteStep.Approves.takes {st : RouteStep} (h : st.Approves lib want) :
    st.takes lib want = 0 := by
  obtain ⟨spender, amount, hact⟩ := h
  rw [RouteStep.takes, hact]
  rfl

/-- **An accepted route takes at most the quoted input.** A wallet that executes all of its steps
loses exactly the tokens that its transfers, draws and pulls name, all of them in the last step, and
sends exactly the wei of its transactions; the tokens are at most the quoted input, and the wei at
most the quoted input of a native route and nothing of any other. -/
theorem accepted_route_takes_at_most {quotedAt : String} {quote : Quote} {rq : RouteQuote}
    {s s' : Ledger} (haccepted : checkQuote lib quotedAt quote want = .ok rq)
    (hinput : baseUnits lib (some quote.details.currencyIn.amount) = some inputAmount)
    (hexec : Executes lib want rq.steps s s') :
    (∃ approvals last, rq.steps = approvals ++ [last] ∧ (∀ st ∈ approvals, st.Approves lib want) ∧
      s'.left = s.left + last.takes lib want ∧ last.takes lib want ≤ inputAmount.val) ∧
    s'.native = s.native + (rq.steps.map (RouteStep.wei lib)).sum ∧
    (rq.steps.map (RouteStep.wei lib)).sum ≤ if want.originCurrency = 0 then inputAmount.val else 0 := by
  obtain ⟨input, done, hacc, hsteps⟩ := checkQuote_ok haccepted
  obtain ⟨-, -, hinput'⟩ := checkDetails_ok hacc.details
  obtain rfl := Option.some.inj (hinput'.symm.trans hinput)
  rw [hsteps] at hexec ⊢
  obtain ⟨hleft, hnative⟩ := hacc.run.executes hexec
  refine ⟨?_, hnative, ?_⟩
  · obtain ⟨approvals, last, hfunds, happroves⟩ := hacc.funds
    have hsum : (done.steps.map (RouteStep.takes lib want)).sum = last.takes lib want := by
      have hzero : (approvals.map (RouteStep.takes lib want)).sum = 0 := by
        refine List.sum_eq_zero fun n hn => ?_
        obtain ⟨st, hst, rfl⟩ := List.mem_map.mp hn
        exact (happroves st hst).takes
      rw [hfunds, List.map_append, List.sum_append, hzero, Nat.zero_add, List.map_singleton,
        List.sum_singleton]
    obtain ⟨taken, htaken, htakenle⟩ := hacc.spend
    have hpulled := hacc.run.pulled
    have hbound := Spend.exposure_eq_ok htaken
    rw [hsum] at hleft hpulled
    refine ⟨approvals, last, hfunds, happroves, hleft, ?_⟩
    calc last.takes lib want ≤ done.spend.pulled.val := by
          rw [hpulled]
          exact Nat.le_add_left _ _
      _ ≤ done.spend.bound := Nat.le_add_right _ _
      _ = taken.val := hbound.symm
      _ ≤ input.val := htakenle
  · obtain ⟨value, hvalue, hvaluele⟩ := hacc.value
    have hsum := addValue_sum hvalue
    rw [Fin.val_zero, Nat.zero_add] at hsum
    rw [← hsum]
    split at hvaluele
    · next hzero =>
      rw [if_pos hzero]
      exact hvaluele
    · next hzero =>
      rw [if_neg hzero]
      exact hvaluele

end Route

/-! ## A route that pays, and one that pays nothing -/

namespace Sample

/-- A sample step, executed as the call it was made from. -/
theorem executes_step {id description : String} {callee : Address} {calldata : List UInt8}
    {rest : List RouteStep} {s mid s' : Ledger} (hrun : Runs want .payer callee calldata s mid)
    (hrest : Executes Crates.reference want rest { mid with native := s.native + 0 } s') :
    Executes Crates.reference want (step id description callee calldata :: rest) s s' := by
  have hvalue : baseUnits Crates.reference (some "0") = some 0 := by decide +kernel
  refine .cons ⟨?_, ?_, hvalue⟩ hrun hrest
  · exact Crates.reference.parseAddress_lowerHex callee
  · exact parseBytes_lowercase (stepCalldata_lowerHex calldata)

/-- The wallet executes the sample's route, and has paid. -/
theorem steps_execute : ∃ s', Executes Crates.reference want steps before s' ∧ s'.left = 1000 := by
  obtain ⟨s', hruns, hleft, -⟩ := pull_runs
  exact ⟨_, executes_step (.approve reads_approval) (executes_step hruns .nil), hleft⟩

/-- One deposit of nothing. -/
def idle : Quote :=
  { quote 9 with steps := [⟨"deposit", "Deposit", "transaction", [item depository (deposit 0 9)]⟩] }

/-- Its one step. -/
def idleStep : RouteStep := step "deposit" "Deposit" depository (deposit 0 9)

theorem idle_ok : checkCall "deposit" want 1000 depository (deposit 0 9) 0 Spend.new =
    .ok Spend.new := by
  decide +kernel

theorem idle_accepted : ∃ done, Accepted Crates.reference idle want 1000 done ∧
    done.steps = [idleStep] := by
  have hfunds : isApproval Crates.reference (item depository (deposit 0 9)) want = false :=
    isApproval_relay (item_callee _ _) (by decide +kernel)
  refine ⟨⟨[idleStep], true, Spend.new⟩, ?_, rfl⟩
  constructor
  · decide +kernel
  · exact details_ok
  · exact ⟨order, rfl, order_ok⟩
  · refine each_cons_eq_ok.mpr ⟨_, refuseIf_bind_eq_ok.mpr ⟨rfl, each_cons_eq_ok.mpr
      ⟨_, refuseIf_bind_eq_ok.mpr ⟨rfl, bind_eq_ok.mpr ⟨_, item_ok idle_ok, rfl⟩⟩, rfl⟩⟩, ?_⟩
    rw [hfunds]
    rfl
  · rfl
  · exact ⟨0, by decide +kernel, Nat.le_refl _⟩
  · exact ⟨0, by decide +kernel, by decide⟩

/-- The wallet executes it, and has what it had. -/
theorem idle_executes : ∃ s', Executes Crates.reference want [idleStep] before s' ∧
    s'.left = 0 ∧ s'.native = 0 := by
  have hreads : readAct want depository (deposit 0 9) =
      some (.relay (.depositErc20 ⟨0, token, 0, toBe 32 9⟩)) := by decide +kernel
  exact ⟨_, executes_step (.deposit hreads rfl rfl) .nil, rfl, rfl⟩

end Sample

theorem accepted_route_takes_at_most_sample :
    ∃ rq s', checkQuote Crates.reference "2026-01-01T00:00:00.000Z" (Sample.quote 9) Sample.want =
        .ok rq ∧
      baseUnits Crates.reference (some (Sample.quote 9).details.currencyIn.amount) = some 1000 ∧
      Executes Crates.reference Sample.want rq.steps Sample.before s' ∧ s'.left = 1000 ∧
      (∃ approvals last, rq.steps = approvals ++ [last] ∧
        (∀ st ∈ approvals, st.Approves Crates.reference Sample.want) ∧
        s'.left = Sample.before.left + last.takes Crates.reference Sample.want ∧
        last.takes Crates.reference Sample.want ≤ 1000) ∧
      s'.native = Sample.before.native + (rq.steps.map (RouteStep.wei Crates.reference)).sum ∧
      (rq.steps.map (RouteStep.wei Crates.reference)).sum ≤
        if Sample.want.originCurrency = 0 then 1000 else 0 := by
  obtain ⟨done, hacc, hsteps⟩ := Sample.quote_accepted
  obtain ⟨rq, hrq, hrqsteps⟩ := hacc.checkQuote
  obtain ⟨s', hexec, hleft⟩ := Sample.steps_execute
  rw [← hsteps, ← hrqsteps] at hexec
  have hinput : baseUnits Crates.reference (some (Sample.quote 9).details.currencyIn.amount) =
      some 1000 := by decide +kernel
  exact ⟨rq, s', hrq, hinput, hexec, hleft, accepted_route_takes_at_most hrq hinput hexec⟩

/-- An accepted route, quoted for 1000, that takes nothing when it is executed. -/
theorem accepted_route_takes_nothing :
    ∃ rq s', checkQuote Crates.reference "2026-01-01T00:00:00.000Z" Sample.idle Sample.want =
        .ok rq ∧
      baseUnits Crates.reference (some Sample.idle.details.currencyIn.amount) = some 1000 ∧
      Executes Crates.reference Sample.want rq.steps Sample.before s' ∧
      s'.left - Sample.before.left ≠ 1000 ∧ s'.native - Sample.before.native = 0 := by
  obtain ⟨done, hacc, hsteps⟩ := Sample.idle_accepted
  obtain ⟨rq, hrq, hrqsteps⟩ := hacc.checkQuote
  obtain ⟨s', hexec, hleft, hnative⟩ := Sample.idle_executes
  rw [← hsteps, ← hrqsteps] at hexec
  refine ⟨rq, s', hrq, by decide +kernel, hexec, ?_, ?_⟩
  · rw [hleft]
    decide
  · rw [hnative]
    rfl

end GumServer
