import GumServer.Arguments
import GumServer.Evaluated

/-!
# Where the evaluation of a quote faults

Every check that comes before an unchecked operation covers it, but for one: the balance of a pull
subtracts what was deposited from what was pulled to say how much is left, and nothing before it
says that the deposits are no more than the pulls. `Quote.Overdraws` is a quote on which the
checks come that far with more deposited; on every other quote, accepted or refused, the evaluation
answers what the check answers (`checkQuote_answers`).
-/

namespace GumServer

open Bytes Checks Faults

/-! ## Overdrawn pulls -/

/-- A pull whose checks come to its balance, while its nested calls deposit more than it pulls. -/
structure Overdrawn (route : Route) (callee : Address) (value : U256) (spend : Spend) (p : Pulls)
    (m : Multicall) : Prop where
  refundTo : route.Pays m.refundTo
  nftRecipient : route.Pays m.nftRecipient
  runs : m.calls ≠ []
  /-- the pulls pass -/
  pulls : ∃ out, checkPulls route callee (some p) (some spend) = .ok out
  /-- the nested calls pass -/
  nested : ∃ out, each (checkNested route (fun n flow => checkNestedCall n route.deeper flow) value)
    m.calls (0, some Flow.new) = .ok out
  /-- and the deposits exceed the pulls -/
  exceeds : total p.amounts < deposited route.want m.calls

/-- A call of the wallet that is such a pull, through an approval proxy. -/
def OverdrawnCall (id : String) (want : Expected) (inputAmount : U256) (callee : Address)
    (calldata : List UInt8) (value : U256) (spend : Spend) : Prop :=
  ¬ want.isToken callee ∧ want.relayRoles.approvalProxies.contains callee = true ∧
    ∃ p m, readEntry calldata = some (.transferAndMulticall p m) ∧
      Overdrawn ⟨id, want, inputAmount, 0⟩ callee value spend p m

/-- A transaction that spells such a call, of the payer's and on the origin chain. -/
structure OverdrawnItem (lib : Crates) (id : String) (data : Value) (want : Expected)
    (inputAmount : U256) (spend : Spend) : Prop where
  chainId : ((data.get "chainId").bind Value.asU64).getD 0 = want.originChainId
  sender : sameAddress lib (textField data "from") want.user = true
  call : ∃ callee calldata value, Spells lib id data callee calldata value ∧
    OverdrawnCall id want inputAmount callee calldata ((baseUnits lib (some value)).getD U256.MAX)
      spend

/-- A quote whose figures and order pass, and so do its transactions until one that is overdrawn. -/
def Quote.Overdraws (lib : Crates) (want : Expected) (quote : Quote) : Prop :=
  isHash (quote.requestId.getD "") = true ∧
    ∃ inputAmount order, checkDetails lib quote.details want = .ok inputAmount ∧
      signedOrder quote = some order ∧ checkOrder lib order want inputAmount = .ok () ∧
      ∃ before step after acc, quote.steps = before ++ step :: after ∧
        each (checkItems lib want inputAmount) before ⟨[], false, Spend.new⟩ = .ok acc ∧
        step.kind = "transaction" ∧
        ∃ earlier item later acc', step.items = earlier ++ item :: later ∧
          each (checkItem lib want inputAmount step) earlier acc = .ok acc' ∧
          acc'.funded = false ∧
          OverdrawnItem lib step.id item want inputAmount acc'.spend

namespace Evaluation

section Pulls

variable {route : Route} {callee : Address} {value : U256} {m : Multicall}

/-- Without a pull there is no balance to come to. -/
theorem not_short_multicall {spend : Option Spend} :
    ¬ Short route (fun n flow => GumServer.checkNestedCall n route.deeper flow) callee value none m
      spend := by
  rintro ⟨-, -, -, _, _, _, flow, -, hcalls, -⟩
  have hsome := (checkNested_run hcalls).isSome
  cases hsome

/-- The account of a pull: what was consumed is what the nested calls deposit. -/
theorem short_pull {p : Pulls} {spend : Spend} :
    Short route (fun n flow => GumServer.checkNestedCall n route.deeper flow) callee value (some p)
      m (some spend) ↔ Overdrawn route callee value spend p m := by
  have hpulled {spent : Option Spend} {pulledTotal : U256}
      (h : GumServer.checkPulls route callee (some p) (some spend) = .ok (spent, pulledTotal)) :
      pulledTotal.val = total p.amounts := by
    obtain ⟨hlen, hrun⟩ := refuseIf_bind_eq_ok.mp h
    have hsum := (checkPull_run (bne_eq_false_iff_eq.mp hlen) hrun).2.2
    exact hsum.trans (Nat.zero_add _)
  have hdeposited {nestedValue : U256} {flow : Flow}
      (h : each (GumServer.checkNested route
        (fun n flow => GumServer.checkNestedCall n route.deeper flow) value) m.calls
          (0, some Flow.new) = .ok (nestedValue, some flow)) :
      flow.consumed.val = deposited route.want m.calls :=
    (checkNested_run h).consumed.trans (Nat.zero_add _)
  constructor
  · rintro ⟨hrefund, hnft, hruns, spent, pulledTotal, nestedValue, flow, hpulls, hcalls, hlt⟩
    refine ⟨hrefund, hnft, ?_, ⟨_, hpulls⟩, ⟨_, hcalls⟩, ?_⟩
    · intro hnil
      rw [hnil] at hruns
      cases hruns
    · have hlt : pulledTotal.val < flow.consumed.val := hlt
      rwa [hpulled hpulls, hdeposited hcalls] at hlt
  · rintro ⟨hrefund, hnft, hruns, ⟨⟨spent, pulledTotal⟩, hpulls⟩, ⟨⟨nestedValue, flow⟩, hcalls⟩,
      hexceeds⟩
    obtain ⟨flow, rfl⟩ := Option.isSome_iff_exists.mp (checkNested_run hcalls).isSome
    refine ⟨hrefund, hnft, ?_, spent, pulledTotal, nestedValue, flow, hpulls, hcalls, ?_⟩
    · cases hm : m.calls with
      | nil => exact absurd hm hruns
      | cons n rest => rfl
    · rw [← hpulled hpulls, ← hdeposited hcalls] at hexceeds
      exact hexceeds

/-- **A call of the wallet** faults exactly when it is overdrawn. -/
theorem checkCall_answers (id : String) (want : Expected) (inputAmount : U256) (callee : Address)
    (calldata : List UInt8) (value : U256) (spend : Spend) :
    Answers (checkCall id want inputAmount callee calldata value spend)
      (GumServer.checkCall id want inputAmount callee calldata value spend) .underflow
      (OverdrawnCall id want inputAmount callee calldata value spend) := by
  rw [checkCall, GumServer.checkCall]
  by_cases htoken : want.isToken callee
  · rw [if_pos htoken, if_pos htoken]
    refine (Answers.of_sure (checkTokenStep_eq id want inputAmount calldata spend)).congr ?_
    simp [OverdrawnCall, htoken]
  rw [if_neg htoken, if_neg htoken]
  by_cases hrelay : want.relayRoles.contains callee = true
  · rw [if_pos hrelay, if_pos hrelay]
    have hfirst : 0 + 1 < 254 := by decide
    have hanswers := @checkRelayCall_answers ⟨id, want, inputAmount, 0⟩ (some spend) 3
      ⟨callee, calldata, value⟩ (fun n flow => checkNestedCall_eq hfirst) (Nat.zero_lt_succ 254)
    refine (hanswers.bind_sure fun _ _ => rfl).congr ?_
    constructor
    · rintro ⟨e, hread, hrole, hshort⟩
      cases e with
      | multicall m => exact (not_short_multicall hshort).elim
      | transferAndMulticall p m =>
        exact ⟨htoken, hrole, p, m, hread, short_pull.mp hshort⟩
      | depositErc20 _ | depositErc20All | depositNative _ | forward => exact hshort.elim
    · rintro ⟨-, hrole, p, m, hread, hover⟩
      exact ⟨_, hread, hrole, short_pull.mpr hover⟩
  · rw [if_neg hrelay, if_neg hrelay]
    refine (Answers.of_sure rfl).congr ?_
    simp only [false_iff]
    rintro ⟨-, hrole, -⟩
    apply hrelay
    rw [RelayRoles.contains, hrole]
    simp

end Pulls

/-! ## The route -/

section Route

variable {lib : Crates} {want : Expected} {inputAmount : U256}

theorem checkStep_answers (id description : String) (data : Value) (spend : Spend) :
    Answers (checkStep lib id description data want inputAmount spend)
      (GumServer.checkStep lib id description data want inputAmount spend) .underflow
      (OverdrawnItem lib id data want inputAmount spend) := by
  rw [checkStep, GumServer.checkStep]
  simp only [stepCalldata_eq, liftM_eq_attempt, attempt_ok_bind]
  refine (Answers.sure_bind fun _ _ => Answers.sure_bind fun _ _ => Answers.sure_bind fun callee _ =>
    Answers.sure_bind fun calldata _ => Answers.sure_bind fun value _ =>
      (checkCall_answers id want inputAmount callee calldata _ spend).bind_sure
        fun _ _ => rfl).congr ?_
  simp only [monadLift_self, refuseIf_eq_ok, bne_eq_false_iff_eq, Bool.not_eq_false', okOr_eq_ok]
  constructor
  · rintro ⟨_, hchain, _, hsender, callee, hcallee, calldata, hcalldata, value, hvalue, hcall⟩
    exact ⟨hchain, hsender, callee, calldata, value, ⟨hcallee, hcalldata, hvalue⟩, hcall⟩
  · rintro ⟨hchain, hsender, callee, calldata, value, ⟨hcallee, hcalldata, hvalue⟩, hcall⟩
    exact ⟨(), hchain, (), hsender, callee, hcallee, calldata, hcalldata, value, hvalue, hcall⟩

/-- The text that `is_approval` cuts was checked by `check_step`. -/
theorem checkItem_answers (step : QuoteStep) (acc : Progress) (item : Value) :
    Answers (checkItem lib want inputAmount step acc item)
      (GumServer.checkItem lib want inputAmount step acc item) .underflow
      (acc.funded = false ∧ OverdrawnItem lib step.id item want inputAmount acc.spend) := by
  rw [checkItem, GumServer.checkItem]
  refine (Answers.sure_bind fun _ _ =>
    (checkStep_answers step.id step.description item acc.spend).bind_sure ?_).congr ?_
  · rintro ⟨routeStep, spend⟩ hchecked
    obtain ⟨-, -, callee, calldata, value, hspells, -, -⟩ := checkStep_ok.mp hchecked
    simp only [isApproval_eq hspells.calldata, liftM_eq_attempt, attempt_ok_bind]
    rfl
  · simp only [monadLift_self, refuseIf_eq_ok, exists_const]

theorem checkItems_answers (acc : Progress) (step : QuoteStep) :
    Answers (checkItems lib want inputAmount acc step)
      (GumServer.checkItems lib want inputAmount acc step) .underflow
      (step.kind = "transaction" ∧ ∃ earlier item later acc', step.items = earlier ++ item :: later ∧
        each (GumServer.checkItem lib want inputAmount step) earlier acc = .ok acc' ∧
        acc'.funded = false ∧ OverdrawnItem lib step.id item want inputAmount acc'.spend) := by
  rw [checkItems, GumServer.checkItems]
  refine (Answers.sure_bind fun _ _ =>
    Answers.foldlM (checkItem_answers step) step.items acc).congr ?_
  simp only [monadLift_self, refuseIf_eq_ok, bne_eq_false_iff_eq, exists_const]

end Route

/-- **A quote** is evaluated to what the check answers, or it is one that overdraws and the
evaluation subtracts below zero. -/
theorem checkQuote_answers (lib : Crates) (quotedAt : String) (quote : Quote) (want : Expected) :
    Answers (checkQuote lib quotedAt quote want) (GumServer.checkQuote lib quotedAt quote want)
      .underflow (quote.Overdraws lib want) := by
  rw [checkQuote, GumServer.checkQuote]
  simp only [isHash_eq, liftM_eq_attempt, attempt_ok_bind]
  refine (Answers.sure_bind fun _ _ => Answers.sure_bind fun inputAmount _ =>
    Answers.sure_bind fun order _ => Answers.sure_bind fun _ _ =>
      (Answers.foldlM checkItems_answers quote.steps _).bind_sure fun done _ => ?_).congr ?_
  · exact bind_eq_sure rfl fun _ _ => bind_eq_sure rfl fun _ _ => bind_eq_sure rfl fun _ _ =>
      bind_eq_sure rfl fun _ _ => bind_eq_sure rfl fun _ _ => rfl
  · simp only [monadLift_self, refuseIf_eq_ok, Bool.not_eq_false', okOr_eq_ok]
    constructor
    · rintro ⟨_, hid, inputAmount, hdetails, order, horder, _, hcheck, before, step, after, acc,
        hsteps, hbefore, hkind, hitem⟩
      exact ⟨hid, inputAmount, order, hdetails, horder, hcheck, before, step, after, acc, hsteps,
        hbefore, hkind, hitem⟩
    · rintro ⟨hid, inputAmount, order, hdetails, horder, hcheck, before, step, after, acc, hsteps,
        hbefore, hkind, hitem⟩
      exact ⟨(), hid, inputAmount, hdetails, order, horder, (), hcheck, before, step, after, acc,
        hsteps, hbefore, hkind, hitem⟩

/-- Nothing but that subtraction can fault: no text is cut inside a character, no slice leaves its
bytes, nothing expected is missing, no sum wraps and no call nests deeper than its frames. -/
theorem checkQuote_fault {lib : Crates} {quotedAt : String} {quote : Quote} {want : Expected}
    {fault : Fault} (h : (checkQuote lib quotedAt quote want).run = .error fault) :
    fault = .underflow :=
  (checkQuote_answers lib quotedAt quote want).eq_fault h

/-- **Where the evaluation of a quote faults**: exactly on the quotes that overdraw. -/
theorem checkQuote_faults_iff (lib : Crates) (quotedAt : String) (quote : Quote) (want : Expected) :
    (∃ answer, (checkQuote lib quotedAt quote want).run = .ok answer) ↔
      ¬ quote.Overdraws lib want :=
  (checkQuote_answers lib quotedAt quote want).iff

end Evaluation

/-! ## A quote that overdraws -/

namespace Sample

/-- One base unit is pulled; the router approves the depository for two, and deposits two. -/
def overdraft : Arguments where
  pulls := some { tokens := [token], amounts := [1] }
  multicall := {
    calls := [⟨token, false, 0, approval depository 2⟩, ⟨depository, false, 0, deposit 2 9⟩]
    refundTo := 0
    nftRecipient := 0 }
  metadata := none

/-- A quote with this one transaction. -/
def overdrawing : Quote :=
  { quote 9 with steps := [⟨"deposit", "Deposit", "transaction", [item proxy overdraft.calldata]⟩] }

theorem overdraft_within : overdraft.Within where
  tokens := by decide
  amounts := by decide
  calls := by decide
  data := by decide +kernel
  metadata := by decide

theorem overdraft_overdrawn : OverdrawnCall "deposit" want 1000 proxy overdraft.calldata 0
    Spend.new := by
  have hread : readEntry overdraft.calldata = some overdraft.entry :=
    readEntry_of_readArguments (readArguments_calldata overdraft_within)
  have hproxy : ¬ want.isToken proxy := by decide +kernel
  refine ⟨hproxy, by decide +kernel, _, _, hread, ?_⟩
  constructor
  · exact .inl rfl
  · exact .inl rfl
  · exact List.cons_ne_nil _ _
  · exact ⟨(some ⟨1, KeyMap.empty⟩, 1), by decide +kernel⟩
  · have hnested : (each (checkNested ⟨"deposit", want, 1000, 0⟩ (fun n flow =>
        checkNestedCall n (Route.deeper ⟨"deposit", want, 1000, 0⟩) flow) 0)
          overdraft.multicall.calls (0, some Flow.new)).toOption.isSome = true := by
      decide +kernel
    obtain ⟨out, hout⟩ := Option.isSome_iff_exists.mp hnested
    exact ⟨out, toOption_eq_some.mp hout⟩
  · decide +kernel

theorem overdrawing_overdraws : overdrawing.Overdraws Crates.reference want := by
  obtain ⟨done, hacc, -⟩ := quote_accepted
  refine ⟨hacc.requestId, 1000, order, details_ok, rfl, order_ok, [], _, [], _, rfl, rfl, rfl, [], _,
    [], _, rfl, rfl, rfl, rfl, ?_, proxy, overdraft.calldata, "0", ⟨?_, ?_, rfl⟩, ?_⟩
  · exact sameAddress_iff.mpr (Crates.reference.parseAddress_lowerHex user)
  · exact item_callee proxy overdraft.calldata
  · exact item_calldata proxy overdraft.calldata
  · exact overdraft_overdrawn

end Sample

/-- The evaluation of this quote subtracts two from one. -/
theorem overdrawing_quote_underflows :
    (Evaluation.checkQuote Crates.reference "2026-01-01T00:00:00.000Z" Sample.overdrawing
        Sample.want).run = .error .underflow ∧
      ¬ ∃ answer, (Evaluation.checkQuote Crates.reference "2026-01-01T00:00:00.000Z"
        Sample.overdrawing Sample.want).run = .ok answer := by
  have hfault := (Evaluation.checkQuote_answers Crates.reference "2026-01-01T00:00:00.000Z"
    Sample.overdrawing Sample.want).faults Sample.overdrawing_overdraws
  refine ⟨hfault, ?_⟩
  rintro ⟨answer, hanswer⟩
  rw [hfault] at hanswer
  cases hanswer

end GumServer
