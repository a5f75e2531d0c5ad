import Mathlib.Data.List.DropRight
import GumServer.Funding

/-!
# What is returned is what was checked

The loop over a quote reads each transaction twice: `check_step` parses it, checks it and spells it
out again for the page, and `is_approval` tells from the raw JSON whether it funded the payment.

Here the two readings are put together. The steps of an accepted route are the transactions of the
quote, each read back as the target, the bytes and the wei that were checked (`Returned`), and the
list is approvals on the payer's token with one transaction at the end that is something else
(`accepted_route_returned`).
-/

namespace GumServer

open Bytes Checks

/-- All transactions of a quote, each with the step it is an item of. -/
def Quote.transactions (quote : Quote) : List (QuoteStep × Value) :=
  quote.steps.flatMap fun step => step.items.map fun item => (step, item)

/-- The wei a transaction of a quote attaches. -/
def itemWei (lib : Crates) (data : Value) : Option U256 :=
  match data.get "value" with
  | none => some 0
  | some .null => some 0
  | some (.string s) => baseUnits lib (some s)
  | some _ => none

/-- The step that is returned for a transaction: what it spells, read back, is the call that was
checked. -/
structure Returned (lib : Crates) (want : Expected) (inputAmount : U256)
    (tx : QuoteStep × Value) (st : RouteStep) : Prop where
  id : st.id = tx.1.id
  description : st.description = tx.1.description
  chainId : st.chainId = want.originChainId
  call : ∃ callee calldata wei spend spend',
    -- what the transaction says
    lib.parseAddress (textField tx.2 "to") = some callee ∧
    stepCalldata lib (textField tx.2 "data") = some calldata ∧
    itemWei lib tx.2 = some wei ∧
    -- what was checked
    checkCall tx.1.id want inputAmount callee calldata wei spend = .ok spend' ∧
    -- what is returned
    lib.parseAddress st.callee = some callee ∧
    lib.parseBytes st.data = some calldata ∧
    baseUnits lib (some st.value) = some wei

/-- A step that calls `approve` on the payer's token, whatever its arguments. -/
def RouteStep.CallsApprove (lib : Crates) (want : Expected) (st : RouteStep) : Prop :=
  ∃ callee calldata, lib.parseAddress st.callee = some callee ∧
    lib.parseBytes st.data = some calldata ∧ want.isToken callee ∧ calldata.take 4 = APPROVE

/-! ## Values -/

section Value

variable {lib : Crates}

/-- Taking white space off the end brings none back to the front. -/
theorem dropWhile_of_isPrefix {p : Char → Bool} {front l : List Char} (hl : l.dropWhile p = l)
    (hfront : front <+: l) : front.dropWhile p = front := by
  rw [List.dropWhile_eq_self_iff] at hl ⊢
  obtain ⟨rest, rfl⟩ := hfront
  intro hpos
  have hne := hl (by rw [List.length_append]; omega)
  rwa [List.getElem_append_left hpos] at hne

@[simp] theorem trim_trim (s : String) : trim (trim s) = trim s := by
  have htrim (t : String) :
      trim t = String.ofList ((t.toList.dropWhile isWhitespace).rdropWhile isWhitespace) := rfl
  rw [htrim (trim s), htrim s, String.toList_ofList,
    dropWhile_of_isPrefix (List.dropWhile_idempotent _ _) (List.rdropWhile_prefix _ _),
    List.rdropWhile_idempotent]

theorem baseUnits_trim (s : String) : baseUnits lib (some (trim s)) = baseUnits lib (some s) := by
  simp [baseUnits]

theorem baseUnits_zero : baseUnits lib (some "0") = some 0 := by
  have hzero : trim "0" = toString (0 : U256).val := by decide
  rw [baseUnits, Option.bind_some, hzero, lib.fromStrRadix_toString]

/-- The value that goes out is the number that was read. -/
theorem stepValue_wei {id : String} {data : Value} {value : String}
    (h : stepValue lib id (data.get "value") = .ok value) :
    ∃ wei, itemWei lib data = some wei ∧ baseUnits lib (some value) = some wei := by
  rw [itemWei]
  rcases hdata : data.get "value" with _ | v
  · rw [hdata] at h
    cases h
    exact ⟨0, rfl, baseUnits_zero⟩
  rw [hdata] at h
  cases v with
  | null =>
    cases h
    exact ⟨0, rfl, baseUnits_zero⟩
  | string s =>
    simp only [stepValue] at h
    split at h
    · next hsome =>
      cases h
      obtain ⟨wei, hwei⟩ := Option.isSome_iff_exists.mp hsome
      exact ⟨wei, hwei, (baseUnits_trim s).trans hwei⟩
    · cases h
  | _ => cases h

end Value

/-! ## The loop -/

section Loop

variable {lib : Crates} {want : Expected} {inputAmount : U256}

/-- A transaction that was checked is returned. -/
theorem checkStep_returned {step : QuoteStep} {item : Value} {s s' : Spend} {st : RouteStep}
    (h : checkStep lib step.id step.description item want inputAmount s = .ok (st, s')) :
    Returned lib want inputAmount (step, item) st := by
  obtain ⟨hchain, -, callee, calldata, value, hspells, hcall, rfl⟩ := checkStep_ok.mp h
  obtain ⟨wei, hitem, hvalue⟩ := stepValue_wei hspells.value
  rw [hvalue, Option.getD_some] at hcall
  refine ⟨rfl, rfl, hchain, callee, calldata, wei, s, s', hspells.callee, hspells.calldata, hitem,
    hcall, ?_, ?_, hvalue⟩
  · exact lib.parseAddress_lowerHex callee
  · exact parseBytes_lowercase hspells.calldata

theorem checkItem_returned {tx : QuoteStep × Value} {acc acc' : Progress}
    (h : checkItem lib want inputAmount tx.1 acc tx.2 = .ok acc') :
    ∃ st, acc'.steps = acc.steps ++ [st] ∧ Returned lib want inputAmount tx st := by
  obtain ⟨-, h⟩ := refuseIf_bind_eq_ok.mp h
  obtain ⟨⟨st, spend⟩, hchecked, h⟩ := bind_eq_ok.mp h
  obtain rfl := pure_eq_ok.mp h
  exact ⟨st, rfl, checkStep_returned hchecked⟩

/-- The two loops of the source are one loop over all transactions. -/
theorem checkItems_flat {steps : List QuoteStep} {acc done : Progress}
    (h : each (checkItems lib want inputAmount) steps acc = .ok done) :
    each (fun acc (tx : QuoteStep × Value) => checkItem lib want inputAmount tx.1 acc tx.2)
      (steps.flatMap fun step => step.items.map fun item => (step, item)) acc = .ok done := by
  induction steps generalizing acc with
  | nil => exact h
  | cons step steps ih =>
    obtain ⟨mid, hstep, hrest⟩ := each_cons_eq_ok.mp h
    obtain ⟨-, hitems⟩ := refuseIf_bind_eq_ok.mp hstep
    rw [List.flatMap_cons]
    apply each_append_eq_ok.mpr
    refine ⟨mid, ?_, ih hrest⟩
    rw [each_map]
    exact hitems

theorem Accepted.returned {quote : Quote} {done : Progress}
    (h : Accepted lib quote want inputAmount done) :
    List.Forall₂ (Returned lib want inputAmount) quote.transactions done.steps := by
  have hflat := checkItems_flat h.items
  have hcollect : ∃ steps, done.steps = [] ++ steps ∧ List.Forall₂ (Returned lib want inputAmount)
      quote.transactions steps := by
    refine each_collect ?_ hflat
    intro acc tx acc' hitem
    exact checkItem_returned hitem
  obtain ⟨steps, hsteps, hreturned⟩ := hcollect
  rw [hsteps]
  exact hreturned

/-! ## The last transaction -/

/-- A call of `approve` that was returned is one that `is_approval` tells from the raw
transaction, in whatever letter case. -/
theorem Returned.isApproval {tx : QuoteStep × Value} {st : RouteStep}
    (h : Returned lib want inputAmount tx st) (happrove : st.CallsApprove lib want) :
    isApproval lib tx.2 want = true := by
  obtain ⟨callee, calldata, wei, spend, spend', hto, hdata, -, -, hcallee, hcalldata, -⟩ := h.call
  obtain ⟨callee', calldata', hcallee', hcalldata', htoken, hselector⟩ := happrove
  obtain rfl := Option.some.inj (hcallee.symm.trans hcallee')
  obtain rfl := Option.some.inj (hcalldata.symm.trans hcalldata')
  have hlen : 4 ≤ calldata.length := by
    have hfour := congrArg List.length hselector
    rw [List.length_take, show APPROVE.length = 4 from rfl] at hfour
    omega
  rw [isApproval_token htoken hto hdata hlen, hselector]
  exact beq_self_eq_true APPROVE

/-- The loop ends on a transaction that is no approval. -/
theorem Accepted.last {quote : Quote} {done : Progress}
    (h : Accepted lib quote want inputAmount done) :
    ∃ before tx, quote.transactions = before ++ [tx] ∧ isApproval lib tx.2 want = false := by
  have hflat : each _ quote.transactions _ = .ok done := checkItems_flat h.items
  rcases List.eq_nil_or_concat quote.transactions with hnil | ⟨before, tx, htxs⟩
  · -- without transactions nothing is funded
    rw [hnil] at hflat
    cases hflat
    exact absurd h.funded Bool.false_ne_true
  · rw [List.concat_eq_append] at htxs
    refine ⟨before, tx, htxs, ?_⟩
    rw [htxs] at hflat
    obtain ⟨mid, -, hlast⟩ := each_append_eq_ok.mp hflat
    obtain ⟨acc, hitem, hdone⟩ := each_cons_eq_ok.mp hlast
    obtain rfl := Except.ok.inj hdone
    obtain ⟨-, hitem⟩ := refuseIf_bind_eq_ok.mp hitem
    obtain ⟨⟨st, spend⟩, -, hitem⟩ := bind_eq_ok.mp hitem
    obtain rfl := pure_eq_ok.mp hitem
    have hfunded := h.funded
    simpa using hfunded

theorem RouteStep.Approves.token {st : RouteStep} (h : st.Approves lib want) :
    want.originCurrency ≠ 0 := by
  obtain ⟨spender, amount, hact⟩ := h
  obtain ⟨callee, -, hact⟩ := Option.bind_eq_some_iff.mp hact
  obtain ⟨calldata, -, hact⟩ := Option.bind_eq_some_iff.mp hact
  rw [readAct] at hact
  split at hact
  · next htoken => exact htoken.1
  · simp at hact

/-- **What is returned is what was checked, and nothing follows the funding.** The steps of an
accepted route are the transactions of all steps of the quote, in order and one for one, and each is
the call that was checked for its transaction. All but the last approve, on the payer's token, and
the last is no approval; of the native currency there is nothing to approve, and the last is the
only one. -/
theorem accepted_route_returned {quotedAt : String} {quote : Quote} {rq : RouteQuote}
    (haccepted : checkQuote lib quotedAt quote want = .ok rq) :
    (∃ inputAmount, baseUnits lib (some quote.details.currencyIn.amount) = some inputAmount ∧
      List.Forall₂ (Returned lib want inputAmount) quote.transactions rq.steps) ∧
    ∃ approvals last, rq.steps = approvals ++ [last] ∧ (∀ st ∈ approvals, st.Approves lib want) ∧
      ¬ last.CallsApprove lib want ∧ (want.originCurrency = 0 → rq.steps = [last]) := by
  obtain ⟨inputAmount, done, hacc, hsteps⟩ := checkQuote_ok haccepted
  obtain ⟨-, -, hinput⟩ := checkDetails_ok hacc.details
  rw [hsteps]
  refine ⟨⟨inputAmount, hinput, hacc.returned⟩, ?_⟩
  obtain ⟨approvals, last, hfunds, happroves⟩ := hacc.funds
  refine ⟨approvals, last, hfunds, happroves, ?_, ?_⟩
  · -- the last step was returned for the last transaction
    intro hlast
    obtain ⟨before, tx, htxs, hnot⟩ := hacc.last
    have hreturned := hacc.returned
    rw [htxs, hfunds] at hreturned
    have hreversed := List.forall₂_reverse_iff.mpr hreturned
    simp only [List.reverse_append, List.reverse_singleton, List.singleton_append,
      List.forall₂_cons] at hreversed
    rw [hreversed.1.isApproval hlast] at hnot
    cases hnot
  · intro hnative
    have hnone : approvals = [] := by
      apply List.eq_nil_iff_forall_not_mem.mpr
      intro st hst
      exact (happroves st hst).token hnative
    rw [hfunds, hnone, List.nil_append]

theorem accepted_route_returned_sample :
    ∃ rq, checkQuote Crates.reference "2026-01-01T00:00:00.000Z" (Sample.quote 9) Sample.want =
        .ok rq ∧
      (∃ inputAmount,
        baseUnits Crates.reference (some (Sample.quote 9).details.currencyIn.amount) =
          some inputAmount ∧
        List.Forall₂ (Returned Crates.reference Sample.want inputAmount)
          (Sample.quote 9).transactions rq.steps) ∧
      ∃ approvals last, rq.steps = approvals ++ [last] ∧
        (∀ st ∈ approvals, st.Approves Crates.reference Sample.want) ∧
        ¬ last.CallsApprove Crates.reference Sample.want ∧
        (Sample.want.originCurrency = 0 → rq.steps = [last]) := by
  obtain ⟨done, hacc, -⟩ := Sample.quote_accepted
  obtain ⟨rq, hrq, -⟩ := hacc.checkQuote
  exact ⟨rq, hrq, accepted_route_returned hrq⟩

end Loop

end GumServer
