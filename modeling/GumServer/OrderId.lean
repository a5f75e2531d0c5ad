import GumServer.Router

/-!
# The order id in the calldata

A deposit names the order it is for: the last word of `depositErc20` and `depositNative`.
The signed order is checked in one place and the calldata in another, and the order id is
read in neither to be compared. So nothing ties the two: from any accepted quote, another
order id in any of its deposits, at the top level or nested, makes a quote that is accepted
just the same.
-/

namespace GumServer

open Bytes Checks

/-! ## Another order id -/

/-- The bytes of a deposit with its order id replaced by another one, and nothing else. -/
inductive SwapsId : List UInt8 → List UInt8 → Prop where
  /-- the fourth word of `depositErc20` -/
  | erc20 {words id id' rest : List UInt8} (hwords : words.length = 96) (hid : id.length = 32)
      (hid' : id'.length = 32) (hne : id' ≠ id) :
      SwapsId (DEPOSIT_ERC20 ++ (words ++ (id ++ rest))) (DEPOSIT_ERC20 ++ (words ++ (id' ++ rest)))
  /-- the second word of `depositNative` -/
  | native {words id id' rest : List UInt8} (hwords : words.length = 32) (hid : id.length = 32)
      (hid' : id'.length = 32) (hne : id' ≠ id) :
      SwapsId (DEPOSIT_NATIVE ++ (words ++ (id ++ rest)))
        (DEPOSIT_NATIVE ++ (words ++ (id' ++ rest)))

/-- The same nested calls but for the order id of one deposit. -/
inductive SwapsNested : Multicall → Multicall → Prop where
  /-- one call's bytes differ -/
  | one {before after : List NestedCall} {n : NestedCall} {data : List UInt8}
      {refundTo nftRecipient : Address} (hswap : SwapsId n.data data) :
      SwapsNested ⟨before ++ n :: after, refundTo, nftRecipient⟩
        ⟨before ++ { n with data } :: after, refundTo, nftRecipient⟩

/-- The calldata of a transaction with the order id of one of its deposits replaced: the
transaction is the deposit, or it is a multicall that reads the same but for a nested one. -/
inductive SwapsOrderId (calldata calldata' : List UInt8) : Prop where
  /-- a deposit of the wallet's -/
  | top (hswap : SwapsId calldata calldata')
  /-- a deposit nested in a multicall -/
  | multicall {m m' : Multicall} (reads : readEntry calldata = some (.multicall m))
      (reads' : readEntry calldata' = some (.multicall m')) (hswap : SwapsNested m m')
  /-- a deposit nested in a pull -/
  | transferAndMulticall {p : Pulls} {m m' : Multicall}
      (reads : readEntry calldata = some (.transferAndMulticall p m))
      (reads' : readEntry calldata' = some (.transferAndMulticall p m'))
      (hswap : SwapsNested m m')

/-- A transaction's open JSON with other calldata, and nothing else. -/
structure SwapsItem (lib : Crates) (item item' : Value) : Prop where
  others : ∀ key, key ≠ "data" → item'.get key = item.get key
  calldata : ∃ calldata calldata', stepCalldata lib (textField item "data") = some calldata ∧
    stepCalldata lib (textField item' "data") = some calldata' ∧ SwapsOrderId calldata calldata'

/-- The quote with the order id of one deposit replaced by another one. -/
inductive ReplacesOrderId (lib : Crates) : Quote → Quote → Prop where
  /-- in one transaction of one step -/
  | one {quote : Quote} {before after : List QuoteStep} {step : QuoteStep}
      {items items' : List Value} {item item' : Value} (hitem : SwapsItem lib item item') :
      ReplacesOrderId lib
        { quote with steps := before ++ { step with items := items ++ item :: items' } :: after }
        { quote with steps := before ++ { step with items := items ++ item' :: items' } :: after }

/-! ## Calls -/

section Calls

variable {words id id' rest : List UInt8}

/-- `depositErc20`'s other arguments are read without its order id. -/
theorem readDepositErc20_swap (hwords : words.length = 96) (hid : id.length = 32)
    (hid' : id'.length = 32) {d : DepositErc20}
    (h : readDepositErc20 (words ++ (id ++ rest)) = some d) :
    readDepositErc20 (words ++ (id' ++ rest)) = some { d with orderId := id' } := by
  rw [readDepositErc20_eq] at h ⊢
  rw [slice?_append_left (by omega), slice?_append_left (by omega), slice?_append_left (by omega),
    slice?_append hwords 0, slice?_append_left (by omega)] at h ⊢
  obtain ⟨depositor, hdepositor, h⟩ := Option.bind_eq_some_iff.mp h
  obtain ⟨token, htoken, h⟩ := Option.bind_eq_some_iff.mp h
  obtain ⟨amount, hamount, h⟩ := Option.bind_eq_some_iff.mp h
  obtain ⟨_, -, rfl⟩ := Option.map_eq_some_iff.mp h
  rw [hdepositor, Option.bind_some, htoken, Option.bind_some, hamount, Option.bind_some]
  rw [slice?, if_pos (by omega), Option.map_some, List.drop_zero, List.take_of_length_le (by omega)]

theorem readDepositNative_swap (hwords : words.length = 32) (hid : id.length = 32)
    (hid' : id'.length = 32) {d : DepositNative}
    (h : readDepositNative (words ++ (id ++ rest)) = some d) :
    readDepositNative (words ++ (id' ++ rest)) = some { d with orderId := id' } := by
  rw [readDepositNative_eq] at h ⊢
  rw [slice?_append_left (by omega), slice?_append hwords 0, slice?_append_left (by omega)] at h ⊢
  obtain ⟨depositor, hdepositor, h⟩ := Option.bind_eq_some_iff.mp h
  obtain ⟨_, -, rfl⟩ := Option.map_eq_some_iff.mp h
  rw [hdepositor, Option.bind_some]
  rw [slice?, if_pos (by omega), Option.map_some, List.drop_zero, List.take_of_length_le (by omega)]

variable {route : Route} {spend spend' : Option Spend} {data data' : List UInt8}

/-- A call on Relay's contracts that reads the same way on the same terms is accepted too. -/
theorem checkRelayCall_congr {callee : Address} {value : U256}
    (hsame : ∀ e, readEntry data = some e →
      ∃ e', readEntry data' = some e' ∧
        e'.servedBy route.want.relayRoles callee = e.servedBy route.want.relayRoles callee ∧
        (Accepts route callee value spend spend' e → Accepts route callee value spend spend' e'))
    (h : checkRelayCall ⟨callee, data, value⟩ route spend = .ok spend') :
    checkRelayCall ⟨callee, data', value⟩ route spend = .ok spend' := by
  obtain ⟨e, hread, hrole, haccepts⟩ := checkRelayCall_ok.mp h
  obtain ⟨e', hread', hrole', himp⟩ := hsame e hread
  exact checkRelayCall_ok.mpr ⟨e', hread', hrole'.trans hrole, himp haccepts⟩

/-- A deposit is accepted whatever its order id. -/
theorem SwapsId.checkRelayCall (hswap : SwapsId data data') {callee : Address} {value : U256}
    (h : checkRelayCall ⟨callee, data, value⟩ route spend = .ok spend') :
    checkRelayCall ⟨callee, data', value⟩ route spend = .ok spend' := by
  refine checkRelayCall_congr ?_ h
  intro e he
  cases hswap with
  | erc20 hwords hid hid' _ =>
    rw [readEntry_append_depositErc20] at he ⊢
    obtain ⟨d, hd, rfl⟩ := Option.map_eq_some_iff.mp he
    rw [readDepositErc20_swap hwords hid hid' hd]
    exact ⟨_, rfl, rfl, id⟩
  | native hwords hid hid' _ =>
    rw [readEntry_append_depositNative] at he ⊢
    obtain ⟨d, hd, rfl⟩ := Option.map_eq_some_iff.mp he
    rw [readDepositNative_swap hwords hid hid' hd]
    exact ⟨_, rfl, rfl, id⟩

/-- Neither selector is one the payer's token is called with. -/
theorem SwapsId.not_token (hswap : SwapsId data data') :
    (readTokenCall data).bind TokenCall.act = none := by
  cases hswap with
  | erc20 _ _ _ _ => exact tokenAct_eq_none (splitAtChecked_eq_some.mpr ⟨rfl, rfl⟩) rfl
  | native _ _ _ _ => exact tokenAct_eq_none (splitAtChecked_eq_some.mpr ⟨rfl, rfl⟩) rfl

/-- What the flow reads of a deposit is not its order id. -/
theorem SwapsId.flow (hswap : SwapsId data data') :
    DEPOSIT_ERC20.isPrefixOf data' = DEPOSIT_ERC20.isPrefixOf data ∧
      (DEPOSIT_ERC20.isPrefixOf data = true → slice? data' 68 32 = slice? data 68 32) := by
  cases hswap with
  | erc20 hwords _ _ _ =>
    have hp : ∀ l, DEPOSIT_ERC20.isPrefixOf (DEPOSIT_ERC20 ++ l) = true := fun l =>
      List.isPrefixOf_iff_prefix.mpr (List.prefix_append _ _)
    refine ⟨by rw [hp, hp], fun _ => ?_⟩
    rw [slice?_append (w := DEPOSIT_ERC20) (i := 4) rfl 64,
      slice?_append (w := DEPOSIT_ERC20) (i := 4) rfl 64,
      slice?_append_left (by omega), slice?_append_left (by omega)]
  | native _ _ _ _ =>
    exact ⟨rfl, nofun⟩

/-- A nested deposit is accepted whatever its order id. -/
theorem SwapsId.checkNestedCall {n : NestedCall} {flow flow' : Option Flow}
    (hswap : SwapsId n.data data')
    (h : checkNestedCall n route flow = .ok flow') :
    checkNestedCall { n with data := data' } route flow = .ok flow' := by
  unfold GumServer.checkNestedCall at h ⊢
  dsimp only at h ⊢
  split at h
  · cases h
  next hdepth =>
  rw [dif_neg hdepth]
  split at h
  · next htoken =>
    obtain ⟨act, hact, -⟩ := (checkNestedToken_step htoken h).flat
    rw [readAct_token _ htoken, hswap.not_token] at hact
    cases hact
  next htoken =>
  rw [if_neg htoken]
  split at h
  · next hrole =>
    rw [if_pos hrole]
    obtain ⟨spent, hrelay, h⟩ := bind_eq_ok.mp h
    refine bind_eq_ok.mpr ⟨spent, hswap.checkRelayCall hrelay, ?_⟩
    obtain ⟨hstarts, hslice⟩ := hswap.flow
    rw [hstarts]
    cases flow with
    | none => exact h
    | some f =>
      dsimp only at h ⊢
      split at h
      · next hpulls =>
        rw [if_pos hpulls]
        rw [Bool.and_eq_true] at hpulls
        rw [chargeDeposit] at h ⊢
        rw [hslice hpulls.2]
        exact h
      · next hpulls =>
        rw [if_neg hpulls]
        exact h
  · cases h

/-- So is the multicall around it. -/
theorem SwapsNested.checkMulticall {m m' : Multicall} {callee : Address} {txValue : U256}
    {pulls : Option Pulls} (hswap : SwapsNested m m')
    (h : checkMulticall route (fun n flow => GumServer.checkNestedCall n route.deeper flow) callee
      txValue pulls m spend = .ok spend') :
    checkMulticall route (fun n flow => GumServer.checkNestedCall n route.deeper flow) callee
      txValue pulls m' spend = .ok spend' := by
  cases hswap with
  | @one before after n data refundTo nftRecipient hswap =>
    obtain ⟨hrefund, hnft, hempty, pulledTotal, nestedValue, flow, hpulls, hcalls, hflow⟩ :=
      checkMulticall_ok.mp h
    obtain ⟨mid, hbefore, hrest⟩ := each_append_eq_ok.mp hcalls
    obtain ⟨mid', hn, hafter⟩ := each_cons_eq_ok.mp hrest
    obtain ⟨hfirm, hvalue, hle, hnested⟩ := checkNested_ok.mp hn
    refine checkMulticall_ok.mpr
      ⟨hrefund, hnft, ?_, pulledTotal, nestedValue, flow, hpulls, ?_, hflow⟩
    · simp
    · refine each_append_eq_ok.mpr ⟨mid, hbefore, each_cons_eq_ok.mpr ⟨mid', ?_, hafter⟩⟩
      exact checkNested_ok.mpr ⟨hfirm, hvalue, hle, hswap.checkNestedCall hnested⟩

theorem SwapsOrderId.not_token (hswap : SwapsOrderId data data') :
    (readTokenCall data).bind TokenCall.act = none := by
  cases hswap with
  | top hswap => exact hswap.not_token
  | multicall reads _ _ =>
    obtain ⟨_, _, _, hsplit, hsel⟩ := readEntry_splitAt reads
    exact tokenAct_eq_none hsplit hsel
  | transferAndMulticall reads _ _ =>
    obtain ⟨_, _, _, hsplit, hsel⟩ := readEntry_splitAt reads
    exact tokenAct_eq_none hsplit hsel

theorem SwapsOrderId.checkRelayCall {callee : Address} {value : U256}
    (hswap : SwapsOrderId data data')
    (h : GumServer.checkRelayCall ⟨callee, data, value⟩ route spend = .ok spend') :
    GumServer.checkRelayCall ⟨callee, data', value⟩ route spend = .ok spend' := by
  cases hswap with
  | top hswap => exact hswap.checkRelayCall h
  | multicall reads reads' hswap =>
    refine checkRelayCall_congr ?_ h
    intro e he
    obtain rfl := Option.some.inj (reads.symm.trans he)
    exact ⟨_, reads', rfl, hswap.checkMulticall⟩
  | transferAndMulticall reads reads' hswap =>
    refine checkRelayCall_congr ?_ h
    intro e he
    obtain rfl := Option.some.inj (reads.symm.trans he)
    exact ⟨_, reads', rfl, hswap.checkMulticall⟩

/-- A transaction of the wallet is accepted whatever the order ids in it; it is never on the
token. -/
theorem SwapsOrderId.checkCall {id : String} {want : Expected} {inputAmount : U256}
    {callee : Address} {value : U256} {s s' : Spend} (hswap : SwapsOrderId data data')
    (h : checkCall id want inputAmount callee data value s = .ok s') :
    ¬ want.isToken callee ∧ checkCall id want inputAmount callee data' value s = .ok s' := by
  obtain ⟨act, hact, -⟩ := (checkCall_step h).exists_reads
  have htoken : ¬ want.isToken callee := by
    intro htoken
    rw [readAct_token _ htoken, hswap.not_token] at hact
    cases hact
  rw [GumServer.checkCall] at h ⊢
  rw [if_neg htoken] at h ⊢
  refine ⟨htoken, ?_⟩
  split at h
  · next hrole =>
    rw [if_pos hrole]
    obtain ⟨spent, hrelay, h⟩ := bind_eq_ok.mp h
    exact bind_eq_ok.mpr ⟨spent, hswap.checkRelayCall hrelay, h⟩
  · cases h

end Calls

/-! ## Quotes -/

section Quotes

variable {lib : Crates} {want : Expected} {inputAmount : U256}

/-- The rest of the check cannot tell the two routes apart. -/
structure SameProgress (x y : Progress) : Prop where
  funded : y.funded = x.funded
  spend : y.spend = x.spend
  values : y.steps.map RouteStep.value = x.steps.map RouteStep.value

theorem checkItem_same {step : QuoteStep} {item : Value} {x y x' : Progress}
    (hsame : SameProgress x y) (h : checkItem lib want inputAmount step x item = .ok x') :
    ∃ y', checkItem lib want inputAmount step y item = .ok y' ∧ SameProgress x' y' := by
  obtain ⟨hfunded, h⟩ := refuseIf_bind_eq_ok.mp h
  obtain ⟨⟨st, spend⟩, hchecked, h⟩ := bind_eq_ok.mp h
  obtain rfl := pure_eq_ok.mp h
  refine ⟨⟨y.steps ++ [st], !isApproval lib item want, spend⟩, ?_, rfl, rfl, ?_⟩
  · refine refuseIf_bind_eq_ok.mpr ⟨hsame.funded.trans hfunded, bind_eq_ok.mpr ⟨(st, spend), ?_, rfl⟩⟩
    rw [hsame.spend]
    exact hchecked
  · rw [List.map_append, List.map_append, hsame.values]

theorem checkItems_same {step : QuoteStep} {x y x' : Progress}
    (hsame : SameProgress x y) (h : checkItems lib want inputAmount x step = .ok x') :
    ∃ y', checkItems lib want inputAmount y step = .ok y' ∧ SameProgress x' y' := by
  obtain ⟨hkind, h⟩ := refuseIf_bind_eq_ok.mp h
  obtain ⟨y', hy', hsame'⟩ := each_sim checkItem_same hsame h
  exact ⟨y', refuseIf_bind_eq_ok.mpr ⟨hkind, hy'⟩, hsame'⟩

/-- The transaction with another order id is accepted, at the same price. -/
theorem SwapsItem.checkItem {step : QuoteStep} {item item' : Value} {x x' : Progress}
    (hswap : SwapsItem lib item item')
    (h : checkItem lib want inputAmount step x item = .ok x') :
    ∃ y', checkItem lib want inputAmount step x item' = .ok y' ∧ SameProgress x' y' := by
  obtain ⟨hfunded, h⟩ := refuseIf_bind_eq_ok.mp h
  obtain ⟨⟨st, spend⟩, hchecked, h⟩ := bind_eq_ok.mp h
  obtain rfl := pure_eq_ok.mp h
  obtain ⟨hchain, hfrom, callee, calldata, value, hspells, hcall, rfl⟩ := checkStep_ok.mp hchecked
  obtain ⟨calldata₁, calldata', hcalldata, hcalldata', hid⟩ := hswap.calldata
  obtain rfl := Option.some.inj (hspells.calldata.symm.trans hcalldata)
  obtain ⟨htoken, hcall'⟩ := hid.checkCall hcall
  have htext : ∀ key, key ≠ "data" → textField item' key = textField item key := by
    intro key hkey
    rw [textField, Value.strField, hswap.others key hkey, textField, Value.strField]
  have hcallee' : lib.parseAddress (textField item' "to") = some callee := by
    rw [htext "to" (by decide)]
    exact hspells.callee
  refine ⟨⟨x.steps ++ [_], !isApproval lib item' want, spend⟩, refuseIf_bind_eq_ok.mpr ⟨hfunded,
    bind_eq_ok.mpr ⟨_, checkStep_ok.mpr ⟨?_, ?_, callee, calldata', value, ⟨hcallee', hcalldata', ?_⟩,
      hcall', rfl⟩, rfl⟩⟩, ?_, rfl, ?_⟩
  · rw [hswap.others "chainId" (by decide)]
    exact hchain
  · rw [htext "from" (by decide)]
    exact hfrom
  · rw [hswap.others "value" (by decide)]
    exact hspells.value
  · dsimp only
    rw [isApproval_relay hcallee' htoken, isApproval_relay hspells.callee htoken]
  · simp

theorem ReplacesOrderId.items {quote quote' : Quote} {x x' : Progress}
    (hreplaces : ReplacesOrderId lib quote quote')
    (h : each (checkItems lib want inputAmount) quote.steps x = .ok x') :
    ∃ y', each (checkItems lib want inputAmount) quote'.steps x = .ok y' ∧ SameProgress x' y' := by
  cases hreplaces with
  | one hitem =>
    obtain ⟨mid, hbefore, h⟩ := each_append_eq_ok.mp h
    obtain ⟨mid', hstep, hafter⟩ := each_cons_eq_ok.mp h
    obtain ⟨hkind, hstep⟩ := refuseIf_bind_eq_ok.mp hstep
    obtain ⟨acc, hitems, hstep⟩ := each_append_eq_ok.mp hstep
    obtain ⟨acc', hone, hrest⟩ := each_cons_eq_ok.mp hstep
    obtain ⟨acc₁, hone', hsame⟩ := hitem.checkItem hone
    obtain ⟨mid₁, hrest', hsame⟩ := each_sim checkItem_same hsame hrest
    obtain ⟨y', hafter', hsame⟩ := each_sim checkItems_same hsame hafter
    refine ⟨y', each_append_eq_ok.mpr ⟨mid, hbefore, each_cons_eq_ok.mpr ⟨mid₁, ?_, hafter'⟩⟩, hsame⟩
    refine refuseIf_bind_eq_ok.mpr ⟨hkind, each_append_eq_ok.mpr ⟨acc, hitems, ?_⟩⟩
    exact each_cons_eq_ok.mpr ⟨acc₁, hone', hrest'⟩

theorem addValue_same {steps steps' : List RouteStep} {acc out : U256}
    (hvalues : steps'.map RouteStep.value = steps.map RouteStep.value)
    (h : each (addValue lib) steps acc = .ok out) : each (addValue lib) steps' acc = .ok out := by
  induction steps generalizing steps' acc with
  | nil =>
    obtain rfl := List.map_eq_nil_iff.mp hvalues
    exact h
  | cons st steps ih =>
    obtain ⟨st', rest, rfl, hst, hrest⟩ := List.map_eq_cons_iff.mp hvalues
    obtain ⟨mid, hone, h⟩ := each_cons_eq_ok.mp h
    refine each_cons_eq_ok.mpr ⟨mid, ?_, ih hrest h⟩
    rw [addValue] at hone ⊢
    rw [hst]
    exact hone

/-- The quote with another order id passes every part of the check. -/
theorem Accepted.replaces {quote quote' : Quote} {done : Progress}
    (h : Accepted lib quote want inputAmount done) (hreplaces : ReplacesOrderId lib quote quote') :
    ∃ done', Accepted lib quote' want inputAmount done' := by
  obtain ⟨done', hitems, hsame⟩ := hreplaces.items h.items
  obtain ⟨value, hvalue, hlimit⟩ := h.value
  obtain ⟨taken, htaken, hle⟩ := h.spend
  cases hreplaces with
  | one _ =>
    exact ⟨done', {
      requestId := h.requestId
      details := h.details
      order := h.order
      items := hitems
      funded := hsame.funded.trans h.funded
      value := ⟨value, addValue_same hsame.values hvalue, hlimit⟩
      spend := ⟨taken, hsame.spend ▸ htaken, hle⟩ }⟩

/-- **The order id binds nothing**: no accepted quote is rejected for another order id in one
of its deposits. -/
theorem order_id_never_checked {quotedAt : String} {quote quote' : Quote} {rq : RouteQuote}
    (haccepted : checkQuote lib quotedAt quote want = .ok rq)
    (hreplaces : ReplacesOrderId lib quote quote') :
    ∃ rq', checkQuote lib quotedAt quote' want = .ok rq' := by
  obtain ⟨inputAmount, done, hacc, -⟩ := checkQuote_ok haccepted
  obtain ⟨done', hacc'⟩ := hacc.replaces hreplaces
  obtain ⟨rq', hrq', -⟩ := hacc'.checkQuote
  exact ⟨rq', hrq'⟩

end Quotes

/-! ## The sample route, with another order id -/

namespace Sample

/-- What the sample's pull reads as. -/
def calls (id : ℕ) : List NestedCall :=
  [⟨token, false, 0, approval depository 1000⟩, ⟨depository, false, 0, deposit 1000 id⟩]

theorem reads_pull_nine : readEntry (pull 1000 9) =
    some (.transferAndMulticall ⟨[token], [1000]⟩ ⟨calls 9, 0, 0⟩) := by
  decide +kernel

theorem reads_pull_ten : readEntry (pull 1000 10) =
    some (.transferAndMulticall ⟨[token], [1000]⟩ ⟨calls 10, 0, 0⟩) := by
  decide +kernel

theorem deposit_swaps : SwapsId (deposit 1000 9) (deposit 1000 10) := by
  have hwords : (toBe 32 0 ++ (toBe 32 token.val ++ toBe 32 1000)).length = 96 := by simp
  have hne : toBe 32 10 ≠ toBe 32 9 := by decide +kernel
  have hswap := @SwapsId.erc20 _ _ _ [] hwords (length_toBe 32 9) (length_toBe 32 10) hne
  simpa [deposit] using hswap

theorem item_swaps : SwapsItem Crates.reference (item proxy (pull 1000 9))
    (item proxy (pull 1000 10)) := by
  refine ⟨fun key hkey => ?_, pull 1000 9, pull 1000 10, item_calldata _ _, item_calldata _ _,
    .transferAndMulticall reads_pull_nine reads_pull_ten ?_⟩
  · simp [item, Value.get, List.lookup_cons, beq_eq_false_iff_ne.mpr hkey]
  · exact @SwapsNested.one [⟨token, false, 0, approval depository 1000⟩] []
      ⟨depository, false, 0, deposit 1000 9⟩ _ 0 0 deposit_swaps

theorem quote_replaces : ReplacesOrderId Crates.reference (quote 9) (quote 10) :=
  @ReplacesOrderId.one _ (quote 9)
    [⟨"approve", "Approve", "transaction", [item token (approval proxy 1000)]⟩] []
    ⟨"deposit", "Deposit", "transaction", []⟩ [] [] _ _ item_swaps

end Sample

theorem order_id_never_checked_sample :
    (∃ rq, checkQuote Crates.reference "2026-01-01T00:00:00.000Z" (Sample.quote 9) Sample.want =
        .ok rq) ∧
      ReplacesOrderId Crates.reference (Sample.quote 9) (Sample.quote 10) ∧
      ∃ rq', checkQuote Crates.reference "2026-01-01T00:00:00.000Z" (Sample.quote 10) Sample.want =
        .ok rq' := by
  obtain ⟨done, hacc, -⟩ := Sample.quote_accepted
  obtain ⟨rq, hrq, -⟩ := hacc.checkQuote
  exact ⟨⟨rq, hrq⟩, Sample.quote_replaces, order_id_never_checked hrq Sample.quote_replaces⟩

/-- A quote accepted for one order, accepted again with the deposit made out to another. -/
theorem order_id_replaced_accepted :
    ¬ ∀ {quote quote' : Quote} {want : Expected} {rq rq' : RouteQuote},
      checkQuote Crates.reference "2026-01-01T00:00:00.000Z" quote want = .ok rq →
      ReplacesOrderId Crates.reference quote quote' →
      checkQuote Crates.reference "2026-01-01T00:00:00.000Z" quote' want ≠ .ok rq' := by
  intro hclaim
  obtain ⟨done, hacc, -⟩ := Sample.quote_accepted
  obtain ⟨rq, hrq, -⟩ := hacc.checkQuote
  obtain ⟨done', hacc'⟩ := hacc.replaces Sample.quote_replaces
  obtain ⟨rq', hrq', -⟩ := hacc'.checkQuote
  exact hclaim hrq Sample.quote_replaces hrq'

end GumServer
