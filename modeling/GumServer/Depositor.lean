import GumServer.Router

/-!
# Who a deposit is credited to

Relay's depository credits the depositor a call names, or its caller when the call names nobody.
Both are fine for a call of the wallet's own. The router runs nested calls, so there nobody means
the router; the check of the depositor is the same at both levels, and lets it through.

So an accepted route credits the payer with all of its deposits exactly when no nested one names
nobody.
-/

namespace GumServer

open Checks

/-- The depositor a call names, if it is a deposit. -/
def Act.depositor : Act → Option Address
  | .relay (.depositErc20 d) => some d.depositor
  | .relay (.depositNative d) => some d.depositor
  | _ => none

/-- Whom the depository credits. -/
def credited (caller depositor : Address) : Address := if depositor = 0 then caller else depositor

/-- A call by this caller makes a deposit for this party, itself or in a nested call, which the
router makes. -/
inductive Credits (want : Expected) (router : Address) :
    Address → Address → List UInt8 → Address → Prop where
  /-- the call is a deposit -/
  | own {caller callee : Address} {data : List UInt8} {act : Act} {depositor : Address}
      (reads : readAct want callee data = some act) (deposits : act.depositor = some depositor) :
      Credits want router caller callee data (credited caller depositor)
  /-- one of its nested calls is -/
  | nested {caller callee party : Address} {data : List UInt8} {act : Act} {n : NestedCall}
      (reads : readAct want callee data = some act) (mem : n ∈ act.nested)
      (credits : Credits want router router n.target n.data party) :
      Credits want router caller callee data party

/-- A transaction of a quote, as it is spelled. -/
def Quote.Sends (lib : Crates) (quote : Quote) (callee : Address) (calldata : List UInt8) : Prop :=
  ∃ step ∈ quote.steps, ∃ item ∈ step.items,
    lib.parseAddress (textField item "to") = some callee ∧
      stepCalldata lib (textField item "data") = some calldata

/-- Every deposit of the route is the payer's. -/
def Quote.CreditsPayer (lib : Crates) (want : Expected) (router : Address) (quote : Quote) : Prop :=
  ∀ callee calldata party, quote.Sends lib callee calldata →
    Credits want router want.user callee calldata party → party = want.user

/-- A nested deposit of the route names nobody. -/
def Quote.NestsNobody (lib : Crates) (want : Expected) (quote : Quote) : Prop :=
  ∃ callee calldata act n act', quote.Sends lib callee calldata ∧
    readAct want callee calldata = some act ∧ n ∈ act.nested ∧
      readAct want n.target n.data = some act' ∧ act'.depositor = some 0

/-! ## The depositor that is checked -/

section Relay

variable {route : Route} {callee depositor : Address} {data : List UInt8} {act : Act}

/-- A deposit on one of Relay's contracts names the payer, or nobody. -/
theorem checkRelayCall_pays {value : U256} {spend spend' : Option Spend}
    (htoken : ¬ route.want.isToken callee)
    (h : checkRelayCall ⟨callee, data, value⟩ route spend = .ok spend')
    (hread : readAct route.want callee data = some act) (hact : act.depositor = some depositor) :
    route.Pays depositor := by
  obtain ⟨e, he, hrole, haccepts⟩ := checkRelayCall_ok.mp h
  obtain rfl := Option.some.inj (hread.symm.trans (readAct_relay htoken he hrole))
  cases e with
  | depositErc20 d =>
    obtain rfl := Option.some.inj hact
    exact haccepts.1
  | depositNative d =>
    obtain rfl := Option.some.inj hact
    exact haccepts.1
  | _ => cases hact

/-- The token takes no deposits and runs no calls. -/
theorem readAct_token_plain {want : Expected} (htoken : want.isToken callee)
    (hread : readAct want callee data = some act) : act.depositor = none ∧ act.nested = [] := by
  rw [readAct_token data htoken] at hread
  obtain ⟨call, -, hcall⟩ := Option.bind_eq_some_iff.mp hread
  rw [TokenCall.act] at hcall
  split at hcall
  · obtain rfl := Option.some.inj hcall
    exact ⟨rfl, rfl⟩
  · split at hcall
    · obtain rfl := Option.some.inj hcall
      exact ⟨rfl, rfl⟩
    · cases hcall

/-- A nested deposit names the payer, or nobody, just the same. -/
theorem checkNestedCall_pays {n : NestedCall} {flow flow' : Option Flow}
    (h : checkNestedCall n route flow = .ok flow')
    (hread : readAct route.want n.target n.data = some act)
    (hact : act.depositor = some depositor) : route.Pays depositor := by
  unfold checkNestedCall at h
  dsimp only at h
  split at h
  · cases h
  split at h
  · next htoken =>
    rw [(readAct_token_plain htoken hread).1] at hact
    cases hact
  next htoken =>
  split at h
  · obtain ⟨spent, hrelay, -⟩ := bind_eq_ok.mp h
    have hpays : route.deeper.Pays depositor := checkRelayCall_pays htoken hrelay hread hact
    exact hpays
  · cases h

/-- The nested calls of an accepted call were each accepted. -/
theorem checkRelayCall_nested {value : U256} {spend spend' : Option Spend}
    (htoken : ¬ route.want.isToken callee)
    (h : checkRelayCall ⟨callee, data, value⟩ route spend = .ok spend')
    (hread : readAct route.want callee data = some act) {n : NestedCall} (hn : n ∈ act.nested) :
    ∃ flow flow', checkNestedCall n route.deeper flow = .ok flow' := by
  have hmem {pulls : Option Pulls} {m : Multicall} (hn : n ∈ m.calls)
      (h : checkMulticall route (fun n flow => checkNestedCall n route.deeper flow) callee value
        pulls m spend = .ok spend') :
      ∃ flow flow', checkNestedCall n route.deeper flow = .ok flow' := by
    obtain ⟨-, -, -, _, _, _, -, hcalls, -⟩ := checkMulticall_ok.mp h
    obtain ⟨_, _, hone⟩ := each_mem hcalls hn
    exact ⟨_, _, (checkNested_ok.mp hone).2.2.2⟩
  obtain ⟨e, he, hrole, haccepts⟩ := checkRelayCall_ok.mp h
  obtain rfl := Option.some.inj (hread.symm.trans (readAct_relay htoken he hrole))
  cases e with
  | multicall m => exact hmem hn haccepts
  | transferAndMulticall p m => exact hmem hn haccepts
  | _ => cases hn

end Relay

/-! ## Accepted routes -/

section Quotes

variable {lib : Crates} {quote : Quote} {want : Expected} {inputAmount : U256} {done : Progress}
  {callee : Address} {calldata : List UInt8} {act : Act}

/-- The call of a transaction of an accepted quote was accepted. -/
theorem Accepted.sends (h : Accepted lib quote want inputAmount done)
    (hsends : quote.Sends lib callee calldata) :
    ∃ id value s s', checkCall id want inputAmount callee calldata value s = .ok s' := by
  obtain ⟨step, hstep, item, hitem, hcallee, hcalldata⟩ := hsends
  obtain ⟨callee', calldata', value, s, s', hspells, hcall⟩ := h.call hstep hitem
  obtain rfl := Option.some.inj (hspells.callee.symm.trans hcallee)
  obtain rfl := Option.some.inj (hspells.calldata.symm.trans hcalldata)
  exact ⟨step.id, _, s, s', hcall⟩

/-- Every deposit of an accepted route names the payer or nobody: the wallet's own, and those of
its nested calls. -/
theorem Accepted.depositors (h : Accepted lib quote want inputAmount done)
    (hsends : quote.Sends lib callee calldata) (hread : readAct want callee calldata = some act) :
    (∀ depositor, act.depositor = some depositor → depositor = 0 ∨ depositor = want.user) ∧
      ∀ n ∈ act.nested, ∀ act' depositor, readAct want n.target n.data = some act' →
        act'.depositor = some depositor → depositor = 0 ∨ depositor = want.user := by
  obtain ⟨id, value, s, s', hcall⟩ := h.sends hsends
  rw [checkCall] at hcall
  split at hcall
  · next htoken =>
    obtain ⟨hnone, hflat⟩ := readAct_token_plain htoken hread
    rw [hnone, hflat]
    refine ⟨?_, ?_⟩
    · intro depositor hdepositor
      cases hdepositor
    · intro n hn
      cases hn
  · next htoken =>
    split at hcall
    · obtain ⟨spent, hrelay, -⟩ := bind_eq_ok.mp hcall
      refine ⟨fun depositor hdepositor => checkRelayCall_pays htoken hrelay hread hdepositor, ?_⟩
      intro n hn act' depositor hread' hdepositor
      obtain ⟨flow, flow', hnested⟩ := checkRelayCall_nested htoken hrelay hread hn
      exact checkNestedCall_pays hnested hread' hdepositor
    · cases hcall

/-- A nested call of an accepted route nests nothing. -/
theorem Accepted.flat (h : Accepted lib quote want inputAmount done)
    (hsends : quote.Sends lib callee calldata) (hread : readAct want callee calldata = some act)
    {n : NestedCall} (hn : n ∈ act.nested) {act' : Act}
    (hread' : readAct want n.target n.data = some act') : act'.nested = [] := by
  obtain ⟨id, value, s, s', hcall⟩ := h.sends hsends
  obtain ⟨act₁, hact₁, hnested⟩ := (checkCall_step hcall).exists_reads
  obtain rfl := Option.some.inj (hread.symm.trans hact₁)
  obtain ⟨_, _, hstep⟩ := hnested n hn
  obtain ⟨act₂, hact₂, hempty, -⟩ := hstep.flat
  obtain rfl := Option.some.inj (hread'.symm.trans hact₂)
  exact hempty

end Quotes

/-- **Whom an accepted route credits.** Its deposits are all the payer's exactly when no nested one
names nobody, unless the router is the payer. -/
theorem credits_payer_iff {lib : Crates} {quotedAt : String} {quote : Quote} {want : Expected}
    {rq : RouteQuote} (router : Address)
    (haccepted : checkQuote lib quotedAt quote want = .ok rq) :
    quote.CreditsPayer lib want router ↔ router = want.user ∨ ¬ quote.NestsNobody lib want := by
  obtain ⟨inputAmount, done, hacc, -⟩ := checkQuote_ok haccepted
  constructor
  · intro hcredits
    by_cases hrouter : router = want.user
    · exact .inl hrouter
    · refine .inr ?_
      rintro ⟨callee, calldata, act, n, act', hsends, hread, hn, hread', hnobody⟩
      exact hrouter (hcredits callee calldata router hsends (.nested hread hn (.own hread' hnobody)))
  · intro hor callee calldata party hsends hcredits
    cases hcredits with
    | own hread hdepositor =>
      rcases (hacc.depositors hsends hread).1 _ hdepositor with rfl | rfl
      · exact if_pos rfl
      · rw [credited, ite_self]
    | @nested _ _ _ _ act n hread hn hcredits =>
      cases hcredits with
      | @own _ _ _ act' depositor hread' hdepositor =>
        rcases (hacc.depositors hsends hread).2 n hn act' depositor hread' hdepositor with rfl | rfl
        · rcases hor with rfl | hnone
          · exact if_pos rfl
          · exact absurd ⟨callee, calldata, act, n, act', hsends, hread, hn, hread', hdepositor⟩ hnone
        · rw [credited]
          split
          · next hzero =>
            rcases hor with rfl | hnone
            · rfl
            · rw [hzero] at hdepositor
              exact absurd ⟨callee, calldata, act, n, act', hsends, hread, hn, hread', hdepositor⟩
                hnone
          · rfl
      | @nested _ _ _ _ act' n' hread' hn' _ =>
        rw [hacc.flat hsends hread hn hread'] at hn'
        cases hn'

namespace Sample

/-- Some router of Relay's. -/
def router : Address := 0x7777

/-- The deposit nested in the sample's pull names nobody. -/
theorem quote_nestsNobody : (quote 9).NestsNobody Crates.reference want := by
  have hany : (readAct want proxy (pull 1000 9)).any (fun act => act.nested.any fun n =>
      decide ((readAct want n.target n.data).bind Act.depositor = some 0)) = true := by
    decide +kernel
  rw [Option.any_eq_true] at hany
  obtain ⟨act, hread, hany⟩ := hany
  obtain ⟨n, hn, hdepositor⟩ := List.any_eq_true.mp hany
  obtain ⟨act', hread', hnobody⟩ := Option.bind_eq_some_iff.mp (of_decide_eq_true hdepositor)
  have hsends : (quote 9).Sends Crates.reference proxy (pull 1000 9) :=
    ⟨_, .tail _ (.head _), _, .head _, item_callee _ _, item_calldata _ _⟩
  exact ⟨proxy, pull 1000 9, act, n, act', hsends, hread, hn, hread', hnobody⟩

end Sample

theorem credits_payer_iff_sample :
    ∃ rq, checkQuote Crates.reference "2026-01-01T00:00:00.000Z" (Sample.quote 9) Sample.want =
        .ok rq ∧
      ((Sample.quote 9).CreditsPayer Crates.reference Sample.want Sample.router ↔
        Sample.router = Sample.want.user ∨
          ¬ (Sample.quote 9).NestsNobody Crates.reference Sample.want) := by
  obtain ⟨done, hacc, -⟩ := Sample.quote_accepted
  obtain ⟨rq, hrq, -⟩ := hacc.checkQuote
  exact ⟨rq, hrq, credits_payer_iff Sample.router hrq⟩

/-- An accepted route whose deposit is credited to the router. -/
theorem accepted_deposit_credits_router :
    ∃ rq, checkQuote Crates.reference "2026-01-01T00:00:00.000Z" (Sample.quote 9) Sample.want =
        .ok rq ∧
      Sample.router ≠ Sample.want.user ∧
      ∃ callee calldata, (Sample.quote 9).Sends Crates.reference callee calldata ∧
        Credits Sample.want Sample.router Sample.want.user callee calldata Sample.router := by
  obtain ⟨done, hacc, -⟩ := Sample.quote_accepted
  obtain ⟨rq, hrq, -⟩ := hacc.checkQuote
  obtain ⟨callee, calldata, act, n, act', hsends, hread, hn, hread', hnobody⟩ :=
    Sample.quote_nestsNobody
  exact ⟨rq, hrq, by decide, callee, calldata, hsends, .nested hread hn (.own hread' hnobody)⟩

end GumServer
