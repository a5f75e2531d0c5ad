import GumServer.Evaluation

/-!
# What cannot fault

The unchecked operations of the checks are safe because of checks made before them, often in another
function and on another reading of the same data: a word has thirty-two bytes, `0x` ends between two
characters, hex digits are one byte each, a token call was found long enough, a covered draw is no
more than the slot, and a nested call two levels down is refused before it runs anything.

So each evaluation here comes to what the check comes to. The balance of a pull is left open: its
lemma says when it faults.
-/

namespace GumServer.Evaluation

open Bytes Checks Faults

/-! ## Reading -/

namespace Abi

theorem word_length {r r' : Abi} {w : List UInt8} (h : r.word = some (w, r')) : w.length = 32 := by
  obtain ⟨w', hw, heq⟩ := Option.map_eq_some_iff.mp h
  obtain ⟨rfl, -⟩ := Prod.mk.inj heq
  exact length_slice? hw

theorem address_eq (r : Abi) : address r = found r.address := by
  refine bind_eq_found rfl ?_
  rintro ⟨w, r'⟩ hw
  have hlen := word_length hw
  have hfront : range w 0 12 = .ok (w.take 12) := range_eq (by decide) (by omega)
  have hback : range w 12 w.length = .ok (w.drop 12) := by
    rw [range_eq (by omega) (Nat.le_refl _), List.take_of_length_le]
    rw [List.length_drop]
  have hexact : exactly 20 (w.drop 12) = .ok (w.drop 12) :=
    exactly_eq (by rw [List.length_drop, hlen])
  simp only [hfront, hback, hexact, liftM_eq_attempt, attempt_ok_bind, GumServer.Abi.addressOf]
  cases (w.take 12).any (· ≠ 0) with
  | true => rfl
  | false => rfl

theorem uint_eq (r : Abi) : uint r = found r.uint := by
  refine bind_eq_found rfl ?_
  rintro ⟨w, r'⟩ hw
  have hword : atMost 32 w = .ok w := atMost_eq (by rw [word_length hw])
  simp only [hword, liftM_eq_attempt, attempt_ok_bind]
  rfl

theorem offset_eq (r : Abi) : offset r = found r.offset := by
  refine bind_eq_found (uint_eq r) ?_
  rintro ⟨n, r'⟩ -
  dsimp only
  split <;> rfl

theorem bytesArg_eq (r : Abi) : bytesArg r = found r.bytesArg := by
  refine bind_eq_found (offset_eq r) ?_
  rintro ⟨off, r'⟩ -
  refine bind_eq_found (uint_eq _) ?_
  rintro ⟨len, _⟩ -
  dsimp only
  split
  · rfl
  · exact bind_eq_found rfl fun _ _ => rfl

section Items

variable {α : Type} {item : Abi → Faulty Unit (α × Abi)} {item' : Abi → Option (α × Abi)}

theorem items_eq (h : ∀ r, item r = found (item' r)) (n : ℕ) (r : Abi) :
    items item n r = found (GumServer.Abi.items item' n r) := by
  induction n generalizing r with
  | zero => rfl
  | succ n ih =>
    refine bind_eq_found (h r) ?_
    rintro ⟨a, r'⟩ -
    exact bind_eq_found (ih r') fun _ _ => rfl

theorem staticItems_eq (h : ∀ r, item r = found (item' r)) (r : Abi) :
    staticItems item r = found (r.staticItems item') := by
  refine bind_eq_found (offset_eq r) ?_
  rintro ⟨off, r'⟩ -
  refine bind_eq_found (uint_eq _) ?_
  rintro ⟨len, inner⟩ -
  dsimp only
  split
  · rfl
  · exact bind_eq_found (items_eq h _ _) fun _ _ => rfl

end Items

theorem boolean_eq (r : Abi) : boolean r = found r.boolean := by
  refine bind_eq_found (uint_eq r) ?_
  rintro ⟨raw, r'⟩ -
  dsimp only
  split_ifs <;> rfl

theorem nestedCall_eq (r : Abi) : nestedCall r = found r.nestedCall := by
  refine bind_eq_found (offset_eq r) ?_
  rintro ⟨off, r'⟩ -
  refine bind_eq_found (address_eq _) ?_
  rintro ⟨target, el⟩ -
  refine bind_eq_found (boolean_eq _) ?_
  rintro ⟨allowFailure, el⟩ -
  refine bind_eq_found (uint_eq _) ?_
  rintro ⟨value, el⟩ -
  exact bind_eq_found (bytesArg_eq _) fun _ _ => rfl

end Abi

theorem readDepositErc20_eq (args : List UInt8) :
    readDepositErc20 args = found (GumServer.readDepositErc20 args) := by
  refine bind_eq_found (Abi.address_eq _) ?_
  rintro ⟨depositor, r⟩ -
  refine bind_eq_found (Abi.address_eq _) ?_
  rintro ⟨token, r⟩ -
  refine bind_eq_found (Abi.uint_eq _) ?_
  rintro ⟨amount, r⟩ -
  exact bind_eq_found rfl fun _ _ => rfl

theorem readDepositNative_eq (args : List UInt8) :
    readDepositNative args = found (GumServer.readDepositNative args) := by
  refine bind_eq_found (Abi.address_eq _) ?_
  rintro ⟨depositor, r⟩ -
  exact bind_eq_found rfl fun _ _ => rfl

theorem readPulls_eq (r : Abi) : readPulls r = found (GumServer.readPulls r) := by
  refine bind_eq_found (Abi.staticItems_eq Abi.address_eq r) ?_
  rintro ⟨tokens, r'⟩ -
  exact bind_eq_found (Abi.staticItems_eq Abi.uint_eq r') fun _ _ => rfl

theorem readMulticall_eq (withMetadata : Bool) (r : Abi) :
    readMulticall withMetadata r = found (GumServer.readMulticall withMetadata r) := by
  refine bind_eq_found (Abi.staticItems_eq Abi.nestedCall_eq r) ?_
  rintro ⟨calls, r'⟩ -
  refine bind_eq_found (Abi.address_eq _) ?_
  rintro ⟨refundTo, r'⟩ -
  refine bind_eq_found (Abi.address_eq _) ?_
  rintro ⟨nftRecipient, r'⟩ -
  cases withMetadata with
  | false => rfl
  | true => exact bind_eq_found (Abi.bytesArg_eq _) fun _ _ => rfl

/-! ## Calls on Relay's contracts -/

/-- What a draw-down covers is no more than the slot. -/
theorem pull_eq (s : Spend) (spender : Address) (amount : U256) :
    pull s spender amount = sure (s.pull spender amount) := by
  rw [pull, Spend.pull]
  cases s.allowances.get? spender with
  | none => rfl
  | some slot =>
    have hcovered : (if amount < slot then amount else slot) ≤ slot := by
      split
      · next hlt => exact hlt.le
      · exact le_rfl
    simp only [sub_eq hcovered, liftM_eq_attempt, attempt_ok_bind]
    rfl

section Relay

variable (route : Route)

theorem chargePull_eq (spend : Option Spend) (spender : Address) (amount : U256) :
    chargePull route spend spender amount =
      sure (GumServer.chargePull route spend spender amount) := by
  cases spend with
  | none => rfl
  | some spend =>
    rw [chargePull, pull_eq, mapErr_sure, GumServer.chargePull]
    cases spend.pull spender amount <;> rfl

theorem checkDepositErc20_eq (callee : Address) (args : List UInt8) (spend : Option Spend) :
    checkDepositErc20 route callee args spend =
      sure (GumServer.checkDepositErc20 route callee args spend) := by
  rw [checkDepositErc20, readDepositErc20_eq, mapErr_found]
  refine bind_eq_sure rfl fun d _ => ?_
  refine bind_eq_sure rfl fun _ _ => ?_
  refine bind_eq_sure rfl fun _ _ => ?_
  exact bind_eq_sure rfl fun _ _ => chargePull_eq route spend callee d.amount

theorem checkDepositNative_eq (args : List UInt8) :
    checkDepositNative route args = sure (GumServer.checkDepositNative route args) := by
  rw [checkDepositNative, readDepositNative_eq, mapErr_found]
  exact bind_eq_sure rfl fun _ _ => rfl

theorem checkPull_eq (callee : Address) (acc : Option Spend × U256) (pulled : Address × U256) :
    checkPull route callee acc pulled = sure (GumServer.checkPull route callee acc pulled) := by
  refine bind_eq_sure rfl fun _ _ => ?_
  refine bind_eq_sure rfl fun _ _ => ?_
  refine bind_eq_sure rfl fun _ _ => ?_
  refine bind_eq_sure (chargePull_eq route acc.1 callee pulled.2) fun _ _ => ?_
  exact bind_eq_sure rfl fun _ _ => rfl

theorem checkPulls_eq (callee : Address) (pulls : Option Pulls) (spend : Option Spend) :
    checkPulls route callee pulls spend =
      sure (GumServer.checkPulls route callee pulls spend) := by
  cases pulls with
  | none => rfl
  | some p =>
    refine bind_eq_sure rfl fun _ _ => ?_
    exact foldlM_eq_sure (checkPull_eq route callee) _ _

variable {route}

/-- The depth of a nested call is far from the width of a byte. -/
theorem checkNested_eq {nested : NestedCall → Route → Option Flow → Faulty String (Option Flow)}
    {nested' : NestedCall → Option Flow → Except String (Option Flow)}
    (h : ∀ n flow, nested n route.deeper flow = sure (nested' n flow)) (hdepth : route.depth < 255)
    (txValue : U256) (acc : U256 × Option Flow) (call : NestedCall) :
    checkNested route nested txValue acc call =
      sure (GumServer.checkNested route nested' txValue acc call) := by
  have hadd : add 8 route.depth 1 = .ok (route.depth + 1) := add_eq (by omega)
  have hnested : nested call { route with depth := route.depth + 1 } acc.2 =
      sure (nested' call acc.2) := h call acc.2
  refine bind_eq_sure rfl fun _ _ => ?_
  refine bind_eq_sure rfl fun nestedValue _ => ?_
  refine bind_eq_sure rfl fun _ _ => ?_
  rw [hadd, liftM_eq_attempt, attempt_ok_bind, hnested, mapErr_sure]
  exact bind_eq_sure rfl fun _ _ => rfl

/-- The slices of a call on the token, of arguments that are long enough. -/
structure Sliced (args : List UInt8) : Prop where
  target : range args 12 32 = .ok ((args.drop 12).take 20)
  address : exactly 20 ((args.drop 12).take 20) = .ok ((args.drop 12).take 20)
  amount : range args 32 64 = .ok ((args.drop 32).take 32)
  word : atMost 32 ((args.drop 32).take 32) = .ok ((args.drop 32).take 32)

theorem sliced {args : List UInt8} (hlen : 64 ≤ args.length) : Sliced args where
  target := range_eq (by decide) (by omega)
  address := exactly_eq (by rw [List.length_take, List.length_drop]; omega)
  amount := range_eq (by decide) hlen
  word := atMost_eq (by rw [List.length_take]; omega)

theorem checkNestedToken_eq (call : NestedCall) (flow : Option Flow) :
    checkNestedToken route call flow = sure (GumServer.checkNestedToken route call flow) := by
  refine bind_eq_sure rfl fun _ _ => ?_
  refine bind_eq_sure rfl ?_
  rintro ⟨selector, args⟩ -
  refine bind_eq_sure rfl fun _ _ => ?_
  refine bind_eq_sure rfl fun _ hlen => ?_
  have hlen : 64 ≤ args.length := by simpa using refuseIf_eq_ok.mp hlen
  have hsliced := sliced hlen
  simp only [hsliced.target, hsliced.address, hsliced.amount, hsliced.word, liftM_eq_attempt,
    attempt_ok_bind]
  refine bind_eq_sure rfl fun _ _ => ?_
  split
  · refine bind_eq_sure rfl fun _ _ => ?_
    cases flow with
    | none => rfl
    | some flow => exact bind_eq_sure rfl fun _ _ => rfl
  · split
    · rfl
    · exact bind_eq_sure rfl fun _ _ => rfl

/-- The slot was found large enough before it is drawn. -/
theorem chargeDeposit_eq (target : Address) (data : List UInt8) (flow : Flow) :
    chargeDeposit route target data (some flow) =
      sure (GumServer.chargeDeposit route target data flow) := by
  have hword : atMost 32 ((slice? data 68 32).getD []) = .ok ((slice? data 68 32).getD []) := by
    apply atMost_eq
    rcases h : slice? data 68 32 with _ | w
    · exact Nat.zero_le _
    · exact (length_slice? h).le
  have hflow : expect (some flow) = .ok flow := rfl
  rw [chargeDeposit, GumServer.chargeDeposit]
  simp only [hword, hflow, liftM_eq_attempt, attempt_ok_bind]
  refine bind_eq_sure rfl fun slot _ => ?_
  refine bind_eq_sure rfl fun _ hslot => ?_
  have hle : U256.ofBytes ((slice? data 68 32).getD []) ≤ slot := by
    simpa using refuseIf_eq_ok.mp hslot
  rw [sub_eq hle, attempt_ok_bind]
  exact bind_eq_sure rfl fun _ _ => rfl

/-! ## The balance of a pull -/

/-- The refusal of a balance works out what is left, which may be less than nothing. -/
theorem checkFlow_answers (flow : Option Flow) (pulledTotal : U256) :
    Answers (checkFlow route flow pulledTotal) (GumServer.checkFlow route flow pulledTotal)
      .underflow (∃ f, flow = some f ∧ pulledTotal < f.consumed) := by
  cases flow with
  | none => exact (Answers.of_sure rfl).congr (by simp)
  | some f =>
    have hfilter : (some f).filter (fun flow => flow.consumed != pulledTotal) =
        if f.consumed = pulledTotal then none else some f := by
      rw [Option.filter_some]
      split_ifs <;> simp_all
    rw [checkFlow, hfilter]
    constructor
    · rintro ⟨f', hf, hlt⟩
      obtain rfl := Option.some.inj hf
      rw [if_neg hlt.ne']
      simp only [sub_fault hlt]
      rfl
    · intro hbad
      have hle : f.consumed ≤ pulledTotal := not_lt.mp fun hlt => hbad ⟨f, rfl, hlt⟩
      rw [GumServer.checkFlow]
      by_cases heq : f.consumed = pulledTotal
      · rw [if_pos heq, heq, bne_self_eq_false]
        rfl
      · rw [if_neg heq, bne_iff_ne.mpr heq]
        simp only [sub_eq hle, liftM_eq_attempt, attempt_ok_bind]
        rfl

/-- A multicall whose checks come to its balance, with more deposited than was pulled. -/
def Short (route : Route) (nested : NestedCall → Option Flow → Except String (Option Flow))
    (callee : Address) (txValue : U256) (pulls : Option Pulls) (m : Multicall)
    (spend : Option Spend) : Prop :=
  route.Pays m.refundTo ∧ route.Pays m.nftRecipient ∧ (pulls.isSome && m.calls.isEmpty) = false ∧
    ∃ spent pulledTotal nestedValue flow,
      GumServer.checkPulls route callee pulls spend = .ok (spent, pulledTotal) ∧
      each (GumServer.checkNested route nested txValue) m.calls (0, pulls.map fun _ => Flow.new) =
        .ok (nestedValue, some flow) ∧
      pulledTotal < flow.consumed

theorem checkMulticall_answers
    {nested : NestedCall → Route → Option Flow → Faulty String (Option Flow)}
    {nested' : NestedCall → Option Flow → Except String (Option Flow)}
    (h : ∀ n flow, nested n route.deeper flow = sure (nested' n flow)) (hdepth : route.depth < 255)
    (callee : Address) (txValue : U256) (pulls : Option Pulls) (m : Multicall)
    (spend : Option Spend) :
    Answers (checkMulticall route nested callee txValue pulls m spend)
      (GumServer.checkMulticall route nested' callee txValue pulls m spend)
      .underflow (Short route nested' callee txValue pulls m spend) := by
  rw [checkMulticall, GumServer.checkMulticall, checkPulls_eq,
    foldlM_eq_sure (checkNested_eq h hdepth txValue)]
  refine (Answers.sure_bind fun _ _ => Answers.sure_bind fun _ _ => Answers.sure_bind fun _ _ =>
    Answers.sure_bind fun _ _ => Answers.sure_bind fun _ _ =>
      (checkFlow_answers _ _).bind_sure fun _ _ => rfl).congr ?_
  simp only [Short, monadLift_self, checkPayee_ok, refuseIf_eq_ok]
  constructor
  · rintro ⟨_, hrefund, _, hnft, _, hruns, ⟨spent, total⟩, hpulls, ⟨value, flow⟩, hcalls, f, rfl,
      hlt⟩
    exact ⟨hrefund, hnft, hruns, spent, total, value, f, hpulls, hcalls, hlt⟩
  · rintro ⟨hrefund, hnft, hruns, spent, total, value, f, hpulls, hcalls, hlt⟩
    exact ⟨(), hrefund, (), hnft, (), hruns, (spent, total), hpulls, (value, some f), hcalls, f, rfl,
      hlt⟩

end Relay

/-! ## Calls within calls -/

/-- The same for a call that was read. -/
def Entry.Short (route : Route) (callee : Address) (txValue : U256) (spend : Option Spend) :
    Entry → Prop
  | .multicall m =>
    Evaluation.Short route (fun n flow => GumServer.checkNestedCall n route.deeper flow) callee
      txValue none m spend
  | .transferAndMulticall p m =>
    Evaluation.Short route (fun n flow => GumServer.checkNestedCall n route.deeper flow) callee
      txValue (some p) m spend
  | .depositErc20 _ | .depositErc20All | .depositNative _ | .forward => False

section Calls

variable {route : Route} {spend : Option Spend} {frames : ℕ}

/-- **A call on Relay's contracts** faults on the balance of its own pull, where the calls it nests
do not fault. -/
theorem checkRelayCall_answers {call : WalletCall}
    (h : ∀ n flow, checkNestedCall frames n route.deeper flow =
      sure (GumServer.checkNestedCall n route.deeper flow)) (hdepth : route.depth < 255) :
    Answers (checkRelayCall (frames + 1) call route spend)
      (GumServer.checkRelayCall call route spend) .underflow
      (∃ e, readEntry call.calldata = some e ∧
        e.servedBy route.want.relayRoles call.callee = true ∧
        Entry.Short route call.callee call.value spend e) := by
  rw [checkRelayCall, GumServer.checkRelayCall, readEntry]
  rcases splitAtChecked call.calldata 4 with _ | ⟨selector, args⟩
  · exact (Answers.of_sure rfl).congr (by simp)
  simp only [liftM_okOr_some_bind, okOr_some_bind, Option.bind_eq_bind, Option.bind_some]
  rcases Entrypoint.ofSelector selector with _ | entrypoint
  · exact (Answers.of_sure rfl).congr (by simp)
  simp only [liftM_okOr_some_bind, okOr_some_bind, Option.bind_some]
  cases entrypoint with
  | depositErc20 =>
    have hsure := checkDepositErc20_eq route call.callee args spend
    refine (Answers.of_sure (bind_eq_sure rfl fun _ _ => hsure)).congr ?_
    simp [Entry.Short]
  | depositErc20All =>
    refine (Answers.of_sure (bind_eq_sure rfl fun _ _ => rfl)).congr ?_
    simp [Entry.Short]
  | depositNative =>
    have hsure := checkDepositNative_eq route args
    refine (Answers.of_sure (bind_eq_sure rfl fun _ _ =>
      bind_eq_sure hsure fun _ _ => rfl)).congr ?_
    simp [Entry.Short]
  | multicall withMetadata =>
    simp only [readMulticall_eq, mapErr_found]
    refine (Answers.sure_bind fun _ _ => Answers.sure_bind fun m _ =>
      checkMulticall_answers h hdepth call.callee call.value none m spend).congr ?_
    simp only [monadLift_self, checkRole, refuseIf_eq_ok, Bool.not_eq_false', okOr_eq_ok,
      Option.map_eq_some_iff]
    constructor
    · rintro ⟨_, hrole, m, hm, hshort⟩
      exact ⟨_, ⟨m, hm, rfl⟩, hrole, hshort⟩
    · rintro ⟨_, ⟨m, hm, rfl⟩, hrole, hshort⟩
      exact ⟨(), hrole, m, hm, hshort⟩
  | transferAndMulticall withMetadata =>
    simp only [readPulls_eq, readMulticall_eq, mapErr_found]
    refine (Answers.sure_bind fun _ _ => Answers.sure_bind fun pulled _ =>
      Answers.sure_bind fun m _ => checkMulticall_answers h hdepth call.callee call.value
        (some pulled.1) m spend).congr ?_
    simp only [monadLift_self, checkRole, refuseIf_eq_ok, Bool.not_eq_false', okOr_eq_ok,
      Option.bind_eq_some_iff, Option.map_eq_some_iff]
    constructor
    · rintro ⟨_, hrole, pulled, hpulled, m, hm, hshort⟩
      exact ⟨_, ⟨pulled, hpulled, m, hm, rfl⟩, hrole, hshort⟩
    · rintro ⟨_, ⟨pulled, hpulled, m, hm, rfl⟩, hrole, hshort⟩
      exact ⟨(), hrole, pulled, hpulled, m, hm, hshort⟩
  | forward =>
    have hsure : mapErr (fun _ => route.refuse "has malformed forward arguments")
        (Abi.bytesArg (GumServer.Abi.new args)) =
          sure (okOr (GumServer.Abi.new args).bytesArg
            (route.refuse "has malformed forward arguments")) := by
      rw [Abi.bytesArg_eq, mapErr_found]
    refine (Answers.of_sure (bind_eq_sure rfl fun _ _ =>
      bind_eq_sure hsure fun _ _ => rfl)).congr ?_
    simp [Entry.Short]

/-- Two levels down a nested call is refused before anything else. -/
theorem checkNestedCall_deep_eq {n : NestedCall} {flow : Option Flow} (hdepth : 1 < route.depth) :
    checkNestedCall (frames + 1) n route flow =
      sure (GumServer.checkNestedCall n route flow) := by
  unfold GumServer.checkNestedCall
  rw [checkNestedCall, if_pos hdepth, dif_pos hdepth]

/-- So a multicall in a nested call comes to no balance. -/
theorem not_short_of_deep {callee : Address} {txValue : U256} {pulls : Option Pulls} {m : Multicall}
    (hdepth : 1 < route.deeper.depth) :
    ¬ Short route (fun n flow => GumServer.checkNestedCall n route.deeper flow) callee txValue pulls
      m spend := by
  rintro ⟨-, -, hruns, _, _, _, flow, -, hcalls, -⟩
  rcases hm : m.calls with _ | ⟨n, rest⟩
  · rw [hm] at hcalls hruns
    cases pulls with
    | none => cases hcalls
    | some p => cases hruns
  · rw [hm] at hcalls
    obtain ⟨acc, hn, -⟩ := each_cons_eq_ok.mp hcalls
    exact checkNestedCall_deep hdepth (checkNested_ok.mp hn).2.2.2

theorem checkRelayCall_deep_eq {call : WalletCall} (hdepth : 0 < route.depth)
    (hwidth : route.depth < 255) :
    checkRelayCall (frames + 2) call route spend =
      sure (GumServer.checkRelayCall call route spend) := by
  have hdeep : 1 < route.deeper.depth := Nat.succ_lt_succ hdepth
  have hanswers := @checkRelayCall_answers route spend (frames + 1) call
    (fun n flow => checkNestedCall_deep_eq hdeep) hwidth
  apply hanswers.answers
  rintro ⟨e, -, -, hshort⟩
  cases e with
  | multicall m => exact not_short_of_deep hdeep hshort
  | transferAndMulticall p m => exact not_short_of_deep hdeep hshort
  | depositErc20 _ | depositErc20All | depositNative _ | forward => exact hshort

/-- **A nested call** cannot fault: the flow is there where it is expected. -/
theorem checkNestedCall_eq {n : NestedCall} {flow : Option Flow} (hwidth : route.depth < 254) :
    checkNestedCall (frames + 3) n route flow =
      sure (GumServer.checkNestedCall n route flow) := by
  unfold GumServer.checkNestedCall
  rw [checkNestedCall]
  by_cases hdepth : 1 < route.depth
  · rw [if_pos hdepth, dif_pos hdepth]
  rw [if_neg hdepth, dif_neg hdepth]
  split
  · exact checkNestedToken_eq n flow
  split
  · have hadd : add 8 route.depth 1 = .ok (route.depth + 1) := add_eq (by omega)
    have hrelay : checkRelayCall (frames + 2) ⟨n.target, n.data, n.value⟩
        { route with depth := route.depth + 1 } none =
          sure (GumServer.checkRelayCall ⟨n.target, n.data, n.value⟩ route.deeper none) :=
      checkRelayCall_deep_eq (Nat.succ_pos _) (Nat.succ_lt_succ hwidth)
    simp only [hadd, liftM_eq_attempt, attempt_ok_bind]
    refine bind_eq_sure hrelay fun _ _ => ?_
    cases flow with
    | none => rfl
    | some flow =>
      rw [Option.isSome_some, Bool.true_and]
      split
      · exact chargeDeposit_eq n.target n.data flow
      · rfl
  · rfl

end Calls

/-! ## Transactions -/

/-- `0x` ends between two characters. -/
theorem textFrom_strip0x {text : String} {cs : List Char} (h : strip0x text.toList = some cs) :
    textFrom text 2 = .ok (String.ofList cs) := by
  have htext : text.toList = ['0', 'x'] ++ cs := strip0x_eq_some.mp h
  exact textFrom_eq htext (by decide)

theorem all_take {p : Char → Bool} {cs : List Char} (h : cs.all p = true) (n : ℕ) :
    (cs.take n).all p = true := by
  rw [List.all_eq_true] at h ⊢
  intro c hc
  exact h c (List.mem_of_mem_take hc)

/-- Hex digits are a byte each. -/
theorem sum_utf8Size {cs : List Char} (h : cs.all isHexDigit = true) :
    (cs.map Char.utf8Size).sum = cs.length := by
  induction cs with
  | nil => rfl
  | cons c cs ih =>
    rw [List.all_cons, Bool.and_eq_true] at h
    rw [List.map_cons, List.sum_cons, utf8Size_of_isHexDigit h.1, ih h.2, List.length_cons,
      Nat.add_comm]

theorem isHash_eq (raw : String) : isHash raw = .ok (GumServer.isHash raw) := by
  rw [isHash, GumServer.isHash]
  rcases h : strip0x raw.toList with _ | cs
  · rw [if_neg fun hpos => Bool.false_ne_true hpos.2, Bool.and_false]
    rfl
  · by_cases hlen : byteLen raw = 66
    · rw [if_pos ⟨hlen, rfl⟩, textFrom_strip0x h, hlen]
      simp only [bind, Except.bind, String.toList_ofList]
      rfl
    · rw [if_neg fun hpos => hlen hpos.1, beq_eq_false_iff_ne.mpr hlen]
      rfl

section Step

variable {lib : Crates}

theorem stepCalldata_eq (calldata : String) :
    stepCalldata lib calldata = .ok (GumServer.stepCalldata lib calldata) := by
  rw [stepCalldata, GumServer.stepCalldata]
  rcases h : strip0x calldata.toList with _ | cs
  · rfl
  · by_cases heven : byteLen calldata % 2 = 0
    · rw [if_pos ⟨rfl, heven⟩, textFrom_strip0x h]
      simp only [bind, Except.bind, String.toList_ofList, heven, true_and]
      split <;> rfl
    · rw [if_neg fun hpos => heven hpos.2]
      dsimp only
      rw [if_neg fun hpos => heven hpos.1]
      rfl

theorem checkTokenStep_eq (id : String) (want : Expected) (inputAmount : U256) (bytes : List UInt8)
    (spend : Spend) : checkTokenStep id want inputAmount bytes spend =
      sure (GumServer.checkTokenStep id want inputAmount bytes spend) := by
  refine bind_eq_sure rfl ?_
  rintro ⟨selector, args⟩ -
  refine bind_eq_sure rfl fun _ hlen => ?_
  have hlen : 64 ≤ args.length := by
    have hnot := refuseIf_eq_ok.mp hlen
    simp at hnot
    exact hnot.2
  have hsliced := sliced hlen
  simp only [hsliced.target, hsliced.address, hsliced.amount, hsliced.word, liftM_eq_attempt,
    attempt_ok_bind]
  refine bind_eq_sure rfl fun _ _ => ?_
  split
  · exact bind_eq_sure rfl fun _ _ => rfl
  · exact bind_eq_sure rfl fun _ _ => rfl

/-- Eight hex digits are eight bytes, in text that was accepted as calldata. -/
theorem isApproval_eq {data : Value} {want : Expected} {bytes : List UInt8}
    (h : GumServer.stepCalldata lib (textField data "data") = some bytes) :
    isApproval lib data want = .ok (GumServer.isApproval lib data want) := by
  obtain ⟨cs, htext, hcs⟩ := stepCalldata_eq_some.mp h
  have hall := (all_isHexDigit_of_unhex hcs).1
  have hdata : data.strField "data" = some (textField data "data") := by
    rw [textField] at htext ⊢
    rcases hf : data.strField "data" with _ | s
    · rw [hf] at htext
      cases htext
    · rfl
  rw [isApproval, GumServer.isApproval, hdata, Option.bind_some, strip0x_eq_some.mpr htext,
    Option.filter_some]
  split
  · rfl
  by_cases hlong : 8 ≤ byteLen (String.ofList cs)
  · have hcut : textTo (String.ofList cs) 8 = .ok (String.ofList (cs.take 8)) := by
      apply textTo_eq
      · rw [String.toList_ofList, List.take_append_drop]
      · rw [byteLen_of_hex hall] at hlong
        rw [sum_utf8Size (all_take hall 8), List.length_take_of_le hlong]
    rw [if_pos (decide_eq_true hlong)]
    simp only [hcut, Option.bind_some, bind, Except.bind, pure, Except.pure]
    cases (data.strField "to").bind lib.parseAddress <;>
      cases lib.hexDecode (String.ofList (cs.take 8)) <;> rfl
  · rw [if_neg (by simpa using hlong)]
    cases (data.strField "to").bind lib.parseAddress <;> rfl

end Step

end GumServer.Evaluation
