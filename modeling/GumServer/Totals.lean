import GumServer.Covered
import GumServer.Timeline

/-!
# Confirmed totals

The indexer attaches to each of its messages the total it has confirmed on the watch, and
`apply_payment_confirmed` and `apply_threshold_reached` write it down as it is. Their guard asks
for an open deposit and does not look at the total that is there, and the sequence number of an
event is not read. So a message that was overtaken by a later one takes the total back.

What has been applied is on the timeline: a `payment_confirmed` event carries its total. As long as
no message is applied to an open deposit whose total is below one on its timeline, the stored total
never goes down; and the first one that is takes it down.
-/

namespace GumServer

/-- The total a transition writes down. -/
def Op.total : Op → Option U256
  | .applyPaymentConfirmed confirmed _ | .applyThresholdReached confirmed _ => some confirmed
  | _ => none

/-- The total a `payment_confirmed` event was recorded with. -/
def DepositEvent.total (e : DepositEvent) : Option ℕ :=
  if e.eventType = .paymentConfirmed then
    ((e.data.get "confirmed_amount").bind Value.asStr).map units
  else none

theorem DepositEvent.total_of_data {e : DepositEvent} {n : ℕ} (htype : e.eventType = .paymentConfirmed)
    (hdata : e.data.get "confirmed_amount" = some (.string (toString n))) : e.total = some n := by
  rw [DepositEvent.total, if_pos htype, hdata]
  exact congrArg some (units_toString n)

/-- No total is applied to an open deposit that is below one on its timeline. -/
def InOrder (env : Env) (w : World) (a : Action) : Bool :=
  (w.commits env a).op.all fun p => p.1.total.all fun total =>
    (w.db.deposits.get? p.2).all fun d => !d.status.isOpen ||
      (w.db.timeline p.2).all fun e => e.total.all fun n => decide (n ≤ total.val)

/-! ## Transitions -/

section Transitions

variable {d d' : Deposit} {op : Op}

/-- A total is asked for on an open deposit. -/
theorem Op.guard_of_total {total : U256} (h : op.total = some total) (d : Deposit) :
    op.transition.guard d = d.status.isOpen := by
  cases op <;> first | rfl | cases h

/-- It is written down as it is. -/
theorem Op.row_total {total : U256} (h : op.total = some total) (now : DateTime) (d : Deposit) :
    units (op.transition.row now d).confirmedAmount = total.val := by
  cases op with
  | applyPaymentConfirmed confirmed data =>
    obtain rfl := Option.some.inj h
    exact units_toString confirmed.val
  | applyThresholdReached confirmed data =>
    obtain rfl := Option.some.inj h
    exact units_toString confirmed.val
  | _ => cases h

/-- Any other transition leaves the total. -/
theorem Op.row_of_no_total (h : op.total = none) (now : DateTime) (d : Deposit) :
    (op.transition.row now d).confirmedAmount = d.confirmedAmount := by
  cases op with
  | applyPaymentConfirmed confirmed data => cases h
  | applyThresholdReached confirmed data => cases h
  | markEngineSubmitted job replayed => cases replayed <;> rfl
  | _ => rfl

/-- And records none. -/
theorem Op.event_of_no_total (h : op.total = none) {e : EventType × Value}
    (he : op.transition.event = some e) : e.1 ≠ .paymentConfirmed := by
  cases op with
  | applyPaymentConfirmed confirmed data => cases h
  | applyThresholdReached confirmed data => cases h
  | markEngineSubmitted job replayed => cases replayed <;> cases he; simp
  | _ => cases he; simp

/-- No transition opens a deposit. -/
theorem Op.of_row_open (now : DateTime) (hguard : op.transition.guard d = true)
    (h : (op.transition.row now d).status.isOpen = true) : d.status.isOpen = true := by
  cases op with
  | markWatchRegistered watch => exact h
  | applyPaymentPending data => exact hguard
  | applyPaymentConfirmed confirmed data => exact hguard
  | applyPaymentOrphaned data => exact h
  | reregisterWatch => exact h
  | markEngineSubmitted job replayed => cases replayed <;> exact h
  | applySettlementIncluded txHash blockNumber data => exact h
  | resubmit data => exact h
  | _ => cases h

theorem Quiet.confirmedAmount (h : Quiet d d') : d'.confirmedAmount = d.confirmedAmount := by
  rw [h.eq]

end Transitions

/-- A confirmed total is recorded with the event. -/
theorem Asks.confirmed_data {env : Env} {w : World} {a : Action} {confirmed : U256} {data : Value}
    {id : Uuid} (h : Asks env w a (.applyPaymentConfirmed confirmed data) id) :
    data.get "confirmed_amount" = some (.string (toString confirmed.val)) := by
  cases h with
  | indexer name input mint event s _ ht hop =>
    cases indexerOp_asks hop with
    | confirmed _ hdata => exact hdata
  | settling name input mint claim job s outcome retries _ ht hop => cases settlementOp_asks hop
  | polled name input mint s watchId watch polledAt _ ht hop =>
    cases openOp_asks hop with
    | active _ hdata => exact hdata
  | worker name input mint job stage _ _ attempt ht hstatement =>
    cases stage <;> cases hstatement

/-! ## The mark an open deposit has reached -/

/-- The stored total of an open deposit is the largest on its timeline. -/
structure Reached (timeline : List DepositEvent) (d : Deposit) : Prop where
  bound : ∀ {e n}, e ∈ timeline → e.total = some n → n ≤ units d.confirmedAmount
  attained : units d.confirmedAmount = 0 ∨ ∃ e ∈ timeline, e.total = some (units d.confirmedAmount)

namespace Reached

variable {d : Deposit}

theorem of_same {timeline : List DepositEvent} {d' : Deposit} (h : Reached timeline d)
    (hsame : d'.confirmedAmount = d.confirmedAmount) : Reached timeline d' where
  bound := by
    intro e n he hn
    rw [hsame]
    exact h.bound he hn
  attained := by
    rw [hsame]
    exact h.attained

/-- An event without a total changes nothing. -/
theorem concat {timeline events : List DepositEvent} (h : Reached timeline d)
    (hevents : ∀ e ∈ events, e.total = none) : Reached (timeline ++ events) d where
  bound := by
    intro e n he hn
    rcases List.mem_append.mp he with he | he
    · exact h.bound he hn
    · rw [hevents e he] at hn
      cases hn
  attained := by
    rcases h.attained with hzero | ⟨e, he, htotal⟩
    · exact .inl hzero
    · exact .inr ⟨e, List.mem_append_left _ he, htotal⟩

/-- A total that is not below any other is the new mark. -/
theorem of_top {timeline : List DepositEvent} {e : DepositEvent} {n : ℕ}
    (hle : ∀ e ∈ timeline, ∀ m, e.total = some m → m ≤ n) (htotal : e.total = some n)
    (hd : units d.confirmedAmount = n) : Reached (timeline ++ [e]) d where
  bound := by
    intro e' m he' hm
    rw [hd]
    rcases List.mem_append.mp he' with he' | he'
    · exact hle e' he' m hm
    · obtain rfl := List.mem_singleton.mp he'
      exact (Option.some.inj (hm.symm.trans htotal)).le
  attained := .inr ⟨e, List.mem_append_right _ (List.mem_singleton_self e), hd ▸ htotal⟩

end Reached

section Runs

variable {env : Env} {w w' : World} {a : Action} {d : Deposit}

/-- What it is for a total to come in order. -/
theorem inOrder_iff {op : Op} {id : Uuid} {total : U256} {d : Deposit}
    (hop : (w.commits env a).op = some (op, id)) (htotal : op.total = some total)
    (hd : w.db.deposits.get? id = some d) : InOrder env w a = true ↔
      (d.status.isOpen = true → ∀ e ∈ w.db.timeline id, ∀ n, e.total = some n → n ≤ total.val) := by
  simp only [InOrder, hop, htotal, hd, Option.all_some, Bool.or_eq_true, Bool.not_eq_true',
    List.all_eq_true, Option.all_eq_true, decide_eq_true_eq]
  rw [← Bool.not_eq_true, or_iff_not_imp_left, not_not]

/-- **The mark is kept by every step in order.** -/
theorem reached_of_inOrder {clock : DateTime}
    (h : Lts.Reaches (step env) (fun w a => InOrder env w a = true) (World.init clock) w)
    (hd : w.db.deposits.get? d.id = some d) (hopen : d.status.isOpen = true) :
    Reached (w.db.timeline d.id) d := by
  refine timeline_invariant (P := fun timeline d => d.status.isOpen = true → Reached timeline d)
    h ?_ ?_ ?_ hd hopen
  · intro new id userId now d mint hinsert hopen
    have hzero : units d.confirmedAmount = 0 := by
      rw [(Inserted.of_insert hinsert).confirmedAmount]
      decide
    refine ⟨?_, .inl hzero⟩
    intro e n he hn
    obtain rfl := List.mem_singleton.mp he
    cases hn
  · intro timeline d d' hreached hquiet hopen
    exact (hreached (hquiet.status ▸ hopen)).of_same hquiet.confirmedAmount
  · intro w a op d mint hok hhits hd hreached hopen
    have hbound := (w.commits env a).quiet_bound w.clock d
    have hwas := Op.of_row_open w.clock hhits.guard hopen
    cases htotal : op.total with
    | none =>
      refine ((hreached hwas).of_same (Op.row_of_no_total htotal w.clock _)).concat ?_
      intro e he
      obtain ⟨event, hevent, rfl⟩ := Option.map_eq_some_iff.mp (Option.mem_toList.mp he)
      exact if_neg (Op.event_of_no_total htotal hevent)
    | some total =>
      rw [hbound.status] at hwas
      have hle := (inOrder_iff hhits.carries htotal hd).mp hok hwas
      have hrow := Op.row_total htotal w.clock ((w.commits env a).bound w.clock d)
      cases op with
      | applyPaymentConfirmed confirmed data =>
        obtain rfl := Option.some.inj htotal
        refine .of_top hle ?_ hrow
        have hdata := (World.asks hhits.carries).confirmed_data
        exact DepositEvent.total_of_data rfl hdata
      | applyThresholdReached confirmed data => cases hopen
      | _ => cases htotal

/-- **In order, or down**: from a state the run has reached in order, a step takes no stored total
down exactly when it is in order itself. -/
theorem inOrder_iff_le {clock : DateTime}
    (h : Lts.Reaches (step env) (fun w a => InOrder env w a = true) (World.init clock) w)
    (hstep : step env w a = some w') : InOrder env w a = true ↔
      ∀ id d d', w.db.deposits.get? id = some d → w'.db.deposits.get? id = some d' →
        units d.confirmedAmount ≤ units d'.confirmedAmount := by
  have hfit : JobsFit w := JobsFit.reachable ⟨clock, h.mono fun _ => trivial⟩
  constructor
  · intro hok id d d' hd hd'
    obtain rfl := Table.key_of_get? hd
    obtain rfl := Option.some.inj ((hfit.row_after hstep hd).symm.trans hd')
    rcases (w.commits env a).row_cases w.clock d with hquiet | ⟨op, hhits, heq⟩
    · exact (congrArg units hquiet.confirmedAmount).ge
    · have hbound := (w.commits env a).quiet_bound w.clock d
      rw [heq]
      cases htotal : op.total with
      | none =>
        rw [Op.row_of_no_total htotal, hbound.confirmedAmount]
      | some total =>
        have hopen := hhits.guard
        rw [Op.guard_of_total htotal, hbound.status] at hopen
        have hle := (inOrder_iff hhits.carries htotal hd).mp hok hopen
        rw [Op.row_total htotal]
        rcases (reached_of_inOrder h hd hopen).attained with hzero | ⟨e, he, hmark⟩
        · rw [hzero]
          exact Nat.zero_le _
        · exact hle e he _ hmark
  · intro hall
    rcases hop : (w.commits env a).op with _ | ⟨op, id⟩
    · rw [InOrder, hop]
      rfl
    · cases htotal : op.total with
      | none =>
        rw [InOrder, hop]
        simp [htotal]
      | some total =>
        cases hd : w.db.deposits.get? id with
        | none =>
          rw [InOrder, hop]
          simp [htotal, hd]
        | some d =>
          rw [inOrder_iff hop htotal hd]
          intro hopen e he n hn
          obtain rfl := Table.key_of_get? hd
          have hbound := (w.commits env a).quiet_bound w.clock d
          have hhits : (w.commits env a).Hits w.clock op d := by
            refine ⟨hop, ?_⟩
            rw [Op.guard_of_total htotal, hbound.status]
            exact hopen
          have hle := hall d.id d _ hd (hfit.row_after hstep hd)
          rw [hhits.row, Op.row_total htotal] at hle
          exact ((reached_of_inOrder h hd hopen).bound he hn).trans hle

end Runs

/-- **Totals applied in order never go down.** In every run in which no total is applied to an open
deposit that is below one on its timeline, the stored total of a deposit never decreases; and from
any state of such a run, a step that does apply one decreases it. -/
theorem confirmed_amount_monotone (env : Env) (clock : DateTime) (w : World)
    (h : Lts.Reaches (step env) (fun w a => InOrder env w a = true) (World.init clock) w) :
    (∀ w' id d d', Lts.Reaches (step env) (fun w a => InOrder env w a = true) w w' →
      w.db.deposits.get? id = some d → w'.db.deposits.get? id = some d' →
      units d.confirmedAmount ≤ units d'.confirmedAmount) ∧
    ∀ a w', step env w a = some w' → (InOrder env w a = true ↔
      ∀ id d d', w.db.deposits.get? id = some d → w'.db.deposits.get? id = some d' →
        units d.confirmedAmount ≤ units d'.confirmedAmount) := by
  refine ⟨?_, ?_⟩
  · intro w' id d d' hrun hd hd'
    obtain ⟨last, hlast, hle⟩ : ∃ last, w'.db.deposits.get? id = some last ∧
        units d.confirmedAmount ≤ units last.confirmedAmount := by
      refine hrun.invariant (P := fun u => ∃ last, u.db.deposits.get? id = some last ∧
        units d.confirmedAmount ≤ units last.confirmedAmount) ⟨d, hd, Nat.le_refl _⟩ ?_
      rintro u a u' hu ⟨last, hlast, hle⟩ hok hstep
      have hreach := h.trans hu
      have hfit : JobsFit u := JobsFit.reachable ⟨clock, hreach.mono fun _ => trivial⟩
      have hnext := hfit.row_after hstep hlast
      exact ⟨_, hnext, hle.trans ((inOrder_iff_le hreach hstep).mp hok id last _ hlast hnext)⟩
    obtain rfl := Option.some.inj (hlast.symm.trans hd')
    exact hle
  · intro a w' hstep
    exact inOrder_iff_le h hstep

/-! ## Overtaken events -/

/-- The total an event carries. -/
def IndexerEvent.total (lib : Crates) (e : IndexerEvent) : U256 :=
  confirmedTotal lib e.watch.confirmedAmount

/-- The events the indexer delivered. -/
def delivered (actions : List Action) : List IndexerEvent :=
  actions.filterMap fun
    | .indexerEvent _ event _ => some event
    | _ => none

/-- What the indexer answered to polls. -/
def answered (actions : List Action) : List WatchDetail :=
  actions.filterMap fun
    | .advance _ (.polledWatch watch _) _ => watch
    | _ => none

namespace Fixture

/-- A transfer is confirmed: the first of two. -/
def firstConfirmed : IndexerEvent := { thresholdReached with
  id := "evt-first", eventType := "payment.confirmed"
  watch := ⟨55, 31337, new.paymentAddress, some "1000000"⟩ }

/-- And the second: the total is now that of both. -/
def secondConfirmed : IndexerEvent := { thresholdReached with
  id := "evt-second", eventType := "payment.confirmed"
  watch := ⟨55, 31337, new.paymentAddress, some "2000000"⟩ }

/-- A deposit is created, and the two events reach it in some order. -/
def afterBoth (e e' : IndexerEvent) : List Action := [
  .setUser "user" none,
  .create new "user" 7 (mint 0),
  .indexerEvent 0 e (some 7),
  .advance 0 .go (mint 1),
  .indexerEvent 1 e' (some 7)]

/-- The confirmed total of the fixture's deposit. -/
def confirmedOf (w : World) : Option String := (w.db.deposits.get? 7).map (·.confirmedAmount)

end Fixture

/-- On the fixture's deposit, told of its two transfers in order. -/
theorem confirmed_amount_monotone_fixture : ∃ w w' d d',
    Lts.Reaches (step Fixture.env) (fun w a => InOrder Fixture.env w a = true)
      (World.init Fixture.requestedAt) w ∧
    Lts.Reaches (step Fixture.env) (fun w a => InOrder Fixture.env w a = true) w w' ∧
    w.db.deposits.get? 7 = some d ∧ w'.db.deposits.get? 7 = some d' ∧
    d.confirmedAmount = "1000000" ∧ d'.confirmedAmount = "2000000" ∧
    units d.confirmedAmount ≤ units d'.confirmedAmount := by
  obtain ⟨w, hw, hfound⟩ : ∃ w, Lts.Reaches (step Fixture.env)
      (fun w a => InOrder Fixture.env w a = true) (World.init Fixture.requestedAt) w ∧
      (if InOrder Fixture.env w (.advance 1 .go (Fixture.mint 2)) then
        (step Fixture.env w (.advance 1 .go (Fixture.mint 2))).bind fun w' =>
          (Fixture.confirmedOf w).bind fun c => (Fixture.confirmedOf w').map fun c' => (c, c')
      else none) = some ("1000000", "2000000") :=
    @Lts.exists_reaches_of_run _ _ _ _ _ _ _
      (Fixture.afterBoth Fixture.firstConfirmed Fixture.secondConfirmed) _ _ (by decide +kernel)
  split at hfound
  · next hok =>
    obtain ⟨w', hstep, hfound⟩ := Option.bind_eq_some_iff.mp hfound
    obtain ⟨c, hc, hfound⟩ := Option.bind_eq_some_iff.mp hfound
    obtain ⟨c', hc', heq⟩ := Option.map_eq_some_iff.mp hfound
    obtain ⟨rfl, rfl⟩ := Prod.mk.inj heq
    obtain ⟨d, hd, hconfirmed⟩ := Option.map_eq_some_iff.mp hc
    obtain ⟨d', hd', hconfirmed'⟩ := Option.map_eq_some_iff.mp hc'
    have hrun : Lts.Reaches (step Fixture.env) (fun w a => InOrder Fixture.env w a = true) w w' :=
      Lts.Reaches.refl.tail hok hstep
    refine ⟨w, w', d, d', hw, hrun, hd, hd', hconfirmed, hconfirmed', ?_⟩
    exact (confirmed_amount_monotone Fixture.env _ w hw).1 w' 7 d d' hrun hd hd'
  · cases hfound

/-- The indexer attaches ever larger totals to its watch, and answers no poll; but the second event
overtakes the first, and the stored total goes down. -/
theorem confirmed_amount_drops : ∃ (produced : List IndexerEvent) (steps : List (World × Action))
    (w : World) (a : Action) (w' : World) (d d' : Deposit),
    produced.Pairwise (fun e e' => e.total Fixture.env.readers.lib ≤
      e'.total Fixture.env.readers.lib) ∧
    Lts.Trace (step Fixture.env) (World.init Fixture.requestedAt) steps w ∧
    step Fixture.env w a = some w' ∧
    (∀ e ∈ delivered (steps.map Prod.snd ++ [a]), e ∈ produced) ∧
    answered (steps.map Prod.snd ++ [a]) = [] ∧
    w.db.deposits.get? 7 = some d ∧ w'.db.deposits.get? 7 = some d' ∧
    units d'.confirmedAmount < units d.confirmedAmount := by
  have hrun : (Lts.trace (step Fixture.env) (World.init Fixture.requestedAt)
      (Fixture.afterBoth Fixture.secondConfirmed Fixture.firstConfirmed)).bind (fun p =>
        (step Fixture.env p.2 (.advance 1 .go (Fixture.mint 2))).bind fun w' =>
          (Fixture.confirmedOf p.2).bind fun c => (Fixture.confirmedOf w').map fun c' => (c, c')) =
      some ("2000000", "1000000") := by
    decide +kernel
  obtain ⟨⟨steps, w⟩, htrace, hfound⟩ := Option.bind_eq_some_iff.mp hrun
  obtain ⟨w', hstep, hfound⟩ := Option.bind_eq_some_iff.mp hfound
  obtain ⟨c, hc, hfound⟩ := Option.bind_eq_some_iff.mp hfound
  obtain ⟨c', hc', heq⟩ := Option.map_eq_some_iff.mp hfound
  obtain ⟨rfl, rfl⟩ := Prod.mk.inj heq
  obtain ⟨d, hd, hconfirmed⟩ := Option.map_eq_some_iff.mp hc
  obtain ⟨d', hd', hconfirmed'⟩ := Option.map_eq_some_iff.mp hc'
  refine ⟨[Fixture.firstConfirmed, Fixture.secondConfirmed], steps, w, _, w', d, d', ?_,
    Lts.trace_of_trace htrace, hstep, ?_, ?_, hd, hd', ?_⟩
  · exact List.pairwise_pair.mpr (by decide +kernel)
  · rw [Lts.trace_actions htrace]
    intro e he
    rcases List.mem_pair.mp he with rfl | rfl <;> simp
  · rw [Lts.trace_actions htrace]
    rfl
  · rw [hconfirmed, hconfirmed']
    decide

end GumServer
