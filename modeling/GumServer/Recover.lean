import GumServer.Totals

/-!
# Lost webhooks

A watch has a history: payments seen and confirmed, with ever larger totals, and in the end either
the threshold or the expiry. The indexer tells it in webhooks, any of which may be lost, and the
reconciler reads the watch when the deposit has gone quiet.

If the threshold was reached, that is enough: both ways end in `paid`, with the last total. An
expiry is recorded without a total, by the handler and by the reconciler alike. So whatever was
confirmed last has to have arrived; the total that the expired watch is read with is not looked at.
-/

namespace GumServer

/-- What has become of a deposit: its status, and its confirmed total. -/
abbrev Outcome : Type := DepositStatus × String

/-- The outcome of a row. -/
def Deposit.outcome (d : Deposit) : Outcome := (d.status, d.confirmedAmount)

/-- The outcome of a deposit in a state of the service. -/
def World.outcome (w : World) (id : Uuid) : Option Outcome :=
  (w.db.deposits.get? id).map Deposit.outcome

/-! ## Histories -/

/-- The kind of an event. -/
def IndexerEvent.kind (e : IndexerEvent) : IndexerEventKind := .ofStr e.eventType

/-- **What happens to a watch**: payments, with totals that do not decrease, and an end. -/
structure WatchHistory (lib : Crates) where
  payments : List IndexerEvent
  close : IndexerEvent
  /-- the watch as a poll answers it in the end -/
  watch : WatchDetail
  arePayments : ∀ e ∈ payments, e.kind = .paymentPending ∨ e.kind = .paymentConfirmed
  ascending : (payments ++ [close]).Pairwise fun e e' => e.total lib ≤ e'.total lib
  closes : (close.kind = .thresholdReached ∧ watch.status = "completed") ∨
    (close.kind = .watchExpired ∧ watch.status = "expired")
  final : confirmedTotal lib watch.confirmedAmount = close.total lib

/-- The events of a history, in order. -/
def WatchHistory.events {lib : Crates} (history : WatchHistory lib) : List IndexerEvent :=
  history.payments ++ [history.close]

/-- The total of the last confirmed payment among some events, and nothing where there is none. -/
def lastConfirmed (lib : Crates) (events : List IndexerEvent) : U256 :=
  (((events.filter fun e => decide (e.kind = .paymentConfirmed)).getLast?).map
    (IndexerEvent.total lib)).getD 0

/-! ## Telling a deposit -/

/-- What an event makes of an outcome. -/
def tell (lib : Crates) (outcome : Outcome) (e : IndexerEvent) : Outcome :=
  if outcome.1.isOpen then
    match e.kind with
    | .paymentPending => (.partialPaid, outcome.2)
    | .paymentConfirmed => (.partialPaid, toString (e.total lib).val)
    | .thresholdReached => (.paid, toString (e.total lib).val)
    | .watchExpired => (.expired, outcome.2)
    | .paymentOrphaned | .other => outcome
  else outcome

/-- What a polled watch makes of one. -/
def poll (lib : Crates) (outcome : Outcome) (watch : WatchDetail) : Outcome :=
  if outcome.1.isOpen then
    match WatchStatus.ofStr watch.status with
    | .completed => (.paid, toString (confirmedTotal lib watch.confirmedAmount).val)
    | .closed => (.expired, outcome.2)
    | .active =>
      if confirmedTotal lib watch.confirmedAmount > (lib.fromStrRadix outcome.2).getD 0 then
        (.partialPaid, toString (confirmedTotal lib watch.confirmedAmount).val)
      else outcome
  else outcome

section Tell

variable {lib : Crates}

theorem tell_of_closed {outcome : Outcome} (h : outcome.1.isOpen = false) (e : IndexerEvent) :
    tell lib outcome e = outcome := by
  rw [tell, if_neg (by simp [h])]

theorem lastConfirmed_concat (events : List IndexerEvent) (e : IndexerEvent) :
    lastConfirmed lib (events ++ [e]) =
      if e.kind = .paymentConfirmed then e.total lib else lastConfirmed lib events := by
  rw [lastConfirmed, List.filter_append, List.filter_singleton]
  by_cases h : e.kind = .paymentConfirmed
  · simp [h]
  · simp [h, lastConfirmed]

/-- Payments leave a deposit open, with the last confirmed total. -/
theorem foldl_tell {outcome : Outcome} {events : List IndexerEvent}
    (hpayments : ∀ e ∈ events, e.kind = .paymentPending ∨ e.kind = .paymentConfirmed)
    (hopen : outcome.1.isOpen = true) (hzero : outcome.2 = toString (0 : U256).val) :
    (events.foldl (tell lib) outcome).1.isOpen = true ∧
    (events.foldl (tell lib) outcome).2 = toString (lastConfirmed lib events).val := by
  induction events using List.reverseRecOn with
  | nil => exact ⟨hopen, hzero⟩
  | append_singleton events e ih =>
    obtain ⟨hstill, htotal⟩ := ih fun e he => hpayments e (List.mem_append_left _ he)
    rw [List.foldl_append, List.foldl_cons, List.foldl_nil, tell, if_pos hstill,
      lastConfirmed_concat]
    rcases hpayments e (List.mem_append_right _ (List.mem_singleton_self e)) with hkind | hkind
    · rw [hkind, if_neg (by decide)]
      exact ⟨rfl, htotal⟩
    · rw [hkind, if_pos rfl]
      exact ⟨rfl, rfl⟩

/-- The end of a history closes an open deposit, with the total of the threshold or the one there
was. -/
theorem tell_close (history : WatchHistory lib) {outcome : Outcome}
    (hopen : outcome.1.isOpen = true) : tell lib outcome history.close =
      if history.close.kind = .thresholdReached then
        (.paid, toString (history.close.total lib).val)
      else (.expired, outcome.2) := by
  rw [tell, if_pos hopen]
  rcases history.closes with ⟨hkind, -⟩ | ⟨hkind, -⟩
  · rw [hkind]
    rfl
  · rw [hkind]
    rfl

/-- And so does the watch, when it is polled. -/
theorem poll_close (history : WatchHistory lib) {outcome : Outcome}
    (hopen : outcome.1.isOpen = true) :
    poll lib outcome history.watch = tell lib outcome history.close := by
  rw [tell_close history hopen, poll, if_pos hopen]
  rcases history.closes with ⟨hkind, hstatus⟩ | ⟨hkind, hstatus⟩
  · rw [hstatus, hkind, history.final]
    rfl
  · rw [hstatus, hkind]
    rfl

theorem poll_of_closed {outcome : Outcome} (h : outcome.1.isOpen = false) (watch : WatchDetail) :
    poll lib outcome watch = outcome := by
  rw [poll, if_neg (by simp [h])]

theorem WatchHistory.close_not_confirmed (history : WatchHistory lib) :
    history.close.kind ≠ .paymentConfirmed := by
  rcases history.closes with ⟨hkind, -⟩ | ⟨hkind, -⟩ <;> simp [hkind]

/-- The end adds no confirmed payment. -/
theorem WatchHistory.lastConfirmed_close (history : WatchHistory lib) (events : List IndexerEvent) :
    lastConfirmed lib (events ++ [history.close]) = lastConfirmed lib events := by
  rw [lastConfirmed_concat, if_neg history.close_not_confirmed]

/-- Any part of a history, and then the watch, comes to the end of the history after the payments
that arrived. -/
theorem poll_delivered (history : WatchHistory lib) {delivered : List IndexerEvent}
    (hsub : delivered.Sublist history.events) {outcome : Outcome}
    (hopen : outcome.1.isOpen = true) (hzero : outcome.2 = toString (0 : U256).val) :
    ∃ arrived, (∀ e ∈ arrived, e.kind = .paymentPending ∨ e.kind = .paymentConfirmed) ∧
      lastConfirmed lib delivered = lastConfirmed lib arrived ∧
      poll lib (delivered.foldl (tell lib) outcome) history.watch =
        tell lib (arrived.foldl (tell lib) outcome) history.close := by
  obtain ⟨arrived, rest, rfl, harrived, hrest⟩ := List.sublist_append_iff.mp hsub
  have hpayments : ∀ e ∈ arrived, e.kind = .paymentPending ∨ e.kind = .paymentConfirmed :=
    fun e he => history.arePayments e (harrived.subset he)
  obtain ⟨hstill, -⟩ := @foldl_tell lib _ _ hpayments hopen hzero
  refine ⟨arrived, hpayments, ?_⟩
  rcases List.sublist_singleton.mp hrest with rfl | rfl
  · rw [List.append_nil]
    exact ⟨rfl, poll_close history hstill⟩
  · refine ⟨history.lastConfirmed_close arrived, ?_⟩
    rw [List.foldl_append, List.foldl_cons, List.foldl_nil]
    refine poll_of_closed ?_ history.watch
    rw [tell_close history hstill]
    split <;> rfl

/-- **When polling makes up for what was lost.** -/
theorem poll_delivered_iff (history : WatchHistory lib) {delivered : List IndexerEvent}
    (hsub : delivered.Sublist history.events) {outcome : Outcome}
    (hopen : outcome.1.isOpen = true) (hzero : outcome.2 = toString (0 : U256).val) :
    poll lib (delivered.foldl (tell lib) outcome) history.watch =
        history.events.foldl (tell lib) outcome ↔
      history.close.kind = .thresholdReached ∨
        lastConfirmed lib delivered = lastConfirmed lib history.events := by
  obtain ⟨arrived, hpayments, hlast, hpoll⟩ := poll_delivered history hsub hopen hzero
  obtain ⟨hstill, htotal⟩ := @foldl_tell lib _ _ hpayments hopen hzero
  obtain ⟨hstill', htotal'⟩ := @foldl_tell lib _ _ history.arePayments hopen hzero
  rw [hpoll, hlast, WatchHistory.events, history.lastConfirmed_close, List.foldl_append,
    List.foldl_cons, List.foldl_nil, tell_close history hstill, tell_close history hstill']
  by_cases hkind : history.close.kind = .thresholdReached
  · simp [hkind]
  · rw [if_neg hkind, if_neg hkind, htotal, htotal']
    constructor
    · intro heq
      refine .inr (Fin.ext ?_)
      have hunits := congrArg (fun o : Outcome => units o.2) heq
      simpa only [units_toString] using hunits
    · rintro (habsurd | heq)
      · exact absurd habsurd hkind
      · rw [heq]

end Tell

/-! ## On the service -/

/-- A handler runs to its end. -/
inductive Handled (env : Env) (task : ℕ) : World → World → Prop where
  | ended {t : World} : t.tasks.get? task = none → Handled env task t t
  | next {t t' u : World} {mint : Mint} : step env t (.advance task .go mint) = some t' →
      Handled env task t' u → Handled env task t u

/-- A deposit is told of some events, one after the other: each is delivered and its handler runs to
its end. Time may pass. -/
inductive Told (env : Env) (id : Uuid) (w : World) : List IndexerEvent → World → Prop where
  | nothing : Told env id w [] w
  | event {events : List IndexerEvent} {t t₁ t₂ : World} {e : IndexerEvent} {task : ℕ} :
      Told env id w events t → step env t (.indexerEvent task e (some id)) = some t₁ →
      Handled env task t₁ t₂ → Told env id w (events ++ [e]) t₂
  | wait {events : List IndexerEvent} {t t' : World} {now : DateTime} : Told env id w events t →
      step env t (.tick now) = some t' → Told env id w events t'

/-- One pass of `reconcile_open` over a deposit whose watch is answered to be as given. It is loaded
if it is open; the row is touched when nothing was to be done. -/
inductive Polled (env : Env) (id : Uuid) (watch : WatchDetail) (w : World) : World → Prop where
  | closed {d : Deposit} : w.db.deposits.get? id = some d → d.status.isOpen = false →
      Polled env id watch w w
  | stale {t₁ t₂ t₃ : World} {task : ℕ} {polledAt : String} {mint₁ mint₂ : Mint} :
      step env w (.staleOpen task id) = some t₁ →
      step env t₁ (.advance task (.polledWatch (some watch) polledAt) mint₁) = some t₂ →
      step env t₂ (.advance task .go mint₂) = some t₃ → Polled env id watch w t₃
  | touched {t t' : World} {task : ℕ} {mint : Mint} : Polled env id watch w t →
      t.tasks.get? task = some (.touching id) → step env t (.advance task .go mint) = some t' →
      Polled env id watch w t'

section Rows

variable {lib : Crates} {d d' : Deposit}

theorem Quiet.outcome (h : Quiet d d') : d'.outcome = d.outcome := by
  rw [Deposit.outcome, h.status, h.confirmedAmount, Deposit.outcome]

/-- What a transition makes of an outcome, where it hits. -/
def Op.outcome (outcome : Outcome) : Op → Outcome
  | .applyPaymentPending _ => (.partialPaid, outcome.2)
  | .applyPaymentConfirmed confirmed _ => (.partialPaid, toString confirmed.val)
  | .applyThresholdReached confirmed _ => (.paid, toString confirmed.val)
  | .applyExpired _ => (.expired, outcome.2)
  | .applySettled _ _ _ => (.settled, outcome.2)
  | .applyFailed _ _ _ _ _ | .failOpen _ _ => (.failed, outcome.2)
  | .retrySettlement => (.paid, outcome.2)
  | .markWatchRegistered _ | .applyPaymentOrphaned _ _ | .markEngineSubmitted _ _
  | .applySettlementIncluded _ _ _ | .resubmit _ | .reregisterWatch => outcome

theorem Op.row_outcome (op : Op) (now : DateTime) (d : Deposit) :
    (op.transition.row now d).outcome = op.outcome d.outcome := by
  cases op with
  | markEngineSubmitted job replayed => cases replayed <;> rfl
  | _ => rfl

variable {write : Write} {now : DateTime} {op : Op}

theorem Write.Hits.outcome (h : write.Hits now op d) :
    (write.row now d).outcome = op.outcome d.outcome := by
  rw [h.row, Op.row_outcome, (write.quiet_bound now d).outcome]

/-- A transition that cannot hit leaves the outcome, and so does one that would leave it. -/
theorem outcome_of_miss (h : ∀ op, write.op = some (op, d.id) →
      op.transition.guard (write.bound now d) = false ∨ op.outcome d.outcome = d.outcome) :
    (write.row now d).outcome = d.outcome := by
  rcases write.row_cases now d with hquiet | ⟨op, hhits, -⟩
  · exact hquiet.outcome
  · rcases h op hhits.carries with hguard | hsame
    · exact absurd hhits.guard (by simp [hguard])
    · rw [hhits.outcome, hsame]

/-- The row after the handler's transaction. -/
theorem outcome_indexerTx (lib : Crates) (e : IndexerEvent) (d : Deposit) (seen : Option Deposit)
    (now : DateTime) :
    ((Write.tx (indexerTx lib e d seen)).row now d).outcome = tell lib d.outcome e := by
  have hcarries : (Write.tx (indexerTx lib e d seen)).op =
      (indexerOp lib e seen).map fun op => (op, d.id) := by
    rw [Write.op, indexerTx]
  generalize Write.tx (indexerTx lib e d seen) = write at hcarries
  have hstatus := (write.quiet_bound now d).status
  by_cases hopen : d.outcome.1.isOpen = true
  · have hguard : (write.bound now d).status.isOpen = true := by
      rw [hstatus]
      exact hopen
    rw [tell, if_pos hopen]
    rw [indexerOp] at hcarries
    cases hkind : e.kind with
    | paymentOrphaned =>
      rw [show IndexerEventKind.ofStr e.eventType = _ from hkind] at hcarries
      exact Write.Hits.outcome ⟨hcarries, rfl⟩
    | other =>
      rw [show IndexerEventKind.ofStr e.eventType = _ from hkind] at hcarries
      refine outcome_of_miss ?_
      intro op hop
      cases hcarries.symm.trans hop
    | _ =>
      rw [show IndexerEventKind.ofStr e.eventType = _ from hkind] at hcarries
      exact Write.Hits.outcome ⟨hcarries, hguard⟩
  · rw [Bool.not_eq_true] at hopen
    have hguard : (write.bound now d).status.isOpen = false := by
      rw [hstatus]
      exact hopen
    rw [tell_of_closed hopen]
    refine outcome_of_miss ?_
    intro op hop
    obtain ⟨op', hop', heq⟩ := Option.map_eq_some_iff.mp (hcarries.symm.trans hop)
    obtain ⟨rfl, -⟩ := Prod.mk.inj heq
    cases indexerOp_asks hop' with
    | orphaned data => exact .inr rfl
    | _ => exact .inl hguard

/-- The row after the reconciler's. -/
theorem outcome_openOp (lib : Crates) (d : Deposit) (watchId : Uuid) (watch : WatchDetail)
    (polledAt : String) (now : DateTime) :
    ((Write.tx ⟨none, none, (openOp lib d watchId watch polledAt).map fun op => (op, d.id)⟩).row
      now d).outcome = poll lib d.outcome watch := by
  rw [openOp, poll]
  cases WatchStatus.ofStr watch.status with
  | completed =>
    refine (congrArg Deposit.outcome (Write.row_of _ now rfl)).trans ?_
    rw [apply_ite Deposit.outcome]
    rfl
  | closed =>
    refine (congrArg Deposit.outcome (Write.row_of _ now rfl)).trans ?_
    rw [apply_ite Deposit.outcome]
    rfl
  | active =>
    dsimp only
    by_cases hmore : confirmedTotal lib watch.confirmedAmount >
        (lib.fromStrRadix d.confirmedAmount).getD 0
    · rw [if_pos hmore, show d.outcome.2 = d.confirmedAmount from rfl, if_pos hmore]
      refine (congrArg Deposit.outcome (Write.row_of _ now rfl)).trans ?_
      rw [apply_ite Deposit.outcome]
      rfl
    · rw [if_neg hmore, show d.outcome.2 = d.confirmedAmount from rfl, if_neg hmore, ite_self]
      rfl

end Rows

section Service

variable {env : Env} {id : Uuid} {w w' t : World}

/-- The outcomes after a task's step. -/
theorem outcome_advance {name : ℕ} {task : Task} {input : Input} {mint : Mint}
    {n : Write × Engine × Option Task} (htask : w.tasks.get? name = some task)
    (hnext : task.next env w.db w.engine input = some n)
    (h : step env w (.advance name input mint) = some w') (id : Uuid) :
    w'.outcome id = (w.db.deposits.get? id).map fun d => (n.1.row w.clock d).outcome := by
  rw [step, htask, Option.bind_some, hnext, Option.bind_some] at h
  obtain ⟨-, rfl⟩ := require_eq_some.mp h
  show ((w.db.write w.clock mint n.1).deposits.get? id).map Deposit.outcome = _
  rw [Db.write_deposits, Option.map_map]
  rfl

/-- Nobody handles anything under a free name. -/
theorem Handled.eq_of_free {task : ℕ} (h : Handled env task t w)
    (hfree : t.tasks.get? task = none) : w = t := by
  cases h with
  | ended => rfl
  | next hstep hrest =>
    rw [step, hfree] at hstep
    cases hstep

/-- A handler that runs to its end tells its event, whatever it reads on the way. -/
theorem Handled.outcome {task : ℕ} {e : IndexerEvent} {d : Deposit} {seen : Option Deposit}
    (h : Handled env task t w) (htask : t.tasks.get? task = some (.indexer e d seen))
    (hd : t.db.deposits.get? id = some d) :
    w.outcome id = some (tell env.readers.lib d.outcome e) := by
  induction h generalizing seen with
  | ended hfree => cases hfree.symm.trans htask
  | @next t t' u mint hstep hrest ih =>
    have hcommit {n : Write × Engine × Option Task}
        (hnext : Task.next env t.db t.engine (.indexer e d seen) .go = some n)
        (hwrite : n.1 = .tx (indexerTx env.readers.lib e d seen)) (hlast : n.2.2 = none) :
        u.outcome id = some (tell env.readers.lib d.outcome e) := by
      have houtcome := outcome_advance htask hnext hstep id
      rw [hd, Option.map_some, hwrite, outcome_indexerTx] at houtcome
      rw [step, htask, Option.bind_some, hnext, Option.bind_some] at hstep
      obtain ⟨-, rfl⟩ := require_eq_some.mp hstep
      have hfree : (t.after task mint n.1 n.2.1 n.2.2).tasks.get? task = none := by
        rw [hlast]
        exact KeyMap.get?_erase_self ..
      rw [hrest.eq_of_free hfree, houtcome]
    cases seen with
    | some row => exact hcommit rfl rfl rfl
    | none =>
      cases hrow : orphanedRow t.db e d with
      | none => exact hcommit (n := (_, _, _)) (by rw [Task.next, hrow]) rfl rfl
      | some row =>
        rw [step, htask, Option.bind_some, Task.next, hrow] at hstep
        obtain ⟨-, rfl⟩ := require_eq_some.mp hstep
        exact ih (KeyMap.get?_put_self ..) hd

/-- A delivered event is told. -/
theorem outcome_event {t t₁ t₂ : World} {e : IndexerEvent} {task : ℕ}
    (hstart : step env t (.indexerEvent task e (some id)) = some t₁)
    (hhandled : Handled env task t₁ t₂) :
    t₂.outcome id = (t.outcome id).map fun o => tell env.readers.lib o e := by
  obtain ⟨d, hd, hstart⟩ := Option.bind_eq_some_iff.mp hstart
  obtain ⟨-, rfl⟩ := require_eq_some.mp hstart
  rw [hhandled.outcome (KeyMap.get?_put_self ..) hd, World.outcome, hd]
  rfl

/-- **Events delivered one after the other are told one after the other.** -/
theorem Told.outcome {events : List IndexerEvent} (h : Told env id w events t) :
    t.outcome id = (w.outcome id).map fun o => events.foldl (tell env.readers.lib) o := by
  induction h with
  | nothing => exact Option.map_id'.symm
  | event _ hstart hhandled ih =>
    rw [outcome_event hstart hhandled, ih, Option.map_map]
    simp only [Function.comp_def, List.foldl_append, List.foldl_cons, List.foldl_nil]
  | wait _ hstep ih =>
    obtain ⟨-, rfl⟩ := require_eq_some.mp hstep
    exact ih

/-- **A pass polls.** -/
theorem Polled.outcome {watch : WatchDetail} (h : Polled env id watch w t) :
    t.outcome id = (w.outcome id).map fun o => poll env.readers.lib o watch := by
  induction h with
  | closed hd hclosed =>
    rw [World.outcome, hd, Option.map_some, Option.map_some, poll_of_closed hclosed]
  | @stale t₁ t₂ t₃ task polledAt mint₁ mint₂ hstart hpolled hcommit =>
    obtain ⟨d, hd, hstart⟩ := Option.bind_eq_some_iff.mp hstart
    obtain ⟨watchId, -, hstart⟩ := Option.bind_eq_some_iff.mp hstart
    obtain ⟨-, rfl⟩ := require_eq_some.mp hstart
    obtain rfl := Table.key_of_get? hd
    have htask : (w.start task (.openStale d watchId)).tasks.get? task = some (.openStale d watchId) :=
      KeyMap.get?_put_self ..
    rw [step, htask] at hpolled
    obtain ⟨-, rfl⟩ := require_eq_some.mp hpolled
    have htask' := KeyMap.get?_put_self (w.start task (.openStale d watchId)).tasks task
      (.openPolled d watchId (some watch) polledAt)
    rw [outcome_advance htask' rfl hcommit, World.outcome, hd, Option.map_some]
    show (w.db.deposits.get? d.id).map _ = _
    rw [hd, Option.map_some, Option.map_some, outcome_openOp]
  | @touched t t' task mint _ htask hstep ih =>
    rw [outcome_advance htask rfl hstep, ← ih, World.outcome]
    congr 1
    funext d
    rw [Write.row]
    split <;> rfl

/-- A pending row is one that no payment has reached. -/
theorem Op.row_pending {op : Op} {now : DateTime} {d : Deposit}
    (h : (op.transition.row now d).status = .pending) :
    d.status = .pending ∧ (op.transition.row now d).confirmedAmount = d.confirmedAmount := by
  cases op with
  | markWatchRegistered watch => exact ⟨h, rfl⟩
  | applyPaymentOrphaned data => exact ⟨h, rfl⟩
  | reregisterWatch => exact ⟨h, rfl⟩
  | markEngineSubmitted job replayed => cases replayed <;> exact ⟨h, rfl⟩
  | applySettlementIncluded txHash blockNumber data => exact ⟨h, rfl⟩
  | resubmit data => exact ⟨h, rfl⟩
  | _ => cases h

theorem Reachable.pending_zero (h : Reachable env w) {d : Deposit}
    (hd : w.db.deposits.get? id = some d) (hpending : d.status = .pending) :
    d.confirmedAmount = toString (0 : U256).val := by
  refine h.row_invariant (P := fun d => d.status = .pending →
    d.confirmedAmount = toString (0 : U256).val) ?_ ?_ hd hpending
  · intro new id userId now d hinsert _
    exact (Inserted.of_insert hinsert).confirmedAmount.trans rfl
  · intro d write now ih hpending
    rcases write.row_cases now d with hquiet | ⟨op, -, heq⟩
    · rw [hquiet.confirmedAmount]
      exact ih (hquiet.status ▸ hpending)
    · have hbound := write.quiet_bound now d
      rw [heq] at hpending ⊢
      obtain ⟨hwas, hsame⟩ := Op.row_pending hpending
      rw [hsame, hbound.confirmedAmount]
      exact ih (hbound.status ▸ hwas)

end Service

/-- **When a pass makes up for lost webhooks.** A pending deposit is told of some events of a watch's
history, in order, and then the reconciler reads the watch in its final state. Its status and its
total are those it would have after every event exactly when the history ends in the threshold, or
the last confirmed total among the events that arrived is the last one of the history. -/
theorem reconcile_open_recovers_iff (env : Env) (w t t' u : World) (id : Uuid) (d : Deposit)
    (history : WatchHistory env.readers.lib) (delivered : List IndexerEvent)
    (hreach : Reachable env w) (hd : w.db.deposits.get? id = some d) (hpending : d.status = .pending)
    (hsub : delivered.Sublist history.events) (hdelivered : Told env id w delivered t)
    (hpass : Polled env id history.watch t t') (hall : Told env id w history.events u) :
    t'.outcome id = u.outcome id ↔
      history.close.kind = .thresholdReached ∨
        lastConfirmed env.readers.lib delivered = lastConfirmed env.readers.lib history.events := by
  have hopen : d.outcome.1.isOpen = true := by
    rw [Deposit.outcome, hpending]
    rfl
  have hzero : d.outcome.2 = toString (0 : U256).val := hreach.pending_zero hd hpending
  rw [hpass.outcome, hdelivered.outcome, hall.outcome, World.outcome, hd, Option.map_some,
    Option.map_some, Option.map_some, Option.map_some, Option.some_inj]
  exact poll_delivered_iff history hsub hopen hzero

/-! ## A payment that is lost and a watch that expires -/

namespace Fixture

/-- A transfer is seen: the first of two. -/
def paymentSeen : IndexerEvent := { firstConfirmed with
  id := "evt-seen", eventType := "payment.pending"
  watch := ⟨55, 31337, new.paymentAddress, some "0"⟩ }

/-- The watch runs out after the first transfer. -/
def watchRanOut : IndexerEvent := { firstConfirmed with
  id := "evt-watch-expired", eventType := "watch.expired" }

/-- The first transfer is seen and confirmed, and the second completes the watch. -/
def paidHistory : WatchHistory env.readers.lib where
  payments := [paymentSeen, firstConfirmed]
  close := thresholdReached
  watch := ⟨"completed", some "2500000"⟩
  arePayments := by decide
  ascending := by decide +kernel
  closes := by decide
  final := by decide +kernel

/-- There is no second transfer. -/
def expiredHistory : WatchHistory env.readers.lib where
  payments := [paymentSeen, firstConfirmed]
  close := watchRanOut
  watch := ⟨"expired", some "1000000"⟩
  arePayments := by decide
  ascending := by decide +kernel
  closes := by decide
  final := by decide +kernel

/-- A deposit is created, as number 7. -/
def untilCreated : List Action := [.setUser "user" none, .create new "user" 7 (mint 0)]

/-- It is told of some events; the last one is the first of the list. -/
def tellAll (w : World) : List IndexerEvent → Option World
  | [] => some w
  | e :: earlier => (tellAll w earlier).bind fun t =>
    (step env t (.indexerEvent 0 e (some 7))).bind fun t₁ =>
      (step env t₁ (.advance 0 .go (mint (earlier.length + 1)))).filter fun t₂ =>
        (t₂.tasks.get? 0).isNone

/-- Some time later, its watch is polled. -/
def pass (w : World) (watch : WatchDetail) : Option World :=
  (step env w (.staleOpen 0 7)).bind fun t₁ =>
    (step env t₁ (.advance 0 (.polledWatch (some watch) "") (mint 8))).bind fun t₂ =>
      step env t₂ (.advance 0 .go (mint 9))

theorem told_of_tellAll {w t : World} {events : List IndexerEvent} (h : tellAll w events = some t) :
    Told env 7 w events.reverse t := by
  induction events generalizing t with
  | nil =>
    obtain rfl := Option.some.inj h
    exact .nothing
  | cons e earlier ih =>
    obtain ⟨t₀, ht₀, h⟩ := Option.bind_eq_some_iff.mp h
    obtain ⟨t₁, ht₁, h⟩ := Option.bind_eq_some_iff.mp h
    obtain ⟨hcommit, hended⟩ := Option.filter_eq_some_iff.mp h
    rw [List.reverse_cons]
    exact .event (ih ht₀) ht₁ (.next hcommit (.ended (Option.isNone_iff_eq_none.mp hended)))

/-- The outcomes of the fixture's deposit, pending at first, after some events and a pass, and after
some events. -/
def outcomes (watch : WatchDetail) (delivered all : List IndexerEvent) (w : World) :
    Option (DepositStatus × Outcome × Outcome) :=
  (tellAll w delivered).bind fun t => (step env t (.tick (later 1000))).bind fun t =>
    (pass t watch).bind fun t' => (tellAll w all).bind fun u =>
      (w.db.deposits.get? 7).bind fun d => (t'.outcome 7).bind fun o =>
        (u.outcome 7).map fun o' => (d.status, o, o')

theorem exists_of_outcomes {w : World} {watch : WatchDetail} {delivered all : List IndexerEvent}
    {status : DepositStatus} {o o' : Outcome}
    (h : outcomes watch delivered all w = some (status, o, o')) :
    ∃ t t' u d, w.db.deposits.get? 7 = some d ∧ d.status = status ∧
      Told env 7 w delivered.reverse t ∧ Polled env 7 watch t t' ∧ Told env 7 w all.reverse u ∧
      t'.outcome 7 = some o ∧ u.outcome 7 = some o' := by
  obtain ⟨t₀, ht₀, h⟩ := Option.bind_eq_some_iff.mp h
  obtain ⟨t, ht, h⟩ := Option.bind_eq_some_iff.mp h
  obtain ⟨t', hpass, h⟩ := Option.bind_eq_some_iff.mp h
  obtain ⟨u, hu, h⟩ := Option.bind_eq_some_iff.mp h
  obtain ⟨d, hd, h⟩ := Option.bind_eq_some_iff.mp h
  obtain ⟨o, ho, h⟩ := Option.bind_eq_some_iff.mp h
  obtain ⟨o', ho', heq⟩ := Option.map_eq_some_iff.mp h
  obtain ⟨hstatus, heq⟩ := Prod.mk.inj heq
  obtain ⟨rfl, rfl⟩ := Prod.mk.inj heq
  obtain ⟨t₁, ht₁, hpass⟩ := Option.bind_eq_some_iff.mp hpass
  obtain ⟨t₂, ht₂, hpass⟩ := Option.bind_eq_some_iff.mp hpass
  exact ⟨t, t', u, d, hd, hstatus, (told_of_tellAll ht₀).wait ht, .stale ht₁ ht₂ hpass,
    told_of_tellAll hu, ho, ho'⟩

end Fixture

/-- On the fixture's deposit: told of the transfer as it is seen, and of nothing else, it is paid all
the same once the completed watch is read. -/
theorem reconcile_open_recovers_fixture : ∃ w t t' u d, Reachable Fixture.env w ∧
    w.db.deposits.get? 7 = some d ∧ d.status = .pending ∧
    Told Fixture.env 7 w [Fixture.paymentSeen] t ∧
    Polled Fixture.env 7 Fixture.paidHistory.watch t t' ∧
    Told Fixture.env 7 w Fixture.paidHistory.events u ∧
    t'.outcome 7 = some (.paid, "2500000") ∧ t'.outcome 7 = u.outcome 7 := by
  obtain ⟨w, hreach, hfound⟩ : ∃ w, Lts.Reaches (step Fixture.env) Lts.Any
      (World.init Fixture.requestedAt) w ∧
      Fixture.outcomes Fixture.paidHistory.watch [Fixture.paymentSeen]
        Fixture.paidHistory.events.reverse w = some (.pending, (.paid, "2500000"), (.paid, "2500000")) :=
    @Lts.exists_reaches_of_run _ _ _ _ _ _ _ Fixture.untilCreated _ _ (by decide +kernel)
  obtain ⟨t, t', u, d, hd, hpending, hdelivered, hpass, hall, ho, -⟩ :=
    Fixture.exists_of_outcomes hfound
  rw [List.reverse_reverse] at hall
  refine ⟨w, t, t', u, d, ⟨_, hreach⟩, hd, hpending, hdelivered, hpass, hall, ho, ?_⟩
  exact (reconcile_open_recovers_iff Fixture.env w t t' u 7 d Fixture.paidHistory
    [Fixture.paymentSeen] ⟨_, hreach⟩ hd hpending (by simp [Fixture.paidHistory, WatchHistory.events])
    hdelivered hpass hall).mpr (.inl (by decide))

/-- The confirmed payment is lost, and so is the expiry. The reconciler reads the expired watch with
its total, and expires the deposit with none. -/
theorem reconcile_open_loses_total : ∃ w t t' u d, Reachable Fixture.env w ∧
    w.db.deposits.get? 7 = some d ∧ d.status = .pending ∧
    [Fixture.paymentSeen].Sublist Fixture.expiredHistory.events ∧
    Told Fixture.env 7 w [Fixture.paymentSeen] t ∧
    Polled Fixture.env 7 Fixture.expiredHistory.watch t t' ∧
    Told Fixture.env 7 w Fixture.expiredHistory.events u ∧
    t'.outcome 7 = some (.expired, "0") ∧ u.outcome 7 = some (.expired, "1000000") := by
  obtain ⟨w, hreach, hfound⟩ : ∃ w, Lts.Reaches (step Fixture.env) Lts.Any
      (World.init Fixture.requestedAt) w ∧
      Fixture.outcomes Fixture.expiredHistory.watch [Fixture.paymentSeen]
        Fixture.expiredHistory.events.reverse w =
          some (.pending, (.expired, "0"), (.expired, "1000000")) :=
    @Lts.exists_reaches_of_run _ _ _ _ _ _ _ Fixture.untilCreated _ _ (by decide +kernel)
  obtain ⟨t, t', u, d, hd, hpending, hdelivered, hpass, hall, ho, ho'⟩ :=
    Fixture.exists_of_outcomes hfound
  rw [List.reverse_reverse] at hall
  refine ⟨w, t, t', u, d, ⟨_, hreach⟩, hd, hpending, ?_, hdelivered, hpass, hall, ho, ho'⟩
  simp [Fixture.expiredHistory, WatchHistory.events]

end GumServer
