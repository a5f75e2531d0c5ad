import GumServer.Frame

/-!
# Expiry without the indexer's say-so

A tick of the reconciler expires a deposit in two ways. `expire_overdue` does it blindly, a full day
after the expiry. `reconcile_open` asks the indexer first, and expires on the answer that the watch
is expired or cancelled.

The first comes before the second. So a deposit whose watch is completed is safe from a tick up to
a day after its expiry; and after a longer outage it is not, whatever the indexer would answer.
-/

namespace GumServer

/-! ## The service and its indexer -/

/-- The service, and the watches of the indexer it asks. -/
structure Deployment where
  service : World
  indexer : KeyMap Uuid WatchDetail

/-- What can happen to the two. -/
inductive Move : Type where
  | service (a : Action) : Move
  /-- the indexer has a watch, or another state of it, or does not know it any more -/
  | watch (id : Uuid) (watch : Option WatchDetail) : Move

namespace Deployment

/-- Whether the indexer reports a watch to be in some state. -/
def reports (s : Deployment) (id : Uuid) (status : WatchStatus) : Bool :=
  (s.indexer.get? id).any fun watch => decide (WatchStatus.ofStr watch.status = status)

/-- Whether a poll is answered with what the indexer has. -/
def truthful (s : Deployment) : Action → Bool
  | .advance name (.polledWatch answer _) _ =>
    match s.service.tasks.get? name with
    | some (.openStale _ watchId) => decide (answer = s.indexer.get? watchId)
    | _ => true
  | _ => true

/-- The indexer after a watch has changed. -/
def changed (s : Deployment) (id : Uuid) : Option WatchDetail → Deployment
  | some watch => { s with indexer := s.indexer.put id watch }
  | none => { s with indexer := s.indexer.erase id }

/-- One step of the service or of the indexer. -/
def step (env : Env) (s : Deployment) : Move → Option Deployment
  | .service a =>
    if s.truthful a then (GumServer.step env s.service a).map fun w => { s with service := w }
    else none
  | .watch id watch => some (s.changed id watch)

/-- Before anything has happened. -/
def init (clock : DateTime) : Deployment := ⟨World.init clock, KeyMap.empty⟩

/-- Whether the indexer leaves an expired or cancelled watch so. -/
def retires (s : Deployment) : Move → Bool
  | .watch id watch => !s.reports id .closed ||
      watch.any fun watch => decide (WatchStatus.ofStr watch.status = .closed)
  | .service _ => true

/-- Whether no poll is left without an answer. -/
def answers (s : Deployment) : Move → Bool
  | .service (.drop name) =>
    match s.service.tasks.get? name with
    | some (.openStale _ _) => false
    | _ => true
  | _ => true

end Deployment

/-- Whether a task is of the reconciler. -/
def Task.ofReconciler : Task → Bool
  | .settling claim _ _ _ _ => claim.isNone
  | .openStale _ _ | .openPolled _ _ _ _ | .paidStale _ _ | .paidUnknown _ _ | .touching _
  | .overdue _ => true
  | .indexer _ _ _ | .worker _ _ => false

/-- The watch of a deposit as a task knows it: the one it asked about, if it asked. -/
def Task.watchOf (t : Task) (d : Deposit) : Option Uuid :=
  match t with
  | .openStale _ watchId | .openPolled _ watchId _ _ => some watchId
  | _ => d.watchId

/-! ## Overdue deposits -/

section Service

variable {env : Env} {w w' : World} {a : Action}

/-- Only a tick of the clock moves it, and forwards. -/
theorem step_clock (h : step env w a = some w') : w.clock.toMicros ≤ w'.clock.toMicros := by
  cases step_cases h with
  | tick now hlater => exact hlater
  | _ => exact Int.le_refl _

/-- **What `expire_overdue` selected is a full day past its expiry.** -/
theorem Reachable.overdue (h : Reachable env w) {name : ℕ} {id : Uuid}
    (ht : w.tasks.get? name = some (.overdue id)) :
    ∃ d, w.db.deposits.get? id = some d ∧
      d.expiresAt.toMicros < w.ago World.EXPIRY_GRACE_SECS := by
  obtain ⟨clock, hreach⟩ := h
  refine hreach.invariant (P := fun w => ∀ {name id}, w.tasks.get? name = some (.overdue id) →
    ∃ d, w.db.deposits.get? id = some d ∧
      d.expiresAt.toMicros < w.ago World.EXPIRY_GRACE_SECS) ?_ ?_ ht
  · intro name id ht
    cases ht
  · intro w a w' hreach ih _ hstep name id ht
    have hfit : JobsFit w := JobsFit.reachable ⟨clock, hreach⟩
    have hclock := step_clock hstep
    have hstays {d : Deposit} (hd : w.db.deposits.get? id = some d)
        (hpast : d.expiresAt.toMicros < w.ago World.EXPIRY_GRACE_SECS) :
        ∃ d', w'.db.deposits.get? id = some d' ∧
          d'.expiresAt.toMicros < w'.ago World.EXPIRY_GRACE_SECS := by
      refine ⟨_, hfit.row_after hstep hd, ?_⟩
      have hterms := congrArg FixedTerms.expiresAt (Write.row_fixedTerms (w.commits env a) w.clock d)
      rw [show ((w.commits env a).row w.clock d).expiresAt = d.expiresAt from hterms]
      refine Int.lt_of_lt_of_le hpast ?_
      rw [World.ago, World.ago]
      omega
    cases step_tasks hstep ht with
    | kept ht =>
      obtain ⟨d, hd, hpast⟩ := ih ht
      exact hstays hd hpast
    | overdue d hd hoverdue =>
      rw [World.isOverdue, Bool.and_eq_true, decide_eq_true_eq] at hoverdue
      exact hstays hd hoverdue.2
    | advanced input mint write engine ha hold hnext =>
      rcases Task.next_step hnext with ⟨hhandler, -⟩ | ⟨job, stage, stage', -, hnext', -⟩
      · cases hhandler with
        | applyOpen d watchId watch polledAt t' ht' => rcases ht' with ht' | ht' <;> cases ht'
      · cases stage' <;> cases hnext'

/-- A watch that has been polled is one that was asked for. -/
theorem Task.next_polled {t : Task} {input : Input} {write : Write} {engine : Engine} {d : Deposit}
    {watchId : Uuid} {watch : Option WatchDetail} {polledAt : String}
    (h : t.next env w.db w.engine input =
      some (write, engine, some (.openPolled d watchId watch polledAt))) :
    t = .openStale d watchId ∧ input = .polledWatch watch polledAt := by
  rcases Task.next_step h with ⟨hhandler, -⟩ | ⟨job, stage, stage', -, hnext, -⟩
  · cases hhandler with
    | pollOpen d watchId watch polledAt => cases input <;> cases h; exact ⟨rfl, rfl⟩
    | applyOpen d watchId watch polledAt t' ht' => rcases ht' with ht' | ht' <;> cases ht'
  · cases stage' <;> cases hnext

/-- Only an expiry expires. -/
theorem Op.row_expired {op : Op} {now : DateTime} {d : Deposit}
    (h : (op.transition.row now d).status = .expired) :
    d.status = .expired ∨ ∃ data, op = .applyExpired data := by
  cases op with
  | applyExpired data => exact .inr ⟨data, rfl⟩
  | markWatchRegistered watch => exact .inl h
  | applyPaymentOrphaned data => exact .inl h
  | reregisterWatch => exact .inl h
  | markEngineSubmitted job replayed => cases replayed <;> exact .inl h
  | applySettlementIncluded txHash blockNumber data => exact .inl h
  | resubmit data => exact .inl h
  | _ => cases h

/-- **How the reconciler expires**: blindly, or on the answer that the watch is closed. -/
theorem Asks.expired_by_reconciler {name : ℕ} {input : Input} {mint : Mint} {data : Value} {id : Uuid}
    {t : Task} (h : Asks env w (.advance name input mint) (.applyExpired data) id)
    (ht : w.tasks.get? name = some t) (hreconciler : t.ofReconciler = true) :
    t = .overdue id ∨ ∃ d watchId watch polledAt,
      t = .openPolled d watchId (some watch) polledAt ∧ WatchStatus.ofStr watch.status = .closed := by
  cases h with
  | overdue _ _ _ _ hold => exact .inl (Option.some.inj (ht.symm.trans hold))
  | polled _ _ _ d watchId watch polledAt _ hold hop =>
    refine .inr ⟨d, watchId, watch, polledAt, Option.some.inj (ht.symm.trans hold), ?_⟩
    cases openOp_asks hop with
    | closed _ hstatus => exact hstatus
  | settling _ _ _ claim job d outcome retries _ hold hop => cases settlementOp_asks hop
  | indexer _ _ _ event d _ hold hop =>
    obtain rfl := Option.some.inj (ht.symm.trans hold)
    cases hreconciler
  | worker _ _ _ job stage _ _ attempt hold hstatement =>
    obtain rfl := Option.some.inj (ht.symm.trans hold)
    cases hreconciler

end Service

/-! ## Runs -/

namespace Deployment

variable {env : Env} {s s' : Deployment}

@[simp] theorem changed_service (s : Deployment) (id : Uuid) (watch : Option WatchDetail) :
    (s.changed id watch).service = s.service := by
  cases watch <;> rfl

theorem changed_indexer (s : Deployment) (id id' : Uuid) (watch : Option WatchDetail) :
    (s.changed id watch).indexer.get? id' = if id' = id then watch else s.indexer.get? id' := by
  cases watch with
  | some watch => exact KeyMap.get?_put s.indexer id id' watch
  | none =>
    by_cases hid : id' = id
    · rw [if_pos hid, hid]
      exact KeyMap.get?_erase_self s.indexer id
    · rw [if_neg hid]
      exact KeyMap.get?_erase_ne s.indexer hid

theorem not_completed_of_closed (s : Deployment) {id : Uuid} (h : s.reports id .closed = true) :
    s.reports id .completed ≠ true := by
  rw [reports] at h ⊢
  cases hwatch : s.indexer.get? id with
  | none =>
    rw [hwatch] at h
    cases h
  | some watch =>
    rw [hwatch, Option.any_some, decide_eq_true_eq] at h
    rw [Option.any_some, h]
    simp

/-- A closed watch stays closed. -/
theorem reports_changed {id id' : Uuid} {watch : Option WatchDetail}
    (hretires : s.retires (.watch id watch) = true) (h : s.reports id' .closed = true) :
    (s.changed id watch).reports id' .closed = true := by
  rw [reports, changed_indexer]
  by_cases hid : id' = id
  · rw [if_pos hid]
    rw [retires, ← hid, h] at hretires
    exact hretires
  · rw [if_neg hid]
    exact h

/-- A step of the two is one of the service, or leaves it alone. -/
theorem step_service {m : Move} (h : s.step env m = some s') : s'.service = s.service ∨
    ∃ a, GumServer.step env s.service a = some s'.service := by
  cases m with
  | service a =>
    rw [step] at h
    split at h
    · obtain ⟨w, hw, rfl⟩ := Option.map_eq_some_iff.mp h
      exact .inr ⟨a, hw⟩
    · cases h
  | watch id watch =>
    obtain rfl := Option.some.inj h
    exact .inl (s.changed_service id watch)

/-- The service is in a state it can get to. -/
theorem reachable {ok : Deployment → Move → Prop} {clock : DateTime}
    (h : Lts.Reaches (step env) ok (init clock) s) : Reachable env s.service :=
  ⟨clock, h.project Deployment.service fun _ _ hstep => step_service hstep⟩

/-- **An answer that a watch is closed stays true.** -/
theorem polled_closed {clock : DateTime}
    (h : Lts.Reaches (step env) (fun s m => s.retires m = true) (init clock) s) {name : ℕ} {d : Deposit} {watchId : Uuid} {watch : WatchDetail} {polledAt : String}
    (ht : s.service.tasks.get? name = some (.openPolled d watchId (some watch) polledAt))
    (hclosed : WatchStatus.ofStr watch.status = .closed) : s.reports watchId .closed = true := by
  refine h.invariant (P := fun s => ∀ {name d watchId watch polledAt},
    s.service.tasks.get? name = some (.openPolled d watchId (some watch) polledAt) →
    WatchStatus.ofStr watch.status = .closed → s.reports watchId .closed = true) ?_ ?_ ht hclosed
  · intro name d watchId watch polledAt ht
    cases ht
  · intro s m s' _ ih hretires hstep name d watchId watch polledAt ht hclosed
    cases m with
    | watch id new =>
      obtain rfl := Option.some.inj hstep
      rw [changed_service] at ht
      exact reports_changed hretires (ih ht hclosed)
    | service a =>
      rw [step] at hstep
      split at hstep
      · next htrue =>
        obtain ⟨w, hw, rfl⟩ := Option.map_eq_some_iff.mp hstep
        cases step_tasks hw ht with
        | kept ht => exact ih ht hclosed
        | advanced input mint write engine ha hold hnext =>
          obtain ⟨rfl, rfl⟩ := Task.next_polled hnext
          rw [ha, truthful, hold, decide_eq_true_eq] at htrue
          show (s.indexer.get? watchId).any _ = true
          rw [← htrue, Option.any_some, hclosed]
          rfl
      · cases hstep

end Deployment

/-- **A tick leaves a completed watch to the indexer for a day.** In every run in which polls are
answered with what the indexer has, and an expired or cancelled watch stays so: a step of the
reconciler that moves a deposit to expired while the indexer reports its watch as completed finds
the deposit more than a full day past its expiry. -/
theorem reconciler_expires_completed_after_grace (env : Env) (clock : DateTime) (s s' : Deployment)
    (h : Lts.Reaches (Deployment.step env) (fun s m => s.retires m = true) (Deployment.init clock) s)
    (name : ℕ) (input : Input) (mint : Mint) (t : Task) (id watchId : Uuid) (d d' : Deposit)
    (hstep : s.step env (.service (.advance name input mint)) = some s')
    (ht : s.service.tasks.get? name = some t) (hreconciler : t.ofReconciler = true)
    (hd : s.service.db.deposits.get? id = some d) (hd' : s'.service.db.deposits.get? id = some d')
    (hopen : d.status ≠ .expired) (hexpired : d'.status = .expired)
    (hwatch : t.watchOf d = some watchId) (hcompleted : s.reports watchId .completed = true) :
    d.expiresAt.toMicros < s.service.ago World.EXPIRY_GRACE_SECS := by
  have hreach := Deployment.reachable h
  rw [Deployment.step] at hstep
  split at hstep
  · obtain ⟨w, hw, rfl⟩ := Option.map_eq_some_iff.mp hstep
    obtain rfl := Table.key_of_get? hd
    obtain rfl := Option.some.inj (((JobsFit.reachable hreach).row_after hw hd).symm.trans hd')
    rcases (s.service.commits env (.advance name input mint)).row_cases s.service.clock d with
      hquiet | ⟨op, hhits, heq⟩
    · exact absurd (hquiet.status.symm.trans hexpired) hopen
    · rw [heq] at hexpired
      have hbound := (s.service.commits env (.advance name input mint)).quiet_bound s.service.clock d
      rcases Op.row_expired hexpired with hwas | ⟨data, rfl⟩
      · exact absurd (hbound.status.symm.trans hwas) hopen
      · rcases (World.asks hhits.carries).expired_by_reconciler ht hreconciler with
          rfl | ⟨asked, watchId', watch, polledAt, rfl, hclosed⟩
        · obtain ⟨overdue, hoverdue, hpast⟩ := hreach.overdue ht
          obtain rfl := Option.some.inj (hd.symm.trans hoverdue)
          exact hpast
        · -- the watch it asked about is closed, so it is not completed
          obtain rfl := Option.some.inj hwatch
          exact absurd hcompleted (s.not_completed_of_closed (Deployment.polled_closed h ht hclosed))
  · cases hstep

/-! ## After a long outage -/

namespace Fixture

/-- A day and a second after the expiry. -/
def dayAfter : DateTime := .ofSecs 1800086401 (by decide)

/-- A deposit is created, and its watch registered, as number 55. -/
def untilWatched : List Action := [
  .setUser "user" none,
  .create new "user" 7 (mint 0),
  .claim 0 (mint 0).job,
  .advance 0 (.load requestedAt) (mint 1),
  .advance 0 (.watch (.ok 55)) (mint 2),
  .advance 0 .go (mint 3),
  .advance 0 .go (mint 4)]

/-- It is paid, and nobody hears of it before a tick a day after its expiry. -/
def untilOverdue : List Move := untilWatched.map .service ++ [
  .watch 55 (some ⟨"active", some "0"⟩),
  .watch 55 (some ⟨"completed", some "2500000"⟩),
  .service (.tick dayAfter),
  .service (.overdue 1 7)]

/-- What the fixture's deposit is before and after the next step of the tick. -/
def expiring (s : Deployment) : Option (DepositStatus × Option Uuid × DepositStatus) :=
  if s.reports 55 .completed then
    match s.service.tasks.get? 1 with
    | some (.overdue 7) => (s.step env (.service (.advance 1 .go (mint 5)))).bind fun s' =>
      (s.service.db.deposits.get? 7).bind fun d => (s'.service.db.deposits.get? 7).map fun d' =>
        (d.status, d.watchId, d'.status)
    | _ => none
  else none

theorem exists_of_expiring {s : Deployment} {status status' : DepositStatus} {watch : Option Uuid}
    (h : expiring s = some (status, watch, status')) : ∃ s' d d',
      s.service.tasks.get? 1 = some (.overdue 7) ∧ s.reports 55 .completed = true ∧
      s.step env (.service (.advance 1 .go (mint 5))) = some s' ∧
      s.service.db.deposits.get? 7 = some d ∧ s'.service.db.deposits.get? 7 = some d' ∧
      d.status = status ∧ d.watchId = watch ∧ d'.status = status' := by
  rw [expiring] at h
  split at h
  · next hcompleted =>
    split at h
    · next ht =>
      obtain ⟨s', hstep, h⟩ := Option.bind_eq_some_iff.mp h
      obtain ⟨d, hd, h⟩ := Option.bind_eq_some_iff.mp h
      obtain ⟨d', hd', heq⟩ := Option.map_eq_some_iff.mp h
      obtain ⟨hstatus, hrest⟩ := Prod.mk.inj heq
      obtain ⟨hwatch, hstatus'⟩ := Prod.mk.inj hrest
      exact ⟨s', d, d', ht, hcompleted, hstep, hd, hd', hstatus, hwatch, hstatus'⟩
    · cases h
  · cases h

end Fixture

/-- On the fixture's deposit, a day and a second after its expiry. -/
theorem reconciler_expires_completed_fixture : ∃ s s' d d',
    Lts.Reaches (Deployment.step Fixture.env) (fun s m => s.retires m = true)
      (Deployment.init Fixture.requestedAt) s ∧
    s.step Fixture.env (.service (.advance 1 .go (Fixture.mint 5))) = some s' ∧
    s.service.tasks.get? 1 = some (.overdue 7) ∧ s.reports 55 .completed = true ∧
    s.service.db.deposits.get? 7 = some d ∧ s'.service.db.deposits.get? 7 = some d' ∧
    d.status = .pending ∧ d'.status = .expired ∧
    d.expiresAt.toMicros < s.service.ago World.EXPIRY_GRACE_SECS := by
  obtain ⟨s, hs, hfound⟩ : ∃ s, Lts.Reaches (Deployment.step Fixture.env)
      (fun s m => s.retires m = true) (Deployment.init Fixture.requestedAt) s ∧
      Fixture.expiring s = some (.pending, some 55, .expired) :=
    @Lts.exists_reaches_of_run _ _ _ _ _ _ _ Fixture.untilOverdue _ _ (by decide +kernel)
  obtain ⟨s', d, d', ht, hcompleted, hstep, hd, hd', hpending, hwatch, hexpired⟩ :=
    Fixture.exists_of_expiring hfound
  refine ⟨s, s', d, d', hs, hstep, ht, hcompleted, hd, hd', hpending, hexpired, ?_⟩
  refine reconciler_expires_completed_after_grace Fixture.env _ s s' hs 1 .go (Fixture.mint 5) _ 7 55
    d d' hstep ht rfl hd hd' ?_ hexpired hwatch hcompleted
  rw [hpending]
  simp

/-- Every query is answered, there being none, and the indexer reports the watch as completed. The
tick expires the deposit all the same. -/
theorem reconciler_expires_completed : ∃ s s' d d',
    Lts.Reaches (Deployment.step Fixture.env) (fun s m => (s.retires m && s.answers m) = true)
      (Deployment.init Fixture.requestedAt) s ∧
    s.step Fixture.env (.service (.advance 1 .go (Fixture.mint 5))) = some s' ∧
    s.service.tasks.get? 1 = some (.overdue 7) ∧
    s.service.db.deposits.get? 7 = some d ∧ s'.service.db.deposits.get? 7 = some d' ∧
    d.watchId = some 55 ∧ s.reports 55 .completed = true ∧
    d.status = .pending ∧ d'.status = .expired := by
  obtain ⟨s, hs, hfound⟩ : ∃ s, Lts.Reaches (Deployment.step Fixture.env)
      (fun s m => (s.retires m && s.answers m) = true) (Deployment.init Fixture.requestedAt) s ∧
      Fixture.expiring s = some (.pending, some 55, .expired) :=
    @Lts.exists_reaches_of_run _ _ _ _ _ _ _ Fixture.untilOverdue _ _ (by decide +kernel)
  obtain ⟨s', d, d', ht, hcompleted, hstep, hd, hd', hpending, hwatch, hexpired⟩ :=
    Fixture.exists_of_expiring hfound
  exact ⟨s, s', d, d', hs, hstep, ht, hd, hd', hwatch, hcompleted, hpending, hexpired⟩

end GumServer
