import GumServer.Histories
import GumServer.Reconciler
import GumServer.Settleable

/-!
# The life of a deposit

Six statuses, and where each of them leads (`DepositStatus.next`): that is all there is to see of a
deposit from outside. What moves it are webhooks, polls, workers and operators, any number of them
at once, each with a row it read some time ago.

From any state of the service, the statuses that a deposit goes through are exactly the walks of
that graph (`status_histories`): no order of steps leads off it, and no walk is barred, by no job
that was lost or put off.
-/

namespace GumServer

/-- Where a status leads. -/
def DepositStatus.next : DepositStatus → List DepositStatus
  | .pending => [.partialPaid, .paid, .failed, .expired]
  | .partialPaid => [.paid, .failed, .expired]
  | .paid => [.settled, .failed]
  | .failed => [.paid]
  | .settled | .expired => []

/-- Of a deposit that is there. -/
def LeadsTo (s s' : Option DepositStatus) : Prop :=
  ∃ status status', s = some status ∧ s' = some status' ∧ status' ∈ status.next

/-! ## One step -/

theorem DepositStatus.eq_of_isOpen {status : DepositStatus} (h : status.isOpen = true) :
    status = .pending ∨ status = .partialPaid := by
  cases status with
  | pending => exact .inl rfl
  | partialPaid => exact .inr rfl
  | _ => cases h

/-- Where a deposit that has received something leads, every open one does. -/
theorem DepositStatus.mem_next_of_isOpen {status : DepositStatus} (h : status.isOpen = true)
    (status' : DepositStatus) (hnext : status' ∈ DepositStatus.partialPaid.next) :
    status' ∈ status.next := by
  rcases eq_of_isOpen h with rfl | rfl
  · exact List.mem_cons_of_mem _ hnext
  · exact hnext

/-- A transition that hits its row leads on from its status, or leaves it. -/
theorem Op.row_next (op : Op) (now : DateTime) {d : Deposit}
    (hguard : op.transition.guard d = true) :
    (op.transition.row now d).status = d.status ∨
      (op.transition.row now d).status ∈ d.status.next := by
  have hleads (status : DepositStatus) (hopen : whereOpen d = true)
      (hnext : status ∈ DepositStatus.partialPaid.next) : status ∈ d.status.next :=
    DepositStatus.mem_next_of_isOpen hopen status hnext
  have hseen (hopen : whereOpen d = true) :
      .partialPaid = d.status ∨ .partialPaid ∈ d.status.next := by
    rcases DepositStatus.eq_of_isOpen hopen with heq | heq <;> rw [heq]
    · exact .inr List.mem_cons_self
    · exact .inl rfl
  have hends (status : DepositStatus) (hpaid : wherePaid d = true)
      (hnext : status ∈ DepositStatus.paid.next) : status ∈ d.status.next := by
    rwa [show d.status = .paid from beq_iff_eq.mp hpaid]
  cases op with
  | markWatchRegistered watch => exact .inl rfl
  | applyPaymentPending data => exact hseen hguard
  | applyPaymentConfirmed confirmed data => exact hseen hguard
  | applyPaymentOrphaned data => exact .inl rfl
  | applyThresholdReached confirmed data => exact .inr (hleads .paid hguard (by decide))
  | applyExpired data => exact .inr (hleads .expired hguard (by decide))
  | markEngineSubmitted job replayed => cases replayed <;> exact .inl rfl
  | applySettlementIncluded txHash blockNumber data => exact .inl rfl
  | applySettled txHash blockNumber data => exact .inr (hends .settled hguard (by decide))
  | applyFailed code message txHash revertData data =>
    exact .inr (hends .failed hguard (by decide))
  | failOpen code message => exact .inr (hleads .failed hguard (by decide))
  | retrySettlement =>
    have hfailed : d.status = .failed := beq_iff_eq.mp hguard
    rw [hfailed]
    exact .inr List.mem_cons_self
  | resubmit data => exact .inl rfl
  | reregisterWatch => exact .inl rfl

section Steps

variable {env : Env} {w w' : World} {a : Action} {id : Uuid} {d : Deposit}

/-- **A step takes a deposit along the graph**, or leaves it where it is. -/
theorem step_next (hfit : JobsFit w) (h : step env w a = some w')
    (hd : w.db.deposits.get? id = some d) :
    w'.statusOf id = w.statusOf id ∨ LeadsTo (w.statusOf id) (w'.statusOf id) := by
  have hstatus : w.statusOf id = some d.status := by rw [World.statusOf, hd, Option.map_some]
  have hstatus' : w'.statusOf id = some ((w.commits env a).row w.clock d).status := by
    rw [World.statusOf, hfit.row_after h hd, Option.map_some]
  rw [hstatus, hstatus']
  rcases (w.commits env a).row_cases w.clock d with hquiet | ⟨op, hhits, heq⟩
  · exact .inl (congrArg some hquiet.status)
  · rw [heq]
    have hbound := ((w.commits env a).quiet_bound w.clock d).status
    rcases op.row_next w.clock hhits.guard with hsame | hnext
    · exact .inl (congrArg some (hsame.trans hbound))
    · exact .inr ⟨_, _, rfl, rfl, hbound ▸ hnext⟩

/-- No row was touched later than now. -/
theorem Reachable.stamped (h : Reachable env w) (hd : w.db.deposits.get? id = some d) :
    d.updatedAt.toMicros ≤ w.clock.toMicros := by
  obtain ⟨clock, hreach⟩ := h
  refine hreach.invariant (P := fun w => ∀ {id d}, w.db.deposits.get? id = some d →
    d.updatedAt.toMicros ≤ w.clock.toMicros) ?_ ?_ hd
  · intro id d hd
    cases hd
  · intro w a w' hrun hstamped _ hstep id d' hd'
    have hfit : JobsFit w := JobsFit.reachable ⟨clock, hrun⟩
    have hclock := step_clock hstep
    cases hd : w.db.deposits.get? id with
    | none =>
      cases step_db hstep with
      | commit mint hfresh hdb hminted =>
        rw [hdb, Db.write_deposits, hd] at hd'
        cases hd'
      | create c mint new user hinsert hfresh hdb hminted hcommits =>
        rw [hdb, World.created_deposits, hd] at hd'
        split at hd'
        · obtain rfl := Option.some.inj hd'
          rw [show ({ c with eventSeq := c.eventSeq + 1 } : Deposit).updatedAt = w.clock from
            (stamps_of_insert hinsert).2]
          exact hclock
        · cases hd'
      | frame f hdeposits hevents hminted hkeeps houtbox hcommits hclaims =>
        rw [hdeposits, hd] at hd'
        cases hd'
    | some d =>
      obtain rfl := Option.some.inj (hd'.symm.trans (hfit.row_after hstep hd))
      rcases (w.commits env a).row_touched w.clock d with hnow | huntouched
      · rw [hnow]
        exact hclock
      · rw [huntouched.updatedAt]
        exact (hstamped hd).trans hclock

end Steps

/-! ## Ways on -/

section Ways

variable {env : Env} {w : World} {d : Deposit} {n : ℕ}

/-- A payment to a pending deposit can be noticed. -/
theorem see_open (h : Reachable env w) (hroom : w.Room (n + 1))
    (hd : w.db.deposits.get? d.id = some d) (hopen : d.status.isOpen = true) :
    ∃ w' d', Lts.Reaches (step env) (Resting d.id d.status) w w' ∧ w'.Room n ∧
      w'.engine = w.engine ∧ w'.clock = w.clock ∧ w'.db.deposits.get? d'.id = some d' ∧
      d'.id = d.id ∧ d'.status = .partialPaid := by
  refine indexer_reports h hroom hd hopen "payment.pending" (by decide) fun event htype => ?_
  have hkind : IndexerEventKind.ofStr event.eventType = .paymentPending := by
    rw [htype]
    rfl
  exact ⟨_, by rw [indexerOp, hkind], rfl, fun now d => rfl⟩

/-- An open deposit can expire. -/
theorem expire_open (h : Reachable env w) (hroom : w.Room (n + 1))
    (hd : w.db.deposits.get? d.id = some d) (hopen : d.status.isOpen = true) :
    ∃ w' d', Lts.Reaches (step env) (Resting d.id d.status) w w' ∧ w'.Room n ∧
      w'.engine = w.engine ∧ w'.clock = w.clock ∧ w'.db.deposits.get? d'.id = some d' ∧
      d'.id = d.id ∧ d'.status = .expired := by
  refine indexer_reports h hroom hd hopen "watch.expired" (by decide) fun event htype => ?_
  have hkind : IndexerEventKind.ofStr event.eventType = .watchExpired := by
    rw [htype]
    rfl
  exact ⟨_, by rw [indexerOp, hkind], rfl, fun now d => rfl⟩

/-- The engine's notice that a job has come to nothing. -/
def failedEvent (id : String) (job : Uuid) : EngineEvent where
  eventId := id
  event := "transaction.failed"
  jobId := job
  outcome := none
  txHash := none
  blockNumber := none
  receipt := none
  reincluded := false
  error := none

/-- A paid deposit can fail. -/
theorem fail_paid (h : Reachable env w) (hengine : env.engineConfigured = true)
    (hroom : w.Room (n + 4)) (hjobs : w.engine.values.length < 2 ^ 128)
    (hd : w.db.deposits.get? d.id = some d) (hpaid : d.status = .paid) :
    ∃ w' d', Lts.Reaches (step env) (Resting d.id .paid) w w' ∧ w'.Room n ∧
      w'.engine.values.length ≤ w.engine.values.length + 1 ∧ w'.clock = w.clock ∧
      w'.db.deposits.get? d.id = some d' ∧ d'.status = .failed := by
  have hfinal (message : String) (data : Value) :
      (SettlementOutcome.failed "engine_failed" message none none data).isRetryable = false := by
    rfl
  refine end_paid h hengine hroom hjobs hd hpaid fun {u e job} hu hroom he hpaid hjob => ?_
  refine engine_reports hroom he hpaid (fun id => failedEvent id job) (fun id => rfl)
    (fun id => hjob) fun id => ?_
  obtain ⟨message, data, hmeaning⟩ : ∃ message data, SettlementOutcome.fromEvent env.readers
      (failedEvent id job) e = .failed "engine_failed" message none none data := ⟨_, _, rfl⟩
  refine ⟨_, .applyFailed "engine_failed" message none none data, hmeaning, hfinal _ _, ?_,
    fun now d => rfl⟩
  rw [settlementOp, hfinal]
  rfl

/-- The second before a time. -/
def DateTime.justBefore (t : DateTime) (h : MIN_SECS < t.secs) : DateTime :=
  .ofSecs (t.secs - 1) ⟨Int.le_sub_one_of_lt h, (Int.sub_le_self _ (by decide)).trans t.inRange.2⟩

theorem DateTime.notAfter_justBefore {t : DateTime} (h : MIN_SECS < t.secs) :
    t.notAfter (t.justBefore h) = false := by
  have hless : ¬ t.secs < t.secs - 1 := by omega
  have hne : t.secs ≠ t.secs - 1 := by omega
  simp [notAfter, justBefore, ofSecs, hless, hne]

/-- An open deposit that has no watch can fail: the indexer refuses to watch its address. The worker
asks only before the deposit expires, by its own clock; if it is later, the clock has to be behind. -/
theorem fail_unwatched (h : Reachable env w) (hindexer : env.indexerConfigured = true)
    (hroom : w.Room (n + 3)) (hd : w.db.deposits.get? d.id = some d)
    (hopen : d.status.isOpen = true) (hwatch : d.watchId = none)
    (hexpires : MIN_SECS < d.expiresAt.secs) :
    ∃ w' d', Lts.Reaches (step env) (Resting d.id d.status) w w' ∧ w'.Room n ∧
      w'.engine = w.engine ∧ w'.clock = w.clock ∧ w'.db.deposits.get? d.id = some d' ∧
      d'.status = .failed := by
  have hstatus {u : World} (hu : u.db.deposits.get? d.id = some d) :
      u.statusOf d.id = some d.status := by
    rw [World.statusOf, hu, Option.map_some]
  obtain ⟨w₀, name, work, hclaimed, hroom₀, hworker, hdeposit, hkind, hengine₀, hclock₀,
    hdeposits⟩ := claim_served (NoneStranded.reachable h d .registerWatch hd ⟨hopen, hwatch⟩)
    (hstatus hd) hroom
  rw [← hdeposits] at hd
  have hload : Worker.load env w₀.db (d.expiresAt.justBefore hexpires) work = .registering d := by
    have hterminal : d.status.isTerminal = false := by
      rcases DepositStatus.eq_of_isOpen hopen with heq | heq <;> rw [heq] <;> rfl
    have hintime : d.expiresAt.notAfter (d.expiresAt.justBefore hexpires) = false :=
      DateTime.notAfter_justBefore hexpires
    rw [Worker.load, Payload.eq_registerWatch hkind]
    simp only [Worker.loadRegister, hdeposit, hd, hwatch, hterminal, hintime, hindexer]
    rfl
  obtain ⟨w₁, hloaded, hroom₁, hworker₁, hengine₁, hclock₁, hdeposits₁⟩ :=
    worker_goes_on env hroom₀ (.load (d.expiresAt.justBefore hexpires)) hworker
      (congrArg (fun stage => some (Write.nothing, w₀.engine, some stage)) hload) (hstatus hd)
  have hd₁ : w₁.db.deposits.get? d.id = some d := by
    rw [hdeposits₁, hd]
    rfl
  obtain ⟨w₂, hrefused, hroom₂, hworker₂, hengine₂, hclock₂, hdeposits₂⟩ :=
    worker_goes_on env hroom₁ (.watch (.rejected "indexer: 422")) hworker₁ rfl (hstatus hd₁)
  have hd₂ : w₂.db.deposits.get? d.id = some d := by
    rw [hdeposits₂, hd₁]
    rfl
  obtain ⟨w₃, hrecorded, hroom₃, -, hengine₃, hclock₃, hdeposits₃⟩ :=
    worker_goes_on env hroom₂ .go hworker₂ rfl (hstatus hd₂)
  refine ⟨w₃, (failOpen "watch_rejected" "indexer: 422").row w₂.clock d,
    ((hclaimed.trans hloaded).trans hrefused).trans hrecorded, hroom₃,
    hengine₃.trans (hengine₂.trans (hengine₁.trans hengine₀)),
    hclock₃.trans (hclock₂.trans (hclock₁.trans hclock₀)), ?_, rfl⟩
  rw [hdeposits₃, hd₂]
  exact congrArg some ((Write.row_of (.failOpen "watch_rejected" "indexer: 422") _
    hdeposit.symm).trans (if_pos hopen))

/-- The seconds after which an open deposit that nobody touches is stale, whatever the fractions. -/
def Env.sweepSecs (env : Env) : ℕ := env.openStaleSecs.toNat + 3

/-- An open deposit can lose its watch: after a while it is polled, and the indexer does not know the
watch. -/
theorem lose_watch (h : Reachable env w) (hindexer : env.indexerConfigured = true)
    (hroom : w.Room (n + 2)) (htime : w.clock.secs + env.sweepSecs ≤ MAX_SECS)
    (hd : w.db.deposits.get? d.id = some d) (hopen : d.status.isOpen = true) {watch : Uuid}
    (hwatch : d.watchId = some watch) :
    ∃ w' d', Lts.Reaches (step env) (Resting d.id d.status) w w' ∧ w'.Room n ∧
      w'.engine = w.engine ∧ w'.clock.secs = w.clock.secs + env.sweepSecs ∧
      w'.db.deposits.get? d'.id = some d' ∧ d'.id = d.id ∧ d'.status = d.status ∧
      d'.watchId = none ∧ d'.expiresAt = d.expiresAt := by
  have hstatus : w.statusOf d.id = some d.status := by rw [World.statusOf, hd, Option.map_some]
  let now : DateTime := .ofSecs (w.clock.secs + env.sweepSecs)
    ⟨by have := w.clock.inRange.1; omega, htime⟩
  have hnow : now.toMicros = (w.clock.secs + env.sweepSecs) * 1000000 := by
    simp [now, DateTime.toMicros, DateTime.ofSecs]
  have hclock : w.clock.toMicros < (w.clock.secs + 2) * 1000000 := by
    have hnanos := w.clock.nanos_lt
    rw [DateTime.toMicros]
    omega
  have htick : step env w (.tick now) = some { w with clock := now } := by
    refine require_eq_some.mpr ⟨decide_eq_true ?_, rfl⟩
    rw [hnow, Env.sweepSecs]
    omega
  obtain ⟨name, hfree⟩ := w.exists_free
  have hstale : World.isStaleOpen { w with clock := now } env d = true := by
    rw [World.isStaleOpen, hopen, Bool.true_and, World.ago]
    refine decide_eq_true ?_
    have hstamped := h.stamped hd
    rw [hnow, Env.sweepSecs]
    omega
  have hselected : step env { w with clock := now } (.staleOpen name d.id) =
      some (World.start { w with clock := now } name (.openStale d watch)) := by
    rw [step, hd, Option.bind_some, hwatch, Option.bind_some]
    exact require_eq_some.mpr ⟨by simp [World.free, hindexer, hstale, Option.isNone_iff_eq_none.mp
      hfree], rfl⟩
  obtain ⟨w₁, hpolled, hroom₁, htask₁, hengine₁, hclock₁, hdeposits₁⟩ := task_goes_on env
    (w := World.start { w with clock := now } name (.openStale d watch)) (n := n + 1) hroom
    (.polledWatch none "") (KeyMap.get?_put_self _ _ _) rfl hstatus
  have hd₁ : w₁.db.deposits.get? d.id = some d := by
    rw [hdeposits₁]
    change (w.db.deposits.get? d.id).map _ = _
    rw [hd]
    rfl
  obtain ⟨w₂, hreregistered, hroom₂, -, hengine₂, hclock₂, hdeposits₂⟩ := task_goes_on env hroom₁ .go
    (htask₁ _ rfl) rfl (show w₁.statusOf d.id = some d.status by
      rw [World.statusOf, hd₁, Option.map_some])
  refine ⟨w₂, reregisterWatch.row w₁.clock d, ((Lts.Reaches.refl.tail ⟨by rfl, hstatus⟩ htick).tail
    ⟨by rfl, hstatus⟩ hselected).trans (hpolled.trans hreregistered), hroom₂, hengine₂.trans hengine₁, ?_, ?_,
    rfl, rfl, rfl, rfl⟩
  · rw [hclock₂, hclock₁]
    rfl
  · rw [show (reregisterWatch.row w₁.clock d).id = d.id from rfl, hdeposits₂, hd₁]
    exact congrArg some ((Write.row_of .reregisterWatch _ rfl).trans (if_pos hopen))

/-- An open deposit can fail. -/
theorem fail_open (h : Reachable env w) (hindexer : env.indexerConfigured = true)
    (hroom : w.Room (n + 5)) (htime : w.clock.secs + env.sweepSecs ≤ MAX_SECS)
    (hd : w.db.deposits.get? d.id = some d) (hopen : d.status.isOpen = true)
    (hexpires : MIN_SECS < d.expiresAt.secs) :
    ∃ w' d', Lts.Reaches (step env) (Resting d.id d.status) w w' ∧ w'.Room n ∧
      w'.engine = w.engine ∧ w'.clock.secs ≤ w.clock.secs + env.sweepSecs ∧
      w'.db.deposits.get? d.id = some d' ∧ d'.status = .failed := by
  cases hwatch : d.watchId with
  | none =>
    obtain ⟨w', d', hrun, hroom', hengine, hclock, hd', hfailed⟩ := fail_unwatched h hindexer
      (show w.Room (n + 3) by rw [World.Room] at hroom ⊢; omega) hd hopen hwatch hexpires
    exact ⟨w', d', hrun, hroom', hengine, by rw [hclock]; omega, hd', hfailed⟩
  | some watch =>
    obtain ⟨u, e, hrun, hroom', hengine, hclock, he, hid, hstatus, hwatch', hexpires'⟩ :=
      lose_watch (n := n + 3) h hindexer hroom htime hd hopen hwatch
    obtain ⟨w', d', hrun', hroom'', hengine', hclock', hd', hfailed⟩ := fail_unwatched
      (h.trans (hrun.mono fun _ => trivial)) hindexer hroom' he (hstatus.symm ▸ hopen) hwatch'
      (hexpires'.symm ▸ hexpires)
    rw [hid, hstatus] at hrun'
    exact ⟨w', d', hrun.trans hrun', hroom'', hengine'.trans hengine,
      by rw [hclock', hclock], hid ▸ hd', hfailed⟩

end Ways

/-- What a number of moves may use up: ids, jobs of the engine, and time. -/
structure World.Spare (env : Env) (n : ℕ) (w : World) : Prop where
  ids : w.Room (5 * n)
  jobs : w.engine.values.length + n ≤ 2 ^ 128
  time : w.clock.secs + n * env.sweepSecs ≤ MAX_SECS

/-- What the service needs for its work. -/
structure Env.Works (env : Env) : Prop where
  indexer : env.indexerConfigured = true
  engine : env.engineConfigured = true
  reads : env.readers.ReadsNode

/-- A deposit that is there, in a state the service can get to; its expiry lies after some time. -/
structure Followed (env : Env) (id : Uuid) (w : World) : Prop where
  reachable : Reachable env w
  row : ∃ d, w.db.deposits.get? id = some d ∧ MIN_SECS < d.expiresAt.secs

/-- There is a way to a status, on which a deposit keeps its own until the last step. -/
def Turns (env : Env) (n : ℕ) (w : World) (d : Deposit) (status : DepositStatus) : Prop :=
  ∃ w', Lts.Reaches (step env) (fun t _ => t.statusOf d.id = some d.status) w w' ∧
    w'.Spare env n ∧ w'.statusOf d.id = some status

section Moves

variable {env : Env} {w w' : World} {d d' : Deposit} {n : ℕ} {status : DepositStatus}

namespace World.Spare

theorem room (h : w.Spare env (n + 1)) (k : ℕ) (hk : k ≤ 5) : w.Room (5 * n + k) := by
  have hids := h.ids
  rw [World.Room] at hids ⊢
  omega

theorem fewer (h : w.Spare env (n + 1)) : w.engine.values.length < 2 ^ 128 := by
  have := h.jobs
  omega

theorem sweeps (h : w.Spare env (n + 1)) :
    w.clock.secs + ((n : ℤ) * env.sweepSecs + env.sweepSecs) ≤ MAX_SECS := by
  have := h.time
  rwa [Nat.cast_add, Nat.cast_one, Int.add_mul, Int.one_mul] at this

theorem sweep (h : w.Spare env (n + 1)) : w.clock.secs + env.sweepSecs ≤ MAX_SECS := by
  have hsweeps : (0 : ℤ) ≤ n * env.sweepSecs := Int.mul_nonneg (Int.natCast_nonneg _)
    (Int.natCast_nonneg _)
  have := h.sweeps
  omega

theorem of_move (h : w.Spare env (n + 1)) (hroom : w'.Room (5 * n))
    (hjobs : w'.engine.values.length ≤ w.engine.values.length + 1)
    (htime : w'.clock.secs ≤ w.clock.secs + env.sweepSecs) : w'.Spare env n where
  ids := hroom
  jobs := by
    have := h.jobs
    omega
  time := by
    have := h.sweeps
    omega

end World.Spare

theorem Turns.of_resting (hspare : w.Spare env (n + 1))
    (hrun : Lts.Reaches (step env) (Resting d.id d.status) w w') (hroom : w'.Room (5 * n))
    (hjobs : w'.engine.values.length ≤ w.engine.values.length + 1)
    (htime : w'.clock.secs ≤ w.clock.secs + env.sweepSecs)
    (hd' : w'.db.deposits.get? d.id = some d') (hstatus : d'.status = status) :
    Turns env n w d status := by
  refine ⟨w', hrun.mono fun hrests => hrests.status, hspare.of_move hroom hjobs htime, ?_⟩
  rw [World.statusOf, hd', Option.map_some, hstatus]

/-- Where an event of the indexer leads. -/
theorem Turns.of_indexer (hspare : w.Spare env (n + 1)) (h : ∃ w' d',
    Lts.Reaches (step env) (Resting d.id d.status) w w' ∧ w'.Room (5 * n) ∧
      w'.engine = w.engine ∧ w'.clock = w.clock ∧ w'.db.deposits.get? d'.id = some d' ∧
      d'.id = d.id ∧ d'.status = status) : Turns env n w d status := by
  obtain ⟨w', d', hrun, hroom, hengine, hclock, hd', hid, hstatus⟩ := h
  refine .of_resting hspare hrun hroom ?_ ?_ (hid ▸ hd') hstatus
  · rw [hengine]
    exact Nat.le_succ _
  · rw [hclock]
    omega

theorem open_turns (hworks : env.Works) (h : Reachable env w)
    (hd : w.db.deposits.get? d.id = some d) (hexpires : MIN_SECS < d.expiresAt.secs)
    (hspare : w.Spare env (n + 1)) (hopen : d.status.isOpen = true)
    (hnext : status ∈ DepositStatus.partialPaid.next) : Turns env n w d status := by
  cases status with
  | paid => exact .of_indexer hspare (pay_open h (hspare.room 1 (by decide)) hd hopen)
  | expired => exact .of_indexer hspare (expire_open h (hspare.room 1 (by decide)) hd hopen)
  | failed =>
    obtain ⟨w', d', hrun, hroom, hengine, hclock, hd', hfailed⟩ := fail_open h hworks.indexer
      (hspare.room 5 (by decide)) hspare.sweep hd hopen hexpires
    refine .of_resting hspare hrun hroom ?_ hclock hd' hfailed
    rw [hengine]
    exact Nat.le_succ _
  | pending => exact absurd hnext (by decide)
  | partialPaid => exact absurd hnext (by decide)
  | settled => exact absurd hnext (by decide)

theorem paid_turns (hworks : env.Works) (h : Reachable env w)
    (hd : w.db.deposits.get? d.id = some d) (hspare : w.Spare env (n + 1))
    (hpaid : d.status = .paid) (hnext : status ∈ DepositStatus.paid.next) :
    Turns env n w d status := by
  obtain ⟨w', d', hrun, hroom, hlength, hclock, hd', hends⟩ : ∃ w' d',
      Lts.Reaches (step env) (Resting d.id .paid) w w' ∧ w'.Room (5 * n) ∧
        w'.engine.values.length ≤ w.engine.values.length + 1 ∧ w'.clock = w.clock ∧
        w'.db.deposits.get? d.id = some d' ∧ d'.status = status := by
    have hroom := hspare.room 4 (by decide)
    cases status with
    | settled => exact settle_paid h hworks.engine hworks.reads hroom hspare.fewer hd hpaid
    | failed => exact fail_paid h hworks.engine hroom hspare.fewer hd hpaid
    | pending => exact absurd hnext (by decide)
    | partialPaid => exact absurd hnext (by decide)
    | paid => exact absurd hnext (by decide)
    | expired => exact absurd hnext (by decide)
  rw [← hpaid] at hrun
  refine .of_resting hspare hrun hroom hlength ?_ hd' hends
  rw [hclock]
  omega

/-- An operator retries what has failed. -/
theorem failed_turns (hd : w.db.deposits.get? d.id = some d) (hspare : w.Spare env (n + 1))
    (hfailed : d.status = .failed) : Turns env n w d .paid := by
  obtain ⟨w', d', mint, hretried, hroom, hengine, hclock, hd', hid, hpaid⟩ :=
    retry_failed (hspare.room 1 (by decide)) hd hfailed
  refine ⟨w', .tail .refl ?_ hretried, hspare.of_move hroom ?_ ?_, ?_⟩
  · rw [World.statusOf, hd, Option.map_some]
  · rw [hengine]
    exact Nat.le_succ _
  · rw [hclock]
    omega
  · rw [World.statusOf, ← hid, hd', Option.map_some, hpaid]

/-- **From each status there is a way** to each of those it leads to. -/
theorem turns_of_next (hworks : env.Works) (h : Reachable env w)
    (hd : w.db.deposits.get? d.id = some d) (hexpires : MIN_SECS < d.expiresAt.secs)
    (hspare : w.Spare env (n + 1)) (hnext : status ∈ d.status.next) : Turns env n w d status := by
  cases hstatus : d.status with
  | pending =>
    have hopen : d.status.isOpen = true := hstatus ▸ rfl
    rw [hstatus] at hnext
    rcases List.mem_cons.mp hnext with rfl | hnext
    · exact .of_indexer hspare (see_open h (hspare.room 1 (by decide)) hd hopen)
    · exact open_turns hworks h hd hexpires hspare hopen hnext
  | partialPaid =>
    rw [hstatus] at hnext
    exact open_turns hworks h hd hexpires hspare (hstatus ▸ rfl) hnext
  | paid =>
    rw [hstatus] at hnext
    exact paid_turns hworks h hd hspare hstatus hnext
  | failed =>
    rw [hstatus] at hnext
    obtain rfl := List.mem_singleton.mp hnext
    exact failed_turns hd hspare hstatus
  | settled =>
    rw [hstatus] at hnext
    cases hnext
  | expired =>
    rw [hstatus] at hnext
    cases hnext

end Moves

/-! ## Histories -/

theorem DepositStatus.ne_of_mem_next {status status' : DepositStatus}
    (h : status' ∈ status.next) : status ≠ status' := by
  rintro rfl
  cases status <;> revert h <;> decide

/-- Walks of the graph, of a deposit that is there. -/
theorem isChain_leadsTo {status : DepositStatus} {rest : List DepositStatus} :
    ((status :: rest).map some).IsChain LeadsTo ↔
      (status :: rest).IsChain fun s s' => s' ∈ s.next := by
  rw [List.isChain_map]
  constructor
  · intro h
    refine h.imp ?_
    rintro s s' ⟨_, _, hs, hs', hnext⟩
    rwa [Option.some.inj hs, Option.some.inj hs']
  · intro h
    refine h.imp ?_
    intro s s' hnext
    exact ⟨s, s', rfl, rfl, hnext⟩

/-- Whatever follows the status of a deposit in a walk is one. -/
theorem exists_map_some_of_isChain {status : DepositStatus} {after : List (Option DepositStatus)}
    (h : (some status :: after).IsChain LeadsTo) :
    ∃ rest : List DepositStatus, after = rest.map some := by
  induction after generalizing status with
  | nil => exact ⟨[], rfl⟩
  | cons s after ih =>
    obtain ⟨⟨_, status', -, rfl, -⟩, hafter⟩ := List.isChain_cons_cons.mp h
    obtain ⟨rest, rfl⟩ := ih hafter
    exact ⟨status' :: rest, rfl⟩

/-- **The status of a deposit follows the graph.** -/
theorem statusOf_follows {env : Env} (hworks : env.Works) (id : Uuid) :
    Lts.Follows (step env) (World.statusOf id) LeadsTo (Followed env id)
      (fun n w => w.Spare env n) where
  invariant := by
    rintro w a w' ⟨hreachable, d, hd, hexpires⟩ hstep
    refine ⟨hreachable.tail hstep, _, (JobsFit.reachable hreachable).row_after hstep hd, ?_⟩
    have hterms := (w.commits env a).row_fixedTerms w.clock d
    rwa [show ((w.commits env a).row w.clock d).expiresAt = d.expiresAt from
      congrArg FixedTerms.expiresAt hterms]
  along := by
    rintro w a w' ⟨hreachable, d, hd, -⟩ hstep
    exact step_next (JobsFit.reachable hreachable) hstep hd
  way := by
    rintro n w b ⟨hreachable, d, hd, hexpires⟩ hspare ⟨status, status', hstatus, rfl, hnext⟩
    obtain rfl := Table.key_of_get? hd
    have hd' : w.statusOf d.id = some d.status := by rw [World.statusOf, hd, Option.map_some]
    obtain rfl := Option.some.inj (hd'.symm.trans hstatus)
    obtain ⟨w', hrun, hspare', hmoved⟩ := turns_of_next hworks hreachable hd hexpires hspare hnext
    cases hrun with
    | refl =>
      exact absurd (Option.some.inj (hstatus.symm.trans hmoved)) (DepositStatus.ne_of_mem_next hnext)
    | tail hbefore hkept hlast =>
      rw [hstatus]
      exact ⟨_, _, w', hbefore, hkept, hlast, hmoved, hspare'⟩
  differs := by
    rintro a b ⟨status, status', rfl, rfl, hnext⟩ heq
    exact DepositStatus.ne_of_mem_next hnext (Option.some.inj heq)

/-- **The statuses a deposit can go through** from any state of the service are the walks of the
graph. Whatever webhooks, polls, workers and operators do, in any order, the status leads along it.
And each walk there is room for is the history of some run, whatever has become of the jobs of the
deposit: with ids, jobs and time to spare for it, and an indexer and an engine to ask. For an open
deposit that is past its expiry to fail, it takes a replica whose clock is behind. -/
theorem status_histories (env : Env) (hworks : env.Works) (w : World) (h : Reachable env w)
    (id : Uuid) (d : Deposit) (hd : w.db.deposits.get? id = some d)
    (hexpires : MIN_SECS < d.expiresAt.secs) :
    (∀ steps w', Lts.Trace (step env) w steps w' → ∃ rest,
      Lts.history (World.statusOf id) steps w' = (d.status :: rest).map some ∧
      (d.status :: rest).IsChain fun s s' => s' ∈ s.next) ∧
    ∀ rest, w.Spare env rest.length → ((d.status :: rest).IsChain fun s s' => s' ∈ s.next) →
      ∃ steps w', Lts.Trace (step env) w steps w' ∧
        Lts.history (World.statusOf id) steps w' = (d.status :: rest).map some := by
  have hfollows := statusOf_follows hworks id
  have hfollowed : Followed env id w := ⟨h, d, hd, hexpires⟩
  have hstatus : w.statusOf id = some d.status := by rw [World.statusOf, hd, Option.map_some]
  constructor
  · intro steps w' htrace
    obtain ⟨hchain, after, hhistory⟩ := hfollows.history_isChain hfollowed htrace
    rw [hhistory, hstatus] at hchain
    obtain ⟨rest, rfl⟩ := exists_map_some_of_isChain hchain
    exact ⟨rest, by rw [hhistory, hstatus]; rfl, isChain_leadsTo.mp hchain⟩
  · intro rest hspare hchain
    have hwalk : (w.statusOf id :: rest.map some).IsChain LeadsTo := by
      rw [hstatus]
      exact isChain_leadsTo.mpr hchain
    rw [← List.length_map (f := some)] at hspare
    obtain ⟨steps, w', htrace, hhistory⟩ := hfollows.exists_history hfollowed hspare hwalk
    exact ⟨steps, w', htrace, by rw [hhistory, hstatus]; rfl⟩

namespace Fixture

theorem works : env.Works := ⟨rfl, rfl, readsNode⟩

/-- A deposit is created, and nothing else has happened. -/
def untilPending : List Action := [
  .setUser "user" none,
  .create new "user" 7 (mint 0)]

end Fixture

/-- The fixture's deposit can be seen, fail, be retried twice and settle, and does nothing that is
not on the graph. -/
theorem status_histories_fixture : ∃ w d, Reachable Fixture.env w ∧
    w.db.deposits.get? 7 = some d ∧ d.status = .pending ∧
    (∃ steps w', Lts.Trace (step Fixture.env) w steps w' ∧
      Lts.history (World.statusOf 7) steps w' =
        [.pending, .partialPaid, .failed, .paid, .failed, .paid, .settled].map some) ∧
    ∀ steps w', Lts.Trace (step Fixture.env) w steps w' → ∃ rest,
      Lts.history (World.statusOf 7) steps w' = (d.status :: rest).map some ∧
      (d.status :: rest).IsChain fun s s' => s' ∈ s.next := by
  obtain ⟨w, hw, hfound⟩ : ∃ w, Lts.Reaches (step Fixture.env) Lts.Any
      (World.init Fixture.requestedAt) w ∧
      ((w.db.deposits.get? 7).map fun d => (d.status, d.expiresAt.secs, w.minted.length,
        w.engine.values.length, w.clock.secs)) = some (.pending, 1800000000, 4, 0, 1799996400) :=
    @Lts.exists_reaches_of_run _ _ _ _ _ _ _ Fixture.untilPending _ _ (by decide +kernel)
  obtain ⟨d, hd, heq⟩ := Option.map_eq_some_iff.mp hfound
  simp only [Prod.mk.injEq] at heq
  obtain ⟨hstatus, hexpires, hminted, hjobs, hclock⟩ := heq
  have hreach : Reachable Fixture.env w := ⟨_, hw⟩
  have hspare : w.Spare Fixture.env 6 := by
    refine ⟨?_, ?_, ?_⟩
    · rw [World.Room, hminted]
      decide
    · rw [hjobs]
      decide
    · rw [hclock]
      decide
  obtain ⟨hwalks, hhistories⟩ := status_histories Fixture.env Fixture.works w hreach 7 d hd
    (by rw [hexpires]; decide)
  refine ⟨w, d, hreach, hd, hstatus, ?_, hwalks⟩
  rw [hstatus] at hhistories
  exact hhistories _ hspare (by decide)

end GumServer
