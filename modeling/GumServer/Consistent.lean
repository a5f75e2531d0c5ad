import GumServer.Jobs

/-!
# Rows are consistent

A dozen columns of a deposit are null or not with its status: when it was settled, why it failed,
which job it is bound to, since when it is watched. No statement checks them together. What keeps
them in line is that each transition sets the columns of the status it leads to, and clears those
of the status it leads from, which its guard has told it.
-/

namespace GumServer

/-- The columns of a row agree with its status and with each other. -/
structure Deposit.Consistent (d : Deposit) : Prop where
  settled : d.status = .settled ↔ d.settledAt.isSome
  settled_tx : d.status = .settled → d.txHash.isSome
  failed : d.status = .failed ↔
    d.failedAt.isSome ∧ d.failureCode.isSome ∧ d.failureMessage.isSome
  not_failed : d.status ≠ .failed → d.failedAt = none ∧ d.failureCode = none ∧
    d.failureMessage = none ∧ d.failureRevertData = none
  expired : d.status = .expired ↔ d.expiredAt.isSome
  job : d.engineJobId.isSome ↔ d.engineSubmittedAt.isSome
  job_status : d.engineJobId.isSome → d.status = .paid ∨ d.status = .settled ∨ d.status = .failed
  watch : d.watchId.isSome ↔ d.watchRegisteredAt.isSome
  pending : d.status = .pending → d.confirmedAmount = textOfNumeric 0 ∧ d.detectedAt = none
  partialPaid : d.status = .partialPaid → d.detectedAt.isSome

namespace Deposit.Consistent

variable {d : Deposit}

/-- A deposit that has not come to an end has nothing of what comes with one. -/
structure Unfinished (d : Deposit) : Prop where
  settledAt : d.settledAt = none
  failedAt : d.failedAt = none
  failureCode : d.failureCode = none
  failureMessage : d.failureMessage = none
  failureRevertData : d.failureRevertData = none
  expiredAt : d.expiredAt = none

theorem unfinished (h : d.Consistent) (hsettled : d.status ≠ .settled)
    (hfailed : d.status ≠ .failed) (hexpired : d.status ≠ .expired) : Unfinished d := by
  obtain ⟨hfailedAt, hcode, hmessage, hrevert⟩ := h.not_failed hfailed
  have hsettledAt : d.settledAt = none := by
    rw [← Option.not_isSome_iff_eq_none, ← h.settled]
    exact hsettled
  have hexpiredAt : d.expiredAt = none := by
    rw [← Option.not_isSome_iff_eq_none, ← h.expired]
    exact hexpired
  exact ⟨hsettledAt, hfailedAt, hcode, hmessage, hrevert, hexpiredAt⟩

theorem of_paid (h : d.Consistent) (hpaid : wherePaid d = true) : Unfinished d := by
  have hs : d.status = .paid := eq_of_beq hpaid
  exact h.unfinished (by simp [hs]) (by simp [hs]) (by simp [hs])

/-- An open deposit has no job either. -/
theorem of_open (h : d.Consistent) (hopen : whereOpen d = true) :
    Unfinished d ∧ d.engineJobId = none ∧ d.engineSubmittedAt = none := by
  have hstatus : d.status = .pending ∨ d.status = .partialPaid := by
    cases hs : d.status <;> simp [whereOpen, hs, DepositStatus.isOpen] at hopen ⊢
  have hjob : d.engineJobId = none := by
    rw [← Option.not_isSome_iff_eq_none]
    intro hjob
    have := h.job_status hjob
    rcases hstatus with hs | hs <;> simp [hs] at this
  have hsubmitted : d.engineSubmittedAt = none := by
    rw [← Option.not_isSome_iff_eq_none, ← h.job, hjob]
    simp
  refine ⟨h.unfinished ?_ ?_ ?_, hjob, hsubmitted⟩ <;>
    rcases hstatus with hs | hs <;> simp [hs]

/-- The sequence of a timeline is nobody's business here. -/
theorem with_eventSeq (h : d.Consistent) (n : ℕ) : { d with eventSeq := n }.Consistent :=
  ⟨h.settled, h.settled_tx, h.failed, h.not_failed, h.expired, h.job, h.job_status, h.watch,
    h.pending, h.partialPaid⟩

theorem with_updatedAt (h : d.Consistent) (now : DateTime) : { d with updatedAt := now }.Consistent :=
  ⟨h.settled, h.settled_tx, h.failed, h.not_failed, h.expired, h.job, h.job_status, h.watch,
    h.pending, h.partialPaid⟩

/-- **A transition that passes its guard leaves the columns it sets consistent.** -/
theorem set (h : d.Consistent) (op : Op) (now : DateTime) (hguard : op.transition.guard d = true) :
    (op.transition.set now d).Consistent := by
  cases op with
  | applyPaymentOrphaned data => exact h
  | markWatchRegistered watch =>
    exact { h with watch := by simp [Op.transition, markWatchRegistered, stamped] }
  | reregisterWatch =>
    exact { h with watch := by simp [Op.transition, GumServer.reregisterWatch, stamped] }
  | applySettlementIncluded txHash blockNumber data => exact { h with settled_tx := fun _ => rfl }
  | resubmit data =>
    exact { h with
      job := by simp [Op.transition, GumServer.resubmit, stamped]
      job_status := by simp [Op.transition, GumServer.resubmit, stamped] }
  | applyPaymentPending data =>
    obtain ⟨hu, hjob, hsubmitted⟩ := h.of_open hguard
    constructor <;> simp [Op.transition, applyPaymentPending, stamped, detected, hu.settledAt,
      hu.failedAt, hu.failureCode, hu.failureMessage, hu.failureRevertData, hu.expiredAt, hjob,
      hsubmitted, h.watch]
  | applyPaymentConfirmed confirmed data =>
    obtain ⟨hu, hjob, hsubmitted⟩ := h.of_open hguard
    constructor <;> simp [Op.transition, applyPaymentConfirmed, stamped, detected, hu.settledAt,
      hu.failedAt, hu.failureCode, hu.failureMessage, hu.failureRevertData, hu.expiredAt, hjob,
      hsubmitted, h.watch]
  | applyThresholdReached confirmed data =>
    obtain ⟨hu, hjob, hsubmitted⟩ := h.of_open hguard
    constructor <;> simp [Op.transition, applyThresholdReached, stamped, detected, hu.settledAt,
      hu.failedAt, hu.failureCode, hu.failureMessage, hu.failureRevertData, hu.expiredAt, hjob,
      hsubmitted, h.watch]
  | applyExpired data =>
    obtain ⟨hu, hjob, hsubmitted⟩ := h.of_open hguard
    constructor <;> simp [Op.transition, applyExpired, stamped, hu.settledAt, hu.failedAt,
      hu.failureCode, hu.failureMessage, hu.failureRevertData, hjob, hsubmitted, h.watch]
  | failOpen code message =>
    obtain ⟨hu, hjob, hsubmitted⟩ := h.of_open hguard
    constructor <;> simp [Op.transition, GumServer.failOpen, stamped, hu.settledAt, hu.expiredAt,
      hjob, hsubmitted, h.watch]
  | markEngineSubmitted job replayed =>
    have hpaid := (Bool.and_eq_true_iff.mp hguard).1
    have hs : d.status = .paid := eq_of_beq hpaid
    exact { h with
      job := by simp [Op.transition, GumServer.markEngineSubmitted, stamped]
      job_status := fun _ => .inl hs }
  | applySettled txHash blockNumber data =>
    have hu := h.of_paid hguard
    constructor <;> simp [Op.transition, GumServer.applySettled, stamped, hu.failedAt,
      hu.failureCode, hu.failureMessage, hu.failureRevertData, hu.expiredAt, h.watch, h.job]
  | applyFailed code message txHash revertData data =>
    have hu := h.of_paid hguard
    constructor <;> simp [Op.transition, GumServer.applyFailed, stamped, hu.settledAt,
      hu.expiredAt, h.watch, h.job]
  | retrySettlement =>
    have hs : d.status = .failed := eq_of_beq hguard
    have hsettled : d.settledAt = none := by
      rw [← Option.not_isSome_iff_eq_none, ← h.settled, hs]
      simp
    have hexpired : d.expiredAt = none := by
      rw [← Option.not_isSome_iff_eq_none, ← h.expired, hs]
      simp
    constructor <;> simp [Op.transition, GumServer.retrySettlement, stamped, hsettled, hexpired,
      h.watch]

/-- The row a transition leaves is consistent. -/
theorem row (h : d.Consistent) (op : Op) (now : DateTime) (hguard : op.transition.guard d = true) :
    (op.transition.row now d).Consistent := by
  rw [Transition.row]
  split
  · exact h.set op now hguard
  · exact (h.set op now hguard).with_eventSeq _

/-- A watch bound on sight comes with its time. -/
theorem bindRow (h : d.Consistent) (tx : Tx) (now : DateTime) : (tx.bindRow now d).Consistent := by
  rw [Tx.bindRow.eq_def]
  split
  · split
    · split
      · exact { h with watch := by simp }
      · exact h
    · exact h
  · exact h

theorem bound (h : d.Consistent) (write : Write) (now : DateTime) :
    (write.bound now d).Consistent := by
  cases write with
  | tx t => exact h.bindRow t now
  | _ => exact h

/-- **A write leaves every row consistent.** -/
theorem write (h : d.Consistent) (write : Write) (now : DateTime) :
    (write.row now d).Consistent := by
  cases write with
  | tx t =>
    have hbound := h.bindRow t now
    rw [Write.row, Tx.opRow.eq_def]
    split
    · next op id hop =>
      split_ifs with hid hguard
      · exact hbound.row op now hguard
      · exact hbound
      · exact hbound
    · exact hbound
  | touch id =>
    rw [Write.row]
    split_ifs
    · exact h.with_updatedAt now
    · exact h
  | nothing => exact h
  | reschedule row delay error => exact h
  | markDead row error => exact h
  | delete row => exact h

end Deposit.Consistent

/-- A new deposit is consistent. -/
theorem insertDeposit_consistent {new : NewDeposit} {id : Uuid} {userId : String} {now : DateTime}
    {d : Deposit} (h : insertDeposit new id userId now = some d) : d.Consistent := by
  obtain ⟨columns, hcolumns, hread⟩ := Option.bind_eq_some_iff.mp h
  obtain ⟨calls, -, hread⟩ := Option.bind_eq_some_iff.mp hread
  obtain ⟨expiresAt, -, hread⟩ := Option.bind_eq_some_iff.mp hread
  obtain rfl := Option.some.inj hread
  constructor <;> simp

theorem Reachable.consistent {env : Env} {w : World} (h : Reachable env w) {id : Uuid} {d : Deposit}
    (hd : w.db.deposits.get? id = some d) : d.Consistent := by
  refine h.row_invariant ?_ ?_ hd
  · intro new id userId now d hinsert
    exact (insertDeposit_consistent hinsert).with_eventSeq _
  · intro d write now hconsistent
    exact hconsistent.write write now

/-- **Every row is consistent.** In every state of every run, each deposit's columns agree with
its status and with each other. -/
theorem rows_consistent (env : Env) (w : World) (h : Reachable env w) (id : Uuid) (d : Deposit)
    (hd : w.db.deposits.get? id = some d) : d.Consistent :=
  h.consistent hd

/-- On the fixture's deposit, paid: neither an end nor a job, and its watch bound on sight. -/
theorem rows_consistent_fixture : ∃ w d, Reachable Fixture.env w ∧
    w.db.deposits.get? 7 = some d ∧ d.status = .paid ∧ d.watchId = some 55 ∧ d.Consistent := by
  obtain ⟨w, hreach, hvalues⟩ : ∃ w, Lts.Reaches (step Fixture.env) Lts.Any
      (World.init Fixture.requestedAt) w ∧
      ((w.db.deposits.get? 7).map fun d => (d.status, d.watchId)) = some (.paid, some 55) :=
    @Lts.exists_reaches_of_run _ _ _ _ _ _ _ Fixture.untilPaid _ _ (by decide +kernel)
  obtain ⟨d, hd, hvalues⟩ := Option.map_eq_some_iff.mp hvalues
  obtain ⟨hpaid, hwatch⟩ := Prod.mk.inj hvalues
  have hreachable : Reachable Fixture.env w := ⟨_, hreach⟩
  exact ⟨w, d, hreachable, hd, hpaid, hwatch, rows_consistent Fixture.env w hreachable 7 d hd⟩

end GumServer
