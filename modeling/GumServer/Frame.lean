import GumServer.Jobs

/-!
# What never changes

A deposit's terms are fixed when it is created, and its payment address commits to them. And what
has become of a deposit is fixed once it is settled or expired: every update that would touch it
asks for another status first. A few updates ask for none (`mark_watch_registered`, a watch bound
on sight, `apply_payment_orphaned`, `touch`); they write the watch, the timeline and the stamp,
and nothing that is listed here.
-/

namespace GumServer

/-! ## Columns -/

/-- The terms of a deposit. -/
structure FixedTerms where
  chainId : ℤ
  tokenSymbol : String
  tokenAddress : String
  tokenDecimals : ℤ
  amount : String
  receiver : String
  calls : List CallView
  recovery : String
  salt : String
  expiresAt : DateTime
  paymentAddress : String

/-- The terms a row holds. -/
def Deposit.fixedTerms (d : Deposit) : FixedTerms where
  chainId := d.chainId
  tokenSymbol := d.tokenSymbol
  tokenAddress := d.tokenAddress
  tokenDecimals := d.tokenDecimals
  amount := d.amount
  receiver := d.receiver
  calls := d.calls
  recovery := d.recovery
  salt := d.salt
  expiresAt := d.expiresAt
  paymentAddress := d.paymentAddress

/-- What has become of a deposit. -/
structure Standing where
  status : DepositStatus
  confirmedAmount : String
  engineJobId : Option Uuid
  txHash : Option String
  blockNumber : Option ℤ
  failureCode : Option String
  failureMessage : Option String
  failureRevertData : Option String
  detectedAt : Option DateTime
  settledAt : Option DateTime
  failedAt : Option DateTime
  expiredAt : Option DateTime

/-- The standing a row holds. -/
def Deposit.standing (d : Deposit) : Standing where
  status := d.status
  confirmedAmount := d.confirmedAmount
  engineJobId := d.engineJobId
  txHash := d.txHash
  blockNumber := d.blockNumber
  failureCode := d.failureCode
  failureMessage := d.failureMessage
  failureRevertData := d.failureRevertData
  detectedAt := d.detectedAt
  settledAt := d.settledAt
  failedAt := d.failedAt
  expiredAt := d.expiredAt

/-- Settled or expired. A failed deposit can be retried. -/
def DepositStatus.IsFinished (s : DepositStatus) : Prop := s = .settled ∨ s = .expired

/-! ## One row -/

section Rows

variable {d d' : Deposit}

theorem Quiet.fixedTerms (h : Quiet d d') : d'.fixedTerms = d.fixedTerms := by
  rw [h.eq]
  rfl

theorem Quiet.standing (h : Quiet d d') : d'.standing = d.standing := by
  rw [h.eq]
  rfl

/-- No transition touches the terms. -/
theorem Op.row_fixedTerms (op : Op) (now : DateTime) (d : Deposit) :
    (op.transition.row now d).fixedTerms = d.fixedTerms := by
  cases op with
  | markEngineSubmitted job replayed => cases replayed <;> rfl
  | _ => rfl

/-- A finished deposit passes the guard of no transition that would touch its standing. -/
theorem Op.row_standing (op : Op) (now : DateTime) (hguard : op.transition.guard d = true)
    (hfinished : d.status.IsFinished) : (op.transition.row now d).standing = d.standing := by
  have hopen : whereOpen d ≠ true := by
    rcases hfinished with hs | hs <;> simp [whereOpen, hs, DepositStatus.isOpen]
  have hpaid : wherePaid d ≠ true := by
    rcases hfinished with hs | hs <;> simp [wherePaid, hs]
  cases op with
  | markWatchRegistered watch => rfl
  | applyPaymentOrphaned data => rfl
  | applyPaymentPending data => exact absurd hguard hopen
  | applyPaymentConfirmed confirmed data => exact absurd hguard hopen
  | applyThresholdReached confirmed data => exact absurd hguard hopen
  | applyExpired data => exact absurd hguard hopen
  | failOpen code message => exact absurd hguard hopen
  | reregisterWatch => exact absurd hguard hopen
  | markEngineSubmitted job replayed => exact absurd (Bool.and_eq_true_iff.mp hguard).1 hpaid
  | applySettlementIncluded txHash blockNumber data => exact absurd hguard hpaid
  | applySettled txHash blockNumber data => exact absurd hguard hpaid
  | applyFailed code message txHash revertData data => exact absurd hguard hpaid
  | resubmit data => exact absurd hguard hpaid
  | retrySettlement =>
    have hfailed : d.status = .failed := eq_of_beq hguard
    rcases hfinished with hs | hs <;> rw [hfailed] at hs <;> cases hs

/-- No write touches the terms. -/
@[simp] theorem Write.row_fixedTerms (write : Write) (now : DateTime) (d : Deposit) :
    (write.row now d).fixedTerms = d.fixedTerms := by
  rcases write.row_cases now d with hquiet | ⟨op, -, heq⟩
  · exact hquiet.fixedTerms
  · rw [heq, Op.row_fixedTerms, (write.quiet_bound now d).fixedTerms]

/-- No write touches the standing of a finished deposit. -/
theorem Write.row_standing (write : Write) (now : DateTime) (hfinished : d.status.IsFinished) :
    (write.row now d).standing = d.standing := by
  rcases write.row_cases now d with hquiet | ⟨op, hhits, heq⟩
  · exact hquiet.standing
  · have hbound := write.quiet_bound now d
    rw [heq, op.row_standing now hhits.guard (hbound.status.symm ▸ hfinished), hbound.standing]

end Rows

/-! ## Runs -/

/-- What is left of a row: its terms, and its standing once it is finished. -/
structure Keeping (d d' : Deposit) : Prop where
  fixedTerms : d'.fixedTerms = d.fixedTerms
  standing : d.status.IsFinished → d'.standing = d.standing

theorem Keeping.refl (d : Deposit) : Keeping d d := ⟨rfl, fun _ => rfl⟩

theorem Keeping.write {d d' : Deposit} (h : Keeping d d') (write : Write) (now : DateTime) :
    Keeping d (write.row now d') where
  fixedTerms := (write.row_fixedTerms now d').trans h.fixedTerms
  standing := by
    intro hfinished
    have hstanding := h.standing hfinished
    have hstatus : d'.status = d.status := congrArg Standing.status hstanding
    rw [write.row_standing now (hstatus.symm ▸ hfinished), hstanding]

/-- A run keeps every row it finds. -/
theorem Reachable.keeps {env : Env} {w w' : World} (h : Reachable env w)
    (hrun : Lts.Reaches (step env) Lts.Any w w') {id : Uuid} {d : Deposit}
    (hd : w.db.deposits.get? id = some d) :
    ∃ d', w'.db.deposits.get? id = some d' ∧ Keeping d d' := by
  obtain ⟨clock, hreach⟩ := h
  refine hrun.invariant (P := fun u => ∃ d', u.db.deposits.get? id = some d' ∧ Keeping d d')
    ⟨d, hd, .refl d⟩ ?_
  rintro u a u' hu ⟨d', hd', hkeeping⟩ - hstep
  have hfit : JobsFit u := JobsFit.reachable ⟨clock, hreach.trans hu⟩
  exact ⟨_, hfit.row_after hstep hd', hkeeping.write _ _⟩

/-- **The terms of a deposit never change, nor the standing of a finished one.** Whatever happens
after any point of any run, a deposit that is there keeps its terms; and if it is settled or
expired, its status, its confirmed total, its engine job, its transaction, its failure and the
times of its lifecycle. -/
theorem terms_and_finished_standing_fixed (env : Env) (w w' : World) (h : Reachable env w)
    (hrun : Lts.Reaches (step env) Lts.Any w w') (id : Uuid) (d : Deposit)
    (hd : w.db.deposits.get? id = some d) :
    ∃ d', w'.db.deposits.get? id = some d' ∧ d'.fixedTerms = d.fixedTerms ∧
      (d.status = .settled ∨ d.status = .expired → d'.standing = d.standing) := by
  obtain ⟨d', hd', hkeeping⟩ := h.keeps hrun hd
  exact ⟨d', hd', hkeeping.fixedTerms, hkeeping.standing⟩

namespace Fixture

/-- The indexer's notice that the watch has expired. -/
def watchExpired : IndexerEvent := { thresholdReached with
  id := "evt-watch-expired", eventType := "watch.expired" }

/-- A notice about a transfer that came to nothing. -/
def paymentOrphaned : IndexerEvent := { thresholdReached with
  id := "evt-orphaned", eventType := "payment.orphaned" }

/-- The fixture's deposit, up to its expiry. -/
def untilExpired : List Action := [
  .setUser "user" none,
  .create new "user" 7 (mint 0),
  .indexerEvent 0 watchExpired (some 7),
  .advance 0 .go (mint 1)]

/-- A late notice, and an operator who tries to retry the settlement. -/
def thenLate : List Action := [
  .indexerEvent 0 paymentOrphaned (some 7),
  .advance 0 .go (mint 2),
  .advance 0 .go (mint 3),
  .retrySettlement 7 (mint 4)]

/-- The status of the deposit, and the events on its timeline now and after some more actions. -/
def lateEvents (w : World) : Option (DepositStatus × ℕ × ℕ) :=
  (w.db.deposits.get? 7).bind fun d =>
    (Lts.run (step env) (fun w a => decide (Lts.Any w a)) w thenLate).bind fun w' =>
      (w'.db.deposits.get? 7).map fun d' => (d.status, d.eventSeq, d'.eventSeq)

end Fixture

/-- On the fixture's deposit, expired: the late notice is recorded, and nothing else happens. -/
theorem terms_and_finished_standing_fixed_fixture : ∃ w w' d d', Reachable Fixture.env w ∧
    Lts.Reaches (step Fixture.env) Lts.Any w w' ∧ w.db.deposits.get? 7 = some d ∧
    w'.db.deposits.get? 7 = some d' ∧ d.status = .expired ∧ d'.eventSeq ≠ d.eventSeq ∧
    d'.fixedTerms = d.fixedTerms ∧ d'.standing = d.standing := by
  obtain ⟨w, hreach, hevents⟩ : ∃ w, Lts.Reaches (step Fixture.env) Lts.Any
      (World.init Fixture.requestedAt) w ∧ Fixture.lateEvents w = some (.expired, 2, 3) :=
    @Lts.exists_reaches_of_run _ _ _ _ _ _ _ Fixture.untilExpired _ _ (by decide +kernel)
  obtain ⟨d, hd, h⟩ := Option.bind_eq_some_iff.mp hevents
  obtain ⟨w', hrun, h⟩ := Option.bind_eq_some_iff.mp h
  obtain ⟨d', hd', heq⟩ := Option.map_eq_some_iff.mp h
  obtain ⟨hstatus, hbefore, hafter⟩ := by simpa using heq
  have hreachable : Reachable Fixture.env w := ⟨_, hreach⟩
  obtain ⟨e, he, hterms, hstanding⟩ := terms_and_finished_standing_fixed Fixture.env w w' hreachable
    (Lts.reaches_of_run hrun) 7 d hd
  obtain rfl := Option.some.inj (hd'.symm.trans he)
  refine ⟨w, w', d, d', hreachable, Lts.reaches_of_run hrun, hd, hd', hstatus, ?_, hterms,
    hstanding (.inr hstatus)⟩
  rw [hbefore, hafter]
  decide

end GumServer
