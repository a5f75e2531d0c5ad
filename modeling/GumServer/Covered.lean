import GumServer.Jobs

/-!
# A paid deposit is covered

The lifecycle says that `paid` means the amount has arrived. `apply_threshold_reached` records the
total it was told, so the indexer's word is enough on that way; from then on `confirmed_amount`
does not change. `retry_settlement` is the other way into `paid`. It looks at the status only, and
a deposit also gets to `failed` from `pending`, when the indexer refuses its watch: retried from
there, it is paid without a payment.

So the states past the threshold are `paid`, `settled`, and `failed` with any code but
`watch_rejected`; the invariant is that a deposit in one of them is covered.
-/

namespace GumServer

/-! ## Amounts -/

/-- An amount column as a number. -/
def units (text : String) : ℕ := Nat.ofDigitChars 10 text.toList 0

@[simp] theorem units_toString (n : ℕ) : units (toString n) = n := by
  rw [units, show toString n = n.repr from rfl, Nat.repr_eq_ofList_toDigits, String.toList_ofList,
    Nat.ofDigitChars_ten_toDigits]

/-- The confirmed total has reached the amount. -/
def Deposit.Covered (d : Deposit) : Prop := units d.amount ≤ units d.confirmedAmount

instance (d : Deposit) : Decidable d.Covered := inferInstanceAs (Decidable (_ ≤ _))

/-- Past the threshold: not open, not expired, and not failed for want of a watch. -/
def Deposit.PastThreshold (d : Deposit) : Prop :=
  d.status = .paid ∨ d.status = .settled ∨
  (d.status = .failed ∧ d.failureCode ≠ some "watch_rejected")

/-! ## The indexer's word, and the operator's care -/

/-- The total that is read from a message covers a deposit. -/
def covers (lib : Crates) (confirmedAmount : Option String) (d : Deposit) : Bool :=
  decide (units d.amount ≤ (confirmedTotal lib confirmedAmount).val)

/-- The indexer is honest: a `threshold.reached` event and a completed watch carry a total that
covers the deposit they are about. -/
def Honest (env : Env) (w : World) : Action → Bool
  | .indexerEvent _ event (some id) =>
    decide (IndexerEventKind.ofStr event.eventType ≠ .thresholdReached) ||
      (w.db.deposits.get? id).all (covers env.readers.lib event.watch.confirmedAmount)
  | .advance task (.polledWatch (some watch) _) _ =>
    decide (WatchStatus.ofStr watch.status ≠ .completed) ||
      match w.tasks.get? task with
      | some (.openStale d _) => covers env.readers.lib watch.confirmedAmount d
      | _ => true
  | _ => true

/-- The operator retries no deposit that failed for want of a watch, unless it is covered. -/
def CoveredRetry (w : World) : Action → Bool
  | .retrySettlement id _ => (w.db.deposits.get? id).all fun d =>
      decide (d.status ≠ .failed) || decide (d.failureCode ≠ some "watch_rejected") ||
      decide d.Covered
  | _ => true

/-- A step both of them would take. -/
def Careful (env : Env) (w : World) (a : Action) : Prop :=
  Honest env w a = true ∧ CoveredRetry w a = true

instance (env : Env) (w : World) (a : Action) : Decidable (Careful env w a) :=
  inferInstanceAs (Decidable (_ ∧ _))

/-! ## Rows -/

section Rows

variable {d d' : Deposit}

theorem Quiet.amount (h : Quiet d d') : d'.amount = d.amount := by rw [h.eq]

theorem Quiet.covered (h : Quiet d d') : d'.Covered ↔ d.Covered := by rw [h.eq]; rfl

theorem Quiet.pastThreshold (h : Quiet d d') : d'.PastThreshold ↔ d.PastThreshold := by
  rw [h.eq]; rfl

/-- No transition changes the amount. -/
@[simp] theorem Op.row_amount (op : Op) (now : DateTime) (d : Deposit) :
    (op.transition.row now d).amount = d.amount := by
  cases op with
  | markEngineSubmitted job replayed => cases replayed <;> rfl
  | _ => rfl

/-- Nor does any write. -/
@[simp] theorem Write.row_amount (write : Write) (now : DateTime) (d : Deposit) :
    (write.row now d).amount = d.amount := by
  rcases write.row_cases now d with hquiet | ⟨op, -, heq⟩
  · exact hquiet.amount
  · rw [heq, Op.row_amount, (write.quiet_bound now d).amount]

/-- What is asked of a transition of a deposit: a threshold covers it, an open deposit fails for
want of a watch, and one that is retried was past the threshold or is covered. -/
def Op.Sound (d : Deposit) : Op → Prop
  | .applyThresholdReached confirmed _ => units d.amount ≤ confirmed.val
  | .failOpen code _ => code = "watch_rejected"
  | .retrySettlement => d.status = .failed → d.failureCode = some "watch_rejected" → d.Covered
  | _ => True

theorem Op.Sound.of_quiet {op : Op} (h : op.Sound d) (hquiet : Quiet d d') : op.Sound d' := by
  rw [hquiet.eq]
  cases op <;> exact h

/-- **A sound transition leads past the threshold only when the amount is there.** -/
theorem Op.Sound.covered {op : Op} (hsound : op.Sound d) (hguard : op.transition.guard d = true)
    (hold : d.PastThreshold → d.Covered) (now : DateTime)
    (hpast : (op.transition.row now d).PastThreshold) : (op.transition.row now d).Covered := by
  have hpaid (h : wherePaid d = true) : d.Covered := hold (.inl (eq_of_beq h))
  cases op with
  | applyThresholdReached confirmed data =>
    exact Nat.le_trans hsound (Nat.le_of_eq (units_toString confirmed.val).symm)
  | retrySettlement =>
    have hfailed : d.status = .failed := eq_of_beq hguard
    by_cases hcode : d.failureCode = some "watch_rejected"
    · exact hsound hfailed hcode
    · exact hold (.inr (.inr ⟨hfailed, hcode⟩))
  | failOpen code message =>
    obtain rfl : code = "watch_rejected" := hsound
    rcases hpast with h | h | ⟨-, h⟩
    · cases h
    · cases h
    · exact absurd rfl h
  | applySettlementIncluded txHash blockNumber data => exact hpaid hguard
  | applySettled txHash blockNumber data => exact hpaid hguard
  | applyFailed code message txHash revertData data => exact hpaid hguard
  | resubmit data => exact hpaid hguard
  | markEngineSubmitted job replayed =>
    rw [Op.transition, GumServer.markEngineSubmitted, Bool.and_eq_true] at hguard
    cases replayed <;> exact hpaid hguard.1
  | markWatchRegistered watch => exact hold hpast
  | applyPaymentOrphaned data => exact hold hpast
  | reregisterWatch => exact hold hpast
  | applyPaymentPending data => rcases hpast with h | h | ⟨h, -⟩ <;> cases h
  | applyPaymentConfirmed confirmed data => rcases hpast with h | h | ⟨h, -⟩ <;> cases h
  | applyExpired data => rcases hpast with h | h | ⟨h, -⟩ <;> cases h

end Rows

/-! ## Messages in flight -/

section Tasks

variable {env : Env} {w w' : World} {a : Action}

/-- The row a task has read is there, with the same amount. -/
def Knows (w : World) (s : Deposit) : Prop :=
  ∃ d, w.db.deposits.get? s.id = some d ∧ d.amount = s.amount

/-- A task carries no total of a reached threshold that does not cover its deposit. -/
def Task.Honest (env : Env) (w : World) : Task → Prop
  | .indexer event s _ => Knows w s ∧
    (IndexerEventKind.ofStr event.eventType = .thresholdReached →
      covers env.readers.lib event.watch.confirmedAmount s = true)
  | .openStale s _ => Knows w s
  | .openPolled s _ (some watch) _ => Knows w s ∧
    (WatchStatus.ofStr watch.status = .completed →
      covers env.readers.lib watch.confirmedAmount s = true)
  | _ => True

theorem Knows.step {s : Deposit} (hknows : Knows w s) (hfit : JobsFit w) (h : step env w a = some w') :
    Knows w' s := by
  obtain ⟨d, hd, hamount⟩ := hknows
  exact ⟨_, hfit.row_after h hd, (Write.row_amount _ _ d).trans hamount⟩

theorem Task.Honest.step {t : Task} (ht : t.Honest env w) (hfit : JobsFit w)
    (h : GumServer.step env w a = some w') : t.Honest env w' := by
  cases t with
  | indexer event s => exact ⟨ht.1.step hfit h, ht.2⟩
  | openStale s watch => exact Knows.step ht hfit h
  | openPolled s watchId watch polledAt =>
    cases watch with
    | none => exact trivial
    | some watch => exact ⟨ht.1.step hfit h, ht.2⟩
  | _ => exact trivial

/-- A message that covers the row a task has read covers the row as it is. -/
theorem Knows.covers {s d : Deposit} {lib : Crates} {total : Option String} (h : Knows w s)
    (hcovers : covers lib total s = true) (hd : w.db.deposits.get? s.id = some d) :
    units d.amount ≤ (confirmedTotal lib total).val := by
  obtain ⟨d', hd', hamount⟩ := h
  obtain rfl := Option.some.inj (hd.symm.trans hd')
  rw [hamount]
  exact of_decide_eq_true hcovers

/-- The covered deposits, and the messages about them. -/
structure Funded (env : Env) (w : World) : Prop where
  rows : ∀ {id d}, w.db.deposits.get? id = some d → d.PastThreshold → d.Covered
  tasks : ∀ {name t}, w.tasks.get? name = some t → t.Honest env w

/-- What an honest indexer's event asks for is sound. -/
theorem indexerOp_sound {event : IndexerEvent} {s d : Deposit} {seen : Option Deposit} {op : Op}
    (ht : (Task.indexer event s seen).Honest env w) (hd : w.db.deposits.get? s.id = some d)
    (hop : indexerOp env.readers.lib event seen = some op) : op.Sound d := by
  cases indexerOp_asks hop with
  | reached data hkind => exact ht.1.covers (ht.2 hkind) hd
  | _ => exact trivial

/-- And what a watch it was polled for asks for. -/
theorem openOp_sound {watch : WatchDetail} {s d : Deposit} {watchId : Uuid} {polledAt : String}
    {op : Op} (ht : (Task.openPolled s watchId (some watch) polledAt).Honest env w)
    (hd : w.db.deposits.get? s.id = some d)
    (hop : openOp env.readers.lib s watchId watch polledAt = some op) : op.Sound d := by
  cases openOp_asks hop with
  | completed data hstatus => exact ht.1.covers (ht.2 hstatus) hd
  | _ => exact trivial

/-- A report of the engine's asks for nothing of the kind. -/
theorem settlementOp_sound {outcome : SettlementOutcome} {retries : ℕ} {op : Op} (d : Deposit)
    (hop : settlementOp outcome retries = some op) : op.Sound d := by
  cases settlementOp_asks hop <;> exact trivial

/-- A worker fails open deposits for want of a watch, and nothing else. -/
theorem Worker.statement_sound {job : OutboxJob} {stage : Stage} {op : Op} {id : Uuid}
    {attempt : Attempt} (d : Deposit) (h : Worker.statement job stage = some (op, id, attempt)) :
    op.Sound d := by
  cases stage <;> cases h <;> first | exact trivial | exact rfl

/-- **Every transition that is committed is sound.** -/
theorem Funded.sound (hf : Funded env w) (hretry : CoveredRetry w a = true) {op : Op} {d : Deposit}
    (hop : (w.commits env a).op = some (op, d.id)) (hd : w.db.deposits.get? d.id = some d) :
    op.Sound d := by
  generalize hid : d.id = id at hop hd
  cases World.asks hop with
  | operator _ mint =>
    rw [CoveredRetry, hd] at hretry
    intro hfailed hcode
    simpa [hfailed, hcode] using hretry
  | indexer name input mint event s _ ht hasked => exact indexerOp_sound (hf.tasks ht) hd hasked
  | settling name input mint claim job s outcome retries _ ht hasked =>
    exact settlementOp_sound d hasked
  | polled name input mint s watchId watch polledAt _ ht hasked =>
    exact openOp_sound (hf.tasks ht) hd hasked
  | lost name input mint s watchId polledAt ht => exact trivial
  | unknown name input mint s job ht => exact trivial
  | overdue name input mint _ ht => exact trivial
  | worker name input mint job stage _ _ attempt ht hstatement =>
    exact Worker.statement_sound d hstatement

/-! ## Runs -/

/-- A task that a careful step starts or takes on is honest. -/
theorem Funded.task (hf : Funded env w) (hhonest : Honest env w a = true) {name : ℕ} {t : Task}
    (h : TaskStep env w a name t) : t.Honest env w := by
  cases h with
  | kept ht => exact hf.tasks ht
  | indexer event d hd ha =>
    subst ha
    refine ⟨⟨d, hd, rfl⟩, ?_⟩
    intro hkind
    simpa [Honest, hkind, hd] using hhonest
  | staleOpen d watch hd => exact ⟨d, hd, rfl⟩
  | advanced input mint write engine ha ht hnext =>
    subst ha
    rcases Task.next_step hnext with ⟨hstep, -⟩ | ⟨job, stage, stage', rfl, hsome, -⟩
    · generalize hnew : some t = new at hstep
      cases hstep with
      | pollOpen d watchId watch polledAt =>
        obtain rfl := Option.some.inj hnew
        cases watch with
        | none => exact trivial
        | some watch =>
          refine ⟨hf.tasks ht, ?_⟩
          intro hstatus
          cases input with
          | polledWatch polled at' =>
            obtain ⟨-, rfl, rfl⟩ : w.engine = engine ∧ polled = some watch ∧ at' = polledAt := by
              simpa [Task.next] using hnext
            simpa [Honest, hstatus, ht] using hhonest
          | _ => cases hnext
      | applyOpen d watchId watch polledAt t' ht' =>
        rcases ht' with ht' | ht' <;> rw [ht'] at hnew <;> cases hnew
        exact trivial
      | readOrphaned event d row hrow =>
        obtain rfl := Option.some.inj hnew
        have hhonest' : (Task.indexer event d none).Honest env w := hf.tasks ht
        exact hhonest'
      | _ => cases hnew <;> exact trivial
    · cases stage' with
      | none => cases hsome
      | some stage' =>
        obtain rfl := Option.some.inj hsome
        exact trivial
  | engine event d hd hjob ha => exact trivial
  | stalePaid d job hd hjob => exact trivial
  | overdue d hd hoverdue => exact trivial
  | claimed r hr ha => exact trivial
  | abandoned old job stage error ht => exact trivial

/-- **A careful step keeps the deposits past the threshold covered.** -/
theorem Funded.step (hf : Funded env w) (hfit : JobsFit w) (hok : Careful env w a)
    (h : GumServer.step env w a = some w') : Funded env w' where
  rows := by
    intro id d' hd' hpast
    rcases JobsFit.step_row h hd' with ⟨d, hd, rfl⟩ | ⟨-, hpending, -⟩
    · obtain rfl := Table.key_of_get? hd
      rcases (w.commits env a).row_cases w.clock d with hquiet | ⟨op, hhits, heq⟩
      · exact hquiet.covered.mpr (hf.rows hd (hquiet.pastThreshold.mp hpast))
      · have hbound := (w.commits env a).quiet_bound w.clock d
        rw [heq] at hpast ⊢
        refine ((hf.sound hok.2 hhits.carries hd).of_quiet hbound).covered hhits.guard ?_ _ hpast
        intro hpast
        exact hbound.covered.mpr (hf.rows hd (hbound.pastThreshold.mp hpast))
    · rcases hpast with hs | hs | ⟨hs, -⟩ <;> rw [hpending] at hs <;> cases hs
  tasks := by
    intro name t ht
    exact (hf.task hok.1 (step_tasks h ht)).step hfit h

theorem Funded.init (clock : DateTime) : Funded env (World.init clock) where
  rows h := by cases h
  tasks h := by cases h

end Tasks

/-- **A paid deposit is covered.** In every run in which the indexer is honest and no operator
retries an uncovered deposit that failed for want of a watch, a deposit that is paid or settled
has at least its amount confirmed. -/
theorem paid_deposit_covered (env : Env) (clock : DateTime) (w : World)
    (h : Lts.Reaches (step env) (Careful env) (World.init clock) w) (id : Uuid) (d : Deposit)
    (hd : w.db.deposits.get? id = some d) (hstatus : d.status = .paid ∨ d.status = .settled) :
    d.Covered := by
  have hfunded : Funded env w := by
    refine h.invariant (Funded.init clock) ?_
    intro w a w' hreach hf hok hstep
    have hany : Lts.Reaches (step env) Lts.Any (World.init clock) w :=
      hreach.mono fun _ => trivial
    exact hf.step (JobsFit.reachable ⟨clock, hany⟩) hok hstep
  rcases hstatus with hs | hs
  · exact hfunded.rows hd (.inl hs)
  · exact hfunded.rows hd (.inr (.inl hs))

/-- Any other retry pays a deposit that is not covered: the condition on the operator is the
weakest there is. -/
theorem uncovered_retry_pays {env : Env} {w w' : World} {id : Uuid} {mint : Mint}
    (h : step env w (.retrySettlement id mint) = some w')
    (hretry : CoveredRetry w (.retrySettlement id mint) = false) :
    ∃ d, w'.db.deposits.get? id = some d ∧ d.status = .paid ∧ ¬ d.Covered := by
  rw [CoveredRetry] at hretry
  cases hd : w.db.deposits.get? id with
  | none =>
    rw [hd] at hretry
    cases hretry
  | some d =>
    obtain ⟨⟨hfailed, -⟩, hcovered⟩ : (d.status = .failed ∧ d.failureCode = some "watch_rejected") ∧
        ¬ d.Covered := by simpa [hd] using hretry
    obtain ⟨-, rfl⟩ := require_eq_some.mp h
    have hguard : Op.retrySettlement.transition.guard d = true := beq_iff_eq.mpr hfailed
    have hrow := w.db.write_deposits w.clock mint (.tx (.of .retrySettlement id)) id
    rw [hd, Option.map_some, Write.row_of _ _ (Table.key_of_get? hd), if_pos hguard] at hrow
    exact ⟨_, hrow, rfl, hcovered⟩

namespace Fixture

/-- The status of the fixture's deposit, its amount and its confirmed total. -/
def amountsOf (w : World) : Option (DepositStatus × String × String) :=
  (w.db.deposits.get? 7).map fun d => (d.status, d.amount, d.confirmedAmount)

/-- The indexer refuses the watch of the fixture's deposit, and an operator retries it. -/
def untilRetried : List Action := [
  .setUser "user" none,
  .create new "user" 7 (mint 0),
  .claim 0 (mint 0).job,
  .advance 0 (.load requestedAt) (mint 1),
  .advance 0 (.watch (.rejected "unsupported token")) (mint 2),
  .advance 0 .go (mint 3),
  .retrySettlement 7 (mint 4)]

end Fixture

/-- On the fixture's deposit, paid by its threshold. -/
theorem paid_deposit_covered_fixture : ∃ w d, Lts.Reaches (step Fixture.env) (Careful Fixture.env)
    (World.init Fixture.requestedAt) w ∧ w.db.deposits.get? 7 = some d ∧ d.status = .paid ∧
    d.amount = "2500000" ∧ d.Covered := by
  obtain ⟨w, hreach, hamounts⟩ : ∃ w, Lts.Reaches (step Fixture.env) (Careful Fixture.env)
      (World.init Fixture.requestedAt) w ∧
      Fixture.amountsOf w = some (.paid, "2500000", "2500000") :=
    @Lts.exists_reaches_of_run _ _ _ _ _ _ _ Fixture.untilPaid _ _ (by decide +kernel)
  obtain ⟨d, hd, hvalues⟩ := Option.map_eq_some_iff.mp hamounts
  obtain ⟨hpaid, hvalues⟩ := Prod.mk.inj hvalues
  obtain ⟨hamount, -⟩ := Prod.mk.inj hvalues
  exact ⟨w, d, hreach, hd, hpaid, hamount,
    paid_deposit_covered Fixture.env _ w hreach 7 d hd (.inl hpaid)⟩

/-- The indexer is honest throughout, and yet the fixture's deposit is paid without a payment: its
watch is refused, and an operator retries it. -/
theorem retried_deposit_uncovered : ∃ w d, Lts.Reaches (step Fixture.env)
    (fun w a => Honest Fixture.env w a = true) (World.init Fixture.requestedAt) w ∧
    w.db.deposits.get? 7 = some d ∧ d.status = .paid ∧
    d.amount = "2500000" ∧ d.confirmedAmount = "0" ∧ ¬ d.Covered := by
  obtain ⟨w, hreach, hamounts⟩ : ∃ w, Lts.Reaches (step Fixture.env)
      (fun w a => Honest Fixture.env w a = true) (World.init Fixture.requestedAt) w ∧
      Fixture.amountsOf w = some (.paid, "2500000", "0") :=
    @Lts.exists_reaches_of_run _ _ _ _ _ _ _ Fixture.untilRetried _ _ (by decide +kernel)
  obtain ⟨d, hd, hvalues⟩ := Option.map_eq_some_iff.mp hamounts
  obtain ⟨hpaid, hvalues⟩ := Prod.mk.inj hvalues
  obtain ⟨hamount, hconfirmed⟩ := Prod.mk.inj hvalues
  refine ⟨w, d, hreach, hd, hpaid, hamount, hconfirmed, ?_⟩
  rw [Deposit.Covered, hamount, hconfirmed]
  decide

end GumServer
