import GumServer.Effects

/-!
# Automatic retries

A settlement that the engine gave up on before it executed is resubmitted, up to
`MAX_AUTO_RETRIES` times. `apply_settlement` counts the deposit's retries in one statement and
resubmits in the next, which asks for a paid deposit and nothing else; only there is the row
locked. Reports that are applied one after the other see each other's retries. Reports that are
applied at once may all count before any of them writes, and each of them resubmits.

So the limit holds as long as no report acts on a count that has run out in the meantime
(`World.retriesLeft`).
-/

namespace GumServer

open SettlementOutcome (MAX_AUTO_RETRIES)

/-- Whether an event is a retry that `apply_settlement` records for a failure: it has the engine's
message, which no other retry has. -/
def DepositEvent.isAutoRetry (e : DepositEvent) : Bool :=
  decide (e.eventType = .settlementRetried) && (e.data.get "detail").isSome

/-- The automatic retries of a deposit. -/
def Db.autoRetries (db : Db) (id : Uuid) : ℕ :=
  db.events.countP fun e => decide (e.depositId = id) && e.isAutoRetry

/-- Whether a report that is about to resubmit a paid deposit, as it counted too few retries, would
still count too few. -/
def World.retriesLeft (w : World) : Action → Bool
  | .advance name .go _ =>
    match w.tasks.get? name with
    | some (.settling _ _ s outcome (some counted)) =>
      !(outcome.isRetryable && decide (counted < MAX_AUTO_RETRIES) &&
          (w.db.deposits.get? s.id).any wherePaid) ||
        decide (w.db.retries s.id < MAX_AUTO_RETRIES)
    | _ => true
  | _ => true

/-! ## What a step records -/

section Steps

variable {env : Env} {w w' : World} {a : Action}

/-- The retries of operators, and those for jobs the engine does not know, have no message. -/
theorem Op.of_isAutoRetry {op : Op} {e : DepositEvent}
    (h : op.transition.event = some (e.eventType, e.data)) (hauto : e.isAutoRetry = true) :
    ∃ data, op = .resubmit data ∧ data ≠ unknownJobData := by
  obtain ⟨htype, hdetail⟩ := Bool.and_eq_true_iff.mp hauto
  rw [of_decide_eq_true htype] at h
  cases op with
  | resubmit data =>
    obtain ⟨-, rfl⟩ := Prod.mk.inj (Option.some.inj h)
    refine ⟨_, rfl, ?_⟩
    intro hunknown
    rw [hunknown] at hdetail
    exact absurd hdetail (by decide)
  | retrySettlement =>
    obtain ⟨-, hdata⟩ := Prod.mk.inj (Option.some.inj h)
    rw [← hdata] at hdetail
    exact absurd hdetail (by decide)
  | markEngineSubmitted job replayed => cases replayed <;> cases h
  | _ => cases h

/-- **An automatic retry is committed by a report that has counted.** -/
theorem commits_autoRetry {data : Value} {id : Uuid}
    (hop : (w.commits env a).op = some (.resubmit data, id)) (hdata : data ≠ unknownJobData) :
    ∃ name mint claim job s outcome counted, a = .advance name .go mint ∧ s.id = id ∧
      w.tasks.get? name = some (.settling claim job s outcome (some counted)) ∧
      outcome.isRetryable = true ∧ counted < MAX_AUTO_RETRIES := by
  cases World.asks hop with
  | indexer name input mint event s _ ht hasked => cases indexerOp_asks hasked
  | polled name input mint s watchId watch polledAt _ ht hasked => cases openOp_asks hasked
  | unknown name input mint s job ht => exact absurd rfl hdata
  | worker name input mint oj stage _ _ attempt ht hstatement => cases stage <;> cases hstatement
  | settling name input mint claim job s outcome retries _ ht _ =>
    obtain ⟨rfl, hid, hasked, hcounted⟩ := World.commits_settling ht hop
    cases outcome with
    | failed code message txHash revertData data =>
      rw [settlementOp] at hasked
      split at hasked
      · next hretry =>
        obtain ⟨hretryable, hleft⟩ := Bool.and_eq_true_iff.mp hretry
        obtain ⟨counted, rfl⟩ := Option.isSome_iff_exists.mp (hcounted hretryable)
        exact ⟨name, mint, claim, job, s, _, counted, rfl, hid, ht, hretryable,
          of_decide_eq_true hleft⟩
      · cases hasked
    | included txHash blockNumber data => cases hasked
    | settled txHash blockNumber data => cases hasked
    | pending => cases hasked

/-- An automatic retry is a retry. -/
theorem Db.autoRetries_le_retries (db : Db) (id : Uuid) : db.autoRetries id ≤ db.retries id := by
  refine List.countP_mono_left ?_
  intro e _ h
  obtain ⟨hid, hauto⟩ := Bool.and_eq_true_iff.mp h
  exact Bool.and_eq_true_iff.mpr ⟨hid, (Bool.and_eq_true_iff.mp hauto).1⟩

/-- **A step keeps the limit**, if there was a retry left for what it commits. -/
theorem step_autoRetries (h : step env w a = some w') (hleft : w.retriesLeft a = true) {id : Uuid}
    (hbound : w.db.autoRetries id ≤ MAX_AUTO_RETRIES) :
    w'.db.autoRetries id ≤ MAX_AUTO_RETRIES := by
  rcases step_recorded h with hsame | ⟨e, heq, hnew⟩
  · rw [Db.autoRetries, hsame]
    exact hbound
  · rw [Db.autoRetries, heq, List.countP_append, List.countP_singleton]
    split
    · next hcounts =>
      obtain ⟨hid, hauto⟩ := Bool.and_eq_true_iff.mp hcounts
      rcases hnew with hcreated | ⟨op, d, hhits, hd, hid', hevent⟩
      · rw [DepositEvent.isAutoRetry, hcreated] at hauto
        cases hauto
      · obtain ⟨data, rfl, hdata⟩ := Op.of_isAutoRetry hevent hauto
        obtain ⟨name, mint, claim, job, s, outcome, counted, rfl, hs, ht, hretryable, hcounted⟩ :=
          commits_autoRetry hhits.carries hdata
        have hpaid : wherePaid d = true :=
          ((w.commits env _).quiet_bound w.clock d).wherePaid ▸ hhits.guard
        rw [World.retriesLeft, ht] at hleft
        dsimp only at hleft
        rw [hretryable, decide_eq_true hcounted, hs, hd, Option.any_some, hpaid] at hleft
        have hstill : w.db.retries d.id < MAX_AUTO_RETRIES := of_decide_eq_true hleft
        have hle := w.db.autoRetries_le_retries d.id
        rw [← hid', of_decide_eq_true hid] at hstill hle
        exact Nat.succ_le_of_lt (Nat.lt_of_le_of_lt hle hstill)
    · exact hbound

end Steps

/-- **Failures are retried three times, unless a count is outrun.** In every run in which no report
resubmits a paid deposit on a count that has run out since it was taken, a deposit never has more
than `MAX_AUTO_RETRIES` retries that `apply_settlement` has recorded for failures. -/
theorem auto_retries_bounded (env : Env) (clock : DateTime) (w : World)
    (h : Lts.Reaches (step env) (fun w a => w.retriesLeft a = true) (World.init clock) w)
    (id : Uuid) : w.db.autoRetries id ≤ MAX_AUTO_RETRIES := by
  refine h.invariant (P := fun w => w.db.autoRetries id ≤ MAX_AUTO_RETRIES) (Nat.zero_le _) ?_
  intro w a w' _ hbound hleft hstep
  exact step_autoRetries hstep hleft hbound

namespace Fixture

/-- The engine's answer about job 500: it expired before it was executed. -/
def expiredJob : Job where
  status := "failed"
  outcome := none
  txHash := none
  blockNumber := none
  receipt := none
  error := some ⟨"expired", "deadline passed", none⟩

/-- Job 500 expires, and the report is applied. -/
def untilFirstRetry : List Action := untilBound ++ [
  .engineEvent 5 jobExpired (some 7),
  .advance 5 .go (mint 5),
  .advance 5 .go (mint 6)]

/-- Job 500 expires. The engine's webhook and the reconcilers of three replicas find out at the same
time: all of them count before one of them resubmits. -/
def untilOutrun : List Action := untilBound ++ [
  .tick (later 100),
  .engineEvent 5 jobExpired (some 7),
  .stalePaid 6 7,
  .stalePaid 7 7,
  .stalePaid 8 7,
  .advance 6 (.polledJob (some expiredJob) "2026-09-24T12:00:00Z") (mint 5),
  .advance 7 (.polledJob (some expiredJob) "2026-09-24T12:00:00Z") (mint 6),
  .advance 8 (.polledJob (some expiredJob) "2026-09-24T12:00:00Z") (mint 7),
  .advance 5 .go (mint 8),
  .advance 6 .go (mint 9),
  .advance 7 .go (mint 10),
  .advance 8 .go (mint 11),
  .advance 5 .go (mint 12),
  .advance 6 .go (mint 13),
  .advance 7 .go (mint 14),
  .advance 8 .go (mint 15)]

end Fixture

/-- On the fixture's deposit, with one report after which it has one retry. -/
theorem auto_retries_bounded_fixture : ∃ w, Lts.Reaches (step Fixture.env)
      (fun w a => w.retriesLeft a = true) (World.init Fixture.requestedAt) w ∧
    w.db.autoRetries 7 = 1 ∧ ∀ id, w.db.autoRetries id ≤ MAX_AUTO_RETRIES := by
  obtain ⟨w, hw, hfound⟩ : ∃ w, Lts.Reaches (step Fixture.env)
      (fun w a => w.retriesLeft a = true) (World.init Fixture.requestedAt) w ∧
      some (w.db.autoRetries 7) = some 1 :=
    @Lts.exists_reaches_of_run _ _ _ _ _ _ _ Fixture.untilFirstRetry _ _ (by decide +kernel)
  exact ⟨w, hw, Option.some.inj hfound, auto_retries_bounded Fixture.env _ w hw⟩

/-- Four reports that are applied at once retry the deposit four times. -/
theorem auto_retries_outrun : ∃ w, Reachable Fixture.env w ∧
    ¬ w.db.autoRetries 7 ≤ MAX_AUTO_RETRIES := by
  obtain ⟨w, hw, hfound⟩ : ∃ w, Lts.Reaches (step Fixture.env) Lts.Any
      (World.init Fixture.requestedAt) w ∧ some (w.db.autoRetries 7) = some 4 :=
    @Lts.exists_reaches_of_run _ _ _ _ _ _ _ Fixture.untilOutrun _ _ (by decide +kernel)
  refine ⟨w, ⟨_, hw⟩, ?_⟩
  rw [Option.some.inj hfound]
  decide

end GumServer
