import GumServer.Jobs

/-!
# Reports about a job

A report about an engine job is matched with a deposit by the job the deposit is bound to: the
engine's handler looks the row up by it, the reconciler polls the job of a row it has loaded. What
either does next is told by the row as it was read, and the update asks for `status = 'paid'` and
nothing else. In between the deposit can be retried, and bound to another job.

The timeline has a `settlement_retried` event for every time a deposit leaves its job. As long as
it has none since the row was read, the deposit is still bound to the job the report is about.
-/

namespace GumServer

/-- The job a task has a report about, or asks for one, and its deposit as it was read. -/
def Task.about : Task → Option (Uuid × Deposit)
  | .settling _ job s _ _ | .paidStale s job | .paidUnknown s job => some (job, s)
  | _ => none

/-- Whether the next step of a task applies its report: there is one, it says something, and the
retries are counted where they matter. -/
def Task.isApplying : Task → Bool
  | .settling _ _ _ .pending _ => false
  | .settling _ _ _ outcome retries => !(outcome.isRetryable && retries.isNone)
  | .paidUnknown _ _ => true
  | _ => false

/-- Whether a deposit has been retried since it was read. -/
def Db.retriedSince (db : Db) (s : Deposit) : Bool :=
  db.events.any fun e => decide (e.depositId = s.id) && decide (e.eventType = .settlementRetried) &&
    decide (s.eventSeq < e.sequence)

/-- No report is applied to a paid deposit that has been retried since it was read. -/
def Timely (w : World) : Action → Bool
  | .advance name _ _ =>
    match w.tasks.get? name with
    | some t =>
      match t.about with
      | some (_, s) => !t.isApplying || !w.db.retriedSince s ||
          (w.db.deposits.get? s.id).all fun d => decide (d.status ≠ .paid)
      | none => true
    | none => true
  | _ => true

/-! ## What a report still knows -/

section Tracks

variable {env : Env} {w w' : World} {a : Action} {job : Uuid} {s d : Deposit}

/-- A deposit that was bound to a job when it was read is bound to it still, unless it has been
retried since. -/
def Tracks (w : World) (job : Uuid) (s : Deposit) : Prop :=
  ∃ d, w.db.deposits.get? s.id = some d ∧ s.eventSeq ≤ d.eventSeq ∧
    (d.engineJobId = some job ∨ w.db.retriedSince s = true)

theorem Db.retriedSince_iff {db : Db} : db.retriedSince s = true ↔ ∃ e ∈ db.events,
    e.depositId = s.id ∧ e.eventType = .settlementRetried ∧ s.eventSeq < e.sequence := by
  simp [Db.retriedSince, and_assoc]

theorem retriedSince_step (h : step env w a = some w') (hs : w.db.retriedSince s = true) :
    w'.db.retriedSince s = true := by
  rw [Db.retriedSince_iff] at hs ⊢
  obtain ⟨e, he, hwhat⟩ := hs
  exact ⟨e, step_events h he, hwhat⟩

/-- A deposit leaves its job with a `settlement_retried` event, and in no other way. -/
theorem Op.row_engineJobId (op : Op) (now : DateTime) (hguard : op.transition.guard d = true)
    (hjob : d.engineJobId = some job) : (op.transition.row now d).engineJobId = some job ∨
      ∃ data, op.transition.event = some (.settlementRetried, data) := by
  cases op with
  | retrySettlement => exact .inr ⟨_, rfl⟩
  | resubmit data => exact .inr ⟨_, rfl⟩
  | markEngineSubmitted job' replayed =>
    have hsame : some job = some job' := by
      simpa [Op.transition, markEngineSubmitted, hjob] using (Bool.and_eq_true_iff.mp hguard).2
    rw [hsame]
    cases replayed <;> exact .inl rfl
  | _ => exact .inl hjob

/-- **A step keeps track**, or puts the retry on the timeline. -/
theorem Tracks.step (htracks : Tracks w job s) (hfit : JobsFit w)
    (h : GumServer.step env w a = some w') : Tracks w' job s := by
  obtain ⟨d, hd, hseq, hbound⟩ := htracks
  obtain hid := Table.key_of_get? hd
  refine ⟨_, hfit.row_after h hd, ?_⟩
  rcases (w.commits env a).row_cases w.clock d with hquiet | ⟨op, hhits, heq⟩
  · rw [hquiet.eventSeq, hquiet.engineJobId]
    exact ⟨hseq, hbound.imp_right (retriedSince_step h)⟩
  · have hquiet := (w.commits env a).quiet_bound w.clock d
    have hgrows := op.le_row_eventSeq w.clock ((w.commits env a).bound w.clock d)
    rw [hquiet.eventSeq] at hgrows
    rw [heq]
    refine ⟨hseq.trans hgrows, ?_⟩
    rcases hbound with hjob | hretried
    · rcases op.row_engineJobId w.clock hhits.guard (hquiet.engineJobId.trans hjob) with
        hjob | ⟨data, hevent⟩
      · exact .inl hjob
      · right
        obtain ⟨e, hevents, hdeposit, hsequence, htype⟩ :=
          step_event_of_hit h hhits (hid.symm ▸ hd) hevent
        rw [Db.retriedSince_iff, hevents]
        exact ⟨e, List.mem_append_right _ (List.mem_singleton_self e), hdeposit.trans hid, htype,
          by omega⟩
    · exact .inr (retriedSince_step h hretried)

/-- Everything that is about a job keeps track of its deposit. -/
def AllTrack (w : World) : Prop :=
  ∀ name t job s, w.tasks.get? name = some t → t.about = some (job, s) → Tracks w job s

/-- A task about a job was one before, or has just read its deposit. -/
theorem AllTrack.task (hall : AllTrack w) {name : ℕ} {t : Task} (h : TaskStep env w a name t)
    (habout : t.about = some (job, s)) : Tracks w job s := by
  cases h with
  | kept ht => exact hall name t job s ht habout
  | engine event d hd hjob ha =>
    obtain ⟨rfl, rfl⟩ := Prod.mk.inj (Option.some.inj habout)
    exact ⟨d, hd, Nat.le_refl _, .inl hjob⟩
  | stalePaid d job' hd hjob =>
    obtain ⟨rfl, rfl⟩ := Prod.mk.inj (Option.some.inj habout)
    exact ⟨d, hd, Nat.le_refl _, .inl hjob⟩
  | advanced input mint write engine ha ht hnext =>
    rcases Task.next_step hnext with ⟨hstep, -⟩ | ⟨job', stage, stage', rfl, hsome, -⟩
    · generalize hnew : some t = new at hstep
      cases hstep with
      | count claim job' s' outcome =>
        obtain rfl := Option.some.inj hnew
        exact hall name _ job s ht habout
      | unknownJob s' job' =>
        obtain rfl := Option.some.inj hnew
        exact hall name _ job s ht habout
      | pollPaid s' job' polled polledAt outcome houtcome =>
        obtain rfl := Option.some.inj hnew
        exact hall name _ job s ht habout
      | applyOpen s' watchId watch polledAt t' ht' =>
        rcases ht' with ht' | ht' <;> rw [ht'] at hnew <;> cases hnew
        cases habout
      | _ => cases hnew <;> cases habout
    · cases stage' with
      | none => cases hsome
      | some stage' =>
        obtain rfl := Option.some.inj hsome
        cases habout
  | indexer event d hd ha => cases habout
  | staleOpen d watch hd => cases habout
  | overdue d hd hoverdue => cases habout
  | claimed r hr ha => cases habout
  | abandoned old job' stage error ht => cases habout

/-- Whatever is about a job keeps track of its deposit in every run. -/
theorem AllTrack.reachable (h : Reachable env w) : AllTrack w := by
  obtain ⟨clock, hreach⟩ := h
  refine hreach.invariant ?_ ?_
  · intro name t job s ht
    cases ht
  · intro w a w' hreach hall _ hstep name t job s ht habout
    exact (hall.task (step_tasks hstep ht) habout).step (JobsFit.reachable ⟨clock, hreach⟩) hstep

end Tracks

/-! ## What a report changes -/

section Changes

variable {env : Env} {w w' : World} {job : Uuid} {s d : Deposit}

/-- A transaction that binds no watch changes the row its transition hits. -/
theorem Tx.op_of_changed {tx : Tx} (hbind : tx.bind = none) (now : DateTime)
    (h : (Write.tx tx).row now d ≠ d) :
    ∃ op, tx.op = some (op, d.id) ∧ op.transition.guard d = true := by
  have hsame : tx.bindRow now d = d := by rw [Tx.bindRow, hbind]
  rw [Write.row, hsame, Tx.opRow.eq_def] at h
  rcases hop : tx.op with _ | ⟨op, id⟩
  · rw [hop] at h
    exact absurd rfl h
  · rw [hop] at h
    dsimp only at h
    split_ifs at h with hid hguard
    · exact ⟨op, by rw [hid], hguard⟩
    · exact absurd rfl h
    · exact absurd rfl h

/-- Whatever a report asks for, it asks it of a paid deposit. -/
theorem settlementOp_guard {outcome : SettlementOutcome} {retries : ℕ} {op : Op}
    (h : settlementOp outcome retries = some op) : op.transition.guard = wherePaid := by
  cases settlementOp_asks h <;> rfl

/-- **A report changes a deposit when it is applied**, and then its own, while it is paid. -/
theorem HandlerStep.applying {db : Db} {t : Task} {write : Write} {t' : Option Task}
    (h : HandlerStep env db t write t') (habout : t.about = some (job, s)) (now : DateTime)
    (hchanged : write.row now d ≠ d) : t.isApplying = true ∧ d.id = s.id ∧ d.status = .paid := by
  cases h with
  | settle claim job' s' outcome retries hcounted =>
    obtain ⟨rfl, rfl⟩ := Prod.mk.inj (Option.some.inj habout)
    obtain ⟨op, hop, hguard⟩ := Tx.op_of_changed rfl now hchanged
    obtain ⟨op', hop', heq⟩ := Option.map_eq_some_iff.mp hop
    obtain ⟨rfl, hid⟩ := Prod.mk.inj heq
    rw [settlementOp_guard hop'] at hguard
    refine ⟨?_, hid.symm, eq_of_beq hguard⟩
    cases outcome with
    | pending => cases hop'
    | _ => exact congrArg not hcounted
  | resubmit s' job' =>
    obtain ⟨rfl, rfl⟩ := Prod.mk.inj (Option.some.inj habout)
    obtain ⟨op, hop, hguard⟩ := Tx.op_of_changed rfl now hchanged
    obtain ⟨rfl, hid⟩ := Prod.mk.inj (Option.some.inj hop)
    exact ⟨rfl, hid.symm, eq_of_beq hguard⟩
  | count claim job' s' outcome => exact absurd rfl hchanged
  | unknownJob s' job' => exact absurd rfl hchanged
  | pollPaid s' job' polled polledAt outcome houtcome => exact absurd rfl hchanged
  | inFlight s' job' => exact absurd rfl hchanged
  | _ => cases habout

end Changes

/-- **A report changes the deposit of its job.** At any step of any run, when a task with a report
about a job changes a deposit, the row is bound to that job at that moment, provided the deposit
was not retried since the task read it. -/
theorem report_changes_own_deposit (env : Env) (w w' : World) (hreach : Reachable env w)
    (name : ℕ) (input : Input) (mint : Mint) (t : Task) (job : Uuid) (s : Deposit)
    (ht : w.tasks.get? name = some t) (habout : t.about = some (job, s))
    (hok : Timely w (.advance name input mint) = true)
    (hstep : step env w (.advance name input mint) = some w') (id : Uuid) (d : Deposit)
    (hd : w.db.deposits.get? id = some d) (hchanged : w'.db.deposits.get? id ≠ some d) :
    id = s.id ∧ d.engineJobId = some job := by
  obtain rfl := Table.key_of_get? hd
  obtain ⟨current, hcurrent, -, hbound⟩ := AllTrack.reachable hreach name t job s ht habout
  rw [(JobsFit.reachable hreach).row_after hstep hd] at hchanged
  have hrow : (w.commits env (.advance name input mint)).row w.clock d ≠ d :=
    fun heq => hchanged (congrArg some heq)
  obtain ⟨⟨write, engine, t'⟩, hnext, -⟩ : ∃ n, t.next env w.db w.engine input = some n ∧ _ := by
    rw [step, ht, Option.bind_some] at hstep
    exact Option.bind_eq_some_iff.mp hstep
  rw [World.commits_advance ht hnext] at hrow
  rcases Task.next_step hnext with ⟨hhandler, -⟩ | ⟨job', stage, stage', rfl, -, -⟩
  · obtain ⟨happlying, hid, hpaid⟩ := hhandler.applying habout w.clock hrow
    rw [hid] at hd ⊢
    obtain rfl := Option.some.inj (hcurrent.symm.trans hd)
    refine ⟨rfl, hbound.resolve_right ?_⟩
    intro hretried
    simp [Timely, ht, habout, happlying, hretried, hcurrent, hpaid] at hok
  · cases habout

namespace Fixture

/-- The reconciler polls job 500, and before it goes on, the engine's own notice has the deposit
resubmitted, as job 501. -/
def untilRebound : List Action := untilBound ++ [
  .advance 1 .go (mint 5),
  .tick (later 120),
  .stalePaid 2 7,
  .advance 2 (.polledJob (some ⟨"failed", none, none, none, none, jobExpired.error⟩) "now") (mint 6),
  .engineEvent 3 jobExpired (some 7),
  .advance 3 .go (mint 7),
  .advance 3 .go (mint 8),
  .claim 4 (mint 8).job,
  .advance 4 (.load (later 120)) (mint 9),
  .advance 4 (.submit (.accepted 501)) (mint 10),
  .advance 4 .go (mint 11),
  .advance 2 .go (mint 12)]

/-- The engine's notice arrives, with nothing in between. -/
def untilNoticed : List Action := untilBound ++ [
  .engineEvent 3 jobExpired (some 7),
  .advance 3 .go (mint 5)]

/-- What a task's next step does to the deposit: the job its report is about, the job of the
deposit before and after, and whether the step is timely. -/
def reported (name : ℕ) (m : Mint) (w : World) : Option (Uuid × Option Uuid × Option Uuid × Bool) :=
  (w.tasks.get? name).bind fun t => t.about.bind fun about =>
    (step env w (.advance name .go m)).bind fun w' => (w.db.deposits.get? 7).bind fun d =>
      (w'.db.deposits.get? 7).map fun d' =>
        (about.1, d.engineJobId, d'.engineJobId, Timely w (.advance name .go m))

theorem of_reported {name : ℕ} {m : Mint} {w : World} {job : Uuid} {before after : Option Uuid}
    {timely : Bool} (h : reported name m w = some (job, before, after, timely)) :
    ∃ t s w' d d', w.tasks.get? name = some t ∧ t.about = some (job, s) ∧
      step env w (.advance name .go m) = some w' ∧ w.db.deposits.get? 7 = some d ∧
      w'.db.deposits.get? 7 = some d' ∧ d.engineJobId = before ∧ d'.engineJobId = after ∧
      Timely w (.advance name .go m) = timely := by
  obtain ⟨t, ht, h⟩ := Option.bind_eq_some_iff.mp h
  obtain ⟨⟨job', s⟩, habout, h⟩ := Option.bind_eq_some_iff.mp h
  obtain ⟨w', hstep, h⟩ := Option.bind_eq_some_iff.mp h
  obtain ⟨d, hd, h⟩ := Option.bind_eq_some_iff.mp h
  obtain ⟨d', hd', heq⟩ := Option.map_eq_some_iff.mp h
  obtain ⟨rfl, hbefore, hafter, htimely⟩ := by simpa using heq
  exact ⟨t, s, w', d, d', ht, habout, hstep, hd, hd', hbefore, hafter, htimely⟩

end Fixture

/-- On the fixture's deposit, resubmitted on the engine's own notice. -/
theorem report_changes_own_deposit_fixture : ∃ w w' t s d, Reachable Fixture.env w ∧
    w.tasks.get? 3 = some t ∧ t.about = some (500, s) ∧
    step Fixture.env w (.advance 3 .go (Fixture.mint 6)) = some w' ∧
    w.db.deposits.get? 7 = some d ∧ w'.db.deposits.get? 7 ≠ some d ∧
    7 = s.id ∧ d.engineJobId = some 500 := by
  obtain ⟨w, hreach, hreported⟩ : ∃ w, Lts.Reaches (step Fixture.env) Lts.Any
      (World.init Fixture.requestedAt) w ∧
      Fixture.reported 3 (Fixture.mint 6) w = some (500, some 500, none, true) :=
    @Lts.exists_reaches_of_run _ _ _ _ _ _ _ Fixture.untilNoticed _ _ (by decide +kernel)
  obtain ⟨t, s, w', d, d', ht, habout, hstep, hd, hd', hbefore, hafter, htimely⟩ :=
    Fixture.of_reported hreported
  have hreachable : Reachable Fixture.env w := ⟨_, hreach⟩
  have hchanged : w'.db.deposits.get? 7 ≠ some d := by
    intro heq
    obtain rfl := Option.some.inj (hd'.symm.trans heq)
    cases hbefore.symm.trans hafter
  exact ⟨w, w', t, s, d, hreachable, ht, habout, hstep, hd, hchanged,
    report_changes_own_deposit Fixture.env w w' hreachable 3 .go _ t 500 s ht habout htimely hstep 7
      d hd hchanged⟩

/-- The reconciler takes the fixture's deposit off job 501, on what it was told about job 500. -/
theorem stale_report_detaches : ∃ w w' t s d d', Reachable Fixture.env w ∧
    w.tasks.get? 2 = some t ∧ t.about = some (500, s) ∧
    step Fixture.env w (.advance 2 .go (Fixture.mint 13)) = some w' ∧
    w.db.deposits.get? 7 = some d ∧ w'.db.deposits.get? 7 = some d' ∧
    d.engineJobId = some 501 ∧ d'.engineJobId = none := by
  obtain ⟨w, hreach, hreported⟩ : ∃ w, Lts.Reaches (step Fixture.env) Lts.Any
      (World.init Fixture.requestedAt) w ∧
      Fixture.reported 2 (Fixture.mint 13) w = some (500, some 501, none, false) :=
    @Lts.exists_reaches_of_run _ _ _ _ _ _ _ Fixture.untilRebound _ _ (by decide +kernel)
  obtain ⟨t, s, w', d, d', ht, habout, hstep, hd, hd', hbefore, hafter, -⟩ :=
    Fixture.of_reported hreported
  exact ⟨w, w', t, s, d, d', ⟨_, hreach⟩, ht, habout, hstep, hd, hd', hbefore, hafter⟩

end GumServer
