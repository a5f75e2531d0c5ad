import GumServer.Jobs

/-!
# No deposit is stranded

A paid deposit without an engine job needs a `submit_execute` row, and an open one without a watch
a `register_watch` row: nothing else would ever move it on. Rows go when a worker finalises them,
some time after it decided to, so the invariant is stronger than the claim: the row a deposit
needs is not only there, but no worker has made up its mind to delete or kill it.

It is kept because a worker decides so only when its deposit needs no such row at that moment, and
every transition into the need queues a row with a new id, which no worker has in hand.
-/

namespace GumServer

/-- The deposit waits for a job of this kind. -/
def Needs (d : Deposit) : JobKind → Prop
  | .submitExecute => d.status = .paid ∧ d.engineJobId = none
  | .registerWatch => d.status.isOpen = true ∧ d.watchId = none
  | .notifyApp => False

/-- An attempt that ends the life of its row. -/
def Attempt.isFinal : Attempt → Bool
  | .done | .dead _ => true
  | .retry _ => false

/-- A worker is about to delete or kill the row. -/
def Doomed (w : World) (row : Uuid) : Prop :=
  ∃ name job attempt, w.tasks.get? name = some (.worker job (.finishing attempt)) ∧
    attempt.isFinal = true ∧ job.id = row

/-- A row of this kind will be run for the deposit. -/
def Served (w : World) (id : Uuid) (kind : JobKind) : Prop :=
  ∃ r, w.db.outbox.get? r.id = some r ∧ r.depositId = id ∧ r.payload.kind = kind ∧
    r.deadAt = none ∧ ¬ Doomed w r.id

/-- Every deposit has the row it needs. -/
def NoneStranded (w : World) : Prop :=
  ∀ d kind, w.db.deposits.get? d.id = some d → Needs d kind → Served w d.id kind

/-! ## Who needs a row after a write -/

section Needs

variable {d d' : Deposit} {kind : JobKind}

theorem Needs.of_quiet (h : Needs d' kind) (hquiet : Quiet d d') : Needs d kind := by
  cases kind with
  | submitExecute => exact ⟨hquiet.status ▸ h.1, hquiet.engineJobId ▸ h.2⟩
  | registerWatch =>
    refine ⟨hquiet.status ▸ h.1, ?_⟩
    by_contra hwatch
    exact hwatch ((hquiet.watchId hwatch).symm.trans h.2)
  | notifyApp => exact h

/-- A transition into the need of a row queues one. -/
theorem Op.needs_row (op : Op) (now : DateTime) (h : Needs (op.transition.row now d) kind)
    (hguard : op.transition.guard d = true) (id : Uuid) (n : ℕ) :
    Needs d kind ∨ ∃ payload, op.transition.job id n = some payload ∧ payload.kind = kind := by
  cases kind with
  | submitExecute =>
    cases op with
    | applyThresholdReached confirmed data => exact .inr ⟨_, rfl, rfl⟩
    | retrySettlement => exact .inr ⟨_, rfl, rfl⟩
    | resubmit data => exact .inr ⟨_, rfl, rfl⟩
    | markEngineSubmitted job replayed => cases replayed <;> cases h.2
    | applyPaymentPending data => cases h.1
    | applyPaymentConfirmed confirmed data => cases h.1
    | applyExpired data => cases h.1
    | applySettled txHash blockNumber data => cases h.1
    | applyFailed code message txHash revertData data => cases h.1
    | failOpen code message => cases h.1
    | markWatchRegistered watch => exact .inl h
    | applyPaymentOrphaned data => exact .inl h
    | applySettlementIncluded txHash blockNumber data => exact .inl h
    | reregisterWatch => exact .inl h
  | registerWatch =>
    cases op with
    | reregisterWatch => exact .inr ⟨_, rfl, rfl⟩
    | markWatchRegistered watch => cases h.2
    | applyPaymentPending data => exact .inl ⟨hguard, h.2⟩
    | applyPaymentConfirmed confirmed data => exact .inl ⟨hguard, h.2⟩
    | applyThresholdReached confirmed data => cases h.1
    | retrySettlement => cases h.1
    | applyExpired data => cases h.1
    | applySettled txHash blockNumber data => cases h.1
    | applyFailed code message txHash revertData data => cases h.1
    | failOpen code message => cases h.1
    | markEngineSubmitted job replayed => cases replayed <;> exact .inl h
    | applyPaymentOrphaned data => exact .inl h
    | applySettlementIncluded txHash blockNumber data => exact .inl h
    | resubmit data => exact .inl h
  | notifyApp => exact h.elim

/-- After a worker's own transaction, whether or not it hit the row, its deposit needs the
worker's row no more. -/
theorem Worker.not_needs_of_statement {job : OutboxJob} {stage : Stage} {op : Op} {id : Uuid}
    {attempt : Attempt} (hstatement : Worker.statement job stage = some (op, id, attempt))
    (hfits : StageFits job stage) (hid : d.id = job.depositId) (now : DateTime) :
    ¬ Needs ((Write.tx (.of op id)).row now d) job.payload.kind := by
  intro h
  cases stage with
  | expiring e =>
    obtain ⟨rfl, rfl, rfl⟩ := by simpa [Worker.statement] using hstatement
    rw [hfits.1, Write.row_of _ now (hid.trans hfits.2.symm)] at h
    split at h
    · cases h.1
    · next hguard => exact hguard h.1
  | registered e watch =>
    obtain ⟨rfl, rfl, rfl⟩ := by simpa [Worker.statement] using hstatement
    rw [hfits.1, Write.row_of _ now (hid.trans hfits.2.symm)] at h
    split at h
    · cases h.2
    · next hguard => exact hguard (Option.isNone_iff_eq_none.mpr h.2)
  | refused message =>
    obtain ⟨rfl, rfl, rfl⟩ := by simpa [Worker.statement] using hstatement
    rw [show job.payload.kind = .registerWatch from hfits, Write.row_of _ now hid] at h
    split at h
    · cases h.1
    · next hguard => exact hguard h.1
  | submitted e engineJob replayed =>
    obtain ⟨rfl, rfl, rfl⟩ := by simpa [Worker.statement] using hstatement
    rw [hfits.1, Write.row_of _ now (hid.trans hfits.2.symm)] at h
    split at h
    · cases replayed <;> cases h.2
    · next hguard =>
      refine hguard ?_
      simp [Op.transition, markEngineSubmitted, wherePaid, h.1, h.2]
  | rejected e message =>
    obtain ⟨rfl, rfl, rfl⟩ := by simpa [Worker.statement] using hstatement
    rw [hfits.1, Write.row_of _ now (hid.trans hfits.2.symm)] at h
    split at h
    · cases h.1
    · next hguard => exact hguard (beq_iff_eq.mpr h.1)
  | claimed => cases hstatement
  | registering e => cases hstatement
  | submitting e key => cases hstatement
  | delivering => cases hstatement
  | finishing attempt => cases hstatement
  | rescheduling error => cases hstatement

/-- What a worker reads makes it give up its row only when its deposit does not need it. -/
theorem Worker.not_needs_of_load {env : Env} {db : Db} {job : OutboxJob} {attempt : Attempt}
    {clock : DateTime} (h : Worker.load env db clock job = .finishing attempt)
    (hfinal : attempt.isFinal = true) (hd : db.deposits.get? job.depositId = some d) :
    ¬ Needs d job.payload.kind := by
  intro hneeds
  rw [Worker.load, hd] at h
  split at h
  · next hpayload =>
    rw [hpayload] at hneeds
    obtain ⟨hopen, hwatch⟩ : d.status.isOpen = true ∧ d.watchId = none := hneeds
    have hterminal : d.status.isTerminal = false := by
      cases hs : d.status <;> rw [hs] at hopen <;> first | rfl | cases hopen
    rw [Worker.loadRegister, hwatch, hterminal] at h
    split_ifs at h
    · contradiction
    · cases h
      cases hfinal
  · next key hpayload =>
    rw [hpayload] at hneeds
    obtain ⟨hpaid, hjob⟩ : d.status = .paid ∧ d.engineJobId = none := hneeds
    rw [Worker.loadSubmit, hpaid, hjob] at h
    split_ifs at h
    · contradiction
    · contradiction
    · cases h
      cases hfinal
  · next url event deposit hpayload =>
    rw [hpayload] at hneeds
    exact hneeds

/-- A worker gives up its row only when its deposit does not need it. -/
theorem Worker.not_needs_of_final {env : Env} {db : Db} {engine engine' : Engine} {job : OutboxJob}
    {stage : Stage} {input : Input} {write : Write} {attempt : Attempt}
    {stage' : Stage} (h : WorkerStep env db engine job stage input write engine' (some stage'))
    (hstage : stage' = .finishing attempt) (hfinal : attempt.isFinal = true)
    (hfits : StageFits job stage) (hd : db.deposits.get? job.depositId = some d)
    (now : DateTime) : ¬ Needs (write.row now d) job.payload.kind := by
  cases h with
  | load clock => exact not_needs_of_load hstage hfinal hd
  | retry _ _ error =>
    cases hstage
    cases hfinal
  | watch e answer =>
    cases answer with
    | ok watch => cases hstage
    | rejected message => cases hstage
    | unavailable message =>
      cases hstage
      cases hfinal
  | submit e key reply engine'' hsubmit =>
    cases reply with
    | accepted engineJob => cases hstage
    | lost engineJob error =>
      cases hstage
      cases hfinal
    | rejected message => cases hstage
    | unavailable message =>
      cases hstage
      cases hfinal
  | deliver =>
    rw [show job.payload.kind = .notifyApp from hfits]
    exact fun h => h
  | commit _ _ op id attempt' hstatement end' hend =>
    exact not_needs_of_statement hstatement hfits (Table.key_of_get? hd) now

end Needs

/-! ## Which rows go -/

section Rows

variable {env : Env} {w w' : World} {a : Action}

/-- The row a write takes out of the outbox. -/
def Write.Ends (row : Uuid) : Write → Prop
  | .delete r | .markDead r _ => r = row
  | .nothing | .tx _ | .touch _ | .reschedule _ _ _ => False

/-- Rescheduling ends notifications only. -/
theorem Worker.retryLater_ends {job : OutboxJob} {now : DateTime} {delay : ℤ} {error : String}
    {row : Uuid} (h : (Worker.retryLater env job now delay error).Ends row) :
    row = job.id ∧ job.payload.kind = .notifyApp := by
  rw [Worker.retryLater] at h
  split at h
  · next hcond => exact ⟨h.symm, hcond.1⟩
  · exact h.elim

/-- A row that is deleted or killed was doomed, or a notification. -/
theorem doomed_of_ends (hfit : JobsFit w) {r : OutboxRow} (hr : w.db.outbox.get? r.id = some r)
    (hends : (w.commits env a).Ends r.id) : Doomed w r.id ∨ r.payload.kind = .notifyApp := by
  have hcommitter := w.committer env a
  generalize w.commits env a = write at hends hcommitter
  cases hcommitter with
  | nobody => exact hends.elim
  | operator id mint ha => exact hends.elim
  | handler name t t' ht hstep => cases hstep <;> exact hends.elim
  | worker name job stage input engine' stage' ht hstep =>
    have hnotify (hid : r.id = job.id) (hkind : job.payload.kind = .notifyApp) :
        r.payload.kind = .notifyApp := by
      rw [hid] at hr
      rw [(hfit.queued ht hr).2, hkind]
    cases hstep with
    | finalise attempt _ _ hwrite =>
      cases attempt with
      | done =>
        cases input with
        | go =>
          obtain rfl := Option.some.inj hwrite
          exact .inl ⟨name, job, .done, ht, rfl, hends⟩
        | _ => cases hwrite
      | dead error =>
        cases input with
        | go =>
          obtain rfl := Option.some.inj hwrite
          exact .inl ⟨name, job, .dead error, ht, rfl, hends⟩
        | _ => cases hwrite
      | retry error =>
        cases input with
        | schedule now delay =>
          obtain rfl := Option.some.inj hwrite
          obtain ⟨hid, hkind⟩ := Worker.retryLater_ends hends
          exact .inr (hnotify hid hkind)
        | _ => cases hwrite
    | reschedule error now delay =>
      obtain ⟨hid, hkind⟩ := Worker.retryLater_ends hends
      exact .inr (hnotify hid hkind)
    | _ => exact hends.elim

/-- A row is doomed by the worker that just decided so. -/
theorem doomed_before (h : step env w a = some w') {row : Uuid} (hdoomed : Doomed w' row) :
    Doomed w row ∨ ∃ name job stage input write engine' attempt,
      w.tasks.get? name = some (.worker job stage) ∧ w.commits env a = write ∧
      WorkerStep env w.db w.engine job stage input write engine' (some (.finishing attempt)) ∧
      attempt.isFinal = true ∧ job.id = row := by
  obtain ⟨name, job, attempt, ht, hfinal, hrow⟩ := hdoomed
  cases step_worker h ht with
  | kept hold => exact .inl ⟨name, job, attempt, hold, hfinal, hrow⟩
  | advanced input write hold hcommits hstep =>
    exact .inr ⟨name, job, _, input, write, w'.engine, attempt, hold, hcommits, hstep, hfinal, hrow⟩

/-- A row that a step does not end stays in the outbox. -/
theorem step_outbox_keeps (hfit : JobsFit w) (h : step env w a = some w') {r : OutboxRow}
    (hr : w.db.outbox.get? r.id = some r) (hends : ¬ (w.commits env a).Ends r.id) :
    ∃ r', w'.db.outbox.get? r.id = some r' ∧ Keeps r r' := by
  cases step_db h with
  | commit mint hfresh hdb hminted =>
    rw [hdb]
    refine Db.write_outbox_keeps hr ?_ ?_ ?_
    · intro hmem
      exact JobsFit.not_minted hfresh hmem (hfit.rows hr)
    · intro hwrite
      rw [hwrite] at hends
      exact hends rfl
    · intro error hwrite
      rw [hwrite] at hends
      exact hends rfl
  | create c mint new user hinsert hfresh hdb hminted hcommits =>
    refine ⟨r, ?_, .refl r⟩
    rw [hdb, World.created_outbox, if_neg]
    · exact hr
    · intro hjob
      have hmem : mint.job ∈ c.id :: mint.ids := List.mem_cons_of_mem _ mint.job_mem
      exact JobsFit.not_minted hfresh hmem (hjob ▸ hfit.rows hr)
  | frame f hdeposits hevents hminted hkeeps houtbox hcommits hclaims =>
    exact ⟨f r, by rw [houtbox, hr, Option.map_some], (hkeeps r).2⟩

/-- A row that a deposit is served by outlives the step, as long as the deposit still needs it. -/
theorem Served.kept (hfit : JobsFit w) (h : step env w a = some w') {d : Deposit} {kind : JobKind}
    (hserved : Served w d.id kind) (hd : w.db.deposits.get? d.id = some d)
    (hneeds : Needs ((w.commits env a).row w.clock d) kind) : Served w' d.id kind := by
  obtain ⟨r, hr, hdeposit, hkind, halive, hdoomed⟩ := hserved
  have hnotify : r.payload.kind ≠ .notifyApp := by
    rw [hkind]
    rintro rfl
    exact hneeds
  have hdoomed' : ¬ Doomed w' r.id := by
    intro hnew
    rcases doomed_before h hnew with hold | ⟨name, job, stage, input, write, engine', attempt, ht,
      hcommits, hstep, hfinal, hjob⟩
    · exact hdoomed hold
    · have hqueued : r.depositId = job.depositId ∧ r.payload = job.payload := by
        rw [← hjob] at hr
        exact hfit.queued ht hr
      have hload : w.db.deposits.get? job.depositId = some d := by
        rw [← hqueued.1, hdeposit]
        exact hd
      refine Worker.not_needs_of_final hstep rfl hfinal (hfit.stages ht) hload w.clock ?_
      rw [← hqueued.2, hkind, ← hcommits]
      exact hneeds
  have hends : ¬ (w.commits env a).Ends r.id := by
    intro hends
    rcases doomed_of_ends hfit hr hends with hd | hn
    · exact hdoomed hd
    · exact hnotify hn
  obtain ⟨r', hr', hkeep⟩ := step_outbox_keeps hfit h hr hends
  have hid := Table.key_of_get? hr'
  refine ⟨r', ?_, hkeep.depositId.trans hdeposit, ?_, hkeep.alive halive, ?_⟩
  · rw [hid]
    exact hr'
  · rw [hkeep.payload, hkind]
  · rw [hid]
    exact hdoomed'

/-- A row queued under a new id serves its deposit: no worker has it in hand. -/
theorem Served.queued (hfit : JobsFit w) (h : step env w a = some w') {row id : Uuid}
    {payload : Payload} (hnew : row ∉ w.minted)
    (hr : w'.db.outbox.get? row = some (Db.newRow w.clock row id payload)) :
    Served w' id payload.kind := by
  refine ⟨Db.newRow w.clock row id payload, hr, rfl, rfl, rfl, ?_⟩
  rintro ⟨name, job, attempt, ht, -, hjob⟩
  rw [Db.newRow_id] at hjob
  rcases JobsFit.job_before h ht with ⟨old, stage, hold⟩ | ⟨r, hr, rfl⟩
  · exact hnew (hjob ▸ hfit.minted hold)
  · exact hnew (hjob ▸ hfit.rows hr)

/-- **A step strands no deposit.** -/
theorem NoneStranded.step (hfit : JobsFit w) (hnone : NoneStranded w)
    (h : GumServer.step env w a = some w') : NoneStranded w' := by
  intro d' kind hd' hneeds
  cases step_db h with
  | commit mint hfresh hdb hminted =>
    rw [hdb, Db.write_deposits, Option.map_eq_some_iff] at hd'
    obtain ⟨d, hd, hrow⟩ := hd'
    have hid : d'.id = d.id := by rw [← hrow, Write.row_id]
    rw [hid] at hd ⊢
    rw [← hrow] at hneeds
    have hbefore : Needs d kind ∨ Served w' d.id kind := by
      rcases (w.commits env a).row_cases w.clock d with hquiet | ⟨op, hhits, heq⟩
      · exact .inl (hneeds.of_quiet hquiet)
      · have hbound := (w.commits env a).quiet_bound w.clock d
        rcases op.needs_row w.clock (heq ▸ hneeds) hhits.guard d.id (d.eventSeq + 1) with
          hneeds | ⟨payload, hjob, hkind⟩
        · exact .inl (hneeds.of_quiet hbound)
        · right
          rw [← hkind]
          refine .queued hfit h (JobsFit.not_minted hfresh mint.job_mem) ?_
          rw [hdb]
          exact Db.write_outbox_job hhits hd hjob
    rcases hbefore with hbefore | hserved
    · exact (hnone d kind hd hbefore).kept hfit h hd hneeds
    · exact hserved
  | create c mint new user hinsert hfresh hdb hminted hcommits =>
    rw [hdb, World.created_deposits] at hd'
    split at hd'
    · next hid =>
      obtain rfl := Option.some.inj hd'
      cases kind with
      | submitExecute =>
        have hpaid : c.status = .paid := hneeds.1
        rw [(Inserted.of_insert hinsert).status] at hpaid
        cases hpaid
      | registerWatch =>
        have hmem : mint.job ∈ c.id :: mint.ids := List.mem_cons_of_mem _ mint.job_mem
        refine @Served.queued env w w' a hfit h mint.job c.id .registerWatch
          (JobsFit.not_minted hfresh hmem) ?_
        rw [hdb, World.created_outbox, if_pos rfl]
      | notifyApp => exact hneeds.elim
    · refine (hnone d' kind hd' hneeds).kept hfit h hd' ?_
      rw [hcommits]
      exact hneeds
  | frame f hdeposits hevents hminted hkeeps houtbox hcommits hclaims =>
    rw [hdeposits] at hd'
    refine (hnone d' kind hd' hneeds).kept hfit h hd' ?_
    rw [hcommits]
    exact hneeds

theorem NoneStranded.init (clock : DateTime) : NoneStranded (World.init clock) := by
  intro d kind hd
  cases hd

/-- No deposit is stranded in any state of any run. -/
theorem NoneStranded.reachable (h : Reachable env w) : NoneStranded w := by
  obtain ⟨clock, hreach⟩ := h
  refine hreach.invariant (init clock) ?_
  intro w a w' hreach hnone _ hstep
  exact hnone.step (JobsFit.reachable ⟨clock, hreach⟩) hstep

end Rows

/-- **No deposit is stranded.** In every state of any interleaving of handlers, reconciler passes,
operators and workers, a paid deposit has an engine job or a live row to submit one, and an open
deposit has a watch or a live row to register one. -/
theorem no_deposit_stranded (env : Env) (w : World) (h : Reachable env w) (id : Uuid) (d : Deposit)
    (hd : w.db.deposits.get? id = some d) :
    (d.status = .paid → d.engineJobId ≠ none ∨
      ∃ r, w.db.outbox.get? r.id = some r ∧ r.depositId = id ∧
        r.payload.kind = .submitExecute ∧ r.deadAt = none) ∧
    (d.status = .pending ∨ d.status = .partialPaid → d.watchId ≠ none ∨
      ∃ r, w.db.outbox.get? r.id = some r ∧ r.depositId = id ∧
        r.payload.kind = .registerWatch ∧ r.deadAt = none) := by
  obtain rfl := Table.key_of_get? hd
  have hserved (kind : JobKind) (hneeds : Needs d kind) : ∃ r, w.db.outbox.get? r.id = some r ∧
      r.depositId = d.id ∧ r.payload.kind = kind ∧ r.deadAt = none := by
    obtain ⟨r, hr, hdeposit, hkind, halive, -⟩ := NoneStranded.reachable h d kind hd hneeds
    exact ⟨r, hr, hdeposit, hkind, halive⟩
  constructor
  · intro hpaid
    by_cases hjob : d.engineJobId = none
    · exact .inr (hserved .submitExecute ⟨hpaid, hjob⟩)
    · exact .inl hjob
  · intro hopen
    by_cases hwatch : d.watchId = none
    · refine .inr (hserved .registerWatch ⟨?_, hwatch⟩)
      rcases hopen with hs | hs <;> rw [hs] <;> rfl
    · exact .inl hwatch

/-- On the fixture's deposit, just paid: it is bound to no job, so it has a row. -/
theorem no_deposit_stranded_fixture : ∃ w d, Reachable Fixture.env w ∧
    w.db.deposits.get? 7 = some d ∧ d.status = .paid ∧ d.engineJobId = none ∧
    ∃ r, w.db.outbox.get? r.id = some r ∧ r.depositId = 7 ∧
      r.payload.kind = .submitExecute ∧ r.deadAt = none := by
  obtain ⟨w, hreach, hstatus⟩ : ∃ w, Lts.Reaches (step Fixture.env) Lts.Any
      (World.init Fixture.requestedAt) w ∧ Fixture.statusOf w = some (.paid, none) :=
    @Lts.exists_reaches_of_run _ _ _ _ _ _ _ Fixture.untilPaid _ _ (by decide +kernel)
  obtain ⟨d, hd, hvalues⟩ := Option.map_eq_some_iff.mp hstatus
  obtain ⟨hpaid, hjob⟩ := Prod.mk.inj hvalues
  have hreachable : Reachable Fixture.env w := ⟨Fixture.requestedAt, hreach⟩
  refine ⟨w, d, hreachable, hd, hpaid, hjob, ?_⟩
  rcases (no_deposit_stranded Fixture.env w hreachable 7 d hd).1 hpaid with hbound | hrow
  · exact absurd hjob hbound
  · exact hrow

end GumServer
