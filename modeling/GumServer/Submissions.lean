import GumServer.Keys
import GumServer.Timeline

/-!
# Submissions on the timeline

`mark_engine_submitted` binds a deposit to the engine's job and records `settlement_submitted`,
unless the engine called the submission a replay: then it was recorded before, or so it is taken to
be. But the engine knows a key from the moment it takes it, and the attempt that brought it may
have ended on the way back, by a crash, a timeout or a database error. The next attempt is a replay
all the same, and binds the deposit to a job that its timeline never tells of.

No job is told of twice: the engine gives a job as a new one once, and one worker has it
(`ToldOnce`).
-/

namespace GumServer

/-- Whether an event says that a job was submitted. -/
def DepositEvent.submits (job : Uuid) (e : DepositEvent) : Bool :=
  decide (e.eventType = .settlementSubmitted) &&
    decide (e.data.strField "engine_job_id" = some job.text)

/-- **The job of every deposit is told of**: whichever job a deposit is bound to, its timeline has
one `settlement_submitted` for it, and no more. -/
def SubmissionsTold (w : World) : Prop :=
  ∀ id d job, w.db.deposits.get? id = some d → d.engineJobId = some job →
    (w.db.timeline id).countP (DepositEvent.submits job) = 1

/-- A replay is recorded on a paid deposit that is bound to no job only if the job was told of
before. -/
def ReplaysTold (env : Env) (w : World) (a : Action) : Prop :=
  ∀ id d job, (w.commits env a).op = some (.markEngineSubmitted job true, id) →
    w.db.deposits.get? id = some d → d.status = .paid → d.engineJobId = none →
    ∃ e ∈ w.db.timeline id, e.submits job = true

/-! ## What a step records -/

section Steps

variable {env : Env} {w w' : World} {a : Action} {job : Uuid} {e : DepositEvent}

theorem DepositEvent.submits_iff : e.submits job = true ↔
    e.eventType = .settlementSubmitted ∧ e.data.strField "engine_job_id" = some job.text := by
  simp [DepositEvent.submits]

/-- **A job is told of by the mark of a new job**, and by nothing else. -/
theorem Op.submits_iff {op : Op} (h : op.transition.event = some (e.eventType, e.data)) :
    e.submits job = true ↔ op = .markEngineSubmitted job false := by
  constructor
  · intro hsubmits
    obtain ⟨htype, htext⟩ := DepositEvent.submits_iff.mp hsubmits
    rw [htype] at h
    cases op with
    | markEngineSubmitted job' replayed =>
      cases replayed with
      | true => cases h
      | false =>
        obtain ⟨-, hdata⟩ := Prod.mk.inj (Option.some.inj h)
        rw [← hdata] at htext
        obtain rfl := Uuid.text_injective (Option.some.inj htext)
        rfl
    | _ => cases h
  · rintro rfl
    obtain ⟨htype, hdata⟩ := Prod.mk.inj (Option.some.inj h)
    refine DepositEvent.submits_iff.mpr ⟨htype.symm, ?_⟩
    rw [← hdata]
    rfl

/-- A worker that has recorded its job is done with it. -/
theorem step_marked (h : step env w a = some w') {id : Uuid} {replayed : Bool}
    (hop : (w.commits env a).op = some (.markEngineSubmitted job replayed, id)) :
    ∃ name oj s attempt, w.tasks.get? name = some (.worker oj (.submitted s job replayed)) ∧
      w'.tasks.get? name = some (.worker oj (.finishing attempt)) := by
  cases World.asks hop with
  | indexer name input mint event s _ ht hasked => cases indexerOp_asks hasked
  | settling name input mint claim job s outcome retries _ ht hasked => cases settlementOp_asks hasked
  | polled name input mint s watchId watch polledAt _ ht hasked => cases openOp_asks hasked
  | worker name input mint oj stage _ _ attempt ht hstatement =>
    cases stage <;> cases hstatement
    next s =>
    cases step_cases h with
    | advance _ _ _ t write engine next ht' hnext hfresh =>
      obtain rfl := Option.some.inj (ht.symm.trans ht')
      rw [World.commits_advance ht hnext] at hop
      rcases Task.next_step hnext with ⟨hstep, -⟩ | ⟨oj', stage, stage', heq, rfl, hstep⟩
      · cases hstep
      · obtain ⟨rfl, rfl⟩ := Task.worker.inj heq
        cases hstep with
        | retry _ _ error => cases hop
        | commit _ _ op id attempt' hstatement end' hend =>
          refine ⟨name, oj, s, end', ht, ?_⟩
          exact KeyMap.get?_put_self _ _ _

/-- **A worker with a new job** had it before, or the engine has just made it. -/
theorem step_new_job (h : step env w a = some w') {name : ℕ} {oj : OutboxJob} {s : Deposit}
    (ht : w'.tasks.get? name = some (.worker oj (.submitted s job false))) :
    w.tasks.get? name = some (.worker oj (.submitted s job false)) ∨
    (∃ input mint, a = .advance name input mint) ∧ job ∉ w.engine.values := by
  cases step_tasks h ht with
  | kept ht => exact .inl ht
  | advanced input mint write engine ha hold hnext =>
    rcases Task.next_step hnext with ⟨hstep, -⟩ | ⟨oj', stage, stage', rfl, hnext', hstep⟩
    · exact absurd hstep HandlerStep.not_worker
    · cases stage' with
      | none => cases hnext'
      | some stage' =>
        obtain ⟨rfl, rfl⟩ := by simpa using hnext'
        obtain ⟨key, -, hreplayed, hsubmit⟩ := hstep.of_submitted
        refine .inr ⟨⟨input, mint, ha⟩, ?_⟩
        rcases (Worker.submit_accepted hsubmit).2 with hknown | hnew
        · rw [hknown] at hreplayed
          cases hreplayed
        · exact hnew

/-- What a step tells of a job, it has marked. -/
theorem step_told (h : step env w a = some w') : w'.db.events = w.db.events ∨
    ∃ e, w'.db.events = w.db.events ++ [e] ∧ ∀ job, e.submits job = true →
      ∃ id, (w.commits env a).op = some (.markEngineSubmitted job false, id) := by
  rcases step_recorded h with hsame | ⟨e, heq, hnew⟩
  · exact .inl hsame
  · refine .inr ⟨e, heq, ?_⟩
    intro job hsubmits
    rcases hnew with hcreated | ⟨op, d, hhits, -, -, hevent⟩
    · rw [DepositEvent.submits_iff, hcreated] at hsubmits
      cases hsubmits.1
    · obtain rfl := (Op.submits_iff hevent).mp hsubmits
      exact ⟨d.id, hhits.carries⟩

end Steps

/-! ## No job is told of twice -/

/-- What is told of a job: the engine has made it, and it is told of once, by the one worker that
was given it as a new one. -/
structure ToldOnce (w : World) : Prop where
  known : ∀ {e job}, e ∈ w.db.events → e.submits job = true → ∃ key, w.engine.get? key = some job
  alone : ∀ {name name' oj oj' s s' job},
    w.tasks.get? name = some (.worker oj (.submitted s job false)) →
    w.tasks.get? name' = some (.worker oj' (.submitted s' job false)) → name = name'
  untold : ∀ {name oj s job}, w.tasks.get? name = some (.worker oj (.submitted s job false)) →
    w.db.events.countP (DepositEvent.submits job) = 0
  once : ∀ job, w.db.events.countP (DepositEvent.submits job) ≤ 1

section Runs

variable {env : Env} {w w' : World} {a : Action}

theorem ToldOnce.init (clock : DateTime) : ToldOnce (World.init clock) where
  known h := by cases h
  alone h := by cases h
  untold h := by cases h
  once _ := Nat.zero_le 1

/-- **A step tells of no job twice.** -/
theorem ToldOnce.step (htold : ToldOnce w) (hkeys : KeysFit w)
    (h : GumServer.step env w a = some w') : ToldOnce w' where
  known := by
    intro e job he hsubmits
    rcases step_told h with hsame | ⟨new, heq, hnew⟩
    · rw [hsame] at he
      obtain ⟨key, hkey⟩ := htold.known he hsubmits
      exact ⟨key, engine_mono h hkey⟩
    · rw [heq] at he
      rcases List.mem_append.mp he with he | he
      · obtain ⟨key, hkey⟩ := htold.known he hsubmits
        exact ⟨key, engine_mono h hkey⟩
      · obtain rfl := List.mem_singleton.mp he
        obtain ⟨id, hop⟩ := hnew job hsubmits
        obtain ⟨name, oj, s, ht⟩ := commits_mark hop
        obtain ⟨key, hkey⟩ := hkeys.submitted ht
        exact ⟨key, engine_mono h hkey⟩
  alone := by
    intro name name' oj oj' s s' job ht ht'
    have hmade {n : ℕ} {oj : OutboxJob} {s : Deposit} (hnew : job ∉ w.engine.values)
        (ht : w.tasks.get? n = some (.worker oj (.submitted s job false))) : False := by
      obtain ⟨key, hkey⟩ := hkeys.submitted ht
      exact hnew (KeyMap.mem_values_of_get? hkey)
    rcases step_new_job h ht with hold | ⟨⟨input, mint, ha⟩, hnew⟩ <;>
      rcases step_new_job h ht' with hold' | ⟨⟨input', mint', ha'⟩, hnew'⟩
    · exact htold.alone hold hold'
    · exact (hmade hnew' hold).elim
    · exact (hmade hnew hold').elim
    · exact (Action.advance.inj (ha.symm.trans ha')).1
  untold := by
    intro name oj s job ht
    have hnone : w.db.events.countP (DepositEvent.submits job) = 0 := by
      rcases step_new_job h ht with hold | ⟨-, hnew⟩
      · exact htold.untold hold
      · refine List.countP_eq_zero.mpr ?_
        intro e he hsubmits
        obtain ⟨key, hkey⟩ := htold.known he hsubmits
        exact hnew (KeyMap.mem_values_of_get? hkey)
    rcases step_told h with hsame | ⟨e, heq, htells⟩
    · rw [hsame, hnone]
    · rw [heq, List.countP_append, hnone, List.countP_singleton, if_neg]
      intro hsubmits
      obtain ⟨id, hop⟩ := htells job hsubmits
      obtain ⟨name', oj', s', attempt, hbefore, hafter⟩ := step_marked h hop
      rcases step_new_job h ht with hold | ⟨-, hnew⟩
      · obtain rfl := htold.alone hold hbefore
        cases ht.symm.trans hafter
      · obtain ⟨key, hkey⟩ := hkeys.submitted hbefore
        exact hnew (KeyMap.mem_values_of_get? hkey)
  once := by
    intro job
    rcases step_told h with hsame | ⟨e, heq, htells⟩
    · rw [hsame]
      exact htold.once job
    · rw [heq, List.countP_append, List.countP_singleton]
      split
      · next hsubmits =>
        obtain ⟨id, hop⟩ := htells job hsubmits
        obtain ⟨name, oj, s, ht⟩ := commits_mark hop
        rw [htold.untold ht]
      · exact htold.once job

/-- No job is told of twice in any run. -/
theorem ToldOnce.reachable (h : Reachable env w) : ToldOnce w := by
  obtain ⟨clock, hreach⟩ := h
  refine hreach.invariant (init clock) ?_
  intro w a w' hreach htold _ hstep
  exact htold.step (KeysFit.reachable ⟨clock, hreach⟩) hstep

/-- On a timeline, too. -/
theorem Reachable.submits_le_one (h : Reachable env w) (id job : Uuid) :
    (w.db.timeline id).countP (DepositEvent.submits job) ≤ 1 := by
  refine Nat.le_trans ?_ ((ToldOnce.reachable h).once job)
  exact List.Sublist.countP_le List.filter_sublist

end Runs

/-! ## When every job is told of -/

section Conditions

variable {env : Env} {w w' : World} {a : Action}

/-- A timeline tells of the job its deposit is bound to. -/
def TellsOfJob (timeline : List DepositEvent) (d : Deposit) : Prop :=
  ∀ job, d.engineJobId = some job → ∃ e ∈ timeline, e.submits job = true

/-- **A transition keeps the job told of**, if it does not bind the deposit to a replay that is
not. -/
theorem TellsOfJob.of_hit {timeline : List DepositEvent} {d : Deposit} (h : TellsOfJob timeline d)
    (op : Op) (now : DateTime) (mint : Mint) (hguard : op.transition.guard d = true)
    (hreplay : ∀ job, op = .markEngineSubmitted job true → d.status = .paid →
      d.engineJobId = none → ∃ e ∈ timeline, e.submits job = true) :
    TellsOfJob (timeline ++ (op.transition.event.map fun e =>
      Db.eventOf now mint (op.transition.set now d) e.1 e.2).toList) (op.transition.row now d) := by
  intro job hjob
  have hkept : (∃ e ∈ timeline, e.submits job = true) → ∃ e ∈ timeline ++
      (op.transition.event.map fun e =>
        Db.eventOf now mint (op.transition.set now d) e.1 e.2).toList, e.submits job = true :=
    fun ⟨e, he, hsubmits⟩ => ⟨e, List.mem_append_left _ he, hsubmits⟩
  rcases Op.job_of_row hjob with hold | ⟨replayed, rfl⟩
  · exact hkept (h job hold)
  · cases replayed with
    | false =>
      refine ⟨_, List.mem_append_right _ List.mem_cons_self, ?_⟩
      exact (Op.submits_iff rfl).mpr rfl
    | true =>
      obtain ⟨hpaid, hfree⟩ := Bool.and_eq_true_iff.mp hguard
      rcases Bool.or_eq_true_iff.mp hfree with hnone | hsame
      · exact hkept (hreplay job rfl (eq_of_beq hpaid) (Option.isNone_iff_eq_none.mp hnone))
      · exact hkept (h job (eq_of_beq hsame))

/-- **In a run whose replays are told, every job is.** -/
theorem submissionsTold_of_reaches {clock : DateTime}
    (h : Lts.Reaches (step env) (ReplaysTold env) (World.init clock) w) : SubmissionsTold w := by
  intro id d job hd hjob
  obtain rfl := Table.key_of_get? hd
  have htells : TellsOfJob (w.db.timeline d.id) d := by
    refine timeline_invariant h ?_ ?_ ?_ hd
    · intro new id userId now d mint hinsert job hjob
      cases (Inserted.of_insert hinsert).engineJobId.symm.trans hjob
    · intro timeline d d' htells hquiet job hjob
      exact htells job (hquiet.engineJobId ▸ hjob)
    · intro w a op d mint hok hhits hd htells
      have hbound := (w.commits env a).quiet_bound w.clock d
      refine htells.of_hit op w.clock mint hhits.guard ?_
      rintro job rfl hpaid hnone
      exact hok d.id d job hhits.carries hd (hbound.status ▸ hpaid) (hbound.engineJobId ▸ hnone)
  obtain ⟨e, he, hsubmits⟩ := htells job hjob
  have hreachable : Reachable env w := ⟨clock, h.mono fun _ => trivial⟩
  refine Nat.le_antisymm (hreachable.submits_le_one _ job) ?_
  exact List.countP_pos_iff.mpr ⟨e, he, hsubmits⟩

/-- **A replay that was not told leaves a job untold.** -/
theorem replaysTold_of_step (hreachable : Reachable env w) (h : step env w a = some w')
    (htold : SubmissionsTold w') : ReplaysTold env w a := by
  intro id d job hop hd hpaid hnone
  obtain rfl := Table.key_of_get? hd
  have hbound := (w.commits env a).quiet_bound w.clock d
  have hhits : (w.commits env a).Hits w.clock (.markEngineSubmitted job true) d := by
    refine ⟨hop, Bool.and_eq_true_iff.mpr ⟨?_, Bool.or_eq_true_iff.mpr (.inl ?_)⟩⟩
    · exact beq_iff_eq.mpr (hbound.status.trans hpaid)
    · exact Option.isNone_iff_eq_none.mpr (hbound.engineJobId.trans hnone)
  have hrow := (JobsFit.reachable hreachable).row_after h hd
  rw [hhits.row] at hrow
  have hone := htold _ _ job hrow rfl
  obtain ⟨e, he, hsubmits⟩ := List.countP_pos_iff.mp (Nat.lt_of_lt_of_eq Nat.zero_lt_one hone.symm)
  obtain ⟨hmem, hid⟩ := List.mem_filter.mp he
  refine ⟨e, List.mem_filter.mpr ⟨?_, hid⟩, hsubmits⟩
  rcases step_told h with hsame | ⟨new, heq, hmarks⟩
  · exact hsame ▸ hmem
  · rw [heq] at hmem
    rcases List.mem_append.mp hmem with hmem | hmem
    · exact hmem
    · obtain rfl := List.mem_singleton.mp hmem
      obtain ⟨id, hmark⟩ := hmarks job hsubmits
      cases hop.symm.trans hmark

end Conditions

/-- **When every submission is told.** In a run, with whatever crashes, timeouts and database
errors, every state has one `settlement_submitted` for each job a deposit is bound to, on the
deposit's own timeline, exactly if every replay that was recorded on a paid deposit without a job
was of a job that had been told of before. -/
theorem submissions_told_iff (env : Env) (clock : DateTime) (steps : List (World × Action))
    (w : World) (h : Lts.Trace (step env) (World.init clock) steps w) :
    (∀ t ∈ Lts.visited steps w, SubmissionsTold t) ↔ ∀ t a, (t, a) ∈ steps → ReplaysTold env t a := by
  constructor
  · intro htold t a hmem
    obtain ⟨t', hreach, hstep, -⟩ := h.of_mem hmem
    obtain ⟨t'', hstep', hvisited⟩ := h.next_visited hmem
    obtain rfl := Option.some.inj (hstep.symm.trans hstep')
    exact replaysTold_of_step ⟨clock, hreach⟩ hstep (htold t' hvisited)
  · intro hreplays t ht
    obtain ⟨before, hbefore, htrace⟩ := h.of_visited ht
    refine submissionsTold_of_reaches (htrace.reaches_of ?_)
    intro s a hmem
    exact hreplays s a (hbefore.subset hmem)

namespace Fixture

/-- A worker submits the deposit, and ends before it records the job; its row is claimed again once
the lock has run out, and the engine answers with the job it has. -/
def untilReplayed : List Action := untilPaid ++ [
  .claim 1 (mint 1).job,
  .advance 1 (.load requestedAt) (mint 2),
  .advance 1 (.submit (.accepted 500)) (mint 3),
  .drop 1,
  .tick (later 100),
  .claim 2 (mint 1).job,
  .advance 2 (.load (later 100)) (mint 4),
  .advance 2 (.submit (.accepted 500)) (mint 5),
  .advance 2 .go (mint 6)]

/-- The job of the deposit, and how often its timeline tells of it. -/
def toldOf (w : World) (job : Uuid) : Option (Option Uuid × ℕ) :=
  (w.db.deposits.get? 7).map fun d =>
    (d.engineJobId, (w.db.timeline 7).countP (DepositEvent.submits job))

end Fixture

/-- On the fixture's deposit, which is submitted once and told of. -/
theorem submissions_told_fixture : ∃ steps w,
    Lts.Trace (step Fixture.env) (World.init Fixture.requestedAt) steps w ∧
    Fixture.toldOf w 500 = some (some 500, 1) ∧
    ((∀ t ∈ Lts.visited steps w, SubmissionsTold t) ↔
      ∀ t a, (t, a) ∈ steps → ReplaysTold Fixture.env t a) := by
  obtain ⟨steps, w, htrace, hfound⟩ : ∃ steps w,
      Lts.Trace (step Fixture.env) (World.init Fixture.requestedAt) steps w ∧
      Fixture.toldOf w 500 = some (some 500, 1) :=
    @Lts.exists_trace_of_trace _ _ _ _ _ Fixture.untilBound
      (fun p : List (World × Action) × World => Fixture.toldOf p.2 500) _ (by decide +kernel)
  exact ⟨steps, w, htrace, hfound, submissions_told_iff Fixture.env _ steps w htrace⟩

/-- After a crash between the submission and its record, the deposit is bound to a job that its
timeline does not tell of. -/
theorem replayed_submission_untold : ∃ w, Reachable Fixture.env w ∧ ¬ SubmissionsTold w := by
  obtain ⟨w, hw, hfound⟩ : ∃ w, Lts.Reaches (step Fixture.env) Lts.Any
      (World.init Fixture.requestedAt) w ∧ Fixture.toldOf w 500 = some (some 500, 0) :=
    @Lts.exists_reaches_of_run _ _ _ _ _ _ _ Fixture.untilReplayed _ _ (by decide +kernel)
  refine ⟨w, ⟨_, hw⟩, ?_⟩
  intro htold
  obtain ⟨d, hd, heq⟩ := Option.map_eq_some_iff.mp hfound
  obtain ⟨hjob, hcount⟩ := Prod.mk.inj heq
  have hone := htold 7 d 500 hd hjob
  rw [hcount] at hone
  cases hone

end GumServer
