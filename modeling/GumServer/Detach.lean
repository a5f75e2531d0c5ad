import GumServer.Keys

/-!
# A job that was left

`resubmit` and `retry_settlement` take a deposit off its engine job and queue a fresh `execute`
under a new key, "a new job rather than a replay of the failed one". The row of the old submission
is not theirs to delete. It can be there still: its worker died, timed out or could not delete it
after the job was recorded. Run again on a deposit without a job, it submits the old key, the
engine answers with the old job, and `mark_engine_submitted` takes it, since the column is null.

A row, a claimed job or an answer in flight is all there is that brings a job back. With none of
them around when the deposit leaves its job, none ever comes up again.
-/

namespace GumServer

/-! ## What would bring a job back -/

/-- The engine answers a submission of this payload with the job. -/
def Payload.replays (engine : Engine) (job : Uuid) : Payload → Bool
  | .submitExecute (some key) => engine.get? key == some job
  | _ => false

/-- A worker that will submit the job's key, or that has the job for an answer. -/
def Task.replays (engine : Engine) (job : Uuid) : Task → Bool
  | .worker oj .claimed => oj.payload.replays engine job
  | .worker _ (.submitting _ key) => engine.get? key == some job
  | .worker _ (.submitted _ answer _) => answer == job
  | _ => false

/-- Something queued, dead or alive, or in flight brings the job back when it runs. -/
def World.replays (w : World) (job : Uuid) : Bool :=
  w.db.outbox.rows.any (fun r => r.payload.replays w.engine job) ||
  w.tasks.values.any (Task.replays w.engine job)

/-- Nothing brings back a job the engine has. -/
structure Spent (w : World) (job : Uuid) : Prop where
  known : ∃ key, w.engine.get? key = some job
  rows : ∀ {row r}, w.db.outbox.get? row = some r → r.payload.replays w.engine job = false
  tasks : ∀ {name t}, w.tasks.get? name = some t → t.replays w.engine job = false

section Spent

variable {env : Env} {w w' : World} {a : Action} {job : Uuid}

theorem Spent.of_replays (hknown : ∃ key, w.engine.get? key = some job)
    (h : w.replays job = false) : Spent w job := by
  rw [World.replays, Bool.or_eq_false_iff, List.any_eq_false, List.any_eq_false] at h
  refine ⟨hknown, ?_, ?_⟩
  · intro row r hr
    exact Bool.eq_false_of_not_eq_true (h.1 r (Table.mem_of_get? hr))
  · intro name t ht
    exact Bool.eq_false_of_not_eq_true (h.2 t (KeyMap.mem_values_of_get? ht))

/-- A key that does not stand for the job never will: the job has a key, and new keys get new
jobs. -/
theorem Spent.key (hspent : Spent w job) (h : step env w a = some w') {key : String}
    (hkey : w.engine.get? key ≠ some job) : w'.engine.get? key ≠ some job := by
  rcases step_engine h with hsame | ⟨_, _, _, new, newJob, -, -, hnew, hput⟩
  · rw [hsame]
    exact hkey
  · rw [hput, KeyMap.get?_put]
    split
    · intro heq
      obtain ⟨known, hknown⟩ := hspent.known
      obtain rfl := Option.some.inj heq
      exact hnew (KeyMap.mem_values_of_get? hknown)
    · exact hkey

theorem Spent.payload (hspent : Spent w job) (h : step env w a = some w') {payload : Payload}
    (hp : payload.replays w.engine job = false) : payload.replays w'.engine job = false := by
  cases payload with
  | submitExecute key =>
    cases key with
    | none => rfl
    | some key => exact beq_eq_false_iff_ne.mpr (hspent.key h (beq_eq_false_iff_ne.mp hp))
  | _ => rfl

theorem Spent.task (hspent : Spent w job) (h : step env w a = some w') {t : Task}
    (ht : t.replays w.engine job = false) : t.replays w'.engine job = false := by
  cases t with
  | worker oj stage =>
    cases stage with
    | claimed => exact hspent.payload h ht
    | submitting d key => exact beq_eq_false_iff_ne.mpr (hspent.key h (beq_eq_false_iff_ne.mp ht))
    | submitted d answer replayed => exact ht
    | _ => rfl
  | _ => rfl

/-- A worker that does not bring the job back does not come to. -/
theorem Spent.stage (hspent : Spent w job) (hkeys : KeysFit w) {name : ℕ} {oj : OutboxJob}
    {stage stage' : Stage} {input : Input} {write : Write} {engine' : Engine}
    (ht : w.tasks.get? name = some (.worker oj stage))
    (hstep : WorkerStep env w.db w.engine oj stage input write engine' (some stage')) :
    (Task.worker oj stage').replays w.engine job = false := by
  have hold := hspent.tasks ht
  cases stage' with
  | submitting d key =>
    obtain ⟨rfl, k, hpayload, heq⟩ := hstep.of_submitting
    obtain ⟨k', rfl, -⟩ := hkeys.jobs ht hpayload
    rw [heq k' rfl]
    rw [Task.replays, hpayload] at hold
    exact hold
  | submitted d answer replayed =>
    obtain ⟨key, rfl, -, hsubmit⟩ := hstep.of_submitted
    have hkey : w.engine.get? key ≠ some job := beq_eq_false_iff_ne.mp hold
    refine beq_eq_false_iff_ne.mpr ?_
    rintro rfl
    rcases (Worker.submit_accepted hsubmit).2 with hknown | hnew
    · exact hkey hknown
    · obtain ⟨known, hknown⟩ := hspent.known
      exact hnew (KeyMap.mem_values_of_get? hknown)
  | claimed => exact absurd hstep WorkerStep.ne_claimed
  | _ => rfl

/-- **A step brings no spent job back into the queue.** -/
theorem Spent.step (hspent : Spent w job) (hkeys : KeysFit w)
    (h : GumServer.step env w a = some w') : Spent w' job where
  known := by
    obtain ⟨key, hkey⟩ := hspent.known
    exact ⟨key, engine_mono h hkey⟩
  rows := by
    intro row r hr
    cases hpayload : r.payload with
    | submitExecute key =>
      rcases step_queued h hr hpayload with ⟨old, hold, hsame⟩ | ⟨d, hd, rfl, -⟩
      · exact hspent.payload h (hsame ▸ hspent.rows hold)
      · -- the engine does not know the new key yet
        refine hspent.payload h (beq_eq_false_iff_ne.mpr ?_)
        intro hkey
        exact not_issued hd (hkeys.engine hkey)
    | _ => rfl
  tasks := by
    intro name t ht
    cases t with
    | worker oj stage =>
      cases step_worker h ht with
      | kept ht => exact hspent.task h (hspent.tasks ht)
      | claimed r hr hjob ha =>
        rw [hjob]
        exact hspent.payload h (hspent.rows hr)
      | abandoned old stage error ht => rfl
      | advanced input write ht hcommits hstep => exact hspent.task h (hspent.stage hkeys ht hstep)
    | _ => rfl

/-- A deposit is off a job, and nothing brings it back. -/
structure Gone (w : World) (id job : Uuid) : Prop where
  spent : Spent w job
  row : ∀ {d}, w.db.deposits.get? id = some d → d.engineJobId ≠ some job

/-- **A step leaves a deposit off a job that is gone.** -/
theorem Gone.step {id : Uuid} (hgone : Gone w id job) (hkeys : KeysFit w)
    (h : GumServer.step env w a = some w') : Gone w' id job where
  spent := hgone.spent.step hkeys h
  row := by
    intro d' hd' hjob
    rcases step_bound h hd' hjob with ⟨d, hd, hold⟩ | ⟨name, oj, d, replayed, ht⟩
    · exact hgone.row hd hold
    · exact beq_eq_false_iff_ne.mp (hgone.spent.tasks ht) rfl

/-- And so does a run. -/
theorem Gone.run {id : Uuid} (hgone : Gone w id job) (hreach : Reachable env w)
    (hrun : Lts.Reaches (GumServer.step env) Lts.Any w w') : Gone w' id job := by
  obtain ⟨clock, hreach⟩ := hreach
  refine hrun.invariant (P := fun u => Gone u id job) hgone ?_
  intro u a u' hu hgone _ hstep
  exact hgone.step (KeysFit.reachable ⟨clock, hreach.trans hu⟩) hstep

end Spent

/-- **A deposit does not go back to a job it has left.** Take any run, and any step of it that
takes a deposit off an engine job while nothing queued or in flight carries the key of that job,
or the job. Whatever happens afterwards, the deposit is not bound to that job again. -/
theorem left_job_not_rebound (env : Env) (w w' w'' : World) (hreach : Reachable env w) (a : Action)
    (hstep : step env w a = some w') (hrun : Lts.Reaches (step env) Lts.Any w' w'') (id job : Uuid)
    (d d' d'' : Deposit) (hd : w.db.deposits.get? id = some d) (hbound : d.engineJobId = some job)
    (hok : w.replays job = false) (hd' : w'.db.deposits.get? id = some d')
    (hleft : d'.engineJobId = none) (hd'' : w''.db.deposits.get? id = some d'') :
    d''.engineJobId ≠ some job := by
  have hkeys := KeysFit.reachable hreach
  have hspent : Spent w job := .of_replays (hkeys.bound hd hbound) hok
  have hgone : Gone w' id job := by
    refine ⟨hspent.step hkeys hstep, ?_⟩
    intro e he
    obtain rfl := Option.some.inj (hd'.symm.trans he)
    rw [hleft]
    simp
  exact (hgone.run (hreach.tail hstep) hrun).row hd''

namespace Fixture

/-- The worker finalises its row, and the engine gives up on job 500. -/
def untilFinished : List Action := untilBound ++ [
  .advance 1 .go (mint 5),
  .engineEvent 3 jobExpired (some 7),
  .advance 3 .go (mint 6)]

/-- The same, with a worker that dies before it has deleted its row. -/
def untilDropped : List Action := untilBound ++ [
  .drop 1,
  .engineEvent 3 jobExpired (some 7),
  .advance 3 .go (mint 6)]

/-- After the resubmission, a worker takes the fresh row, and job 501. -/
def thenFresh : List Action := [
  .claim 4 (mint 7).job,
  .advance 4 (.load requestedAt) (mint 8),
  .advance 4 (.submit (.accepted 501)) (mint 9),
  .advance 4 .go (mint 10)]

/-- After the resubmission, a worker takes the row that was left behind, once its lock is up. -/
def thenStale : List Action := [
  .tick (later 120),
  .claim 4 (mint 1).job,
  .advance 4 (.load (later 120)) (mint 8),
  .advance 4 (.submit (.accepted 500)) (mint 9),
  .advance 4 .go (mint 10)]

/-- The resubmission, and what comes after it: the job of the deposit before it, whether something
brings that job back, its job after it, and its job in the end. -/
def resubmitted (rest : List Action) (w : World) :
    Option (Option Uuid × Bool × Option Uuid × Option Uuid) :=
  (w.db.deposits.get? 7).bind fun d => (step env w (.advance 3 .go (mint 7))).bind fun w' =>
    (w'.db.deposits.get? 7).bind fun d' =>
      (Lts.run (step env) (fun w a => decide (Lts.Any w a)) w' rest).bind fun w'' =>
        (w''.db.deposits.get? 7).map fun d'' =>
          (d.engineJobId, w.replays 500, d'.engineJobId, d''.engineJobId)

theorem of_resubmitted {rest : List Action} {w : World} {before after last : Option Uuid}
    {replays : Bool} (h : resubmitted rest w = some (before, replays, after, last)) :
    ∃ w' w'' d d' d'', w.db.deposits.get? 7 = some d ∧ d.engineJobId = before ∧
      w.replays 500 = replays ∧ step env w (.advance 3 .go (mint 7)) = some w' ∧
      w'.db.deposits.get? 7 = some d' ∧ d'.engineJobId = after ∧
      Lts.Reaches (step env) Lts.Any w' w'' ∧ w''.db.deposits.get? 7 = some d'' ∧
      d''.engineJobId = last := by
  obtain ⟨d, hd, h⟩ := Option.bind_eq_some_iff.mp h
  obtain ⟨w', hstep, h⟩ := Option.bind_eq_some_iff.mp h
  obtain ⟨d', hd', h⟩ := Option.bind_eq_some_iff.mp h
  obtain ⟨w'', hrun, h⟩ := Option.bind_eq_some_iff.mp h
  obtain ⟨d'', hd'', heq⟩ := Option.map_eq_some_iff.mp h
  obtain ⟨hbefore, hreplays, hafter, hlast⟩ := by simpa using heq
  exact ⟨w', w'', d, d', d'', hd, hbefore, hreplays, hstep, hd', hafter,
    Lts.reaches_of_run hrun, hd'', hlast⟩

end Fixture

/-- On the fixture's deposit, which leaves job 500 and is bound to job 501 in the end. -/
theorem left_job_not_rebound_fixture : ∃ w w' w'' d d' d'', Reachable Fixture.env w ∧
    w.db.deposits.get? 7 = some d ∧ d.engineJobId = some 500 ∧ w.replays 500 = false ∧
    step Fixture.env w (.advance 3 .go (Fixture.mint 7)) = some w' ∧
    w'.db.deposits.get? 7 = some d' ∧ d'.engineJobId = none ∧
    Lts.Reaches (step Fixture.env) Lts.Any w' w'' ∧ w''.db.deposits.get? 7 = some d'' ∧
    d''.engineJobId = some 501 ∧ d''.engineJobId ≠ some 500 := by
  obtain ⟨w, hreach, h⟩ : ∃ w, Lts.Reaches (step Fixture.env) Lts.Any
      (World.init Fixture.requestedAt) w ∧
      Fixture.resubmitted Fixture.thenFresh w = some (some 500, false, none, some 501) :=
    @Lts.exists_reaches_of_run _ _ _ _ _ _ _ Fixture.untilFinished _ _ (by decide +kernel)
  obtain ⟨w', w'', d, d', d'', hd, hbefore, hreplays, hstep, hd', hafter, hrun, hd'', hlast⟩ :=
    Fixture.of_resubmitted h
  have hreachable : Reachable Fixture.env w := ⟨_, hreach⟩
  exact ⟨w, w', w'', d, d', d'', hreachable, hd, hbefore, hreplays, hstep, hd', hafter, hrun, hd'',
    hlast, left_job_not_rebound Fixture.env w w' w'' hreachable _ hstep hrun 7 500 d d' d'' hd
      hbefore hreplays hd' hafter hd''⟩

/-- The row of the first submission outlives it, and takes the fixture's deposit back to job 500
after it has been resubmitted. -/
theorem left_job_rebound : ∃ w w' w'' d d' d'', Reachable Fixture.env w ∧
    w.db.deposits.get? 7 = some d ∧ d.engineJobId = some 500 ∧
    step Fixture.env w (.advance 3 .go (Fixture.mint 7)) = some w' ∧
    w'.db.deposits.get? 7 = some d' ∧ d'.engineJobId = none ∧
    Lts.Reaches (step Fixture.env) Lts.Any w' w'' ∧ w''.db.deposits.get? 7 = some d'' ∧
    d''.engineJobId = some 500 := by
  obtain ⟨w, hreach, h⟩ : ∃ w, Lts.Reaches (step Fixture.env) Lts.Any
      (World.init Fixture.requestedAt) w ∧
      Fixture.resubmitted Fixture.thenStale w = some (some 500, true, none, some 500) :=
    @Lts.exists_reaches_of_run _ _ _ _ _ _ _ Fixture.untilDropped _ _ (by decide +kernel)
  obtain ⟨w', w'', d, d', d'', hd, hbefore, -, hstep, hd', hafter, hrun, hd'', hlast⟩ :=
    Fixture.of_resubmitted h
  exact ⟨w, w', w'', d, d', d'', ⟨_, hreach⟩, hd, hbefore, hstep, hd', hafter, hrun, hd'', hlast⟩

end GumServer
