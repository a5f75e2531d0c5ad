import GumServer.Jobs

/-!
# Idempotency keys

The key of a settlement names its deposit and the sequence number of the event it was queued with.
A deposit reaches each number once, so a key is queued once; the row that carries it may run many
times. The engine answers a key it knows with the job it has for it, and gives a new key a new job:
a job stands for one key, and the key is one that was queued.
-/

namespace GumServer

/-- **A key names its deposit and its event.** -/
theorem executeKey_injective {id id' : Uuid} {n n' : ℕ} (h : executeKey id n = executeKey id' n') :
    id = id' ∧ n = n' := by
  have hlist := congrArg String.toList h
  simp only [executeKey, String.toList_append, List.append_assoc] at hlist
  obtain ⟨htext, hrest⟩ := List.append_inj (List.append_cancel_left hlist) (by simp)
  have hdigits := List.append_cancel_left hrest
  refine ⟨Uuid.text_injective (String.toList_injective htext), ?_⟩
  have hvalue (n : ℕ) : Nat.ofDigitChars 10 (toString n).toList 0 = n := by
    rw [show toString n = n.repr from rfl, Nat.repr_eq_ofList_toDigits, String.toList_ofList,
      Nat.ofDigitChars_ten_toDigits]
  rw [← hvalue n, hdigits, hvalue]

/-- A key with a number its deposit has reached. -/
def Issued (w : World) (key : String) : Prop :=
  ∃ id n d, w.db.deposits.get? id = some d ∧ n ≤ d.eventSeq ∧ key = executeKey id n

/-- The next key of a deposit is new. -/
theorem not_issued {w : World} {d : Deposit} (hd : w.db.deposits.get? d.id = some d) :
    ¬ Issued w (executeKey d.id (d.eventSeq + 1)) := by
  rintro ⟨id, n, d', hd', hle, hkey⟩
  obtain ⟨rfl, rfl⟩ := executeKey_injective hkey
  obtain rfl := Option.some.inj (hd.symm.trans hd')
  omega

/-- The keys in use: every submission has one, the engine has no others, and every job a deposit
is bound to, or is about to be, is the engine's answer to one. -/
structure KeysFit (w : World) : Prop where
  rows : ∀ {row r key}, w.db.outbox.get? row = some r → r.payload = .submitExecute key →
    ∃ k, key = some k ∧ Issued w k
  jobs : ∀ {name job stage key}, w.tasks.get? name = some (.worker job stage) →
    job.payload = .submitExecute key → ∃ k, key = some k ∧ Issued w k
  submitting : ∀ {name job d key}, w.tasks.get? name = some (.worker job (.submitting d key)) →
    Issued w key
  engine : ∀ {key engineJob}, w.engine.get? key = some engineJob → Issued w key
  submitted : ∀ {name job d engineJob replayed},
    w.tasks.get? name = some (.worker job (.submitted d engineJob replayed)) →
    ∃ key, w.engine.get? key = some engineJob
  bound : ∀ {id d engineJob}, w.db.deposits.get? id = some d → d.engineJobId = some engineJob →
    ∃ key, w.engine.get? key = some engineJob

/-! ## What a step queues, binds and answers -/

section Steps

variable {env : Env} {w w' : World} {a : Action}

/-- A transition queues a settlement under the key of its own event. -/
theorem Op.job_execute {op : Op} {id : Uuid} {n : ℕ} {key : Option String}
    (h : op.transition.job id n = some (.submitExecute key)) : key = some (executeKey id n) := by
  cases op <;> cases h <;> rfl

theorem Op.row_eventSeq_of_event {op : Op} {e : EventType × Value} (now : DateTime) (d : Deposit)
    (h : op.transition.event = some e) : (op.transition.row now d).eventSeq = d.eventSeq + 1 := by
  rw [Transition.row, h]
  exact congrArg (· + 1) (op.set_eventSeq now d)

/-- **Where a settlement comes from**: it was in the outbox before, or a transition of its deposit
queues it. -/
theorem step_execute (h : step env w a = some w') {row : Uuid} {r : OutboxRow} {key : Option String}
    (hr : w'.db.outbox.get? row = some r) (hkey : r.payload = .submitExecute key) :
    (∃ old, w.db.outbox.get? row = some old ∧ old.depositId = r.depositId ∧
      old.payload = .submitExecute key) ∨
    ∃ op d, (w.commits env a).Hits w.clock op d ∧ w.db.deposits.get? d.id = some d ∧
      r.depositId = d.id ∧ op.transition.job d.id (d.eventSeq + 1) = some (.submitExecute key) := by
  cases step_db h with
  | commit mint hfresh hdb hminted =>
    rw [hdb] at hr
    rcases Db.write_outbox_new hr with ⟨old, hold, hleaves⟩ | ⟨-, ⟨op, d, -, -, hnotice⟩ | ⟨op, d,
      payload, hhits, hd, hjob, hnew⟩⟩
    · exact .inl ⟨old, hold, hleaves.depositId.symm, hleaves.payload ▸ hkey⟩
    · have hkind := hnotice.kind
      rw [hkey] at hkind
      cases hkind
    · obtain rfl : payload = .submitExecute key := by rw [← hkey, hnew]; rfl
      exact .inr ⟨op, d, hhits, hd, by rw [hnew]; rfl, hjob⟩
  | create c mint new user hinsert hfresh hdb hminted hcommits =>
    rw [hdb, World.created_outbox] at hr
    split at hr
    · obtain rfl := Option.some.inj hr
      cases hkey
    · exact .inl ⟨r, hr, rfl, hkey⟩
  | frame f hdeposits hevents hminted hkeeps houtbox hcommits hclaims =>
    rw [houtbox, Option.map_eq_some_iff] at hr
    obtain ⟨old, hold, rfl⟩ := hr
    have hkeep := (hkeeps old).2
    exact .inl ⟨old, hold, hkeep.depositId.symm, hkeep.payload ▸ hkey⟩

/-- **A settlement is queued under the next key of its deposit.** -/
theorem step_queued (h : step env w a = some w') {row : Uuid} {r : OutboxRow} {key : Option String}
    (hr : w'.db.outbox.get? row = some r) (hkey : r.payload = .submitExecute key) :
    (∃ old, w.db.outbox.get? row = some old ∧ old.payload = .submitExecute key) ∨
    ∃ d, w.db.deposits.get? d.id = some d ∧ key = some (executeKey d.id (d.eventSeq + 1)) ∧
      d.eventSeq + 1 ≤ ((w.commits env a).row w.clock d).eventSeq := by
  rcases step_execute h hr hkey with ⟨old, hold, -, hpayload⟩ | ⟨op, d, hhits, hd, -, hjob⟩
  · exact .inl ⟨old, hold, hpayload⟩
  · obtain ⟨e, hevent⟩ := Op.event_of_job hjob
    refine .inr ⟨d, hd, Op.job_execute hjob, ?_⟩
    rw [hhits.row, Op.row_eventSeq_of_event _ _ hevent, (Write.quiet_bound _ _ d).eventSeq]

/-- The engine forgets no key. -/
theorem engine_mono (h : step env w a = some w') {key : String} {job : Uuid}
    (hkey : w.engine.get? key = some job) : w'.engine.get? key = some job := by
  rcases step_engine h with hsame | ⟨_, _, _, key', job', -, hnone, -, hput⟩
  · rw [hsame]
    exact hkey
  · rw [hput, KeyMap.get?_put_ne]
    · exact hkey
    · rintro rfl
      rw [hnone] at hkey
      cases hkey

/-- A deposit is bound to a job by `mark_engine_submitted` and nothing else. -/
theorem Op.job_of_row {op : Op} {now : DateTime} {d : Deposit} {job : Uuid}
    (h : (op.transition.row now d).engineJobId = some job) : d.engineJobId = some job ∨
      ∃ replayed, op = .markEngineSubmitted job replayed := by
  cases op with
  | markEngineSubmitted job' replayed =>
    right
    cases replayed <;> obtain rfl := Option.some.inj h <;> exact ⟨_, rfl⟩
  | retrySettlement => cases h
  | resubmit data => cases h
  | _ => exact .inl h

/-- **A job is recorded by the worker that was given it.** -/
theorem commits_mark {job id : Uuid} {replayed : Bool}
    (hop : (w.commits env a).op = some (.markEngineSubmitted job replayed, id)) :
    ∃ name oj d, w.tasks.get? name = some (.worker oj (.submitted d job replayed)) := by
  cases World.asks hop with
  | indexer name input mint event s _ ht hasked => cases indexerOp_asks hasked
  | settling name input mint claim job s outcome retries _ ht hasked => cases settlementOp_asks hasked
  | polled name input mint s watchId watch polledAt _ ht hasked => cases openOp_asks hasked
  | worker name input mint oj stage _ _ attempt ht hstatement =>
    cases stage <;> cases hstatement
    exact ⟨name, oj, _, ht⟩

/-- A job a deposit is bound to after a step was its own before, or a worker had it. -/
theorem step_bound (h : step env w a = some w') {id : Uuid} {d' : Deposit} {job : Uuid}
    (hd' : w'.db.deposits.get? id = some d') (hjob : d'.engineJobId = some job) :
    (∃ d, w.db.deposits.get? id = some d ∧ d.engineJobId = some job) ∨
    ∃ name oj d replayed, w.tasks.get? name = some (.worker oj (.submitted d job replayed)) := by
  rcases JobsFit.step_row h hd' with ⟨d, hd, rfl⟩ | ⟨-, -, hnone⟩
  · rcases (w.commits env a).row_cases w.clock d with hquiet | ⟨op, hhits, heq⟩
    · exact .inl ⟨d, hd, hquiet.engineJobId ▸ hjob⟩
    · rw [heq] at hjob
      rcases Op.job_of_row hjob with hjob | ⟨replayed, rfl⟩
      · rw [(Write.quiet_bound _ _ d).engineJobId] at hjob
        exact .inl ⟨d, hd, hjob⟩
      · obtain ⟨name, oj, s, ht⟩ := commits_mark hhits.carries
        exact .inr ⟨name, oj, s, replayed, ht⟩
  · rw [hnone] at hjob
    cases hjob

/-- Where a job is when it has read its deposit. -/
inductive Loaded (job : OutboxJob) : Stage → Prop where
  | finishing (attempt : Attempt) : Loaded job (.finishing attempt)
  | expiring (d : Deposit) : Loaded job (.expiring d)
  | registering (d : Deposit) : Loaded job (.registering d)
  /-- with the key of its row, if it has one -/
  | submitting (d : Deposit) (key : Option String) (hpayload : job.payload = .submitExecute key) :
      Loaded job (.submitting d (key.getD ("deposit:" ++ d.id.text ++ ":execute")))
  | delivering : Loaded job .delivering

theorem Worker.loaded (db : Db) (now : DateTime) (job : OutboxJob) :
    Loaded job (Worker.load env db now job) := by
  rw [Worker.load]
  split <;> cases db.deposits.get? job.depositId with
  | none => exact .finishing _
  | some d => ?_
  · rw [Worker.loadRegister]
    split_ifs
    · exact .finishing _
    · exact .expiring d
    · exact .registering d
    · exact .finishing _
  · next key hpayload =>
    rw [Worker.loadSubmit]
    split_ifs
    · exact .finishing _
    · exact .finishing _
    · exact .submitting d key hpayload
    · exact .finishing _
  · rw [Worker.loadNotify]
    split_ifs
    · exact .delivering
    · exact .finishing _

section Stages

variable {db : Db} {engine engine' : Engine} {job : OutboxJob} {stage : Stage} {input : Input}
  {write : Write} {d : Deposit}

/-- A worker that is about to submit has just read its deposit, and has the key of its row. -/
theorem WorkerStep.of_submitting {key : String}
    (h : WorkerStep env db engine job stage input write engine' (some (.submitting d key))) :
    stage = .claimed ∧ ∃ k, job.payload = .submitExecute k ∧ ∀ k', k = some k' → key = k' := by
  generalize hnew : some (Stage.submitting d key) = new at h
  cases h with
  | load now =>
    have hloaded := @Worker.loaded env db now job
    rw [← Option.some.inj hnew] at hloaded
    cases hloaded with
    | submitting d k hpayload =>
      refine ⟨rfl, k, hpayload, ?_⟩
      rintro k' rfl
      rfl
  | watch d' answer => cases answer <;> cases hnew
  | submit d' key' reply engine'' hsubmit => cases reply <;> cases hnew
  | _ => cases hnew

/-- A worker with a job to record has just been given it. -/
theorem WorkerStep.of_submitted {engineJob : Uuid} {replayed : Bool}
    (h : WorkerStep env db engine job stage input write engine'
      (some (.submitted d engineJob replayed))) :
    ∃ key, stage = .submitting d key ∧ replayed = (engine.get? key).isSome ∧
      Worker.submit engine key (.accepted engineJob) = some engine' := by
  generalize hnew : some (Stage.submitted d engineJob replayed) = new at h
  cases h with
  | load now =>
    have hloaded := @Worker.loaded env db now job
    rw [← Option.some.inj hnew] at hloaded
    cases hloaded
  | watch d' answer => cases answer <;> cases hnew
  | submit d' key reply engine'' hsubmit =>
    cases reply <;> cases hnew
    exact ⟨key, rfl, rfl, hsubmit⟩
  | _ => cases hnew

/-- No worker goes back to the start. -/
theorem WorkerStep.ne_claimed :
    ¬ WorkerStep env db engine job stage input write engine' (some .claimed) := by
  intro h
  generalize hnew : some Stage.claimed = new at h
  cases h with
  | load now =>
    have hloaded := @Worker.loaded env db now job
    rw [← Option.some.inj hnew] at hloaded
    cases hloaded
  | watch d' answer => cases answer <;> cases hnew
  | submit d' key reply engine'' hsubmit => cases reply <;> cases hnew
  | _ => cases hnew

end Stages

end Steps

/-! ## Runs -/

section Runs

variable {env : Env} {w w' : World} {a : Action}

/-- A key stays issued. -/
theorem Issued.step {key : String} (hissued : Issued w key) (hfit : JobsFit w)
    (h : GumServer.step env w a = some w') : Issued w' key := by
  obtain ⟨id, n, d, hd, hle, hkey⟩ := hissued
  exact ⟨id, n, _, hfit.row_after h hd, hle.trans (Write.le_row_eventSeq _ _ d), hkey⟩

/-- **A step keeps the keys in order.** -/
theorem KeysFit.step (hkeys : KeysFit w) (hfit : JobsFit w)
    (h : GumServer.step env w a = some w') : KeysFit w' where
  rows := by
    intro row r key hr hkey
    rcases step_queued h hr hkey with ⟨old, hold, hpayload⟩ | ⟨d, hd, rfl, hle⟩
    · obtain ⟨k, rfl, hissued⟩ := hkeys.rows hold hpayload
      exact ⟨k, rfl, hissued.step hfit h⟩
    · exact ⟨_, rfl, d.id, _, _, hfit.row_after h hd, hle, rfl⟩
  jobs := by
    intro name job stage key ht hkey
    rcases JobsFit.job_before h ht with ⟨old, stage', hold⟩ | ⟨r, hr, rfl⟩
    · obtain ⟨k, rfl, hissued⟩ := hkeys.jobs hold hkey
      exact ⟨k, rfl, hissued.step hfit h⟩
    · obtain ⟨k, rfl, hissued⟩ := hkeys.rows hr hkey
      exact ⟨k, rfl, hissued.step hfit h⟩
  submitting := by
    intro name job d key ht
    cases step_worker h ht with
    | kept ht => exact (hkeys.submitting ht).step hfit h
    | advanced input write ht hcommits hstep =>
      obtain ⟨-, k, hpayload, heq⟩ := hstep.of_submitting
      obtain ⟨k', rfl, hissued⟩ := hkeys.jobs ht hpayload
      rw [heq k' rfl]
      exact hissued.step hfit h
  engine := by
    intro key engineJob hkey
    rcases step_engine h with hsame | ⟨name, job, d, new, newJob, ht, -, -, hput⟩
    · rw [hsame] at hkey
      exact (hkeys.engine hkey).step hfit h
    · rw [hput, KeyMap.get?_put] at hkey
      split at hkey
      · next heq =>
        rw [heq]
        exact (hkeys.submitting ht).step hfit h
      · exact (hkeys.engine hkey).step hfit h
  submitted := by
    intro name job d engineJob replayed ht
    cases step_worker h ht with
    | kept ht =>
      obtain ⟨key, hkey⟩ := hkeys.submitted ht
      exact ⟨key, engine_mono h hkey⟩
    | advanced input write ht hcommits hstep =>
      obtain ⟨key, -, -, hsubmit⟩ := hstep.of_submitted
      exact ⟨key, (Worker.submit_accepted hsubmit).1⟩
  bound := by
    intro id d engineJob hd hjob
    rcases step_bound h hd hjob with ⟨old, hold, hjob⟩ | ⟨name, oj, s, replayed, ht⟩
    · obtain ⟨key, hkey⟩ := hkeys.bound hold hjob
      exact ⟨key, engine_mono h hkey⟩
    · obtain ⟨key, hkey⟩ := hkeys.submitted ht
      exact ⟨key, engine_mono h hkey⟩

theorem KeysFit.init (clock : DateTime) : KeysFit (World.init clock) where
  rows h := by cases h
  jobs h := by cases h
  submitting h := by cases h
  engine h := by cases h
  submitted h := by cases h
  bound h := by cases h

/-- The keys are in order in every state of every run. -/
theorem KeysFit.reachable (h : Reachable env w) : KeysFit w := by
  obtain ⟨clock, hreach⟩ := h
  refine hreach.invariant (init clock) ?_
  intro w a w' hreach hkeys _ hstep
  exact hkeys.step (JobsFit.reachable ⟨clock, hreach⟩) hstep

end Runs

end GumServer
