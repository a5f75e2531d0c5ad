import GumServer.Effects

/-!
# Jobs and their rows

A worker runs on a copy of the row it claimed. The row may change or go under it, but no other row
ever takes its id, so whatever is found under that id is the row the job was made from. With it
goes what each stage of a job implies: which kind of job it is, and whose deposit it holds.
-/

namespace GumServer

/-- What a stage says about its job. -/
def StageFits (job : OutboxJob) : Stage → Prop
  | .expiring d | .registering d | .registered d _ =>
    job.payload.kind = .registerWatch ∧ d.id = job.depositId
  | .refused _ => job.payload.kind = .registerWatch
  | .submitting d _ | .submitted d _ _ | .rejected d _ =>
    job.payload.kind = .submitExecute ∧ d.id = job.depositId
  | .delivering => job.payload.kind = .notifyApp
  | .claimed | .finishing _ | .rescheduling _ => True

/-- The jobs in flight fit their rows, and whatever has an id was given a minted one. -/
structure JobsFit (w : World) : Prop where
  deposits : ∀ {id d}, w.db.deposits.get? id = some d → id ∈ w.minted
  rows : ∀ {row r}, w.db.outbox.get? row = some r → row ∈ w.minted
  minted : ∀ {name job stage}, w.tasks.get? name = some (.worker job stage) → job.id ∈ w.minted
  stages : ∀ {name job stage}, w.tasks.get? name = some (.worker job stage) → StageFits job stage
  queued : ∀ {name job stage r}, w.tasks.get? name = some (.worker job stage) →
    w.db.outbox.get? job.id = some r → r.depositId = job.depositId ∧ r.payload = job.payload

namespace JobsFit

variable {env : Env} {w w' : World} {a : Action}

theorem not_minted {ids : List Uuid} (h : w.fresh ids = true) {id : Uuid} (hid : id ∈ ids) :
    id ∉ w.minted := by
  intro hmem
  rw [World.fresh, Bool.and_eq_true, List.all_eq_true] at h
  have := h.2 id hid
  simp [hmem] at this

/-- What a deposit was, before a step, unless the step created it. -/
theorem step_row_cases (h : step env w a = some w') {id : Uuid} {d' : Deposit}
    (hd' : w'.db.deposits.get? id = some d') :
    (∃ d, w.db.deposits.get? id = some d ∧ d' = (w.commits env a).row w.clock d) ∨
    ∃ new user d, insertDeposit new id user w.clock = some d ∧ id ∈ w'.minted ∧
      d' = { d with eventSeq := d.eventSeq + 1 } := by
  cases step_db h with
  | commit mint hfresh hdb hminted =>
    rw [hdb, Db.write_deposits, Option.map_eq_some_iff] at hd'
    obtain ⟨d, hd, hrow⟩ := hd'
    exact .inl ⟨d, hd, hrow.symm⟩
  | create c mint new user hinsert hfresh hdb hminted hcommits =>
    rw [hdb, World.created_deposits] at hd'
    split at hd'
    · next hid =>
      subst hid
      refine .inr ⟨new, user, c, hinsert, ?_, (Option.some.inj hd').symm⟩
      rw [hminted]
      exact List.mem_cons_self
    · rw [hcommits]
      exact .inl ⟨d', hd', rfl⟩
  | frame f hdeposits hevents hminted hkeeps houtbox hcommits hclaims =>
    rw [hdeposits] at hd'
    rw [hcommits]
    exact .inl ⟨d', hd', rfl⟩

/-- A new deposit is open, and bound to no job. -/
theorem step_row (h : step env w a = some w') {id : Uuid} {d' : Deposit}
    (hd' : w'.db.deposits.get? id = some d') :
    (∃ d, w.db.deposits.get? id = some d ∧ d' = (w.commits env a).row w.clock d) ∨
    (id ∈ w'.minted ∧ d'.status = .pending ∧ d'.engineJobId = none) := by
  rcases step_row_cases h hd' with hold | ⟨new, user, d, hinsert, hmint, rfl⟩
  · exact .inl hold
  · have hinserted := Inserted.of_insert hinsert
    exact .inr ⟨hmint, hinserted.status, hinserted.engineJobId⟩

/-- What a row of the outbox was, before a step, unless its id was just minted. -/
theorem row_before (h : step env w a = some w') {row : Uuid} {r : OutboxRow}
    (hr : w'.db.outbox.get? row = some r) :
    (∃ old, w.db.outbox.get? row = some old ∧ r.depositId = old.depositId ∧
      r.payload = old.payload) ∨ (row ∈ w'.minted ∧ row ∉ w.minted) := by
  cases step_db h with
  | commit mint hfresh hdb hminted =>
    rw [hdb] at hr
    rcases Db.write_outbox_new hr with ⟨old, hold, hleaves⟩ | ⟨hmint, -⟩
    · exact .inl ⟨old, hold, hleaves.depositId, hleaves.payload⟩
    · refine .inr ⟨?_, not_minted hfresh hmint⟩
      rw [hminted]
      exact List.mem_append_left _ hmint
  | create d mint new user hinsert hfresh hdb hminted hcommits =>
    rw [hdb, World.created_outbox] at hr
    split at hr
    · next hrow =>
      have hmem : row ∈ d.id :: mint.ids := by simp [Mint.ids, hrow]
      refine .inr ⟨?_, not_minted hfresh hmem⟩
      rw [hminted]
      exact List.mem_append_left _ hmem
    · exact .inl ⟨r, hr, rfl, rfl⟩
  | frame f hdeposits hevents hminted hkeeps houtbox hcommits hclaims =>
    rw [houtbox, Option.map_eq_some_iff] at hr
    obtain ⟨old, hold, rfl⟩ := hr
    obtain ⟨-, hkeep⟩ := hkeeps old
    exact .inl ⟨old, hold, hkeep.depositId, hkeep.payload⟩

theorem minted_mono (h : step env w a = some w') {id : Uuid} (hid : id ∈ w.minted) :
    id ∈ w'.minted := by
  cases step_db h with
  | commit mint hfresh hdb hminted =>
    rw [hminted]
    exact List.mem_append_right _ hid
  | create d mint new user hinsert hfresh hdb hminted hcommits =>
    rw [hminted]
    exact List.mem_append_right _ hid
  | frame f hdeposits hevents hminted hkeeps houtbox hcommits hclaims =>
    rw [hminted]
    exact hid

/-- A job in flight was claimed by this step, or was in flight before it. -/
theorem job_before (h : step env w a = some w') {name : ℕ} {job : OutboxJob} {stage : Stage}
    (ht : w'.tasks.get? name = some (.worker job stage)) :
    (∃ old stage, w.tasks.get? old = some (.worker job stage)) ∨
    ∃ r, w.db.outbox.get? r.id = some r ∧ job = World.jobOf r := by
  cases step_worker h ht with
  | kept ht => exact .inl ⟨_, _, ht⟩
  | claimed r hr hjob ha => exact .inr ⟨r, hr, hjob⟩
  | abandoned old stage error hold => exact .inl ⟨_, _, hold⟩
  | advanced input write ht hcommits hstep => exact .inl ⟨_, _, ht⟩

/-- A job reads a deposit of its own, or none. -/
theorem load_fits (db : Db) (now : DateTime) (job : OutboxJob) :
    StageFits job (Worker.load env db now job) := by
  have hid : ∀ d, db.deposits.get? job.depositId = some d → d.id = job.depositId :=
    fun d hd => Table.key_of_get? hd
  rw [Worker.load]
  split
  · next hpayload =>
    cases hd : db.deposits.get? job.depositId with
    | none => exact trivial
    | some d =>
      rw [Worker.loadRegister]
      split_ifs
      · exact trivial
      · exact ⟨by rw [hpayload]; rfl, hid d hd⟩
      · exact ⟨by rw [hpayload]; rfl, hid d hd⟩
      · exact trivial
  · next key hpayload =>
    cases hd : db.deposits.get? job.depositId with
    | none => exact trivial
    | some d =>
      rw [Worker.loadSubmit]
      split_ifs
      · exact trivial
      · exact trivial
      · exact ⟨by rw [hpayload]; rfl, hid d hd⟩
      · exact trivial
  · next url event deposit hpayload =>
    cases db.deposits.get? job.depositId with
    | none => exact trivial
    | some d =>
      rw [Worker.loadNotify]
      split
      · exact (by rw [hpayload]; rfl : job.payload.kind = .notifyApp)
      · exact trivial

/-- A worker's step keeps its stage in line with its job. -/
theorem stage_fits {db : Db} {engine engine' : Engine} {job : OutboxJob} {stage stage' : Stage}
    {input : Input} {write : Write} (hfits : StageFits job stage)
    (h : WorkerStep env db engine job stage input write engine' (some stage')) :
    StageFits job stage' := by
  cases h with
  | load now => exact load_fits db now job
  | retry _ _ error => exact trivial
  | watch d answer =>
    cases answer with
    | ok watch => exact hfits
    | rejected message => exact hfits.1
    | unavailable message => exact trivial
  | submit d key reply engine'' hsubmit =>
    cases reply with
    | accepted engineJob => exact hfits
    | lost engineJob error => exact trivial
    | rejected message => exact hfits
    | unavailable message => exact trivial
  | deliver => exact trivial
  | commit _ _ op id attempt hstatement end' hend => exact trivial

/-- **A step keeps the jobs in line with their rows.** -/
theorem step (hfit : JobsFit w) (h : GumServer.step env w a = some w') : JobsFit w' where
  deposits := by
    intro id d hd
    rcases step_row h hd with ⟨old, hold, -⟩ | ⟨hmint, -⟩
    · exact minted_mono h (hfit.deposits hold)
    · exact hmint
  rows := by
    intro row r hr
    rcases row_before h hr with ⟨old, hold, -⟩ | ⟨hmint, -⟩
    · exact minted_mono h (hfit.rows hold)
    · exact hmint
  minted := by
    intro name job stage ht
    rcases job_before h ht with ⟨old, stage', hold⟩ | ⟨r, hr, rfl⟩
    · exact minted_mono h (hfit.minted hold)
    · exact minted_mono h (hfit.rows hr)
  stages := by
    intro name job stage ht
    cases step_worker h ht with
    | kept ht => exact hfit.stages ht
    | claimed r hr hjob ha => exact trivial
    | abandoned old stage error ht => exact trivial
    | advanced input write ht hcommits hstep => exact stage_fits (hfit.stages ht) hstep
  queued := by
    intro name job stage r ht hr
    have hbefore : job.id ∈ w.minted ∧ ∀ old, w.db.outbox.get? job.id = some old →
        old.depositId = job.depositId ∧ old.payload = job.payload := by
      rcases job_before h ht with ⟨old, stage', hold⟩ | ⟨claimed, hclaimed, rfl⟩
      · exact ⟨hfit.minted hold, fun _ => hfit.queued hold⟩
      · refine ⟨hfit.rows hclaimed, ?_⟩
        intro old hold
        obtain rfl := Option.some.inj (hold.symm.trans hclaimed)
        exact ⟨rfl, rfl⟩
    rcases row_before h hr with ⟨old, hold, hdeposit, hpayload⟩ | ⟨-, hnew⟩
    · obtain ⟨hd, hp⟩ := hbefore.2 old hold
      exact ⟨hdeposit.trans hd, hpayload.trans hp⟩
    · exact absurd hbefore.1 hnew

theorem init (clock : DateTime) : JobsFit (World.init clock) where
  deposits h := by cases h
  rows h := by cases h
  minted h := by cases h
  stages h := by cases h
  queued h := by cases h

/-- The jobs fit their rows in every state of every run. -/
theorem reachable (h : Reachable env w) : JobsFit w := by
  obtain ⟨clock, hreach⟩ := h
  exact hreach.invariant (init clock) fun _ hfit _ hstep => hfit.step hstep

/-- A deposit is there after a step, as the step's write leaves it: no new one takes its id. -/
theorem row_after (hfit : JobsFit w) (h : GumServer.step env w a = some w') {id : Uuid}
    {d : Deposit} (hd : w.db.deposits.get? id = some d) :
    w'.db.deposits.get? id = some ((w.commits env a).row w.clock d) := by
  cases step_db h with
  | commit mint hfresh hdb hminted => rw [hdb, Db.write_deposits, hd, Option.map_some]
  | create c mint new user hinsert hfresh hdb hminted hcommits =>
    rw [hdb, World.created_deposits, if_neg, hd, hcommits]
    · rfl
    · rintro rfl
      exact not_minted hfresh List.mem_cons_self (hfit.deposits hd)
  | frame f hdeposits hevents hminted hkeeps houtbox hcommits hclaims =>
    rw [hdeposits, hd, hcommits]
    rfl

end JobsFit

/-- **The rule for rows**: what a new deposit has, and every write leaves it with, every deposit has
in every state of every run. -/
theorem Reachable.row_invariant {env : Env} {w : World} {P : Deposit → Prop} (h : Reachable env w)
    (hnew : ∀ {new id userId now d}, insertDeposit new id userId now = some d →
      P { d with eventSeq := d.eventSeq + 1 })
    (hwrite : ∀ {d} (write : Write) (now : DateTime), P d → P (write.row now d)) {id : Uuid}
    {d : Deposit} (hd : w.db.deposits.get? id = some d) : P d := by
  obtain ⟨clock, hreach⟩ := h
  have hall : ∀ id d, w.db.deposits.get? id = some d → P d := by
    refine hreach.invariant (P := fun w => ∀ id d, w.db.deposits.get? id = some d → P d) ?_ ?_
    · intro id d hd
      cases hd
    · intro w a w' _ hall _ hstep id d' hd'
      rcases JobsFit.step_row_cases hstep hd' with ⟨d, hd, rfl⟩ | ⟨new, user, d, hinsert, -, rfl⟩
      · exact hwrite _ _ (hall id d hd)
      · exact hnew hinsert
  exact hall id d hd

end GumServer
