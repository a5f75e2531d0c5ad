import GumServer.Alone
import GumServer.Notify

/-!
# No event is lost on its way to the app

The app hears of an event through a row of the outbox: queued in the transaction that records the
event, claimed by any number of workers one after the other, put off after each failure. A worker
deletes the row once the app has answered with success, and gives it up once it has grown too old.
Nothing else ends it: workers that crash or outlive their lock leave it where it is.

So at any time an event with a webhook has been delivered, or is in the outbox still; and it lies
there dead only after a worker gave it up for its age (`notifications_delivered`). That a worker
never finds the owner of its deposit missing is part of it: the database keeps them together.
-/

namespace GumServer

/-! ## Owners -/

/-- Deposits have their owners, and the rows of the outbox and the jobs in flight have their
deposits. -/
structure ForeignKeys (w : World) : Prop where
  owners : ∀ {id d}, w.db.deposits.get? id = some d → (w.db.users.get? d.userId).isSome = true
  rows : ∀ {row r}, w.db.outbox.get? row = some r →
    (w.db.deposits.get? r.depositId).isSome = true
  jobs : ∀ {name job stage}, w.tasks.get? name = some (.worker job stage) →
    (w.db.deposits.get? job.depositId).isSome = true

/-- A row names its owner and its webhook for good. -/
theorem Op.set_webhook (op : Op) (now : DateTime) (d : Deposit) :
    (op.transition.set now d).userId = d.userId ∧
      (op.transition.set now d).webhookUrl = d.webhookUrl := by
  cases op <;> exact ⟨rfl, rfl⟩

theorem Op.row_webhook (op : Op) (now : DateTime) (d : Deposit) :
    (op.transition.row now d).userId = d.userId ∧
      (op.transition.row now d).webhookUrl = d.webhookUrl := by
  rw [Transition.row]
  split <;> exact op.set_webhook now d

theorem Write.row_webhook (write : Write) (now : DateTime) (d : Deposit) :
    (write.row now d).userId = d.userId ∧ (write.row now d).webhookUrl = d.webhookUrl := by
  rcases write.row_cases now d with hquiet | ⟨op, -, heq⟩
  · rw [hquiet.eq]
    exact ⟨rfl, rfl⟩
  · rw [heq, (op.row_webhook now _).1, (op.row_webhook now _).2, (write.quiet_bound now d).eq]
    exact ⟨rfl, rfl⟩

namespace ForeignKeys

variable {env : Env} {w w' : World} {a : Action}

/-- No user is ever removed. -/
theorem users_step (h : GumServer.step env w a = some w') {user : String}
    (huser : (w.db.users.get? user).isSome = true) : (w'.db.users.get? user).isSome = true := by
  by_cases ha : ∃ name url, a = .setUser name url
  · obtain ⟨name, url, rfl⟩ := ha
    obtain rfl := Option.some.inj h
    rw [KeyMap.get?_put]
    split
    · rfl
    · exact huser
  · rw [step_users h fun name url heq => ha ⟨name, url, heq⟩]
    exact huser

theorem deposits_step (hfit : JobsFit w) (h : GumServer.step env w a = some w') {id : Uuid}
    (hid : (w.db.deposits.get? id).isSome = true) : (w'.db.deposits.get? id).isSome = true := by
  obtain ⟨d, hd⟩ := Option.isSome_iff_exists.mp hid
  rw [hfit.row_after h hd]
  rfl

theorem owners_step (hkeys : ForeignKeys w) (h : GumServer.step env w a = some w') {id : Uuid}
    {d' : Deposit} (hd' : w'.db.deposits.get? id = some d') :
    (w'.db.users.get? d'.userId).isSome = true := by
  cases step_cases h with
  | create new user d mint hinsert hfresh hinsertable =>
    rw [World.created_deposits] at hd'
    rw [World.created_users]
    split at hd'
    · obtain rfl := Option.some.inj hd'
      exact (Bool.and_eq_true_iff.mp hinsertable).1
    · exact hkeys.owners hd'
  | advance task input mint t write engine next ht hnext hfresh =>
    obtain ⟨d, hd, rfl⟩ := Option.map_eq_some_iff.mp ((Db.write_deposits _ _ _ _ id).symm.trans hd')
    rw [(Write.row_webhook _ _ _).1]
    exact users_step h (hkeys.owners hd)
  | retrySettlement row mint hfresh =>
    have hwrite := w.db.write_deposits w.clock mint (.tx (.of .retrySettlement row)) id
    obtain ⟨d, hd, rfl⟩ := Option.map_eq_some_iff.mp (hwrite.symm.trans hd')
    rw [(Write.row_webhook _ _ _).1]
    exact users_step h (hkeys.owners hd)
  | setUser user url => exact users_step h (hkeys.owners hd')
  | _ => exact hkeys.owners hd'

theorem rows_step (hkeys : ForeignKeys w) (hfit : JobsFit w) (h : GumServer.step env w a = some w')
    {row : Uuid} {r : OutboxRow} (hr : w'.db.outbox.get? row = some r) :
    (w'.db.deposits.get? r.depositId).isSome = true := by
  cases step_db h with
  | commit mint hfresh hdb hminted =>
    rw [hdb] at hr
    have hdeposit (d : Deposit) (hd : w.db.deposits.get? d.id = some d) :
        (w'.db.deposits.get? d.id).isSome = true := by
      rw [hfit.row_after h hd]
      rfl
    rcases Db.write_outbox_new hr with ⟨old, hold, hleaves⟩ | ⟨-, ⟨op, d, -, hd, hnotice⟩ |
      ⟨op, d, payload, -, hd, -, rfl⟩⟩
    · rw [hleaves.depositId]
      exact deposits_step hfit h (hkeys.rows hold)
    · obtain ⟨url, type, data, -, rfl⟩ := hnotice
      rw [← (Write.quiet_bound _ w.clock d).id] at hd
      have hid := (w.commits env a).quiet_bound w.clock d
      exact hid.id ▸ hdeposit d (hid.id ▸ hd)
    · exact hdeposit d hd
  | create d mint new user hinsert hfresh hdb hminted hcommits =>
    rw [hdb, World.created_outbox] at hr
    split at hr
    · obtain rfl := Option.some.inj hr
      change (w'.db.deposits.get? d.id).isSome = true
      rw [hdb, World.created_deposits, if_pos rfl]
      rfl
    · exact deposits_step hfit h (hkeys.rows hr)
  | frame f hdeposits hevents hminted hkeeps houtbox hcommits hclaims =>
    rw [houtbox, Option.map_eq_some_iff] at hr
    obtain ⟨old, hold, rfl⟩ := hr
    rw [(hkeeps old).2.depositId]
    exact deposits_step hfit h (hkeys.rows hold)

/-- **A step keeps them together.** -/
theorem step (hkeys : ForeignKeys w) (hfit : JobsFit w) (h : GumServer.step env w a = some w') :
    ForeignKeys w' where
  owners := hkeys.owners_step h
  rows := hkeys.rows_step hfit h
  jobs := by
    intro name job stage ht
    rcases JobsFit.job_before h ht with ⟨old, stage', hold⟩ | ⟨r, hr, rfl⟩
    · exact deposits_step hfit h (hkeys.jobs hold)
    · exact deposits_step hfit h (hkeys.rows hr)

theorem init (clock : DateTime) : ForeignKeys (World.init clock) where
  owners h := by cases h
  rows h := by cases h
  jobs h := by cases h

theorem reachable (h : Reachable env w) : ForeignKeys w := by
  obtain ⟨clock, hreach⟩ := h
  refine hreach.invariant (init clock) ?_
  intro t b u hrun hkeys _ hstep
  exact hkeys.step (.reachable ⟨clock, hrun⟩) hstep

/-- **A notification finds its owner**: its worker goes on to deliver it. -/
theorem load_notify (hkeys : ForeignKeys w) {name : ℕ} {job : OutboxJob} {stage : Stage}
    (ht : w.tasks.get? name = some (.worker job stage)) (hkind : job.payload.kind = .notifyApp)
    (now : DateTime) : Worker.load env w.db now job = .delivering := by
  obtain ⟨d, hd⟩ := Option.isSome_iff_exists.mp (hkeys.jobs ht)
  cases hpayload : job.payload with
  | notifyApp url e snapshot =>
    rw [Worker.load, hpayload]
    dsimp only
    rw [hd, Worker.loadNotify, if_pos (hkeys.owners hd)]
  | registerWatch =>
    rw [hpayload] at hkind
    cases hkind
  | submitExecute key =>
    rw [hpayload] at hkind
    cases hkind

end ForeignKeys

/-! ## What a handler has read of an orphaned payment's row -/

/-- The row of an orphaned payment that a handler reads in a step, and the event it reads it for. -/
def World.reads (w : World) : Action → Option (IndexerEvent × Deposit)
  | .advance name .go _ =>
    match w.tasks.get? name with
    | some (.indexer event d none) => (orphanedRow w.db event d).map fun row => (event, row)
    | _ => none
  | _ => none

theorem orphanedRow_row {db : Db} {event : IndexerEvent} {d row : Deposit}
    (h : orphanedRow db event d = some row) : db.deposits.get? d.id = some row := by
  rw [orphanedRow] at h
  split at h
  · exact (Option.filter_eq_some_iff.mp h).1
  · cases h

/-- **What handlers have in hand** of the rows of orphaned payments was read in the run; and the
rows have the owner and the webhook they had. -/
def Remembers (steps : List (World × Action)) (w : World) : Prop :=
  ∀ {name event d s}, w.tasks.get? name = some (.indexer event d (some s)) →
    (∃ u b, (u, b) ∈ steps ∧ u.reads b = some (event, s) ∧ u.db.deposits.get? d.id = some s) ∧
    ∃ row, w.db.deposits.get? d.id = some row ∧ row.userId = s.userId ∧
      row.webhookUrl = s.webhookUrl

namespace Remembers

variable {env : Env} {steps : List (World × Action)} {w w' : World} {a : Action}

/-- The row that was read is still that owner's, with that webhook. -/
theorem row_step (hfit : JobsFit w) (h : GumServer.step env w a = some w') {id : Uuid}
    {s row : Deposit} (hrow : w.db.deposits.get? id = some row) (huser : row.userId = s.userId)
    (hwebhook : row.webhookUrl = s.webhookUrl) :
    ∃ row', w'.db.deposits.get? id = some row' ∧ row'.userId = s.userId ∧
      row'.webhookUrl = s.webhookUrl := by
  obtain ⟨huser', hwebhook'⟩ := (w.commits env a).row_webhook w.clock row
  exact ⟨_, hfit.row_after h hrow, huser'.trans huser, hwebhook'.trans hwebhook⟩

/-- **A step keeps it so.** -/
theorem step (hremembers : Remembers steps w) (hfit : JobsFit w)
    (h : GumServer.step env w a = some w') : Remembers (steps ++ [(w, a)]) w' := by
  intro name event d s ht
  cases step_tasks h ht with
  | kept hold =>
    obtain ⟨⟨u, b, hmem, hread⟩, row, hrow, huser, hwebhook⟩ := hremembers hold
    exact ⟨⟨u, b, List.mem_append_left _ hmem, hread⟩, row_step hfit h hrow huser hwebhook⟩
  | advanced input mint write engine ha hold hnext =>
    subst ha
    rcases Task.next_step hnext with ⟨hhandler, -⟩ | ⟨job, stage, stage', -, hstage, -⟩
    · generalize hlast : some (Task.indexer event d (some s)) = last at hhandler
      cases hhandler with
      | readOrphaned event d row hrow =>
        obtain ⟨rfl, rfl, ⟨⟩⟩ := Task.indexer.inj (Option.some.inj hlast)
        have hget := orphanedRow_row hrow
        have hreads : w.reads (.advance name .go mint) = some (event, s) := by
          simp only [World.reads, hold, hrow, Option.map_some]
        have hgo : input = .go := by
          cases input with
          | go => rfl
          | _ => cases hnext
        subst hgo
        refine ⟨⟨w, _, List.mem_append_right _ (List.mem_singleton_self _), hreads, hget⟩, ?_⟩
        exact row_step hfit h hget rfl rfl
      | applyOpen d watchId watch polledAt t' ht' => rcases ht' with rfl | rfl <;> cases hlast
      | _ => cases hlast
    · cases stage' <;> cases hstage

theorem of_trace {clock : DateTime}
    (h : Lts.Trace (GumServer.step env) (World.init clock) steps w) : Remembers steps w := by
  induction h with
  | nil =>
    intro name event d s ht
    cases ht
  | concat hrun hstep ih => exact ih.step (JobsFit.reachable ⟨clock, hrun.reaches⟩) hstep

end Remembers

/-- Only an orphaned payment is recorded with a row that was read before, by the handler that has
read it. -/
theorem Asks.seen {env : Env} {w : World} {a : Action} {op : Op} {id : Uuid} (h : Asks env w a op id) :
    op.transition.seen = none ∨ ∃ name event d s data, op = .applyPaymentOrphaned data (some s) ∧
      w.tasks.get? name = some (.indexer event d (some s)) ∧ d.id = id ∧
      indexerOp env.readers.lib event (some s) = some op := by
  cases h with
  | @indexer name input mint event d op seen ht hop =>
    rcases (indexerOp_asks hop).seen with hunseen | ⟨data, rfl⟩
    · exact .inl hunseen
    · cases seen with
      | none => exact .inl rfl
      | some s => exact .inr ⟨name, event, d, s, data, rfl, ht, rfl, hop⟩
  | settling name input mint claim job s outcome retries op ht hop =>
    cases settlementOp_asks hop <;> exact .inl rfl
  | polled name input mint s watchId watch polledAt op ht hop =>
    cases openOp_asks hop <;> exact .inl rfl
  | worker name input mint job stage op id attempt ht hstatement =>
    cases stage <;> cases hstatement <;> exact .inl rfl
  | _ => exact .inl rfl

/-! ## What is queued with an event -/

theorem Db.webhookUrlFor_congr {db db' : Db} (h : db'.users = db.users) (d : Deposit) :
    db'.webhookUrlFor d = db.webhookUrlFor d := by
  rw [webhookUrlFor, webhookUrlFor, h]

/-- It is looked up by the owner and the webhook of a row, and by nothing else of it. -/
theorem Db.webhookUrlFor_of_same {db : Db} {s d : Deposit} (huser : s.userId = d.userId)
    (hwebhook : s.webhookUrl = d.webhookUrl) : db.webhookUrlFor s = db.webhookUrlFor d := by
  rw [webhookUrlFor, webhookUrlFor, huser, hwebhook]

/-- **The row a notification shows**: the one its event was recorded on, before it was counted; or,
of an orphaned payment, the one its handler had read when it was about to record it. -/
inductive Shows (env : Env) (before : List (World × Action)) (w : World) (e : DepositEvent)
    (s : Deposit) : Prop where
  | recorded (hrow : w.db.deposits.get? e.depositId = some { s with eventSeq := s.eventSeq + 1 }) :
      Shows env before w e s
  | read (u : World) (b : Action) (event : IndexerEvent) (hmem : (u, b) ∈ before)
      (hreads : u.reads b = some (event, s)) (hrow : u.db.deposits.get? e.depositId = some s)
      (hasks : indexerOp env.readers.lib event (some s) =
        some (.applyPaymentOrphaned e.data (some s)))
      (htype : e.eventType = .paymentOrphaned) : Shows env before w e s

section Steps

variable {env : Env} {w w' : World} {a : Action} {e : DepositEvent} {row : Uuid}
  {before : List (World × Action)}

/-- **The row a recorded event is queued with.** -/
theorem Remembers.shows (hremembers : Remembers before w) {op : Op} {d : Deposit}
    (hhits : (w.commits env a).Hits w.clock op d) (hd : w.db.deposits.get? d.id = some d)
    (hrecorded : w'.db.deposits.get? d.id = some { op.transition.set w.clock
      ((w.commits env a).bound w.clock d) with
      eventSeq := (op.transition.set w.clock ((w.commits env a).bound w.clock d)).eventSeq + 1 })
    (hid : e.depositId = d.id) (hevent : op.transition.event = some (e.eventType, e.data)) :
    Shows env before w' e (op.transition.snapshot w.clock ((w.commits env a).bound w.clock d)) ∧
    (op.transition.snapshot w.clock ((w.commits env a).bound w.clock d)).userId = d.userId ∧
    (op.transition.snapshot w.clock ((w.commits env a).bound w.clock d)).webhookUrl =
      d.webhookUrl := by
  have hbound := (w.commits env a).quiet_bound w.clock d
  rcases (World.asks hhits.carries).seen with hunseen | ⟨name, event, found, s, data, rfl, ht, hfound,
    hasks⟩
  · rw [Transition.snapshot_of_unseen hunseen, (op.set_webhook _ _).1, (op.set_webhook _ _).2,
      hbound.eq]
    refine ⟨.recorded ?_, rfl, rfl⟩
    rw [hid, hrecorded, hbound.eq]
  · obtain ⟨⟨u, b, hmem, hreads, hrow⟩, row, hnow, huser, hwebhook⟩ := hremembers ht
    obtain ⟨htype, hdata⟩ := Prod.mk.inj (Option.some.inj hevent)
    rw [hfound] at hrow hnow
    obtain rfl := Option.some.inj (hd.symm.trans hnow)
    refine ⟨.read u b event hmem hreads (hid ▸ hrow) ?_ htype.symm, huser.symm, hwebhook.symm⟩
    rw [← hdata]
    exact hasks

/-- The job an action delivers: the app has answered its worker with success. -/
def World.delivers (w : World) : Action → Option OutboxJob
  | .advance name (.deliver none) _ =>
    match w.tasks.get? name with
    | some (.worker job .delivering) => some job
    | _ => none
  | _ => none

/-- An action gives a row up: the attempt of its worker has failed, and the job is over the age. -/
def World.GivesUp (env : Env) (w : World) (a : Action) (row : Uuid) : Prop :=
  ∃ name job stage now delay mint, a = .advance name (.schedule now delay) mint ∧
    w.tasks.get? name = some (.worker job stage) ∧ job.id = row ∧
    env.maxAgeSecs < (now.toMicros - job.createdAt).tdiv 1000000

/-- A worker is done with a notification only by delivering it, and never calls it dead: no
statement is made for it, and its deposit has an owner. -/
theorem Worker.finishing_notice {db : Db} {engine engine' : Engine} {job : OutboxJob}
    {stage stage' : Stage} {input : Input} {write : Write} {attempt : Attempt}
    (h : WorkerStep env db engine job stage input write engine' (some stage'))
    (hstage : stage' = .finishing attempt) (hfits : StageFits job stage)
    (hkind : job.payload.kind = .notifyApp)
    (hload : ∀ now, Worker.load env db now job = .delivering) :
    (attempt = .done ∧ stage = .delivering ∧ input = .deliver none) ∨
      ∃ error, attempt = .retry error := by
  cases h with
  | load now =>
    rw [hload] at hstage
    cases hstage
  | retry _ _ error =>
    cases hstage
    exact .inr ⟨error, rfl⟩
  | watch d answer => cases hkind.symm.trans hfits.1
  | submit d key reply engine'' hsubmit => cases hkind.symm.trans hfits.1
  | deliver =>
    cases hstage
    exact .inl ⟨rfl, rfl, rfl⟩
  | commit _ _ op id attempt' hstatement end' hend =>
    cases stage with
    | expiring d => cases hkind.symm.trans hfits.1
    | registered d watch => cases hkind.symm.trans hfits.1
    | refused message =>
      have hregister : job.payload.kind = .registerWatch := hfits
      cases hkind.symm.trans hregister
    | submitted d engineJob replayed => cases hkind.symm.trans hfits.1
    | rejected d message => cases hkind.symm.trans hfits.1
    | claimed => cases hstatement
    | registering d => cases hstatement
    | submitting d key => cases hstatement
    | delivering => cases hstatement
    | finishing attempt => cases hstatement
    | rescheduling error => cases hstatement

/-- **A worker that has come to the end of a notification** came there before, has just delivered
it, or is to try again. -/
theorem finishing_came (hfit : JobsFit w) (hkeys : ForeignKeys w) (h : step env w a = some w')
    {name : ℕ} {job : OutboxJob} {attempt : Attempt}
    (ht : w'.tasks.get? name = some (.worker job (.finishing attempt)))
    (hkind : job.payload.kind = .notifyApp) :
    w.tasks.get? name = some (.worker job (.finishing attempt)) ∨
    (attempt = .done ∧ w.delivers a = some job) ∨ ∃ error, attempt = .retry error := by
  cases step_tasks h ht with
  | kept ht => exact .inl ht
  | advanced input mint write engine ha hold hnext =>
    subst ha
    rcases Task.next_step hnext with ⟨hstep, -⟩ | ⟨job', stage, next, rfl, hnext', hstep⟩
    · exact absurd hstep HandlerStep.not_worker
    · obtain ⟨stage', rfl, hworker⟩ := Option.map_eq_some_iff.mp hnext'.symm
      obtain ⟨rfl, rfl⟩ := Task.worker.inj hworker
      rcases Worker.finishing_notice hstep rfl (hfit.stages hold) hkind
        (fun now => hkeys.load_notify hold hkind now) with ⟨rfl, rfl, rfl⟩ | hretry
      · refine .inr (.inl ⟨rfl, ?_⟩)
        rw [World.delivers, hold]
      · exact .inr (.inr hretry)

/-- A worker that ends its row as it reschedules it gives it up. -/
theorem givesUp_of_retryLater {name : ℕ} {job : OutboxJob} {stage : Stage} {now : DateTime}
    {delay : ℤ} {error : String} (ht : w.tasks.get? name = some (.worker job stage)) (mint : Mint)
    (hends : (Worker.retryLater env job now delay error).Ends row) :
    w.GivesUp env (.advance name (.schedule now delay) mint) row ∧
      ∃ error', Worker.retryLater env job now delay error = .markDead row error' := by
  rw [Worker.retryLater] at hends ⊢
  split at hends
  · next hcond =>
    obtain rfl : job.id = row := hends
    rw [if_pos hcond]
    exact ⟨⟨name, job, stage, now, delay, mint, rfl, ht, rfl, hcond.2⟩, error, rfl⟩
  · exact hends.elim

/-- How a write about a row of the outbox comes about: by a worker of it, at its end. -/
inductive RowWrite (env : Env) (w : World) (a : Action) : Write → Prop where
  | done (name : ℕ) (job : OutboxJob)
      (ht : w.tasks.get? name = some (.worker job (.finishing .done))) :
      RowWrite env w a (.delete job.id)
  | dead (name : ℕ) (job : OutboxJob) (error : String)
      (ht : w.tasks.get? name = some (.worker job (.finishing (.dead error)))) :
      RowWrite env w a (.markDead job.id error)
  | later (name : ℕ) (job : OutboxJob) (stage : Stage) (now : DateTime) (delay : ℤ)
      (error : String) (mint : Mint) (ha : a = .advance name (.schedule now delay) mint)
      (ht : w.tasks.get? name = some (.worker job stage)) :
      RowWrite env w a (Worker.retryLater env job now delay error)

/-- **What a step writes**: nothing, a transaction, a stamp, or a row of the outbox. -/
theorem World.rowWrite (env : Env) (w : World) (a : Action) : w.commits env a = .nothing ∨
    (∃ tx, w.commits env a = .tx tx) ∨ (∃ id, w.commits env a = .touch id) ∨
    RowWrite env w a (w.commits env a) := by
  cases a with
  | advance name input mint =>
    cases ht : w.tasks.get? name with
    | none =>
      rw [World.commits, ht]
      exact .inl rfl
    | some t =>
      rcases hnext : t.next env w.db w.engine input with _ | ⟨write, engine', t'⟩
      · rw [World.commits, ht, Option.bind_some, hnext]
        exact .inl rfl
      · rw [World.commits_advance ht hnext]
        rcases Task.next_step hnext with ⟨hstep, -⟩ | ⟨job, stage, stage', rfl, -, hstep⟩
        · cases hstep with
          | touch id => exact .inr (.inr (.inl ⟨id, rfl⟩))
          | _ => first | exact .inl rfl | exact .inr (.inl ⟨_, rfl⟩)
        · cases hstep with
          | finalise attempt _ _ hwrite =>
            cases attempt with
            | done =>
              cases input with
              | go =>
                obtain rfl := Option.some.inj hwrite
                exact .inr (.inr (.inr (.done name job ht)))
              | _ => cases hwrite
            | dead error =>
              cases input with
              | go =>
                obtain rfl := Option.some.inj hwrite
                exact .inr (.inr (.inr (.dead name job error ht)))
              | _ => cases hwrite
            | retry error =>
              cases input with
              | schedule now delay =>
                obtain rfl := Option.some.inj hwrite
                exact .inr (.inr (.inr (.later name job _ now delay error mint rfl ht)))
              | _ => cases hwrite
          | reschedule error now delay =>
            exact .inr (.inr (.inr (.later name job _ now delay error mint rfl ht)))
          | commit _ _ op id attempt => exact .inr (.inl ⟨_, rfl⟩)
          | _ => exact .inl rfl
  | retrySettlement id mint => exact .inr (.inl ⟨_, rfl⟩)
  | _ => exact .inl rfl

/-- **Whoever ends a row** is a worker of it: one that is done with it or calls it dead, or one that
gives it up. -/
theorem ender (hends : (w.commits env a).Ends row) :
    (∃ name job, w.tasks.get? name = some (.worker job (.finishing .done)) ∧ job.id = row ∧
      w.commits env a = .delete row) ∨
    (∃ name job error, w.tasks.get? name = some (.worker job (.finishing (.dead error))) ∧
      job.id = row) ∨
    (w.GivesUp env a row ∧ ∃ error, w.commits env a = .markDead row error) := by
  rcases w.rowWrite env a with hwrite | ⟨tx, hwrite⟩ | ⟨id, hwrite⟩ | hwrite
  · rw [hwrite] at hends
    exact hends.elim
  · rw [hwrite] at hends
    exact hends.elim
  · rw [hwrite] at hends
    exact hends.elim
  · generalize w.commits env a = write at hwrite hends ⊢
    cases hwrite with
    | done name job ht =>
      obtain rfl : job.id = row := hends
      exact .inl ⟨name, job, ht, rfl, rfl⟩
    | dead name job error ht => exact .inr (.inl ⟨name, job, error, ht, hends⟩)
    | later name job stage now delay error mint ha ht =>
      subst ha
      exact .inr (.inr (givesUp_of_retryLater ht mint hends))

/-- Only its deletion takes a row out of the outbox. -/
theorem step_outbox_stays (hfit : JobsFit w) (h : step env w a = some w') {r : OutboxRow}
    (hr : w.db.outbox.get? row = some r) (hdelete : w.commits env a ≠ .delete row) :
    ∃ r', w'.db.outbox.get? row = some r' ∧ r'.payload = r.payload := by
  obtain rfl := Table.key_of_get? hr
  by_cases hdead : ∃ error, w.commits env a = .markDead r.id error
  · obtain ⟨error, hwrite⟩ := hdead
    cases step_db h with
    | commit mint hfresh hdb hminted =>
      refine ⟨OutboxRow.kill w.clock error r, ?_, rfl⟩
      rw [hdb, hwrite, Db.write]
      dsimp only
      rw [Table.get?_modify _ _ _ (OutboxRow.kill w.clock error) (fun _ => rfl), hr,
        Option.map_some, if_pos rfl]
    | create d mint new user hinsert hfresh hdb hminted hcommits => cases hwrite.symm.trans hcommits
    | frame f hdeposits hevents hminted hkeeps houtbox hcommits hclaims =>
      cases hwrite.symm.trans hcommits
  · have hends : ¬ (w.commits env a).Ends r.id := by
      intro hends
      cases hwrite : w.commits env a with
      | delete k =>
        rw [hwrite] at hends hdelete
        exact hdelete (congrArg _ hends)
      | markDead k error =>
        rw [hwrite] at hends
        exact hdead ⟨error, hwrite.trans (congrArg (Write.markDead · error) hends)⟩
      | _ =>
        rw [hwrite] at hends
        exact hends.elim
    obtain ⟨r', hr', hkeep⟩ := step_outbox_keeps hfit h hr hends
    exact ⟨r', hr', hkeep.payload⟩

end Steps

/-! ## Along a run -/

/-- The app has taken a notification in a run. -/
def Delivered (steps : List (World × Action)) (payload : Payload) : Prop :=
  ∃ s ∈ steps, ∃ job, s.1.delivers s.2 = some job ∧ job.payload = payload

/-- A row was given up in a run. -/
def GivenUp (env : Env) (steps : List (World × Action)) (row : Uuid) : Prop :=
  ∃ s ∈ steps, s.1.GivesUp env s.2 row

/-- The outbox has a row with a payload. -/
def World.Queues (w : World) (payload : Payload) : Prop :=
  ∃ row r, w.db.outbox.get? row = some r ∧ r.payload = payload

/-- **The notifications of a run are accounted for**: those that have left the outbox were
delivered, and those that lie there dead were given up. -/
structure Accounted (env : Env) (steps : List (World × Action)) (w : World) : Prop where
  done : ∀ {name job}, w.tasks.get? name = some (.worker job (.finishing .done)) →
    job.payload.kind = .notifyApp → Delivered steps job.payload
  dead : ∀ {name job error}, w.tasks.get? name = some (.worker job (.finishing (.dead error))) →
    job.payload.kind ≠ .notifyApp
  rows : ∀ {row r}, w.db.outbox.get? row = some r → r.payload.kind = .notifyApp →
    r.deadAt = none ∨ GivenUp env steps row
  left : ∀ {t payload}, t ∈ Lts.visited steps w → t.Queues payload → payload.kind = .notifyApp →
    Delivered steps payload ∨ w.Queues payload

namespace Accounted

variable {env : Env} {steps : List (World × Action)} {w w' : World} {a : Action}

theorem delivered_mono {payload : Payload} (h : Delivered steps payload) (s : World × Action) :
    Delivered (steps ++ [s]) payload := by
  obtain ⟨s', hs', hdelivers⟩ := h
  exact ⟨s', List.mem_append_left _ hs', hdelivers⟩

theorem givenUp_mono {row : Uuid} (h : GivenUp env steps row) (s : World × Action) :
    GivenUp env (steps ++ [s]) row := by
  obtain ⟨s', hs', hgives⟩ := h
  exact ⟨s', List.mem_append_left _ hs', hgives⟩

theorem done_step (haccounted : Accounted env steps w) (hfit : JobsFit w) (hkeys : ForeignKeys w)
    (h : GumServer.step env w a = some w') {name : ℕ} {job : OutboxJob}
    (ht : w'.tasks.get? name = some (.worker job (.finishing .done)))
    (hkind : job.payload.kind = .notifyApp) : Delivered (steps ++ [(w, a)]) job.payload := by
  rcases finishing_came hfit hkeys h ht hkind with hold | ⟨-, hdelivers⟩ | ⟨error, hretry⟩
  · exact delivered_mono (haccounted.done hold hkind) _
  · exact ⟨(w, a), List.mem_append_right _ (List.mem_singleton_self _), job, hdelivers, rfl⟩
  · cases hretry

theorem dead_step (haccounted : Accounted env steps w) (hfit : JobsFit w) (hkeys : ForeignKeys w)
    (h : GumServer.step env w a = some w') {name : ℕ} {job : OutboxJob} {error : String}
    (ht : w'.tasks.get? name = some (.worker job (.finishing (.dead error)))) :
    job.payload.kind ≠ .notifyApp := by
  intro hkind
  rcases finishing_came hfit hkeys h ht hkind with hold | ⟨hdone, -⟩ | ⟨error, hretry⟩
  · exact haccounted.dead hold hkind
  · cases hdone
  · cases hretry

/-- A notification that is ended was delivered, or is given up. -/
theorem of_ends (haccounted : Accounted env steps w) (hfit : JobsFit w) {row : Uuid} {r : OutboxRow}
    (hr : w.db.outbox.get? row = some r) (hkind : r.payload.kind = .notifyApp)
    (hends : (w.commits env a).Ends row) :
    (w.commits env a = .delete row ∧ Delivered steps r.payload) ∨
    (w.GivesUp env a row ∧ ∃ error, w.commits env a = .markDead row error) := by
  rcases ender hends with ⟨name, job, ht, rfl, hwrite⟩ | ⟨name, job, error, ht, rfl⟩ | hgives
  · have hpayload := (hfit.queued ht hr).2
    rw [hpayload] at hkind ⊢
    exact .inl ⟨hwrite, haccounted.done ht hkind⟩
  · rw [(hfit.queued ht hr).2] at hkind
    exact absurd hkind (haccounted.dead ht)
  · exact .inr hgives

theorem rows_step (haccounted : Accounted env steps w) (hfit : JobsFit w)
    (h : GumServer.step env w a = some w') {row : Uuid} {r : OutboxRow}
    (hr : w'.db.outbox.get? row = some r) (hkind : r.payload.kind = .notifyApp) :
    r.deadAt = none ∨ GivenUp env (steps ++ [(w, a)]) row := by
  cases step_db h with
  | commit mint hfresh hdb hminted =>
    rw [hdb] at hr
    rcases Db.write_outbox_new hr with ⟨old, hold, hleaves⟩ | ⟨-, ⟨op, d, -, -, hnotice⟩ |
      ⟨op, d, payload, -, -, -, rfl⟩⟩
    · obtain rfl := Table.key_of_get? hold
      rw [hleaves.payload] at hkind
      rcases hleaves.dead with hsame | ⟨error, hwrite⟩
      · rw [hsame]
        rcases haccounted.rows hold hkind with halive | hgiven
        · exact .inl halive
        · exact .inr (givenUp_mono hgiven _)
      · have hends : (w.commits env a).Ends old.id := by
          rw [hwrite]
          rfl
        rcases haccounted.of_ends hfit hold hkind hends with ⟨hdelete, -⟩ | ⟨hgives, -⟩
        · cases hwrite.symm.trans hdelete
        · exact .inr ⟨(w, a), List.mem_append_right _ (List.mem_singleton_self _), hgives⟩
    · obtain ⟨url, type, data, -, rfl⟩ := hnotice
      exact .inl rfl
    · exact .inl rfl
  | create d mint new user hinsert hfresh hdb hminted hcommits =>
    rw [hdb, World.created_outbox] at hr
    split at hr
    · obtain rfl := Option.some.inj hr
      exact .inl rfl
    · rcases haccounted.rows hr hkind with halive | hgiven
      · exact .inl halive
      · exact .inr (givenUp_mono hgiven _)
  | frame f hdeposits hevents hminted hkeeps houtbox hcommits hclaims =>
    rw [houtbox, Option.map_eq_some_iff] at hr
    obtain ⟨old, hold, rfl⟩ := hr
    have hkeep := (hkeeps old).2
    rw [hkeep.payload] at hkind
    rcases haccounted.rows hold hkind with halive | hgiven
    · exact .inl (hkeep.alive halive)
    · exact .inr (givenUp_mono hgiven _)

theorem left_step (haccounted : Accounted env steps w) (hfit : JobsFit w)
    (h : GumServer.step env w a = some w') {t : World} {payload : Payload}
    (ht : t ∈ Lts.visited (steps ++ [(w, a)]) w') (hqueues : t.Queues payload)
    (hkind : payload.kind = .notifyApp) :
    Delivered (steps ++ [(w, a)]) payload ∨ w'.Queues payload := by
  have hbefore : t ∈ Lts.visited steps w ∨ t = w' := by
    simpa [Lts.visited, or_assoc] using ht
  rcases hbefore with hbefore | rfl
  · rcases haccounted.left hbefore hqueues hkind with hdelivered | ⟨row, r, hr, rfl⟩
    · exact .inl (delivered_mono hdelivered _)
    · by_cases hdelete : w.commits env a = .delete row
      · have hends : (w.commits env a).Ends row := by
          rw [hdelete]
          rfl
        rcases haccounted.of_ends hfit hr hkind hends with ⟨-, hdelivered⟩ | ⟨-, error, hdead⟩
        · exact .inl (delivered_mono hdelivered _)
        · cases hdelete.symm.trans hdead
      · obtain ⟨r', hr', hpayload⟩ := step_outbox_stays hfit h hr hdelete
        exact .inr ⟨row, r', hr', hpayload⟩
  · exact .inr hqueues

/-- **A step keeps the account.** -/
theorem step (haccounted : Accounted env steps w) (hreachable : Reachable env w)
    (h : GumServer.step env w a = some w') : Accounted env (steps ++ [(w, a)]) w' := by
  have hfit := JobsFit.reachable hreachable
  have hkeys := ForeignKeys.reachable hreachable
  exact {
    done := haccounted.done_step hfit hkeys h
    dead := haccounted.dead_step hfit hkeys h
    rows := haccounted.rows_step hfit h
    left := haccounted.left_step hfit h }

theorem init (clock : DateTime) : Accounted env [] (World.init clock) where
  done h := by cases h
  dead h := by cases h
  rows h := by cases h
  left ht hqueues _ := by
    obtain rfl := List.mem_singleton.mp ht
    exact .inr hqueues

theorem of_trace {clock : DateTime}
    (h : Lts.Trace (GumServer.step env) (World.init clock) steps w) : Accounted env steps w := by
  induction h with
  | nil => exact init clock
  | concat hrun hstep ih => exact ih.step ⟨clock, hrun.reaches⟩ hstep

end Accounted

end GumServer
