import GumServer.Delivered
import GumServer.PublicHost

/-!
# Whom the server calls

A worker posts a notification to the URL in its row. The URL is the deposit's own, or else the
default of the deposit's owner when the event is recorded; each was checked when it was set, by
`Validator::validate` or by `account::update`. Nothing on the way puts another URL in: neither other
users' deposits and defaults, nor the retries and requeues of the outbox. And nothing but an event of
the deposit is ever posted, with the row it was recorded on; or, for an orphaned payment, with the
row that its handler had read just before.
-/

namespace GumServer

/-- The job whose notification an action posts, whatever the app answers. -/
def World.calls (w : World) : Action → Option OutboxJob
  | .advance name (.deliver _) _ =>
    match w.tasks.get? name with
    | some (.worker job .delivering) => some job
    | _ => none
  | _ => none

/-- The `INSERT` writes the owner and the webhook it was given. -/
theorem owner_of_insert {new : NewDeposit} {id : Uuid} {userId : String} {now : DateTime}
    {d : Deposit} (h : insertDeposit new id userId now = some d) :
    d.userId = userId ∧ d.webhookUrl = new.webhookUrl := by
  obtain ⟨columns, hcolumns, hread⟩ := Option.bind_eq_some_iff.mp h
  obtain ⟨amount, -, hbind⟩ := Option.bind_eq_some_iff.mp hcolumns
  obtain ⟨calls, -, hread⟩ := Option.bind_eq_some_iff.mp hread
  obtain ⟨expiresAt, -, hread⟩ := Option.bind_eq_some_iff.mp hread
  obtain rfl := Option.some.inj hbind
  rw [← Option.some.inj hread]
  exact ⟨rfl, rfl⟩

/-! ## What is queued -/

section Rows

variable {now : DateTime} {mint : Mint} {write : Write} {d : Deposit} {op : Op} {row : Uuid}
  {r : OutboxRow} {url : String} {e : DepositEvent} {s : Deposit}

/-- What a notification that a transition queues is made of: the event, the row it is recorded with,
and the webhook of that row. -/
structure Posts (db : Db) (now : DateTime) (mint : Mint) (op : Op) (d : Deposit) (url : String)
    (e : DepositEvent) (s : Deposit) : Prop where
  snapshot : s = op.transition.snapshot now d
  event : ∃ type data, op.transition.event = some (type, data) ∧
    e = Db.eventOf now mint (op.transition.set now d) type data
  facing : e.eventType.isAppFacing = true
  url : db.webhookUrlFor s = some url

/-- A notification in the outbox after an event is recorded. -/
theorem Db.recordEvent_posts {db : Db} {d snapshot : Deposit} {type : EventType} {data : Value}
    (h : (db.recordEvent now mint d type data snapshot).outbox.get? row = some r)
    (hpayload : r.payload = .notifyApp url e s) : db.outbox.get? row = some r ∨
      (s = snapshot ∧ e = eventOf now mint d type data ∧ type.isAppFacing = true ∧
        db.webhookUrlFor s = some url ∧ r.depositId = d.id) := by
  rw [recordEvent] at h
  split at h
  · next url' hurl =>
    split at h
    · next hfacing =>
      rw [enqueue] at h
      dsimp only at h
      rw [Table.get?_put] at h
      split at h
      · obtain rfl := Option.some.inj h
        obtain ⟨rfl, rfl, rfl⟩ := Payload.notifyApp.inj hpayload
        exact .inr ⟨rfl, rfl, hfacing, hurl, rfl⟩
      · exact .inl h
    · exact .inl h
  · exact .inl h

theorem Db.commit_posts {db : Db} (h : (db.commit now mint op.transition d).outbox.get? row = some r)
    (hpayload : r.payload = .notifyApp url e s) : db.outbox.get? row = some r ∨
      (r.depositId = d.id ∧ Posts db now mint op d url e s) := by
  rcases hevent : op.transition.event with _ | ⟨type, data⟩
  · rw [commit_of_no_event db now mint d op hevent] at h
    exact .inl h
  · rw [commit_of_event db now mint d op hevent] at h
    have hrecord : ((db.setRow now op.transition d).recordEvent now mint (op.transition.set now d)
        type data (op.transition.snapshot now d)).outbox.get? row = some r := by
      cases hjob : op.transition.job d.id (d.eventSeq + 1) with
      | none => rwa [hjob, queue] at h
      | some payload =>
        rw [hjob, queue, enqueue] at h
        dsimp only at h
        rw [Table.get?_put] at h
        split at h
        · obtain rfl := Option.some.inj h
          have hnone := Op.job_event hjob
          rw [show payload = .notifyApp url e s from hpayload] at hnone
          cases hnone
        · exact h
    rcases recordEvent_posts hrecord hpayload with hold | ⟨rfl, rfl, hfacing, hurl, hid⟩
    · exact .inl hold
    · exact .inr ⟨hid.trans (op.set_id now d), rfl, ⟨type, data, hevent, rfl⟩, hfacing, hurl⟩

theorem Posts.congr {db db' : Db} (h : Posts db now mint op d url e s)
    (husers : db'.users = db.users) : Posts db' now mint op d url e s :=
  { h with url := (Db.webhookUrlFor_congr husers s).trans h.url }

/-- **A notification that a write leaves in the outbox** was there, or it is of the event that the
write records. -/
theorem Db.write_posts {db : Db} (h : (db.write now mint write).outbox.get? row = some r)
    (hpayload : r.payload = .notifyApp url e s) :
    (∃ old, db.outbox.get? row = some old ∧ write.Leaves old r) ∨
    ∃ op d, write.Hits now op d ∧ db.deposits.get? d.id = some d ∧ r.depositId = d.id ∧
      Posts db now mint op (write.bound now d) url e s := by
  rcases write_outbox_new h with hold | ⟨-, ⟨op, d, hhits, hd, -⟩ |
    ⟨op, d, payload, hhits, hd, hjob, rfl⟩⟩
  · exact .inl hold
  · cases write with
    | tx tx =>
      have husers : (db.bound now tx).users = db.users := by
        obtain ⟨_ | _, _ | _, op⟩ := tx <;> rfl
      rw [Db.write, db.transact_of_hit now mint hhits.carries hd hhits.guard] at h
      rcases commit_posts h hpayload with hold | ⟨hid, hposts⟩
      · rw [bound_outbox] at hold
        exact .inl ⟨r, hold, .refl r⟩
      · rw [tx.bindRow_id] at hid
        exact .inr ⟨op, d, hhits, hd, hid, hposts.congr husers.symm⟩
    | nothing => cases hhits.carries
    | touch id => cases hhits.carries
    | reschedule row delay error => cases hhits.carries
    | markDead row error => cases hhits.carries
    | delete row => cases hhits.carries
  · -- the job of a transition is no notification
    have hnone := Op.job_event hjob
    rw [show payload = .notifyApp url e s from hpayload] at hnone
    cases hnone

end Rows

/-! ## Runs -/

/-- A URL was given for a deposit in a run: by the request it was created from, or, where that gave
none, as a default of the user who made it. -/
inductive Given (steps : List (World × Action)) (id : Uuid) (url : String) : Prop where
  | request (u : World) (new : NewDeposit) (user : String) (mint : Mint)
      (hcreate : (u, Action.create new user id mint) ∈ steps) (hurl : new.webhookUrl = some url) :
      Given steps id url
  | account (u u' : World) (new : NewDeposit) (user : String) (mint : Mint)
      (hcreate : (u, Action.create new user id mint) ∈ steps) (hnone : new.webhookUrl = none)
      (hset : (u', Action.setUser user (some url)) ∈ steps) : Given steps id url

/-- A notification reports what a step of the run has recorded of a deposit: an event for the app,
with the row as it was then, or as an orphaned payment's handler had read it, to the webhook that
applied then. -/
structure Reports (env : Env) (steps : List (World × Action)) (id : Uuid) (url : String)
    (e : DepositEvent) (s : Deposit) : Prop where
  recorded : ∃ before after t a t', steps = before ++ (t, a) :: after ∧ step env t a = some t' ∧
    t'.db.events = t.db.events ++ [e] ∧ Shows env before t' e s ∧ t'.db.webhookUrlFor s = some url
  deposit : e.depositId = id
  facing : e.eventType.isAppFacing = true
  given : Given steps id url

/-- **Every notification of a run reports something**, queued or in flight; and whatever webhook
applies to a deposit was given for it. -/
structure Answerable (env : Env) (steps : List (World × Action)) (w : World) : Prop where
  rows : ∀ {row r url e s}, w.db.outbox.get? row = some r → r.payload = .notifyApp url e s →
    Reports env steps r.depositId url e s
  jobs : ∀ {name job stage url e s}, w.tasks.get? name = some (.worker job stage) →
    job.payload = .notifyApp url e s → Reports env steps job.depositId url e s
  owners : ∀ {id d}, w.db.deposits.get? id = some d → ∃ u new mint,
    (u, Action.create new d.userId id mint) ∈ steps ∧ d.webhookUrl = new.webhookUrl
  defaults : ∀ {user url}, w.db.users.get? user = some (some url) →
    ∃ u, (u, Action.setUser user (some url)) ∈ steps

namespace Answerable

variable {env : Env} {steps : List (World × Action)} {w w' : World} {a : Action} {id : Uuid}
  {url : String} {e : DepositEvent} {s : Deposit}

theorem given_mono (h : Given steps id url) (last : World × Action) :
    Given (steps ++ [last]) id url := by
  cases h with
  | request u new user mint hcreate hurl =>
    exact .request u new user mint (List.mem_append_left _ hcreate) hurl
  | account u u' new user mint hcreate hnone hset =>
    exact .account u u' new user mint (List.mem_append_left _ hcreate) hnone
      (List.mem_append_left _ hset)

theorem reports_mono (h : Reports env steps id url e s) (last : World × Action) :
    Reports env (steps ++ [last]) id url e s := by
  obtain ⟨before, after, t, a, t', rfl, hrecorded⟩ := h.recorded
  refine ⟨⟨before, after ++ [last], t, a, t', ?_, hrecorded⟩, h.deposit, h.facing,
    given_mono h.given last⟩
  rw [List.append_assoc, List.cons_append]

/-- The webhook that applies to a deposit was given for it. -/
theorem given (h : Answerable env steps w) {d : Deposit} (hd : w.db.deposits.get? id = some d)
    (hurl : w.db.webhookUrlFor d = some url) : Given steps id url := by
  obtain ⟨u, new, mint, hcreate, hown⟩ := h.owners hd
  rw [Db.webhookUrlFor] at hurl
  split at hurl
  · exact .request u new d.userId mint hcreate (hown.symm.trans hurl)
  · next hnone =>
    obtain ⟨default, huser, rfl⟩ := Option.bind_eq_some_iff.mp hurl
    obtain ⟨u', hset⟩ := h.defaults huser
    refine .account u u' new d.userId mint hcreate ?_ hset
    rw [← hown]
    exact Option.not_isSome_iff_eq_none.mp hnone

theorem owners_step (h : Answerable env steps w) (hstep : GumServer.step env w a = some w')
    {d' : Deposit} (hd' : w'.db.deposits.get? id = some d') : ∃ u new mint,
      (u, Action.create new d'.userId id mint) ∈ steps ++ [(w, a)] ∧
        d'.webhookUrl = new.webhookUrl := by
  have hold {d : Deposit} (hd : w.db.deposits.get? id = some d) : ∃ u new mint,
      (u, Action.create new d.userId id mint) ∈ steps ++ [(w, a)] ∧
        d.webhookUrl = new.webhookUrl := by
    obtain ⟨u, new, mint, hmem, hown⟩ := h.owners hd
    exact ⟨u, new, mint, List.mem_append_left _ hmem, hown⟩
  have hwrite {write : Write} {mint : Mint}
      (hd' : (w.db.write w.clock mint write).deposits.get? id = some d') : ∃ u new mint,
      (u, Action.create new d'.userId id mint) ∈ steps ++ [(w, a)] ∧
        d'.webhookUrl = new.webhookUrl := by
    rw [Db.write_deposits, Option.map_eq_some_iff] at hd'
    obtain ⟨d, hd, rfl⟩ := hd'
    rw [(write.row_webhook w.clock d).1, (write.row_webhook w.clock d).2]
    exact hold hd
  cases step_cases hstep with
  | create new user d mint hinsert hfresh hinsertable =>
    rw [World.created_deposits] at hd'
    split at hd'
    · next hid =>
      subst hid
      obtain rfl := Option.some.inj hd'
      obtain ⟨huser, hown⟩ := owner_of_insert hinsert
      refine ⟨w, new, mint, ?_, hown⟩
      exact List.mem_append_right _ (List.mem_singleton.mpr (by rw [← huser]))
    · exact hold hd'
  | advance task input mint t write engine next ht hnext hfresh => exact hwrite hd'
  | retrySettlement row mint hfresh => exact @hwrite (.tx (.of .retrySettlement row)) mint hd'
  | _ => exact hold hd'

theorem defaults_step (h : Answerable env steps w) (hstep : GumServer.step env w a = some w')
    {user : String} (huser : w'.db.users.get? user = some (some url)) :
    ∃ u, (u, Action.setUser user (some url)) ∈ steps ++ [(w, a)] := by
  have hold (huser : w.db.users.get? user = some (some url)) :
      ∃ u, (u, Action.setUser user (some url)) ∈ steps ++ [(w, a)] := by
    obtain ⟨u, hmem⟩ := h.defaults huser
    exact ⟨u, List.mem_append_left _ hmem⟩
  by_cases ha : ∃ name default, a = .setUser name default
  · obtain ⟨name, default, rfl⟩ := ha
    obtain rfl := Option.some.inj hstep
    rw [KeyMap.get?_put] at huser
    split at huser
    · next hname =>
      obtain rfl := Option.some.inj huser
      exact ⟨w, List.mem_append_right _ (List.mem_singleton.mpr (by rw [hname]))⟩
    · exact hold huser
  · rw [step_users hstep fun name default heq => ha ⟨name, default, heq⟩] at huser
    exact hold huser

/-- What a write queues reports what it records. -/
theorem reports_of_posts (h : Answerable env steps w) (hremembers : Remembers steps w)
    (hstep : GumServer.step env w a = some w') {mint : Mint} (hdb : w'.db = w.db.write w.clock mint (w.commits env a)) {op : Op} {d : Deposit}
    (hhits : (w.commits env a).Hits w.clock op d) (hd : w.db.deposits.get? d.id = some d)
    (hposts : Posts w.db w.clock mint op ((w.commits env a).bound w.clock d) url e s) :
    Reports env (steps ++ [(w, a)]) d.id url e s := by
  have hbound := (w.commits env a).quiet_bound w.clock d
  obtain ⟨type, data, hevent, he⟩ := hposts.event
  have hid : e.depositId = d.id := by
    rw [he]
    exact (op.set_id _ _).trans hbound.id
  have hevents : w'.db.events = w.db.events ++ [e] := by
    rw [hdb, Db.write_events_eq hhits hd, hevent, he]
    rfl
  have hrow : w'.db.deposits.get? d.id = some { op.transition.set w.clock
      ((w.commits env a).bound w.clock d) with
      eventSeq := (op.transition.set w.clock ((w.commits env a).bound w.clock d)).eventSeq + 1 } := by
    rw [hdb, Db.write_deposits, hd, Option.map_some, hhits.row, Transition.row, hevent]
  have hrecords : op.transition.event = some (e.eventType, e.data) := by
    rw [hevent, he]
    rfl
  obtain ⟨hshows, huser, hwebhook⟩ := hremembers.shows hhits hd hrow hid hrecords
  rw [← hposts.snapshot] at hshows huser hwebhook
  have happlies : w.db.webhookUrlFor d = some url :=
    (Db.webhookUrlFor_of_same huser.symm hwebhook.symm).trans hposts.url
  refine ⟨⟨steps, [], w, a, w', rfl, hstep, hevents, hshows, ?_⟩, hid, hposts.facing,
    given_mono (h.given hd happlies) _⟩
  rw [Db.webhookUrlFor_congr (hdb ▸ Db.write_users (w.commits env a))]
  exact hposts.url

theorem rows_step (h : Answerable env steps w) (hremembers : Remembers steps w)
    (hstep : GumServer.step env w a = some w') {row : Uuid} {r : OutboxRow} (hr : w'.db.outbox.get? row = some r)
    (hpayload : r.payload = .notifyApp url e s) :
    Reports env (steps ++ [(w, a)]) r.depositId url e s := by
  cases step_db hstep with
  | commit mint hfresh hdb hminted =>
    rw [hdb] at hr
    rcases Db.write_posts hr hpayload with ⟨old, hold, hleaves⟩ | ⟨op, d, hhits, hd, hid, hposts⟩
    · rw [hleaves.depositId]
      exact reports_mono (h.rows hold (hleaves.payload.symm.trans hpayload)) _
    · rw [hid]
      exact h.reports_of_posts hremembers hstep hdb hhits hd hposts
  | create d mint new user hinsert hfresh hdb hminted hcommits =>
    rw [hdb, World.created_outbox] at hr
    split at hr
    · obtain rfl := Option.some.inj hr
      cases hpayload
    · exact reports_mono (h.rows hr hpayload) _
  | frame f hdeposits hevents hminted hkeeps houtbox hcommits hclaims =>
    rw [houtbox, Option.map_eq_some_iff] at hr
    obtain ⟨old, hold, rfl⟩ := hr
    have hkeep := (hkeeps old).2
    rw [hkeep.depositId]
    exact reports_mono (h.rows hold (hkeep.payload.symm.trans hpayload)) _

/-- **A step keeps the notifications answerable.** -/
theorem step (h : Answerable env steps w) (hremembers : Remembers steps w)
    (hstep : GumServer.step env w a = some w') : Answerable env (steps ++ [(w, a)]) w' where
  rows := h.rows_step hremembers hstep
  jobs := by
    intro name job stage url e s ht hpayload
    rcases JobsFit.job_before hstep ht with ⟨old, stage', hold⟩ | ⟨r, hr, rfl⟩
    · exact reports_mono (h.jobs hold hpayload) _
    · exact reports_mono (h.rows hr hpayload) _
  owners := h.owners_step hstep
  defaults := h.defaults_step hstep

theorem init (clock : DateTime) : Answerable env [] (World.init clock) where
  rows h := by cases h
  jobs h := by cases h
  owners h := by cases h
  defaults h := by cases h

theorem of_trace {clock : DateTime}
    (h : Lts.Trace (GumServer.step env) (World.init clock) steps w) : Answerable env steps w := by
  induction h with
  | nil => exact init clock
  | concat hrun hstep ih => exact ih.step (Remembers.of_trace hrun) hstep

end Answerable

namespace Fixture

end Fixture

end GumServer
