import GumServer.Stranded
import GumServer.Timeline

/-!
# The order of notifications

The events of a deposit are numbered by the database, under the lock of the row. The outbox rows
that notify the app of them are ordered by their ids, and those are minted by the process that
records the event. A worker takes the row with the smallest id first; so the app hears of the
events in their order as long as the ids follow it, which one process sees to. Two processes with
clocks apart do not.

A row that has been tried once may be tried again at any time; the order is that of the first try.
So it is enough that a new row comes after every row of its deposit that has not been tried yet.
-/

namespace GumServer

/-- The event a payload notifies the app of. -/
def Payload.event : Payload → Option DepositEvent
  | .notifyApp _ e _ => some e
  | .registerWatch | .submitExecute _ => none

theorem Payload.kind_of_event {payload : Payload} {e : DepositEvent} (h : payload.event = some e) :
    payload.kind = .notifyApp := by
  cases payload with
  | notifyApp url e' d => rfl
  | _ => cases h

/-- The event whose notification an action tries: a worker claims its row. -/
def World.tries (w : World) : Action → Option DepositEvent
  | .claim _ row => (w.db.outbox.get? row).bind fun r => r.payload.event
  | _ => none

/-- The events whose notifications a run has tried, in the order it did. -/
def tried (steps : List (World × Action)) : List DepositEvent :=
  steps.filterMap fun s => s.1.tries s.2

/-- The outbox has a notification of an event. -/
def World.Notifies (w : World) (e : DepositEvent) : Prop :=
  ∃ row r, w.db.outbox.get? row = some r ∧ r.payload.event = some e

/-- A notification is queued under an id above that of every notification of its deposit that has
not been tried yet. -/
def Ascending (env : Env) (w : World) (a : Action) : Bool :=
  (step env w a).all fun w' => w'.db.outbox.rows.all fun r =>
    (w.db.outbox.get? r.id).isSome || r.payload.event.isNone ||
      w.db.outbox.rows.all fun p => !(decide (p.depositId = r.depositId) &&
        p.payload.event.isSome && decide (p.attempts = 0)) || decide (p.id < r.id)

section Steps

variable {env : Env} {w w' : World} {a : Action} {row : Uuid} {r : OutboxRow} {e : DepositEvent}

theorem Ascending.lt (hok : Ascending env w a = true) (h : step env w a = some w')
    (hr : w'.db.outbox.get? row = some r) (hnew : w.db.outbox.get? row = none)
    (hevent : r.payload.event = some e) {p : OutboxRow} (hp : w.db.outbox.get? p.id = some p)
    {e' : DepositEvent} (hevent' : p.payload.event = some e') (hdeposit : p.depositId = r.depositId)
    (hattempts : p.attempts = 0) : p.id < r.id := by
  obtain rfl := Table.key_of_get? hr
  rw [Ascending, h, Option.all_some, List.all_eq_true] at hok
  have hrow := hok r (Table.mem_of_get? hr)
  rw [hnew, hevent] at hrow
  simp only [Option.isSome_none, Option.isNone_some, Bool.false_or, List.all_eq_true] at hrow
  simpa [hdeposit, hevent', hattempts] using hrow p (Table.mem_of_get? hp)

/-- The job of a transition is not a notification. -/
theorem Op.job_event {op : Op} {id : Uuid} {n : ℕ} {payload : Payload}
    (h : op.transition.job id n = some payload) : payload.event = none := by
  cases op <;> cases h <;> rfl

/-- Whoever ends a row has claimed it. -/
theorem worker_of_ends (hends : (w.commits env a).Ends row) :
    ∃ name job stage, w.tasks.get? name = some (.worker job stage) ∧ job.id = row := by
  have hcommitter := w.committer env a
  generalize w.commits env a = write at hends hcommitter
  cases hcommitter with
  | nobody => exact hends.elim
  | operator id mint ha => exact hends.elim
  | handler name t t' ht hstep => cases hstep <;> exact hends.elim
  | worker name job stage input engine' stage' ht hstep =>
    refine ⟨name, job, stage, ht, ?_⟩
    cases hstep with
    | finalise attempt _ _ hwrite =>
      cases attempt <;> cases input <;> cases hwrite
      · exact hends
      · exact (Worker.retryLater_ends hends).1.symm
      · exact hends
    | reschedule error now delay => exact (Worker.retryLater_ends hends).1.symm
    | _ => exact hends.elim

/-- **Where a notification comes from**: it was in the outbox before, or it is queued with its
event. Only a claim counts as an attempt, and only a worker that has claimed it kills it. -/
theorem step_notice (hfit : JobsFit w) (h : step env w a = some w')
    (hr : w'.db.outbox.get? row = some r) (hevent : r.payload.event = some e) :
    (∃ old, w.db.outbox.get? row = some old ∧ r.depositId = old.depositId ∧
      old.payload.event = some e ∧ (r.attempts = old.attempts ∨ ∃ name, a = .claim name row) ∧
      (old.deadAt = none → r.deadAt = none ∨
        ∃ name job stage, w.tasks.get? name = some (.worker job stage) ∧ job.id = row)) ∨
    (w.db.outbox.get? row = none ∧ r.depositId = e.depositId ∧ r.attempts = 0 ∧ r.deadAt = none ∧
      w'.db.events = w.db.events ++ [e]) := by
  cases step_db h with
  | commit mint hfresh hdb hminted =>
    rw [hdb] at hr
    rcases Db.write_outbox_new hr with ⟨old, hold, hleaves⟩ | ⟨hmint, ⟨op, d, hhits, hd, hnotice⟩ |
      ⟨op, d, payload, hhits, hd, hjob, hnew⟩⟩
    · obtain rfl := Table.key_of_get? hold
      refine .inl ⟨old, hold, hleaves.depositId, hleaves.payload ▸ hevent, .inl hleaves.attempts, ?_⟩
      intro halive
      rcases hleaves.dead with hsame | ⟨error, hwrite⟩
      · exact .inl (hsame.trans halive)
      · have hends : (w.commits env a).Ends old.id := by
          rw [hwrite]
          rfl
        exact .inr (worker_of_ends hends)
    · obtain ⟨url, type, data, htype, rfl⟩ := hnotice
      obtain rfl := Option.some.inj hevent
      refine .inr ⟨?_, ?_, rfl, rfl, ?_⟩
      · rw [Option.eq_none_iff_forall_ne_some]
        intro old hold
        exact JobsFit.not_minted hfresh hmint (hfit.rows hold)
      · exact (op.set_id w.clock _).symm
      · rw [hdb, Db.write_events_eq hhits hd, htype]
        rfl
    · have hnone : payload.event = none := Op.job_event hjob
      rw [hnew] at hevent
      exact absurd (hevent.symm.trans hnone) (by simp)
  | create d mint new user hinsert hfresh hdb hminted hcommits =>
    rw [hdb, World.created_outbox] at hr
    split at hr
    · obtain rfl := Option.some.inj hr
      cases hevent
    · exact .inl ⟨r, hr, rfl, hevent, .inl rfl, fun halive => .inl halive⟩
  | frame f hdeposits hevents hminted hkeeps houtbox hcommits hclaims =>
    rw [houtbox, Option.map_eq_some_iff] at hr
    obtain ⟨old, hold, rfl⟩ := hr
    have hkeep := (hkeeps old).2
    refine .inl ⟨old, hold, hkeep.depositId, hkeep.payload ▸ hevent, ?_, ?_⟩
    · rw [← Table.key_of_get? hold]
      exact hclaims old
    · intro halive
      exact .inl (hkeep.alive halive)

/-- A new event has the largest sequence on its timeline. -/
theorem Reachable.sequence_lt (h : Reachable env w') (hevents : w'.db.events = w.db.events ++ [e])
    {e' : DepositEvent} (he' : e' ∈ w.db.events) (hid : e'.depositId = e.depositId) :
    e'.sequence < e.sequence := by
  have hmem : e ∈ w'.db.events := hevents ▸ List.mem_append_right _ (List.mem_singleton_self e)
  obtain ⟨d, hd⟩ := h.owned hmem
  have hkey := Table.key_of_get? hd
  rw [← hkey] at hd
  have htimeline : w'.db.timeline d.id = w.db.timeline d.id ++ [e] := by
    rw [Db.timeline, hevents, List.filter_append, Db.timeline]
    simp [hkey]
  have hpairwise : ((w'.db.timeline d.id).map DepositEvent.sequence).Pairwise (· < ·) := by
    rw [(h.tells hd).sequences]
    exact List.pairwise_lt_range'
  rw [htimeline, List.map_append, List.pairwise_append] at hpairwise
  refine hpairwise.2.2 _ (List.mem_map.mpr ⟨e', ?_, rfl⟩) _ (List.mem_singleton_self _)
  exact List.mem_filter.mpr ⟨he', decide_eq_true (hid.trans hkey.symm)⟩

theorem World.of_tries (h : w.tries a = some e) : ∃ name row r, a = .claim name row ∧
    w.db.outbox.get? row = some r ∧ r.payload.event = some e := by
  cases a with
  | claim name row =>
    obtain ⟨r, hr, hevent⟩ := Option.bind_eq_some_iff.mp h
    exact ⟨name, row, r, rfl, hr, hevent⟩
  | _ => cases h

theorem tried_concat (steps : List (World × Action)) (w : World) (a : Action) :
    tried (steps ++ [(w, a)]) = tried steps ++ (w.tries a).toList := by
  rw [tried, List.filterMap_append]
  cases h : w.tries a <;> simp [h, tried]

end Steps

/-! ## Along a run -/

/-- An event had a notification in some state of a run. -/
def Notified (steps : List (World × Action)) (w : World) (e : DepositEvent) : Prop :=
  w.Notifies e ∨ ∃ s ∈ steps, s.1.Notifies e

/-- The notifications in the outbox: whatever has not been tried is there, untouched, and under an
id that follows its sequence. -/
structure InLine (steps : List (World × Action)) (w : World) : Prop where
  rows : ∀ {row r e}, w.db.outbox.get? row = some r → r.payload.event = some e →
    r.depositId = e.depositId ∧ e ∈ w.db.events ∧
      (e ∈ tried steps ∨ (r.attempts = 0 ∧ r.deadAt = none))
  jobs : ∀ {name job stage e}, w.tasks.get? name = some (.worker job stage) →
    job.payload.event = some e → e ∈ tried steps
  order : ∀ {r r' e e'}, w.db.outbox.get? r.id = some r → w.db.outbox.get? r'.id = some r' →
    r.payload.event = some e → r'.payload.event = some e' → e.depositId = e'.depositId →
    e.sequence < e'.sequence → e ∈ tried steps ∨ r.id < r'.id
  left : ∀ {e}, Notified steps w e → e ∈ tried steps ∨ w.Notifies e
  known : ∀ {e}, e ∈ tried steps → e ∈ w.db.events

namespace InLine

variable {env : Env} {steps : List (World × Action)} {w w' : World} {a : Action}

/-- A worker's row is about the event of its job. -/
theorem tried_of_worker (hline : InLine steps w) (hfit : JobsFit w) {row : Uuid} {r : OutboxRow}
    {e : DepositEvent} (hr : w.db.outbox.get? row = some r) (hevent : r.payload.event = some e)
    (hworker : ∃ name job stage, w.tasks.get? name = some (.worker job stage) ∧ job.id = row) :
    e ∈ tried steps := by
  obtain ⟨name, job, stage, ht, rfl⟩ := hworker
  rw [(hfit.queued ht hr).2] at hevent
  exact hline.jobs ht hevent

theorem tried_mono {e : DepositEvent} (he : e ∈ tried steps) : e ∈ tried (steps ++ [(w, a)]) := by
  rw [tried_concat]
  exact List.mem_append_left _ he

/-- A claim is a try. -/
theorem tried_claim {name : ℕ} {row : Uuid} {r : OutboxRow} {e : DepositEvent}
    (ha : a = .claim name row) (hr : w.db.outbox.get? row = some r)
    (hevent : r.payload.event = some e) : e ∈ tried (steps ++ [(w, a)]) := by
  rw [tried_concat, ha, World.tries, hr, Option.bind_some, hevent]
  exact List.mem_append_right _ (List.mem_singleton_self e)

theorem rows_step (hline : InLine steps w) (hfit : JobsFit w)
    (h : GumServer.step env w a = some w') {row : Uuid} {r : OutboxRow} {e : DepositEvent}
    (hr : w'.db.outbox.get? row = some r) (hevent : r.payload.event = some e) :
    r.depositId = e.depositId ∧ e ∈ w'.db.events ∧
      (e ∈ tried (steps ++ [(w, a)]) ∨ (r.attempts = 0 ∧ r.deadAt = none)) := by
  rcases step_notice hfit h hr hevent with ⟨old, hold, hdeposit, hevent', hattempts, hdead⟩ |
    ⟨-, hdeposit, hattempts, hdead, hevents⟩
  · obtain ⟨hid, he, htried⟩ := hline.rows hold hevent'
    refine ⟨hdeposit.trans hid, step_events h he, ?_⟩
    rcases htried with htried | ⟨hzero, halive⟩
    · exact .inl (tried_mono htried)
    · rcases hattempts with hsame | ⟨name, ha⟩
      · rcases hdead halive with hdead | hworker
        · exact .inr ⟨hsame.trans hzero, hdead⟩
        · exact .inl (tried_mono (hline.tried_of_worker hfit hold hevent' hworker))
      · exact .inl (tried_claim ha hold hevent')
  · refine ⟨hdeposit, ?_, .inr ⟨hattempts, hdead⟩⟩
    rw [hevents]
    exact List.mem_append_right _ (List.mem_singleton_self e)

theorem jobs_step (hline : InLine steps w) (h : GumServer.step env w a = some w') {name : ℕ}
    {job : OutboxJob} {stage : Stage} {e : DepositEvent}
    (ht : w'.tasks.get? name = some (.worker job stage)) (hevent : job.payload.event = some e) :
    e ∈ tried (steps ++ [(w, a)]) := by
  cases step_worker h ht with
  | kept hold => exact tried_mono (hline.jobs hold hevent)
  | claimed r hr hjob ha =>
    subst hjob
    exact tried_claim ha hr hevent
  | abandoned old stage' error hold => exact tried_mono (hline.jobs hold hevent)
  | advanced input write hold hcommits hstep => exact tried_mono (hline.jobs hold hevent)

theorem order_step (hline : InLine steps w) (hfit : JobsFit w) (hreachable' : Reachable env w')
    (hok : Ascending env w a = true) (h : GumServer.step env w a = some w') {r r' : OutboxRow}
    {e e' : DepositEvent} (hr : w'.db.outbox.get? r.id = some r)
    (hr' : w'.db.outbox.get? r'.id = some r') (hevent : r.payload.event = some e)
    (hevent' : r'.payload.event = some e') (hid : e.depositId = e'.depositId)
    (hlt : e.sequence < e'.sequence) : e ∈ tried (steps ++ [(w, a)]) ∨ r.id < r'.id := by
  rcases step_notice hfit h hr hevent with ⟨old, hold, hdeposit, holdEvent, -⟩ |
    ⟨hnone, hdeposit, -, -, hevents⟩
  · have hkey := Table.key_of_get? hold
    rw [← hkey] at hold
    obtain ⟨hoid, -, htried⟩ := hline.rows hold holdEvent
    rcases step_notice hfit h hr' hevent' with ⟨old', hold', -, holdEvent', -⟩ |
      ⟨hnone', hdeposit', -, -, -⟩
    · have hkey' := Table.key_of_get? hold'
      rw [← hkey'] at hold'
      rcases hline.order hold hold' holdEvent holdEvent' hid hlt with htried | hids
      · exact .inl (tried_mono htried)
      · rw [← hkey, ← hkey']
        exact .inr hids
    · -- a row that has not been tried is below any new one
      rcases htried with htried | ⟨hzero, -⟩
      · exact .inl (tried_mono htried)
      · rw [← hkey]
        refine .inr (Ascending.lt hok h hr' hnone' hevent' hold holdEvent ?_ hzero)
        rw [hoid, hid, hdeposit']
  · rcases step_notice hfit h hr' hevent' with ⟨old', hold', -, holdEvent', -⟩ |
      ⟨-, -, -, -, hevents'⟩
    · obtain ⟨-, he', -⟩ := hline.rows hold' holdEvent'
      have hgt := hreachable'.sequence_lt hevents he' hid.symm
      omega
    · obtain ⟨-, heq⟩ := List.append_inj' (hevents.symm.trans hevents') rfl
      rw [(List.cons.inj heq).1] at hlt
      exact absurd hlt (Nat.lt_irrefl _)

theorem left_step (hline : InLine steps w) (hfit : JobsFit w)
    (h : GumServer.step env w a = some w') {e : DepositEvent}
    (hnotified : Notified (steps ++ [(w, a)]) w' e) :
    e ∈ tried (steps ++ [(w, a)]) ∨ w'.Notifies e := by
  have hbefore : w'.Notifies e ∨ Notified steps w e := by
    rcases hnotified with hnow | ⟨s, hs, hnotifies⟩
    · exact .inl hnow
    · rcases List.mem_append.mp hs with hs | hs
      · exact .inr (.inr ⟨s, hs, hnotifies⟩)
      · obtain rfl := List.mem_singleton.mp hs
        exact .inr (.inl hnotifies)
  rcases hbefore with hnow | hbefore
  · exact .inr hnow
  · rcases hline.left hbefore with htried | ⟨row, r, hr, hevent⟩
    · exact .inl (tried_mono htried)
    · obtain rfl := Table.key_of_get? hr
      by_cases hends : (w.commits env a).Ends r.id
      · exact .inl (tried_mono (hline.tried_of_worker hfit hr hevent (worker_of_ends hends)))
      · obtain ⟨r', hr', hkeep⟩ := step_outbox_keeps hfit h hr hends
        exact .inr ⟨r.id, r', hr', hkeep.payload ▸ hevent⟩

theorem known_step (hline : InLine steps w) (h : GumServer.step env w a = some w')
    {e : DepositEvent} (he : e ∈ tried (steps ++ [(w, a)])) : e ∈ w'.db.events := by
  rw [tried_concat] at he
  rcases List.mem_append.mp he with he | he
  · exact step_events h (hline.known he)
  · obtain ⟨name, row, r, -, hr, hevent⟩ := World.of_tries (Option.mem_toList.mp he)
    exact step_events h (hline.rows hr hevent).2.1

/-- **A step keeps the notifications in line.** -/
theorem step (hline : InLine steps w) (hreachable : Reachable env w)
    (hok : Ascending env w a = true) (h : GumServer.step env w a = some w') :
    InLine (steps ++ [(w, a)]) w' := by
  have hfit := JobsFit.reachable hreachable
  have hreachable' : Reachable env w' := hreachable.tail h
  exact {
    rows := hline.rows_step hfit h
    jobs := hline.jobs_step h
    order := hline.order_step hfit hreachable' hok h
    left := hline.left_step hfit h
    known := hline.known_step h }

theorem init (clock : DateTime) : InLine [] (World.init clock) where
  rows h := by cases h
  jobs h := by cases h
  order h := by cases h
  left h := .inr (h.elim (fun h => h) fun ⟨_, hs, _⟩ => by cases hs)
  known h := by cases h

/-- In every run in which the ids ascend. -/
theorem of_trace {clock : DateTime}
    (h : Lts.Trace (GumServer.step env) (World.init clock) steps w)
    (hok : ∀ s ∈ steps, Ascending env s.1 s.2 = true) : InLine steps w := by
  induction h with
  | nil => exact init clock
  | concat hrun hstep ih =>
    have hline := ih fun s hs => hok s (List.mem_append_left _ hs)
    exact hline.step ⟨clock, hrun.reaches⟩
      (hok _ (List.mem_append_right _ (List.mem_singleton_self _))) hstep

/-- **A claim takes the first in line.** -/
theorem claim_first (hline : InLine steps w) (h : GumServer.step env w a = some w')
    {e e' : DepositEvent} (htries : w.tries a = some e') (hnotified : Notified steps w e)
    (hid : e.depositId = e'.depositId) (hlt : e.sequence < e'.sequence) : e ∈ tried steps := by
  rcases hline.left hnotified with htried | ⟨row, r, hr, hevent⟩
  · exact htried
  · obtain ⟨name, row', r', rfl, hr', hevent'⟩ := World.of_tries htries
    obtain rfl := Table.key_of_get? hr
    obtain rfl := Table.key_of_get? hr'
    obtain ⟨hdeposit, -, htried⟩ := hline.rows hr hevent
    obtain ⟨hdeposit', -, -⟩ := hline.rows hr' hevent'
    rcases htried with htried | ⟨-, halive⟩
    · exact htried
    · rcases hline.order hr hr' hevent hevent' hid hlt with htried | hids
      · exact htried
      · -- the row before it is alive, so this one was not due
        obtain ⟨claimed, hclaimed, hstep⟩ := Option.bind_eq_some_iff.mp h
        obtain rfl := Option.some.inj (hr'.symm.trans hclaimed)
        obtain ⟨hdue, -⟩ := require_eq_some.mp hstep
        rw [Bool.and_eq_true, World.isDue, Bool.and_eq_true, Bool.not_eq_true'] at hdue
        have hfirst := List.any_eq_false.mp hdue.2.2 r (Table.mem_of_get? hr)
        have hkind : r.payload.kind = r'.payload.kind := by
          rw [Payload.kind_of_event hevent, Payload.kind_of_event hevent']
        simp [hdeposit, hdeposit', hid, hkind, hids, halive] at hfirst

end InLine

/-- The ids an action mints, in the order its process does. -/
def Action.mints : Action → List Uuid
  | .create _ _ id mint => id :: mint.ids
  | .advance _ _ mint | .retrySettlement _ mint => mint.ids
  | _ => []

/-- Where an event is. -/
def DepositEvent.place (e : DepositEvent) : Uuid × ℕ := (e.depositId, e.sequence)

namespace Fixture

/-- A payment is seen. -/
def paymentPending : IndexerEvent := { thresholdReached with
  id := "evt-pending", eventType := "payment.pending"
  watch := ⟨55, 31337, new.paymentAddress, none⟩ }

/-- And confirmed. -/
def paymentConfirmed : IndexerEvent := { thresholdReached with
  id := "evt-confirmed", eventType := "payment.confirmed"
  watch := ⟨55, 31337, new.paymentAddress, some "1000000"⟩ }

end Fixture

end GumServer
