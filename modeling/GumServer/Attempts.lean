import GumServer.Frame
import GumServer.Keys
import GumServer.Timeline

/-!
# Settlement attempts

Whatever is submitted to the engine goes under a key that names an event: the one that made the
deposit ready, or one that retried it. The row of the outbox that carries the key may be run by any
number of workers, each of which may crash before its job is recorded, so a key may be sent many
times; but the keys sent for a deposit are never more than those events, and what is sent under a
key is always the same, because it is made of columns that no transition touches.
-/

namespace GumServer

/-- The events that start a settlement. -/
def EventType.isAttempt : EventType → Bool
  | .ready | .settlementRetried => true
  | .created | .watchRegistered | .watchLost | .reconciled | .detected | .paymentConfirmed
  | .paymentOrphaned | .settlementSubmitted | .settlementIncluded | .settled | .failed
  | .expired => false

/-- The events of a deposit that start a settlement. -/
def Db.attempts (db : Db) (id : Uuid) : List DepositEvent :=
  (db.timeline id).filter fun e => e.eventType.isAttempt

theorem Db.mem_attempts {db : Db} {id : Uuid} {e : DepositEvent} :
    e ∈ db.attempts id ↔ e ∈ db.events ∧ e.depositId = id ∧ e.eventType.isAttempt = true := by
  simp only [Db.attempts, Db.timeline, List.mem_filter, decide_eq_true_eq, and_assoc]

/-! ## What a run sends and queues -/

/-- The submission an action makes: of which deposit, and under which key. Whatever the engine
says to it, and whether or not the worker learns of it, it has been sent. -/
def World.submits (w : World) : Action → Option (Deposit × String)
  | .advance name (.submit _) _ =>
    match w.tasks.get? name with
    | some (.worker _ (.submitting d key)) => some (d, key)
    | _ => none
  | _ => none

/-- The submissions of a run. -/
def submissions (steps : List (World × Action)) : List (Deposit × String) :=
  steps.filterMap fun s => s.1.submits s.2

/-- The keys a run sent for a deposit. -/
def sentKeys (steps : List (World × Action)) (id : Uuid) : List String :=
  ((submissions steps).filter fun p => decide (p.1.id = id)).map Prod.snd

/-- An action records an event and queues a settlement with it. -/
def Queues (env : Env) (w : World) (a : Action) (e : DepositEvent) (key : Option String) : Prop :=
  ∃ w' row r, step env w a = some w' ∧ w'.db.events = w.db.events ++ [e] ∧
    w.db.outbox.get? row = none ∧ w'.db.outbox.get? row = some r ∧ r.payload = .submitExecute key

/-- A key with an event of its deposit. -/
def Attempted (w : World) (id : Uuid) (key : String) : Prop :=
  ∃ e ∈ w.db.attempts id, key = executeKey id e.sequence

section Steps

variable {env : Env} {w w' : World} {a : Action}

theorem World.of_submits {d : Deposit} {key : String} (h : w.submits a = some (d, key)) :
    ∃ name job, w.tasks.get? name = some (.worker job (.submitting d key)) := by
  rw [World.submits.eq_def] at h
  split at h
  · split at h
    · next job d' key' ht =>
      obtain ⟨rfl, rfl⟩ := Prod.mk.inj (Option.some.inj h)
      exact ⟨_, job, ht⟩
    · cases h
  · cases h

/-- A transition that queues a settlement starts one. -/
theorem Op.attempt_of_job {op : Op} {id : Uuid} {n : ℕ} {key : Option String}
    (h : op.transition.job id n = some (.submitExecute key)) :
    ∃ type data, op.transition.event = some (type, data) ∧ type.isAttempt = true := by
  cases op <;> cases h <;> exact ⟨_, _, rfl, rfl⟩

/-- **A settlement is queued with its event**, and under its key. -/
theorem step_attempt (h : step env w a = some w') {row : Uuid} {r : OutboxRow}
    {key : Option String} (hr : w'.db.outbox.get? row = some r)
    (hkey : r.payload = .submitExecute key) :
    (∃ old, w.db.outbox.get? row = some old ∧ old.depositId = r.depositId ∧
      old.payload = .submitExecute key) ∨
    ∃ e, w'.db.events = w.db.events ++ [e] ∧ e.depositId = r.depositId ∧
      e.eventType.isAttempt = true ∧ key = some (executeKey e.depositId e.sequence) := by
  rcases step_execute h hr hkey with hold | ⟨op, d, hhits, hd, hid, hjob⟩
  · exact .inl hold
  · obtain ⟨type, data, hevent, hattempt⟩ := Op.attempt_of_job hjob
    obtain ⟨e, hevents, hdeposit, hsequence, htype⟩ := step_event_of_hit h hhits hd hevent
    refine .inr ⟨e, hevents, hdeposit.trans hid.symm, htype ▸ hattempt, ?_⟩
    rw [hdeposit, hsequence]
    exact Op.job_execute hjob

/-- What is queued with an event goes under its key. -/
theorem Queues.key {e : DepositEvent} {key : Option String} (h : Queues env w a e key) :
    ∃ w', step env w a = some w' ∧ e ∈ w'.db.events ∧
      key = some (executeKey e.depositId e.sequence) := by
  obtain ⟨w', row, r, hstep, hevents, hnone, hr, hkey⟩ := h
  refine ⟨w', hstep, hevents ▸ List.mem_append_right _ (List.mem_singleton_self e), ?_⟩
  rcases step_attempt hstep hr hkey with ⟨old, hold, -⟩ | ⟨e', hevents', -, -, hkey⟩
  · rw [hnone] at hold
    cases hold
  · obtain ⟨-, heq⟩ := List.append_inj' (hevents.symm.trans hevents') rfl
    rw [hkey, List.cons.inj heq |>.1]

theorem Attempted.step {id : Uuid} {key : String} (hattempted : Attempted w id key)
    (h : GumServer.step env w a = some w') : Attempted w' id key := by
  obtain ⟨e, he, hkey⟩ := hattempted
  rw [Db.mem_attempts] at he
  exact ⟨e, Db.mem_attempts.mpr ⟨step_events h he.1, he.2⟩, hkey⟩

end Steps

/-! ## Along a run -/

/-- A deposit as a worker read it: the columns a submission is made of are the row's. -/
def Reads (w : World) (d : Deposit) : Prop :=
  ∃ row, w.db.deposits.get? d.id = some row ∧ row.fixedTerms = d.fixedTerms

/-- Every settlement on its way has an event of its deposit, and the deposit's own columns. -/
structure AttemptsFit (w : World) : Prop where
  rows : ∀ {row r key}, w.db.outbox.get? row = some r → r.payload = .submitExecute key →
    ∃ k, key = some k ∧ Attempted w r.depositId k
  jobs : ∀ {name job stage key}, w.tasks.get? name = some (.worker job stage) →
    job.payload = .submitExecute key → ∃ k, key = some k ∧ Attempted w job.depositId k
  submitting : ∀ {name job d key}, w.tasks.get? name = some (.worker job (.submitting d key)) →
    Attempted w d.id key ∧ Reads w d

section Runs

variable {env : Env} {w w' : World} {a : Action}

theorem Reads.step {d : Deposit} (hreads : Reads w d) (hfit : JobsFit w)
    (h : GumServer.step env w a = some w') : Reads w' d := by
  obtain ⟨row, hrow, hterms⟩ := hreads
  refine ⟨_, hfit.row_after h hrow, ?_⟩
  rw [Write.row_fixedTerms, hterms]

/-- A worker that is about to submit has just read the row. -/
theorem WorkerStep.row_of_submitting {db : Db} {engine engine' : Engine} {job : OutboxJob}
    {stage : Stage} {input : Input} {write : Write} {d : Deposit} {key : String}
    (h : WorkerStep env db engine job stage input write engine' (some (.submitting d key))) :
    db.deposits.get? job.depositId = some d := by
  generalize hnew : some (Stage.submitting d key) = new at h
  cases h with
  | load now =>
    have hload := Option.some.inj hnew
    rw [Worker.load.eq_def] at hload
    cases hd : db.deposits.get? job.depositId with
    | none =>
      rw [hd] at hload
      split at hload <;> cases hload
    | some row =>
      rw [hd] at hload
      split at hload
      · rw [Worker.loadRegister] at hload
        split_ifs at hload
      · rw [Worker.loadSubmit] at hload
        split_ifs at hload
        obtain ⟨rfl, -⟩ := Stage.submitting.inj hload
        rfl
      · rw [Worker.loadNotify] at hload
        split_ifs at hload
  | watch d' answer => cases answer <;> cases hnew
  | submit d' key' reply engine'' hsubmit => cases reply <;> cases hnew
  | _ => cases hnew

/-- **A step keeps every settlement with its event.** -/
theorem AttemptsFit.step (hattempts : AttemptsFit w) (hfit : JobsFit w)
    (h : GumServer.step env w a = some w') : AttemptsFit w' where
  rows := by
    intro row r key hr hkey
    rcases step_attempt h hr hkey with ⟨old, hold, hdeposit, hpayload⟩ | ⟨e, hevents, hdeposit,
      hattempt, rfl⟩
    · obtain ⟨k, rfl, hattempted⟩ := hattempts.rows hold hpayload
      exact ⟨k, rfl, hdeposit ▸ hattempted.step h⟩
    · refine ⟨_, rfl, e, ?_, by rw [hdeposit]⟩
      rw [Db.mem_attempts, hevents]
      exact ⟨List.mem_append_right _ (List.mem_singleton_self e), hdeposit, hattempt⟩
  jobs := by
    intro name job stage key ht hkey
    rcases JobsFit.job_before h ht with ⟨old, stage', hold⟩ | ⟨r, hr, rfl⟩
    · obtain ⟨k, rfl, hattempted⟩ := hattempts.jobs hold hkey
      exact ⟨k, rfl, hattempted.step h⟩
    · obtain ⟨k, rfl, hattempted⟩ := hattempts.rows hr hkey
      exact ⟨k, rfl, hattempted.step h⟩
  submitting := by
    intro name job d key ht
    cases step_worker h ht with
    | kept ht =>
      obtain ⟨hattempted, hreads⟩ := hattempts.submitting ht
      exact ⟨hattempted.step h, hreads.step hfit h⟩
    | advanced input write ht hcommits hstep =>
      obtain ⟨-, k, hpayload, heq⟩ := hstep.of_submitting
      obtain ⟨k', rfl, hattempted⟩ := hattempts.jobs ht hpayload
      have hrow := hstep.row_of_submitting
      have hid := Table.key_of_get? hrow
      rw [heq k' rfl]
      rw [← hid] at hattempted hrow
      have hreads : Reads w d := ⟨d, hrow, rfl⟩
      exact ⟨hattempted.step h, hreads.step hfit h⟩

theorem AttemptsFit.init (clock : DateTime) : AttemptsFit (World.init clock) where
  rows h := by cases h
  jobs h := by cases h
  submitting h := by cases h

/-- In every state of every run. -/
theorem AttemptsFit.reachable (h : Reachable env w) : AttemptsFit w := by
  obtain ⟨clock, hreach⟩ := h
  refine hreach.invariant (init clock) ?_
  intro w a w' hreach hattempts _ hstep
  exact hattempts.step (JobsFit.reachable ⟨clock, hreach⟩) hstep

/-- A key with an event keeps it for the rest of the run. -/
theorem Attempted.later {id : Uuid} {key : String} (hattempted : Attempted w id key)
    (h : Lts.Reaches (GumServer.step env) Lts.Any w w') : Attempted w' id key :=
  h.invariant (P := fun w => Attempted w id key) hattempted fun _ hattempted _ hstep =>
    hattempted.step hstep

/-- What a submission is made of is the row's own for the rest of the run. -/
theorem Reads.later {d : Deposit} (hreads : Reads w d) (hreachable : Reachable env w)
    (h : Lts.Reaches (GumServer.step env) Lts.Any w w') : Reads w' d := by
  obtain ⟨row, hrow, hterms⟩ := hreads
  obtain ⟨row', hrow', hkeeping⟩ := hreachable.keeps h hrow
  exact ⟨row', hrow', hkeeping.fixedTerms.trans hterms⟩

/-- A submission is made of columns that no transition touches. -/
theorem Deposit.submitTransaction_congr {d d' : Deposit} (h : d.fixedTerms = d'.fixedTerms)
    (lib : Crates) (factory : Address) (webhook : String) :
    d.submitTransaction lib factory webhook = d'.submitTransaction lib factory webhook := by
  rw [Deposit.fixedTerms, Deposit.fixedTerms, FixedTerms.mk.injEq] at h
  obtain ⟨hchain, -, htoken, -, hamount, -, hcalls, hrecovery, hsalt, hexpires, -⟩ := h
  simp only [Deposit.submitTransaction, Deposit.terms, Deposit.callsOf, hchain, htoken, hamount,
    hcalls, hrecovery, hsalt, hexpires]

/-- **Whatever was sent has an event, and is made of the row.** -/
theorem sent_attempted {clock : DateTime} {steps : List (World × Action)}
    (h : Lts.Trace (step env) (World.init clock) steps w) {d : Deposit} {key : String}
    (hsent : (d, key) ∈ submissions steps) : Attempted w d.id key ∧ Reads w d := by
  obtain ⟨⟨t, a⟩, hmem, hsubmits⟩ := List.mem_filterMap.mp hsent
  obtain ⟨t', hbefore, hstep, hafter⟩ := h.of_mem hmem
  obtain ⟨name, job, ht⟩ := World.of_submits hsubmits
  have hreachable : Reachable env t := ⟨clock, hbefore⟩
  obtain ⟨hattempted, hreads⟩ := (AttemptsFit.reachable hreachable).submitting ht
  have hrest : Lts.Reaches (GumServer.step env) Lts.Any t w :=
    (Lts.Reaches.refl.tail trivial hstep).trans hafter
  exact ⟨hattempted.later hrest, hreads.later hreachable hrest⟩

/-- The keys of a deposit's attempts. -/
theorem sentKeys_subset {clock : DateTime} {steps : List (World × Action)}
    (h : Lts.Trace (step env) (World.init clock) steps w) (id : Uuid) :
    (sentKeys steps id).toFinset ⊆
      ((w.db.attempts id).map fun e => executeKey id e.sequence).toFinset := by
  intro key hkey
  rw [List.mem_toFinset] at hkey ⊢
  obtain ⟨⟨d, _⟩, hmem, rfl⟩ := List.mem_map.mp hkey
  obtain ⟨hsent, hid⟩ := List.mem_filter.mp hmem
  obtain rfl := of_decide_eq_true hid
  obtain ⟨⟨e, he, hkey⟩, -⟩ := sent_attempted h hsent
  exact List.mem_map.mpr ⟨e, he, hkey.symm⟩

/-- No more keys are sent than there are attempts. -/
theorem card_sentKeys_le {clock : DateTime} {steps : List (World × Action)}
    (h : Lts.Trace (step env) (World.init clock) steps w) (id : Uuid) :
    (sentKeys steps id).toFinset.card ≤ (w.db.attempts id).length :=
  calc (sentKeys steps id).toFinset.card
      ≤ ((w.db.attempts id).map fun e => executeKey id e.sequence).toFinset.card :=
        Finset.card_le_card (sentKeys_subset h id)
    _ ≤ ((w.db.attempts id).map fun e => executeKey id e.sequence).length :=
        List.toFinset_card_le _
    _ = (w.db.attempts id).length := List.length_map _

end Runs

/-- **One key an attempt, one request a key.** In every run, the keys ever sent to the engine for a
deposit are at most its `ready` and `settlement_retried` events, and so are the jobs an engine that
honours keys has made of them; settlements queued with different events have different keys; and
whatever is sent under one key is the same request. -/
theorem one_key_per_attempt (env : Env) (factory : Address) (webhook : String) (clock : DateTime)
    (steps : List (World × Action)) (w : World)
    (h : Lts.Trace (step env) (World.init clock) steps w) :
    (∀ id, (sentKeys steps id).toFinset.card ≤ (w.db.attempts id).length ∧
      w.engine.entries.countP (fun e => decide (e.1 ∈ sentKeys steps id)) ≤
        (w.db.attempts id).length) ∧
    (∀ s ∈ steps, ∀ s' ∈ steps, ∀ e e' key key', Queues env s.1 s.2 e key →
      Queues env s'.1 s'.2 e' key' → e ≠ e' → key ≠ key') ∧
    ∀ p ∈ submissions steps, ∀ p' ∈ submissions steps, p.2 = p'.2 →
      p.1.submitTransaction env.readers.lib factory webhook =
        p'.1.submitTransaction env.readers.lib factory webhook := by
  refine ⟨?_, ?_, ?_⟩
  · intro id
    have hcard := card_sentKeys_le h id
    exact ⟨hcard, (w.engine.countP_le_card (sentKeys steps id)).trans hcard⟩
  · rintro ⟨t, a⟩ hs ⟨t', a'⟩ hs' e e' key key' hqueues hqueues' hne rfl
    have hlast : ∀ {t a e}, (t, a) ∈ steps → Queues env t a e key → e ∈ w.db.events ∧
        key = some (executeKey e.depositId e.sequence) := by
      intro t a e hmem hqueues
      obtain ⟨u, hstep, he, hkey⟩ := hqueues.key
      obtain ⟨u', -, hstep', hafter⟩ := h.of_mem hmem
      obtain rfl := Option.some.inj (hstep.symm.trans hstep')
      exact ⟨hafter.invariant (P := fun w => e ∈ w.db.events) he fun _ he _ hstep =>
        step_events hstep he, hkey⟩
    obtain ⟨he, hkey⟩ := hlast hs hqueues
    obtain ⟨he', hkey'⟩ := hlast hs' hqueues'
    obtain ⟨hid, hseq⟩ := executeKey_injective (Option.some.inj (hkey.symm.trans hkey'))
    have hreachable : Reachable env w := ⟨clock, h.reaches⟩
    exact hne (hreachable.event_ext he he' hid hseq)
  · rintro ⟨d, key⟩ hsent ⟨d', key'⟩ hsent' rfl
    obtain ⟨⟨e, -, hkey⟩, row, hrow, hterms⟩ := sent_attempted h hsent
    obtain ⟨⟨e', -, hkey'⟩, row', hrow', hterms'⟩ := sent_attempted h hsent'
    obtain ⟨hid, -⟩ := executeKey_injective (hkey.symm.trans hkey')
    rw [← hid, hrow] at hrow'
    obtain rfl := Option.some.inj hrow'
    exact Deposit.submitTransaction_congr (hterms.symm.trans hterms') _ _ _

namespace Fixture

/-- The deposit is paid, and submitted twice: the engine's first answer is lost, and the row comes
round again. Then the job expires, the settlement is retried, and it is submitted once more. -/
def untilResubmitted : List Action := untilPaid ++ [
  .claim 1 (mint 1).job,
  .advance 1 (.load requestedAt) (mint 2),
  .advance 1 (.submit (.lost 500 "timeout")) (mint 3),
  .drop 1,
  .tick (later 100),
  .claim 2 (mint 1).job,
  .advance 2 (.load requestedAt) (mint 4),
  .advance 2 (.submit (.accepted 500)) (mint 5),
  .advance 2 .go (mint 6),
  .advance 2 .go (mint 7),
  .engineEvent 3 jobExpired (some 7),
  .advance 3 .go (mint 8),
  .advance 3 .go (mint 9),
  .claim 4 (mint 9).job,
  .advance 4 (.load requestedAt) (mint 10),
  .advance 4 (.submit (.accepted 501)) (mint 11)]

end Fixture

/-- On the fixture's deposit: three submissions, two keys, two attempts. -/
theorem one_key_per_attempt_fixture : ∃ steps w,
    Lts.Trace (step Fixture.env) (World.init Fixture.requestedAt) steps w ∧
    (submissions steps).length = 3 ∧ (sentKeys steps 7).toFinset.card = 2 ∧
    (sentKeys steps 7).toFinset.card ≤ (w.db.attempts 7).length ∧ (w.db.attempts 7).length = 2 := by
  obtain ⟨steps, w, htrace, hfound⟩ : ∃ steps w,
      Lts.Trace (step Fixture.env) (World.init Fixture.requestedAt) steps w ∧
      some ((submissions steps).length, (sentKeys steps 7).toFinset.card,
        (w.db.attempts 7).length) = some (3, 2, 2) :=
    @Lts.exists_trace_of_trace _ _ _ _ _ Fixture.untilResubmitted
      (fun p => some ((submissions p.1).length, (sentKeys p.1 7).toFinset.card,
        (p.2.db.attempts 7).length)) _ (by decide +kernel)
  obtain ⟨hsent, hrest⟩ := Prod.mk.inj (Option.some.inj hfound)
  obtain ⟨hkeys, hattempts⟩ := Prod.mk.inj hrest
  obtain ⟨hle, -, -⟩ := one_key_per_attempt Fixture.env Fixture.new.paymentAddress "" _ steps w htrace
  exact ⟨steps, w, htrace, hsent, hkeys, (hle 7).1, hattempts⟩

end GumServer
