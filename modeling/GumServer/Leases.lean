import GumServer.Batches
import GumServer.Locks

/-!
# Leases on outbox rows

The service with the loops of its replicas: the state of the service, and what each replica has
claimed. A step of a loop is a few steps of the service, so whatever the replicas get to, the
service can get to (`Leases.reachable_world`).

A statement is executed in a step of its own, and answered or not. So a job may be abandoned
although its last statement has been executed: its row has been given back, and the rescheduling
puts it off a second time. Or a job is over, or its process gone, while a statement it has sent is
still to come (`Action.late`). `retry_later` asks for no lock: whoever has the row by then loses it.
So it takes two things for a row never to have two workers. The batches fit into their locks
(`OutboxConfig.Fits`), and no such statement puts off a row that somebody has (`Undisputed`).

There is one clock, and it stands still while something is due to happen: a claim is answered
within its timeout, a job is over or abandoned at its timeout, its rescheduling ends within another,
and a job starts as soon as there is a permit.
-/

namespace GumServer

namespace Leases

/-- The service, and what its replicas have claimed. -/
structure State where
  world : World
  batches : KeyMap ℕ Batch
  /-- the tasks the replicas have had, with their rows -/
  tasks : List (ℕ × Uuid)

/-- What can happen. -/
inductive Action : Type where
  /-- anything that is not of a loop -/
  | service (a : GumServer.Action) : Action
  | tick (clock : DateTime) : Action
  /-- `claim`: no more due rows than the batch takes -/
  | claim (replica : ℕ) (jobs : List (ℕ × Uuid)) : Action
  /-- the claim is answered -/
  | receive (replica : ℕ) : Action
  /-- the next job gets a permit; its rescheduling gets a task to begin with later -/
  | start (replica rescheduler : ℕ) : Action
  /-- the next statement of a job is executed -/
  | work (replica position : ℕ) (input : Input) (mint : Mint) : Action
  /-- a job's timeout runs out, and `execute` is dropped -/
  | abandon (replica position : ℕ) : Action
  /-- an abandoned job is rescheduled -/
  | reschedule (replica position : ℕ) (input : Input) (mint : Mint) : Action
  /-- a job gives its permit back: it is over, rescheduled, or nothing more is heard of it -/
  | finish (replica position : ℕ) : Action
  /-- a replica is through with its batch, or has lost it: the claim failed, the process ended -/
  | leave (replica : ℕ) : Action
  /-- a statement nobody waits for is executed -/
  | late (name : ℕ) (input : Input) (mint : Mint) : Action

/-- What a step asks of the service, and what the replicas have after it. -/
structure Plan where
  calls : List GumServer.Action
  batches : KeyMap ℕ Batch
  /-- the tasks that begin -/
  tasks : List (ℕ × Uuid)

namespace State

variable (s : State)

/-- Whether no task has had a name. -/
def isNew (name : ℕ) : Bool := s.world.free name && !s.tasks.any fun task => decide (task.1 = name)

/-- Whether an action is not a loop's nor a worker's. -/
def isRest (a : GumServer.Action) : Bool :=
  !a.isLoop && !a.task.any fun name => (s.world.tasks.get? name).any Task.isWorker

/-- Whether a task is at its last statement. -/
def isLast (name : ℕ) : Bool :=
  match s.world.tasks.get? name with
  | some (.worker _ stage) => stage.isLast
  | _ => false

/-- Whether a worker's task is nobody's any more. -/
def isLate (name : ℕ) : Bool :=
  (s.world.tasks.get? name).any Task.isWorker &&
  s.batches.values.all fun b => !b.tasks.any fun task => decide (task.1 = name)

/-- A step, if it can be taken. -/
def plan (c : OutboxConfig) : Action → Option Plan
  | .service a => if s.isRest a then some ⟨[a], s.batches, []⟩ else none
  | .tick clock =>
    if s.batches.values.all (·.allows c clock.toMicros) then some ⟨[.tick clock], s.batches, []⟩
    else none
  | .claim replica jobs =>
    if (s.batches.get? replica).isNone ∧ (jobs.map Prod.snd).Nodup ∧ (jobs.map Prod.fst).Nodup ∧
        (jobs.length : ℤ) ≤ c.batchSize ∧ jobs.all fun job => s.isNew job.1 then
      some ⟨jobs.map fun job => .claim job.1 job.2,
        s.batches.put replica ⟨jobs, s.world.clock.toMicros, none, 0, Table.empty⟩, jobs⟩
    else none
  | .receive replica =>
    (s.batches.get? replica).bind fun b =>
      if b.received.isNone then
        some ⟨[], s.batches.put replica (b.receive s.world.clock.toMicros), []⟩
      else none
  | .start replica rescheduler =>
    (s.batches.get? replica).bind fun b => b.jobs[b.started]?.bind fun job =>
      if b.received.isSome ∧ b.running.rows.length < c.workers ∧ s.isNew rescheduler then
        some ⟨[.abandon job.1 rescheduler c.timedOut],
          s.batches.put replica (b.start s.world.clock.toMicros job.1 job.2 rescheduler),
          [(rescheduler, job.2)]⟩
      else none
  | .work replica position input mint =>
    (s.batches.get? replica).bind fun b => (b.running.get? position).bind fun slot =>
      slot.worker.bind fun name =>
        some ⟨.advance name input mint :: (if slot.isExecuting then [] else [name]).map .drop,
          s.batches.put replica (b.update (slot.worked (s.isLast name))), []⟩
  | .abandon replica position =>
    (s.batches.get? replica).bind fun b => (b.running.get? position).bind fun slot =>
      if slot.isExecuting ∧ s.world.clock.toMicros = slot.startedAt + c.jobTimeout then
        some ⟨[], s.batches.put replica (b.update (slot.abandon s.world.clock.toMicros)), []⟩
      else none
  | .reschedule replica position input mint =>
    (s.batches.get? replica).bind fun b => (b.running.get? position).bind fun slot =>
      slot.rescheduler.bind fun name =>
        if slot.isExecuting then none
        else some ⟨[.advance name input mint],
          s.batches.put replica (b.update slot.rescheduled), []⟩
  | .finish replica position =>
    (s.batches.get? replica).bind fun b => (b.running.get? position).bind fun slot =>
      some ⟨slot.dormant.map .drop, s.batches.put replica (b.finish position), []⟩
  | .leave replica =>
    (s.batches.get? replica).bind fun b =>
      some ⟨b.dormant.map .drop, s.batches.erase replica, []⟩
  | .late name input mint =>
    if s.isLate name then
      some ⟨.advance name input mint :: [name].map .drop, s.batches, []⟩
    else none

/-- How many slots with a property there are or will be at a row, over all replicas. -/
def holders (p : Slot → Bool) (row : Uuid) : ℕ := s.batches.total fun b => b.holding p row

/-- How many workers are at a row, over all replicas. -/
def working (row : Uuid) : ℕ := s.batches.total fun b => b.workers Slot.isAtWork row

/-- And how many if those count who only wait for the answer to their last statement. -/
def executing (row : Uuid) : ℕ := s.batches.total fun b => b.workers Slot.isExecuting row

/-- The statement of a step, if it comes after its job's last one, or nobody waits for it. -/
def stray : Action → Option GumServer.Action
  | .work replica position input mint =>
    (s.batches.get? replica).bind fun b => (b.running.get? position).bind fun slot =>
      if slot.returned then slot.worker.map fun name => .advance name input mint else none
  | .reschedule replica position input mint =>
    (s.batches.get? replica).bind fun b => (b.running.get? position).bind fun slot =>
      if slot.returned then slot.rescheduler.map fun name => .advance name input mint else none
  | .late name input mint => some (.advance name input mint)
  | _ => none

/-- The service as it is, and no replica. -/
def init (w : World) : State := ⟨w, KeyMap.empty, []⟩

end State

/-- The service after some steps. -/
def called (c : OutboxConfig) (env : Env) : World → List GumServer.Action → Option World :=
  Lts.run (GumServer.step (c.env env)) fun w a => decide (Lts.Any w a)

/-- One step. -/
def step (c : OutboxConfig) (env : Env) (s : State) (a : Action) : Option State :=
  (s.plan c a).bind fun p =>
    (called c env s.world p.calls).map fun w => ⟨w, p.batches, p.tasks ++ s.tasks⟩

/-- The rows an action claims. -/
def Action.claims : Action → List Uuid
  | .claim _ jobs => jobs.map Prod.snd
  | _ => []

/-- **The condition on a run**: a statement that comes after its job's last one, or that nobody
waits for, does not put off a row that somebody has. -/
def Undisputed (c : OutboxConfig) (env : Env) (s : State) (a : Action) : Prop :=
  ∀ call ∈ s.stray a, ∀ row ∈ (s.world.commits (c.env env) call).putsOff,
    s.holders Slot.isHeld row = 0

instance (c : OutboxConfig) (env : Env) (s : State) (a : Action) :
    Decidable (Undisputed c env s a) :=
  @Option.decidableForallMem _ _ (fun _ => Option.decidableForallMem _) _

/-- And what else it takes for no row to have two `execute`s: no row is claimed while one of them
still waits for the answer to its last statement. -/
def Answered (s : State) (a : Action) : Prop := ∀ row ∈ a.claims, s.executing row = 0

instance (s : State) (a : Action) : Decidable (Answered s a) := List.decidableBAll _ _

/-! ## What a step can be -/

section Steps

variable {c : OutboxConfig} {env : Env} {s t : State} {a : Action} {p : Plan}

/-- The steps that can be taken, with what is checked before each. -/
inductive Planned (c : OutboxConfig) (s : State) : Action → Plan → Prop where
  | service (a : GumServer.Action) (hrest : s.isRest a = true) :
      Planned c s (.service a) ⟨[a], s.batches, []⟩
  | tick (clock : DateTime)
      (hallows : ∀ {replica b}, s.batches.get? replica = some b →
        b.allows c clock.toMicros = true) :
      Planned c s (.tick clock) ⟨[.tick clock], s.batches, []⟩
  | claim (replica : ℕ) (jobs : List (ℕ × Uuid)) (hfree : s.batches.get? replica = none)
      (hrows : (jobs.map Prod.snd).Nodup) (hnames : (jobs.map Prod.fst).Nodup)
      (hsize : (jobs.length : ℤ) ≤ c.batchSize) (hnew : ∀ job ∈ jobs, s.isNew job.1 = true) :
      Planned c s (.claim replica jobs) ⟨jobs.map fun job => .claim job.1 job.2,
        s.batches.put replica ⟨jobs, s.world.clock.toMicros, none, 0, Table.empty⟩, jobs⟩
  | receive (replica : ℕ) (b : Batch) (hb : s.batches.get? replica = some b)
      (hreceived : b.received = none) :
      Planned c s (.receive replica)
        ⟨[], s.batches.put replica (b.receive s.world.clock.toMicros), []⟩
  | start (replica rescheduler : ℕ) (b : Batch) (name : ℕ) (row : Uuid)
      (hb : s.batches.get? replica = some b) (hnext : b.jobs[b.started]? = some (name, row))
      (hreceived : b.received.isSome) (hnew : s.isNew rescheduler = true) :
      Planned c s (.start replica rescheduler) ⟨[.abandon name rescheduler c.timedOut],
        s.batches.put replica (b.start s.world.clock.toMicros name row rescheduler),
        [(rescheduler, row)]⟩
  | work (replica position : ℕ) (input : Input) (mint : Mint) (b : Batch) (slot : Slot) (name : ℕ)
      (hb : s.batches.get? replica = some b) (hslot : b.running.get? position = some slot)
      (hname : slot.worker = some name) :
      Planned c s (.work replica position input mint)
        ⟨.advance name input mint :: (if slot.isExecuting then [] else [name]).map .drop,
          s.batches.put replica (b.update (slot.worked (s.isLast name))), []⟩
  | abandon (replica position : ℕ) (b : Batch) (slot : Slot)
      (hb : s.batches.get? replica = some b) (hslot : b.running.get? position = some slot)
      (hnow : s.world.clock.toMicros = slot.startedAt + c.jobTimeout) :
      Planned c s (.abandon replica position)
        ⟨[], s.batches.put replica (b.update (slot.abandon s.world.clock.toMicros)), []⟩
  | reschedule (replica position : ℕ) (input : Input) (mint : Mint) (b : Batch) (slot : Slot)
      (name : ℕ) (hb : s.batches.get? replica = some b)
      (hslot : b.running.get? position = some slot) (hname : slot.rescheduler = some name) :
      Planned c s (.reschedule replica position input mint) ⟨[.advance name input mint],
        s.batches.put replica (b.update slot.rescheduled), []⟩
  | finish (replica position : ℕ) (b : Batch) (slot : Slot)
      (hb : s.batches.get? replica = some b) (hslot : b.running.get? position = some slot) :
      Planned c s (.finish replica position)
        ⟨slot.dormant.map .drop, s.batches.put replica (b.finish position), []⟩
  | leave (replica : ℕ) (b : Batch) (hb : s.batches.get? replica = some b) :
      Planned c s (.leave replica) ⟨b.dormant.map .drop, s.batches.erase replica, []⟩
  | late (name : ℕ) (input : Input) (mint : Mint) (hlate : s.isLate name = true) :
      Planned c s (.late name input mint)
        ⟨.advance name input mint :: [name].map .drop, s.batches, []⟩

/-- **What a step can be.** -/
theorem plan_cases (h : s.plan c a = some p) : Planned c s a p := by
  cases a with
  | service a =>
    obtain ⟨hrest, heq⟩ := Option.ite_none_right_eq_some.mp h
    obtain rfl := Option.some.inj heq
    exact .service a hrest
  | tick clock =>
    obtain ⟨hallows, heq⟩ := Option.ite_none_right_eq_some.mp h
    obtain rfl := Option.some.inj heq
    refine .tick clock ?_
    intro replica b hb
    exact List.all_eq_true.mp hallows b (KeyMap.mem_values_of_get? hb)
  | claim replica jobs =>
    obtain ⟨⟨hfree, hrows, hnames, hsize, hnew⟩, heq⟩ := Option.ite_none_right_eq_some.mp h
    obtain rfl := Option.some.inj heq
    exact .claim replica jobs (Option.isNone_iff_eq_none.mp hfree) hrows hnames hsize
      (List.all_eq_true.mp hnew)
  | receive replica =>
    obtain ⟨b, hb, h⟩ := Option.bind_eq_some_iff.mp h
    obtain ⟨hreceived, heq⟩ := Option.ite_none_right_eq_some.mp h
    obtain rfl := Option.some.inj heq
    exact .receive replica b hb (Option.isNone_iff_eq_none.mp hreceived)
  | start replica rescheduler =>
    obtain ⟨b, hb, h⟩ := Option.bind_eq_some_iff.mp h
    obtain ⟨⟨name, row⟩, hnext, h⟩ := Option.bind_eq_some_iff.mp h
    obtain ⟨⟨hreceived, -, hnew⟩, heq⟩ := Option.ite_none_right_eq_some.mp h
    obtain rfl := Option.some.inj heq
    exact .start replica rescheduler b name row hb hnext hreceived hnew
  | work replica position input mint =>
    obtain ⟨b, hb, h⟩ := Option.bind_eq_some_iff.mp h
    obtain ⟨slot, hslot, h⟩ := Option.bind_eq_some_iff.mp h
    obtain ⟨name, hname, heq⟩ := Option.bind_eq_some_iff.mp h
    obtain rfl := Option.some.inj heq
    exact .work replica position input mint b slot name hb hslot hname
  | abandon replica position =>
    obtain ⟨b, hb, h⟩ := Option.bind_eq_some_iff.mp h
    obtain ⟨slot, hslot, h⟩ := Option.bind_eq_some_iff.mp h
    obtain ⟨⟨-, hnow⟩, heq⟩ := Option.ite_none_right_eq_some.mp h
    obtain rfl := Option.some.inj heq
    exact .abandon replica position b slot hb hslot hnow
  | reschedule replica position input mint =>
    obtain ⟨b, hb, h⟩ := Option.bind_eq_some_iff.mp h
    obtain ⟨slot, hslot, h⟩ := Option.bind_eq_some_iff.mp h
    obtain ⟨name, hname, h⟩ := Option.bind_eq_some_iff.mp h
    obtain ⟨-, heq⟩ := Option.ite_none_left_eq_some.mp h
    obtain rfl := Option.some.inj heq
    exact .reschedule replica position input mint b slot name hb hslot hname
  | finish replica position =>
    obtain ⟨b, hb, h⟩ := Option.bind_eq_some_iff.mp h
    obtain ⟨slot, hslot, heq⟩ := Option.bind_eq_some_iff.mp h
    obtain rfl := Option.some.inj heq
    exact .finish replica position b slot hb hslot
  | leave replica =>
    obtain ⟨b, hb, heq⟩ := Option.bind_eq_some_iff.mp h
    obtain rfl := Option.some.inj heq
    exact .leave replica b hb
  | late name input mint =>
    obtain ⟨hlate, heq⟩ := Option.ite_none_right_eq_some.mp h
    obtain rfl := Option.some.inj heq
    exact .late name input mint hlate

/-- **A step is some steps of the service.** -/
theorem step_calls (h : step c env s a = some t) : ∃ p, Planned c s a p ∧
    called c env s.world p.calls = some t.world ∧ t.batches = p.batches ∧
      t.tasks = p.tasks ++ s.tasks := by
  obtain ⟨p, hplan, h⟩ := Option.bind_eq_some_iff.mp h
  obtain ⟨w, hcalls, rfl⟩ := Option.map_eq_some_iff.mp h
  exact ⟨p, plan_cases hplan, hcalls, rfl, rfl⟩

/-- **The replicas are the service**: whatever they get to, it can get to, so all that holds of
every run of that holds here. -/
theorem reachable_world {ok : State → Action → Prop} {w : World} (hw : Reachable (c.env env) w)
    (h : Lts.Reaches (step c env) ok (State.init w) s) : Reachable (c.env env) s.world := by
  refine h.invariant (P := fun s => Reachable (c.env env) s.world) hw ?_
  intro s a t _ hs _ hstep
  obtain ⟨p, -, hcalls, -⟩ := step_calls hstep
  exact hs.trans (Lts.reaches_of_run hcalls)

end Steps

/-! ## What the service does meanwhile -/

/-- The tasks of workers are about the rows they were begun for. -/
def Linked (tasks : List (ℕ × Uuid)) (w : World) : Prop :=
  ∀ name row job stage, (name, row) ∈ tasks → w.tasks.get? name = some (.worker job stage) →
    job.id = row

/-- A step of the service that no loop decides on, and that puts off only rows that are free. -/
structure Calm (env : Env) (free : Uuid → Prop) (w : World) (a : GumServer.Action) : Prop where
  notLoop : a.isLoop = false
  putsOff : ∀ row, (w.commits env a).putsOff = some row → free row

section Calls

variable {env : Env} {w w' : World} {a : GumServer.Action} {free : Uuid → Prop}
  {tasks : List (ℕ × Uuid)} {row : Uuid} {t : ℤ}

/-- A worker's task stays with its row, if a name is only ever given to one. -/
theorem Linked.step (h : Linked tasks w) (hstep : GumServer.step env w a = some w')
    (hclaim : ∀ name row, a = .claim name row → ∀ row', (name, row') ∈ tasks → row' = row)
    (habandon : ∀ old name error, a = .abandon old name error →
      ∀ row, (name, row) ∈ tasks → (old, row) ∈ tasks) : Linked tasks w' := by
  intro name row job stage htask ht
  cases step_worker hstep ht with
  | kept ht => exact h name row job stage htask ht
  | claimed r hr hjob ha =>
    rw [hjob]
    exact (hclaim name r.id ha row htask).symm
  | abandoned old stage error hold ha =>
    exact h old row job stage (habandon old name error ha row htask) hold
  | advanced input write ht hcommits hstep => exact h name row job _ htask ht

/-- What is not a loop's starts no worker. -/
theorem Linked.calm (h : Linked tasks w)
    (hrun : Lts.Reaches (GumServer.step env) (Calm env free) w w') : Linked tasks w' := by
  refine hrun.invariant (P := Linked tasks) h ?_
  intro u a u' _ hu hcalm hstep
  refine hu.step hstep ?_ ?_
  · rintro name row rfl
    cases hcalm.notLoop
  · rintro old name error rfl
    cases hcalm.notLoop

/-- Nor does it let time pass, and a row that is not free stays under its lock. -/
theorem locked_calm
    (hrun : Lts.Reaches (GumServer.step env) (Calm env free) w w') :
    w'.clock = w.clock ∧ ∀ row t, ¬ free row → row ∈ w.minted → w.Locked row t →
      row ∈ w'.minted ∧ w'.Locked row t := by
  refine hrun.invariant (P := fun u => u.clock = w.clock ∧ ∀ row t, ¬ free row → row ∈ w.minted →
    w.Locked row t → row ∈ u.minted ∧ u.Locked row t)
    ⟨rfl, fun row t _ hrow hlocked => ⟨hrow, hlocked⟩⟩ ?_
  rintro u a u' hu ⟨hclock, hlocked⟩ hcalm hstep
  have hnot {b : GumServer.Action} (hloop : b.isLoop = true) : a ≠ b := by
    rintro rfl
    rw [hcalm.notLoop] at hloop
    cases hloop
  refine ⟨(step_clock_eq hstep fun now => hnot rfl).trans hclock, ?_⟩
  intro row t hheld hrow hlock
  obtain ⟨hrow, hlock⟩ := hlocked row t hheld hrow hlock
  have hstays : (u.commits env a).putsOff ≠ some row := fun hputs =>
    hheld (hcalm.putsOff row hputs)
  exact ⟨JobsFit.minted_mono hstep hrow,
    hlock.step hstep hrow hstays (hnot rfl) (.inr fun name => hnot rfl)⟩

theorem calm_drop (name : ℕ) : Calm env free w (.drop name) := ⟨rfl, fun _ h => nomatch h⟩

/-- A worker's statement puts off its own row. -/
theorem calm_advance {name : ℕ} {input : Input} {mint : Mint}
    (h : ∀ job stage, w.tasks.get? name = some (.worker job stage) → stage.isLast = true →
      (w.commits env (.advance name input mint)).putsOff = some job.id → free job.id) :
    Calm env free w (.advance name input mint) := by
  refine ⟨rfl, ?_⟩
  intro row hputs
  obtain ⟨_, _, _, job, stage, heq, ht, hlast, rfl⟩ := World.putsOff_commits hputs
  obtain ⟨rfl, -, -⟩ := GumServer.Action.advance.inj heq
  exact h job stage ht hlast hputs

/-- What is not a worker's puts nothing off. -/
theorem calm_rest {s : State} (h : s.isRest a = true) : Calm env free s.world a := by
  rw [State.isRest, Bool.and_eq_true, Bool.not_eq_true', Bool.not_eq_true'] at h
  obtain ⟨hloop, hnobody⟩ := h
  refine ⟨hloop, ?_⟩
  intro row hputs
  obtain ⟨name, input, mint, job, stage, rfl, ht, -⟩ := World.putsOff_commits hputs
  rw [GumServer.Action.task, Option.any_some, ht] at hnobody
  cases hnobody

variable {c : OutboxConfig}

/-- Tasks are dropped. -/
theorem calm_drops {names : List ℕ} (h : called c env w (names.map .drop) = some w') :
    Lts.Reaches (GumServer.step (c.env env)) (Calm (c.env env) free) w w' := by
  induction names generalizing w with
  | nil =>
    obtain rfl := Option.some.inj h
    exact .refl
  | cons name names ih =>
    obtain ⟨-, u, hstep, hrest⟩ := Lts.run_cons.mp h
    exact (Lts.Reaches.refl.tail (calm_drop name) hstep).trans (ih hrest)

/-- A step, and what is dropped after it. -/
theorem calm_call (names : List ℕ) (h : called c env w (a :: names.map .drop) = some w')
    (hcalm : Calm (c.env env) free w a) :
    Lts.Reaches (GumServer.step (c.env env)) (Calm (c.env env) free) w w' := by
  obtain ⟨-, u, hstep, hrest⟩ := Lts.run_cons.mp h
  exact (Lts.Reaches.refl.tail hcalm hstep).trans (calm_drops hrest)

end Calls

/-! ## Claims -/

section Claims

variable {c : OutboxConfig} {env : Env} {w w' : World} {row : Uuid} {t : ℤ} {name : ℕ}
  {jobs : List (ℕ × Uuid)}

/-- A claim locks a due row, and does nothing else to the outbox. -/
theorem step_claim (h : GumServer.step env w (.claim name row) = some w') :
    w'.clock = w.clock ∧ w'.minted = w.minted ∧ ∃ r, r.id = row ∧
      w.db.outbox.get? row = some r ∧ w.isDue r = true ∧
      w'.db.outbox.get? row = some (w.lock env r) := by
  cases step_cases h with
  | claim _ r hr hdue =>
    exact ⟨rfl, rfl, r, rfl, hr, hdue, Table.get?_put_self w.db.outbox (w.lock env r)⟩

/-- **What is under its lock is not claimed**, and stays under it. -/
theorem claims_locked (hreach : Reachable (c.env env) w) (hrow : row ∈ w.minted)
    (hlocked : w.Locked row t) (hnow : w.clock.toMicros ≤ t)
    (h : called c env w (jobs.map fun job => .claim job.1 job.2) = some w') :
    row ∉ jobs.map Prod.snd ∧ row ∈ w'.minted ∧ w'.Locked row t ∧ w'.clock = w.clock := by
  induction jobs generalizing w with
  | nil =>
    obtain rfl := Option.some.inj h
    exact ⟨List.not_mem_nil, hrow, hlocked, rfl⟩
  | cons job jobs ih =>
    obtain ⟨-, u, hstep, hrest⟩ := Lts.run_cons.mp h
    obtain ⟨hclock, hminted, r, hid, hr, hdue, -⟩ := step_claim hstep
    have hne : row ≠ job.2 := by
      rintro rfl
      rw [← hid] at hlocked hr
      rw [hlocked.not_due hr hnow] at hdue
      cases hdue
    obtain ⟨hnot, hrow', hlocked', hclock'⟩ := ih (hreach.tail hstep) (hminted ▸ hrow)
      (hlocked.step hstep hrow (fun hputs => nomatch hputs) (fun heq => nomatch heq) (.inl hnow))
      (hclock ▸ hnow) hrest
    refine ⟨?_, hrow', hlocked', hclock'.trans hclock⟩
    rw [List.map_cons, List.mem_cons, not_or]
    exact ⟨hne, hnot⟩

/-- **What is claimed is locked.** -/
theorem claims_lock (hreach : Reachable (c.env env) w) (httl : 0 ≤ c.lockTtl)
    (h : called c env w (jobs.map fun job => .claim job.1 job.2) = some w') :
    w'.clock = w.clock ∧ ∀ row ∈ jobs.map Prod.snd,
      row ∈ w'.minted ∧ w'.Locked row (w.clock.toMicros + c.lockTtl) := by
  induction jobs generalizing w with
  | nil =>
    obtain rfl := Option.some.inj h
    exact ⟨rfl, fun _ hrow => absurd hrow List.not_mem_nil⟩
  | cons job jobs ih =>
    obtain ⟨-, u, hstep, hrest⟩ := Lts.run_cons.mp h
    obtain ⟨hclock, hminted, r, hid, hr, -, hlock⟩ := step_claim hstep
    obtain ⟨hclock', hlocked⟩ := ih (hreach.tail hstep) hrest
    refine ⟨hclock'.trans hclock, ?_⟩
    intro row hrow
    rcases List.mem_cons.mp hrow with rfl | hrow
    · have hfirst : u.Locked job.2 (w.clock.toMicros + c.lockTtl) := by
        intro r' hr' _
        obtain rfl := Option.some.inj (hlock.symm.trans hr')
        rfl
      have hknown : job.2 ∈ u.minted := hminted ▸ (JobsFit.reachable hreach).rows hr
      obtain ⟨-, hrow', hlocked', -⟩ := claims_locked (hreach.tail hstep) hknown hfirst
        (by rw [hclock]; exact Int.le_add_of_nonneg_right httl) hrest
      exact ⟨hrow', hlocked'⟩
    · rw [hclock] at hlocked
      exact hlocked row hrow

/-- A name that is given to one row stays with it. -/
theorem claims_linked {tasks : List (ℕ × Uuid)} (h : Linked tasks w)
    (hnames : ∀ job ∈ jobs, ∀ row, (job.1, row) ∈ tasks → row = job.2)
    (hcalls : called c env w (jobs.map fun job => .claim job.1 job.2) = some w') :
    Linked tasks w' := by
  induction jobs generalizing w with
  | nil =>
    obtain rfl := Option.some.inj hcalls
    exact h
  | cons job jobs ih =>
    obtain ⟨-, u, hstep, hrest⟩ := Lts.run_cons.mp hcalls
    refine ih (h.step hstep ?_ fun _ _ _ heq => nomatch heq)
      (fun job hjob => hnames job (List.mem_cons_of_mem _ hjob)) hrest
    intro name row heq row' htask
    obtain ⟨rfl, rfl⟩ := GumServer.Action.claim.inj heq
    exact hnames job List.mem_cons_self row' htask

end Claims

/-! ## How many are at a row -/

section Holders

variable {c : OutboxConfig} {s : State} {a : Action} {p : Slot → Bool} {replica : ℕ} {b b' : Batch}
  {row : Uuid}

theorem State.holding_le (hb : s.batches.get? replica = some b) :
    b.holding p row ≤ s.holders p row :=
  KeyMap.le_total_of_get? (fun b => b.holding p row) hb

theorem State.exists_holder (h : s.holders p row ≠ 0) :
    ∃ replica b, s.batches.get? replica = some b ∧ b.holding p row ≠ 0 := by
  obtain ⟨b, hb, hholding⟩ := KeyMap.exists_of_total_ne_zero h
  obtain ⟨replica, hget⟩ := KeyMap.exists_get?_of_mem_values hb
  exact ⟨replica, b, hget, hholding⟩

/-- A replica goes on with its batch. -/
theorem holders_put (hb : s.batches.get? replica = some b) :
    State.holders { s with batches := s.batches.put replica b' } p row + b.holding p row =
      s.holders p row + b'.holding p row := by
  have hput := s.batches.total_put (fun b => b.holding p row) replica b'
  rwa [hb, Option.map_some, Option.getD_some] at hput

/-- **Only a claim adds to those at a row.** -/
theorem holders_step {plan : Plan} (hp : Batch.Fades p) (h : Planned c s a plan) (row : Uuid) :
    plan.batches.total (fun b => b.holding p row) ≤ s.holders p row + a.claims.count row := by
  have hput {replica : ℕ} {b b' : Batch} (hb : s.batches.get? replica = some b)
      (hle : b'.holding p row ≤ b.holding p row) :
      (s.batches.put replica b').total (fun b => b.holding p row) ≤ s.holders p row := by
    have hsame := @holders_put s p replica b b' row hb
    rw [State.holders] at hsame
    dsimp only at hsame
    omega
  cases h with
  | service a hrest => exact Nat.le_refl _
  | tick clock hallows => exact Nat.le_refl _
  | claim replica jobs hfree hrows hnames hsize hnew =>
    have hadd := s.batches.total_put (fun b => b.holding p row) replica
      ⟨jobs, s.world.clock.toMicros, none, 0, Table.empty⟩
    rw [hfree, Option.map_none, Option.getD_none, Nat.add_zero] at hadd
    refine hadd.le.trans (Nat.add_le_add_left ?_ _)
    rw [Batch.holding, Batch.workers, Batch.waiting]
    exact (Nat.zero_add _).le
  | receive replica b hb hreceived => exact hput hb (Nat.le_refl _)
  | start replica rescheduler b name row' hb hnext hreceived hnew =>
    exact hput hb (Batch.holding_start hnext)
  | work replica position input mint b slot name hb hslot hname =>
    exact hput hb (Batch.holding_update_le hslot rfl rfl (hp.worked slot _))
  | abandon replica position b slot hb hslot hnow =>
    exact hput hb (Batch.holding_update_le hslot rfl rfl (hp.abandon slot _))
  | reschedule replica position input mint b slot name hb hslot hname =>
    exact hput hb (Batch.holding_update_le hslot rfl rfl (hp.rescheduled slot))
  | finish replica position b slot hb hslot => exact hput hb (Batch.holding_finish position)
  | leave replica b hb =>
    exact Nat.le.intro (s.batches.total_erase (fun b => b.holding p row) replica)
  | late name input mint hlate => exact Nat.le_refl _

/-- **Who claims a row claims it for itself**, if nobody has it. -/
theorem holders_le_one {plan : Plan} (hp : Batch.Fades p) (h : Planned c s a plan)
    (honce : s.holders p row ≤ 1) (hfree : row ∈ a.claims → s.holders p row = 0) :
    plan.batches.total (fun b => b.holding p row) ≤ 1 := by
  have hle := holders_step hp h row
  by_cases hrow : row ∈ a.claims
  · have hnodup : a.claims.Nodup := by
      cases h with
      | claim replica jobs hfree hrows hnames hsize hnew => exact hrows
      | _ => exact List.nodup_nil
    rw [hfree hrow, List.count_eq_one_of_mem hnodup hrow] at hle
    exact hle
  · rw [List.count_eq_zero.mpr hrow] at hle
    exact hle.trans honce

/-- **A job that executes a last statement gives its row back**, if it has not been given back, or
nobody has it. -/
theorem holders_returned {position : ℕ} {slot slot' : Slot} (hb : s.batches.get? replica = some b)
    (hslot : b.running.get? position = some slot) (hposition : slot'.position = slot.position)
    (hrow : slot'.row = slot.row) (hreturned : slot'.returned = true)
    (honce : s.holders Slot.isHeld slot.row ≤ 1)
    (hfree : slot.returned = true → s.holders Slot.isHeld slot.row = 0) :
    State.holders { s with batches := s.batches.put replica (b.update slot') } Slot.isHeld
      slot.row = 0 := by
  have hput := @holders_put s Slot.isHeld replica b (b.update slot') slot.row hb
  have hupdate := @Batch.holding_update b Slot.isHeld slot.row position slot slot' hslot hposition
    hrow
  have hlast : ¬ (slot'.isHeld = true ∧ slot.row = slot.row) := by
    rw [Slot.isHeld, hreturned]
    exact fun h => Bool.false_ne_true h.1
  rw [if_neg hlast] at hupdate
  cases hwas : slot.returned with
  | true =>
    rw [hfree hwas] at hput
    omega
  | false =>
    rw [if_pos ⟨by rw [Slot.isHeld, hwas]; rfl, rfl⟩] at hupdate
    omega

end Holders

/-! ## One replica a row -/

/-- **The invariant.** -/
structure Inv (c : OutboxConfig) (env : Env) (s : State) : Prop where
  service : Reachable (c.env env) s.world
  timed : ∀ {replica b}, s.batches.get? replica = some b → b.Timed c s.world.clock.toMicros
  named : ∀ {replica b}, s.batches.get? replica = some b → b.tasks ⊆ s.tasks
  linked : Linked s.tasks s.world
  /-- a row that is held is under the lock of the claim -/
  locked : ∀ {replica b row}, s.batches.get? replica = some b → b.holding Slot.isHeld row ≠ 0 →
    row ∈ s.world.minted ∧ s.world.Locked row (b.claimedAt + c.lockTtl)

theorem State.isNew_eq_true {s : State} {name : ℕ} (h : s.isNew name = true) :
    s.world.tasks.get? name = none ∧ ∀ row, (name, row) ∉ s.tasks := by
  rw [isNew, Bool.and_eq_true, Bool.not_eq_true'] at h
  refine ⟨Option.isNone_iff_eq_none.mp h.1, ?_⟩
  intro row htask
  exact List.any_eq_false.mp h.2 (name, row) htask (decide_eq_true rfl)

namespace Inv

variable {c : OutboxConfig} {env : Env} {s t : State} {replica : ℕ} {b b' : Batch}

/-- Nobody has anything at first. -/
theorem init {w : World} (hw : Reachable (c.env env) w) : Inv c env (State.init w) where
  service := hw
  timed hget := by cases hget
  named hget := by cases hget
  linked _ _ _ _ htask := by cases htask
  locked hget := by cases hget

/-- A replica goes on with its batch, and holds no row it did not hold. -/
theorem put (h : Inv c env s) (hb : s.batches.get? replica = some b)
    (hclaimedAt : b'.claimedAt = b.claimedAt) (htimed : b'.Timed c s.world.clock.toMicros)
    (htasks : b'.tasks ⊆ s.tasks)
    (hholding : ∀ row, b'.holding Slot.isHeld row ≤ b.holding Slot.isHeld row) :
    Inv c env { s with batches := s.batches.put replica b' } where
  service := h.service
  timed := by
    intro replica' b'' hget
    rw [KeyMap.get?_put] at hget
    split at hget
    · obtain rfl := Option.some.inj hget
      exact htimed
    · exact h.timed hget
  named := by
    intro replica' b'' hget
    rw [KeyMap.get?_put] at hget
    split at hget
    · obtain rfl := Option.some.inj hget
      exact htasks
    · exact h.named hget
  linked := h.linked
  locked := by
    intro replica' b'' row hget hheld
    rw [KeyMap.get?_put] at hget
    split at hget
    · obtain rfl := Option.some.inj hget
      rw [hclaimedAt]
      have hle := hholding row
      exact h.locked hb (by omega)
    · exact h.locked hget hheld

/-- A job goes on. -/
theorem update (h : Inv c env s) {position : ℕ} {slot slot' : Slot}
    (hb : s.batches.get? replica = some b) (hslot : b.running.get? position = some slot)
    (hposition : slot'.position = slot.position) (hrow : slot'.row = slot.row)
    (hstartedAt : slot'.startedAt = slot.startedAt)
    (habandoned : ∀ t, slot'.abandonedAt = some t → slot.abandonedAt = some t ∨
      t = slot.startedAt + c.jobTimeout)
    (htasks : slot'.tasks ⊆ slot.tasks) (hheld : slot'.isHeld = true → slot.isHeld = true) :
    Inv c env { s with batches := s.batches.put replica (b.update slot') } := by
  refine h.put hb rfl ((h.timed hb).update hslot hposition hstartedAt habandoned) ?_ ?_
  · exact List.Subset.trans (Batch.tasks_update hslot htasks) (h.named hb)
  · intro row
    exact Batch.holding_update_le hslot hposition hrow hheld

/-- **A replica is gone**, and its rows with it. -/
theorem leave (h : Inv c env s) (replica : ℕ) :
    Inv c env { s with batches := s.batches.erase replica } where
  service := h.service
  timed := by
    intro replica' b hget
    rw [KeyMap.get?_erase] at hget
    exact h.timed (Option.ite_none_left_eq_some.mp hget).2
  named := by
    intro replica' b hget
    rw [KeyMap.get?_erase] at hget
    exact h.named (Option.ite_none_left_eq_some.mp hget).2
  linked := h.linked
  locked := by
    intro replica' b row hget hheld
    rw [KeyMap.get?_erase] at hget
    exact h.locked (Option.ite_none_left_eq_some.mp hget).2 hheld

/-- **The service goes on**, and puts off no row that somebody has. -/
theorem calm (h : Inv c env s) {w : World} (hrun : Lts.Reaches (GumServer.step (c.env env))
    (Calm (c.env env) fun row => s.holders Slot.isHeld row = 0) s.world w) :
    Inv c env { s with world := w } := by
  obtain ⟨hclock, hlocked⟩ := locked_calm hrun
  refine ⟨h.service.trans (hrun.mono fun _ => trivial), ?_, h.named, h.linked.calm hrun, ?_⟩
  · intro replica b hget
    show b.Timed c w.clock.toMicros
    rw [hclock]
    exact h.timed hget
  · intro replica b row hget hheld
    obtain ⟨hrow, hlock⟩ := h.locked hget hheld
    have hle := @State.holding_le s Slot.isHeld replica b row hget
    exact hlocked row _ (by omega) hrow hlock

/-- **A job's statement is executed**, and its row is given back if it is the last one. -/
theorem advance (h : Inv c env s) (names : List ℕ) {position name : ℕ} {slot slot' : Slot}
    {input : Input} {mint : Mint} {w : World} (hb : s.batches.get? replica = some b)
    (hslot : b.running.get? position = some slot)
    (hput : Inv c env { s with batches := s.batches.put replica (b.update slot') })
    (hposition : slot'.position = slot.position) (hrow : slot'.row = slot.row)
    (hmem : (name, slot.row) ∈ slot.tasks) (honce : s.holders Slot.isHeld slot.row ≤ 1)
    (hlast : s.isLast name = true → slot'.returned = true)
    (hstray : slot.returned = true →
      (s.world.commits (c.env env) (.advance name input mint)).putsOff = some slot.row →
      s.holders Slot.isHeld slot.row = 0)
    (hcalls : called c env s.world (.advance name input mint :: names.map .drop) = some w) :
    Inv c env ⟨w, s.batches.put replica (b.update slot'), s.tasks⟩ := by
  refine hput.calm (calm_call _ hcalls (calm_advance ?_))
  intro job stage ht hstage hputs
  have hjob : job.id = slot.row :=
    h.linked name slot.row job stage (h.named hb (Batch.mem_tasks hslot hmem)) ht
  have hisLast : s.isLast name = true := by
    rw [State.isLast, ht]
    exact hstage
  rw [hjob] at hputs ⊢
  exact holders_returned hb hslot hposition hrow (hlast hisLast) honce fun hreturned =>
    hstray hreturned hputs

/-- **Time passes**, as far as the batches allow. -/
theorem tick (h : Inv c env s) (hw : 0 < c.workers) {clock : DateTime}
    (hallows : ∀ {replica b}, s.batches.get? replica = some b → b.allows c clock.toMicros = true)
    (hlater : s.world.clock.toMicros ≤ clock.toMicros) :
    Inv c env { s with world := { s.world with clock := clock } } where
  service := by
    refine h.service.tail (a := .tick clock) ?_
    rw [GumServer.step, require, if_pos (decide_eq_true hlater)]
  timed := fun hget => (h.timed hget).tick hw (hallows hget)
  named := h.named
  linked := h.linked
  locked := h.locked

/-- **A job starts**, with the task that will reschedule it. -/
theorem start (h : Inv c env s) {name rescheduler : ℕ} {row : Uuid} {w : World}
    (hb : s.batches.get? replica = some b) (hnext : b.jobs[b.started]? = some (name, row))
    (hreceived : b.received.isSome) (hnew : s.isNew rescheduler = true)
    (hstep : GumServer.step (c.env env) s.world (.abandon name rescheduler c.timedOut) = some w) :
    Inv c env ⟨w, s.batches.put replica (b.start s.world.clock.toMicros name row rescheduler),
      (rescheduler, row) :: s.tasks⟩ := by
  obtain ⟨hnone, hunused⟩ := State.isNew_eq_true hnew
  obtain ⟨hhead, htasks⟩ := @Batch.tasks_start b s.world.clock.toMicros name rescheduler row hnext
  have hmore : Inv c env { s with tasks := (rescheduler, row) :: s.tasks } := by
    refine ⟨h.service, h.timed, fun hget => List.subset_cons_of_subset _ (h.named hget), ?_,
      h.locked⟩
    intro name' row' job stage htask ht
    rcases List.mem_cons.mp htask with heq | hold
    · obtain ⟨rfl, rfl⟩ := Prod.mk.inj heq
      rw [hnone] at ht
      cases ht
    · exact h.linked name' row' job stage hold ht
  have hput : Inv c env ⟨s.world,
      s.batches.put replica (b.start s.world.clock.toMicros name row rescheduler),
      (rescheduler, row) :: s.tasks⟩ :=
    hmore.put hb rfl ((h.timed hb).start hreceived (List.getElem?_eq_some_iff.mp hnext).1)
      (List.Subset.trans htasks (List.cons_subset_cons _ (h.named hb)))
      fun row' => Batch.holding_start hnext
  have hlinked : Linked ((rescheduler, row) :: s.tasks) w := by
    refine hput.linked.step hstep (fun _ _ heq => nomatch heq) ?_
    intro old name' error heq row' htask
    obtain ⟨rfl, rfl, -⟩ := GumServer.Action.abandon.inj heq
    rcases List.mem_cons.mp htask with heq | hold
    · obtain ⟨-, rfl⟩ := Prod.mk.inj heq
      exact List.mem_cons_of_mem _ (h.named hb hhead)
    · exact absurd hold (hunused row')
  cases step_cases hstep with
  | abandon _ _ _ job stage ht hfree =>
    exact ⟨h.service.tail hstep, hput.timed, hput.named, hlinked, hput.locked⟩

/-- **Nobody has a row that is claimed**: it is due, and what somebody has is locked. -/
theorem claims_free {a : Action} (h : Inv c env s) (hw : 0 < c.workers) (hfits : c.Fits)
    (hstep : Leases.step c env s a = some t) {row : Uuid} (hrow : row ∈ a.claims) :
    s.holders Slot.isHeld row = 0 := by
  obtain ⟨p, hplan, hcalls, -⟩ := step_calls hstep
  cases hplan with
  | claim replica jobs =>
    by_contra hne
    obtain ⟨replica', b, hget, hheld⟩ := State.exists_holder hne
    obtain ⟨hknown, hlocked⟩ := h.locked hget hheld
    have hstays := claims_locked h.service hknown hlocked ((h.timed hget).now_le hw hfits hheld)
      hcalls
    exact hstays.1 hrow
  | _ => exact absurd hrow List.not_mem_nil

/-- **A claim.** -/
theorem claim (h : Inv c env s) (hw : 0 < c.workers) (hfits : c.Fits) {jobs : List (ℕ × Uuid)}
    {w : World} (hnames : (jobs.map Prod.fst).Nodup) (hsize : (jobs.length : ℤ) ≤ c.batchSize)
    (hnew : ∀ job ∈ jobs, s.isNew job.1 = true)
    (hcalls : called c env s.world (jobs.map fun job => .claim job.1 job.2) = some w) :
    Inv c env ⟨w, s.batches.put replica ⟨jobs, s.world.clock.toMicros, none, 0, Table.empty⟩,
      jobs ++ s.tasks⟩ := by
  have hclock : w.clock = s.world.clock := by
    cases jobs with
    | nil =>
      obtain rfl := Option.some.inj hcalls
      rfl
    | cons job jobs =>
      have httl := hfits.lockTtl_nonneg (Nat.succ_pos jobs.length) hsize
      exact (claims_lock h.service httl hcalls).1
  have hstarted : (Batch.mk jobs s.world.clock.toMicros none 0 Table.empty).Timed c
      s.world.clock.toMicros := by
    refine ⟨hsize, Nat.zero_le _, fun _ => ⟨rfl, rfl, ?_⟩, ?_, fun _ hslot =>
      absurd hslot List.not_mem_nil⟩
    · exact Int.le_add_of_nonneg_right (by decide)
    · rintro _ ⟨⟩
  refine ⟨h.service.trans (Lts.reaches_of_run hcalls), ?_, ?_, ?_, ?_⟩
  · intro replica' b hget
    rw [hclock]
    rw [KeyMap.get?_put] at hget
    split at hget
    · obtain rfl := Option.some.inj hget
      exact hstarted
    · exact h.timed hget
  · intro replica' b hget
    rw [KeyMap.get?_put] at hget
    split at hget
    · obtain rfl := Option.some.inj hget
      rw [Batch.tasks, Batch.waiting, List.drop_zero]
      exact List.append_subset.mpr ⟨List.subset_append_left _ _, fun _ htask =>
        absurd htask List.not_mem_nil⟩
    · exact List.subset_append_of_subset_right _ (h.named hget)
  · refine claims_linked ?_ ?_ hcalls
    · intro name row job stage htask ht
      rcases List.mem_append.mp htask with hjob | hold
      · rw [(State.isNew_eq_true (hnew _ hjob)).1] at ht
        cases ht
      · exact h.linked name row job stage hold ht
    · intro job hjob row htask
      rcases List.mem_append.mp htask with hmem | hold
      · exact congrArg Prod.snd (List.inj_on_of_nodup_map hnames hmem hjob rfl)
      · exact absurd hold ((State.isNew_eq_true (hnew job hjob)).2 row)
  · intro replica' b row hget hheld
    rw [KeyMap.get?_put] at hget
    split at hget
    · obtain rfl := Option.some.inj hget
      have hrow : row ∈ jobs.map Prod.snd := by
        refine List.count_pos_iff.mp (Nat.pos_of_ne_zero ?_)
        rwa [Batch.holding, Batch.workers, Batch.waiting, List.drop_zero, Table.empty,
          List.countP_nil, Nat.zero_add] at hheld
      have hpos : 0 < jobs.length := by
        rw [← List.length_map]
        exact List.length_pos_of_mem hrow
      exact (claims_lock h.service (hfits.lockTtl_nonneg hpos hsize) hcalls).2 row hrow
    · obtain ⟨hknown, hlocked⟩ := h.locked hget hheld
      have hstays := claims_locked h.service hknown hlocked
        ((h.timed hget).now_le hw hfits hheld) hcalls
      exact ⟨hstays.2.1, hstays.2.2.1⟩

/-- **One step**, for what has at most one holder. -/
theorem step {a : Action} (h : Inv c env s) (honce : ∀ row, s.holders Slot.isHeld row ≤ 1)
    (hw : 0 < c.workers) (hfits : c.Fits) (hok : Undisputed c env s a)
    (hstep : Leases.step c env s a = some t) : Inv c env t := by
  obtain ⟨p, hplan, hcalls, hbatches, htasks⟩ := step_calls hstep
  obtain ⟨w, batches, tasks⟩ := t
  dsimp only at hcalls hbatches htasks
  subst hbatches htasks
  cases hplan with
  | service a hrest =>
    exact h.calm (calm_call [] hcalls (calm_rest hrest))
  | tick clock hallows =>
    obtain ⟨-, u, hcall, hrest⟩ := Lts.run_cons.mp hcalls
    obtain rfl := Option.some.inj hrest
    cases step_cases hcall with
    | tick _ hlater => exact h.tick hw hallows hlater
  | claim replica jobs hfree hrows hnames hsize hnew =>
    exact h.claim hw hfits hnames hsize hnew hcalls
  | receive replica b hb hreceived =>
    obtain rfl := Option.some.inj hcalls
    have htasks : b.tasks ⊆ s.tasks := h.named hb
    exact h.put hb rfl ((h.timed hb).receive hreceived) htasks fun _ => Nat.le_refl _
  | start replica rescheduler b name row hb hnext hreceived hnew =>
    obtain ⟨-, u, hcall, hrest⟩ := Lts.run_cons.mp hcalls
    obtain rfl := Option.some.inj hrest
    exact h.start hb hnext hreceived hnew hcall
  | work replica position input mint b slot name hb hslot hname =>
    have hmem : (name, slot.row) ∈ slot.tasks := by
      rw [Slot.tasks, hname]
      exact List.mem_cons_self
    have hput : Inv c env { s with
        batches := s.batches.put replica (b.update (slot.worked (s.isLast name))) } :=
      h.update hb hslot rfl rfl rfl (fun _ => .inl) (slot.tasks_worked _)
        (Batch.fades_isHeld.worked slot _)
    refine h.advance _ hb hslot hput rfl rfl hmem (honce slot.row) ?_ ?_ hcalls
    · intro hlast
      rw [Slot.worked, hlast, Bool.or_true]
    · intro hreturned
      refine hok (.advance name input mint) ?_ slot.row
      rw [State.stray, hb, Option.bind_some, hslot, Option.bind_some, if_pos hreturned, hname]
      rfl
  | abandon replica position b slot hb hslot hnow =>
    obtain rfl := Option.some.inj hcalls
    refine h.update hb hslot rfl rfl rfl ?_ (List.Subset.refl _)
      (Batch.fades_isHeld.abandon slot _)
    intro t ht
    exact .inr ((Option.some.inj ht).symm.trans hnow)
  | reschedule replica position input mint b slot name hb hslot hname =>
    have hmem : (name, slot.row) ∈ slot.tasks := by
      rw [Slot.tasks, hname]
      exact List.mem_map_of_mem (List.mem_append_right _ List.mem_cons_self)
    have hput : Inv c env { s with
        batches := s.batches.put replica (b.update slot.rescheduled) } :=
      h.update hb hslot rfl rfl rfl (fun _ => .inl) slot.tasks_rescheduled
        (Batch.fades_isHeld.rescheduled slot)
    refine h.advance [] hb hslot hput rfl rfl hmem (honce slot.row) (fun _ => rfl) ?_ hcalls
    intro hreturned
    refine hok (.advance name input mint) ?_ slot.row
    rw [State.stray, hb, Option.bind_some, hslot, Option.bind_some, if_pos hreturned, hname]
    rfl
  | finish replica position b slot hb hslot =>
    have hput : Inv c env { s with batches := s.batches.put replica (b.finish position) } :=
      h.put hb rfl ((h.timed hb).finish position)
        (List.Subset.trans (Batch.tasks_finish position) (h.named hb))
        fun row => Batch.holding_finish position
    exact hput.calm (calm_drops hcalls)
  | leave replica b hb =>
    exact (h.leave replica).calm (calm_drops hcalls)
  | late name input mint hlate =>
    refine h.calm (calm_call _ hcalls (calm_advance ?_))
    intro job stage _ _ hputs
    exact hok (.advance name input mint) rfl job.id hputs

end Inv

section Runs

variable {c : OutboxConfig} {env : Env} {w : World} {s : State}

/-- **A run whose stray statements dispute no row**, from any state of the service. -/
theorem inv_of_run (hw : Reachable (c.env env) w) (hvalid : c.validate = .ok ()) (hfits : c.Fits)
    (h : Lts.Reaches (step c env) (Undisputed c env) (State.init w) s) :
    Inv c env s ∧ ∀ row, s.holders Slot.isHeld row ≤ 1 := by
  refine h.invariant (P := fun s => Inv c env s ∧ ∀ row, s.holders Slot.isHeld row ≤ 1)
    ⟨.init hw, fun _ => Nat.zero_le 1⟩ ?_
  rintro s a t _ ⟨hinv, honce⟩ hok hstep
  have hw := OutboxConfig.workers_pos hvalid
  obtain ⟨p, hplan, -, hbatches, -⟩ := step_calls hstep
  refine ⟨hinv.step honce hw hfits hok hstep, fun row => ?_⟩
  rw [State.holders, hbatches]
  exact holders_le_one Batch.fades_isHeld hplan (honce row) (hinv.claims_free hw hfits hstep)

/-- And if no row is claimed while somebody waits for the answer to its last statement. -/
theorem inUse_le_one (hw : Reachable (c.env env) w) (hvalid : c.validate = .ok ()) (hfits : c.Fits)
    (h : Lts.Reaches (step c env) (fun s a => Undisputed c env s a ∧ Answered s a) (State.init w) s)
    (row : Uuid) : s.holders Slot.isInUse row ≤ 1 := by
  refine h.invariant (P := fun s => s.holders Slot.isInUse row ≤ 1) (Nat.zero_le 1) ?_
  rintro s a t hs honce ⟨hok, hanswered⟩ hstep
  obtain ⟨hinv, -⟩ := inv_of_run hw hvalid hfits (hs.mono And.left)
  obtain ⟨p, hplan, -, hbatches, -⟩ := step_calls hstep
  rw [State.holders, hbatches]
  refine holders_le_one Batch.fades_isInUse hplan honce ?_
  intro hrow
  by_contra hne
  obtain ⟨replica, b, hb, hholding⟩ := State.exists_holder hne
  have hheld : b.holding Slot.isHeld row ≤ s.holders Slot.isHeld row := State.holding_le hb
  have hexecuting : b.workers Slot.isExecuting row ≤ s.executing row :=
    KeyMap.le_total_of_get? (fun b => b.workers Slot.isExecuting row) hb
  have hle := @Batch.holding_isInUse_le b row
  rw [hinv.claims_free (OutboxConfig.workers_pos hvalid) hfits hstep hrow] at hheld
  rw [hanswered row hrow] at hexecuting
  omega

end Runs

/-- **One worker a row.** If the whole batch fits into the lock, and no statement that comes after
its job's last one, or that nobody waits for, puts off a row that somebody has, no row ever has two
workers at it: not two of one replica, and not two of different ones. And if besides no row is
claimed while one of them still waits for the answer to its last statement, no two are ever running.
This holds from any state of the service, and whatever else the service does. -/
theorem executed_once (c : OutboxConfig) (env : Env) (hvalid : c.validate = .ok ()) (hfits : c.Fits)
    (w : World) (hw : Reachable (c.env env) w) :
    (∀ s, Lts.Reaches (step c env) (Undisputed c env) (State.init w) s →
      Reachable (c.env env) s.world ∧ ∀ row, s.working row ≤ 1) ∧
    ∀ s, Lts.Reaches (step c env) (fun s a => Undisputed c env s a ∧ Answered s a)
      (State.init w) s → ∀ row, s.executing row ≤ 1 := by
  constructor
  · intro s h
    refine ⟨reachable_world hw h, fun row => ?_⟩
    have hle (b : Batch) : b.workers Slot.isAtWork row ≤ b.holding Slot.isHeld row :=
      (Batch.workers_mono fun slot hslot => (Bool.and_eq_true_iff.mp hslot).2).trans
        Batch.workers_le_holding
    exact (s.batches.total_mono hle).trans ((inv_of_run hw hvalid hfits h).2 row)
  · intro s h row
    have hle (b : Batch) : b.workers Slot.isExecuting row ≤ b.holding Slot.isInUse row :=
      (Batch.workers_mono fun slot hslot => Bool.or_eq_true_iff.mpr (.inl hslot)).trans
        Batch.workers_le_holding
    exact (s.batches.total_mono hle).trans (inUse_le_one hw hvalid hfits h row)

end Leases

namespace Fixture

/-- The default configuration, with a batch no larger than the pool. -/
def roomy : OutboxConfig := ⟨8, 8, 60, 30000⟩

/-- The default configuration. -/
def cramped : OutboxConfig := ⟨8, 32, 60, 30000⟩

/-- Deposits are created, each with a row of the outbox for its watch. -/
def untilQueued (n : ℕ) : List Action :=
  .setUser "user" none :: (List.range n).map fun i =>
    .create { new with paymentAddress := Fin.ofNat _ (i + 1) } "user" (Fin.ofNat _ (i + 1)) (mint i)

/-- The first rows as the jobs of a replica. -/
def jobsOf (replica n : ℕ) : List (ℕ × Uuid) :=
  (List.range n).map fun i => (100 * replica + i, (mint i).job)

/-- A job that the indexer does not answer in time. -/
def unheard (replica position secs : ℕ) : List Leases.Action := [
  .work replica position (.load (later secs)) (mint (100 + position)),
  .work replica position (.watch (.unavailable "timeout")) (mint (200 + position)),
  .work replica position (.schedule (later secs) 1000000) (mint (300 + position))]

/-- Nine rows are claimed at once, the claim is answered after 3 seconds, and all but the last take
29 seconds each. The last one starts after 32 seconds; at 61 seconds its lock has run out. -/
def untilOverrun : List Leases.Action := List.flatten [
  [.claim 0 (jobsOf 0 9), .tick (later 3), .receive 0],
  (List.range 8).map fun i => .start 0 (50 + i),
  [.tick (later 32)],
  (List.range 8).flatMap fun i => unheard 0 i 32 ++ [.finish 0 i],
  [.start 0 58, .tick (later 61), .claim 1 [(100, (mint 8).job)], .receive 1, .start 1 59]]

/-- A row is claimed, and put off a second before its job's timeout; but the answer does not come,
and the job is abandoned. -/
def untilUnanswered : List Leases.Action := List.flatten [
  [.claim 0 (jobsOf 0 1), .receive 0, .start 0 50, .tick (later 29)],
  unheard 0 0 29,
  [.tick (later 30), .abandon 0 0]]

/-- The row is put off again, and claimed by another replica. -/
def untilAgain : List Leases.Action := untilUnanswered ++ [
  .reschedule 0 0 (.schedule (later 30) 1000000) (mint 400), .finish 0 0,
  .tick (later 31), .claim 1 (jobsOf 1 1), .receive 1, .start 1 51]

/-- The row is claimed by another replica, put off again, and claimed by a third one. -/
def untilDisputed : List Leases.Action := untilUnanswered ++ [
  .tick (later 31), .claim 1 (jobsOf 1 1), .receive 1, .start 1 51,
  .reschedule 0 0 (.schedule (later 31) 1000000) (mint 400),
  .tick (later 32), .claim 2 (jobsOf 2 1), .receive 2, .start 2 52]

end Fixture

namespace Leases

/-- A row that is put off twice, the second time while nobody has it. -/
theorem executed_once_fixture : Fixture.roomy.validate = .ok () ∧ Fixture.roomy.Fits ∧
    ∃ w s, Reachable (Fixture.roomy.env Fixture.env) w ∧
      Lts.Reaches (step Fixture.roomy Fixture.env)
        (fun s a => Undisputed Fixture.roomy Fixture.env s a ∧ Answered s a) (State.init w) s ∧
      s.working (Fixture.mint 0).job = 1 ∧
      ∀ row, s.working row ≤ 1 ∧ s.executing row ≤ 1 := by
  have hvalid : Fixture.roomy.validate = .ok () := rfl
  have hfits : Fixture.roomy.Fits := by decide
  obtain ⟨w, hw, hrun⟩ : ∃ w, Lts.Reaches (GumServer.step (Fixture.roomy.env Fixture.env)) Lts.Any
      (World.init (Fixture.later 0)) w ∧ ((Lts.run (step Fixture.roomy Fixture.env)
        (fun s a => decide (Undisputed Fixture.roomy Fixture.env s a ∧ Answered s a)) (State.init w)
        Fixture.untilAgain).map fun s => s.working (Fixture.mint 0).job) = some 1 :=
    @Lts.exists_reaches_of_run _ _ _ _ _ _ _ (Fixture.untilQueued 1) _ _ (by decide +kernel)
  obtain ⟨s, hs, hone⟩ := Option.map_eq_some_iff.mp hrun
  have hreach := Lts.reaches_of_run hs
  have hreachable : Reachable (Fixture.roomy.env Fixture.env) w := ⟨_, hw⟩
  obtain ⟨hworking, hexecuting⟩ :=
    executed_once Fixture.roomy Fixture.env hvalid hfits w hreachable
  refine ⟨hvalid, hfits, w, s, hreachable, hreach, hone, fun row => ⟨?_, hexecuting s hreach row⟩⟩
  exact (hworking s (hreach.mono And.left)).2 row

/-- Two configurations that `Config::validate` accepts, and two replicas at one row: with a batch
that does not fit into the lock, and with one that does, where a row is put off a second time. -/
theorem executed_twice :
    (Fixture.cramped.validate = .ok () ∧ ∃ w s, Reachable (Fixture.cramped.env Fixture.env) w ∧
      Lts.Reaches (step Fixture.cramped Fixture.env) (Undisputed Fixture.cramped Fixture.env)
        (State.init w) s ∧ s.working (Fixture.mint 8).job = 2) ∧
    Fixture.roomy.validate = .ok () ∧ Fixture.roomy.Fits ∧
      ∃ w s, Reachable (Fixture.roomy.env Fixture.env) w ∧
        Lts.Reaches (step Fixture.roomy Fixture.env) Lts.Any (State.init w) s ∧
        s.working (Fixture.mint 0).job = 2 := by
  have hover : ∃ w, Lts.Reaches (GumServer.step (Fixture.cramped.env Fixture.env)) Lts.Any
      (World.init (Fixture.later 0)) w ∧ ((Lts.run (step Fixture.cramped Fixture.env)
        (fun s a => decide (Undisputed Fixture.cramped Fixture.env s a)) (State.init w)
        Fixture.untilOverrun).map fun s => s.working (Fixture.mint 8).job) = some 2 :=
    @Lts.exists_reaches_of_run _ _ _ _ _ _ _ (Fixture.untilQueued 9) _ _ (by decide +kernel)
  have hagain : ∃ w, Lts.Reaches (GumServer.step (Fixture.roomy.env Fixture.env)) Lts.Any
      (World.init (Fixture.later 0)) w ∧ ((Lts.run (step Fixture.roomy Fixture.env)
        (fun s a => decide (Lts.Any s a)) (State.init w) Fixture.untilDisputed).map fun s =>
          s.working (Fixture.mint 0).job) = some 2 :=
    @Lts.exists_reaches_of_run _ _ _ _ _ _ _ (Fixture.untilQueued 1) _ _ (by decide +kernel)
  constructor
  · obtain ⟨w, hw, hrun⟩ := hover
    obtain ⟨s, hs, htwo⟩ := Option.map_eq_some_iff.mp hrun
    exact ⟨rfl, w, s, ⟨_, hw⟩, Lts.reaches_of_run hs, htwo⟩
  · obtain ⟨w, hw, hrun⟩ := hagain
    obtain ⟨s, hs, htwo⟩ := Option.map_eq_some_iff.mp hrun
    exact ⟨rfl, by decide, w, s, ⟨_, hw⟩, Lts.reaches_of_run hs, htwo⟩

end Leases

end GumServer
