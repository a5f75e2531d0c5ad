import GumServer.Pool
import GumServer.World

/-!
# Batches of outbox rows

Every replica runs one loop (`outbox::run`): it claims a batch of due rows, which locks them for
`lock_ttl_secs`, runs the jobs of the batch in order on a pool of `workers` permits, and claims
again when the last one is over. A permit is in use while `run_bounded` runs: while `execute` does,
for at most `job_timeout_ms`, and if it has been abandoned, while its row is rescheduled.

The lock runs from the claim and the timeout from the start of a job, and in between a job waits
for the answer of the claim and then for a permit. So `job_timeout_ms` below `lock_ttl_secs`, which
is all that `Config::validate` asks for, does not keep a row with one worker: what has to fit into
the lock is the whole batch (`OutboxConfig.Fits`). With it, a batch is over before the first of its
locks is (`Batch.Timed.now_le`).
-/

namespace GumServer

/-- `OutboxConfig`, as far as the loop reads it. -/
structure OutboxConfig where
  workers : ℕ
  batchSize : ℤ
  lockTtlSecs : ℤ
  jobTimeoutMs : U64

namespace OutboxConfig

variable (c : OutboxConfig)

/-- The part of `Config::validate` about the outbox. -/
def validate : Except String Unit :=
  if c.workers = 0 then .error "outbox.workers must be at least 1"
  else if c.jobTimeoutMs = 0 ∨ U64.ofInt (max c.lockTtlSecs 0) * 1000 ≤ c.jobTimeoutMs then
    .error "outbox.job_timeout_ms must be above 0 and below outbox.lock_ttl_secs"
  else .ok ()

/-- `job_timeout_ms`, in microseconds like every time below. -/
def jobTimeout : ℤ := c.jobTimeoutMs.val * 1000

/-- `lock_ttl_secs`. -/
def lockTtl : ℤ := c.lockTtlSecs * 1000000

/-- What the rescheduling of an abandoned job gives as its error. -/
def timedOut : String := "timed out after " ++ toString c.jobTimeoutMs.val ++ " ms"

/-- The service, as the loop runs it. -/
def env (env : Env) : Env := { env with lockTtlSecs := c.lockTtlSecs }

end OutboxConfig

/-- `CLAIM_TIMEOUT`. -/
def CLAIM_TIMEOUT : ℤ := 10000000

/-- `RESCHEDULE_TIMEOUT`. -/
def RESCHEDULE_TIMEOUT : ℤ := 5000000

/-! ## The loop -/

/-- A permit in use: `run_bounded` on a job of the batch. What it has the database execute is done
by tasks of the service, which it has until they are over or dropped. -/
structure Slot where
  row : Uuid
  /-- the job's place in the batch -/
  position : ℕ
  startedAt : ℤ
  /-- when the timeout ran out, and the rescheduling began -/
  abandonedAt : Option ℤ
  /-- the task of `execute` -/
  worker : Option ℕ
  /-- the task of the rescheduling, which begins with it -/
  rescheduler : Option ℕ
  /-- whether a last statement about the row has been executed, answered or not -/
  returned : Bool

/-- What a replica is doing with the rows it has claimed. -/
structure Batch where
  /-- the jobs, each by its task and its row -/
  jobs : List (ℕ × Uuid)
  claimedAt : ℤ
  /-- when the claim was answered -/
  received : Option ℤ
  /-- how many of the jobs have been started -/
  started : ℕ
  running : Table Slot.position

namespace Slot

variable (c : OutboxConfig) (slot : Slot)

/-- Whether `execute` is still awaited. -/
def isExecuting : Bool := slot.abandonedAt.isNone

/-- Whether the row has not been given back. -/
def isHeld : Bool := !slot.returned

/-- Whether `execute` is at its row: what comes after its last statement is the answer. -/
def isAtWork : Bool := slot.isExecuting && slot.isHeld

/-- Whether either goes on. -/
def isInUse : Bool := slot.isExecuting || slot.isHeld

/-- When it ends at the latest, or goes over to rescheduling. -/
def deadline : ℤ :=
  match slot.abandonedAt with
  | none => slot.startedAt + c.jobTimeout
  | some abandonedAt => abandonedAt + RESCHEDULE_TIMEOUT

/-- Its tasks, with the row they are about. -/
def tasks : List (ℕ × Uuid) :=
  (slot.worker.toList ++ slot.rescheduler.toList).map fun name => (name, slot.row)

/-- The rescheduling that has not begun. -/
def dormant : List ℕ := if slot.isExecuting then slot.rescheduler.toList else []

/-- A statement of `execute` is executed. After the last one there is none, and after the timeout
only the one that had been sent. -/
def worked (last : Bool) : Slot :=
  { slot with
    worker := if last || !slot.isExecuting then none else slot.worker
    returned := slot.returned || last }

/-- The rescheduling is executed. -/
def rescheduled : Slot := { slot with rescheduler := none, returned := true }

/-- The timeout runs out, and `execute` is dropped. -/
def abandon (now : ℤ) : Slot := { slot with abandonedAt := some now }

end Slot

namespace Batch

variable (c : OutboxConfig) (b : Batch)

/-- The jobs that wait for a permit. -/
def waiting : List (ℕ × Uuid) := b.jobs.drop b.started

/-- All its tasks. -/
def tasks : List (ℕ × Uuid) := b.waiting ++ b.running.rows.flatMap Slot.tasks

/-- The tasks nothing has been sent for. -/
def dormant : List ℕ := b.waiting.map Prod.fst ++ b.running.rows.flatMap Slot.dormant

/-- Whether it may be that late: nothing of the batch is overdue, and no job waits while there is a
permit. -/
def allows (now : ℤ) : Bool :=
  match b.received with
  | none => decide (now ≤ b.claimedAt + CLAIM_TIMEOUT)
  | some _ =>
    (decide (b.jobs.length ≤ b.started) || decide (c.workers ≤ b.running.rows.length)) &&
    b.running.rows.all fun slot => decide (now ≤ slot.deadline c)

/-- The claim is answered. -/
def receive (now : ℤ) : Batch := { b with received := some now }

/-- The next job gets a permit. -/
def start (now : ℤ) (name : ℕ) (row : Uuid) (rescheduler : ℕ) : Batch :=
  { b with
    started := b.started + 1
    running := b.running.put ⟨row, b.started, now, none, some name, some rescheduler, false⟩ }

/-- A permit goes on in use. -/
def update (slot : Slot) : Batch := { b with running := b.running.put slot }

/-- A job gives its permit back. -/
def finish (position : ℕ) : Batch := { b with running := b.running.erase position }

/-- How many of its slots with a property are at a row. -/
def workers (p : Slot → Bool) (row : Uuid) : ℕ :=
  b.running.rows.countP fun slot => p slot && decide (slot.row = row)

/-- And how many there are or will be. -/
def holding (p : Slot → Bool) (row : Uuid) : ℕ :=
  b.workers p row + (b.waiting.map Prod.snd).count row

end Batch

/-! ## When the batch fits into the lock -/

namespace OutboxConfig

variable {c : OutboxConfig}

/-- The longest a job keeps its permit: its timeout, and its rescheduling. -/
def permitTime (c : OutboxConfig) : ℤ := c.jobTimeout + RESCHEDULE_TIMEOUT

/-- **The condition**: the answer to the claim, and then the rounds it takes to run a full batch,
fit into the lock. -/
def Fits (c : OutboxConfig) : Prop :=
  c.batchSize ≤ 0 ∨
    CLAIM_TIMEOUT + (Pool.rounds c.workers c.batchSize.toNat : ℕ) * c.permitTime ≤ c.lockTtl

instance : Decidable c.Fits := inferInstanceAs (Decidable (_ ∨ _))

theorem permitTime_nonneg : 0 ≤ c.permitTime := by
  rw [permitTime, jobTimeout, RESCHEDULE_TIMEOUT]
  omega

/-- Then every batch fits. -/
theorem Fits.le {n : ℕ} (h : c.Fits) (hpos : 0 < n) (hn : (n : ℤ) ≤ c.batchSize) :
    CLAIM_TIMEOUT + (Pool.rounds c.workers n : ℕ) * c.permitTime ≤ c.lockTtl := by
  have hfull := h.resolve_left (by omega)
  have hrounds : Pool.rounds c.workers n ≤ Pool.rounds c.workers c.batchSize.toNat :=
    Pool.rounds_mono c.workers (by omega)
  exact (Pool.add_rounds_le permitTime_nonneg hrounds).trans hfull

/-- And the lock is not over at once. -/
theorem Fits.lockTtl_nonneg {n : ℕ} (h : c.Fits) (hpos : 0 < n) (hn : (n : ℤ) ≤ c.batchSize) :
    0 ≤ c.lockTtl := by
  have hle := h.le hpos hn
  have hrounds : 0 ≤ (Pool.rounds c.workers n : ℕ) * c.permitTime :=
    Int.mul_nonneg (Int.natCast_nonneg _) permitTime_nonneg
  have hclaim : 0 ≤ CLAIM_TIMEOUT := by decide
  omega

theorem workers_pos (h : c.validate = .ok ()) : 0 < c.workers := by
  rw [validate] at h
  split at h
  · cases h
  · next hworkers => exact Nat.pos_of_ne_zero hworkers

end OutboxConfig

/-- No slot is in use for longer. -/
theorem Slot.deadline_le {c : OutboxConfig} (slot : Slot)
    (h : ∀ {t}, slot.abandonedAt = some t → t = slot.startedAt + c.jobTimeout) :
    slot.deadline c ≤ slot.startedAt + c.permitTime := by
  rw [deadline, OutboxConfig.permitTime, RESCHEDULE_TIMEOUT]
  split
  · omega
  · next t ht =>
    rw [h ht]
    omega

namespace Batch

variable {c : OutboxConfig} {b : Batch} {now : ℤ} {p q : Slot → Bool} {row : Uuid}

/-- **A batch on time.** -/
structure Timed (c : OutboxConfig) (now : ℤ) (b : Batch) : Prop where
  size : (b.jobs.length : ℤ) ≤ c.batchSize
  started_le : b.started ≤ b.jobs.length
  unanswered : b.received = none →
    b.started = 0 ∧ b.running = Table.empty ∧ now ≤ b.claimedAt + CLAIM_TIMEOUT
  answered : ∀ {received}, b.received = some received →
    received ≤ b.claimedAt + CLAIM_TIMEOUT ∧
      Pool.OnTime Slot.startedAt c.workers c.permitTime b.jobs.length received now b.started
        b.running
  abandoned : ∀ slot ∈ b.running.rows, ∀ {t}, slot.abandonedAt = some t →
    t = slot.startedAt + c.jobTimeout

/-- Something is left to do while something is held. -/
theorem left_of_holding (h : b.holding p row ≠ 0) :
    b.running.rows ≠ [] ∨ b.started < b.jobs.length := by
  by_cases hrunning : b.running.rows = []
  · right
    refine List.length_lt_of_drop_ne_nil ?_
    intro hnil
    rw [holding, workers, hrunning, waiting, hnil] at h
    exact h rfl
  · exact .inl hrunning

theorem Timed.jobs_pos (h : b.Timed c now) (hheld : b.holding p row ≠ 0) : 0 < b.jobs.length := by
  rcases left_of_holding hheld with hrunning | hnext
  · cases hreceived : b.received with
    | none =>
      obtain ⟨-, hempty, -⟩ := h.unanswered hreceived
      rw [hempty] at hrunning
      exact absurd rfl hrunning
    | some received =>
      obtain ⟨slot, hslot⟩ := List.exists_mem_of_ne_nil _ hrunning
      have hlt := (h.answered hreceived).2.lt_started slot hslot
      have hle := h.started_le
      omega
  · omega

/-- **The batch is over before its locks are.** -/
theorem Timed.now_le (h : b.Timed c now) (hw : 0 < c.workers) (hfits : c.Fits)
    (hheld : b.holding p row ≠ 0) : now ≤ b.claimedAt + c.lockTtl := by
  have hleft := left_of_holding hheld
  have hd : 0 ≤ c.permitTime := OutboxConfig.permitTime_nonneg
  have hlock := hfits.le (h.jobs_pos hheld) h.size
  cases hreceived : b.received with
  | none =>
    obtain ⟨-, -, hnow⟩ := h.unanswered hreceived
    have hrounds : CLAIM_TIMEOUT ≤ CLAIM_TIMEOUT +
        (Pool.rounds c.workers b.jobs.length : ℕ) * c.permitTime :=
      Int.le_add_of_nonneg_right (Int.mul_nonneg (Int.natCast_nonneg _) hd)
    omega
  | some received =>
    obtain ⟨hsoon, honTime⟩ := h.answered hreceived
    have hnow := honTime.now_le_rounds hw hd h.started_le hleft
    omega

section Steps

variable (h : b.Timed c now)
include h

/-- **Time passes.** -/
theorem Timed.tick {now' : ℤ} (hw : 0 < c.workers) (hallows : b.allows c now' = true) :
    b.Timed c now' where
  size := h.size
  started_le := h.started_le
  unanswered := by
    intro hreceived
    obtain ⟨hstarted, hrunning, -⟩ := h.unanswered hreceived
    rw [allows, hreceived] at hallows
    exact ⟨hstarted, hrunning, of_decide_eq_true hallows⟩
  answered := by
    intro received hreceived
    obtain ⟨hsoon, honTime⟩ := h.answered hreceived
    rw [allows, hreceived] at hallows
    simp only [Bool.and_eq_true, Bool.or_eq_true, decide_eq_true_eq, List.all_eq_true] at hallows
    refine ⟨hsoon, honTime.tick hw OutboxConfig.permitTime_nonneg hallows.1 ?_⟩
    intro slot hslot
    exact (hallows.2 slot hslot).trans (slot.deadline_le (h.abandoned slot hslot))
  abandoned := h.abandoned

/-- **The claim is answered.** -/
theorem Timed.receive (hreceived : b.received = none) :
    (b.receive now).Timed c now where
  size := h.size
  started_le := h.started_le
  unanswered := fun hnone => nomatch hnone
  answered := by
    intro received heq
    obtain rfl := Option.some.inj heq
    obtain ⟨hstarted, hrunning, hsoon⟩ := h.unanswered hreceived
    refine ⟨hsoon, ?_⟩
    rw [Batch.receive, hstarted, hrunning]
    exact Pool.OnTime.init
  abandoned := h.abandoned

/-- **A job starts.** -/
theorem Timed.start {name rescheduler : ℕ} (hreceived : b.received.isSome)
    (hnext : b.started < b.jobs.length) : (b.start now name row rescheduler).Timed c now where
  size := h.size
  started_le := hnext
  unanswered := by
    intro hnone
    rw [Option.isSome_iff_ne_none] at hreceived
    exact absurd hnone hreceived
  answered := by
    intro received heq
    obtain ⟨hsoon, honTime⟩ := h.answered heq
    exact ⟨hsoon, honTime.start OutboxConfig.permitTime_nonneg hnext rfl rfl⟩
  abandoned := by
    intro slot hslot t ht
    rcases List.mem_cons.mp hslot with rfl | hold
    · cases ht
    · exact h.abandoned slot (List.mem_of_mem_filter hold) ht

/-- **A job goes on**, from when it was started. -/
theorem Timed.update {position : ℕ} {slot slot' : Slot} (hslot : b.running.get? position = some slot)
    (hposition : slot'.position = slot.position) (hstartedAt : slot'.startedAt = slot.startedAt)
    (habandoned : ∀ t, slot'.abandonedAt = some t → slot.abandonedAt = some t ∨
      t = slot.startedAt + c.jobTimeout) : (b.update slot').Timed c now where
  size := h.size
  started_le := h.started_le
  unanswered := by
    intro hnone
    obtain ⟨-, hrunning, -⟩ := h.unanswered hnone
    rw [hrunning] at hslot
    cases hslot
  answered := by
    intro received heq
    obtain ⟨hsoon, honTime⟩ := h.answered heq
    refine ⟨hsoon, honTime.mono ?_⟩
    intro other hother
    rcases List.mem_cons.mp hother with rfl | hold
    · exact ⟨slot, Table.mem_of_get? hslot, hposition, hstartedAt⟩
    · exact ⟨other, List.mem_of_mem_filter hold, rfl, rfl⟩
  abandoned := by
    intro other hother t ht
    rcases List.mem_cons.mp hother with rfl | hold
    · rw [hstartedAt]
      rcases habandoned t ht with hsame | hnow
      · exact h.abandoned slot (Table.mem_of_get? hslot) hsame
      · exact hnow
    · exact h.abandoned other (List.mem_of_mem_filter hold) ht

/-- **A job ends.** -/
theorem Timed.finish (position : ℕ) : (b.finish position).Timed c now where
  size := h.size
  started_le := h.started_le
  unanswered := by
    intro hnone
    obtain ⟨hstarted, hrunning, hsoon⟩ := h.unanswered hnone
    refine ⟨hstarted, ?_, hsoon⟩
    rw [Batch.finish, hrunning]
    rfl
  answered := by
    intro received heq
    obtain ⟨hsoon, honTime⟩ := h.answered heq
    refine ⟨hsoon, honTime.mono ?_⟩
    intro slot hslot
    exact ⟨slot, List.mem_of_mem_filter hslot, rfl, rfl⟩
  abandoned := fun slot hslot => h.abandoned slot (List.mem_of_mem_filter hslot)

end Steps

/-! ## What a step does to the rows that are held -/

theorem workers_mono (h : ∀ slot, p slot = true → q slot = true) :
    b.workers p row ≤ b.workers q row := by
  refine List.countP_mono_left fun slot _ hslot => ?_
  rw [Bool.and_eq_true] at hslot ⊢
  exact ⟨h slot hslot.1, hslot.2⟩

theorem workers_le_holding : b.workers p row ≤ b.holding p row := Nat.le_add_right _ _

/-- What is in use is executing or held. -/
theorem holding_isInUse_le :
    b.holding Slot.isInUse row ≤ b.workers Slot.isExecuting row + b.holding Slot.isHeld row := by
  have hle : b.workers Slot.isInUse row ≤
      b.workers Slot.isExecuting row + b.workers Slot.isHeld row := by
    rw [workers, workers, workers]
    induction b.running.rows with
    | nil => exact Nat.le_refl _
    | cons slot rows ih =>
      rw [List.countP_cons, List.countP_cons, List.countP_cons, Slot.isInUse]
      have hone : ((slot.isExecuting || slot.isHeld) && decide (slot.row = row)) = true →
          (slot.isExecuting && decide (slot.row = row)) = true ∨
            (slot.isHeld && decide (slot.row = row)) = true := by
        simp only [Bool.and_eq_true, Bool.or_eq_true]
        rintro ⟨hexecuting | hheld, hrow⟩
        · exact .inl ⟨hexecuting, hrow⟩
        · exact .inr ⟨hheld, hrow⟩
      grind
  rw [holding, holding]
  omega

theorem holding_start {name rescheduler : ℕ} {next : Uuid}
    (hnext : b.jobs[b.started]? = some (name, next)) :
    (b.start now name next rescheduler).holding p row ≤ b.holding p row := by
  have hdrop : b.waiting = (name, next) :: b.jobs.drop (b.started + 1) :=
    List.drop_eq_getElem?_toList_append.trans (by rw [hnext]; rfl)
  have hothers : (b.running.others b.started).countP
      (fun slot => p slot && decide (slot.row = row)) ≤ b.workers p row :=
    List.filter_sublist.countP_le
  rw [holding, holding, hdrop, List.map_cons, List.count_cons, workers, start, Table.put,
    List.countP_cons, waiting]
  dsimp only
  have hnew : (if (p ⟨next, b.started, now, none, some name, some rescheduler, false⟩ &&
      decide (next = row)) = true then 1 else 0) ≤ if (next == row) = true then 1 else 0 := by
    split
    · next hboth =>
      rw [Bool.and_eq_true, decide_eq_true_eq] at hboth
      rw [if_pos (beq_iff_eq.mpr hboth.2)]
    · exact Nat.zero_le _
  omega

/-- A slot counts for its row as long as it has the property. -/
theorem holding_update {position : ℕ} {slot slot' : Slot}
    (hslot : b.running.get? position = some slot)
    (hposition : slot'.position = slot.position) (hrow : slot'.row = slot.row) :
    (b.update slot').holding p row + (if p slot ∧ slot.row = row then 1 else 0) =
      b.holding p row + if p slot' ∧ slot.row = row then 1 else 0 := by
  have hkey : slot.position = position := Table.key_of_get? hslot
  have hperm := (Table.perm_of_get? hslot).countP_eq fun slot => p slot && decide (slot.row = row)
  rw [List.countP_cons] at hperm
  have hrest : (b.update slot').waiting = b.waiting := rfl
  rw [holding, holding, hrest, workers, workers, hperm, update, Table.put, List.countP_cons,
    hposition, hkey]
  simp only [Bool.and_eq_true, decide_eq_true_eq, hrow]
  omega

/-- What a slot loses it does not get back. -/
theorem holding_update_le {position : ℕ} {slot slot' : Slot}
    (hslot : b.running.get? position = some slot)
    (hposition : slot'.position = slot.position) (hrow : slot'.row = slot.row)
    (h : p slot' = true → p slot = true) : (b.update slot').holding p row ≤ b.holding p row := by
  have hupdate := @holding_update b p row position slot slot' hslot hposition hrow
  have hle : (if p slot' ∧ slot.row = row then 1 else 0) ≤
      if p slot ∧ slot.row = row then 1 else 0 := by
    split
    · next hboth => rw [if_pos ⟨h hboth.1, hboth.2⟩]
    · exact Nat.zero_le _
  omega

/-- What a slot loses as its job goes on, it does not get back. -/
structure Fades (p : Slot → Bool) : Prop where
  worked : ∀ slot last, p (Slot.worked slot last) = true → p slot = true
  rescheduled : ∀ slot, p (Slot.rescheduled slot) = true → p slot = true
  abandon : ∀ slot now, p (Slot.abandon slot now) = true → p slot = true

theorem fades_isHeld : Fades Slot.isHeld where
  worked slot last h := by
    rw [Slot.isHeld, Slot.worked, Bool.not_or, Bool.and_eq_true] at h
    exact h.1
  rescheduled slot h := by cases h
  abandon slot now h := h

theorem fades_isInUse : Fades Slot.isInUse where
  worked slot last h := by
    rw [Slot.isInUse, Bool.or_eq_true] at h ⊢
    exact h.imp_right (fades_isHeld.worked slot last)
  rescheduled slot h := by
    rw [Slot.isInUse, Bool.or_eq_true] at h ⊢
    exact h.imp_right (fades_isHeld.rescheduled slot)
  abandon slot now h := by
    rw [Slot.isInUse, Bool.or_eq_true] at h ⊢
    exact .inr (h.resolve_left fun hnone => nomatch hnone)

theorem holding_finish (position : ℕ) : (b.finish position).holding p row ≤ b.holding p row :=
  Nat.add_le_add_right List.filter_sublist.countP_le _

end Batch

/-! ## Its tasks -/

theorem Slot.tasks_worked (slot : Slot) (last : Bool) : (slot.worked last).tasks ⊆ slot.tasks := by
  have hsub : (slot.worked last).worker.toList ⊆ slot.worker.toList := by
    rw [worked]
    dsimp only
    split
    · exact List.nil_subset _
    · exact List.Subset.refl _
  refine List.map_subset _ ?_
  exact List.append_subset.mpr ⟨List.subset_append_of_subset_left _ hsub,
    List.subset_append_right _ _⟩

theorem Slot.tasks_rescheduled (slot : Slot) : slot.rescheduled.tasks ⊆ slot.tasks := by
  refine List.map_subset _ ?_
  exact List.append_subset.mpr ⟨List.subset_append_left _ _, List.nil_subset _⟩

namespace Batch

variable {c : OutboxConfig} {b : Batch} {now : ℤ} {row : Uuid}

theorem tasks_start {name rescheduler : ℕ} {next : Uuid}
    (hnext : b.jobs[b.started]? = some (name, next)) :
    (name, next) ∈ b.tasks ∧
      (b.start now name next rescheduler).tasks ⊆ (rescheduler, next) :: b.tasks := by
  have hdrop : b.waiting = (name, next) :: b.jobs.drop (b.started + 1) :=
    List.drop_eq_getElem?_toList_append.trans (by rw [hnext]; rfl)
  have hhead : (name, next) ∈ b.tasks := by
    rw [tasks, hdrop]
    exact List.mem_append_left _ List.mem_cons_self
  refine ⟨hhead, ?_⟩
  intro task htask
  rcases List.mem_append.mp htask with hwaiting | hrunning
  · refine List.mem_cons_of_mem _ (List.mem_append_left _ ?_)
    rw [hdrop]
    exact List.mem_cons_of_mem _ hwaiting
  · obtain ⟨slot, hslot, htask⟩ := List.mem_flatMap.mp hrunning
    rcases List.mem_cons.mp hslot with rfl | hold
    · rcases List.mem_cons.mp htask with rfl | hlast
      · exact List.mem_cons_of_mem _ hhead
      · rw [List.mem_singleton.mp hlast]
        exact List.mem_cons_self
    · refine List.mem_cons_of_mem _ (List.mem_append_right _ ?_)
      exact List.mem_flatMap.mpr ⟨slot, List.mem_of_mem_filter hold, htask⟩

theorem tasks_update {position : ℕ} {slot slot' : Slot} (hslot : b.running.get? position = some slot)
    (h : slot'.tasks ⊆ slot.tasks) : (b.update slot').tasks ⊆ b.tasks := by
  intro task htask
  rcases List.mem_append.mp htask with hwaiting | hrunning
  · exact List.mem_append_left _ hwaiting
  · obtain ⟨other, hother, hof⟩ := List.mem_flatMap.mp hrunning
    refine List.mem_append_right _ (List.mem_flatMap.mpr ?_)
    rcases List.mem_cons.mp hother with rfl | hold
    · exact ⟨slot, Table.mem_of_get? hslot, h hof⟩
    · exact ⟨other, List.mem_of_mem_filter hold, hof⟩

theorem tasks_finish (position : ℕ) : (b.finish position).tasks ⊆ b.tasks := by
  intro task htask
  rcases List.mem_append.mp htask with hwaiting | hrunning
  · exact List.mem_append_left _ hwaiting
  · obtain ⟨slot, hslot, htask⟩ := List.mem_flatMap.mp hrunning
    exact List.mem_append_right _ (List.mem_flatMap.mpr ⟨slot, List.mem_of_mem_filter hslot, htask⟩)

theorem mem_tasks {position : ℕ} {slot : Slot} (hslot : b.running.get? position = some slot)
    {task : ℕ × Uuid} (h : task ∈ slot.tasks) : task ∈ b.tasks :=
  List.mem_append_right _ (List.mem_flatMap.mpr ⟨slot, Table.mem_of_get? hslot, h⟩)

end Batch

end GumServer
