import GumServer.Delivered
import GumServer.Overdue
import GumServer.Settleable
import Mathlib.Algebra.Order.Floor.Semiring
import Mathlib.Data.Rat.Floor

/-!
# Every job comes due again

A worker that cannot finish its job puts it off by a backoff (`schedule`), and one that dies leaves
it locked. Neither may keep a job back for long: a settlement that is submitted late pays the
recovery address. So the backoff of an upstream job stops growing at a short cap, the lock runs out,
and the job is never given up for its age.

The backoff is computed in doubles. All that matters of their rounding is in `Double`: it keeps the
order, and integers that are not too large.
-/

namespace GumServer

/-! ## The backoff -/

/-- The rounding of an `f64`: to the nearest, or any other that keeps the order and is exact on the
integers up to `2 ^ 53`. -/
structure Double where
  round : ℚ → ℚ
  monotone : Monotone round
  exact : ∀ n : ℕ, n ≤ 2 ^ 53 → round n = n

/-- The settings `schedule` reads: `webhooks` and `outbox.upstream_retry_cap_ms`. -/
structure BackoffConfig where
  retryBaseMs : U64
  retryCapMs : U64
  maxAgeSecs : ℤ
  upstreamRetryCapMs : U64

/-- `Schedule`, with the backoff in milliseconds. -/
inductive Schedule : Type where
  | retry (delayMs : ℕ) : Schedule
  | dead : Schedule
deriving DecidableEq

namespace BackoffConfig

variable (c : BackoffConfig) (kind : JobKind)

/-- The cap of a kind. -/
def capMs : U64 := if kind = .notifyApp then c.retryCapMs else c.upstreamRetryCapMs

/-- The age at which a kind is given up on. -/
def maxAge : Option ℤ := if kind = .notifyApp then some c.maxAgeSecs else none

/-- `schedule`. -/
def schedule (f : Double) (attempts ageSecs : ℤ) (jitter : ℚ) : Schedule :=
  if (c.maxAge kind).any fun max => decide (ageSecs > max) then .dead
  else
    let base := f.round (c.retryBaseMs.val : ℕ)
    let exp := f.round (base * f.round (2 ^ min (max (attempts - 1) (-2 ^ 31)) 30))
    let upper := min exp (f.round ((c.capMs kind).val : ℕ))
    let delay := f.round (base + f.round (jitter * max (f.round (upper - base)) 0))
    .retry (min ⌊delay⌋₊ (2 ^ 64 - 1))

/-- The durations fit into a double: they are below 285,000 years. -/
structure Exact : Prop where
  base : c.retryBaseMs.val ≤ 2 ^ 53
  cap : ∀ kind, (c.capMs kind).val ≤ 2 ^ 53

/-- The longest a job of a kind is put off, in milliseconds. -/
def longestMs : ℕ := max c.retryBaseMs.val (c.capMs kind).val

variable {c kind}

/-- Only a notification is given up on, and only for its age. -/
theorem schedule_dead {f : Double} {attempts ageSecs : ℤ} {jitter : ℚ} :
    c.schedule kind f attempts ageSecs jitter = .dead ↔
      kind = .notifyApp ∧ c.maxAgeSecs < ageSecs := by
  rw [schedule, maxAge]
  by_cases hkind : kind = .notifyApp
  · by_cases hage : c.maxAgeSecs < ageSecs <;> simp [hkind, hage]
  · simp [hkind]

/-- The part of the backoff that grows with the attempts is at most what the cap leaves. -/
theorem round_growth_le {f : Double} {base cap : ℕ} (hbase : base ≤ 2 ^ 53) (hcap : cap ≤ 2 ^ 53)
    {jitter : ℚ} (hjitter : 0 ≤ jitter) (hjitter' : jitter ≤ 1) (exp : ℚ) :
    0 ≤ f.round (jitter * max (f.round (min exp (f.round cap) - base)) 0) ∧
      f.round (jitter * max (f.round (min exp (f.round cap) - base)) 0) ≤
        (max base cap : ℕ) - (base : ℚ) := by
  have hzero : f.round 0 = 0 := by
    have := f.exact 0 (Nat.zero_le _)
    simpa using this
  have hgap : f.round ((max base cap : ℕ) - (base : ℚ)) = (max base cap : ℕ) - (base : ℚ) := by
    have hsub : ((max base cap - base : ℕ) : ℚ) = (max base cap : ℕ) - (base : ℚ) :=
      Nat.cast_sub (le_max_left _ _)
    rw [← hsub, f.exact _ (le_trans (Nat.sub_le _ _) (max_le hbase hcap))]
  have hdiff : max (f.round (min exp (f.round cap) - base)) 0 ≤ (max base cap : ℕ) - (base : ℚ) := by
    refine max_le ?_ ?_
    · rw [← hgap, f.exact cap hcap]
      refine f.monotone (sub_le_sub_right ?_ _)
      exact (min_le_right _ _).trans (Nat.cast_le.mpr (le_max_right _ _))
    · exact sub_nonneg.mpr (Nat.cast_le.mpr (le_max_left _ _))
  constructor
  · refine hzero.symm.le.trans (f.monotone ?_)
    exact mul_nonneg hjitter (le_max_right _ _)
  · refine (f.monotone ?_).trans (le_of_eq hgap)
    exact (mul_le_of_le_one_left (le_max_right _ _) hjitter').trans hdiff

/-- **The backoff**: at least the base, at most the cap, or the base where that is longer. -/
theorem schedule_retry {f : Double} {attempts ageSecs : ℤ} {jitter : ℚ} {delayMs : ℕ}
    (hexact : c.Exact) (hjitter : 0 ≤ jitter) (hjitter' : jitter ≤ 1)
    (h : c.schedule kind f attempts ageSecs jitter = .retry delayMs) :
    c.retryBaseMs.val ≤ delayMs ∧ delayMs ≤ c.longestMs kind := by
  rw [schedule] at h
  split at h
  · cases h
  · obtain rfl := Schedule.retry.inj h
    have hbase := f.exact _ hexact.base
    have hlongest : c.longestMs kind ≤ 2 ^ 53 := max_le hexact.base (hexact.cap kind)
    obtain ⟨hpos, hle⟩ := round_growth_le (f := f) hexact.base (hexact.cap kind) hjitter hjitter'
      (f.round (c.retryBaseMs.val * f.round (2 ^ min (max (attempts - 1) (-2 ^ 31)) 30)))
    rw [hbase]
    constructor
    · refine le_min (Nat.le_floor ?_) (hexact.base.trans (by decide))
      rw [← hbase]
      refine f.monotone ?_
      rw [hbase]
      exact le_add_of_nonneg_right hpos
    · refine (min_le_left _ _).trans (Nat.floor_le_of_le ?_)
      rw [← f.exact _ hlongest]
      refine f.monotone ?_
      exact (add_le_add_right hle _).trans (le_of_eq (add_sub_cancel _ _))

/-- As the source's tests have it, without rounding. -/
example :
    let c : BackoffConfig := ⟨1000, 3600000, 86400, 30000⟩
    let exact : Double := ⟨id, monotone_id, fun _ _ => rfl⟩
    c.schedule .submitExecute exact 3 0 1 = .retry 4000 ∧
    c.schedule .registerWatch exact 50 (10 * 86400) 1 = .retry 30000 ∧
    c.schedule .notifyApp exact 2 0 0 = .retry 1000 ∧
    c.schedule .notifyApp exact 20 86401 1 = .dead := by decide +kernel

end BackoffConfig

/-! ## What a worker does with it -/

/-- The age of a job, in whole seconds. -/
def OutboxJob.ageSecs (job : OutboxJob) (now : DateTime) : ℤ :=
  (now.toMicros - job.createdAt).tdiv 1000000

/-- A step puts off a job as `schedule` says, whatever its attempts and the jitter. -/
def World.BacksOff (f : Double) (c : BackoffConfig) (w : World) (a : Action) : Prop :=
  ∀ ⦃name now delay mint job stage⦄, a = .advance name (.schedule now delay) mint →
    w.tasks.get? name = some (.worker job stage) → ∃ attempts jitter, 0 ≤ jitter ∧ jitter ≤ 1 ∧
      ∀ delayMs, c.schedule job.payload.kind f attempts (job.ageSecs now) jitter = .retry delayMs →
        delay = delayMs * 1000

/-- **`retry_later`** follows `schedule`: a worker gives its row up where it says so, and puts it off
otherwise. -/
theorem Worker.retryLater_schedule {env : Env} {f : Double} {c : BackoffConfig} {job : OutboxJob}
    {now : DateTime} {delay attempts : ℤ} {jitter : ℚ} (error : String)
    (hage : env.maxAgeSecs = c.maxAgeSecs)
    (hdelay : ∀ delayMs, c.schedule job.payload.kind f attempts (job.ageSecs now) jitter =
      .retry delayMs → delay = delayMs * 1000) :
    retryLater env job now delay error =
      match c.schedule job.payload.kind f attempts (job.ageSecs now) jitter with
      | .dead => .markDead job.id error
      | .retry delayMs => .reschedule job.id (delayMs * 1000) error := by
  rw [retryLater]
  cases hschedule : c.schedule job.payload.kind f attempts (job.ageSecs now) jitter with
  | dead =>
    rw [BackoffConfig.schedule_dead, ← hage] at hschedule
    exact if_pos hschedule
  | retry delayMs =>
    rw [hdelay delayMs hschedule, if_neg]
    rintro ⟨hkind, hold⟩
    rw [hage] at hold
    cases (BackoffConfig.schedule_dead.mpr ⟨hkind, hold⟩).symm.trans hschedule

section Steps

variable {env : Env} {f : Double} {c : BackoffConfig} {w w' : World} {a : Action}

/-- The longest a row of a kind is put off, in microseconds. -/
def BackoffConfig.wait (c : BackoffConfig) (kind : JobKind) : ℤ := c.longestMs kind * 1000

/-- A step that puts a row off does so within the cap. -/
theorem reschedule_le (hexact : c.Exact) (hage : env.maxAgeSecs = c.maxAgeSecs)
    (hfit : JobsFit w) (hbacks : w.BacksOff f c a) {r : OutboxRow} {delay : ℤ} {error : String}
    (hr : w.db.outbox.get? r.id = some r) (h : w.commits env a = .reschedule r.id delay error) :
    delay ≤ c.wait r.payload.kind := by
  have hwrite := w.rowWrite env a
  simp only [h, reduceCtorEq, exists_false, false_or] at hwrite
  generalize hlater : Write.reschedule r.id delay error = write at hwrite
  cases hwrite with
  | done name job ht => cases hlater
  | dead name job error' ht => cases hlater
  | later name job stage now delay' error' mint ha ht =>
    obtain ⟨attempts, jitter, hjitter, hjitter', hdelay⟩ := hbacks ha ht
    rw [Worker.retryLater_schedule error' hage hdelay] at hlater
    split at hlater
    · cases hlater
    · next delayMs hschedule =>
      obtain ⟨hid, rfl, -⟩ := Write.reschedule.inj hlater
      rw [hid] at hr
      have hle := (BackoffConfig.schedule_retry hexact hjitter hjitter' hschedule).2
      rw [(hfit.queued ht hr).2, BackoffConfig.wait]
      exact Int.mul_le_mul_of_nonneg_right (Int.ofNat_le.mpr hle) (by decide)

end Steps

/-! ## When a row is due at the latest -/

/-- A row is due soon: its backoff and its lock are over within their limits. -/
structure OutboxRow.Rearms (c : BackoffConfig) (env : Env) (now : DateTime) (r : OutboxRow) :
    Prop where
  next : r.nextAttemptAt ≤ now.toMicros + c.wait r.payload.kind
  lock : ∀ {t}, r.lockedUntil = some t → t ≤ now.toMicros + env.lockTtlSecs * 1000000

namespace OutboxRow.Rearms

variable {env : Env} {f : Double} {c : BackoffConfig} {now now' : DateTime} {r : OutboxRow}

theorem wait_nonneg (c : BackoffConfig) (kind : JobKind) : 0 ≤ c.wait kind :=
  Int.mul_nonneg (Int.natCast_nonneg _) (by decide)

theorem later (h : r.Rearms c env now) (hnow : now.toMicros ≤ now'.toMicros) :
    r.Rearms c env now' where
  next := h.next.trans (Int.add_le_add_right hnow _)
  lock hlock := (h.lock hlock).trans (Int.add_le_add_right hnow _)

/-- A row that may be claimed at once. -/
theorem of_unlocked (hnext : r.nextAttemptAt = now.toMicros) (hlock : r.lockedUntil = none) :
    r.Rearms c env now where
  next := by
    rw [hnext]
    exact Int.le_add_of_nonneg_right (wait_nonneg c _)
  lock hsome := by cases hlock.symm.trans hsome

theorem kill (h : r.Rearms c env now) (error : String) : (r.kill now error).Rearms c env now where
  next := h.next
  lock hlock := by cases hlock

theorem putOff {delay : ℤ} (hdelay : delay ≤ c.wait r.payload.kind) (error : String) :
    (r.putOff now delay error).Rearms c env now where
  next := Int.add_le_add_left hdelay _
  lock hlock := by cases hlock

theorem locked {w : World} (h : r.Rearms c env w.clock) : (w.lock env r).Rearms c env w.clock where
  next := h.next
  lock hlock := (Option.some.inj hlock).symm.le

/-- What a modification of one row leaves of the others. -/
theorem of_modify {outbox : Table OutboxRow.id} {k row : Uuid} {g : OutboxRow → OutboxRow}
    (hid : ∀ r, (g r).id = r.id)
    (hold : ∀ {row r}, outbox.get? row = some r → r.Rearms c env now)
    (hg : ∀ r, outbox.get? r.id = some r → r.id = k → (g r).Rearms c env now)
    (h : (outbox.modify k g).get? row = some r) : r.Rearms c env now := by
  rw [Table.get?_modify _ _ _ g hid, Option.map_eq_some_iff] at h
  obtain ⟨old, hr, rfl⟩ := h
  split
  · next hk =>
    obtain rfl := Table.key_of_get? hr
    exact hg old hr hk
  · exact hold hr

/-- **A write keeps the rows due**, if it puts none off for too long. -/
theorem write {db : Db} {mint : Mint} {write : Write}
    (hold : ∀ {row r}, db.outbox.get? row = some r → r.Rearms c env now)
    (hdelay : ∀ {r delay error}, db.outbox.get? r.id = some r →
      write = .reschedule r.id delay error → delay ≤ c.wait r.payload.kind) {row : Uuid}
    (h : (db.write now mint write).outbox.get? row = some r) : r.Rearms c env now := by
  cases write with
  | nothing => exact hold h
  | touch id => exact hold h
  | reschedule k delay error =>
    refine of_modify (g := OutboxRow.putOff now delay error) (fun _ => rfl) hold ?_ h
    rintro r hr rfl
    exact putOff (hdelay hr rfl) error
  | markDead k error =>
    refine of_modify (g := OutboxRow.kill now error) (fun _ => rfl) hold ?_ h
    rintro r hr -
    exact (hold hr).kill error
  | delete k =>
    rw [Db.write] at h
    dsimp only at h
    rw [Table.get?_erase] at h
    split at h
    · cases h
    · exact hold h
  | tx tx =>
    rw [Db.write] at h
    rcases db.transact_cases now mint tx with heq | ⟨op, d, -, -, -, heq⟩
    · rw [heq, Db.bound_outbox] at h
      exact hold h
    · rw [heq] at h
      rcases Db.commit_outbox_new _ _ _ _ _ h with h | ⟨url, type, data, -, rfl⟩ | ⟨payload, -, rfl⟩
      · rw [Db.bound_outbox] at h
        exact hold h
      · exact of_unlocked rfl rfl
      · exact of_unlocked rfl rfl

variable {w w' : World} {a : Action}

/-- **A step keeps the rows due.** -/
theorem step (hexact : c.Exact) (hage : env.maxAgeSecs = c.maxAgeSecs) (hfit : JobsFit w)
    (hbacks : w.BacksOff f c a)
    (hold : ∀ {row r}, w.db.outbox.get? row = some r → r.Rearms c env w.clock)
    (h : GumServer.step env w a = some w') {row : Uuid}
    (hr : w'.db.outbox.get? row = some r) : r.Rearms c env w'.clock := by
  have hwrite {mint : Mint} {commits : Write} (hcommits : w.commits env a = commits)
      (hr : (w.db.write w.clock mint commits).outbox.get? row = some r) :
      r.Rearms c env w.clock := by
    refine write hold ?_ hr
    intro r delay error hr heq
    exact reschedule_le hexact hage hfit hbacks hr (hcommits.trans heq)
  cases step_cases h with
  | tick now hlater => exact (hold hr).later hlater
  | create new user d mint hinsert =>
    rw [World.created_outbox] at hr
    split at hr
    · obtain rfl := Option.some.inj hr
      exact of_unlocked rfl rfl
    · exact hold hr
  | claim task old hold' =>
    change (w.db.outbox.put (w.lock env old)).get? row = some r at hr
    rw [Table.get?_put] at hr
    split at hr
    · obtain rfl := Option.some.inj hr
      exact (hold hold').locked
    · exact hold hr
  | advance task input mint t commits engine next ht hnext =>
    exact hwrite (World.commits_advance ht hnext) hr
  | retrySettlement id mint => exact hwrite rfl hr
  | requeue k =>
    refine of_modify (g := w.requeued) (fun _ => rfl) hold ?_ hr
    intro r _ _
    exact of_unlocked rfl rfl
  | _ => exact hold hr

/-- **Every row is due soon**, in every run whose jobs are put off by `schedule`. -/
theorem of_run {clock : DateTime} (hexact : c.Exact) (hage : env.maxAgeSecs = c.maxAgeSecs)
    (h : Lts.Reaches (GumServer.step env) (World.BacksOff f c) (World.init clock) w) {row : Uuid}
    (hr : w.db.outbox.get? row = some r) : r.Rearms c env w.clock := by
  refine h.invariant (P := fun w => ∀ {row r}, w.db.outbox.get? row = some r →
    r.Rearms c env w.clock) ?_ ?_ hr
  · intro row r hr
    cases hr
  · intro w a w' hrun hold hbacks hstep row r hr
    have hfit := JobsFit.reachable ⟨clock, hrun.mono fun _ => trivial⟩
    exact step hexact hage hfit hbacks hold hstep hr

end OutboxRow.Rearms

/-- Whatever is to run for a deposit can be claimed soon: the first of its kind, at the latest when
the longest backoff and the lock are over. -/
theorem World.Runs.exists_due {env : Env} {c : BackoffConfig} {w : World} {id : Uuid}
    {kind : JobKind} {r : OutboxRow} (h : w.Runs id kind r)
    (hrearms : ∀ {row r}, w.db.outbox.get? row = some r → r.Rearms c env w.clock) {now : DateTime}
    (hlate : w.clock.toMicros + max (c.wait kind) (env.lockTtlSecs * 1000000) < now.toMicros) :
    ∃ first, w.Runs id kind first ∧ { w with clock := now }.isDue first = true := by
  obtain ⟨first, hruns, hfirst⟩ := h.exists_first
  refine ⟨first, hruns, ?_⟩
  obtain ⟨hrow, hdeposit, hkind, halive⟩ := hruns
  have hnext : first.nextAttemptAt ≤ now.toMicros := by
    have hsoon := (hrearms hrow).next
    rw [hkind] at hsoon
    omega
  have hlock : first.lockedUntil.all (fun t => decide (t < now.toMicros)) = true := by
    rw [Option.all_eq_true]
    intro t ht
    have hsoon := (hrearms hrow).lock ht
    exact decide_eq_true (by omega)
  rw [World.isDue, halive, decide_eq_true hnext, hlock]
  simp only [Option.isNone_none, Bool.and_self, Bool.true_and, Bool.not_eq_true',
    List.any_eq_false, Bool.and_eq_true]
  rintro p hp ⟨⟨⟨hsame, hsamekind⟩, hless⟩, hpalive⟩
  exact hfirst p ⟨Table.get?_of_mem hp, (of_decide_eq_true hsame).trans hdeposit,
    (of_decide_eq_true hsamekind).trans hkind, Option.isNone_iff_eq_none.mp hpalive⟩
    (of_decide_eq_true hless)

/-! ## When a row is given up -/

/-- The row whose job an upstream refuses for good in this step: the indexer its watch, or the engine
its submission. -/
def World.refuses (w : World) : Action → Option Uuid
  | .advance name (.watch (.rejected _)) _ =>
    match w.tasks.get? name with
    | some (.worker job (.registering _)) => some job.id
    | _ => none
  | .advance name (.submit (.rejected _)) _ =>
    match w.tasks.get? name with
    | some (.worker job (.submitting _ _)) => some job.id
    | _ => none
  | _ => none

/-- A row's job was refused in a run. -/
def Refused (steps : List (World × Action)) (row : Uuid) : Prop :=
  ∃ s ∈ steps, s.1.refuses s.2 = some row

theorem Refused.concat {steps : List (World × Action)} {row : Uuid} (h : Refused steps row)
    (s : World × Action) : Refused (steps ++ [s]) row := by
  obtain ⟨s', hs', hrefuses⟩ := h
  exact ⟨s', List.mem_append_left _ hs', hrefuses⟩

theorem Refused.last {w : World} {a : Action} {row : Uuid} (h : w.refuses a = some row)
    (steps : List (World × Action)) : Refused (steps ++ [(w, a)]) row :=
  ⟨(w, a), List.mem_append_right _ (List.mem_singleton_self _), h⟩

/-- A worker is about to end its row as dead. -/
def Stage.Ends : Stage → Prop
  | .refused _ | .rejected _ _ | .finishing (.dead _) => True
  | _ => False

section Steps

variable {env : Env} {w w' : World} {a : Action}

/-- An upstream job finds its deposit, and is not at its end when it has. -/
theorem ForeignKeys.load_upstream (hkeys : ForeignKeys w) {name : ℕ} {job : OutboxJob}
    {stage : Stage} (ht : w.tasks.get? name = some (.worker job stage))
    (hkind : job.payload.kind ≠ .notifyApp) (now : DateTime) :
    ¬ (Worker.load env w.db now job).Ends := by
  obtain ⟨d, hd⟩ := Option.isSome_iff_exists.mp (hkeys.jobs ht)
  cases hpayload : job.payload with
  | registerWatch =>
    rw [Worker.load, hpayload]
    dsimp only
    rw [hd, Worker.loadRegister]
    split_ifs <;> exact not_false
  | submitExecute key =>
    rw [Worker.load, hpayload]
    dsimp only
    rw [hd, Worker.loadSubmit]
    split_ifs <;> exact not_false
  | notifyApp url e snapshot =>
    rw [hpayload] at hkind
    exact absurd rfl hkind

/-- How a worker comes to the end of its row: it was on the way, or an upstream has just refused. -/
theorem WorkerStep.ends {db : Db} {engine engine' : Engine} {job : OutboxJob}
    {stage stage' : Stage} {input : Input} {write : Write}
    (h : WorkerStep env db engine job stage input write engine' (some stage')) (hends : stage'.Ends)
    (hload : ∀ now, ¬ (Worker.load env db now job).Ends) :
    stage.Ends ∨ (∃ d message, stage = .registering d ∧ input = .watch (.rejected message)) ∨
      ∃ d key message, stage = .submitting d key ∧ input = .submit (.rejected message) := by
  cases h with
  | load now => exact absurd hends (hload now)
  | retry _ _ error => exact hends.elim
  | watch d answer =>
    cases answer with
    | rejected message => exact .inr (.inl ⟨d, message, rfl, rfl⟩)
    | ok watch => exact hends.elim
    | unavailable message => exact hends.elim
  | submit d key reply engine'' hsubmit =>
    cases reply with
    | rejected message => exact .inr (.inr ⟨d, key, message, rfl, rfl⟩)
    | accepted job => exact hends.elim
    | lost job error => exact hends.elim
    | unavailable message => exact hends.elim
  | deliver => exact hends.elim
  | commit _ _ op id attempt hstatement end' hend =>
    rcases hend with rfl | ⟨error, rfl⟩
    · cases stage with
      | refused message => exact .inl trivial
      | rejected d message => exact .inl trivial
      | expiring d =>
        cases hstatement
        exact hends.elim
      | registered d watch =>
        cases hstatement
        exact hends.elim
      | submitted d engineJob replayed =>
        cases hstatement
        exact hends.elim
      | _ => cases hstatement
    · exact hends.elim

/-- **Where a worker at the end of its row comes from.** -/
theorem step_ends (hkeys : ForeignKeys w) (h : step env w a = some w') {name : ℕ} {job : OutboxJob}
    {stage : Stage} (ht : w'.tasks.get? name = some (.worker job stage)) (hends : stage.Ends)
    (hkind : job.payload.kind ≠ .notifyApp) :
    (∃ stage', w.tasks.get? name = some (.worker job stage') ∧ stage'.Ends) ∨
      w.refuses a = some job.id := by
  cases step_tasks h ht with
  | kept ht => exact .inl ⟨stage, ht, hends⟩
  | claimed r hr ha => exact hends.elim
  | abandoned old _ old' error hold => exact hends.elim
  | advanced input mint write engine ha hold hnext =>
    subst ha
    rcases Task.next_step hnext with ⟨hstep, -⟩ | ⟨job', stage', next, rfl, hnext', hstep⟩
    · exact absurd hstep HandlerStep.not_worker
    · obtain ⟨stage'', rfl, hworker⟩ := Option.map_eq_some_iff.mp hnext'.symm
      obtain ⟨rfl, rfl⟩ := Task.worker.inj hworker
      rcases hstep.ends hends (hkeys.load_upstream hold hkind) with hbefore |
        ⟨d, message, rfl, rfl⟩ | ⟨d, key, message, rfl, rfl⟩
      · exact .inl ⟨stage', hold, hbefore⟩
      · exact .inr (by rw [World.refuses, hold])
      · exact .inr (by rw [World.refuses, hold])

/-- **Whoever kills a row** is a worker at its end, or of a notification. -/
theorem killer {row : Uuid} {error : String} (h : w.commits env a = .markDead row error) :
    ∃ name job stage, w.tasks.get? name = some (.worker job stage) ∧ job.id = row ∧
      (stage.Ends ∨ job.payload.kind = .notifyApp) := by
  have hwrite := w.rowWrite env a
  simp only [h, reduceCtorEq, exists_false, false_or] at hwrite
  generalize hdead : Write.markDead row error = write at hwrite
  cases hwrite with
  | done name job ht => cases hdead
  | dead name job error' ht =>
    exact ⟨name, job, _, ht, (Write.markDead.inj hdead).1.symm, .inl trivial⟩
  | later name job stage now delay error' mint ha ht =>
    rw [Worker.retryLater] at hdead
    split at hdead
    · next hcond => exact ⟨name, job, stage, ht, (Write.markDead.inj hdead).1.symm, .inr hcond.1⟩
    · cases hdead

end Steps

/-- **The rows that lie dead** have been refused, and whoever is about to end one has been, too. -/
structure Condemned (steps : List (World × Action)) (w : World) : Prop where
  jobs : ∀ {name job stage}, w.tasks.get? name = some (.worker job stage) → stage.Ends →
    job.payload.kind ≠ .notifyApp → Refused steps job.id
  rows : ∀ {row r}, w.db.outbox.get? row = some r → r.payload.kind ≠ .notifyApp →
    r.deadAt = none ∨ Refused steps row

namespace Condemned

variable {env : Env} {steps : List (World × Action)} {w w' : World} {a : Action}

theorem jobs_step (hcondemned : Condemned steps w) (hkeys : ForeignKeys w)
    (h : GumServer.step env w a = some w') {name : ℕ} {job : OutboxJob} {stage : Stage}
    (ht : w'.tasks.get? name = some (.worker job stage)) (hends : stage.Ends)
    (hkind : job.payload.kind ≠ .notifyApp) : Refused (steps ++ [(w, a)]) job.id := by
  rcases step_ends hkeys h ht hends hkind with ⟨stage', hold, hends'⟩ | hrefuses
  · exact (hcondemned.jobs hold hends' hkind).concat _
  · exact .last hrefuses steps

theorem rows_step (hcondemned : Condemned steps w) (hfit : JobsFit w)
    (h : GumServer.step env w a = some w') {row : Uuid} {r : OutboxRow}
    (hr : w'.db.outbox.get? row = some r) (hkind : r.payload.kind ≠ .notifyApp) :
    r.deadAt = none ∨ Refused (steps ++ [(w, a)]) row := by
  have hkept {old : OutboxRow} (hold : w.db.outbox.get? row = some old)
      (hkind : old.payload.kind ≠ .notifyApp) :
      old.deadAt = none ∨ Refused (steps ++ [(w, a)]) row :=
    (hcondemned.rows hold hkind).imp_right fun hrefused => hrefused.concat _
  cases step_db h with
  | commit mint hfresh hdb hminted =>
    rw [hdb] at hr
    rcases Db.write_outbox_new hr with ⟨old, hold, hleaves⟩ | ⟨-, ⟨op, d, -, -, hnotice⟩ |
      ⟨op, d, payload, -, -, -, rfl⟩⟩
    · obtain rfl := Table.key_of_get? hold
      rw [hleaves.payload] at hkind
      rcases hleaves.dead with hsame | ⟨error, hwrite⟩
      · rw [hsame]
        exact hkept hold hkind
      · obtain ⟨name, job, stage, ht, hid, hends⟩ := killer hwrite
        have hpayload := (hfit.queued ht (hid ▸ hold)).2
        rw [hpayload] at hkind
        exact .inr (hid ▸ (hcondemned.jobs ht (hends.resolve_right hkind) hkind).concat _)
    · obtain ⟨url, type, data, -, rfl⟩ := hnotice
      exact .inl rfl
    · exact .inl rfl
  | create d mint new user hinsert hfresh hdb hminted hcommits =>
    rw [hdb, World.created_outbox] at hr
    split at hr
    · obtain rfl := Option.some.inj hr
      exact .inl rfl
    · exact hkept hr hkind
  | frame f hdeposits hevents hminted hkeeps houtbox hcommits hclaims =>
    rw [houtbox, Option.map_eq_some_iff] at hr
    obtain ⟨old, hold, rfl⟩ := hr
    have hkeep := (hkeeps old).2
    rw [hkeep.payload] at hkind
    exact (hkept hold hkind).imp_left hkeep.alive

theorem init (clock : DateTime) : Condemned [] (World.init clock) where
  jobs h := by cases h
  rows h := by cases h

theorem of_trace {clock : DateTime}
    (h : Lts.Trace (GumServer.step env) (World.init clock) steps w) : Condemned steps w := by
  induction h with
  | nil => exact init clock
  | concat hrun hstep ih =>
    have hreachable : Reachable env _ := ⟨clock, hrun.reaches⟩
    exact {
      jobs := ih.jobs_step (.reachable hreachable) hstep
      rows := ih.rows_step (.reachable hreachable) hstep }

end Condemned

/-- **No job is kept back for long, and none is given up without cause.** In every run whose failed
jobs are put off by `schedule`, with workers that crash, time out, lose their connection or outlive
their lock: once the longest backoff of its kind and the lock are over, what is to run for a deposit
can be claimed, from its first row on. And a row that lies dead is a notification given up for its
age, or its upstream has refused it. -/
theorem jobs_come_due (f : Double) (c : BackoffConfig) (hexact : c.Exact) (env : Env)
    (hage : env.maxAgeSecs = c.maxAgeSecs) (clock : DateTime) (steps : List (World × Action))
    (w : World) (h : Lts.Trace (step env) (World.init clock) steps w)
    (hbacks : ∀ t a, (t, a) ∈ steps → t.BacksOff f c a) (row : Uuid) (r : OutboxRow)
    (hr : w.db.outbox.get? row = some r) :
    (r.deadAt = none → ∀ now : DateTime, w.clock.toMicros +
        max (c.wait r.payload.kind) (env.lockTtlSecs * 1000000) < now.toMicros →
      ∃ first, w.Runs r.depositId r.payload.kind first ∧
        { w with clock := now }.isDue first = true) ∧
    (r.deadAt ≠ none →
      (r.payload.kind = .notifyApp ∧ GivenUp env steps row) ∨
      (r.payload.kind ≠ .notifyApp ∧ Refused steps row)) := by
  obtain rfl := Table.key_of_get? hr
  constructor
  · intro halive now hlate
    have hruns : w.Runs r.depositId r.payload.kind r := ⟨hr, rfl, rfl, halive⟩
    exact hruns.exists_due (OutboxRow.Rearms.of_run hexact hage (h.reaches_of hbacks)) hlate
  · intro hdead
    by_cases hkind : r.payload.kind = .notifyApp
    · exact .inl ⟨hkind, ((Accounted.of_trace h).rows hr hkind).resolve_left hdead⟩
    · exact .inr ⟨hkind, ((Condemned.of_trace h).rows hr hkind).resolve_left hdead⟩

namespace Fixture

/-- The default settings. -/
def backoff : BackoffConfig := ⟨1000, 3600000, 86400, 30000⟩

theorem backoff_exact : backoff.Exact where
  base := by decide
  cap kind := by cases kind <;> decide

/-- Doubles that are never rounded. -/
def exactly : Double := ⟨id, monotone_id, fun _ _ => rfl⟩

/-- The indexer cannot be reached, and the registration is put off by a second. -/
def untilPutOff : List Action := [
  .setUser "user" none,
  .create new "user" 7 (mint 0),
  .claim 0 (mint 0).job,
  .advance 0 (.load requestedAt) (mint 1),
  .advance 0 (.watch (.unavailable "indexer: connection refused")) (mint 2),
  .advance 0 (.schedule requestedAt 1000000) (mint 3)]

/-- Without jitter, a job is put off by the base. -/
theorem backsOff {w : World} {a : Action}
    (h : ∀ name now delay mint, a = .advance name (.schedule now delay) mint →
      delay = 1000000) : w.BacksOff exactly backoff a := by
  intro name now delay mint job stage ha _
  refine ⟨1, 0, le_rfl, zero_le_one, ?_⟩
  intro delayMs hschedule
  rw [h _ _ _ _ ha]
  rw [BackoffConfig.schedule] at hschedule
  split at hschedule
  · cases hschedule
  · obtain rfl := Schedule.retry.inj hschedule
    simp [exactly, backoff]

end Fixture

/-- A registration that was put off is due a minute later, when the lock would be over. -/
theorem jobs_come_due_fixture : ∃ steps w first,
    Lts.Trace (step Fixture.env) (World.init Fixture.requestedAt) steps w ∧
    w.Runs 7 .registerWatch first ∧
    { w with clock := Fixture.later 61 }.isDue first = true := by
  have hrun : ((Lts.trace (step Fixture.env) (World.init Fixture.requestedAt)
      Fixture.untilPutOff).bind fun p => (p.2.db.outbox.get? (Fixture.mint 0).job).map fun r =>
        (p.2.clock.toMicros, r.depositId, r.payload.kind, r.deadAt)) =
      some (1799996400000000, 7, .registerWatch, none) := by
    decide +kernel
  obtain ⟨⟨steps, w⟩, htrace, hfound⟩ := Option.bind_eq_some_iff.mp hrun
  obtain ⟨r, hr, hfound⟩ := Option.map_eq_some_iff.mp hfound
  simp only [Prod.mk.injEq] at hfound
  obtain ⟨hclock, hdeposit, hkind, halive⟩ := hfound
  have hbacks (t : World) (a : Action) (hmem : (t, a) ∈ steps) :
      t.BacksOff Fixture.exactly Fixture.backoff a := by
    have ha : a ∈ Fixture.untilPutOff :=
      Lts.trace_actions htrace ▸ List.mem_map_of_mem (f := Prod.snd) hmem
    refine Fixture.backsOff ?_
    rintro name now delay mint rfl
    simp only [Fixture.untilPutOff, List.mem_cons, List.not_mem_nil, Action.advance.injEq,
      Input.schedule.injEq, reduceCtorEq, false_and, and_false, false_or, or_false] at ha
    exact ha.2.1.2
  have hlate : w.clock.toMicros + max (Fixture.backoff.wait r.payload.kind)
      (Fixture.env.lockTtlSecs * 1000000) < (Fixture.later 61).toMicros := by
    rw [hclock, hkind]
    decide
  obtain ⟨hdue, -⟩ := jobs_come_due Fixture.exactly Fixture.backoff Fixture.backoff_exact
    Fixture.env rfl Fixture.requestedAt steps w (Lts.trace_of_trace htrace) hbacks _ r hr
  obtain ⟨first, hruns, hfirst⟩ := hdue halive (Fixture.later 61) hlate
  rw [hdeposit, hkind] at hruns
  exact ⟨steps, w, first, Lts.trace_of_trace htrace, hruns, hfirst⟩

end GumServer
