import GumServer.Delivered

/-!
# Rows under a lock

`claim` locks a row of the outbox for as long as `lock_ttl_secs`. Until then the row is not due,
whatever becomes of its worker, unless somebody puts it off: `retry_later` is the one statement that
takes the lock off a row that may be claimed again, and it takes it off whoever has set it. (An
operator's requeue would too.)
-/

namespace GumServer

/-- The row a write puts off. -/
def Write.putsOff : Write → Option Uuid
  | .reschedule row _ _ => some row
  | .nothing | .tx _ | .touch _ | .markDead _ _ | .delete _ => none

/-- Whether an action is one of the worker loop's, or an operator's requeue. -/
def Action.isLoop : Action → Bool
  | .tick _ | .claim _ _ | .abandon _ _ _ | .requeue _ => true
  | _ => false

/-- The task an action takes on, or ends. -/
def Action.task : Action → Option ℕ
  | .advance name _ _ | .drop name => some name
  | _ => none

/-- Whether a task is an outbox worker's. -/
def Task.isWorker : Task → Bool
  | .worker _ _ => true
  | _ => false

/-- Whether a stage is at the last statement about its row. -/
def Stage.isLast : Stage → Bool
  | .finishing _ | .rescheduling _ => true
  | _ => false

/-- A row is locked until some time, if it is there at all and may be claimed again. -/
def World.Locked (w : World) (row : Uuid) (t : ℤ) : Prop :=
  ∀ r, w.db.outbox.get? row = some r → r.deadAt = none → r.lockedUntil = some t

/-- A locked row is not due. -/
theorem World.Locked.not_due {w : World} {r : OutboxRow} {t : ℤ} (h : w.Locked r.id t)
    (hr : w.db.outbox.get? r.id = some r) (hnow : w.clock.toMicros ≤ t) : w.isDue r = false := by
  refine Bool.eq_false_of_not_eq_true ?_
  intro hdue
  simp only [World.isDue, Bool.and_eq_true, Option.isNone_iff_eq_none, decide_eq_true_eq] at hdue
  obtain ⟨⟨⟨halive, -⟩, hunlocked⟩, -⟩ := hdue
  rw [h r hr halive, Option.all_some, decide_eq_true_eq] at hunlocked
  omega

/-! ## What leaves a lock alone -/

section Lock

variable {row : Uuid} {t : ℤ}

/-- An update of the outbox that leaves the lock of a row as it is, or the row dead. -/
theorem get?_modify_locked {outbox : Table OutboxRow.id} {k : Uuid} {f : OutboxRow → OutboxRow}
    (hid : ∀ r, (f r).id = r.id)
    (hf : row = k → ∀ r, (f r).deadAt = none → r.deadAt = none ∧ (f r).lockedUntil = r.lockedUntil)
    (h : ∀ r, outbox.get? row = some r → r.deadAt = none → r.lockedUntil = some t) (r : OutboxRow)
    (hr : (outbox.modify k f).get? row = some r) (halive : r.deadAt = none) :
    r.lockedUntil = some t := by
  rw [Table.get?_modify _ _ _ f hid, Option.map_eq_some_iff] at hr
  obtain ⟨old, hold, rfl⟩ := hr
  split at halive
  · next hk =>
    obtain ⟨hwas, hlock⟩ := hf ((Table.key_of_get? hold).symm.trans hk) old halive
    rw [if_pos hk, hlock]
    exact h old hold hwas
  · next hk =>
    rw [if_neg hk]
    exact h old hold halive

/-- A write that does not put a row off leaves it under its lock. -/
theorem Db.write_locked {db : Db} {now : DateTime} {mint : Mint} {write : Write}
    (h : ∀ r, db.outbox.get? row = some r → r.deadAt = none → r.lockedUntil = some t)
    (hmint : row ∉ mint.ids) (hput : write.putsOff ≠ some row) (r : OutboxRow)
    (hr : (db.write now mint write).outbox.get? row = some r) (halive : r.deadAt = none) :
    r.lockedUntil = some t := by
  cases write with
  | nothing => exact h r hr halive
  | touch id => exact h r hr halive
  | tx tx =>
    rw [Db.write] at hr
    rcases db.transact_cases now mint tx with heq | ⟨op, d, -, -, -, heq⟩
    · rw [heq, bound_outbox] at hr
      exact h r hr halive
    · simp only [Mint.ids, List.mem_cons, List.not_mem_nil, or_false, not_or] at hmint
      rw [heq, commit_outbox_of_ne _ _ _ _ _ hmint.2.1 hmint.2.2, bound_outbox] at hr
      exact h r hr halive
  | reschedule k delay error =>
    refine get?_modify_locked (f := OutboxRow.putOff now delay error) (fun _ => rfl) ?_ h r hr halive
    rintro rfl
    exact absurd rfl hput
  | markDead k error =>
    refine get?_modify_locked (f := OutboxRow.kill now error) (fun _ => rfl) ?_ h r hr halive
    intro _ r hdead
    cases hdead
  | delete k =>
    rw [Db.write] at hr
    dsimp only at hr
    rw [Table.get?_erase] at hr
    exact h r (Option.ite_none_left_eq_some.mp hr).2 halive

variable {env : Env} {w w' : World} {a : Action}

/-- **A step that does not put a row off leaves it under its lock**, and before the lock is over the
row cannot be claimed. -/
theorem World.Locked.step (h : w.Locked row t) (hstep : GumServer.step env w a = some w')
    (hrow : row ∈ w.minted) (hput : (w.commits env a).putsOff ≠ some row)
    (hrequeue : a ≠ .requeue row) (hnow : w.clock.toMicros ≤ t ∨ ∀ name, a ≠ .claim name row) :
    w'.Locked row t := by
  have hnot {ids : List Uuid} (hfresh : w.fresh ids = true) : row ∉ ids :=
    fun hid => JobsFit.not_minted hfresh hid hrow
  cases step_cases hstep with
  | advance task input mint task' write engine next ht hnext hfresh =>
    rw [World.commits_advance ht hnext] at hput
    exact Db.write_locked h (hnot hfresh) hput
  | retrySettlement id mint hfresh => exact Db.write_locked h (hnot hfresh) hput
  | create new user d mint hinsert hfresh =>
    intro r hr halive
    have hjob : mint.job ≠ row := by
      rintro rfl
      exact hnot hfresh (by simp [Mint.ids])
    have hr : (w.created d mint).outbox.get? row = some r := hr
    rw [World.created_outbox, if_neg hjob] at hr
    exact h r hr halive
  | claim name r hr hdue =>
    intro r' hr' halive
    have hne : r.id ≠ row := by
      rintro rfl
      rcases hnow with hnow | hclaim
      · rw [h.not_due hr hnow] at hdue
        cases hdue
      · exact hclaim name rfl
    have hr' : (w.db.outbox.put (w.lock env r)).get? row = some r' := hr'
    exact h r' ((Table.get?_put_ne _ (w.lock env r) hne).symm.trans hr') halive
  | requeue k =>
    refine get?_modify_locked (f := w.requeued) (fun _ => rfl) ?_ h
    rintro rfl
    exact absurd rfl hrequeue
  | _ => exact h

end Lock

/-! ## Who puts a row off -/

section PutsOff

variable {env : Env} {w w' : World} {row : Uuid}

/-- Only a worker puts a row off, its own, with its last statement. -/
theorem World.putsOff_commits {a : Action} (h : (w.commits env a).putsOff = some row) :
    ∃ name input mint job stage, a = .advance name input mint ∧
      w.tasks.get? name = some (.worker job stage) ∧ stage.isLast = true ∧ job.id = row := by
  cases a with
  | advance name input mint =>
    cases ht : w.tasks.get? name with
    | none =>
      rw [World.commits, ht] at h
      cases h
    | some t =>
      rcases hnext : t.next env w.db w.engine input with _ | ⟨write, engine', t'⟩
      · rw [World.commits, ht, Option.bind_some, hnext] at h
        cases h
      · rw [World.commits_advance ht hnext] at h
        have hlater {job : OutboxJob} {now : DateTime} {delay : ℤ} {error : String}
            (h : (Worker.retryLater env job now delay error).putsOff = some row) : job.id = row := by
          rw [Worker.retryLater] at h
          split at h
          · cases h
          · exact Option.some.inj h
        rcases Task.next_step hnext with ⟨hstep, -⟩ | ⟨job, stage, stage', rfl, -, hstep⟩
        · cases hstep <;> cases h
        · refine ⟨name, input, mint, job, stage, rfl, ht, ?_⟩
          cases hstep with
          | finalise attempt _ _ hwrite =>
            cases attempt <;> cases input <;> cases hwrite
            · cases h
            · exact ⟨rfl, hlater h⟩
            · cases h
          | reschedule error now delay => exact ⟨rfl, hlater h⟩
          | _ => cases h
  | retrySettlement id mint => cases h
  | _ => cases h

end PutsOff

end GumServer
