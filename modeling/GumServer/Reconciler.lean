import GumServer.OldestFirst
import GumServer.Overdue

/-!
# The reconciler's passes

A tick of the reconciler polls the indexer for open deposits that have gone quiet, and the engine
for paid ones (`reconcile_open` and `reconcile_paid` of `reconciler.rs`). Each of the two takes a
batch of a hundred, the least recently touched first, and goes through it in order. The replicas
tick on their own, amid everything else that happens to the service.

A deposit is touched by whatever comes of its poll, so the next batches are others. But one whose
poll is refused is left as it is, at the head of the line, and so is one whose receipt says nothing.
-/

namespace GumServer

/-- `BATCH`. -/
def BATCH : ℕ := 100

/-- The loops of a tick: `reconcile_open` and `reconcile_paid`. -/
inductive Sweep : Type where
  | openDeposits | paidDeposits
deriving DecidableEq

namespace Sweep

/-- The status of the deposits it is about. -/
def covers : Sweep → Deposit → Bool
  | .openDeposits, d => d.status.isOpen
  | .paidDeposits, d => d.status == .paid

/-- The `WHERE` clause of `stale_open` or `stale_paid`. -/
def selects (env : Env) (w : World) : Sweep → Deposit → Bool
  | .openDeposits, d => w.isStaleOpen env d && d.watchId.isSome
  | .paidDeposits, d => w.isStalePaid env d && d.engineJobId.isSome

/-- The load of a deposit. -/
def load : Sweep → ℕ → Uuid → Action
  | .openDeposits, name, id => .staleOpen name id
  | .paidDeposits, name, id => .stalePaid name id

end Sweep

namespace World

variable (w : World)

/-- When a deposit was last touched. -/
def touchedAt (id : Uuid) : Option ℤ := (w.db.deposits.get? id).map fun d => d.updatedAt.toMicros

/-- `ORDER BY updated_at LIMIT`: whether a select can answer with these rows, in this order. -/
def isBatch (env : Env) (sweep : Sweep) (ids : List Uuid) : Bool :=
  decide ids.Nodup && decide (ids.length ≤ BATCH) &&
  ids.all (fun id => (w.db.deposits.get? id).any (sweep.selects env w)) &&
  decide ((ids.filterMap w.touchedAt).Pairwise (· ≤ ·)) &&
  w.db.deposits.rows.all fun d => !sweep.selects env w d || ids.contains d.id ||
    decide (ids.length = BATCH) &&
      ids.all fun id => (w.touchedAt id).any fun t => decide (t ≤ d.updatedAt.toMicros)

/-- Tasks that end where they are. -/
def release (names : List ℕ) : World := { w with tasks := names.foldl KeyMap.erase w.tasks }

end World

/-- The rest of a batch: its deposits, each under the name of its task. -/
structure Pass where
  sweep : Sweep
  todo : List (ℕ × Uuid)

/-- The service, and the passes of its replicas. -/
structure Fleet where
  world : World
  passes : KeyMap ℕ Pass

/-- What can happen. -/
inductive FleetAction : Type where
  /-- anything but the reconcilers' polls -/
  | service (a : Action) : FleetAction
  /-- a replica loads a batch -/
  | select (replica : ℕ) (sweep : Sweep) (rows : List (ℕ × Uuid)) : FleetAction
  /-- it goes on with the deposit it is at -/
  | proceed (replica : ℕ) (input : Input) (mint : Mint) : FleetAction
  /-- the upstream refuses the poll, and it goes on to the next deposit -/
  | skip (replica : ℕ) : FleetAction
  /-- the upstream is unavailable, a statement fails, or the tick is over -/
  | stop (replica : ℕ) : FleetAction

namespace Fleet

variable (s : Fleet)

/-- The tasks of the passes. -/
def held : List ℕ := s.passes.values.flatMap fun p => p.todo.map Prod.fst

/-- Whether an action leaves the passes alone. -/
def leavesPasses : Action → Bool
  | .staleOpen _ _ | .stalePaid _ _ => false
  | .advance name _ _ | .drop name => !s.held.contains name
  | _ => true

/-- Whether a replica is between its passes. -/
def idle (replica : ℕ) : Bool := (s.passes.get? replica).all fun p => p.todo.isEmpty

/-- What is left of a replica's pass. -/
def turn (replica : ℕ) (sweep : Sweep) : List (ℕ × Uuid) :=
  match s.passes.get? replica with
  | some p => if p.sweep = sweep then p.todo else []
  | none => []

/-- Whether a task waits for its upstream. -/
def asks (name : ℕ) : Bool :=
  match s.world.tasks.get? name with
  | some (.openStale _ _) | some (.paidStale _ _) => true
  | _ => false

/-- The service after a batch is loaded. -/
def loads (env : Env) (w : World) (sweep : Sweep) (rows : List (ℕ × Uuid)) : Option World :=
  rows.foldlM (fun w row => GumServer.step env w (sweep.load row.1 row.2)) w

/-- One step. -/
def step (env : Env) (s : Fleet) : FleetAction → Option Fleet
  | .service a =>
    if s.leavesPasses a then (GumServer.step env s.world a).map fun w => { s with world := w }
    else none
  | .select replica sweep rows =>
    if s.idle replica && s.world.isBatch env sweep (rows.map Prod.snd) then
      (loads env s.world sweep rows).map fun w => ⟨w, s.passes.put replica ⟨sweep, rows⟩⟩
    else none
  | .proceed replica input mint =>
    (s.passes.get? replica).bind fun p =>
      match p.todo with
      | [] => none
      | (name, id) :: rest =>
        (GumServer.step env s.world (.advance name input mint)).map fun w =>
          ⟨w, s.passes.put replica
            ⟨p.sweep, if (w.tasks.get? name).isSome then (name, id) :: rest else rest⟩⟩
  | .skip replica =>
    (s.passes.get? replica).bind fun p =>
      match p.todo with
      | [] => none
      | (name, _) :: rest =>
        if s.asks name then some ⟨s.world.release [name], s.passes.put replica ⟨p.sweep, rest⟩⟩
        else none
  | .stop replica =>
    (s.passes.get? replica).map fun p =>
      ⟨s.world.release (p.todo.map Prod.fst), s.passes.put replica ⟨p.sweep, []⟩⟩

/-- Before anything has happened. -/
def init (clock : DateTime) : Fleet := ⟨World.init clock, KeyMap.empty⟩

/-- The states the fleet can get to. -/
def Reachable (env : Env) (s : Fleet) : Prop :=
  ∃ clock, Lts.Reaches (step env) Lts.Any (init clock) s

end Fleet

/-! ## Who has been touched -/

/-- A row that nobody has touched. -/
structure Untouched (d d' : Deposit) : Prop where
  updatedAt : d'.updatedAt = d.updatedAt
  status : d'.status = d.status
  engineJobId : d'.engineJobId = d.engineJobId
  engineSubmittedAt : d'.engineSubmittedAt = d.engineSubmittedAt
  watchId : d.watchId.isSome = true → d'.watchId.isSome = true

theorem Untouched.refl (d : Deposit) : Untouched d d := ⟨rfl, rfl, rfl, rfl, id⟩

theorem Untouched.trans {d d' d'' : Deposit} (h : Untouched d d') (h' : Untouched d' d'') :
    Untouched d d'' where
  updatedAt := h'.updatedAt.trans h.updatedAt
  status := h'.status.trans h.status
  engineJobId := h'.engineJobId.trans h.engineJobId
  engineSubmittedAt := h'.engineSubmittedAt.trans h.engineSubmittedAt
  watchId hwatch := h'.watchId (h.watchId hwatch)

/-- Binding a watch on sight touches nothing. -/
theorem Tx.bindRow_untouched (tx : Tx) (now : DateTime) (d : Deposit) :
    Untouched d (tx.bindRow now d) := by
  rw [Tx.bindRow.eq_def]
  split
  · split
    · split
      · exact ⟨rfl, rfl, rfl, rfl, fun _ => rfl⟩
      · exact .refl d
    · exact .refl d
  · exact .refl d

/-- Every transition stamps its row, but for the one that only records an event. -/
theorem Op.row_touched (op : Op) (now : DateTime) (d : Deposit) :
    (op.transition.row now d).updatedAt = now ∨ Untouched d (op.transition.row now d) := by
  cases op with
  | applyPaymentOrphaned data => exact .inr ⟨rfl, rfl, rfl, rfl, id⟩
  | markEngineSubmitted job replayed =>
    cases replayed with
    | true => exact .inl rfl
    | false => exact .inl rfl
  | _ => exact .inl rfl

/-- **A write stamps a row or leaves it untouched.** -/
theorem Write.row_touched (write : Write) (now : DateTime) (d : Deposit) :
    (write.row now d).updatedAt = now ∨ Untouched d (write.row now d) := by
  cases write with
  | tx tx =>
    have hbound := tx.bindRow_untouched now d
    rw [Write.row, Tx.opRow.eq_def]
    split
    · next op id hop =>
      split_ifs
      · rcases op.row_touched now (tx.bindRow now d) with hstamped | huntouched
        · exact .inl hstamped
        · exact .inr (hbound.trans huntouched)
      · exact .inr hbound
      · exact .inr hbound
    · exact .inr hbound
  | touch id =>
    rw [Write.row]
    split
    · exact .inl rfl
    · exact .inr (.refl d)
  | nothing => exact .inr (.refl d)
  | reschedule row delay error => exact .inr (.refl d)
  | markDead row error => exact .inr (.refl d)
  | delete row => exact .inr (.refl d)

/-- An untouched deposit is as due as it was, and more so as time passes. -/
theorem Sweep.selects_untouched {env : Env} {w w' : World} {sweep : Sweep} {d d' : Deposit}
    (h : Untouched d d') (hclock : w.clock.toMicros ≤ w'.clock.toMicros)
    (hselects : sweep.selects env w d = true) : sweep.selects env w' d' = true := by
  have hago (secs : ℤ) : w.ago secs ≤ w'.ago secs := by
    rw [World.ago, World.ago]
    omega
  cases sweep with
  | openDeposits =>
    simp only [selects, World.isStaleOpen, Bool.and_eq_true, decide_eq_true_eq] at hselects ⊢
    obtain ⟨⟨hopen, hstale⟩, hwatch⟩ := hselects
    rw [h.status, h.updatedAt]
    exact ⟨⟨hopen, Int.lt_of_lt_of_le hstale (hago _)⟩, h.watchId hwatch⟩
  | paidDeposits =>
    simp only [selects, World.isStalePaid, Bool.and_eq_true, decide_eq_true_eq] at hselects ⊢
    obtain ⟨⟨⟨hpaid, hsubmitted⟩, hstale⟩, hjob⟩ := hselects
    rw [h.status, h.updatedAt, h.engineSubmittedAt, h.engineJobId]
    exact ⟨⟨⟨hpaid, Int.lt_of_lt_of_le hsubmitted (hago _)⟩, Int.lt_of_lt_of_le hstale (hago _)⟩,
      hjob⟩

/-- What is due is covered. -/
theorem Sweep.covers_of_selects {env : Env} {w : World} {sweep : Sweep} {d : Deposit}
    (h : sweep.selects env w d = true) : sweep.covers d = true := by
  cases sweep with
  | openDeposits =>
    simp only [selects, World.isStaleOpen, Bool.and_eq_true] at h
    exact h.1.1
  | paidDeposits =>
    simp only [selects, World.isStalePaid, Bool.and_eq_true] at h
    exact h.1.1.1

theorem Sweep.covers_untouched {sweep : Sweep} {d d' : Deposit} (h : Untouched d d') :
    sweep.covers d' = sweep.covers d := by
  cases sweep <;> rw [covers, h.status, covers]

/-! ## The line -/

/-- The deposits a sweep is about, by the time they were last touched. -/
def World.line (w : World) (sweep : Sweep) : OldestFirst.Line Uuid := fun id =>
  ((w.db.deposits.get? id).filter sweep.covers).map fun d => d.updatedAt.toMicros

theorem World.line_eq_some {w : World} {sweep : Sweep} {id : Uuid} {t : ℤ} :
    w.line sweep id = some t ↔
      ∃ d, w.db.deposits.get? id = some d ∧ sweep.covers d = true ∧ d.updatedAt.toMicros = t := by
  rw [World.line, Option.map_eq_some_iff]
  constructor
  · rintro ⟨d, hd, ht⟩
    obtain ⟨hd, hcovers⟩ := Option.filter_eq_some_iff.mp hd
    exact ⟨d, hd, hcovers, ht⟩
  · rintro ⟨d, hd, hcovers, ht⟩
    exact ⟨d, Option.filter_eq_some_iff.mpr ⟨hd, hcovers⟩, ht⟩

/-- **Whatever a step touches goes to the end of the line**, and so does whatever comes to it. -/
theorem step_line {env : Env} {w w' : World} {a : Action} (h : step env w a = some w')
    (sweep : Sweep) : OldestFirst.Moves w.clock.toMicros (w.line sweep) (w'.line sweep) := by
  intro id t ht
  obtain ⟨d', hd', hcovers, rfl⟩ := World.line_eq_some.mp ht
  rcases JobsFit.step_row_cases h hd' with ⟨d, hd, rfl⟩ | ⟨new, user, d, hinsert, -, rfl⟩
  · rcases (w.commits env a).row_touched w.clock d with hstamped | huntouched
    · rw [hstamped]
      exact .inr (Int.le_refl _)
    · refine .inl (World.line_eq_some.mpr ⟨d, hd, ?_, ?_⟩)
      · rw [← Sweep.covers_untouched huntouched]
        exact hcovers
      · rw [huntouched.updatedAt]
  · rw [(stamps_of_insert hinsert).2]
    exact .inr (Int.le_refl _)

/-! ## The tasks of a pass -/

/-- A task of a sweep, at some deposit. -/
def Task.Polls (sweep : Sweep) (id : Uuid) : Task → Prop
  | .openStale d _ | .openPolled d _ _ _ => sweep = .openDeposits ∧ d.id = id
  | .paidStale d _ | .paidUnknown d _ => sweep = .paidDeposits ∧ d.id = id
  | .settling claim _ d _ _ => claim = none ∧ sweep = .paidDeposits ∧ d.id = id
  | .touching k => k = id
  | .indexer _ _ _ | .overdue _ | .worker _ _ => False

/-- A report that says nothing of the settlement: its deposit is left as it is. -/
def Task.silent : Task → Bool
  | .settling _ _ _ .pending _ => true
  | _ => false

/-- A row that has been touched, or that the sweep is no longer about. -/
def Sweep.Served (sweep : Sweep) (now : DateTime) (d : Deposit) : Prop :=
  d.updatedAt = now ∨ sweep.covers d = false

/-- A transition of the sweep's kind hits its row, unless the sweep is no longer about it. -/
theorem Sweep.served_of {sweep : Sweep} {op : Op} {d : Deposit} {now : DateTime}
    (hguard : sweep.covers d = true → op.transition.guard d = true)
    (hstamps : (op.transition.row now d).updatedAt = now) :
    sweep.Served now ((Write.tx (.of op d.id)).row now d) := by
  rw [Write.row_of op now rfl]
  by_cases hcovers : sweep.covers d = true
  · rw [if_pos (hguard hcovers)]
    exact .inl hstamps
  · split
    · exact .inl hstamps
    · exact .inr (Bool.eq_false_of_not_eq_true hcovers)

/-- Whatever a polled watch asks for stamps its row. -/
theorem OpenAsks.stamps {lib : Crates} {watch : WatchDetail} {op : Op} (h : OpenAsks lib watch op)
    (now : DateTime) (d : Deposit) : (op.transition.row now d).updatedAt = now := by
  cases h <;> rfl

/-- And so does whatever a report asks for. -/
theorem SettlementAsks.stamps {outcome : SettlementOutcome} {op : Op}
    (h : SettlementAsks outcome op) (now : DateTime) (d : Deposit) :
    (op.transition.row now d).updatedAt = now := by
  cases h <;> rfl

theorem settlementOp_eq_none {outcome : SettlementOutcome} {retries : ℕ}
    (h : settlementOp outcome retries = none) : outcome = .pending := by
  cases outcome with
  | included txHash blockNumber data => cases h
  | settled txHash blockNumber data => cases h
  | failed code message txHash revertData data =>
    rw [settlementOp] at h
    split at h <;> cases h
  | pending => rfl

/-- What a poll of a watch ends in: nothing more to do when its transition hits the row. -/
theorem Task.next_openPolled {env : Env} {db : Db} {engine engine' : Engine} {d : Deposit}
    {watchId : Uuid} {watch : WatchDetail} {polledAt : String} {input : Input} {write : Write}
    {t' : Option Task} (h : (Task.openPolled d watchId (some watch) polledAt).next env db engine
      input = some (write, engine', t')) :
    write = .tx ⟨none, none, (openOp env.readers.lib d watchId watch polledAt).map fun op =>
      (op, d.id)⟩ ∧
    t' = if db.applies (openOp env.readers.lib d watchId watch polledAt) d.id then none
      else some (.touching d.id) := by
  cases input with
  | go =>
    obtain ⟨rfl, -, rfl⟩ := by simpa [Task.next] using h
    exact ⟨rfl, rfl⟩
  | _ => cases h

/-- A transition that hits its row, as `applies` finds. -/
theorem Db.of_applies {db : Db} {op : Option Op} {id : Uuid} (h : db.applies op id = true) :
    ∃ op' d, op = some op' ∧ db.deposits.get? id = some d ∧ op'.transition.guard d = true := by
  rw [Db.applies.eq_def] at h
  split at h
  · next op' d hd => exact ⟨op', d, rfl, hd, h⟩
  · cases h

/-- A report that says nothing is done with at once. -/
theorem Task.next_silent {env : Env} {db : Db} {engine engine' : Engine} {t : Task} {input : Input}
    {write : Write} {t' : Option Task} (h : t.silent = true)
    (hnext : t.next env db engine input = some (write, engine', t')) : t' = none := by
  rw [silent.eq_def] at h
  split at h
  · cases input with
    | go => exact (Prod.mk.inj (Prod.mk.inj (Option.some.inj hnext)).2).2.symm
    | _ => cases hnext
  · cases h

/-- **What comes of a poll touches its deposit**, unless there is nothing in the report, or the
sweep is no longer about the deposit. -/
theorem Task.Polls.next {env : Env} {db : Db} {engine engine' : Engine} {t : Task} {input : Input}
    {write : Write} {t' : Option Task} {sweep : Sweep} {id : Uuid} (h : t.Polls sweep id)
    (hnext : t.next env db engine input = some (write, engine', t')) (now : DateTime) :
    (∃ t'', t' = some t'' ∧ t''.Polls sweep id) ∨ (t' = none ∧ (t.silent = true ∨
      ∀ d, db.deposits.get? id = some d → sweep.Served now (write.row now d))) := by
  rcases Task.next_step hnext with ⟨hstep, -⟩ | ⟨job, stage, stage', rfl, -, -⟩
  · cases hstep with
    | indexer event d => exact h.elim
    | readOrphaned event d row hrow => exact h.elim
    | count claim job d outcome => exact .inl ⟨_, rfl, h⟩
    | settle claim job d outcome retries hcounted =>
      obtain ⟨rfl, rfl, rfl⟩ := h
      refine .inr ⟨rfl, ?_⟩
      cases hop : settlementOp outcome (retries.getD 0) with
      | none =>
        rw [settlementOp_eq_none hop]
        exact .inl rfl
      | some op =>
        have hasks := settlementOp_asks hop
        refine .inr fun d' hd' => ?_
        obtain hid := Table.key_of_get? hd'
        have hserved : Sweep.paidDeposits.Served now ((Write.tx (.of op d'.id)).row now d') :=
          Sweep.served_of (fun hcovers => hasks.guard ▸ hcovers) (hasks.stamps now d')
        rw [hid] at hserved
        exact hserved
    | pollOpen d watchId watch polledAt => exact .inl ⟨_, rfl, h⟩
    | reregister d watchId polledAt =>
      obtain ⟨rfl, rfl⟩ := h
      refine .inr ⟨rfl, .inr fun d' hd' => ?_⟩
      rw [← Table.key_of_get? hd']
      exact Sweep.served_of (fun hcovers => hcovers) rfl
    | applyOpen d watchId watch polledAt t' ht' =>
      obtain ⟨rfl, rfl⟩ := h
      obtain ⟨-, htask⟩ := Task.next_openPolled hnext
      split at htask
      · next happlies =>
        obtain ⟨op, d', hop, hd', hguard⟩ := Db.of_applies happlies
        refine .inr ⟨htask, .inr fun e he => ?_⟩
        obtain rfl := Option.some.inj (hd'.symm.trans he)
        rw [hop, ← Table.key_of_get? hd']
        exact Sweep.served_of (fun _ => hguard) ((openOp_asks hop).stamps now d')
      · exact .inl ⟨_, htask, rfl⟩
    | unknownJob d job => exact .inl ⟨_, rfl, h⟩
    | pollPaid d job polled polledAt outcome houtcome => exact .inl ⟨_, rfl, rfl, h⟩
    | inFlight d job => exact .inl ⟨_, rfl, h.2⟩
    | resubmit d job =>
      obtain ⟨rfl, rfl⟩ := h
      refine .inr ⟨rfl, .inr fun d' hd' => ?_⟩
      rw [← Table.key_of_get? hd']
      exact Sweep.served_of (fun hcovers => hcovers) rfl
    | touch k =>
      obtain rfl : k = id := h
      refine .inr ⟨rfl, .inr fun d' hd' => .inl ?_⟩
      rw [Write.row, if_pos (Table.key_of_get? hd')]
    | overdue k => exact h.elim
  · exact h.elim

/-! ## The fleet's steps -/

namespace World

variable (w : World)

@[simp] theorem release_db (names : List ℕ) : (w.release names).db = w.db := rfl

@[simp] theorem release_clock (names : List ℕ) : (w.release names).clock = w.clock := rfl

@[simp] theorem release_nil : w.release [] = w := rfl

theorem release_cons (name : ℕ) (names : List ℕ) :
    w.release (name :: names) = { w with tasks := w.tasks.erase name }.release names := rfl

/-- A task that is not released stays. -/
theorem release_tasks {names : List ℕ} {name : ℕ} (h : name ∉ names) :
    (w.release names).tasks.get? name = w.tasks.get? name := by
  induction names generalizing w with
  | nil => rfl
  | cons k names ih =>
    rw [List.mem_cons, not_or] at h
    rw [release_cons, ih _ h.2]
    exact KeyMap.get?_erase_ne _ h.1

/-- Releasing tasks drops them one by one. -/
theorem release_reaches (env : Env) (names : List ℕ) :
    Lts.Reaches (GumServer.step env) Lts.Any w (w.release names) := by
  induction names generalizing w with
  | nil => exact .refl
  | cons k names ih =>
    have hdrop : GumServer.step env w (.drop k) = some { w with tasks := w.tasks.erase k } := rfl
    rw [release_cons]
    exact (Lts.Reaches.refl.tail trivial hdrop).trans (ih _)

end World

namespace Fleet

variable {env : Env} {s s' : Fleet} {a : FleetAction} {w w' : World} {sweep : Sweep}
  {rows : List (ℕ × Uuid)} {replica : ℕ}

/-- The steps that can be taken, with what is checked before each and the fleet after it. -/
inductive Stepped (env : Env) (s : Fleet) : FleetAction → Fleet → Prop where
  | service (a : Action) (w : World) (hleaves : s.leavesPasses a = true)
      (hstep : GumServer.step env s.world a = some w) :
      Stepped env s (.service a) { s with world := w }
  | select (replica : ℕ) (sweep : Sweep) (rows : List (ℕ × Uuid)) (w : World)
      (hidle : s.idle replica = true)
      (hbatch : s.world.isBatch env sweep (rows.map Prod.snd) = true)
      (hloads : loads env s.world sweep rows = some w) :
      Stepped env s (.select replica sweep rows) ⟨w, s.passes.put replica ⟨sweep, rows⟩⟩
  | proceed (replica : ℕ) (input : Input) (mint : Mint) (sweep : Sweep) (name : ℕ) (id : Uuid)
      (rest : List (ℕ × Uuid)) (w : World)
      (hpass : s.passes.get? replica = some ⟨sweep, (name, id) :: rest⟩)
      (hstep : GumServer.step env s.world (.advance name input mint) = some w) :
      Stepped env s (.proceed replica input mint) ⟨w, s.passes.put replica
        ⟨sweep, if (w.tasks.get? name).isSome then (name, id) :: rest else rest⟩⟩
  | skip (replica : ℕ) (sweep : Sweep) (name : ℕ) (id : Uuid) (rest : List (ℕ × Uuid))
      (hpass : s.passes.get? replica = some ⟨sweep, (name, id) :: rest⟩) :
      Stepped env s (.skip replica) ⟨s.world.release [name], s.passes.put replica ⟨sweep, rest⟩⟩
  | stop (replica : ℕ) (sweep : Sweep) (todo : List (ℕ × Uuid))
      (hpass : s.passes.get? replica = some ⟨sweep, todo⟩) :
      Stepped env s (.stop replica)
        ⟨s.world.release (todo.map Prod.fst), s.passes.put replica ⟨sweep, []⟩⟩

/-- **What a step can be.** -/
theorem step_cases (h : step env s a = some s') : Stepped env s a s' := by
  cases a with
  | service a =>
    rw [step] at h
    split at h
    · next hleaves =>
      obtain ⟨w, hstep, rfl⟩ := Option.map_eq_some_iff.mp h
      exact .service a w hleaves hstep
    · cases h
  | select replica sweep rows =>
    rw [step] at h
    split at h
    · next hok =>
      obtain ⟨w, hloads, rfl⟩ := Option.map_eq_some_iff.mp h
      rw [Bool.and_eq_true] at hok
      exact .select replica sweep rows w hok.1 hok.2 hloads
    · cases h
  | proceed replica input mint =>
    obtain ⟨⟨sweep, todo⟩, hpass, h⟩ := Option.bind_eq_some_iff.mp h
    cases todo with
    | nil => cases h
    | cons row rest =>
      obtain ⟨w, hstep, rfl⟩ := Option.map_eq_some_iff.mp h
      exact .proceed replica input mint sweep row.1 row.2 rest w hpass hstep
  | skip replica =>
    obtain ⟨⟨sweep, todo⟩, hpass, h⟩ := Option.bind_eq_some_iff.mp h
    cases todo with
    | nil => cases h
    | cons row rest =>
      dsimp only at h
      split at h
      · obtain rfl := Option.some.inj h
        exact .skip replica sweep row.1 row.2 rest hpass
      · cases h
  | stop replica =>
    obtain ⟨⟨sweep, todo⟩, hpass, rfl⟩ := Option.map_eq_some_iff.mp h
    exact .stop replica sweep todo hpass

/-- Loading a batch starts its tasks, each at its deposit, and nothing else. -/
structure Loaded (sweep : Sweep) (rows : List (ℕ × Uuid)) (w w' : World) : Prop where
  db : w'.db = w.db
  clock : w'.clock = w.clock
  names : (rows.map Prod.fst).Nodup
  started : ∀ row ∈ rows, w.tasks.get? row.1 = none ∧
    ∃ t, w'.tasks.get? row.1 = some t ∧ t.Polls sweep row.2
  others : ∀ name, name ∉ rows.map Prod.fst → w'.tasks.get? name = w.tasks.get? name

/-- A load starts a task under a free name. -/
theorem load_step {name : ℕ} {id : Uuid} (h : GumServer.step env w (sweep.load name id) = some w') :
    w.tasks.get? name = none ∧ ∃ t, t.Polls sweep id ∧ w' = w.start name t := by
  cases sweep with
  | openDeposits =>
    obtain ⟨d, hd, h⟩ := Option.bind_eq_some_iff.mp h
    obtain ⟨watch, -, h⟩ := Option.bind_eq_some_iff.mp h
    obtain ⟨hok, rfl⟩ := require_eq_some.mp h
    simp only [Bool.and_eq_true, World.free, Option.isNone_iff_eq_none] at hok
    exact ⟨hok.1.1, .openStale d watch, ⟨rfl, Table.key_of_get? hd⟩, rfl⟩
  | paidDeposits =>
    obtain ⟨d, hd, h⟩ := Option.bind_eq_some_iff.mp h
    obtain ⟨job, -, h⟩ := Option.bind_eq_some_iff.mp h
    obtain ⟨hok, rfl⟩ := require_eq_some.mp h
    simp only [Bool.and_eq_true, World.free, Option.isNone_iff_eq_none] at hok
    exact ⟨hok.1.1, .paidStale d job, ⟨rfl, Table.key_of_get? hd⟩, rfl⟩

theorem Loaded.of_loads (h : loads env w sweep rows = some w') : Loaded sweep rows w w' := by
  induction rows generalizing w with
  | nil =>
    obtain rfl := Option.some.inj h
    exact ⟨rfl, rfl, List.nodup_nil, fun _ hmem => (List.not_mem_nil hmem).elim, fun _ _ => rfl⟩
  | cons row rows ih =>
    rw [loads, List.foldlM_cons] at h
    obtain ⟨mid, hload, h⟩ := Option.bind_eq_some_iff.mp h
    obtain ⟨hfree, t, hpolls, rfl⟩ := load_step hload
    have hrest := ih h
    have hname : row.1 ∉ rows.map Prod.fst := by
      intro hmem
      obtain ⟨other, hother, heq⟩ := List.mem_map.mp hmem
      have hnone := (hrest.started other hother).1
      rw [heq, World.start, KeyMap.get?_put_self] at hnone
      cases hnone
    refine ⟨hrest.db, hrest.clock, List.nodup_cons.mpr ⟨hname, hrest.names⟩, ?_, ?_⟩
    · intro other hother
      rcases List.mem_cons.mp hother with rfl | hother
      · refine ⟨hfree, t, ?_, hpolls⟩
        rw [hrest.others _ hname]
        exact KeyMap.get?_put_self _ _ _
      · obtain ⟨hnone, hstarted⟩ := hrest.started other hother
        refine ⟨?_, hstarted⟩
        rwa [World.start, KeyMap.get?_put_ne] at hnone
        rintro heq
        exact hname (heq ▸ List.mem_map_of_mem hother)
    · intro name hnot
      rw [List.map_cons, List.mem_cons, not_or] at hnot
      rw [hrest.others name hnot.2]
      exact KeyMap.get?_put_ne _ _ hnot.1

/-- Loading a batch takes steps of the service. -/
theorem loads_reaches (h : loads env w sweep rows = some w') :
    Lts.Reaches (GumServer.step env) Lts.Any w w' := by
  induction rows generalizing w with
  | nil =>
    obtain rfl := Option.some.inj h
    exact .refl
  | cons row rows ih =>
    rw [loads, List.foldlM_cons] at h
    obtain ⟨mid, hload, h⟩ := Option.bind_eq_some_iff.mp h
    exact (Lts.Reaches.refl.tail trivial hload).trans (ih h)

/-- A step of the fleet is a few steps of the service. -/
theorem step_world (h : step env s a = some s') :
    Lts.Reaches (GumServer.step env) Lts.Any s.world s'.world := by
  cases step_cases h with
  | service a w hleaves hstep => exact Lts.Reaches.refl.tail trivial hstep
  | select replica sweep rows w hidle hbatch hloads => exact loads_reaches hloads
  | proceed replica input mint sweep name id rest w hpass hstep =>
    exact Lts.Reaches.refl.tail trivial hstep
  | skip replica sweep name id rest hpass => exact s.world.release_reaches env [name]
  | stop replica sweep todo hpass => exact s.world.release_reaches env _

/-- A run of the fleet is a run of the service. -/
theorem reaches_world (h : Lts.Reaches (step env) Lts.Any s s') :
    Lts.Reaches (GumServer.step env) Lts.Any s.world s'.world := by
  refine h.invariant (P := fun t => Lts.Reaches (GumServer.step env) Lts.Any s.world t.world)
    .refl ?_
  intro t a t' _ ht _ hstep
  exact ht.trans (step_world hstep)

/-- **The fleet is the service**: whatever it gets to, the service can get to, so all that holds of
every run of that holds here. -/
theorem Reachable.world (h : Reachable env s) : GumServer.Reachable env s.world := by
  obtain ⟨clock, hreach⟩ := h
  exact ⟨clock, reaches_world hreach⟩

/-! ## Passes and their tasks -/

/-- A task stays in flight as long as no step is its own. -/
theorem task_stays {a : Action} (h : GumServer.step env w a = some w') {name : ℕ} {t : Task}
    (ht : w.tasks.get? name = some t) (hadvance : ∀ input mint, a ≠ .advance name input mint)
    (hdrop : a ≠ .drop name) : w'.tasks.get? name = some t := by
  have hstart {k : ℕ} {t' : Task} (hfree : w.free k = true) :
      (w.start k t').tasks.get? name = some t := by
    have hne : name ≠ k := by
      rintro rfl
      rw [World.free, ht] at hfree
      cases hfree
    exact (KeyMap.get?_put_ne _ _ hne).trans ht
  cases a with
  | tick now =>
    obtain ⟨-, rfl⟩ := require_eq_some.mp h
    exact ht
  | setUser user url =>
    obtain rfl := Option.some.inj h
    exact ht
  | create new user id mint =>
    obtain ⟨d, -, h⟩ := Option.bind_eq_some_iff.mp h
    obtain ⟨-, rfl⟩ := require_eq_some.mp h
    exact ht
  | indexerEvent task event found =>
    cases found with
    | none =>
      obtain ⟨-, rfl⟩ := require_eq_some.mp h
      exact ht
    | some id =>
      obtain ⟨d, -, h⟩ := Option.bind_eq_some_iff.mp h
      obtain ⟨hok, rfl⟩ := require_eq_some.mp h
      simp only [Bool.and_eq_true] at hok
      exact hstart hok.1.1
  | engineEvent task event found =>
    cases found with
    | none =>
      obtain ⟨-, rfl⟩ := require_eq_some.mp h
      exact ht
    | some id =>
      obtain ⟨d, -, h⟩ := Option.bind_eq_some_iff.mp h
      obtain ⟨hok, rfl⟩ := require_eq_some.mp h
      simp only [Bool.and_eq_true] at hok
      exact hstart hok.1.1
  | staleOpen task id =>
    obtain ⟨d, -, h⟩ := Option.bind_eq_some_iff.mp h
    obtain ⟨watch, -, h⟩ := Option.bind_eq_some_iff.mp h
    obtain ⟨hok, rfl⟩ := require_eq_some.mp h
    simp only [Bool.and_eq_true] at hok
    exact hstart hok.1.1
  | stalePaid task id =>
    obtain ⟨d, -, h⟩ := Option.bind_eq_some_iff.mp h
    obtain ⟨job, -, h⟩ := Option.bind_eq_some_iff.mp h
    obtain ⟨hok, rfl⟩ := require_eq_some.mp h
    simp only [Bool.and_eq_true] at hok
    exact hstart hok.1.1
  | overdue task id =>
    obtain ⟨d, -, h⟩ := Option.bind_eq_some_iff.mp h
    obtain ⟨hok, rfl⟩ := require_eq_some.mp h
    exact hstart (Bool.and_eq_true_iff.mp hok).1
  | claim task row =>
    obtain ⟨r, -, h⟩ := Option.bind_eq_some_iff.mp h
    obtain ⟨hok, rfl⟩ := require_eq_some.mp h
    exact hstart (Bool.and_eq_true_iff.mp hok).1
  | advance task input mint =>
    have hne : name ≠ task := by
      rintro rfl
      exact hadvance input mint rfl
    obtain ⟨t', -, h⟩ := Option.bind_eq_some_iff.mp h
    obtain ⟨⟨write, engine, next⟩, -, h⟩ := Option.bind_eq_some_iff.mp h
    obtain ⟨-, rfl⟩ := require_eq_some.mp h
    cases next with
    | none => exact (KeyMap.get?_erase_ne _ hne).trans ht
    | some t'' => exact (KeyMap.get?_put_ne _ _ hne).trans ht
  | drop task =>
    obtain rfl := Option.some.inj h
    refine (KeyMap.get?_erase_ne _ ?_).trans ht
    rintro rfl
    exact hdrop rfl
  | abandon task rescheduler error =>
    rw [GumServer.step] at h
    split at h
    · obtain ⟨hfree, rfl⟩ := require_eq_some.mp h
      exact hstart hfree
    · cases h
  | retrySettlement id mint =>
    obtain ⟨-, rfl⟩ := require_eq_some.mp h
    exact ht
  | requeue row =>
    obtain rfl := Option.some.inj h
    exact ht
  | prune =>
    obtain rfl := Option.some.inj h
    exact ht

/-- Every deposit of a pass has its task, and no two share one. -/
structure Tended (s : Fleet) : Prop where
  polls : ∀ {replica p}, s.passes.get? replica = some p → ∀ row ∈ p.todo,
    ∃ t, s.world.tasks.get? row.1 = some t ∧ t.Polls p.sweep row.2
  names : ∀ {replica p}, s.passes.get? replica = some p → (p.todo.map Prod.fst).Nodup
  apart : ∀ {replica replica' p p'}, replica ≠ replica' → s.passes.get? replica = some p →
    s.passes.get? replica' = some p' → (p.todo.map Prod.fst).Disjoint (p'.todo.map Prod.fst)

namespace Tended

/-- A replica's step keeps it, when it leaves the tasks of the others alone. -/
theorem put (h : Tended s) {p : Pass}
    (hothers : ∀ replica' p', replica' ≠ replica → s.passes.get? replica' = some p' →
      ∀ row ∈ p'.todo, w.tasks.get? row.1 = s.world.tasks.get? row.1)
    (hpolls : ∀ row ∈ p.todo, ∃ t, w.tasks.get? row.1 = some t ∧ t.Polls p.sweep row.2)
    (hnames : (p.todo.map Prod.fst).Nodup)
    (hapart : ∀ replica' p', replica' ≠ replica → s.passes.get? replica' = some p' →
      (p.todo.map Prod.fst).Disjoint (p'.todo.map Prod.fst)) :
    Tended ⟨w, s.passes.put replica p⟩ where
  polls := by
    intro replica' p' hp' row hrow
    rw [KeyMap.get?_put] at hp'
    split at hp'
    · obtain rfl := Option.some.inj hp'
      exact hpolls row hrow
    · next hne =>
      rw [hothers replica' p' hne hp' row hrow]
      exact h.polls hp' row hrow
  names := by
    intro replica' p' hp'
    rw [KeyMap.get?_put] at hp'
    split at hp'
    · obtain rfl := Option.some.inj hp'
      exact hnames
    · exact h.names hp'
  apart := by
    intro r r' q q' hne hq hq'
    rw [KeyMap.get?_put] at hq hq'
    split at hq
    · next hr =>
      subst hr
      rw [if_neg hne.symm] at hq'
      obtain rfl := Option.some.inj hq
      exact hapart r' q' hne.symm hq'
    · next hr =>
      split at hq'
      · next hr' =>
        subst hr'
        obtain rfl := Option.some.inj hq'
        exact (hapart r q hne hq).symm
      · exact h.apart hne hq hq'

/-- What is left of a pass is apart from the others. -/
theorem apart_of_subset (h : Tended s) {p p' : Pass} {replica' : ℕ} {todo : List (ℕ × Uuid)}
    (hne : replica' ≠ replica) (hp : s.passes.get? replica = some p)
    (hp' : s.passes.get? replica' = some p') (hsub : todo ⊆ p.todo) :
    (todo.map Prod.fst).Disjoint (p'.todo.map Prod.fst) := by
  intro name hname hname'
  exact h.apart hne.symm hp hp' (List.map_subset Prod.fst hsub hname) hname'

/-- Releasing the head of a pass keeps it. -/
theorem release (h : Tended s) {done todo : List (ℕ × Uuid)}
    (hp : s.passes.get? replica = some ⟨sweep, done ++ todo⟩) :
    Tended ⟨s.world.release (done.map Prod.fst), s.passes.put replica ⟨sweep, todo⟩⟩ := by
  have hnames := h.names hp
  rw [List.map_append, List.nodup_append] at hnames
  have hsub : todo ⊆ done ++ todo := List.subset_append_right done todo
  refine h.put ?_ ?_ hnames.2.1 ?_
  · intro replica' p' hne hp' row hrow
    refine World.release_tasks _ fun hmem => ?_
    exact h.apart_of_subset hne hp hp' (List.subset_append_left done todo) hmem
      (List.mem_map_of_mem hrow)
  · intro row hrow
    rw [World.release_tasks]
    · exact h.polls hp row (hsub hrow)
    · intro hmem
      exact hnames.2.2 row.1 hmem row.1 (List.mem_map_of_mem hrow) rfl
  · intro replica' p' hne hp'
    exact h.apart_of_subset hne hp hp' hsub

/-- What the head of a pass comes to: it goes on, or it ends; and the rest waits. -/
theorem proceed (h : Tended s) {name : ℕ} {id : Uuid} {rest : List (ℕ × Uuid)} {input : Input}
    {mint : Mint} (hp : s.passes.get? replica = some ⟨sweep, (name, id) :: rest⟩)
    (hstep : GumServer.step env s.world (.advance name input mint) = some w) :
    (∀ name' t, name' ≠ name → s.world.tasks.get? name' = some t → w.tasks.get? name' = some t) ∧
    ∃ t, s.world.tasks.get? name = some t ∧ t.Polls sweep id ∧
      ((∃ t', w.tasks.get? name = some t' ∧ t'.Polls sweep id ∧ t.silent = false) ∨
        (w.tasks.get? name = none ∧
        (t.silent = true ∨ ∀ d, w.db.deposits.get? id = some d →
          sweep.Served s.world.clock d))) := by
  constructor
  · intro name' t hne ht
    refine task_stays hstep ht ?_ ?_
    · rintro input' mint' heq
      obtain ⟨rfl, -, -⟩ := by simpa using heq
      exact hne rfl
    · intro heq
      cases heq
  · obtain ⟨t, ht, hpolls⟩ := h.polls hp (name, id) List.mem_cons_self
    refine ⟨t, ht, hpolls, ?_⟩
    cases GumServer.step_cases hstep with
    | advance _ _ _ t' write engine next ht' hnext hfresh =>
      obtain rfl := Option.some.inj (ht.symm.trans ht')
      rcases hpolls.next hnext s.world.clock with ⟨t', rfl, hpolls'⟩ | ⟨rfl, hend⟩
      · refine .inl ⟨t', KeyMap.get?_put_self _ _ _, hpolls', Bool.eq_false_iff.mpr ?_⟩
        intro hsilent
        cases Task.next_silent hsilent hnext
      · refine .inr ⟨KeyMap.get?_erase_self _ _, hend.imp_right fun hserved d hd => ?_⟩
        have hrow : ((s.world.db.write s.world.clock mint write).deposits).get? id = some d := hd
        rw [Db.write_deposits, Option.map_eq_some_iff] at hrow
        obtain ⟨old, hold, rfl⟩ := hrow
        exact hserved old hold

/-- **A step keeps the tasks of the passes.** -/
theorem step (h : Tended s) (hstep : Fleet.step env s a = some s') : Tended s' := by
  cases step_cases hstep with
  | service a w hleaves htaken =>
    have hstays {replica : ℕ} {p : Pass} (hp : s.passes.get? replica = some p) {row : ℕ × Uuid}
        (hrow : row ∈ p.todo) {t : Task} (ht : s.world.tasks.get? row.1 = some t) :
        w.tasks.get? row.1 = some t := by
      have hheld : row.1 ∈ s.held :=
        List.mem_flatMap.mpr ⟨p, KeyMap.mem_values_of_get? hp, List.mem_map_of_mem hrow⟩
      refine task_stays htaken ht ?_ ?_
      · rintro input mint rfl
        rw [leavesPasses, Bool.not_eq_true', ← Bool.not_eq_true, List.contains_iff_mem] at hleaves
        exact hleaves hheld
      · rintro rfl
        rw [leavesPasses, Bool.not_eq_true', ← Bool.not_eq_true, List.contains_iff_mem] at hleaves
        exact hleaves hheld
    exact {
      polls := by
        intro replica p hp row hrow
        obtain ⟨t, ht, hpolls⟩ := h.polls hp row hrow
        exact ⟨t, hstays hp hrow ht, hpolls⟩
      names := h.names
      apart := h.apart }
  | select replica sweep rows w hidle hbatch hloads =>
    have hloaded := Loaded.of_loads hloads
    have hnew {replica' : ℕ} {p' : Pass} (hp' : s.passes.get? replica' = some p') {row : ℕ × Uuid}
        (hrow : row ∈ p'.todo) : row.1 ∉ rows.map Prod.fst := by
      intro hmem
      obtain ⟨other, hother, heq⟩ := List.mem_map.mp hmem
      obtain ⟨t, ht, -⟩ := h.polls hp' row hrow
      rw [← heq, (hloaded.started other hother).1] at ht
      cases ht
    refine h.put ?_ ?_ hloaded.names ?_
    · intro replica' p' _ hp' row hrow
      exact hloaded.others row.1 (hnew hp' hrow)
    · intro row hrow
      exact (hloaded.started row hrow).2
    · intro replica' p' _ hp' name hname hname'
      obtain ⟨row, hrow, rfl⟩ := List.mem_map.mp hname'
      exact hnew hp' hrow hname
  | proceed replica input mint sweep name id rest w hpass htaken =>
    obtain ⟨hstays, t, ht, hpolls, hend⟩ := h.proceed hpass htaken
    have hnames := h.names hpass
    have hsub : (if (w.tasks.get? name).isSome then (name, id) :: rest else rest) ⊆
        (name, id) :: rest := by
      split
      · exact List.Subset.refl _
      · exact List.subset_cons_self _ _
    refine h.put ?_ ?_ ?_ ?_
    · intro replica' p' hne hp' row hrow
      obtain ⟨t', ht', -⟩ := h.polls hp' row hrow
      rw [ht']
      refine hstays row.1 t' ?_ ht'
      rintro rfl
      exact h.apart hne.symm hpass hp' List.mem_cons_self (List.mem_map.mpr ⟨row, hrow, rfl⟩)
    · have hrest : ∀ row ∈ rest, ∃ t, w.tasks.get? row.1 = some t ∧ t.Polls sweep row.2 := by
        intro row hrow
        obtain ⟨t', ht', hpolls'⟩ := h.polls hpass row (List.mem_cons_of_mem _ hrow)
        refine ⟨t', hstays row.1 t' ?_ ht', hpolls'⟩
        rintro rfl
        exact (List.nodup_cons.mp hnames).1 (List.mem_map.mpr ⟨row, hrow, rfl⟩)
      intro row hrow
      rcases hend with ⟨t', ht', hpolls', -⟩ | ⟨hnone, -⟩
      · rw [ht', Option.isSome_some, if_pos rfl] at hrow
        rcases List.mem_cons.mp hrow with rfl | hrow
        · exact ⟨t', ht', hpolls'⟩
        · exact hrest row hrow
      · rw [hnone, Option.isSome_none, if_neg Bool.false_ne_true] at hrow
        exact hrest row hrow
    · dsimp only
      split
      · exact hnames
      · exact (List.nodup_cons.mp hnames).2
    · intro replica' p' hne hp'
      exact h.apart_of_subset hne hpass hp' hsub
  | skip replica sweep name id rest hpass => exact @h.release _ _ _ [(name, id)] rest hpass
  | stop replica sweep todo hpass =>
    refine @h.release _ _ _ todo [] ?_
    rw [List.append_nil]
    exact hpass

theorem reachable (h : Reachable env s) : Tended s := by
  obtain ⟨clock, hreach⟩ := h
  refine hreach.invariant (P := Tended) ?_ fun _ htended _ hstep => htended.step hstep
  exact {
    polls := fun hp => by cases hp
    names := fun hp => by cases hp
    apart := fun _ hp => by cases hp }

end Tended

end Fleet

end GumServer
