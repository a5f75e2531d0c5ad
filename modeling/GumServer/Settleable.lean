import Mathlib.Data.Fintype.EquivFin
import GumServer.Once
import GumServer.Settled
import GumServer.Stored
import GumServer.Stranded

/-!
# What can still be settled

Workers crash, jobs are put off for days, reports get lost, settlements fail. None of it is the end
of a deposit: whatever has happened, there is a way on to its settlement, unless it has expired
(`settleable_iff`). The way is the one the service itself takes: the payment is noticed, the row
that `NoneStranded` promises is claimed, the engine accepts the job, and its report proves the
settlement. An operator has to retry where a settlement has failed, and nowhere else. So as not to
wait for a row that is put off, which has no bound here, the way lets one requeue it.

Ids are drawn from finite sets, so there have to be some left.
-/

namespace GumServer

/-! ## Things that are not there yet -/

section Fresh

variable {α : Type}

/-- A list that is shorter than its type leaves something out. -/
theorem exists_not_mem_of_length_lt [Fintype α] [DecidableEq α] {l : List α}
    (h : l.length < Fintype.card α) : ∃ a, a ∉ l := by
  by_contra hall
  push Not at hall
  have hcard : Fintype.card α ≤ l.toFinset.card :=
    Finset.card_le_card fun a _ => List.mem_toFinset.mpr (hall a)
  have := l.toFinset_card_le
  omega

/-- And one that is shorter by three leaves out three. -/
theorem exists_three_of_length_le [Fintype α] [DecidableEq α] {l : List α}
    (h : l.length + 3 ≤ Fintype.card α) : ∃ a b c, [a, b, c].Nodup ∧ ∀ x ∈ [a, b, c], x ∉ l := by
  obtain ⟨a, ha⟩ : ∃ a, a ∉ l := exists_not_mem_of_length_lt (by omega)
  obtain ⟨b, hb⟩ : ∃ b, b ∉ a :: l := exists_not_mem_of_length_lt (by rw [List.length_cons]; omega)
  obtain ⟨c, hc⟩ : ∃ c, c ∉ b :: a :: l :=
    exists_not_mem_of_length_lt (by rw [List.length_cons, List.length_cons]; omega)
  simp only [List.mem_cons, not_or] at hb hc
  refine ⟨a, b, c, ?_, ?_⟩
  · simp [Ne.symm hb.1, Ne.symm hc.1, Ne.symm hc.2.1]
  · simp [ha, hb.2, hc.2.2]

/-- No list holds all of an infinite type. -/
theorem exists_not_mem_of_infinite [Infinite α] [DecidableEq α] (l : List α) : ∃ a, a ∉ l := by
  obtain ⟨a, ha⟩ := Infinite.exists_notMem_finset l.toFinset
  exact ⟨a, fun h => ha (List.mem_toFinset.mpr h)⟩

end Fresh

/-- Ids for that many transactions are left. -/
def World.Room (w : World) (n : ℕ) : Prop := w.minted.length + 3 * n ≤ 2 ^ 128

section Ways

variable {env : Env} {w w' : World}

theorem World.Room.exists_mint {n : ℕ} (h : w.Room (n + 1)) : ∃ mint : Mint, w.fresh mint.ids = true := by
  have hcard : w.minted.length + 3 ≤ Fintype.card Uuid := by
    rw [Fintype.card_fin]
    rw [World.Room] at h
    omega
  obtain ⟨a, b, c, hnodup, hnew⟩ := exists_three_of_length_le hcard
  refine ⟨⟨a, b, c⟩, ?_⟩
  rw [World.fresh, Bool.and_eq_true, List.all_eq_true]
  refine ⟨decide_eq_true hnodup, ?_⟩
  intro x hx
  simpa using hnew x hx

/-- There is a name for one task more. -/
theorem World.exists_free (w : World) : ∃ name, w.free name = true := by
  obtain ⟨name, hname⟩ := exists_not_mem_of_infinite (w.tasks.entries.map Prod.fst)
  refine ⟨name, ?_⟩
  rw [World.free, KeyMap.get?_eq_none hname]
  rfl

/-- And for one event more. -/
theorem World.exists_unclaimed (w : World) (sender : Sender) :
    ∃ id, w.claimed sender id = false := by
  obtain ⟨id, hid⟩ := exists_not_mem_of_infinite
    (w.db.inbound.entries.map (fun e => e.1.2) ++
      w.tasks.values.filterMap fun t => t.claims.map Prod.snd)
  rw [List.mem_append, not_or] at hid
  refine ⟨id, ?_⟩
  rw [World.claimed, Bool.or_eq_false_iff]
  constructor
  · rw [KeyMap.get?_eq_none]
    · rfl
    · intro hmem
      obtain ⟨e, he, heq⟩ := List.mem_map.mp hmem
      exact hid.1 (List.mem_map.mpr ⟨e, he, by rw [heq]⟩)
  · rw [List.any_eq_false]
    intro t ht
    have hnot : t.claims.map Prod.snd ≠ some id :=
      fun h => hid.2 (List.mem_filterMap.mpr ⟨t, ht, h⟩)
    cases t with
    | indexer event d seen => simpa [Task.claims] using fun _ => hnot
    | settling claim job d outcome retries =>
      cases claim with
      | none => simp
      | some claim => simpa [Task.claims] using fun _ => hnot
    | _ => simp

/-- A task takes the step it can take. -/
theorem step_advance {name : ℕ} {t : Task} {input : Input} {mint : Mint}
    {n : Write × Engine × Option Task} (ht : w.tasks.get? name = some t)
    (hnext : t.next env w.db w.engine input = some n) (hfresh : w.fresh mint.ids = true) :
    step env w (.advance name input mint) = some (w.after name mint n.1 n.2.1 n.2.2) := by
  rw [step, ht, Option.bind_some, hnext, Option.bind_some]
  exact require_eq_some.mpr ⟨hfresh, rfl⟩

theorem World.after_deposits (w : World) (name : ℕ) (mint : Mint) (write : Write) (engine : Engine)
    (next : Option Task) (id : Uuid) :
    (w.after name mint write engine next).db.deposits.get? id =
      (w.db.deposits.get? id).map fun d => write.row w.clock d :=
  w.db.write_deposits w.clock mint write id

theorem World.Room.after {n : ℕ} (h : w.Room (n + 1)) (name : ℕ) (mint : Mint) (write : Write)
    (engine : Engine) (next : Option Task) : (w.after name mint write engine next).Room n := by
  have hlength : (w.after name mint write engine next).minted.length = 3 + w.minted.length :=
    (List.length_append).trans rfl
  rw [World.Room] at h ⊢
  omega

end Ways

/-! ## From a job to its settlement -/

/-- The deserialisers read addresses and words in the spelling of the node. -/
structure Readers.ReadsNode (r : Readers) : Prop where
  address : ∀ a : Address, r.serde.address (.string a.lowerHex) = some a
  word : ∀ word : B256, r.serde.word (.string (lowerHex (B256.toBytes word))) = some word

/-- The receipt of a transaction in which an address logged `Settled`. -/
def settledReceipt (payment : Address) : Value :=
  .object [("logs", .array [.object [("address", .string payment.lowerHex),
    ("topics", .array [.string (lowerHex (B256.toBytes SETTLED_TOPIC))])]])]

/-- The engine's notice that a job has settled a deposit. -/
def settledEvent (id : String) (job : Uuid) (payment : Address) : EngineEvent where
  eventId := id
  event := "transaction.confirmed"
  jobId := job
  outcome := some "success"
  txHash := some 0
  blockNumber := none
  receipt := some (settledReceipt payment)
  reincluded := false
  error := none

/-- An operator retries a settlement. -/
def Action.isRetry : Action → Bool
  | .retrySettlement _ _ => true
  | _ => false

/-- No settlement is retried. -/
def Unretried (_ : World) (a : Action) : Prop := a.isRetry = false

/-- Or only of a deposit that has failed. -/
def RetriesFailed (d : Deposit) (_ : World) (a : Action) : Prop :=
  a.isRetry = true → d.status = .failed

theorem Unretried.retriesFailed (d : Deposit) {w : World} {a : Action} (h : Unretried w a) :
    RetriesFailed d w a := by
  intro hretry
  cases h.symm.trans hretry

/-- The status of a deposit. -/
def World.statusOf (id : Uuid) (w : World) : Option DepositStatus :=
  (w.db.deposits.get? id).map Deposit.status

/-- No settlement is retried, and a deposit has kept its status. -/
structure Resting (id : Uuid) (status : DepositStatus) (w : World) (a : Action) : Prop where
  unretried : Unretried w a
  status : w.statusOf id = some status

section Settling

variable {env : Env} {w : World} {d : Deposit}

theorem settledEvent_proves {r : Readers} (hreads : r.ReadsNode) (id : String) (job : Uuid)
    {payment : Address} (hpayment : d.paymentAddressOf r.lib = some payment) :
    (Report.webhook (settledEvent id job payment)).Proves r d 0 where
  confirmed := rfl
  success := rfl
  txHash := rfl
  logs := by
    refine ⟨payment, [⟨payment, [SETTLED_TOPIC], []⟩], hpayment, ?_, .head rfl rfl⟩
    have hlog : ReceiptLog.ofValue r.serde (.object [("address", .string payment.lowerHex),
        ("topics", .array [.string (lowerHex (B256.toBytes SETTLED_TOPIC))])]) =
        some ⟨payment, [SETTLED_TOPIC], []⟩ := by
      simp [ReceiptLog.ofValue, ReceiptLog.ofFields, Value.get, Value.asArray, List.lookup_cons,
        hreads.address, hreads.word]
    simp [parsedLogs, Report.receipt, settledEvent, settledReceipt, Value.get, Value.asArray,
      hlog]

/-- An event of the engine is applied to the deposit that has its job. -/
theorem engine_reports {n : ℕ} (hroom : w.Room (n + 1)) (hd : w.db.deposits.get? d.id = some d)
    (hpaid : d.status = .paid) (event : String → EngineEvent)
    (hid : ∀ id, (event id).eventId = id) (hjob : ∀ id, d.engineJobId = some (event id).jobId)
    {status : DepositStatus} (hop : ∀ id, ∃ outcome op,
      SettlementOutcome.fromEvent env.readers (event id) d = outcome ∧
      outcome.isRetryable = false ∧ settlementOp outcome 0 = some op ∧
      ∀ now d, (op.transition.row now d).status = status) :
    ∃ w' d', Lts.Reaches (step env) (Resting d.id .paid) w w' ∧ w'.Room n ∧
      w'.engine = w.engine ∧ w'.clock = w.clock ∧ w'.db.deposits.get? d.id = some d' ∧
      d'.status = status := by
  obtain ⟨name, hfree⟩ := w.exists_free
  obtain ⟨id, hunclaimed⟩ := w.exists_unclaimed .engine
  obtain ⟨mint, hmint⟩ := hroom.exists_mint
  obtain ⟨outcome, op, houtcome, hretry, hop, hstatus⟩ := hop id
  have hstatusOf : w.statusOf d.id = some .paid := by
    rw [World.statusOf, hd, Option.map_some, hpaid]
  have harrives : step env w (.engineEvent name (event id) (some d.id)) =
      some (w.start name (.settling (some id) (event id).jobId d outcome none)) := by
    rw [step, hd, Option.bind_some, houtcome, hid]
    exact require_eq_some.mpr ⟨by simp [hfree, hunclaimed, hjob id], rfl⟩
  have hnext : Task.next env (w.start name (.settling (some id) (event id).jobId d outcome
      none)).db w.engine (.settling (some id) (event id).jobId d outcome none) .go =
      some (.tx ⟨some (.engine, id), none, some (op, d.id)⟩, w.engine, none) := by
    rw [Task.next, hretry, Option.getD_none, hop]
    rfl
  have happlied := step_advance (w := w.start name (.settling (some id) (event id).jobId d
    outcome none)) (by rw [World.start, KeyMap.get?_put_self]) hnext hmint
  refine ⟨_, op.transition.row w.clock d,
    .tail (.tail .refl ⟨by rfl, hstatusOf⟩ harrives) ⟨by rfl, hstatusOf⟩ happlied,
    World.Room.after (w := w.start name _) hroom _ _ _ _ _, rfl, rfl, ?_, hstatus _ _⟩
  have hguard : op.transition.guard d = true := by
    rw [(settlementOp_asks hop).guard]
    exact beq_iff_eq.mpr hpaid
  rw [World.after_deposits]
  change (w.db.deposits.get? d.id).map _ = _
  rw [hd, Option.map_some]
  exact congrArg some ((if_pos rfl).trans (if_pos hguard))

/-- A deposit that has its job is settled by the job's report. -/
theorem settle_of_job (h : Reachable env w) (hreads : env.readers.ReadsNode) {n : ℕ}
    (hroom : w.Room (n + 1)) (hd : w.db.deposits.get? d.id = some d) (hpaid : d.status = .paid)
    {job : Uuid} (hjob : d.engineJobId = some job) :
    ∃ w' d', Lts.Reaches (step env) (Resting d.id .paid) w w' ∧ w'.Room n ∧
      w'.engine = w.engine ∧ w'.clock = w.clock ∧ w'.db.deposits.get? d.id = some d' ∧
      d'.status = .settled := by
  obtain ⟨payment, hpayment⟩ := h.paymentAddressOf env.readers.lib hd
  refine engine_reports hroom hd hpaid (fun id => settledEvent id job payment) (fun id => rfl)
    (fun id => hjob) fun id => ?_
  obtain ⟨text, block, data, -, hmeaning⟩ := (settledEvent_proves hreads id job hpayment).meaning
  exact ⟨_, _, Option.some.inj hmeaning, rfl, rfl, fun now d => rfl⟩

/-! ### To a job -/

/-- A row of this kind that is still to run for the deposit. -/
def World.Runs (w : World) (id : Uuid) (kind : JobKind) (r : OutboxRow) : Prop :=
  w.db.outbox.get? r.id = some r ∧ r.depositId = id ∧ r.payload.kind = kind ∧ r.deadAt = none

/-- The first of the rows that are to run. -/
theorem World.Runs.exists_first {id : Uuid} {kind : JobKind} {r : OutboxRow}
    (h : w.Runs id kind r) : ∃ r, w.Runs id kind r ∧ ∀ p, w.Runs id kind p → ¬ p.id < r.id := by
  obtain ⟨row, ⟨first, hfirst, rfl⟩, hmin⟩ :=
    (wellFounded_lt (α := Uuid)).has_min {row | ∃ p, w.Runs id kind p ∧ p.id = row}
      ⟨r.id, r, h, rfl⟩
  exact ⟨first, hfirst, fun p hp => hmin p.id ⟨p, hp, rfl⟩⟩

/-- And of those that serve a deposit. -/
theorem Served.exists_first {id : Uuid} {kind : JobKind} (h : Served w id kind) :
    ∃ r, w.Runs id kind r ∧ ∀ p, w.Runs id kind p → ¬ p.id < r.id := by
  obtain ⟨r, hr, hdeposit, hkind, halive, -⟩ := h
  have hruns : w.Runs id kind r := ⟨hr, hdeposit, hkind, halive⟩
  exact hruns.exists_first

/-- The world after a row is requeued. -/
def World.withRequeued (w : World) (row : Uuid) : World :=
  { w with db := { w.db with outbox := w.db.outbox.modify row w.requeued } }

/-- The world after a row is claimed. -/
def World.withClaimed (env : Env) (w : World) (name : ℕ) (r : OutboxRow) : World :=
  { w.start name (.worker (World.jobOf r) .claimed) with
    db := { w.db with outbox := w.db.outbox.put (w.lock env r) } }

/-- The first row of a deposit can be run at once, whatever has put it off. -/
theorem claim_first {kind : JobKind} {r : OutboxRow} (hr : w.Runs d.id kind r)
    (hfirst : ∀ p, w.Runs d.id kind p → ¬ p.id < r.id) {name : ℕ} (hfree : w.free name = true)
    {status : DepositStatus} (hstatus : w.statusOf d.id = some status) :
    Lts.Reaches (step env) (Resting d.id status) w
      ((w.withRequeued r.id).withClaimed env name (w.requeued r)) := by
  obtain ⟨hrow, hdeposit, hkind, halive⟩ := hr
  have hput : (w.withRequeued r.id).db.outbox.get? r.id = some (w.requeued r) := by
    rw [World.withRequeued]
    dsimp only
    rw [Table.get?_modify _ _ _ w.requeued (fun _ => rfl), hrow, Option.map_some, if_pos rfl]
  have hdue : (w.withRequeued r.id).isDue (w.requeued r) = true := by
    simp only [World.isDue, World.requeued, Option.isNone_none, Option.all_none, Bool.true_and,
      Bool.and_true]
    rw [Bool.and_eq_true]
    refine ⟨decide_eq_true (Int.le_refl _), ?_⟩
    rw [Bool.not_eq_true', List.any_eq_false]
    intro p hp
    simp only [Bool.and_eq_true]
    rintro ⟨⟨⟨hsame, hsamekind⟩, hless⟩, hpalive⟩
    have hless : p.id < r.id := of_decide_eq_true hless
    have hold : w.db.outbox.get? p.id = some p := by
      have hget := Table.get?_of_mem hp
      rw [World.withRequeued] at hget
      dsimp only at hget
      rwa [Table.get?_modify_ne _ w.requeued (fun _ => rfl) (Fin.ne_of_lt hless)] at hget
    exact hfirst p ⟨hold, (of_decide_eq_true hsame).trans hdeposit,
      (of_decide_eq_true hsamekind).trans hkind, Option.isNone_iff_eq_none.mp hpalive⟩ hless
  have hrequeue : step env w (.requeue r.id) = some (w.withRequeued r.id) := rfl
  have hclaim : step env (w.withRequeued r.id) (.claim name r.id) =
      some ((w.withRequeued r.id).withClaimed env name (w.requeued r)) := by
    rw [step, hput, Option.bind_some]
    refine require_eq_some.mpr ⟨?_, rfl⟩
    rw [Bool.and_eq_true]
    exact ⟨hfree, hdue⟩
  exact .tail (.tail .refl ⟨by rfl, hstatus⟩ hrequeue) ⟨by rfl, hstatus⟩ hclaim

/-- The engine has an answer to every key. -/
theorem Worker.exists_accepted {engine : Engine} (hroom : engine.values.length < 2 ^ 128)
    (key : String) : ∃ job engine', Worker.submit engine key (.accepted job) = some engine' := by
  cases hknown : engine.get? key with
  | some job => exact ⟨job, engine, by rw [Worker.submit, hknown]; exact if_pos rfl⟩
  | none =>
    have hcard : engine.values.length < Fintype.card Uuid := by
      rw [Fintype.card_fin]
      exact hroom
    obtain ⟨job, hjob⟩ := exists_not_mem_of_length_lt hcard
    exact ⟨job, engine.put key job, by rw [Worker.submit, hknown]; exact if_neg hjob⟩

/-- It has one job more at most. -/
theorem Worker.submit_length {engine engine' : Engine} {key : String} {reply : Reply}
    (h : Worker.submit engine key reply = some engine') :
    engine'.values.length ≤ engine.values.length + 1 := by
  rcases Worker.submit_engine h with rfl | ⟨job, hnone, -, rfl⟩
  · exact Nat.le_succ _
  · have hothers := List.length_filter_le (fun e => decide (e.1 ≠ key)) engine.entries
    simpa [KeyMap.values, KeyMap.put, KeyMap.others] using hothers

theorem Payload.exists_key {payload : Payload} (h : payload.kind = .submitExecute) :
    ∃ key, payload = .submitExecute key := by
  cases payload with
  | submitExecute key => exact ⟨key, rfl⟩
  | registerWatch => cases h
  | notifyApp url event snapshot => cases h

theorem Payload.eq_registerWatch {payload : Payload} (h : payload.kind = .registerWatch) :
    payload = .registerWatch := by
  cases payload with
  | submitExecute key => cases h
  | registerWatch => rfl
  | notifyApp url event snapshot => cases h

/-- A task goes on. -/
theorem task_goes_on (env : Env) {n : ℕ} (hroom : w.Room (n + 1)) {name : ℕ} {t : Task}
    (input : Input) {write : Write} {engine' : Engine} {next : Option Task}
    (ht : w.tasks.get? name = some t)
    (hnext : t.next env w.db w.engine input = some (write, engine', next)) {id : Uuid}
    {status : DepositStatus} (hstatus : w.statusOf id = some status) :
    ∃ w', Lts.Reaches (step env) (Resting id status) w w' ∧ w'.Room n ∧
      (∀ t', next = some t' → w'.tasks.get? name = some t') ∧ w'.engine = engine' ∧
      w'.clock = w.clock ∧ ∀ id, w'.db.deposits.get? id =
        (w.db.deposits.get? id).map fun d => write.row w.clock d := by
  obtain ⟨mint, hmint⟩ := hroom.exists_mint
  refine ⟨w.after name mint write engine' next,
    .tail .refl ⟨by rfl, hstatus⟩ (step_advance ht hnext hmint), hroom.after _ _ _ _ _, ?_, rfl, rfl,
    w.after_deposits name mint write engine' _⟩
  rintro t' rfl
  exact KeyMap.get?_put_self _ _ _

/-- And so does a worker with its job. -/
theorem worker_goes_on (env : Env) {n : ℕ} (hroom : w.Room (n + 1)) {name : ℕ} {job : OutboxJob}
    {stage stage' : Stage} (input : Input) {write : Write} {engine' : Engine}
    (ht : w.tasks.get? name = some (.worker job stage))
    (hnext : Worker.next env w.db w.engine job stage input = some (write, engine', some stage'))
    {id : Uuid} {status : DepositStatus} (hstatus : w.statusOf id = some status) :
    ∃ w', Lts.Reaches (step env) (Resting id status) w w' ∧ w'.Room n ∧
      w'.tasks.get? name = some (.worker job stage') ∧ w'.engine = engine' ∧ w'.clock = w.clock ∧
      ∀ id, w'.db.deposits.get? id =
        (w.db.deposits.get? id).map fun d => write.row w.clock d := by
  have htask : (Task.worker job stage).next env w.db w.engine input =
      some (write, engine', some (.worker job stage')) := by
    rw [Task.next, hnext]
    rfl
  obtain ⟨w', hrun, hroom', hnext', hrest⟩ := task_goes_on env hroom input ht htask hstatus
  exact ⟨w', hrun, hroom', hnext' _ rfl, hrest⟩

/-- A worker claims the row that serves a deposit. -/
theorem claim_served {kind : JobKind} (hserved : Served w d.id kind) {status : DepositStatus}
    (hstatus : w.statusOf d.id = some status) {n : ℕ} (hroom : w.Room n) :
    ∃ w' name job, Lts.Reaches (step env) (Resting d.id status) w w' ∧ w'.Room n ∧
      w'.tasks.get? name = some (.worker job .claimed) ∧ job.depositId = d.id ∧
      job.payload.kind = kind ∧ w'.engine = w.engine ∧ w'.clock = w.clock ∧
      w'.db.deposits = w.db.deposits := by
  obtain ⟨r, hr, hfirst⟩ := hserved.exists_first
  obtain ⟨name, hfree⟩ := w.exists_free
  exact ⟨_, name, World.jobOf (w.requeued r), claim_first hr hfirst hfree hstatus, hroom,
    KeyMap.get?_put_self _ _ _, hr.2.1, hr.2.2.1, rfl, rfl, rfl⟩

/-- A paid deposit without a job gets one. -/
theorem bind_job (h : Reachable env w) (hengine : env.engineConfigured = true) {n : ℕ}
    (hroom : w.Room (n + 3)) (hjobs : w.engine.values.length < 2 ^ 128)
    (hd : w.db.deposits.get? d.id = some d) (hpaid : d.status = .paid)
    (hjob : d.engineJobId = none) :
    ∃ w' d' job, Lts.Reaches (step env) (Resting d.id .paid) w w' ∧ w'.Room n ∧
      w'.engine.values.length ≤ w.engine.values.length + 1 ∧ w'.clock = w.clock ∧
      w'.db.deposits.get? d'.id = some d' ∧ d'.id = d.id ∧ d'.status = .paid ∧
      d'.engineJobId = some job := by
  have hstatus {u : World} (hu : u.db.deposits.get? d.id = some d) :
      u.statusOf d.id = some .paid := by
    rw [World.statusOf, hu, Option.map_some, hpaid]
  obtain ⟨w₀, name, work, hclaimed, hroom₀, hworker, hdeposit, hkind, hengine₀, hclock₀,
    hdeposits⟩ := claim_served (NoneStranded.reachable h d .submitExecute hd ⟨hpaid, hjob⟩)
    (hstatus hd) hroom
  obtain ⟨key, hpayload⟩ := Payload.exists_key hkind
  rw [← hdeposits] at hd
  have hload : Worker.load env w₀.db w₀.clock work =
      .submitting d (key.getD ("deposit:" ++ d.id.text ++ ":execute")) := by
    rw [Worker.load, hpayload]
    simp only [Worker.loadSubmit, hdeposit, hd, hpaid, hjob, hengine]
    rfl
  obtain ⟨w₁, hloaded, hroom₁, hworker₁, hengine₁, hclock₁, hdeposits₁⟩ :=
    worker_goes_on env hroom₀ (.load w₀.clock) hworker
      (congrArg (fun stage => some (Write.nothing, w₀.engine, some stage)) hload) (hstatus hd)
  have hd₁ : w₁.db.deposits.get? d.id = some d := by
    rw [hdeposits₁, hd]
    rfl
  have hjobs₁ : w₁.engine.values.length < 2 ^ 128 := by rw [hengine₁, hengine₀]; exact hjobs
  obtain ⟨job, engine', hsubmit⟩ := Worker.exists_accepted hjobs₁
    (key.getD ("deposit:" ++ d.id.text ++ ":execute"))
  obtain ⟨w₂, hsubmitted, hroom₂, hworker₂, hengine₂, hclock₂, hdeposits₂⟩ :=
    worker_goes_on env hroom₁ (.submit (.accepted job)) hworker₁
      (by rw [Worker.next, hsubmit]; rfl) (hstatus hd₁)
  have hd₂ : w₂.db.deposits.get? d.id = some d := by
    rw [hdeposits₂, hd₁]
    rfl
  obtain ⟨w₃, hrecorded, hroom₃, -, hengine₃, hclock₃, hdeposits₃⟩ :=
    worker_goes_on env hroom₂ .go hworker₂ rfl (hstatus hd₂)
  generalize (KeyMap.get? w₁.engine _).isSome = replayed at hdeposits₃
  refine ⟨w₃, (markEngineSubmitted job replayed).row w₂.clock d, job,
    ((hclaimed.trans hloaded).trans hsubmitted).trans hrecorded, hroom₃, ?_,
    hclock₃.trans (hclock₂.trans (hclock₁.trans hclock₀)), ?_, ?_, ?_, ?_⟩
  · rw [hengine₃, hengine₂, ← hengine₀, ← hengine₁]
    exact Worker.submit_length hsubmit
  · have hguard : (markEngineSubmitted job replayed).guard d = true := by
      simp [markEngineSubmitted, wherePaid, hpaid, hjob]
    have hid : ((markEngineSubmitted job replayed).row w₂.clock d).id = d.id :=
      Op.row_id (.markEngineSubmitted job replayed) _ _
    rw [hid, hdeposits₃, hd₂]
    exact congrArg some ((Write.row_of (.markEngineSubmitted job replayed) _ rfl).trans
      (if_pos hguard))
  · exact Op.row_id (.markEngineSubmitted job replayed) _ _
  · cases replayed <;> exact hpaid
  · cases replayed <;> rfl

/-- A paid deposit gets to any status that a report about its job can give it. -/
theorem end_paid (h : Reachable env w) (hengine : env.engineConfigured = true) {n : ℕ}
    (hroom : w.Room (n + 4)) (hjobs : w.engine.values.length < 2 ^ 128)
    (hd : w.db.deposits.get? d.id = some d) (hpaid : d.status = .paid) {status : DepositStatus}
    (hreported : ∀ {u : World} {e : Deposit} {job : Uuid}, Reachable env u → u.Room (n + 1) →
      u.db.deposits.get? e.id = some e → e.status = .paid → e.engineJobId = some job →
      ∃ w' d', Lts.Reaches (step env) (Resting e.id .paid) u w' ∧ w'.Room n ∧
        w'.engine = u.engine ∧ w'.clock = u.clock ∧ w'.db.deposits.get? e.id = some d' ∧
        d'.status = status) :
    ∃ w' d', Lts.Reaches (step env) (Resting d.id .paid) w w' ∧ w'.Room n ∧
      w'.engine.values.length ≤ w.engine.values.length + 1 ∧ w'.clock = w.clock ∧
      w'.db.deposits.get? d.id = some d' ∧ d'.status = status := by
  cases hjob : d.engineJobId with
  | some job =>
    obtain ⟨w', d', hrun, hroom', hengine', hclock, hd', hstatus⟩ :=
      hreported h (by rw [World.Room] at hroom ⊢; omega) hd hpaid hjob
    exact ⟨w', d', hrun, hroom', by rw [hengine']; exact Nat.le_succ _, hclock, hd', hstatus⟩
  | none =>
    obtain ⟨u, e, job, hrun, hroom', hlength, hclock, he, hid, hpaid', hjob'⟩ :=
      bind_job (n := n + 1) h hengine hroom hjobs hd hpaid hjob
    obtain ⟨w', d', hrun', hroom'', hengine', hclock', hd', hstatus⟩ :=
      hreported (h.trans (hrun.mono fun _ => trivial)) hroom' he hpaid' hjob'
    rw [hid] at hrun' hd'
    exact ⟨w', d', hrun.trans hrun', hroom'', hengine'.symm ▸ hlength, hclock'.trans hclock, hd',
      hstatus⟩

/-- A paid deposit can be settled by the service alone. -/
theorem settle_paid (h : Reachable env w) (hengine : env.engineConfigured = true)
    (hreads : env.readers.ReadsNode) {n : ℕ} (hroom : w.Room (n + 4))
    (hjobs : w.engine.values.length < 2 ^ 128) (hd : w.db.deposits.get? d.id = some d)
    (hpaid : d.status = .paid) :
    ∃ w' d', Lts.Reaches (step env) (Resting d.id .paid) w w' ∧ w'.Room n ∧
      w'.engine.values.length ≤ w.engine.values.length + 1 ∧ w'.clock = w.clock ∧
      w'.db.deposits.get? d.id = some d' ∧ d'.status = .settled :=
  end_paid h hengine hroom hjobs hd hpaid fun hu hroom he hpaid hjob =>
    settle_of_job hu hreads hroom he hpaid hjob

/-! ### To the payment -/

/-- The rows are no more than the ids. -/
theorem Reachable.length_rows_le (h : Reachable env w) :
    w.db.deposits.rows.length ≤ w.minted.length := by
  have hfit := JobsFit.reachable h
  have hnodup : (w.db.deposits.rows.map Deposit.id).Nodup := w.db.deposits.nodup
  have hsubset : w.db.deposits.rows.map Deposit.id ⊆ w.minted := by
    intro id hid
    obtain ⟨d, hd, rfl⟩ := List.mem_map.mp hid
    exact hfit.deposits (Table.get?_of_mem hd)
  have := (List.subperm_of_subset hnodup hsubset).length_le
  rwa [List.length_map] at this

/-- An open deposit is recognised by its watch, or by its address under a watch nobody has. -/
theorem exists_watch (h : Reachable env w) {n : ℕ} (hroom : w.Room (n + 1))
    (hd : w.db.deposits.get? d.id = some d) (total : Option String) :
    ∃ watch : IndexerWatch, w.matchesWatch watch d = true ∧ watch.confirmedAmount = total := by
  obtain ⟨new, hholds⟩ := h.stored hd
  have hrow : d ∈ w.db.deposits.rows := Table.mem_of_get? hd
  cases hwatch : d.watchId with
  | some watch =>
    refine ⟨⟨watch, new.chainId, new.paymentAddress, total⟩, ?_, rfl⟩
    have hany : (w.db.deposits.rows.any fun d => d.watchId == some watch) = true :=
      List.any_eq_true.mpr ⟨d, hrow, beq_iff_eq.mpr hwatch⟩
    rw [World.matchesWatch, if_pos hany]
    exact beq_iff_eq.mpr hwatch
  | none =>
    obtain ⟨watch, hnobody⟩ : ∃ watch, watch ∉ w.db.deposits.rows.filterMap Deposit.watchId := by
      refine exists_not_mem_of_length_lt ?_
      have hle := List.length_filterMap_le Deposit.watchId w.db.deposits.rows
      have hrows := h.length_rows_le
      rw [World.Room] at hroom
      rw [Fintype.card_fin]
      omega
    refine ⟨⟨watch, new.chainId, new.paymentAddress, total⟩, ?_, rfl⟩
    have hany : ¬ (w.db.deposits.rows.any fun d => d.watchId == some watch) = true := by
      intro hany
      obtain ⟨other, hother, heq⟩ := List.any_eq_true.mp hany
      exact hnobody (List.mem_filterMap.mpr ⟨other, hother, eq_of_beq heq⟩)
    rw [World.matchesWatch, if_neg hany, hholds.chainId, hholds.paymentAddress]
    simp

/-- An event of the indexer is applied to an open deposit. -/
theorem indexer_reports (h : Reachable env w) {n : ℕ} (hroom : w.Room (n + 1))
    (hd : w.db.deposits.get? d.id = some d) (hopen : d.status.isOpen = true) (type : String)
    (htype : IndexerEventKind.ofStr type ≠ .paymentOrphaned) {status : DepositStatus}
    (hop : ∀ event : IndexerEvent, event.eventType = type →
      ∃ op, indexerOp env.readers.lib event none = some op ∧ op.transition.guard = whereOpen ∧
        ∀ now d, (op.transition.row now d).status = status) :
    ∃ w' d', Lts.Reaches (step env) (Resting d.id d.status) w w' ∧ w'.Room n ∧
      w'.engine = w.engine ∧ w'.clock = w.clock ∧ w'.db.deposits.get? d'.id = some d' ∧
      d'.id = d.id ∧ d'.status = status := by
  obtain ⟨watch, hwatch, -⟩ := exists_watch h hroom hd (some d.amount)
  obtain ⟨name, hfree⟩ := w.exists_free
  obtain ⟨id, hid⟩ := w.exists_unclaimed .indexer
  obtain ⟨mint, hmint⟩ := hroom.exists_mint
  let event : IndexerEvent := ⟨id, type, watch, none⟩
  obtain ⟨op, hop, hguard, hstatus⟩ := hop event rfl
  have hstatusOf : w.statusOf d.id = some d.status := by
    rw [World.statusOf, hd, Option.map_some]
  have harrives : step env w (.indexerEvent name event (some d.id)) =
      some (w.start name (.indexer event d none)) := by
    rw [step, hd, Option.bind_some]
    exact require_eq_some.mpr ⟨by simp [event, hfree, hid, hwatch], rfl⟩
  let write : Write := .tx (indexerTx env.readers.lib event d none)
  have hnext : (Task.indexer event d none).next env w.db w.engine .go = some (write, w.engine, none) := by
    have hrow : orphanedRow w.db event d = none := if_neg htype
    rw [Task.next, hrow]
  have happlied := @step_advance env (w.start name (.indexer event d none)) name _ .go mint
    (write, w.engine, none) (by rw [World.start, KeyMap.get?_put_self]) hnext hmint
  have hcarries : write.op = some (op, d.id) := congrArg (Option.map fun op => (op, d.id)) hop
  have hbound := write.quiet_bound w.clock d
  have hhits : write.Hits w.clock op d := by
    refine ⟨hcarries, ?_⟩
    rw [hguard]
    exact (congrArg DepositStatus.isOpen hbound.status).trans hopen
  refine ⟨_, write.row w.clock d,
    .tail (.tail .refl ⟨by rfl, hstatusOf⟩ harrives) ⟨by rfl, hstatusOf⟩ happlied,
    World.Room.after (w := w.start name (.indexer event d none)) hroom _ _ _ _ _, rfl, rfl, ?_,
    write.row_id w.clock d, by rw [hhits.row, hstatus]⟩
  rw [Write.row_id, World.after_deposits]
  change (w.db.deposits.get? d.id).map _ = _
  rw [hd]
  rfl

/-- An open deposit can be paid. -/
theorem pay_open (h : Reachable env w) {n : ℕ} (hroom : w.Room (n + 1))
    (hd : w.db.deposits.get? d.id = some d) (hopen : d.status.isOpen = true) :
    ∃ w' d', Lts.Reaches (step env) (Resting d.id d.status) w w' ∧ w'.Room n ∧
      w'.engine = w.engine ∧ w'.clock = w.clock ∧ w'.db.deposits.get? d'.id = some d' ∧
      d'.id = d.id ∧ d'.status = .paid := by
  refine indexer_reports h hroom hd hopen "threshold.reached" (by decide) fun event htype => ?_
  have hkind : IndexerEventKind.ofStr event.eventType = .thresholdReached := by
    rw [htype]
    rfl
  exact ⟨_, by rw [indexerOp, hkind], rfl, fun now d => rfl⟩

/-- A failed deposit can be retried. -/
theorem retry_failed {n : ℕ} (hroom : w.Room (n + 1)) (hd : w.db.deposits.get? d.id = some d)
    (hfailed : d.status = .failed) :
    ∃ w' d' mint, step env w (.retrySettlement d.id mint) = some w' ∧ w'.Room n ∧
      w'.engine = w.engine ∧ w'.clock = w.clock ∧ w'.db.deposits.get? d'.id = some d' ∧
      d'.id = d.id ∧ d'.status = .paid := by
  obtain ⟨mint, hmint⟩ := hroom.exists_mint
  have hretried : step env w (.retrySettlement d.id mint) = some { w with
      db := w.db.transact w.clock mint (.of .retrySettlement d.id)
      minted := mint.ids ++ w.minted } := by
    rw [step]
    exact require_eq_some.mpr ⟨hmint, rfl⟩
  have hrow : (Write.tx (.of .retrySettlement d.id)).row w.clock d =
      GumServer.retrySettlement.row w.clock d :=
    (Write.row_of .retrySettlement w.clock rfl).trans (if_pos (beq_iff_eq.mpr hfailed))
  refine ⟨_, GumServer.retrySettlement.row w.clock d, mint, hretried,
    World.Room.after hroom 0 mint .nothing w.engine none, rfl, rfl, ?_, rfl, rfl⟩
  have hwrite := w.db.write_deposits w.clock mint (.tx (.of .retrySettlement d.id)) d.id
  rw [hd, Option.map_some, hrow] at hwrite
  exact hwrite

end Settling

/-! ## The way on -/

/-- **A deposit can still be settled if and only if it has not expired.** Whatever has happened to
it, its jobs and their workers, there is a run from here that settles it; and in that run settlements
are retried only where the deposit has failed. Nothing settles a deposit that has expired. -/
theorem settleable_iff (env : Env) (hengine : env.engineConfigured = true)
    (hreads : env.readers.ReadsNode) (w : World) (h : Reachable env w)
    (hroom : w.minted.length + 15 ≤ 2 ^ 128) (hjobs : w.engine.values.length < 2 ^ 128) (id : Uuid)
    (d : Deposit) (hd : w.db.deposits.get? id = some d) :
    (∃ w' d', Lts.Reaches (step env) (RetriesFailed d) w w' ∧ w'.db.deposits.get? id = some d' ∧
      d'.status = .settled) ↔ d.status ≠ .expired := by
  constructor
  · rintro ⟨w', d', hrun, hd', hsettled⟩ hexpired
    obtain ⟨kept, hkept, hkeeping⟩ := h.keeps (hrun.mono fun _ => trivial) hd
    obtain rfl := Option.some.inj (hd'.symm.trans hkept)
    have hstatus : d'.status = d.status :=
      congrArg Standing.status (hkeeping.standing (.inr hexpired))
    rw [hsettled, hexpired] at hstatus
    cases hstatus
  · intro hexpired
    obtain rfl := Table.key_of_get? hd
    have hroom : w.Room 5 := hroom
    have hpaid {u : World} {e : Deposit} (hrun : Lts.Reaches (step env) (RetriesFailed d) w u)
        (hroom : u.Room 4) (hengine' : u.engine = w.engine)
        (he : u.db.deposits.get? e.id = some e) (hid : e.id = d.id) (hpaid : e.status = .paid) :
        ∃ w' d', Lts.Reaches (step env) (RetriesFailed d) w w' ∧
          w'.db.deposits.get? d.id = some d' ∧ d'.status = .settled := by
      obtain ⟨w', d', hrun', -, -, -, hd', hsettled⟩ := settle_paid (n := 0)
        (h.trans (hrun.mono fun _ => trivial)) hengine hreads hroom (hengine'.symm ▸ hjobs) he hpaid
      exact ⟨w', d', hrun.trans (hrun'.mono fun hrests => hrests.unretried.retriesFailed d),
        hid ▸ hd', hsettled⟩
    by_cases hopen : d.status.isOpen = true
    · obtain ⟨u, e, hrun, hroom', hengine', -, he, hid, hstatus⟩ := pay_open h hroom hd hopen
      exact hpaid (hrun.mono fun hrests => hrests.unretried.retriesFailed d) hroom' hengine' he hid
        hstatus
    cases hstatus : d.status with
    | paid => exact hpaid .refl (by rw [World.Room] at hroom ⊢; omega) rfl hd rfl hstatus
    | settled => exact ⟨w, d, .refl, hd, hstatus⟩
    | failed =>
      obtain ⟨u, e, mint, hretried, hroom', hengine', -, he, hid, hstatus'⟩ :=
        retry_failed hroom hd hstatus
      exact hpaid (.tail .refl (fun _ => hstatus) hretried) hroom' hengine' he hid hstatus'
    | expired => exact absurd hstatus hexpired
    | pending => exact absurd (hstatus ▸ rfl) hopen
    | partialPaid => exact absurd (hstatus ▸ rfl) hopen

namespace Fixture

/-- The fixture's deposit is paid, and the worker that submits it is lost with the answer. -/
def untilAbandoned : List Action := untilPaid ++ [
  .claim 1 (mint 1).job,
  .advance 1 (.load requestedAt) (mint 2),
  .advance 1 (.submit (.lost 500 "timeout")) (mint 3),
  .drop 1]

theorem readsNode : env.readers.ReadsNode where
  address := by
    intro a
    simp only [env, Value.asStr, Option.bind_some, Crates.parseAddress_lowerHex]
  word := by
    intro word
    simp only [env, Value.asStr, Option.bind_some, Crates.parseB256_lowerHex]

end Fixture

/-- On the fixture's deposit, paid, and its `execute` abandoned: it can still be settled. -/
theorem settleable_iff_fixture : ∃ w d, Reachable Fixture.env w ∧
    w.db.deposits.get? 7 = some d ∧ d.status = .paid ∧ d.engineJobId = none ∧
    ∃ w' d', Lts.Reaches (step Fixture.env) (RetriesFailed d) w w' ∧
      w'.db.deposits.get? 7 = some d' ∧ d'.status = .settled := by
  obtain ⟨w, hw, hfound⟩ : ∃ w, Lts.Reaches (step Fixture.env) Lts.Any
      (World.init Fixture.requestedAt) w ∧
      ((w.db.deposits.get? 7).map fun d => (d.status, d.engineJobId, w.minted.length,
        w.engine.values.length)) = some (.paid, none, 13, 1) :=
    @Lts.exists_reaches_of_run _ _ _ _ _ _ _ Fixture.untilAbandoned _ _ (by decide +kernel)
  obtain ⟨d, hd, heq⟩ := Option.map_eq_some_iff.mp hfound
  obtain ⟨hstatus, heq⟩ := Prod.mk.inj heq
  obtain ⟨hjob, heq⟩ := Prod.mk.inj heq
  obtain ⟨hminted, hjobs⟩ := Prod.mk.inj heq
  have hreach : Reachable Fixture.env w := ⟨_, hw⟩
  refine ⟨w, d, hreach, hd, hstatus, hjob, ?_⟩
  exact (settleable_iff Fixture.env rfl Fixture.readsNode w hreach (by rw [hminted]; decide)
    (by rw [hjobs]; decide) 7 d hd).mpr (by rw [hstatus]; decide)

end GumServer
