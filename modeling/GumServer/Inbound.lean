import GumServer.Effects
import GumServer.Sessions

/-!
# Inbound webhooks, statement by statement

`apply_indexer_event` and `apply_engine_event` at the level of their SQL. A delivery opens a
transaction, claims its event id, looks its deposit up, writes, and commits; it may return early
(the id was claimed before, nobody's deposit, a job that is not recorded yet), and any statement may
fail or be its last. What it has written is its own until it commits: `Delivery.writes`.

Deliveries are sessions next to the rest of the service. They stand in each other's way in two
places. An `INSERT … ON CONFLICT DO NOTHING` waits for an uncommitted insert of the same key, and an
`UPDATE` waits for the transaction that has written the row.
-/

namespace GumServer

/-! ## Statements -/

/-- What is delivered. -/
inductive Message : Type where
  | indexer (event : IndexerEvent) : Message
  | engine (event : EngineEvent) : Message

/-- The key a message is claimed under. -/
def Message.key : Message → Sender × String
  | .indexer event => (.indexer, event.id)
  | .engine event => (.engine, event.eventId)

/-- The statements that write, with the values they were sent. -/
inductive Statement : Type where
  /-- `INSERT INTO inbound_events` -/
  | claim (key : Sender × String) (now : DateTime) : Statement
  /-- `UPDATE deposits SET watch_id` -/
  | bindWatch (id watch : Uuid) (now : DateTime) : Statement
  /-- the `UPDATE` of a transition -/
  | update (op : Op) (id : Uuid) (now : DateTime) : Statement
  /-- `UPDATE deposits SET event_seq = event_seq + 1` -/
  | nextSequence (id : Uuid) : Statement
  /-- `INSERT INTO deposit_events` -/
  | insertEvent (event : DepositEvent) : Statement
  /-- `INSERT INTO outbox` -/
  | enqueue (row : OutboxRow) : Statement

/-- The key a statement inserts. -/
def Statement.claims : Statement → Option (Sender × String)
  | .claim key _ => some key
  | .bindWatch _ _ _ | .update _ _ _ | .nextSequence _ | .insertEvent _ | .enqueue _ => none

/-- The deposit whose row a statement locks. -/
def Statement.locks : Statement → Option Uuid
  | .bindWatch id _ _ | .update _ id _ | .nextSequence id => some id
  | .claim _ _ | .insertEvent _ | .enqueue _ => none

/-- The id a statement mints. -/
def Statement.mints : Statement → Option Uuid
  | .insertEvent event => some event.id
  | .enqueue row => some row.id
  | .claim _ _ | .bindWatch _ _ _ | .update _ _ _ | .nextSequence _ => none

/-- What a statement does. -/
def Db.exec (db : Db) : Statement → Db
  | .claim key now => db.claimInbound now (some key)
  | .bindWatch id watch now => db.bindWatch now (some (id, watch))
  | .update op id now => { db with deposits := db.deposits.modify id (op.transition.set now) }
  | .nextSequence id =>
    { db with deposits := db.deposits.modify id fun d => { d with eventSeq := d.eventSeq + 1 } }
  | .insertEvent event => { db with events := db.events ++ [event] }
  | .enqueue row => { db with outbox := db.outbox.put row }

/-! ## Handlers -/

/-- Where a handler is: what its next statement is, and what it has read for it. -/
inductive HandlerStage : Type where
  /-- about to claim the event -/
  | begun : HandlerStage
  /-- about to look the deposit up, by its watch or its job -/
  | claimed : HandlerStage
  /-- no deposit has the watch: about to look it up by its address -/
  | byAddress : HandlerStage
  /-- nobody's: about to commit the claim -/
  | unknown : HandlerStage
  | found (deposit : Deposit) : HandlerStage
  /-- past the watch -/
  | bound (deposit : Deposit) : HandlerStage
  /-- the retries are counted -/
  | counted (deposit : Deposit) (retries : ℕ) : HandlerStage
  /-- the transition hit this row: about to take the next sequence number -/
  | updated (op : Op) (row : Deposit) : HandlerStage
  /-- about to record the event -/
  | sequenced (op : Op) (row : Deposit) (sequence : ℕ) : HandlerStage
  /-- about to queue the app's webhook -/
  | recorded (op : Op) (row : Deposit) (event : DepositEvent) : HandlerStage
  /-- about to queue the transition's job -/
  | notified (op : Op) (row : Deposit) (event : DepositEvent) : HandlerStage
  /-- about to commit -/
  | done : HandlerStage

/-- A delivery in flight, with what its transaction has written. -/
structure Delivery where
  message : Message
  progress : HandlerStage
  writes : List Statement

/-- What a statement meets: the id it mints, whether a job it does not find is a recent one, and
whether the acknowledgement of a commit arrives. -/
structure Meets where
  minted : Uuid
  recent : Bool
  acknowledged : Bool

/-- What the sender is answered. -/
inductive Response : Type where
  /-- `200` -/
  | ok : Response
  /-- `503 job_not_recorded_yet` -/
  | jobNotRecordedYet : Response
  /-- `503`, for a commit that seems to have failed -/
  | unavailable : Response
deriving DecidableEq

namespace Delivery

/-- A delivery as its transaction begins. -/
def start (message : Message) : Delivery := ⟨message, .begun, []⟩

/-- The database as the transaction sees it. -/
def view (d : Delivery) (db : Db) : Db := d.writes.foldl Db.exec db

/-- Whether it holds a key that is not committed yet. -/
def holds (key : Sender × String) (d : Delivery) : Bool :=
  d.writes.any fun s => decide (s.claims = some key)

/-- Whether it has locked the row of a deposit. -/
def locks (id : Uuid) (d : Delivery) : Bool := d.writes.any fun s => decide (s.locks = some id)

/-- On to the next statement. -/
def on (d : Delivery) (progress : HandlerStage) (writes : List Statement) :
    Option (Sessions.Turn World Delivery Response) :=
  some (.on { d with progress := progress, writes := d.writes ++ writes })

/-- The ids a delivery has minted. -/
def minted (d : Delivery) : List Uuid := d.writes.filterMap Statement.mints

/-- `COMMIT`. -/
def commit (d : Delivery) (w : World) (acknowledged : Bool) :
    Option (Sessions.Turn World Delivery Response) :=
  if w.fresh d.minted then
    some (.commit { w with db := d.view w.db, minted := d.minted ++ w.minted }
      (if acknowledged then .ok else .unavailable))
  else none

/-- An `UPDATE` that hits a row, once nobody else has it locked. -/
def locking (d : Delivery) (others : List Delivery) (id : Uuid) (progress : HandlerStage)
    (write : Statement) : Option (Sessions.Turn World Delivery Response) :=
  if others.any (locks id) then none else d.on progress [write]

/-- The watch an event brings, on a row that has none. -/
def bind (d : Delivery) (others : List Delivery) (w : World) (row : Deposit) (watch : Uuid) :
    Option (Sessions.Turn World Delivery Response) :=
  if row.watchId.isNone then
    match w.db.deposits.get? row.id with
    | some current =>
      if current.watchId.isNone then
        d.locking others row.id (.bound row) (.bindWatch row.id watch w.clock)
      else d.on (.bound row) []
    | none => d.on (.bound row) []
  else d.on (.bound row) []

/-- The transition of a handler, on the row that it finds; `apply_payment_orphaned` only reads. -/
def transition (d : Delivery) (others : List Delivery) (w : World) (id : Uuid) :
    Option Op → Option (Sessions.Turn World Delivery Response)
  | none => d.on .done []
  | some op =>
    match (d.view w.db).deposits.get? id with
    | none => d.on .done []
    | some row =>
      match op with
      | .applyPaymentOrphaned data seen =>
        d.on (.updated (.applyPaymentOrphaned data seen) row) []
      | op =>
        if op.transition.guard row then
          d.locking others id (.updated op (op.transition.set w.clock row)) (.update op id w.clock)
        else d.on .done []

/-- **The next statement of a handler**, next to the other deliveries; `none` while it waits. -/
def next (env : Env) (others : List Delivery) (w : World) (d : Delivery) (meets : Meets) :
    Option (Sessions.Turn World Delivery Response) :=
  match d.progress, d.message with
  | .begun, message =>
    if (w.db.inbound.get? message.key).isSome then some (.leave .ok)
    else if others.any (holds message.key) then none
    else d.on .claimed [.claim message.key w.clock]
  | .claimed, .indexer event =>
    match w.db.deposits.rows.find? fun row => row.watchId == some event.watch.id with
    | some row => d.on (.found row) []
    | none => d.on .byAddress []
  | .claimed, .engine event =>
    match w.db.deposits.rows.find? fun row => row.engineJobId == some event.jobId with
    | some row => d.on (.found row) []
    | none => if meets.recent then some (.leave .jobNotRecordedYet) else d.on .unknown []
  | .byAddress, .indexer event =>
    match w.db.deposits.rows.find? fun row => row.chainId == event.watch.chainId.toI64 &&
      row.paymentAddress == event.watch.paymentAddress.lowerHex with
    | some row => d.on (.found row) []
    | none => d.on .unknown []
  | .unknown, _ => d.commit w meets.acknowledged
  | .found row, .indexer event => d.bind others w row event.watch.id
  | .bound row, .indexer event =>
    d.transition others w row.id (indexerOp env.readers.lib event none)
  | .found row, .engine event =>
    let outcome := SettlementOutcome.fromEvent env.readers event row
    if outcome.isRetryable then d.on (.counted row ((d.view w.db).retries row.id)) []
    else d.transition others w row.id (settlementOp outcome 0)
  | .counted row retries, .engine event =>
    d.transition others w row.id
      (settlementOp (SettlementOutcome.fromEvent env.readers event row) retries)
  | .updated op row, _ =>
    ((d.view w.db).deposits.get? row.id).bind fun current =>
      d.locking others row.id (.sequenced op row (current.eventSeq + 1)) (.nextSequence row.id)
  | .sequenced op row sequence, _ =>
    match op.transition.event with
    | some (type, data) =>
      let event : DepositEvent := ⟨meets.minted, row.id, sequence, type, data, w.clock⟩
      d.on (.recorded op row event) [.insertEvent event]
    | none => d.on .done []
  | .recorded op row event, _ =>
    match (d.view w.db).webhookUrlFor row with
    | some url =>
      if event.eventType.isAppFacing then
        d.on (.notified op row event)
          [.enqueue (Db.newRow w.clock meets.minted row.id (.notifyApp url event row))]
      else d.on (.notified op row event) []
    | none => d.on (.notified op row event) []
  | .notified op row event, _ =>
    match op.transition.job row.id event.sequence with
    | some payload => d.on .done [.enqueue (Db.newRow w.clock meets.minted row.id payload)]
    | none => d.on .done []
  | .done, _ => d.commit w meets.acknowledged
  | _, _ => none

section Next

variable {env : Env} {others others' : List Delivery} {w : World} {d : Delivery}
  {turn : Sessions.Turn World Delivery Response}

theorem any_eq_false_of_subset {p : Delivery → Bool} (hsub : others' ⊆ others)
    (h : others.any p = false) : others'.any p = false := by
  rw [List.any_eq_false] at h ⊢
  exact fun d hd => h d (hsub hd)

/-- With fewer others, whatever goes on goes on. -/
theorem locking_mono (hsub : others' ⊆ others) {id : Uuid} {progress : HandlerStage} {write : Statement}
    (h : d.locking others id progress write = some turn) :
    d.locking others' id progress write = some turn := by
  rw [locking] at h ⊢
  split at h
  · cases h
  · next hfree =>
    rw [any_eq_false_of_subset hsub (Bool.eq_false_of_not_eq_true hfree)]
    exact h

theorem bind_mono (hsub : others' ⊆ others) {row : Deposit} {watch : Uuid}
    (h : d.bind others w row watch = some turn) : d.bind others' w row watch = some turn := by
  rw [bind] at h ⊢
  split at h
  · next hnone =>
    rw [if_pos hnone]
    cases hcurrent : w.db.deposits.get? row.id with
    | none =>
      rw [hcurrent] at h
      exact h
    | some current =>
      rw [hcurrent] at h
      dsimp only at h ⊢
      split at h
      · next hfree =>
        rw [if_pos hfree]
        exact locking_mono hsub h
      · next hbound =>
        rw [if_neg hbound]
        exact h
  · next hsome =>
    rw [if_neg hsome]
    exact h

theorem transition_mono (hsub : others' ⊆ others) {id : Uuid} {op : Option Op}
    (h : d.transition others w id op = some turn) : d.transition others' w id op = some turn := by
  rw [transition.eq_def] at h ⊢
  split at h
  · exact h
  · cases hrow : (d.view w.db).deposits.get? id with
    | none =>
      rw [hrow] at h
      exact h
    | some row =>
      rw [hrow] at h
      dsimp only at h ⊢
      split at h
      · exact h
      · split at h
        · next hguard =>
          rw [if_pos hguard]
          exact locking_mono hsub h
        · next hguard =>
          rw [if_neg hguard]
          exact h

/-- **Others only stand in the way.** -/
theorem next_mono {meets : Meets} (hsub : others' ⊆ others)
    (h : d.next env others w meets = some turn) : d.next env others' w meets = some turn := by
  obtain ⟨message, progress, writes⟩ := d
  cases progress with
  | begun =>
    simp only [next] at h ⊢
    split at h
    · next hdup =>
      rw [if_pos hdup]
      exact h
    · next hnew =>
      split at h
      · cases h
      · next hfree =>
        rw [if_neg hnew, any_eq_false_of_subset hsub (Bool.eq_false_of_not_eq_true hfree)]
        exact h
  | found row =>
    cases message with
    | indexer event => exact bind_mono hsub h
    | engine event =>
      simp only [next] at h ⊢
      split at h
      · next hretryable =>
        rw [if_pos hretryable]
        exact h
      · next hfinal =>
        rw [if_neg hfinal]
        exact transition_mono hsub h
  | bound row =>
    cases message with
    | indexer event => exact transition_mono hsub h
    | engine event => cases h
  | counted row retries =>
    cases message with
    | indexer event => cases h
    | engine event => exact transition_mono hsub h
  | updated op row =>
    obtain ⟨current, hcurrent, h⟩ := Option.bind_eq_some_iff.mp h
    exact Option.bind_eq_some_iff.mpr ⟨current, hcurrent, locking_mono hsub h⟩
  | claimed => cases message <;> exact h
  | byAddress => cases message <;> exact h
  | _ => exact h

end Next

/-! ## What a turn can be -/

/-- **What the next statement of a handler can do.** -/
inductive Turned (others : List Delivery) (w : World) (d : Delivery) :
    Sessions.Turn World Delivery Response → Prop where
  /-- the id was claimed before -/
  | duplicate (hbegun : d.progress = .begun)
      (hclaimed : (w.db.inbound.get? d.message.key).isSome = true) : Turned others w d (.leave .ok)
  /-- the id is claimed now -/
  | claim (hbegun : d.progress = .begun) (hnew : w.db.inbound.get? d.message.key = none)
      (hfree : others.any (holds d.message.key) = false) :
      Turned others w d (.on ⟨d.message, .claimed, d.writes ++ [.claim d.message.key w.clock]⟩)
  /-- the job is not recorded yet -/
  | notYet (hpast : d.progress ≠ .begun) : Turned others w d (.leave .jobNotRecordedYet)
  /-- anything between the claim and the commit -/
  | on (progress : HandlerStage) (writes : List Statement) (hpast : d.progress ≠ .begun)
      (hon : progress ≠ .begun) (hwrites : ∀ s ∈ writes, s.claims = none) :
      Turned others w d (.on ⟨d.message, progress, d.writes ++ writes⟩)
  | commit (acknowledged : Bool) (hend : d.progress = .done ∨ d.progress = .unknown)
      (hfresh : w.fresh d.minted = true) :
      Turned others w d (.commit
        { w with db := d.view w.db, minted := d.minted ++ w.minted }
        (if acknowledged then .ok else .unavailable))

section Turned

variable {env : Env} {others : List Delivery} {w : World} {d : Delivery}
  {turn : Sessions.Turn World Delivery Response}

theorem turned_on {progress : HandlerStage} {writes : List Statement}
    (h : d.on progress writes = some turn) (hpast : d.progress ≠ .begun)
    (hon : progress ≠ .begun) (hwrites : ∀ s ∈ writes, s.claims = none) : Turned others w d turn := by
  obtain rfl := Option.some.inj h
  exact .on progress writes hpast hon hwrites

theorem turned_read {progress : HandlerStage} (h : d.on progress [] = some turn)
    (hpast : d.progress ≠ .begun) (hon : progress ≠ .begun) : Turned others w d turn :=
  turned_on h hpast hon (fun _ hs => absurd hs List.not_mem_nil)

theorem turned_locking {id : Uuid} {progress : HandlerStage} {write : Statement}
    (h : d.locking others id progress write = some turn) (hpast : d.progress ≠ .begun)
    (hon : progress ≠ .begun) (hwrite : write.claims = none) : Turned others w d turn := by
  rw [locking] at h
  split at h
  · cases h
  · refine turned_on h hpast hon ?_
    intro s hs
    rw [List.mem_singleton.mp hs]
    exact hwrite

theorem turned_bind {row : Deposit} {watch : Uuid} (h : d.bind others w row watch = some turn)
    (hpast : d.progress ≠ .begun) : Turned others w d turn := by
  rw [bind] at h
  split at h
  · split at h
    · split at h
      · exact turned_locking h hpast (by simp) rfl
      · exact turned_read h hpast (by simp)
    · exact turned_read h hpast (by simp)
  · exact turned_read h hpast (by simp)

theorem turned_transition {id : Uuid} {op : Option Op}
    (h : d.transition others w id op = some turn) (hpast : d.progress ≠ .begun) :
    Turned others w d turn := by
  rw [transition.eq_def] at h
  split at h
  · exact turned_read h hpast (by simp)
  · split at h
    · exact turned_read h hpast (by simp)
    · split at h
      · exact turned_read h hpast (by simp)
      · split at h
        · exact turned_locking h hpast (by simp) rfl
        · exact turned_read h hpast (by simp)

theorem turned_commit {acknowledged : Bool} (h : d.commit w acknowledged = some turn)
    (hend : d.progress = .done ∨ d.progress = .unknown) : Turned others w d turn := by
  rw [commit] at h
  split at h
  · next hfresh =>
    obtain rfl := Option.some.inj h
    exact .commit acknowledged hend hfresh
  · cases h

theorem next_turned {meets : Meets} (h : d.next env others w meets = some turn) :
    Turned others w d turn := by
  obtain ⟨message, progress, writes⟩ := d
  cases progress with
  | begun =>
    simp only [next] at h
    split at h
    · next hdup =>
      obtain rfl := Option.some.inj h
      exact .duplicate rfl hdup
    · next hnew =>
      split at h
      · cases h
      · next hfree =>
        obtain rfl := Option.some.inj h
        exact .claim rfl (Option.not_isSome_iff_eq_none.mp hnew) (Bool.eq_false_of_not_eq_true hfree)
  | claimed =>
    cases message with
    | indexer event =>
      simp only [next] at h
      split at h <;> exact turned_read h (by simp) (by simp)
    | engine event =>
      simp only [next] at h
      split at h
      · exact turned_read h (by simp) (by simp)
      · split at h
        · obtain rfl := Option.some.inj h
          exact .notYet (by simp)
        · exact turned_read h (by simp) (by simp)
  | byAddress =>
    cases message with
    | indexer event =>
      simp only [next] at h
      split at h <;> exact turned_read h (by simp) (by simp)
    | engine event => cases h
  | unknown => exact turned_commit h (.inr rfl)
  | found row =>
    cases message with
    | indexer event => exact turned_bind h (by simp)
    | engine event =>
      simp only [next] at h
      split at h
      · exact turned_read h (by simp) (by simp)
      · exact turned_transition h (by simp)
  | bound row =>
    cases message with
    | indexer event => exact turned_transition h (by simp)
    | engine event => cases h
  | counted row retries =>
    cases message with
    | indexer event => cases h
    | engine event => exact turned_transition h (by simp)
  | updated op row =>
    obtain ⟨current, -, h⟩ := Option.bind_eq_some_iff.mp h
    exact turned_locking h (by simp) (by simp) rfl
  | sequenced op row sequence =>
    simp only [next] at h
    split at h
    · exact turned_on h (by simp) (by simp) (by simp [Statement.claims])
    · exact turned_read h (by simp) (by simp)
  | recorded op row event =>
    simp only [next] at h
    split at h
    · split at h
      · exact turned_on h (by simp) (by simp) (by simp [Statement.claims])
      · exact turned_read h (by simp) (by simp)
    · exact turned_read h (by simp) (by simp)
  | notified op row event =>
    simp only [next] at h
    split at h
    · exact turned_on h (by simp) (by simp) (by simp [Statement.claims])
    · exact turned_read h (by simp) (by simp)
  | done => exact turned_commit h (.inl rfl)

/-- A delivery keeps its message. -/
theorem message_of_next {d' : Delivery} {meets : Meets}
    (h : d.next env others w meets = some (.on d')) : d'.message = d.message := by
  cases next_turned h <;> rfl

end Turned

end Delivery

/-! ## The desk -/

/-- Whether an action is one of the handlers' in `step`. -/
def Action.isInbound : Action → Bool
  | .indexerEvent _ _ _ | .engineEvent _ _ _ => true
  | _ => false

/-- The deposits whose rows a write locks. -/
def Write.locks : Write → List Uuid
  | .tx t => (t.bind.map Prod.fst).toList ++ (t.op.map Prod.snd).toList
  | .touch id => [id]
  | .nothing | .reschedule _ _ _ | .markDead _ _ | .delete _ => []

/-- A step of the rest of the service; a write waits for the deliveries that have its row locked. -/
def restStep (env : Env) (deliveries : List Delivery) (w : World) (a : Action) : Option World :=
  if a.isInbound then none
  else if deliveries.any fun d => (w.commits env a).locks.any fun id => d.locks id then none
  else step env w a

theorem restStep_eq_some {env : Env} {ds : List Delivery} {w w' : World} {a : Action}
    (h : restStep env ds w a = some w') : a.isInbound = false ∧ step env w a = some w' := by
  rw [restStep] at h
  split at h
  · cases h
  · next hrest =>
    split at h
    · cases h
    · exact ⟨Bool.eq_false_of_not_eq_true hrest, h⟩

theorem restStep_mono {env : Env} {ds ds' : List Delivery} {w w' : World} {a : Action}
    (hsub : ds' ⊆ ds) (h : restStep env ds w a = some w') : restStep env ds' w a = some w' := by
  rw [restStep] at h ⊢
  split at h
  · cases h
  · next hrest =>
    split at h
    · cases h
    · next hfree =>
      rw [if_neg hrest, Delivery.any_eq_false_of_subset hsub (Bool.eq_false_of_not_eq_true hfree)]
      exact h

/-- **The service with its inbound deliveries in flight.** -/
def desk (env : Env) : Sessions.System World Delivery Action Message Meets Response where
  rest := restStep env
  start := Delivery.start
  next others w d meets := d.next env others w meets
  rest_mono := restStep_mono
  next_mono := Delivery.next_mono

/-- The state of the service and of what is being delivered. -/
abbrev Desk : Type := Sessions.State World Delivery

/-- Before anything has happened. -/
def Desk.init (clock : DateTime) : Desk := ⟨World.init clock, KeyMap.empty⟩

/-- Whether an action prunes an id: it is seven days old. -/
def Desk.prunes (s : Desk) (key : Sender × String) : Sessions.Action Action Message Meets → Bool
  | .rest .prune =>
    (s.shared.db.inbound.get? key).any fun at' => decide (at' < s.shared.ago (7 * 86400))
  | _ => false

end GumServer
