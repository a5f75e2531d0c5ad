import GumServer.Inbound

/-!
# A delivery by itself

In `step`, a handler's transaction is one write, `Db.transact`, on what the handler has read. Here
it is a list of statements. The two agree: a delivery whose statements follow each other with
nothing in between has written, when it is about to commit, what the transaction of its message
writes.
-/

namespace GumServer

/-- The transaction of a message about a deposit. -/
def Message.tx (env : Env) (db : Db) (row : Deposit) : Message → Tx
  | .indexer event => indexerTx env.readers.lib event row none
  | .engine event =>
    let outcome := SettlementOutcome.fromEvent env.readers event row
    ⟨some (.engine, event.eventId), none,
      (settlementOp outcome (if outcome.isRetryable then db.retries row.id else 0)).map fun op =>
        (op, row.id)⟩

theorem Message.tx_claim (env : Env) (db : Db) (row : Deposit) (message : Message) :
    (message.tx env db row).claim = some message.key := by
  cases message <;> rfl

/-- A message asks for a transition that records an event. -/
theorem Message.event_of_tx {env : Env} {db : Db} {row : Deposit} {message : Message} {op : Op}
    {id : Uuid} (h : (message.tx env db row).op = some (op, id)) :
    ∃ e, op.transition.event = some e := by
  cases message with
  | indexer event =>
    obtain ⟨op', hop, heq⟩ := Option.map_eq_some_iff.mp h
    obtain ⟨rfl, -⟩ := Prod.mk.inj heq
    cases indexerOp_asks hop <;> exact ⟨_, rfl⟩
  | engine event =>
    obtain ⟨op', hop, heq⟩ := Option.map_eq_some_iff.mp h
    obtain ⟨rfl, -⟩ := Prod.mk.inj heq
    generalize SettlementOutcome.fromEvent env.readers event row = outcome at hop
    cases settlementOp_asks hop <;> exact ⟨_, rfl⟩

/-- And gives the event the row as it leaves it. -/
theorem Message.unseen_of_tx {env : Env} {db : Db} {row : Deposit} {message : Message} {op : Op}
    {id : Uuid} (h : (message.tx env db row).op = some (op, id)) : op.transition.seen = none := by
  cases message with
  | indexer event =>
    obtain ⟨op', hop, heq⟩ := Option.map_eq_some_iff.mp h
    obtain ⟨rfl, -⟩ := Prod.mk.inj heq
    rcases (indexerOp_asks hop).seen with hunseen | ⟨data, rfl⟩
    · exact hunseen
    · rfl
  | engine event =>
    obtain ⟨op', hop, heq⟩ := Option.map_eq_some_iff.mp h
    obtain ⟨rfl, -⟩ := Prod.mk.inj heq
    generalize SettlementOutcome.fromEvent env.readers event row = outcome at hop
    cases settlementOp_asks hop <;> rfl

/-- Whether a row is the one a message is about. -/
def World.concerns (w : World) : Message → Deposit → Bool
  | .indexer event, d => w.matchesWatch event.watch d
  | .engine event, d => d.engineJobId == some event.jobId

/-- A message is about a row of the table. -/
structure Finds (w : World) (message : Message) (found : Deposit) : Prop where
  row : w.db.deposits.get? found.id = some found
  about : w.concerns message found = true

/-- **What a message makes of the database**: its claim, if it is nobody's; or else its transaction,
on the row it is about. -/
def Message.Performed (env : Env) (w : World) (message : Message) (db : Db) : Prop :=
  (w.db.deposits.rows.any (w.concerns message) = false ∧
    db = w.db.claimInbound w.clock (some message.key)) ∨
  ∃ found mint, Finds w message found ∧
    db = w.db.transact w.clock mint (message.tx env w.db found)

/-- A delivery's message asks for a transition, and it hits the row that was found. -/
structure Hit (env : Env) (w : World) (message : Message) (found : Deposit) (op : Op)
    (type : EventType) (data : Value) (old : Deposit) : Prop where
  finds : Finds w message found
  asks : (message.tx env w.db found).op = some (op, found.id)
  records : op.transition.event = some (type, data)
  bound : old = (message.tx env w.db found).bindRow w.clock found
  guard : op.transition.guard old = true

namespace Delivery

/-- The database with the claim and the watch of a delivery. -/
def base (env : Env) (w : World) (d : Delivery) (found : Deposit) : Db :=
  w.db.bound w.clock (d.message.tx env w.db found)

/-- **What a delivery has written**, by where it is. -/
def Fits (env : Env) (w : World) (d : Delivery) : Prop :=
  match d.progress with
  | .begun => d.writes = []
  | .claimed => d.view w.db = w.db.claimInbound w.clock (some d.message.key)
  | .byAddress => (∀ event, d.message = .indexer event →
      (w.db.deposits.rows.any fun row => row.watchId == some event.watch.id) = false) ∧
    d.view w.db = w.db.claimInbound w.clock (some d.message.key)
  | .unknown => w.db.deposits.rows.any (w.concerns d.message) = false ∧
    d.view w.db = w.db.claimInbound w.clock (some d.message.key)
  | .found row => Finds w d.message row ∧
    d.view w.db = w.db.claimInbound w.clock (some d.message.key)
  | .bound row => Finds w d.message row ∧ d.view w.db = d.base env w row
  | .counted row retries => Finds w d.message row ∧
    d.view w.db = d.base env w row ∧ retries = w.db.retries row.id ∧
    ∀ event, d.message = .engine event →
      (SettlementOutcome.fromEvent env.readers event row).isRetryable = true
  | .updated op row => ∃ found type data old, Hit env w d.message found op type data old ∧
    row = op.transition.set w.clock old ∧ (d.view w.db).deposits.get? row.id = some row ∧
    ∀ v : Deposit, v.id = row.id → { d.view w.db with deposits := (d.view w.db).deposits.put v } =
      { d.base env w found with deposits := (d.base env w found).deposits.put v }
  | .sequenced op row sequence => ∃ found type data old,
    Hit env w d.message found op type data old ∧ row = op.transition.set w.clock old ∧
    sequence = row.eventSeq + 1 ∧ d.view w.db = { d.base env w found with
      deposits := (d.base env w found).deposits.put { row with eventSeq := sequence } }
  | .recorded op row event => ∃ found type data old, Hit env w d.message found op type data old ∧
    row = op.transition.set w.clock old ∧
    event = Db.eventOf w.clock ⟨event.id, 0, 0⟩ row type data ∧
    d.view w.db = ((d.base env w found).setRow w.clock op.transition old).appendEvent w.clock
      ⟨event.id, 0, 0⟩ row type data
  | .notified op row event => ∃ found type data old notify,
    Hit env w d.message found op type data old ∧ row = op.transition.set w.clock old ∧
    event.sequence = row.eventSeq + 1 ∧ ∀ job, d.view w.db =
      ((d.base env w found).setRow w.clock op.transition old).recordEvent w.clock
        ⟨event.id, notify, job⟩ row type data row
  | .done => ∃ found mint, Finds w d.message found ∧
    d.view w.db = w.db.transact w.clock mint (d.message.tx env w.db found)

section Fits

variable {env : Env} {w : World} {d d' : Delivery} {found : Deposit}

/-- The delivery after one more statement. -/
theorem eq_of_on {progress : HandlerStage} {writes : List Statement}
    (h : d.on progress writes = some (.on d')) :
    d' = ⟨d.message, progress, d.writes ++ writes⟩ := by
  simpa [on, eq_comm] using h

/-- And what it sees. -/
theorem view_append (d : Delivery) (progress : HandlerStage) (writes : List Statement) (db : Db) :
    (Delivery.mk d.message progress (d.writes ++ writes)).view db =
      writes.foldl Db.exec (d.view db) :=
  List.foldl_append

/-- With nobody else there, an update goes through. -/
theorem eq_of_locking {id : Uuid} {progress : HandlerStage} {write : Statement}
    (h : d.locking [] id progress write = some (.on d')) :
    d' = ⟨d.message, progress, d.writes ++ [write]⟩ :=
  eq_of_on h

/-- The row a transition finds behind the claim and the watch. -/
theorem base_row (hfound : w.db.deposits.get? found.id = some found) :
    (d.base env w found).deposits.get? found.id =
      some ((d.message.tx env w.db found).bindRow w.clock found) := by
  rw [base, Db.bound_deposits, hfound, Option.map_some]

/-- A transaction whose transition does not hit is its claim and its watch. -/
theorem transact_of_miss {tx : Tx} {mint : Mint} (hfound : w.db.deposits.get? found.id = some found)
    (hop : ∀ op, tx.op = some (op, found.id) → op.transition.guard (tx.bindRow w.clock found) = false)
    (hid : ∀ op id, tx.op = some (op, id) → id = found.id) :
    w.db.transact w.clock mint tx = w.db.bound w.clock tx := by
  rcases w.db.transact_cases w.clock mint tx with heq | ⟨op, row, hrow, hget, hguard, -⟩
  · exact heq
  · have hsame := hid op row.id hrow
    rw [hsame] at hget hrow
    obtain rfl := Option.some.inj (hget.symm.trans hfound)
    rw [hop op hrow] at hguard
    cases hguard

/-- The watch. -/
theorem fits_bind {event : IndexerEvent} (hmessage : d.message = .indexer event)
    (hfound : Finds w d.message found)
    (hview : d.view w.db = w.db.claimInbound w.clock (some d.message.key))
    (h : d.bind [] w found event.watch.id = some (.on d')) : d'.Fits env w := by
  have hbase : d.base env w found = (w.db.claimInbound w.clock (some d.message.key)).bindWatch w.clock
      (if found.watchId.isNone then some (found.id, event.watch.id) else none) := by
    rw [base, Db.bound, Message.tx_claim, hmessage, Message.tx, indexerTx, Option.isNone_none,
      Bool.and_true]
  rw [bind, hfound.row] at h
  dsimp only at h
  by_cases hnone : found.watchId.isNone = true
  · rw [if_pos hnone, if_pos hnone] at h
    rw [eq_of_locking h]
    refine ⟨hfound, ?_⟩
    rw [view_append, hview]
    exact (hbase.trans (congrArg _ (if_pos hnone))).symm
  · rw [if_neg hnone] at h
    rw [eq_of_on h]
    refine ⟨hfound, ?_⟩
    rw [view_append, hview]
    exact (hbase.trans (congrArg _ (if_neg hnone))).symm

/-- The transition. -/
theorem fits_transition {op : Option Op} (hfound : Finds w d.message found)
    (hview : d.view w.db = d.base env w found)
    (hop : (d.message.tx env w.db found).op = op.map fun op => (op, found.id))
    (h : d.transition [] w found.id op = some (.on d')) : d'.Fits env w := by
  have hrow := @base_row env w d found hfound.row
  have hid : ∀ op' id, (d.message.tx env w.db found).op = some (op', id) → id = found.id := by
    intro op' id hsome
    obtain ⟨_, -, heq⟩ := Option.map_eq_some_iff.mp (hop.symm.trans hsome)
    exact (Prod.mk.inj heq).2.symm
  have hmiss (hguard : ∀ op', (d.message.tx env w.db found).op = some (op', found.id) →
      op'.transition.guard ((d.message.tx env w.db found).bindRow w.clock found) = false)
      (hdone : d.on .done [] = some (.on d')) : d'.Fits env w := by
    rw [eq_of_on hdone]
    refine ⟨found, ⟨0, 0, 0⟩, hfound, ?_⟩
    rw [view_append]
    exact hview.trans (transact_of_miss hfound.row hguard hid).symm
  cases op with
  | none =>
    refine hmiss ?_ h
    intro op' hsome
    cases hop.symm.trans hsome
  | some op =>
    obtain ⟨⟨type, data⟩, hevent⟩ := Message.event_of_tx hop
    rw [transition.eq_def] at h
    dsimp only at h
    rw [hview, hrow] at h
    dsimp only at h
    split at h
    · next orphaned =>
      rw [eq_of_on h]
      refine ⟨found, type, data, _, ⟨hfound, hop, hevent, rfl, rfl⟩, rfl, ?_, ?_⟩
      · rw [view_append, Tx.bindRow_id]
        exact (congrArg (·.deposits.get? found.id) hview).trans hrow
      · intro v _
        rw [view_append]
        exact congrArg (fun db : Db => { db with deposits := db.deposits.put v }) hview
    · split at h
      · next hguard =>
        rw [eq_of_locking h]
        have hview' : (Delivery.mk d.message (.updated op (op.transition.set w.clock
            ((d.message.tx env w.db found).bindRow w.clock found)))
            (d.writes ++ [.update op found.id w.clock])).view w.db = { d.base env w found with
              deposits := (d.base env w found).deposits.put (op.transition.set w.clock
                ((d.message.tx env w.db found).bindRow w.clock found)) } := by
          rw [view_append, hview]
          exact congrArg (fun t => { d.base env w found with deposits := t })
            (Table.modify_of_get? hrow _)
        refine ⟨found, type, data, _, ⟨hfound, hop, hevent, rfl, hguard⟩, rfl, ?_, ?_⟩
        · rw [hview']
          exact Table.get?_put_self _ _
        · intro v hv
          rw [hview']
          exact congrArg (fun t => { d.base env w found with deposits := t })
            (Table.put_put _ hv.symm)
      · next hguard =>
        refine hmiss ?_ h
        intro op' hsome
        obtain ⟨rfl, -⟩ := Prod.mk.inj (Option.some.inj (hop.symm.trans hsome))
        exact Bool.eq_false_of_not_eq_true hguard

variable {op : Op} {type : EventType} {data : Value} {old row : Deposit} {event : DepositEvent}

/-- The sequence number. -/
theorem fits_sequence (hhit : Hit env w d.message found op type data old)
    (hrow : row = op.transition.set w.clock old)
    (hget : (d.view w.db).deposits.get? row.id = some row)
    (hput : ∀ v : Deposit, v.id = row.id →
      { d.view w.db with deposits := (d.view w.db).deposits.put v } =
        { d.base env w found with deposits := (d.base env w found).deposits.put v }) :
    Fits env w ⟨d.message, .sequenced op row (row.eventSeq + 1),
      d.writes ++ [.nextSequence row.id]⟩ := by
  refine ⟨found, type, data, old, hhit, hrow, rfl, ?_⟩
  rw [view_append]
  refine Eq.trans ?_ (hput { row with eventSeq := row.eventSeq + 1 } rfl)
  exact congrArg (fun t => { d.view w.db with deposits := t }) (Table.modify_of_get? hget _)

/-- The event. -/
theorem fits_record (hhit : Hit env w d.message found op type data old)
    (hrow : row = op.transition.set w.clock old)
    (hview : d.view w.db = { d.base env w found with
      deposits := (d.base env w found).deposits.put { row with eventSeq := row.eventSeq + 1 } })
    (id : Uuid) :
    Fits env w ⟨d.message, .recorded op row ⟨id, row.id, row.eventSeq + 1, type, data, w.clock⟩,
      d.writes ++ [.insertEvent ⟨id, row.id, row.eventSeq + 1, type, data, w.clock⟩]⟩ := by
  refine ⟨found, type, data, old, hhit, hrow, rfl, ?_⟩
  rw [view_append, hview]
  refine congrArg (fun t => { d.base env w found with
    deposits := t
    events := (d.base env w found).events ++
      [(⟨id, row.id, row.eventSeq + 1, type, data, w.clock⟩ : DepositEvent)] }) ?_
  refine (Table.put_put _ ?_).symm
  rw [← hrow]

/-- The app's webhook. -/
theorem fits_notify (hhit : Hit env w d.message found op type data old)
    (hrow : row = op.transition.set w.clock old)
    (hevent : event = Db.eventOf w.clock ⟨event.id, 0, 0⟩ row type data)
    (hview : d.view w.db = ((d.base env w found).setRow w.clock op.transition old).appendEvent
      w.clock ⟨event.id, 0, 0⟩ row type data) {meets : Meets}
    (h : (match (d.view w.db).webhookUrlFor row with
      | some url =>
        if event.eventType.isAppFacing then
          d.on (.notified op row event)
            [.enqueue (Db.newRow w.clock meets.minted row.id (.notifyApp url event row))]
        else d.on (.notified op row event) []
      | none => d.on (.notified op row event) []) = some (.on d')) : d'.Fits env w := by
  have htype : event.eventType = type := congrArg DepositEvent.eventType hevent
  have hsequence : event.sequence = row.eventSeq + 1 := congrArg DepositEvent.sequence hevent
  have hrecord (job : Uuid) : ((d.base env w found).setRow w.clock op.transition old).recordEvent
      w.clock ⟨event.id, meets.minted, job⟩ row type data row =
        match (d.view w.db).webhookUrlFor row with
        | some url =>
          if type.isAppFacing then
            (d.view w.db).enqueue w.clock meets.minted row.id (.notifyApp url event row)
          else d.view w.db
        | none => d.view w.db := by
    rw [hview, hevent]
    rfl
  cases hurl : (d.view w.db).webhookUrlFor row with
  | none =>
    rw [hurl] at h hrecord
    rw [eq_of_on h]
    exact ⟨found, type, data, old, meets.minted, hhit, hrow, hsequence, fun job =>
      (view_append d _ [] w.db).trans (hrecord job).symm⟩
  | some url =>
    rw [hurl] at h hrecord
    dsimp only at h hrecord
    rw [htype] at h
    split at h
    · next hfacing =>
      simp only [if_pos hfacing] at hrecord
      rw [eq_of_on h]
      exact ⟨found, type, data, old, meets.minted, hhit, hrow, hsequence, fun job =>
        (view_append d _ _ w.db).trans (hrecord job).symm⟩
    · next hfacing =>
      simp only [if_neg hfacing] at hrecord
      rw [eq_of_on h]
      exact ⟨found, type, data, old, meets.minted, hhit, hrow, hsequence, fun job =>
        (view_append d _ [] w.db).trans (hrecord job).symm⟩

/-- The transition's job. -/
theorem fits_queue {notify : Uuid} (hhit : Hit env w d.message found op type data old)
    (hrow : row = op.transition.set w.clock old) (hsequence : event.sequence = row.eventSeq + 1)
    (hview : ∀ job, d.view w.db = ((d.base env w found).setRow w.clock op.transition old).recordEvent
      w.clock ⟨event.id, notify, job⟩ row type data row) {meets : Meets}
    (h : (match op.transition.job row.id event.sequence with
      | some payload => d.on .done [.enqueue (Db.newRow w.clock meets.minted row.id payload)]
      | none => d.on .done []) = some (.on d')) : d'.Fits env w := by
  have hold : old.id = found.id := by rw [hhit.bound, Tx.bindRow_id]
  have hid : row.id = found.id := by rw [hrow, Op.set_id, hold]
  have hseq : row.eventSeq = old.eventSeq := by rw [hrow, Op.set_eventSeq]
  have hcommit (job : Uuid) : w.db.transact w.clock ⟨event.id, notify, job⟩
      (d.message.tx env w.db found) =
        (d.view w.db).queue w.clock ⟨event.id, notify, job⟩ row.id
          (op.transition.job row.id event.sequence) := by
    have hguard := hhit.guard
    rw [hhit.bound] at hguard
    rw [Db.transact_of_hit _ _ _ hhit.asks hhit.finds.row hguard, Db.commit_of_event _ _ _ _ _ hhit.records,
      Transition.snapshot_of_unseen (Message.unseen_of_tx hhit.asks), ← hhit.bound, hview job,
      hsequence, hseq, hid, hold, hrow]
    rfl
  cases hjob : op.transition.job row.id event.sequence with
  | none =>
    rw [hjob] at h hcommit
    rw [eq_of_on h]
    exact ⟨found, ⟨event.id, notify, 0⟩, hhit.finds, (view_append d _ [] w.db).trans (hcommit 0).symm⟩
  | some payload =>
    rw [hjob] at h hcommit
    rw [eq_of_on h]
    exact ⟨found, ⟨event.id, notify, meets.minted⟩, hhit.finds,
      (view_append d _ _ w.db).trans (hcommit meets.minted).symm⟩

/-- What is looked up is a row of the table. -/
theorem finds_of_find {message : Message} {p : Deposit → Bool} {row : Deposit}
    (h : w.db.deposits.rows.find? p = some row) (habout : w.concerns message row = true) :
    Finds w message row :=
  ⟨Table.get?_of_mem (List.mem_of_find?_eq_some h), habout⟩

/-- The deposit of a watch. -/
theorem finds_watch {event : IndexerEvent} {row : Deposit}
    (h : w.db.deposits.rows.find? (fun row => row.watchId == some event.watch.id) = some row) :
    Finds w (.indexer event) row := by
  have hwatch := List.find?_some h
  have hany : (w.db.deposits.rows.any fun row => row.watchId == some event.watch.id) = true :=
    List.any_eq_true.mpr ⟨row, List.mem_of_find?_eq_some h, hwatch⟩
  refine finds_of_find h ?_
  rw [World.concerns, World.matchesWatch, if_pos hany]
  exact hwatch

/-- The deposit of an address, where none has the watch. -/
theorem concerns_address {event : IndexerEvent}
    (hnone : (w.db.deposits.rows.any fun row => row.watchId == some event.watch.id) = false) :
    w.concerns (.indexer event) = fun row => row.chainId == event.watch.chainId.toI64 &&
      row.paymentAddress == event.watch.paymentAddress.lowerHex := by
  funext row
  rw [World.concerns, World.matchesWatch, if_neg (by simp [hnone])]

/-- What is not found is not there. -/
theorem any_eq_false_of_find {p : Deposit → Bool} (h : w.db.deposits.rows.find? p = none) :
    w.db.deposits.rows.any p = false :=
  List.any_eq_false.mpr (List.find?_eq_none.mp h)

/-- **One statement more.** -/
theorem Fits.next (h : d.Fits env w) {meets : Meets}
    (hnext : d.next env [] w meets = some (.on d')) : d'.Fits env w := by
  obtain ⟨message, progress, writes⟩ := d
  cases progress with
  | begun =>
    obtain rfl : writes = [] := h
    simp only [Delivery.next] at hnext
    split at hnext
    · cases hnext
    · rw [eq_of_on hnext]
      exact view_append _ _ _ _
  | claimed =>
    cases message with
    | indexer event =>
      simp only [Delivery.next] at hnext
      split at hnext
      · next row hfind =>
        rw [eq_of_on hnext]
        exact ⟨finds_watch hfind, (view_append _ _ _ _).trans h⟩
      · next hfind =>
        rw [eq_of_on hnext]
        refine ⟨?_, (view_append _ _ _ _).trans h⟩
        intro event' heq
        obtain rfl := Message.indexer.inj heq
        exact any_eq_false_of_find hfind
    | engine event =>
      simp only [Delivery.next] at hnext
      split at hnext
      · next row hfind =>
        rw [eq_of_on hnext]
        have hjob := List.find?_some hfind
        exact ⟨finds_of_find hfind hjob, (view_append _ _ _ _).trans h⟩
      · next hfind =>
        split at hnext
        · cases hnext
        · rw [eq_of_on hnext]
          exact ⟨any_eq_false_of_find hfind, (view_append _ _ _ _).trans h⟩
  | byAddress =>
    obtain ⟨hnone, hview⟩ := h
    cases message with
    | indexer event =>
      have hconcerns := concerns_address (hnone event rfl)
      simp only [Delivery.next] at hnext
      split at hnext
      · next row hfind =>
        rw [eq_of_on hnext]
        have haddress := List.find?_some hfind
        refine ⟨finds_of_find hfind ?_, (view_append _ _ _ _).trans hview⟩
        rw [hconcerns]
        exact haddress
      · next hfind =>
        rw [eq_of_on hnext]
        refine ⟨?_, (view_append _ _ _ _).trans hview⟩
        rw [hconcerns]
        exact any_eq_false_of_find hfind
    | engine event => cases hnext
  | unknown =>
    simp only [Delivery.next, commit] at hnext
    split at hnext <;> cases hnext
  | found row =>
    obtain ⟨hfound, hview⟩ := h
    cases message with
    | indexer event => exact fits_bind rfl hfound hview hnext
    | engine event =>
      simp only [Delivery.next] at hnext
      split at hnext
      · next hretryable =>
        rw [eq_of_on hnext]
        refine ⟨hfound, (view_append _ _ _ _).trans hview, ?_, ?_⟩
        · rw [hview]
          rfl
        · intro event' heq
          obtain rfl := Message.engine.inj heq
          exact hretryable
      · next hfinal =>
        refine fits_transition hfound hview ?_ hnext
        simp only [Message.tx, if_neg hfinal]
  | bound row =>
    obtain ⟨hfound, hview⟩ := h
    cases message with
    | indexer event => exact fits_transition hfound hview rfl hnext
    | engine event => cases hnext
  | counted row retries =>
    obtain ⟨hfound, hview, rfl, hretryable⟩ := h
    cases message with
    | indexer event => cases hnext
    | engine event =>
      refine fits_transition hfound hview ?_ hnext
      simp only [Message.tx, if_pos (hretryable event rfl)]
  | updated op row =>
    obtain ⟨found, type, data, old, hhit, hrow, hget, hput⟩ := h
    obtain ⟨current, hcurrent, hlocking⟩ := Option.bind_eq_some_iff.mp hnext
    obtain rfl := Option.some.inj (hget.symm.trans hcurrent)
    rw [eq_of_locking hlocking]
    exact fits_sequence hhit hrow hget hput
  | sequenced op row sequence =>
    obtain ⟨found, type, data, old, hhit, hrow, rfl, hview⟩ := h
    simp only [Delivery.next, hhit.records] at hnext
    rw [eq_of_on hnext]
    exact fits_record hhit hrow hview meets.minted
  | recorded op row event =>
    obtain ⟨found, type, data, old, hhit, hrow, hevent, hview⟩ := h
    exact fits_notify hhit hrow hevent hview hnext
  | notified op row event =>
    obtain ⟨found, type, data, old, notify, hhit, hrow, hsequence, hview⟩ := h
    exact fits_queue hhit hrow hsequence hview hnext
  | done =>
    simp only [Delivery.next, commit] at hnext
    split at hnext <;> cases hnext

end Fits

end Delivery

/-! ## The whole transaction -/

/-- Where a delivery can get while nothing else happens. -/
inductive Alone (env : Env) (w : World) (message : Message) : Delivery → Prop where
  | start : Alone env w message (.start message)
  | next {d d' : Delivery} {meets : Meets} : Alone env w message d →
      d.next env [] w meets = some (.on d') → Alone env w message d'

namespace Alone

variable {env : Env} {w : World} {message : Message} {d : Delivery}

theorem fits (h : Alone env w message d) : d.message = message ∧ d.Fits env w := by
  induction h with
  | start => exact ⟨rfl, rfl⟩
  | next _ hnext ih =>
    refine ⟨?_, ih.2.next hnext⟩
    exact (Delivery.message_of_next hnext).trans ih.1

/-- **A delivery by itself is one transaction**: what it has written at its end is what its
message's makes of the database. -/
theorem performed (h : Alone env w message d) (hend : d.progress = .done ∨ d.progress = .unknown) :
    message.Performed env w (d.view w.db) := by
  obtain ⟨rfl, hfits⟩ := h.fits
  rcases hend with hdone | hunknown
  · rw [Delivery.Fits, hdone] at hfits
    exact .inr hfits
  · rw [Delivery.Fits, hunknown] at hfits
    exact .inl hfits

end Alone

end GumServer
