import GumServer.Step

/-!
# What a step can change

Every step is one of three: it commits what a task or an operator writes, it creates a deposit, or
it leaves the deposits and their timelines alone. The lemmas here say what each of them does to a
row, to the outbox, to the timelines and to the tasks; the invariants are proved from these and
never look into `step` again.
-/

namespace GumServer

/-! ## Rows -/

/-- The row after an event's watch is bound. -/
def Tx.bindRow (tx : Tx) (now : DateTime) (d : Deposit) : Deposit :=
  match tx.bind with
  | some (id, watch) =>
    if d.id = id then
      if d.watchId.isNone then
        { d with watchId := some watch, watchRegisteredAt := d.watchRegisteredAt.or (some now) }
      else d
    else d
  | none => d

/-- The row after a transaction's transition. -/
def Tx.opRow (tx : Tx) (now : DateTime) (d : Deposit) : Deposit :=
  match tx.op with
  | some (op, id) =>
    if d.id = id then if op.transition.guard d then op.transition.row now d else d else d
  | none => d

/-- The row after a write. -/
def Write.row (now : DateTime) (d : Deposit) : Write → Deposit
  | .tx t => t.opRow now (t.bindRow now d)
  | .touch id => if d.id = id then { d with updatedAt := now } else d
  | .nothing | .reschedule _ _ _ | .markDead _ _ | .delete _ => d

@[simp] theorem Tx.bindRow_id (tx : Tx) (now : DateTime) (d : Deposit) :
    (tx.bindRow now d).id = d.id := by
  rw [Tx.bindRow.eq_def]
  split
  · split
    · split <;> rfl
    · rfl
  · rfl

/-- A transaction of one transition binds no watch. -/
@[simp] theorem Tx.of_bindRow (op : Op) (id : Uuid) (now : DateTime) (d : Deposit) :
    (Tx.of op id).bindRow now d = d := rfl

namespace Db

variable (db : Db) (now : DateTime) (mint : Mint)

theorem claimInbound_deposits (claim : Option (Sender × String)) :
    (db.claimInbound now claim).deposits = db.deposits := by
  cases claim <;> rfl

theorem bindWatch_deposits (tx : Tx) (id : Uuid) :
    (db.bindWatch now tx.bind).deposits.get? id = (db.deposits.get? id).map (tx.bindRow now) := by
  obtain ⟨claim, _ | ⟨row, watch⟩, op⟩ := tx
  · exact Option.map_id'.symm
  · refine Table.get?_modify db.deposits row id _ ?_
    intro d
    split <;> rfl

theorem applyOp_deposits (tx : Tx) (id : Uuid) :
    (db.applyOp now mint tx.op).deposits.get? id = (db.deposits.get? id).map (tx.opRow now) := by
  obtain ⟨claim, bind, _ | ⟨op, row⟩⟩ := tx
  · exact Option.map_id'.symm
  · refine Eq.trans ?_ (Table.map_get?_of_key db.deposits row id _).symm
    simp only [applyOp, apply]
    cases h : db.deposits.get? row with
    | none =>
      by_cases hid : id = row
      · rw [if_pos hid, hid, Option.map_none]
        exact h
      · rw [if_neg hid]
        rfl
    | some d =>
      have hd := Table.key_of_get? h
      dsimp only
      by_cases hguard : op.transition.guard d
      · rw [if_pos hguard, Option.getD_some, commit_deposits, hd, Option.map_some, if_pos hguard]
        simp only [eq_comm]
      · rw [if_neg hguard, Option.getD_none, Option.map_some, if_neg hguard]
        by_cases hid : id = row
        · rw [if_pos hid, hid, h]
        · rw [if_neg hid]

/-- **The rows after a write**, one by one. -/
theorem write_deposits (write : Write) (id : Uuid) :
    (db.write now mint write).deposits.get? id =
      (db.deposits.get? id).map fun d => write.row now d := by
  cases write with
  | tx tx =>
    simp only [Db.write, transact, applyOp_deposits, bindWatch_deposits, claimInbound_deposits,
      Option.map_map]
    rfl
  | touch row =>
    refine Table.get?_modify db.deposits row id _ ?_
    intro d
    rfl
  | nothing => exact Option.map_id'.symm
  | reschedule row delay error => exact Option.map_id'.symm
  | markDead row error => exact Option.map_id'.symm
  | delete row => exact Option.map_id'.symm

end Db

/-- The transition a write carries. -/
def Write.op : Write → Option (Op × Uuid)
  | .tx t => t.op
  | .nothing | .touch _ | .reschedule _ _ _ | .markDead _ _ | .delete _ => none

/-- A row that differs in its stamp and in a watch bound on sight, if at all. -/
structure Quiet (d d' : Deposit) : Prop where
  eq : d' = { d with
    watchId := d'.watchId, watchRegisteredAt := d'.watchRegisteredAt, updatedAt := d'.updatedAt }
  watchId : d.watchId ≠ none → d'.watchId = d.watchId

theorem Quiet.refl (d : Deposit) : Quiet d d := ⟨rfl, fun _ => rfl⟩

theorem Tx.quiet_bindRow (tx : Tx) (now : DateTime) (d : Deposit) : Quiet d (tx.bindRow now d) := by
  rw [Tx.bindRow.eq_def]
  split
  · split
    · split
      · next h => exact ⟨rfl, fun hne => absurd (Option.isNone_iff_eq_none.mp h) hne⟩
      · exact .refl d
    · exact .refl d
  · exact .refl d

/-- The row a write's transition finds. -/
def Write.bound (now : DateTime) (d : Deposit) : Write → Deposit
  | .tx t => t.bindRow now d
  | .nothing | .touch _ | .reschedule _ _ _ | .markDead _ _ | .delete _ => d

theorem Write.quiet_bound (write : Write) (now : DateTime) (d : Deposit) :
    Quiet d (write.bound now d) := by
  cases write with
  | tx tx => exact tx.quiet_bindRow now d
  | nothing => exact .refl d
  | touch id => exact .refl d
  | reschedule row delay error => exact .refl d
  | markDead row error => exact .refl d
  | delete row => exact .refl d

/-- A write's transition passes its guard on a row. -/
structure Write.Hits (write : Write) (now : DateTime) (op : Op) (d : Deposit) : Prop where
  carries : write.op = some (op, d.id)
  guard : op.transition.guard (write.bound now d) = true

/-- **A row after a write**: untouched by any transition, or hit by the one the write carries. -/
theorem Write.row_cases (write : Write) (now : DateTime) (d : Deposit) :
    Quiet d (write.row now d) ∨
    ∃ op, write.Hits now op d ∧ write.row now d = op.transition.row now (write.bound now d) := by
  cases write with
  | tx tx =>
    have hquiet := tx.quiet_bindRow now d
    have hid := tx.bindRow_id now d
    rw [Write.row, Tx.opRow.eq_def]
    rcases hop : tx.op with _ | ⟨op, id⟩
    · exact .inl hquiet
    · dsimp only
      split
      · next heq =>
        split
        · next hguard =>
          exact .inr ⟨op, ⟨by rw [Write.op, hop, ← heq, hid], hguard⟩, rfl⟩
        · exact .inl hquiet
      · exact .inl hquiet
  | touch id =>
    rw [Write.row]
    split
    · exact .inl ⟨rfl, fun _ => rfl⟩
    · exact .inl (.refl d)
  | nothing => exact .inl (.refl d)
  | reschedule row delay error => exact .inl (.refl d)
  | markDead row error => exact .inl (.refl d)
  | delete row => exact .inl (.refl d)

/-- The row after a transition that hits it. -/
theorem Write.Hits.row {write : Write} {now : DateTime} {op : Op} {d : Deposit}
    (h : write.Hits now op d) :
    write.row now d = op.transition.row now (write.bound now d) := by
  cases write with
  | tx tx =>
    have hop : tx.op = some (op, d.id) := h.carries
    rw [Write.row, Tx.opRow, hop]
    exact (if_pos (tx.bindRow_id now d)).trans (if_pos h.guard)
  | nothing => cases h.carries
  | touch id => cases h.carries
  | reschedule row delay error => cases h.carries
  | markDead row error => cases h.carries
  | delete row => cases h.carries

theorem Quiet.id {d d' : Deposit} (h : Quiet d d') : d'.id = d.id := by rw [h.eq]

theorem Quiet.eventSeq {d d' : Deposit} (h : Quiet d d') : d'.eventSeq = d.eventSeq := by rw [h.eq]

theorem Quiet.status {d d' : Deposit} (h : Quiet d d') : d'.status = d.status := by rw [h.eq]

theorem Quiet.engineJobId {d d' : Deposit} (h : Quiet d d') : d'.engineJobId = d.engineJobId := by
  rw [h.eq]

theorem Quiet.wherePaid {d d' : Deposit} (h : Quiet d d') :
    GumServer.wherePaid d' = GumServer.wherePaid d := by
  rw [GumServer.wherePaid, h.status, GumServer.wherePaid]

@[simp] theorem Write.row_id (write : Write) (now : DateTime) (d : Deposit) :
    (write.row now d).id = d.id := by
  rcases write.row_cases now d with hquiet | ⟨op, -, heq⟩
  · exact hquiet.id
  · rw [heq, Op.row_id, (write.quiet_bound now d).id]

/-- No write takes from a timeline. -/
theorem Write.le_row_eventSeq (write : Write) (now : DateTime) (d : Deposit) :
    d.eventSeq ≤ (write.row now d).eventSeq := by
  rcases write.row_cases now d with hquiet | ⟨op, -, heq⟩
  · exact Nat.le_of_eq hquiet.eventSeq.symm
  · rw [heq, ← (write.quiet_bound now d).eventSeq]
    exact op.le_row_eventSeq now _

/-- A row after a transaction of one transition. -/
theorem Write.row_of (op : Op) {id : Uuid} (now : DateTime) {d : Deposit} (h : d.id = id) :
    (Write.tx (.of op id)).row now d =
      if op.transition.guard d then op.transition.row now d else d :=
  if_pos h

/-! ## Timelines and jobs -/

/-- A row of the outbox that is still what it was queued as, and no less alive. -/
structure Keeps (r r' : OutboxRow) : Prop where
  depositId : r'.depositId = r.depositId
  payload : r'.payload = r.payload
  alive : r.deadAt = none → r'.deadAt = none

theorem Keeps.refl (r : OutboxRow) : Keeps r r := ⟨rfl, rfl, fun h => h⟩

/-- What a write leaves of a row of the outbox: all it was queued as, and the count of its attempts;
and only a write that says so kills it. -/
structure Write.Leaves (write : Write) (old r : OutboxRow) : Prop where
  depositId : r.depositId = old.depositId
  payload : r.payload = old.payload
  attempts : r.attempts = old.attempts
  dead : r.deadAt = old.deadAt ∨ ∃ error, write = .markDead old.id error

theorem Write.Leaves.refl {write : Write} (r : OutboxRow) : write.Leaves r r :=
  ⟨rfl, rfl, rfl, .inl rfl⟩

namespace Db

variable (db : Db) (now : DateTime) (mint : Mint)

/-- A transaction up to its transition. -/
def bound (tx : Tx) : Db := (db.claimInbound now tx.claim).bindWatch now tx.bind

theorem bound_deposits (tx : Tx) (id : Uuid) :
    (db.bound now tx).deposits.get? id = (db.deposits.get? id).map (tx.bindRow now) := by
  rw [bound, bindWatch_deposits, claimInbound_deposits]

theorem bound_outbox (tx : Tx) : (db.bound now tx).outbox = db.outbox := by
  obtain ⟨_ | _, _ | _, op⟩ := tx <;> rfl

theorem bound_events (tx : Tx) : (db.bound now tx).events = db.events := by
  obtain ⟨_ | _, _ | _, op⟩ := tx <;> rfl

/-- A transaction whose transition hits its row. -/
theorem transact_of_hit {tx : Tx} {op : Op} {d : Deposit} (hop : tx.op = some (op, d.id))
    (hd : db.deposits.get? d.id = some d) (hguard : op.transition.guard (tx.bindRow now d) = true) :
    db.transact now mint tx = (db.bound now tx).commit now mint op.transition (tx.bindRow now d) := by
  have hrow := db.bound_deposits now tx d.id
  rw [hd, Option.map_some] at hrow
  rw [transact, ← bound, hop, applyOp, apply, hrow]
  dsimp only
  rw [if_pos hguard, Option.getD_some]

/-- A transaction hits the row of its transition, or commits nothing but a claim and a watch. -/
theorem transact_cases (tx : Tx) :
    db.transact now mint tx = db.bound now tx ∨
    ∃ op d, tx.op = some (op, d.id) ∧ db.deposits.get? d.id = some d ∧
      op.transition.guard (tx.bindRow now d) = true ∧
      db.transact now mint tx =
        (db.bound now tx).commit now mint op.transition (tx.bindRow now d) := by
  rcases hop : tx.op with _ | ⟨op, id⟩
  · rw [transact, ← bound, hop]
    exact .inl rfl
  · cases hd : db.deposits.get? id with
    | none =>
      have hrow := db.bound_deposits now tx id
      rw [hd, Option.map_none] at hrow
      rw [transact, ← bound, hop, applyOp, apply, hrow]
      exact .inl rfl
    | some d =>
      obtain rfl := Table.key_of_get? hd
      by_cases hguard : op.transition.guard (tx.bindRow now d) = true
      · exact .inr ⟨op, d, rfl, hd, hguard, db.transact_of_hit now mint hop hd hguard⟩
      · have hrow := db.bound_deposits now tx d.id
        rw [hd, Option.map_some] at hrow
        rw [transact, ← bound, hop, applyOp, apply, hrow]
        dsimp only
        rw [if_neg hguard]
        exact .inl rfl

variable {db now mint} {write : Write}

/-- A row stays in the outbox unless the write is about that very row. -/
theorem write_outbox_keeps {r : OutboxRow} (hr : db.outbox.get? r.id = some r)
    (hmint : r.id ∉ mint.ids) (hdelete : write ≠ .delete r.id)
    (hdead : ∀ error, write ≠ .markDead r.id error) :
    ∃ r', (db.write now mint write).outbox.get? r.id = some r' ∧ Keeps r r' := by
  cases write with
  | nothing => exact ⟨r, hr, .refl r⟩
  | touch id => exact ⟨r, hr, .refl r⟩
  | tx tx =>
    rw [Db.write]
    rcases db.transact_cases now mint tx with h | ⟨op, d, -, -, -, h⟩
    · rw [h, bound_outbox]
      exact ⟨r, hr, .refl r⟩
    · rw [h, commit_outbox_of_ne, bound_outbox]
      · exact ⟨r, hr, .refl r⟩
      · rintro heq
        exact hmint (by simp [Mint.ids, heq])
      · rintro heq
        exact hmint (by simp [Mint.ids, heq])
  | reschedule row delay error =>
    rw [Db.write]
    dsimp only
    rw [Table.get?_modify _ _ _ (OutboxRow.putOff now delay error) (fun _ => rfl), hr,
      Option.map_some]
    split
    · exact ⟨_, rfl, rfl, rfl, fun h => h⟩
    · exact ⟨r, rfl, .refl r⟩
  | markDead row error =>
    rw [Db.write]
    dsimp only
    rw [Table.get?_modify _ _ _ (OutboxRow.kill now error) (fun _ => rfl), hr,
      Option.map_some, if_neg]
    · exact ⟨r, rfl, .refl r⟩
    · rintro rfl
      exact hdead error rfl
  | delete row =>
    rw [Db.write]
    dsimp only
    rw [Table.get?_erase, if_neg]
    · exact ⟨r, hr, .refl r⟩
    · rintro rfl
      exact hdelete rfl

/-- An update of one row of the outbox leaves every row what it was, as far as it leaves that one. -/
theorem modify_outbox_leaves {outbox : Table OutboxRow.id} {row k : Uuid}
    {f : OutboxRow → OutboxRow} {r : OutboxRow} (hid : ∀ r, (f r).id = r.id)
    (hleaves : ∀ r, r.id = k → write.Leaves r (f r)) (h : (outbox.modify k f).get? row = some r) :
    ∃ old, outbox.get? row = some old ∧ write.Leaves old r := by
  rw [Table.get?_modify _ _ _ f hid, Option.map_eq_some_iff] at h
  obtain ⟨old, hold, rfl⟩ := h
  refine ⟨old, hold, ?_⟩
  split
  · next hk => exact hleaves old hk
  · exact .refl old

/-- A row that was not in the outbox has a minted id, and is the notification of the write's
transition or its job. -/
theorem write_outbox_new {row : Uuid} {r : OutboxRow}
    (h : (db.write now mint write).outbox.get? row = some r) :
    (∃ old, db.outbox.get? row = some old ∧ write.Leaves old r) ∨
    row ∈ mint.ids ∧ ((∃ op d, write.Hits now op d ∧ db.deposits.get? d.id = some d ∧
        IsNotice now mint op (write.bound now d) r) ∨
      ∃ op d payload, write.Hits now op d ∧ db.deposits.get? d.id = some d ∧
        op.transition.job d.id (d.eventSeq + 1) = some payload ∧
        r = newRow now mint.job d.id payload) := by
  cases write with
  | nothing => exact .inl ⟨r, h, .refl r⟩
  | touch id => exact .inl ⟨r, h, .refl r⟩
  | reschedule k delay error =>
    refine .inl (modify_outbox_leaves (f := OutboxRow.putOff now delay error) (fun _ => rfl) ?_ h)
    intro r _
    exact ⟨rfl, rfl, rfl, .inl rfl⟩
  | markDead k error =>
    refine .inl (modify_outbox_leaves (f := OutboxRow.kill now error) (fun _ => rfl) ?_ h)
    rintro r rfl
    exact ⟨rfl, rfl, rfl, .inr ⟨error, rfl⟩⟩
  | delete k =>
    rw [Db.write] at h
    dsimp only at h
    rw [Table.get?_erase] at h
    split at h
    · cases h
    · exact .inl ⟨r, h, .refl r⟩
  | tx tx =>
    rw [Db.write] at h
    rcases db.transact_cases now mint tx with heq | ⟨op, d, hop, hd, hguard, heq⟩
    · rw [heq, bound_outbox] at h
      exact .inl ⟨r, h, .refl r⟩
    · rw [heq] at h
      by_cases hrow : row ∈ mint.ids
      · have hseq := (tx.quiet_bindRow now d).eventSeq
        rcases commit_outbox_new _ _ _ _ _ h with h | h | ⟨payload, hjob, hr⟩
        · rw [bound_outbox] at h
          exact .inl ⟨r, h, .refl r⟩
        · exact .inr ⟨hrow, .inl ⟨op, d, ⟨hop, hguard⟩, hd, h⟩⟩
        · rw [Tx.bindRow_id, hseq] at hjob
          rw [Tx.bindRow_id] at hr
          exact .inr ⟨hrow, .inr ⟨op, d, payload, ⟨hop, hguard⟩, hd, hjob, hr⟩⟩
      · simp only [Mint.ids, List.mem_cons, List.not_mem_nil, or_false, not_or] at hrow
        rw [commit_outbox_of_ne _ _ _ _ _ hrow.2.1 hrow.2.2, bound_outbox] at h
        exact .inl ⟨r, h, .refl r⟩

/-- The job of a transition that hits its row is queued. -/
theorem write_outbox_job {op : Op} {d : Deposit} {payload : Payload} (h : write.Hits now op d)
    (hd : db.deposits.get? d.id = some d)
    (hjob : op.transition.job d.id (d.eventSeq + 1) = some payload) :
    (db.write now mint write).outbox.get? mint.job = some (newRow now mint.job d.id payload) := by
  cases write with
  | tx tx =>
    have hseq := (tx.quiet_bindRow now d).eventSeq
    have hid := tx.bindRow_id now d
    rw [← hid, ← hseq] at hjob
    rw [Db.write, db.transact_of_hit now mint h.carries hd h.guard, commit_outbox_job _ _ _ _ _ hjob, hid]
  | nothing => cases h.carries
  | touch id => cases h.carries
  | reschedule row delay error => cases h.carries
  | markDead row error => cases h.carries
  | delete row => cases h.carries

/-- A write that records something hits the row of its transition. -/
theorem write_events_cases : (db.write now mint write).events = db.events ∨
    ∃ op d, write.Hits now op d ∧ db.deposits.get? d.id = some d := by
  cases write with
  | tx tx =>
    rw [Db.write]
    rcases db.transact_cases now mint tx with h | ⟨op, d, hop, hd, hguard, -⟩
    · rw [h, bound_events]
      exact .inl rfl
    · exact .inr ⟨op, d, ⟨hop, hguard⟩, hd⟩
  | nothing => exact .inl rfl
  | touch id => exact .inl rfl
  | reschedule row delay error => exact .inl rfl
  | markDead row error => exact .inl rfl
  | delete row => exact .inl rfl

/-- The event of a transition that hits its row is recorded. -/
theorem write_events_eq {op : Op} {d : Deposit} (h : write.Hits now op d)
    (hd : db.deposits.get? d.id = some d) : (db.write now mint write).events = db.events ++
      (op.transition.event.map fun e =>
        eventOf now mint (op.transition.set now (write.bound now d)) e.1 e.2).toList := by
  cases write with
  | tx tx =>
    rw [Db.write, db.transact_of_hit now mint h.carries hd h.guard, commit_events, bound_events]
    rfl
  | nothing => cases h.carries
  | touch id => cases h.carries
  | reschedule row delay error => cases h.carries
  | markDead row error => cases h.carries
  | delete row => cases h.carries

/-- Under the next sequence. -/
theorem write_events_of_hit {op : Op} {d : Deposit} {type : EventType} {data : Value}
    (h : write.Hits now op d) (hd : db.deposits.get? d.id = some d)
    (hevent : op.transition.event = some (type, data)) :
    ∃ e, (db.write now mint write).events = db.events ++ [e] ∧
      e.depositId = d.id ∧ e.sequence = d.eventSeq + 1 ∧ e.eventType = type := by
  have hbound := write.quiet_bound now d
  rw [write_events_eq h hd, hevent]
  refine ⟨_, rfl, ?_, ?_, rfl⟩
  · exact (op.set_id now _).trans hbound.id
  · exact congrArg (· + 1) ((op.set_eventSeq now _).trans hbound.eventSeq)

/-- The timelines grow at their end. -/
theorem write_events_append : db.events <+: (db.write now mint write).events := by
  rcases @write_events_cases db now mint write with hsame | ⟨op, d, hhits, hd⟩
  · rw [hsame]
  · rw [write_events_eq hhits hd]
    exact List.prefix_append _ _

/-- A new event is about a deposit that is there. -/
theorem write_events_owner {e : DepositEvent} (he : e ∈ (db.write now mint write).events) :
    e ∈ db.events ∨ ∃ d, db.deposits.get? e.depositId = some d := by
  rcases @write_events_cases db now mint write with hsame | ⟨op, d, hhits, hd⟩
  · rw [hsame] at he
    exact .inl he
  · rw [write_events_eq hhits hd] at he
    rcases List.mem_append.mp he with he | he
    · exact .inl he
    · obtain ⟨e', -, rfl⟩ := Option.map_eq_some_iff.mp (Option.mem_toList.mp he)
      refine .inr ⟨d, ?_⟩
      show db.deposits.get? (op.transition.set now (write.bound now d)).id = some d
      rw [Op.set_id, (write.quiet_bound now d).id]
      exact hd

/-- The timeline of a deposit, oldest first. -/
def timeline (db : Db) (id : Uuid) : List DepositEvent :=
  db.events.filter fun e => decide (e.depositId = id)

/-- The event of a transition is on the timeline of its row, and on no other. -/
theorem filter_event (op : Op) (now : DateTime) (mint : Mint) (d : Deposit) (id : Uuid) :
    ((op.transition.event.map fun e =>
      eventOf now mint (op.transition.set now d) e.1 e.2).toList.filter fun e =>
        decide (e.depositId = id)) = if d.id = id then (op.transition.event.map fun e =>
          eventOf now mint (op.transition.set now d) e.1 e.2).toList else [] := by
  cases op.transition.event with
  | none => simp
  | some e =>
    have hid : (eventOf now mint (op.transition.set now d) e.1 e.2).depositId = d.id :=
      op.set_id now d
    rw [Option.map_some, Option.toList_some, List.filter_singleton, hid]
    split <;> simp_all

/-- **A write and one deposit**: it leaves the row and its timeline as they were, but for the stamp
and the watch, or its transition hits the row and puts its event at the end. -/
theorem write_timeline (db : Db) (now : DateTime) (mint : Mint) (write : Write) {d : Deposit}
    (hd : db.deposits.get? d.id = some d) :
    (Quiet d (write.row now d) ∧ (db.write now mint write).timeline d.id = db.timeline d.id) ∨
    ∃ op, write.Hits now op d ∧ (db.write now mint write).timeline d.id = db.timeline d.id ++
      (op.transition.event.map fun e =>
        eventOf now mint (op.transition.set now (write.bound now d)) e.1 e.2).toList := by
  have hsame (h : (db.write now mint write).events = db.events) :
      (db.write now mint write).timeline d.id = db.timeline d.id := by
    rw [timeline, h, timeline]
  by_cases hhit : ∃ op, write.Hits now op d
  · obtain ⟨op, hhits⟩ := hhit
    refine .inr ⟨op, hhits, ?_⟩
    rw [timeline, write_events_eq hhits hd, List.filter_append, filter_event,
      if_pos (write.quiet_bound now d).id, timeline]
  · refine .inl ⟨?_, ?_⟩
    · rcases write.row_cases now d with hquiet | ⟨op, hhits, -⟩
      · exact hquiet
      · exact absurd ⟨op, hhits⟩ hhit
    · cases write with
      | tx tx =>
        rw [Db.write]
        rcases db.transact_cases now mint tx with h | ⟨op, d', hop, hd', hguard, h⟩
        · rw [timeline, h, bound_events, timeline]
        · have hid : d'.id ≠ d.id := by
            intro hid
            rw [hid] at hd'
            obtain rfl := Option.some.inj (hd.symm.trans hd')
            exact hhit ⟨op, hop, hguard⟩
          rw [timeline, h, commit_events, bound_events, List.filter_append, filter_event,
            if_neg (tx.bindRow_id now d' ▸ hid), List.append_nil, timeline]
      | nothing => exact hsame rfl
      | touch id => exact hsame rfl
      | reschedule row delay error => exact hsame rfl
      | markDead row error => exact hsame rfl
      | delete row => exact hsame rfl

end Db

/-! ## Steps -/

namespace World

/-- Creation is not for the app, so it queues the registration of the watch and nothing else. -/
theorem created_eq (w : World) (d : Deposit) (mint : Mint) : w.created d mint =
    ((({ w.db with deposits := w.db.deposits.put d } : Db).appendEvent w.clock mint d .created
      (.object [])).enqueue w.clock mint.job d.id .registerWatch) := by
  rw [World.created, Db.recordEvent]
  split <;> rfl

theorem created_deposits (w : World) (d : Deposit) (mint : Mint) (id : Uuid) :
    (w.created d mint).deposits.get? id =
      if d.id = id then some { d with eventSeq := d.eventSeq + 1 }
      else w.db.deposits.get? id := by
  rw [created_eq, Db.enqueue, Db.appendEvent]
  dsimp only
  rw [Table.get?_put, Table.get?_put]
  split <;> rfl

theorem created_outbox (w : World) (d : Deposit) (mint : Mint) (row : Uuid) :
    (w.created d mint).outbox.get? row =
      if mint.job = row then some (Db.newRow w.clock mint.job d.id .registerWatch)
      else w.db.outbox.get? row := by
  rw [created_eq, Db.enqueue, Db.appendEvent]
  dsimp only
  rw [Table.get?_put]
  rfl

theorem created_events (w : World) (d : Deposit) (mint : Mint) : (w.created d mint).events =
    w.db.events ++ [Db.eventOf w.clock mint d .created (.object [])] := by
  rw [created_eq]
  rfl

/-- The first event is on the timeline of the new deposit, and on no other. -/
theorem created_timeline (w : World) (d : Deposit) (mint : Mint) (id : Uuid) :
    (w.created d mint).timeline id = w.db.timeline id ++
      if d.id = id then [Db.eventOf w.clock mint d .created (.object [])] else [] := by
  rw [Db.timeline, created_events, List.filter_append, List.filter_singleton, Db.timeline]
  by_cases hid : d.id = id <;> simp [Db.eventOf, hid]

/-- What an action commits of the deposits' own writes: a task's next write, or an operator's. -/
def commits (env : Env) (w : World) : Action → Write
  | .advance task input _ =>
    match (w.tasks.get? task).bind fun t => t.next env w.db w.engine input with
    | some n => n.1
    | none => .nothing
  | .retrySettlement id _ => .tx (.of .retrySettlement id)
  | _ => .nothing

end World

/-- What a task's step commits. -/
theorem World.commits_advance {env : Env} {w : World} {name : ℕ} {t : Task} {input : Input}
    {mint : Mint} {n : Write × Engine × Option Task} (ht : w.tasks.get? name = some t)
    (hnext : t.next env w.db w.engine input = some n) :
    w.commits env (.advance name input mint) = n.1 := by
  rw [World.commits, ht, Option.bind_some, hnext]

theorem require_eq_some {ok : Bool} {w w' : World} : require ok w = some w' ↔ ok = true ∧ w = w' := by
  cases ok <;> simp [require]

/-- The steps that can be taken, with what is checked before each and the world after it. -/
inductive Stepped (env : Env) (w : World) : Action → World → Prop where
  | tick (now : DateTime) (hlater : w.clock.toMicros ≤ now.toMicros) :
      Stepped env w (.tick now) { w with clock := now }
  | setUser (user : String) (url : Option String) :
      Stepped env w (.setUser user url) { w with db := { w.db with users := w.db.users.put user url } }
  | create (new : NewDeposit) (user : String) (d : Deposit) (mint : Mint)
      (hinsert : insertDeposit new d.id user w.clock = some d)
      (hfresh : w.fresh (d.id :: mint.ids) = true) (hinsertable : w.insertable d = true) :
      Stepped env w (.create new user d.id mint)
        { w with db := w.created d mint, minted := d.id :: mint.ids ++ w.minted }
  | indexerUnknown (task : ℕ) (event : IndexerEvent) (hnew : w.claimed .indexer event.id = false)
      (hnobody : (w.db.deposits.rows.any (w.matchesWatch event.watch)) = false) :
      Stepped env w (.indexerEvent task event none)
        { w with db := w.db.claimInbound w.clock (some (.indexer, event.id)) }
  | indexerEvent (task : ℕ) (event : IndexerEvent) (d : Deposit)
      (hd : w.db.deposits.get? d.id = some d) (hnew : w.claimed .indexer event.id = false)
      (hmatches : w.matchesWatch event.watch d = true) :
      Stepped env w (.indexerEvent task event (some d.id)) (w.start task (.indexer event d none))
  | engineUnknown (task : ℕ) (event : EngineEvent) (hnew : w.claimed .engine event.eventId = false)
      (hnobody : (w.db.deposits.rows.any fun d => d.engineJobId == some event.jobId) = false) :
      Stepped env w (.engineEvent task event none)
        { w with db := w.db.claimInbound w.clock (some (.engine, event.eventId)) }
  | engineEvent (task : ℕ) (event : EngineEvent) (d : Deposit)
      (hd : w.db.deposits.get? d.id = some d) (hnew : w.claimed .engine event.eventId = false)
      (hjob : d.engineJobId = some event.jobId) :
      Stepped env w (.engineEvent task event (some d.id))
        (w.start task (.settling (some event.eventId) event.jobId d
          (SettlementOutcome.fromEvent env.readers event d) none))
  | staleOpen (task : ℕ) (d : Deposit) (watch : Uuid) (hd : w.db.deposits.get? d.id = some d)
      (hwatch : d.watchId = some watch) (hstale : w.isStaleOpen env d = true) :
      Stepped env w (.staleOpen task d.id) (w.start task (.openStale d watch))
  | stalePaid (task : ℕ) (d : Deposit) (job : Uuid) (hd : w.db.deposits.get? d.id = some d)
      (hjob : d.engineJobId = some job) (hstale : w.isStalePaid env d = true) :
      Stepped env w (.stalePaid task d.id) (w.start task (.paidStale d job))
  | overdue (task : ℕ) (d : Deposit) (hd : w.db.deposits.get? d.id = some d)
      (hoverdue : w.isOverdue d = true) :
      Stepped env w (.overdue task d.id) (w.start task (.overdue d.id))
  | claim (task : ℕ) (r : OutboxRow) (hr : w.db.outbox.get? r.id = some r) (hdue : w.isDue r = true) :
      Stepped env w (.claim task r.id)
        { w.start task (.worker (World.jobOf r) .claimed) with
          db := { w.db with outbox := w.db.outbox.put (w.lock env r) } }
  | advance (task : ℕ) (input : Input) (mint : Mint) (t : Task) (write : Write) (engine : Engine)
      (next : Option Task) (ht : w.tasks.get? task = some t)
      (hnext : t.next env w.db w.engine input = some (write, engine, next))
      (hfresh : w.fresh mint.ids = true) :
      Stepped env w (.advance task input mint) (w.after task mint write engine next)
  | drop (task : ℕ) : Stepped env w (.drop task) { w with tasks := w.tasks.erase task }
  | abandon (task rescheduler : ℕ) (error : String) (job : OutboxJob) (stage : Stage)
      (ht : w.tasks.get? task = some (.worker job stage)) (hfree : w.free rescheduler = true) :
      Stepped env w (.abandon task rescheduler error)
        (w.start rescheduler (.worker job (.rescheduling error)))
  | retrySettlement (id : Uuid) (mint : Mint) (hfresh : w.fresh mint.ids = true) :
      Stepped env w (.retrySettlement id mint)
        { w with
          db := w.db.transact w.clock mint (.of .retrySettlement id)
          minted := mint.ids ++ w.minted }
  | requeue (row : Uuid) :
      Stepped env w (.requeue row)
        { w with db := { w.db with outbox := w.db.outbox.modify row w.requeued } }
  | prune :
      Stepped env w .prune { w with db := { w.db with
        inbound := w.db.inbound.filter fun e => decide (w.ago (7 * 86400) ≤ e.2) } }

/-- **What a step can be.** -/
theorem step_cases {env : Env} {w w' : World} {a : Action} (h : step env w a = some w') :
    Stepped env w a w' := by
  cases a with
  | tick now =>
    obtain ⟨hlater, rfl⟩ := require_eq_some.mp h
    exact .tick now (of_decide_eq_true hlater)
  | setUser user url =>
    obtain rfl := Option.some.inj h
    exact .setUser user url
  | create new user id mint =>
    obtain ⟨d, hd, h⟩ := Option.bind_eq_some_iff.mp h
    obtain ⟨hok, rfl⟩ := require_eq_some.mp h
    obtain ⟨hfresh, hinsertable⟩ := Bool.and_eq_true_iff.mp hok
    obtain rfl := (Inserted.of_insert hd).id
    exact .create new user d mint hd hfresh hinsertable
  | indexerEvent task event found =>
    cases found with
    | none =>
      obtain ⟨hok, rfl⟩ := require_eq_some.mp h
      simp only [Bool.and_eq_true, Bool.not_eq_true'] at hok
      exact .indexerUnknown task event hok.1.2 hok.2
    | some id =>
      obtain ⟨d, hd, h⟩ := Option.bind_eq_some_iff.mp h
      obtain ⟨hok, rfl⟩ := require_eq_some.mp h
      obtain rfl := Table.key_of_get? hd
      simp only [Bool.and_eq_true, Bool.not_eq_true'] at hok
      exact .indexerEvent task event d hd hok.1.2 hok.2
  | engineEvent task event found =>
    cases found with
    | none =>
      obtain ⟨hok, rfl⟩ := require_eq_some.mp h
      simp only [Bool.and_eq_true, Bool.not_eq_true'] at hok
      exact .engineUnknown task event hok.1.2 hok.2
    | some id =>
      obtain ⟨d, hd, h⟩ := Option.bind_eq_some_iff.mp h
      obtain ⟨hok, rfl⟩ := require_eq_some.mp h
      obtain rfl := Table.key_of_get? hd
      simp only [Bool.and_eq_true, Bool.not_eq_true', beq_iff_eq] at hok
      exact .engineEvent task event d hd hok.1.2 hok.2
  | staleOpen task id =>
    obtain ⟨d, hd, h⟩ := Option.bind_eq_some_iff.mp h
    obtain ⟨watch, hwatch, h⟩ := Option.bind_eq_some_iff.mp h
    obtain ⟨hok, rfl⟩ := require_eq_some.mp h
    obtain rfl := Table.key_of_get? hd
    exact .staleOpen task d watch hd hwatch (Bool.and_eq_true_iff.mp hok).2
  | stalePaid task id =>
    obtain ⟨d, hd, h⟩ := Option.bind_eq_some_iff.mp h
    obtain ⟨job, hjob, h⟩ := Option.bind_eq_some_iff.mp h
    obtain ⟨hok, rfl⟩ := require_eq_some.mp h
    obtain rfl := Table.key_of_get? hd
    exact .stalePaid task d job hd hjob (Bool.and_eq_true_iff.mp hok).2
  | overdue task id =>
    obtain ⟨d, hd, h⟩ := Option.bind_eq_some_iff.mp h
    obtain ⟨hok, rfl⟩ := require_eq_some.mp h
    obtain rfl := Table.key_of_get? hd
    exact .overdue task d hd (Bool.and_eq_true_iff.mp hok).2
  | claim task row =>
    obtain ⟨r, hr, h⟩ := Option.bind_eq_some_iff.mp h
    obtain ⟨hok, rfl⟩ := require_eq_some.mp h
    obtain rfl := Table.key_of_get? hr
    exact .claim task r hr (Bool.and_eq_true_iff.mp hok).2
  | advance task input mint =>
    obtain ⟨t, ht, h⟩ := Option.bind_eq_some_iff.mp h
    obtain ⟨⟨write, engine, next⟩, hnext, h⟩ := Option.bind_eq_some_iff.mp h
    obtain ⟨hfresh, rfl⟩ := require_eq_some.mp h
    exact .advance task input mint t write engine next ht hnext hfresh
  | drop task =>
    obtain rfl := Option.some.inj h
    exact .drop task
  | abandon task rescheduler error =>
    rw [step] at h
    split at h
    · next job stage ht =>
      obtain ⟨hfree, rfl⟩ := require_eq_some.mp h
      exact .abandon task rescheduler error job stage ht hfree
    · cases h
  | retrySettlement id mint =>
    obtain ⟨hfresh, rfl⟩ := require_eq_some.mp h
    exact .retrySettlement id mint hfresh
  | requeue row =>
    obtain rfl := Option.some.inj h
    exact .requeue row
  | prune =>
    obtain rfl := Option.some.inj h
    exact .prune

/-- The effect of a step on the database. -/
inductive DbStep (env : Env) (w : World) (a : Action) (w' : World) : Prop where
  /-- it commits a write, under ids minted for it -/
  | commit (mint : Mint) (hfresh : w.fresh mint.ids = true)
      (hdb : w'.db = w.db.write w.clock mint (w.commits env a))
      (hminted : w'.minted = mint.ids ++ w.minted) : DbStep env w a w'
  /-- it creates a deposit -/
  | create (d : Deposit) (mint : Mint) (new : NewDeposit) (user : String)
      (hinsert : insertDeposit new d.id user w.clock = some d)
      (hfresh : w.fresh (d.id :: mint.ids) = true) (hdb : w'.db = w.created d mint)
      (hminted : w'.minted = d.id :: mint.ids ++ w.minted)
      (hcommits : w.commits env a = .nothing) : DbStep env w a w'
  /-- it leaves deposits and timelines alone, and every row of the outbox what it was -/
  | frame (f : OutboxRow → OutboxRow) (hdeposits : w'.db.deposits = w.db.deposits)
      (hevents : w'.db.events = w.db.events) (hminted : w'.minted = w.minted)
      (hkeeps : ∀ r, (f r).id = r.id ∧ Keeps r (f r))
      (houtbox : ∀ row, w'.db.outbox.get? row = (w.db.outbox.get? row).map f)
      (hcommits : w.commits env a = .nothing)
      (hclaims : ∀ r, (f r).attempts = r.attempts ∨ ∃ name, a = .claim name r.id) : DbStep env w a w'

/-- A frame step that does not touch the outbox either. -/
theorem DbStep.same {env : Env} {w w' : World} {a : Action}
    (hdeposits : w'.db.deposits = w.db.deposits) (hevents : w'.db.events = w.db.events)
    (hminted : w'.minted = w.minted) (houtbox : w'.db.outbox = w.db.outbox)
    (hcommits : w.commits env a = .nothing) : DbStep env w a w' :=
  .frame id hdeposits hevents hminted (fun r => ⟨rfl, .refl r⟩)
    (fun row => by rw [houtbox, Option.map_id]; rfl) hcommits (fun _ => .inl rfl)

/-- Whatever a row of the outbox is under some key, updated in place. -/
theorem DbStep.row {env : Env} {w w' : World} {a : Action} (k : Uuid) (f : OutboxRow → OutboxRow)
    (hdeposits : w'.db.deposits = w.db.deposits) (hevents : w'.db.events = w.db.events)
    (hminted : w'.minted = w.minted) (hkeeps : ∀ r, (f r).id = r.id ∧ Keeps r (f r))
    (houtbox : w'.db.outbox = w.db.outbox.modify k f) (hcommits : w.commits env a = .nothing)
    (hclaims : ∀ r, (f r).attempts = r.attempts ∨ ∃ name, a = .claim name k) :
    DbStep env w a w' := by
  refine .frame (fun r => if r.id = k then f r else r) hdeposits hevents hminted ?_ ?_ hcommits ?_
  · intro r
    split
    · exact hkeeps r
    · exact ⟨rfl, .refl r⟩
  · intro row
    rw [houtbox, Table.get?_modify _ _ _ f fun r => (hkeeps r).1]
  · intro r
    split
    · next hk => exact hk ▸ hclaims r
    · exact .inl rfl

/-- **What a step does to the database.** -/
theorem step_db {env : Env} {w w' : World} {a : Action} (h : step env w a = some w') :
    DbStep env w a w' := by
  cases step_cases h with
  | create new user d mint hinsert hfresh => exact .create d mint new user hinsert hfresh rfl rfl rfl
  | advance task input mint t write engine next ht hnext hfresh =>
    refine .commit mint hfresh ?_ rfl
    rw [World.commits_advance ht hnext]
    rfl
  | retrySettlement id mint hfresh => exact .commit mint hfresh rfl rfl
  | claim task r hr =>
    refine .row r.id (w.lock env) rfl rfl rfl ?_ ?_ rfl (fun _ => .inr ⟨task, rfl⟩)
    · intro r
      exact ⟨rfl, rfl, rfl, fun hdead => hdead⟩
    · rw [Table.modify, hr]
  | requeue row =>
    refine .row row w.requeued rfl rfl rfl ?_ rfl rfl (fun _ => .inl rfl)
    intro r
    exact ⟨rfl, rfl, rfl, fun _ => rfl⟩
  | _ => exact .same rfl rfl rfl rfl rfl

/-- The timelines grow at their end. -/
theorem step_events_append {env : Env} {w w' : World} {a : Action} (h : step env w a = some w') :
    w.db.events <+: w'.db.events := by
  cases step_db h with
  | commit mint hfresh hdb hminted =>
    rw [hdb]
    exact Db.write_events_append
  | create d mint new user hinsert hfresh hdb hminted hcommits =>
    rw [hdb, World.created_events]
    exact List.prefix_append _ _
  | frame f hdeposits hevents hminted hkeeps houtbox hcommits hclaims =>
    rw [hevents]

/-- Nothing leaves a timeline. -/
theorem step_events {env : Env} {w w' : World} {a : Action} (h : step env w a = some w')
    {e : DepositEvent} (he : e ∈ w.db.events) : e ∈ w'.db.events :=
  (step_events_append h).subset he

/-- A transition that hits its row records its event. -/
theorem step_event_of_hit {env : Env} {w w' : World} {a : Action} (h : step env w a = some w')
    {op : Op} {d : Deposit} (hhits : (w.commits env a).Hits w.clock op d)
    (hd : w.db.deposits.get? d.id = some d) {type : EventType} {data : Value}
    (hevent : op.transition.event = some (type, data)) :
    ∃ e, w'.db.events = w.db.events ++ [e] ∧
      e.depositId = d.id ∧ e.sequence = d.eventSeq + 1 ∧ e.eventType = type := by
  cases step_db h with
  | commit mint hfresh hdb hminted =>
    rw [hdb]
    exact Db.write_events_of_hit hhits hd hevent
  | create c mint new user hinsert hfresh hdb hminted hcommits =>
    rw [hcommits] at hhits
    cases hhits.carries
  | frame f hdeposits hevents hminted hkeeps houtbox hcommits hclaims =>
    rw [hcommits] at hhits
    cases hhits.carries

/-- An event is the one a transition records as a step commits it to a row. -/
def World.Records (env : Env) (w : World) (a : Action) (e : DepositEvent) (op : Op) (d : Deposit) :
    Prop :=
  (w.commits env a).Hits w.clock op d ∧ w.db.deposits.get? d.id = some d ∧ e.depositId = d.id ∧
    op.transition.event = some (e.eventType, e.data)

/-- **What a step records**: nothing, the first event of a new deposit, or the event of the
transition it commits. -/
theorem step_recorded {env : Env} {w w' : World} {a : Action} (h : step env w a = some w') :
    w'.db.events = w.db.events ∨ ∃ e, w'.db.events = w.db.events ++ [e] ∧
      (e.eventType = .created ∨ ∃ op d, w.Records env a e op d) := by
  cases step_db h with
  | commit mint hfresh hdb hminted =>
    rw [hdb]
    rcases @Db.write_events_cases w.db w.clock mint (w.commits env a) with hsame | ⟨op, d, hhits, hd⟩
    · exact .inl hsame
    · have hbound := (w.commits env a).quiet_bound w.clock d
      rw [Db.write_events_eq hhits hd]
      rcases hevent : op.transition.event with _ | ⟨type, data⟩
      · exact .inl (List.append_nil _)
      · exact .inr ⟨_, rfl, .inr ⟨op, d, hhits, hd, (op.set_id _ _).trans hbound.id, hevent⟩⟩
  | create d mint new user hinsert hfresh hdb hminted hcommits =>
    rw [hdb, World.created_events]
    exact .inr ⟨_, rfl, .inl rfl⟩
  | frame f hdeposits hevents hminted hkeeps houtbox hcommits hclaims => exact .inl hevents

/-! ## Tasks -/

/-- How a task came to be in flight after a step. -/
inductive TaskStep (env : Env) (w : World) (a : Action) (name : ℕ) : Task → Prop where
  /-- it was in flight before -/
  | kept {t : Task} (ht : w.tasks.get? name = some t) : TaskStep env w a name t
  /-- it went on -/
  | advanced {t t' : Task} (input : Input) (mint : Mint) (write : Write) (engine : Engine)
      (ha : a = .advance name input mint) (ht : w.tasks.get? name = some t)
      (hnext : t.next env w.db w.engine input = some (write, engine, some t')) :
      TaskStep env w a name t'
  | indexer (event : IndexerEvent) (d : Deposit) (hd : w.db.deposits.get? d.id = some d)
      (ha : a = .indexerEvent name event (some d.id)) : TaskStep env w a name (.indexer event d none)
  | engine (event : EngineEvent) (d : Deposit) (hd : w.db.deposits.get? d.id = some d)
      (hjob : d.engineJobId = some event.jobId)
      (ha : a = .engineEvent name event (some d.id)) :
      TaskStep env w a name (.settling (some event.eventId) event.jobId d
        (SettlementOutcome.fromEvent env.readers event d) none)
  | staleOpen (d : Deposit) (watch : Uuid) (hd : w.db.deposits.get? d.id = some d) :
      TaskStep env w a name (.openStale d watch)
  | stalePaid (d : Deposit) (job : Uuid) (hd : w.db.deposits.get? d.id = some d)
      (hjob : d.engineJobId = some job) : TaskStep env w a name (.paidStale d job)
  | overdue (d : Deposit) (hd : w.db.deposits.get? d.id = some d) (hoverdue : w.isOverdue d = true) :
      TaskStep env w a name (.overdue d.id)
  | claimed (r : OutboxRow) (hr : w.db.outbox.get? r.id = some r) (ha : a = .claim name r.id) :
      TaskStep env w a name (.worker (World.jobOf r) .claimed)
  | abandoned (old : ℕ) (job : OutboxJob) (stage : Stage) (error : String)
      (ht : w.tasks.get? old = some (.worker job stage)) (ha : a = .abandon old name error) :
      TaskStep env w a name (.worker job (.rescheduling error))

/-- A task that was started, or was there before. -/
theorem TaskStep.start {env : Env} {w : World} {a : Action} {name k : ℕ} {t t' : Task}
    (hnew : name = k → TaskStep env w a name t) (ht : (w.tasks.put k t).get? name = some t') :
    TaskStep env w a name t' := by
  rw [KeyMap.get?_put] at ht
  split at ht
  · next hk =>
    obtain rfl := Option.some.inj ht
    exact hnew hk
  · exact .kept ht

/-- A task that is left when another one ends. -/
theorem TaskStep.erase {env : Env} {w : World} {a : Action} {name k : ℕ} {t : Task}
    (ht : (w.tasks.erase k).get? name = some t) : TaskStep env w a name t := by
  by_cases hk : name = k
  · rw [hk, KeyMap.get?_erase_self] at ht
    cases ht
  · rw [KeyMap.get?_erase_ne _ hk] at ht
    exact .kept ht

/-- **Where a task comes from.** -/
theorem step_tasks {env : Env} {w w' : World} {a : Action} (h : step env w a = some w') {name : ℕ}
    {t : Task} (ht : w'.tasks.get? name = some t) : TaskStep env w a name t := by
  cases step_cases h with
  | indexerEvent task event d hd =>
    refine .start ?_ ht
    rintro rfl
    exact .indexer event d hd rfl
  | engineEvent task event d hd _ hjob =>
    refine .start ?_ ht
    rintro rfl
    exact .engine event d hd hjob rfl
  | staleOpen task d watch hd => exact .start (fun _ => .staleOpen d watch hd) ht
  | stalePaid task d job hd hjob => exact .start (fun _ => .stalePaid d job hd hjob) ht
  | overdue task d hd hoverdue => exact .start (fun _ => .overdue d hd hoverdue) ht
  | claim task r hr =>
    refine .start ?_ ht
    rintro rfl
    exact .claimed r hr rfl
  | advance task input mint old write engine next hold hnext =>
    cases next with
    | none => exact .erase ht
    | some t' =>
      refine .start ?_ ht
      rintro rfl
      exact .advanced input mint write engine rfl hold hnext
  | drop task => exact .erase ht
  | abandon task rescheduler error job stage hold =>
    exact .start (fun hname => .abandoned task job stage error hold (hname ▸ rfl)) ht
  | _ => exact .kept ht

/-! ## Workers -/

/-- How a worker's step goes. -/
inductive WorkerStep (env : Env) (db : Db) (engine : Engine) (job : OutboxJob) :
    Stage → Input → Write → Engine → Option Stage → Prop where
  /-- it reads its deposit -/
  | load (now : DateTime) : WorkerStep env db engine job .claimed (.load now) .nothing engine
      (some (Worker.load env db now job))
  /-- its attempt fails, and is retried -/
  | retry (stage : Stage) (input : Input) (error : String) :
      WorkerStep env db engine job stage input .nothing engine (some (.finishing (.retry error)))
  /-- the indexer answers -/
  | watch (d : Deposit) (answer : Answer Uuid) : WorkerStep env db engine job (.registering d)
      (.watch answer) .nothing engine (some (Worker.answerWatch d answer))
  /-- the engine answers -/
  | submit (d : Deposit) (key : String) (reply : Reply) (engine' : Engine)
      (hsubmit : Worker.submit engine key reply = some engine') :
      WorkerStep env db engine job (.submitting d key) (.submit reply) .nothing engine'
        (some (Worker.answerSubmit engine d key reply))
  /-- the app has its event -/
  | deliver : WorkerStep env db engine job .delivering (.deliver none) .nothing engine
      (some (.finishing .done))
  /-- its row is finalised -/
  | finalise (attempt : Attempt) (input : Input) (write : Write)
      (hwrite : Worker.finalise env job attempt input = some write) :
      WorkerStep env db engine job (.finishing attempt) input write engine none
  /-- its row is rescheduled -/
  | reschedule (error : String) (now : DateTime) (delay : ℤ) :
      WorkerStep env db engine job (.rescheduling error) (.schedule now delay)
        (Worker.retryLater env job now delay error) engine none
  /-- its transaction is committed -/
  | commit (stage : Stage) (input : Input) (op : Op) (id : Uuid) (attempt : Attempt)
      (hstatement : Worker.statement job stage = some (op, id, attempt)) (end' : Attempt)
      (hend : end' = attempt ∨ ∃ error, end' = .retry error) :
      WorkerStep env db engine job stage input (.tx (.of op id)) engine (some (.finishing end'))

/-- The commit of a worker's transaction: acknowledged, failed, or lost on the way back. -/
theorem Worker.settle_step {env : Env} {db : Db} {engine engine' : Engine} {job : OutboxJob}
    {stage : Stage} {input : Input} {write : Write} {stage' : Option Stage}
    (h : Worker.settle engine job stage input = some (write, engine', stage')) :
    WorkerStep env db engine job stage input write engine' stage' := by
  rcases hstatement : Worker.statement job stage with _ | ⟨op, id, attempt⟩
  · rw [Worker.settle.eq_def, hstatement] at h
    cases h
  · rw [Worker.settle.eq_def, hstatement] at h
    cases input with
    | go =>
      obtain ⟨rfl, rfl, rfl⟩ := by simpa using h
      exact .commit _ _ op id attempt hstatement attempt (.inl rfl)
    | failed error =>
      obtain ⟨rfl, rfl, rfl⟩ := by simpa using h
      exact .retry _ _ error
    | unacknowledged error =>
      obtain ⟨rfl, rfl, rfl⟩ := by simpa using h
      exact .commit _ _ op id attempt hstatement _ (.inr ⟨error, rfl⟩)
    | load now => cases h
    | watch answer => cases h
    | polledWatch watch polledAt => cases h
    | polledJob job polledAt => cases h
    | submit reply => cases h
    | deliver error => cases h
    | schedule now delay => cases h

/-- **What a worker's step does.** -/
theorem Worker.next_step {env : Env} {db : Db} {engine engine' : Engine} {job : OutboxJob}
    {stage : Stage} {input : Input} {write : Write} {stage' : Option Stage}
    (h : Worker.next env db engine job stage input = some (write, engine', stage')) :
    WorkerStep env db engine job stage input write engine' stage' := by
  rw [Worker.next.eq_def] at h
  split at h
  · next now =>
    obtain ⟨rfl, rfl, rfl⟩ := by simpa using h
    exact .load now
  · next error =>
    obtain ⟨rfl, rfl, rfl⟩ := by simpa using h
    exact .retry _ _ error
  · next d answer =>
    obtain ⟨rfl, rfl, rfl⟩ := by simpa using h
    exact .watch d answer
  · next d key reply =>
    obtain ⟨after, hsubmit, heq⟩ := Option.map_eq_some_iff.mp h
    obtain ⟨rfl, rfl, rfl⟩ := by simpa using heq
    exact .submit d key reply after hsubmit
  · obtain ⟨rfl, rfl, rfl⟩ := by simpa using h
    exact .deliver
  · next error =>
    obtain ⟨rfl, rfl, rfl⟩ := by simpa using h
    exact .retry _ _ error
  · obtain ⟨last, hlast, heq⟩ := Option.map_eq_some_iff.mp h
    obtain ⟨rfl, rfl, rfl⟩ := by simpa using heq
    exact .finalise _ _ last hlast
  · next error now delay =>
    obtain ⟨rfl, rfl, rfl⟩ := by simpa using h
    exact .reschedule error now delay
  · exact settle_step h

/-- The only transitions a worker commits are its statements. -/
theorem WorkerStep.op {env : Env} {db : Db} {engine engine' : Engine} {job : OutboxJob}
    {stage : Stage} {input : Input} {write : Write} {stage' : Option Stage} {op : Op} {id : Uuid}
    (h : WorkerStep env db engine job stage input write engine' stage')
    (hop : write.op = some (op, id)) :
    ∃ attempt, Worker.statement job stage = some (op, id, attempt) := by
  have hlater (now : DateTime) (delay : ℤ) (error : String) :
      (Worker.retryLater env job now delay error).op = none := by
    rw [Worker.retryLater]
    split <;> rfl
  cases h with
  | commit _ _ op' id' attempt hstatement end' hend =>
    obtain ⟨rfl, rfl⟩ := Prod.mk.inj (Option.some.inj hop)
    exact ⟨attempt, hstatement⟩
  | finalise attempt _ _ hwrite =>
    cases attempt <;> cases input <;> cases hwrite
    · cases hop
    · rw [hlater] at hop
      cases hop
    · cases hop
  | reschedule error now delay =>
    rw [hlater] at hop
    cases hop
  | _ => cases hop

/-! ## Handlers and the reconciler -/

/-- How the step of any other task goes. -/
inductive HandlerStep (env : Env) (db : Db) : Task → Write → Option Task → Prop where
  | indexer (event : IndexerEvent) (d : Deposit) (seen : Option Deposit) :
      HandlerStep env db (.indexer event d seen) (.tx (indexerTx env.readers.lib event d seen)) none
  /-- the row of an orphaned payment is read -/
  | readOrphaned (event : IndexerEvent) (d row : Deposit) (hrow : orphanedRow db event d = some row) :
      HandlerStep env db (.indexer event d none) .nothing (some (.indexer event d (some row)))
  /-- the retries are counted -/
  | count (claim : Option String) (job : Uuid) (d : Deposit) (outcome : SettlementOutcome) :
      HandlerStep env db (.settling claim job d outcome none) .nothing
        (some (.settling claim job d outcome (some (db.retries d.id))))
  /-- the outcome is applied -/
  | settle (claim : Option String) (job : Uuid) (d : Deposit) (outcome : SettlementOutcome)
      (retries : Option ℕ) (hcounted : (outcome.isRetryable && retries.isNone) = false) :
      HandlerStep env db (.settling claim job d outcome retries)
        (.tx ⟨claim.map fun id => (.engine, id), none,
          (settlementOp outcome (retries.getD 0)).map fun op => (op, d.id)⟩) none
  | pollOpen (d : Deposit) (watchId : Uuid) (watch : Option WatchDetail) (polledAt : String) :
      HandlerStep env db (.openStale d watchId) .nothing (some (.openPolled d watchId watch polledAt))
  | reregister (d : Deposit) (watchId : Uuid) (polledAt : String) :
      HandlerStep env db (.openPolled d watchId none polledAt)
        (.tx (.of .reregisterWatch d.id)) none
  | applyOpen (d : Deposit) (watchId : Uuid) (watch : WatchDetail) (polledAt : String)
      (t' : Option Task) (ht' : t' = none ∨ t' = some (.touching d.id)) :
      HandlerStep env db (.openPolled d watchId (some watch) polledAt)
        (.tx ⟨none, none, (openOp env.readers.lib d watchId watch polledAt).map fun op =>
          (op, d.id)⟩) t'
  | unknownJob (d : Deposit) (job : Uuid) :
      HandlerStep env db (.paidStale d job) .nothing (some (.paidUnknown d job))
  | pollPaid (d : Deposit) (job : Uuid) (polled : Job) (polledAt : String)
      (outcome : SettlementOutcome)
      (houtcome : SettlementOutcome.fromJob env.readers job polled polledAt d = some outcome) :
      HandlerStep env db (.paidStale d job) .nothing (some (.settling none job d outcome none))
  | inFlight (d : Deposit) (job : Uuid) :
      HandlerStep env db (.paidStale d job) .nothing (some (.touching d.id))
  | resubmit (d : Deposit) (job : Uuid) : HandlerStep env db (.paidUnknown d job)
      (.tx (.of (.resubmit unknownJobData) d.id)) none
  | touch (id : Uuid) : HandlerStep env db (.touching id) (.touch id) none
  | overdue (id : Uuid) : HandlerStep env db (.overdue id)
      (.tx (.of (.applyExpired (.object
        [("reason", .string "expiry passed without threshold")])) id)) none

/-- **What a task's step does**, a worker's or another's. -/
theorem Task.next_step {env : Env} {db : Db} {engine engine' : Engine} {t : Task} {input : Input}
    {write : Write} {t' : Option Task}
    (h : t.next env db engine input = some (write, engine', t')) :
    (HandlerStep env db t write t' ∧ engine' = engine) ∨
    ∃ job stage stage', t = .worker job stage ∧ t' = stage'.map (.worker job) ∧
      WorkerStep env db engine job stage input write engine' stage' := by
  rw [Task.next.eq_def] at h
  split at h
  · next event d =>
    split at h
    · next row hrow =>
      obtain ⟨rfl, rfl, rfl⟩ := by simpa using h
      exact .inl ⟨.readOrphaned event d row hrow, rfl⟩
    · obtain ⟨rfl, rfl, rfl⟩ := by simpa using h
      exact .inl ⟨.indexer event d none, rfl⟩
  · next event d seen =>
    obtain ⟨rfl, rfl, rfl⟩ := by simpa using h
    exact .inl ⟨.indexer event d (some seen), rfl⟩
  · next claim job d outcome retries =>
    split at h
    · next hcount =>
      obtain ⟨rfl, rfl, rfl⟩ := by simpa using h
      rw [Bool.and_eq_true, Option.isNone_iff_eq_none] at hcount
      obtain ⟨-, rfl⟩ := hcount
      exact .inl ⟨.count claim job d outcome, rfl⟩
    · next hcount =>
      obtain ⟨rfl, rfl, rfl⟩ := by simpa using h
      exact .inl ⟨.settle claim job d outcome retries (Bool.eq_false_of_not_eq_true hcount), rfl⟩
  · next d watchId watch polledAt =>
    obtain ⟨rfl, rfl, rfl⟩ := by simpa using h
    exact .inl ⟨.pollOpen d watchId watch polledAt, rfl⟩
  · next d watchId polledAt =>
    obtain ⟨rfl, rfl, rfl⟩ := by simpa using h
    exact .inl ⟨.reregister d watchId polledAt, rfl⟩
  · next d watchId watch polledAt =>
    obtain ⟨rfl, rfl, ht'⟩ := by simpa using h
    refine .inl ⟨.applyOpen d watchId watch polledAt t' ?_, rfl⟩
    rw [← ht']
    split
    · exact .inl rfl
    · exact .inr rfl
  · next d job _ =>
    obtain ⟨rfl, rfl, rfl⟩ := by simpa using h
    exact .inl ⟨.unknownJob d job, rfl⟩
  · next d job polled polledAt =>
    obtain ⟨rfl, rfl, rfl⟩ := by simpa using h
    split
    · next outcome houtcome => exact .inl ⟨.pollPaid d job polled polledAt outcome houtcome, rfl⟩
    · exact .inl ⟨.inFlight d job, rfl⟩
  · next d job =>
    obtain ⟨rfl, rfl, rfl⟩ := by simpa using h
    exact .inl ⟨.resubmit d job, rfl⟩
  · next id =>
    obtain ⟨rfl, rfl, rfl⟩ := by simpa using h
    exact .inl ⟨.touch id, rfl⟩
  · next id =>
    obtain ⟨rfl, rfl, rfl⟩ := by simpa using h
    exact .inl ⟨.overdue id, rfl⟩
  · next job stage =>
    obtain ⟨⟨write, engine', stage'⟩, hnext, heq⟩ := Option.map_eq_some_iff.mp h
    obtain ⟨rfl, rfl, rfl⟩ := by simpa using heq
    exact .inr ⟨job, stage, stage', rfl, rfl, Worker.next_step hnext⟩
  · cases h

/-- No other task turns into a worker. -/
theorem HandlerStep.not_worker {env : Env} {db : Db} {t : Task} {write : Write} {job : OutboxJob}
    {stage : Stage} : ¬ HandlerStep env db t write (some (.worker job stage)) := by
  intro h
  cases h with
  | applyOpen d watchId watch polledAt t' ht' =>
    rcases ht' with ht' | ht' <;> cases ht'

/-- The engine after a task's step. -/
theorem step_engine_advance {env : Env} {w w' : World} {name : ℕ} {t : Task} {input : Input}
    {mint : Mint} {write : Write} {engine : Engine} {t' : Option Task}
    (h : step env w (.advance name input mint) = some w') (ht : w.tasks.get? name = some t)
    (hnext : t.next env w.db w.engine input = some (write, engine, t')) : engine = w'.engine := by
  rw [step, ht, Option.bind_some, hnext, Option.bind_some] at h
  obtain ⟨-, rfl⟩ := require_eq_some.mp h
  rfl

/-- How a worker came to its stage. -/
inductive WorkerCame (env : Env) (w : World) (a : Action) (w' : World) (name : ℕ)
    (job : OutboxJob) : Stage → Prop where
  | kept {stage : Stage} (ht : w.tasks.get? name = some (.worker job stage)) :
      WorkerCame env w a w' name job stage
  | claimed (r : OutboxRow) (hr : w.db.outbox.get? r.id = some r) (hjob : job = World.jobOf r)
      (ha : a = .claim name r.id) : WorkerCame env w a w' name job .claimed
  | abandoned (old : ℕ) (stage : Stage) (error : String)
      (ht : w.tasks.get? old = some (.worker job stage)) (ha : a = .abandon old name error) :
      WorkerCame env w a w' name job (.rescheduling error)
  | advanced {stage stage' : Stage} (input : Input) (write : Write)
      (ht : w.tasks.get? name = some (.worker job stage)) (hcommits : w.commits env a = write)
      (hstep : WorkerStep env w.db w.engine job stage input write w'.engine (some stage')) :
      WorkerCame env w a w' name job stage'

/-- **Where a worker comes from.** -/
theorem step_worker {env : Env} {w w' : World} {a : Action} (h : step env w a = some w') {name : ℕ}
    {job : OutboxJob} {stage : Stage} (ht : w'.tasks.get? name = some (.worker job stage)) :
    WorkerCame env w a w' name job stage := by
  cases step_tasks h ht with
  | kept ht => exact .kept ht
  | claimed r hr ha => exact .claimed r hr rfl ha
  | abandoned old _ old' error hold ha => exact .abandoned old old' error hold ha
  | advanced input mint write engine ha hold hnext =>
    subst ha
    have hcommits := @World.commits_advance env w name _ input mint _ hold hnext
    obtain rfl := step_engine_advance h hold hnext
    rcases Task.next_step hnext with ⟨hstep, -⟩ | ⟨job', stage', next, rfl, hnext', hstep⟩
    · exact absurd hstep HandlerStep.not_worker
    · cases next with
      | none => cases hnext'
      | some stage'' =>
        obtain ⟨rfl, rfl⟩ := by simpa using hnext'
        exact .advanced input write hold hcommits hstep

/-- Who commits a write. -/
inductive Committer (env : Env) (w : World) (a : Action) : Write → Prop where
  | nobody : Committer env w a .nothing
  | operator (id : Uuid) (mint : Mint) (ha : a = .retrySettlement id mint) :
      Committer env w a (.tx (.of .retrySettlement id))
  | handler {write : Write} (name : ℕ) (t : Task) (t' : Option Task)
      (ht : w.tasks.get? name = some t) (hstep : HandlerStep env w.db t write t') :
      Committer env w a write
  | worker {write : Write} (name : ℕ) (job : OutboxJob) (stage : Stage) (input : Input)
      (engine' : Engine) (stage' : Option Stage) (ht : w.tasks.get? name = some (.worker job stage))
      (hstep : WorkerStep env w.db w.engine job stage input write engine' stage') :
      Committer env w a write

/-- **Where a write comes from.** -/
theorem World.committer (env : Env) (w : World) (a : Action) : Committer env w a (w.commits env a) := by
  cases a with
  | advance name input mint =>
    cases ht : w.tasks.get? name with
    | none =>
      rw [World.commits, ht]
      exact .nobody
    | some t =>
      rcases hnext : t.next env w.db w.engine input with _ | ⟨write, engine', t'⟩
      · rw [World.commits, ht, Option.bind_some, hnext]
        exact .nobody
      · rw [World.commits_advance ht hnext]
        rcases Task.next_step hnext with ⟨hstep, -⟩ | ⟨job, stage, stage', rfl, -, hstep⟩
        · exact .handler name t t' ht hstep
        · exact .worker name job stage input engine' stage' ht hstep
  | retrySettlement id mint => exact .operator id mint rfl
  | tick now => exact .nobody
  | setUser user url => exact .nobody
  | create new user id mint => exact .nobody
  | indexerEvent task event found => exact .nobody
  | engineEvent task event found => exact .nobody
  | staleOpen task id => exact .nobody
  | stalePaid task id => exact .nobody
  | overdue task id => exact .nobody
  | claim task row => exact .nobody
  | drop task => exact .nobody
  | abandon task rescheduler error => exact .nobody
  | requeue row => exact .nobody
  | prune => exact .nobody

/-- What an indexer event can ask for. -/
inductive IndexerAsks (lib : Crates) (event : IndexerEvent) (seen : Option Deposit) : Op → Prop where
  | pending (data : Value) : IndexerAsks lib event seen (.applyPaymentPending data)
  | confirmed (data : Value) (hdata : data.get "confirmed_amount" =
      some (.string (toString (confirmedTotal lib event.watch.confirmedAmount).val))) :
      IndexerAsks lib event seen
        (.applyPaymentConfirmed (confirmedTotal lib event.watch.confirmedAmount) data)
  | orphaned (data : Value) : IndexerAsks lib event seen (.applyPaymentOrphaned data seen)
  | reached (data : Value) (hkind : IndexerEventKind.ofStr event.eventType = .thresholdReached) :
      IndexerAsks lib event seen
        (.applyThresholdReached (confirmedTotal lib event.watch.confirmedAmount) data)
  | expired (data : Value) : IndexerAsks lib event seen (.applyExpired data)

theorem indexerOp_asks {lib : Crates} {event : IndexerEvent} {seen : Option Deposit} {op : Op}
    (h : indexerOp lib event seen = some op) : IndexerAsks lib event seen op := by
  rw [indexerOp] at h
  cases hkind : IndexerEventKind.ofStr event.eventType with
  | paymentPending =>
    rw [hkind] at h
    cases h
    exact .pending _
  | paymentConfirmed =>
    rw [hkind] at h
    cases h
    exact .confirmed _ (by simp [Value.get, List.lookup_cons])
  | paymentOrphaned =>
    rw [hkind] at h
    cases h
    exact .orphaned _
  | thresholdReached =>
    rw [hkind] at h
    cases h
    exact .reached _ hkind
  | watchExpired =>
    rw [hkind] at h
    cases h
    exact .expired _
  | other =>
    rw [hkind] at h
    cases h

/-- Only an orphaned payment is recorded with a row that was read before. -/
theorem IndexerAsks.seen {lib : Crates} {event : IndexerEvent} {seen : Option Deposit} {op : Op}
    (h : IndexerAsks lib event seen op) :
    op.transition.seen = none ∨ ∃ data, op = .applyPaymentOrphaned data seen := by
  cases h with
  | orphaned data => exact .inr ⟨data, rfl⟩
  | _ => exact .inl rfl

/-- What a polled watch can ask for. -/
inductive OpenAsks (lib : Crates) (watch : WatchDetail) : Op → Prop where
  | completed (data : Value) (hstatus : WatchStatus.ofStr watch.status = .completed) :
      OpenAsks lib watch (.applyThresholdReached (confirmedTotal lib watch.confirmedAmount) data)
  | closed (data : Value) (hstatus : WatchStatus.ofStr watch.status = .closed) :
      OpenAsks lib watch (.applyExpired data)
  | active (data : Value) (hdata : data.get "confirmed_amount" =
      some (.string (toString (confirmedTotal lib watch.confirmedAmount).val))) :
      OpenAsks lib watch (.applyPaymentConfirmed (confirmedTotal lib watch.confirmedAmount) data)

theorem openOp_asks {lib : Crates} {d : Deposit} {watchId : Uuid} {watch : WatchDetail}
    {polledAt : String} {op : Op} (h : openOp lib d watchId watch polledAt = some op) :
    OpenAsks lib watch op := by
  rw [openOp] at h
  cases hstatus : WatchStatus.ofStr watch.status with
  | completed =>
    rw [hstatus] at h
    cases h
    exact .completed _ hstatus
  | closed =>
    rw [hstatus] at h
    cases h
    exact .closed _ hstatus
  | active =>
    rw [hstatus] at h
    dsimp only at h
    split at h <;> cases h
    exact .active _ (by simp [Value.get, List.lookup_cons])

/-- What a report about a settlement can ask for. -/
inductive SettlementAsks : SettlementOutcome → Op → Prop where
  | included (txHash : String) (blockNumber : Option ℤ) (data : Value) :
      SettlementAsks (.included txHash blockNumber data)
        (.applySettlementIncluded txHash blockNumber data)
  | settled (txHash : String) (blockNumber : Option ℤ) (data : Value) :
      SettlementAsks (.settled txHash blockNumber data) (.applySettled txHash blockNumber data)
  | retried {outcome : SettlementOutcome} (data : Value) : SettlementAsks outcome (.resubmit data)
  | failed (code message : String) (txHash : Option String) (revertData : Option (List UInt8))
      (data : Value) : SettlementAsks (.failed code message txHash revertData data)
        (.applyFailed code message txHash revertData data)

theorem settlementOp_asks {outcome : SettlementOutcome} {retries : ℕ} {op : Op}
    (h : settlementOp outcome retries = some op) : SettlementAsks outcome op := by
  cases outcome with
  | included txHash blockNumber data =>
    cases h
    exact .included txHash blockNumber data
  | settled txHash blockNumber data =>
    cases h
    exact .settled txHash blockNumber data
  | failed code message txHash revertData data =>
    rw [settlementOp] at h
    split at h <;> cases h
    · exact .retried _
    · exact .failed code message txHash revertData data
  | pending => cases h

/-- All of it is asked of a paid deposit. -/
theorem SettlementAsks.guard {outcome : SettlementOutcome} {op : Op}
    (h : SettlementAsks outcome op) : op.transition.guard = wherePaid := by
  cases h <;> rfl

/-- Who asks for a transition, and of which deposit. -/
inductive Asks (env : Env) (w : World) : Action → Op → Uuid → Prop where
  | operator (id : Uuid) (mint : Mint) :
      Asks env w (.retrySettlement id mint) .retrySettlement id
  | indexer (name : ℕ) (input : Input) (mint : Mint) (event : IndexerEvent) (s : Deposit) (op : Op)
      {seen : Option Deposit} (ht : w.tasks.get? name = some (.indexer event s seen))
      (hop : indexerOp env.readers.lib event seen = some op) :
      Asks env w (.advance name input mint) op s.id
  | settling (name : ℕ) (input : Input) (mint : Mint) (claim : Option String) (job : Uuid)
      (s : Deposit) (outcome : SettlementOutcome) (retries : Option ℕ) (op : Op)
      (ht : w.tasks.get? name = some (.settling claim job s outcome retries))
      (hop : settlementOp outcome (retries.getD 0) = some op) :
      Asks env w (.advance name input mint) op s.id
  | lost (name : ℕ) (input : Input) (mint : Mint) (s : Deposit) (watchId : Uuid) (polledAt : String)
      (ht : w.tasks.get? name = some (.openPolled s watchId none polledAt)) :
      Asks env w (.advance name input mint) .reregisterWatch s.id
  | polled (name : ℕ) (input : Input) (mint : Mint) (s : Deposit) (watchId : Uuid)
      (watch : WatchDetail) (polledAt : String) (op : Op)
      (ht : w.tasks.get? name = some (.openPolled s watchId (some watch) polledAt))
      (hop : openOp env.readers.lib s watchId watch polledAt = some op) :
      Asks env w (.advance name input mint) op s.id
  | unknown (name : ℕ) (input : Input) (mint : Mint) (s : Deposit) (job : Uuid)
      (ht : w.tasks.get? name = some (.paidUnknown s job)) :
      Asks env w (.advance name input mint) (.resubmit unknownJobData) s.id
  | overdue (name : ℕ) (input : Input) (mint : Mint) (id : Uuid)
      (ht : w.tasks.get? name = some (.overdue id)) :
      Asks env w (.advance name input mint) (.applyExpired (.object
        [("reason", .string "expiry passed without threshold")])) id
  | worker (name : ℕ) (input : Input) (mint : Mint) (job : OutboxJob) (stage : Stage) (op : Op)
      (id : Uuid) (attempt : Attempt) (ht : w.tasks.get? name = some (.worker job stage))
      (hstatement : Worker.statement job stage = some (op, id, attempt)) :
      Asks env w (.advance name input mint) op id

/-- **Who asked for the transition a step commits.** -/
theorem World.asks {env : Env} {w : World} {a : Action} {op : Op} {id : Uuid}
    (h : (w.commits env a).op = some (op, id)) : Asks env w a op id := by
  cases a with
  | retrySettlement id' mint =>
    obtain ⟨rfl, rfl⟩ := Prod.mk.inj (Option.some.inj h)
    exact .operator _ mint
  | advance name input mint =>
    cases ht : w.tasks.get? name with
    | none =>
      rw [World.commits, ht] at h
      cases h
    | some t =>
      rcases hnext : t.next env w.db w.engine input with _ | ⟨write, engine', t'⟩
      · rw [World.commits, ht, Option.bind_some, hnext] at h
        cases h
      · rw [World.commits_advance ht hnext] at h
        rcases Task.next_step hnext with ⟨hstep, -⟩ | ⟨job, stage, stage', rfl, -, hstep⟩
        · cases hstep with
          | indexer event s seen =>
            obtain ⟨op', hop, heq⟩ := Option.map_eq_some_iff.mp h
            obtain ⟨rfl, rfl⟩ := Prod.mk.inj heq
            exact .indexer name input mint event s op' ht hop
          | settle claim job s outcome retries hcounted =>
            obtain ⟨op', hop, heq⟩ := Option.map_eq_some_iff.mp h
            obtain ⟨rfl, rfl⟩ := Prod.mk.inj heq
            exact .settling name input mint claim job s outcome retries op' ht hop
          | reregister s watchId polledAt =>
            obtain ⟨rfl, rfl⟩ := Prod.mk.inj (Option.some.inj h)
            exact .lost name input mint s watchId polledAt ht
          | applyOpen s watchId watch polledAt t' ht' =>
            obtain ⟨op', hop, heq⟩ := Option.map_eq_some_iff.mp h
            obtain ⟨rfl, rfl⟩ := Prod.mk.inj heq
            exact .polled name input mint s watchId watch polledAt op' ht hop
          | resubmit s job =>
            obtain ⟨rfl, rfl⟩ := Prod.mk.inj (Option.some.inj h)
            exact .unknown name input mint s job ht
          | overdue id' =>
            obtain ⟨rfl, rfl⟩ := Prod.mk.inj (Option.some.inj h)
            exact .overdue name input mint _ ht
          | _ => cases h
        · obtain ⟨attempt, hstatement⟩ := hstep.op h
          exact .worker name input mint job stage op id attempt ht hstatement
  | _ => cases h

/-- A report is applied in one statement, and what can be retried has been counted by then. -/
theorem World.commits_settling {env : Env} {w : World} {name : ℕ} {input : Input} {mint : Mint}
    {claim : Option String} {job : Uuid} {s : Deposit} {outcome : SettlementOutcome}
    {retries : Option ℕ} {op : Op} {id : Uuid}
    (ht : w.tasks.get? name = some (.settling claim job s outcome retries))
    (h : (w.commits env (.advance name input mint)).op = some (op, id)) :
    input = .go ∧ s.id = id ∧ settlementOp outcome (retries.getD 0) = some op ∧
      (outcome.isRetryable = true → retries.isSome = true) := by
  rw [World.commits, ht, Option.bind_some] at h
  cases input with
  | go =>
    rw [Task.next] at h
    split at h
    · next hnext =>
      split at hnext
      · obtain rfl := Option.some.inj hnext
        cases h
      · next hcounted =>
        obtain rfl := Option.some.inj hnext
        obtain ⟨op', hop, heq⟩ := Option.map_eq_some_iff.mp h
        obtain ⟨rfl, rfl⟩ := Prod.mk.inj heq
        refine ⟨rfl, rfl, hop, ?_⟩
        intro hretryable
        cases retries with
        | some n => rfl
        | none => exact absurd (by rw [hretryable]; rfl) hcounted
    · cases h
  | _ => cases h

/-! ## The engine -/

/-- The engine answers a key with the job it has for it, or with a new one. -/
theorem Worker.submit_accepted {engine engine' : Engine} {key : String} {job : Uuid}
    (h : Worker.submit engine key (.accepted job) = some engine') : engine'.get? key = some job ∧
      (engine.get? key = some job ∨ job ∉ engine.values) := by
  rw [Worker.submit] at h
  split at h
  · next known hknown =>
    split at h
    · next heq =>
      obtain rfl := Option.some.inj h
      rw [heq] at hknown
      exact ⟨hknown, .inl hknown⟩
    · cases h
  · split at h
    · cases h
    · next hnew =>
      obtain rfl := Option.some.inj h
      exact ⟨KeyMap.get?_put_self _ _ _, .inr hnew⟩

/-- A submission leaves the engine as it was, or gives a new job to a new key. -/
theorem Worker.submit_engine {engine engine' : Engine} {key : String} {reply : Reply}
    (h : Worker.submit engine key reply = some engine') : engine' = engine ∨
      ∃ job, engine.get? key = none ∧ job ∉ engine.values ∧ engine' = engine.put key job := by
  have hcase (job : Uuid) (h : Worker.submit engine key (.accepted job) = some engine') :
      engine' = engine ∨
        ∃ job, engine.get? key = none ∧ job ∉ engine.values ∧ engine' = engine.put key job := by
    rw [Worker.submit] at h
    split at h
    · split at h
      · exact .inl (Option.some.inj h).symm
      · cases h
    · next hnone =>
      split at h
      · cases h
      · next hnew => exact .inr ⟨job, hnone, hnew, (Option.some.inj h).symm⟩
  cases reply with
  | accepted job => exact hcase job h
  | lost job error => exact hcase job h
  | rejected message => exact .inl (Option.some.inj h).symm
  | unavailable message => exact .inl (Option.some.inj h).symm

/-- **What a step does to the engine**: a worker may have it take a new key. -/
theorem step_engine {env : Env} {w w' : World} {a : Action} (h : step env w a = some w') :
    w'.engine = w.engine ∨ ∃ name job d key engineJob,
      w.tasks.get? name = some (.worker job (.submitting d key)) ∧ w.engine.get? key = none ∧
      engineJob ∉ w.engine.values ∧ w'.engine = w.engine.put key engineJob := by
  cases step_cases h with
  | advance name input mint t write engine next ht hnext =>
    rcases Task.next_step hnext with ⟨-, hsame⟩ | ⟨job, stage, stage', rfl, -, hworker⟩
    · exact .inl hsame
    · cases hworker with
      | submit d key reply _ hsubmit =>
        rcases Worker.submit_engine hsubmit with hsame | ⟨engineJob, hnone, hnew, hput⟩
        · exact .inl hsame
        · exact .inr ⟨name, job, d, key, engineJob, ht, hnone, hnew, hput⟩
      | _ => exact .inl rfl
  | _ => exact .inl rfl

end GumServer
