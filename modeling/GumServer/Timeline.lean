import GumServer.Jobs

/-!
# The timeline tells the status

Every transition writes the row in one statement and its event in another, in one transaction. So
the timeline of a deposit is numbered without gaps, and whoever replays it ends at the status of
the row. Both hold because the two statements always come together: what changes a status records
the event that says so, and an event that says so is recorded by nothing else.
-/

namespace GumServer

/-- The status an event leads to, if it leads to one. -/
def EventType.leadsTo : EventType → Option DepositStatus
  | .created => some .pending
  | .detected | .paymentConfirmed => some .partialPaid
  | .ready | .settlementRetried => some .paid
  | .settled => some .settled
  | .failed => some .failed
  | .expired => some .expired
  | .watchRegistered | .watchLost | .reconciled | .paymentOrphaned | .settlementSubmitted
  | .settlementIncluded => none

/-- The status after a timeline: each event leads on, or leaves it as it is. -/
def replay (timeline : List DepositEvent) : Option DepositStatus :=
  timeline.foldl (fun status e => e.eventType.leadsTo.or status) none

@[simp] theorem replay_concat (timeline : List DepositEvent) (e : DepositEvent) :
    replay (timeline ++ [e]) = e.eventType.leadsTo.or (replay timeline) := by
  simp [replay]

/-- A timeline and its row: the sequences are `1, 2, …, event_seq`, and the replay of the events
ends at the status. -/
structure Tells (timeline : List DepositEvent) (d : Deposit) : Prop where
  sequences : timeline.map DepositEvent.sequence = List.range' 1 d.eventSeq
  status : replay timeline = some d.status

namespace Tells

variable {timeline : List DepositEvent} {d d' : Deposit}

theorem of_quiet (h : Tells timeline d) (hquiet : Quiet d d') : Tells timeline d' where
  sequences := by rw [hquiet.eventSeq, h.sequences]
  status := by rw [hquiet.status, h.status]

/-- A new timeline: the first event alone. -/
theorem of_first {e : DepositEvent} (hseq : e.sequence = 1) (htype : e.eventType = .created)
    (hd : d.eventSeq = 1) (hstatus : d.status = .pending) : Tells [e] d where
  sequences := by simp [hseq, hd]
  status := by simp [replay, htype, hstatus, EventType.leadsTo]

end Tells

/-- A transition says what it does: the status it leaves is the one its event leads to. -/
theorem Op.row_status (op : Op) (now : DateTime) {d : Deposit}
    (hguard : op.transition.guard d = true) :
    some (op.transition.row now d).status =
      (op.transition.event.bind fun e => e.1.leadsTo).or (some d.status) := by
  cases op with
  | markEngineSubmitted job replayed => cases replayed <;> rfl
  | resubmit data => exact congrArg some (eq_of_beq hguard)
  | _ => rfl

/-- And it numbers it: the sequence moves with the event. -/
theorem Op.row_eventSeq (op : Op) (now : DateTime) (d : Deposit) :
    (op.transition.row now d).eventSeq = d.eventSeq + op.transition.event.toList.length := by
  rw [Transition.row]
  cases op.transition.event with
  | none => exact op.set_eventSeq now d
  | some e => exact congrArg (· + 1) (op.set_eventSeq now d)

/-- **A transition that hits its row keeps the two together.** -/
theorem Tells.of_hit {timeline : List DepositEvent} {d : Deposit} (h : Tells timeline d) (op : Op)
    (now : DateTime) (mint : Mint) (hguard : op.transition.guard d = true) :
    Tells (timeline ++ (op.transition.event.map fun e =>
      Db.eventOf now mint (op.transition.set now d) e.1 e.2).toList) (op.transition.row now d) := by
  have hstatus := op.row_status now hguard
  have hseq := op.row_eventSeq now d
  cases hevent : op.transition.event with
  | none =>
    rw [hevent] at hstatus hseq
    refine ⟨?_, ?_⟩
    · simpa [hseq] using h.sequences
    · simpa [hstatus] using h.status
  | some e =>
    rw [hevent] at hstatus hseq
    refine ⟨?_, ?_⟩
    · simp [h.sequences, hseq, Db.eventOf, List.range'_concat, Nat.add_comm]
    · simp [h.status, hstatus, Db.eventOf]

/-! ## Along a run -/

section Runs

variable {env : Env} {w : World}

/-- Every event is about a deposit. -/
theorem Reachable.owned (h : Reachable env w) {e : DepositEvent} (he : e ∈ w.db.events) :
    ∃ d, w.db.deposits.get? e.depositId = some d := by
  obtain ⟨clock, hreach⟩ := h
  have hall : ∀ e ∈ w.db.events, ∃ d, w.db.deposits.get? e.depositId = some d := by
    refine hreach.invariant
      (P := fun w => ∀ e ∈ w.db.events, ∃ d, w.db.deposits.get? e.depositId = some d) ?_ ?_
    · intro e he
      cases he
    · intro w a w' hreach howned _ hstep e he
      have hkept : (∃ d, w.db.deposits.get? e.depositId = some d) →
          ∃ d, w'.db.deposits.get? e.depositId = some d :=
        fun ⟨_, hd⟩ => ⟨_, (JobsFit.reachable ⟨clock, hreach⟩).row_after hstep hd⟩
      cases step_db hstep with
      | commit mint hfresh hdb hminted =>
        rw [hdb] at he
        rcases Db.write_events_owner he with he | howner
        · exact hkept (howned e he)
        · exact hkept howner
      | create d mint new user hinsert hfresh hdb hminted hcommits =>
        rw [hdb, World.created_events] at he
        rcases List.mem_append.mp he with he | he
        · exact hkept (howned e he)
        · obtain rfl := List.mem_singleton.mp he
          refine ⟨{ d with eventSeq := d.eventSeq + 1 }, ?_⟩
          rw [hdb, World.created_deposits]
          exact if_pos rfl
      | frame f hdeposits hevents hminted hkeeps houtbox hcommits hclaims =>
        rw [hevents] at he
        exact hkept (howned e he)
  exact hall e he

/-- A new id is on no timeline. -/
theorem Reachable.timeline_eq_nil (h : Reachable env w) {id : Uuid} (hid : id ∉ w.minted) :
    w.db.timeline id = [] := by
  rw [Db.timeline, List.filter_eq_nil_iff]
  intro e he hmem
  obtain ⟨d, hd⟩ := h.owned he
  rw [of_decide_eq_true hmem] at hd
  exact hid ((JobsFit.reachable h).deposits hd)

/-- **The rule for timelines**: what ties a new deposit to its first event, does not depend on
stamps and watches, and is kept by every transition together with its event, ties every deposit to
its timeline in every state of every run. -/
theorem timeline_invariant {ok : World → Action → Prop} {clock : DateTime}
    {P : List DepositEvent → Deposit → Prop}
    (h : Lts.Reaches (step env) ok (World.init clock) w)
    (hnew : ∀ {new id userId now d} (mint : Mint), insertDeposit new id userId now = some d →
      P [Db.eventOf now mint d .created (.object [])] { d with eventSeq := d.eventSeq + 1 })
    (hquiet : ∀ {timeline d d'}, P timeline d → Quiet d d' → P timeline d')
    (hhit : ∀ {w a op d} (mint : Mint), ok w a → (w.commits env a).Hits w.clock op d →
      w.db.deposits.get? d.id = some d → P (w.db.timeline d.id) ((w.commits env a).bound w.clock d) →
      P (w.db.timeline d.id ++ (op.transition.event.map fun e =>
          Db.eventOf w.clock mint (op.transition.set w.clock
            ((w.commits env a).bound w.clock d)) e.1 e.2).toList)
        (op.transition.row w.clock ((w.commits env a).bound w.clock d)))
    {d : Deposit} (hd : w.db.deposits.get? d.id = some d) : P (w.db.timeline d.id) d := by
  have hall : ∀ d, w.db.deposits.get? d.id = some d → P (w.db.timeline d.id) d := by
    refine h.invariant (P := fun w => ∀ d, w.db.deposits.get? d.id = some d →
      P (w.db.timeline d.id) d) ?_ ?_
    · intro d hd
      cases hd
    · intro w a w' hreach hall hok hstep d' hd'
      cases step_db hstep with
      | commit mint hfresh hdb hminted =>
        rw [hdb, Db.write_deposits, Option.map_eq_some_iff] at hd'
        obtain ⟨d, hd, hrow⟩ := hd'
        have hid : d'.id = d.id := (Table.key_of_get? hd).symm
        rw [hid] at hd
        rw [hdb, hid, ← hrow]
        rcases w.db.write_timeline w.clock mint (w.commits env a) hd with
          ⟨hsame, heq⟩ | ⟨op, hhits, heq⟩
        · rw [heq]
          exact hquiet (hall d hd) hsame
        · rw [heq, hhits.row]
          exact hhit mint hok hhits hd (hquiet (hall d hd) ((w.commits env a).quiet_bound _ d))
      | create d mint new user hinsert hfresh hdb hminted hcommits =>
        rw [hdb, World.created_deposits] at hd'
        rw [hdb, World.created_timeline]
        split at hd'
        · next hid =>
          obtain rfl := Option.some.inj hd'
          have hreachable : Reachable env w := ⟨clock, hreach.mono fun _ => trivial⟩
          rw [if_pos rfl, hreachable.timeline_eq_nil
            (JobsFit.not_minted hfresh List.mem_cons_self), List.nil_append]
          exact hnew mint hinsert
        · next hid =>
          rw [if_neg hid, List.append_nil]
          exact hall d' hd'
      | frame f hdeposits hevents hminted hkeeps houtbox hcommits hclaims =>
        rw [hdeposits] at hd'
        rw [Db.timeline, hevents]
        exact hall d' hd'
  exact hall d hd

/-- The timelines tell their rows in every state of every run. -/
theorem Reachable.tells (h : Reachable env w) {id : Uuid} {d : Deposit}
    (hd : w.db.deposits.get? id = some d) : Tells (w.db.timeline id) d := by
  obtain rfl := Table.key_of_get? hd
  obtain ⟨clock, hreach⟩ := h
  refine timeline_invariant hreach ?_ ?_ ?_ hd
  · intro new id userId now d mint hinsert
    have hinserted := Inserted.of_insert hinsert
    have hseq := congrArg (· + 1) hinserted.eventSeq
    exact .of_first hseq rfl hseq hinserted.status
  · intro timeline d d' htells hquiet
    exact htells.of_quiet hquiet
  · intro w a op d mint _ hhits _ htells
    exact htells.of_hit op w.clock mint hhits.guard

/-- Two events of one deposit have two sequences. -/
theorem Reachable.event_ext (h : Reachable env w) {e e' : DepositEvent} (he : e ∈ w.db.events)
    (he' : e' ∈ w.db.events) (hid : e.depositId = e'.depositId) (hseq : e.sequence = e'.sequence) :
    e = e' := by
  obtain ⟨d, hd⟩ := h.owned he
  have hd_id := Table.key_of_get? hd
  rw [← hd_id] at hd
  have hnodup : ((w.db.timeline d.id).map DepositEvent.sequence).Nodup := by
    rw [(h.tells hd).sequences]
    exact List.nodup_range'
  refine List.inj_on_of_nodup_map hnodup ?_ ?_ hseq
  · exact List.mem_filter.mpr ⟨he, decide_eq_true hd_id.symm⟩
  · exact List.mem_filter.mpr ⟨he', decide_eq_true (hid.symm.trans hd_id.symm)⟩

end Runs

/-- **The timeline tells the status.** In every committed state of every run, the sequences on the
timeline of a deposit are `1, …, event_seq`, each once and in order, and replaying the timeline
ends at the deposit's status. -/
theorem timeline_tells_status (env : Env) (w : World) (h : Reachable env w) (id : Uuid)
    (d : Deposit) (hd : w.db.deposits.get? id = some d) :
    (w.db.timeline id).map DepositEvent.sequence = List.range' 1 d.eventSeq ∧
    replay (w.db.timeline id) = some d.status := by
  have htells := h.tells hd
  exact ⟨htells.sequences, htells.status⟩

/-- A deposit that was submitted to the engine: created, ready, submitted, and still `paid`. -/
theorem timeline_tells_status_fixture : ∃ w d, Reachable Fixture.env w ∧
    w.db.deposits.get? 7 = some d ∧ d.eventSeq = 3 ∧ d.status = .paid ∧
    (w.db.timeline 7).map DepositEvent.sequence = List.range' 1 d.eventSeq ∧
    replay (w.db.timeline 7) = some d.status := by
  obtain ⟨w, hw, hfound⟩ : ∃ w, Lts.Reaches (step Fixture.env) Lts.Any
      (World.init Fixture.requestedAt) w ∧
      ((w.db.deposits.get? 7).map fun d => (d.eventSeq, d.status)) = some (3, .paid) :=
    @Lts.exists_reaches_of_run _ _ _ _ _ _ _ Fixture.untilBound _ _ (by decide +kernel)
  obtain ⟨d, hd, heq⟩ := Option.map_eq_some_iff.mp hfound
  obtain ⟨hseq, hstatus⟩ := Prod.mk.inj heq
  have hreach : Reachable Fixture.env w := ⟨_, hw⟩
  exact ⟨w, d, hreach, hd, hseq, hstatus, timeline_tells_status Fixture.env w hreach 7 d hd⟩

end GumServer
