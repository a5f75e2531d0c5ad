import GumServer.Feed
import GumServer.Frame

/-!
# The payer's view is a snapshot

`view` reads the row of a deposit, perhaps several times while it waits, and then its events, and
between the reads anything may be committed. The events are read up to the sequence of the row.
Since a timeline only grows at its end, and its sequences have no gaps, what is found up to there is
what was there when the row was read: the view is the one of that moment.
-/

namespace GumServer

/-! ## Timelines only grow -/

section Timelines

variable {env : Env} {w w' : World} {id : Uuid} {d : Deposit}

/-- What is recorded stays in front. -/
theorem events_prefix (h : Lts.Reaches (step env) Lts.Any w w') : w.db.events <+: w'.db.events := by
  refine h.invariant (P := fun t => w.db.events <+: t.db.events) List.prefix_rfl ?_
  intro t a u _ hprefix _ hstep
  exact hprefix.trans (step_events_append hstep)

/-- A timeline is in the order of its sequences. -/
theorem Reachable.timeline_sorted (h : Reachable env w) (hd : w.db.deposits.get? id = some d) :
    (w.db.timeline id).Pairwise fun a b => a.sequence < b.sequence := by
  rw [← List.pairwise_map, (h.tells hd).sequences]
  exact List.pairwise_lt_range'

/-- The sequences of a timeline are those of its row. -/
theorem Reachable.sequence_le_iff (h : Reachable env w) (hd : w.db.deposits.get? id = some d)
    {n : ℕ} : n ∈ (w.db.timeline id).map DepositEvent.sequence ↔ 1 ≤ n ∧ n ≤ d.eventSeq := by
  rw [(h.tells hd).sequences, List.mem_range'_1]
  omega

/-- **A timeline up to an earlier sequence is the earlier timeline.** -/
theorem Reachable.timeline_through (h : Reachable env w)
    (hrun : Lts.Reaches (step env) Lts.Any w w') (hd : w.db.deposits.get? id = some d) :
    ((w'.db.timeline id).filter fun e => decide (e.sequence ≤ d.eventSeq)) = w.db.timeline id := by
  obtain ⟨new, hevents⟩ := events_prefix hrun
  obtain ⟨d', hd', -⟩ := h.keeps hrun hd
  have htimeline := Db.timeline_append hevents id
  have hsorted := (h.trans hrun).timeline_sorted hd'
  rw [htimeline, List.pairwise_append] at hsorted
  rw [htimeline, List.filter_append]
  have hold : ((w.db.timeline id).filter fun e => decide (e.sequence ≤ d.eventSeq)) =
      w.db.timeline id := by
    refine List.filter_eq_self.mpr ?_
    intro e he
    exact decide_eq_true ((h.sequence_le_iff hd).mp (List.mem_map_of_mem he)).2
  have hnew : ((new.filter fun e => decide (e.depositId = id)).filter fun e =>
      decide (e.sequence ≤ d.eventSeq)) = [] := by
    refine List.filter_eq_nil_iff.mpr ?_
    intro e he hle
    have hone : 1 ≤ d.eventSeq := by
      rw [← h.length_timeline hd]
      exact List.length_pos_iff.mpr (h.timeline_ne_nil hd)
    obtain ⟨last, hlast, hseq⟩ := List.mem_map.mp ((h.sequence_le_iff hd).mpr ⟨hone, Nat.le_refl _⟩)
    have hlt := hsorted.2.2 last hlast e he
    exact absurd (of_decide_eq_true hle) (by omega)
  rw [hold, hnew, List.append_nil]

/-- **The events up to a row's sequence** are those of its own time, in order. -/
theorem Reachable.eventsThrough_eq (h : Reachable env w)
    (hrun : Lts.Reaches (step env) Lts.Any w w') (hd : w.db.deposits.get? id = some d)
    (types : List EventType) : eventsThrough w'.db.events id d.eventSeq types =
      (w.db.timeline id).filter fun e => decide (e.eventType ∈ types) := by
  have hsplit : (w'.db.events.filter fun e => decide (e.depositId = id) &&
      decide (e.sequence ≤ d.eventSeq) && decide (e.eventType ∈ types)) =
      (w.db.timeline id).filter fun e => decide (e.eventType ∈ types) := by
    rw [← h.timeline_through hrun hd, Db.timeline, List.filter_filter, List.filter_filter]
    apply List.filter_congr
    intro e _
    rw [Bool.and_comm, Bool.and_comm (decide (e.depositId = id)), Bool.and_assoc]
  rw [eventsThrough, hsplit]
  refine List.mergeSort_of_pairwise ?_
  refine ((h.timeline_sorted hd).sublist List.filter_sublist).imp ?_
  intro a b hlt
  exact decide_eq_true (Nat.le_of_lt hlt)

end Timelines

/-! ## Readers -/

/-- A row is one that the service had at some time between two states. -/
def SeenSince (env : Env) (start now : World) (id : Uuid) (d : Deposit) : Prop :=
  ∃ w, Lts.Reaches (step env) Lts.Any start w ∧ Lts.Reaches (step env) Lts.Any w now ∧
    w.db.deposits.get? id = some d

/-- The row a reader has. -/
def ReaderStage.row : ReaderStage → Option Deposit
  | .waiting d | .answering d => some d
  | .subscribed | .woken => none

/-- What the readers have was there, since the process started. -/
structure Feed.Seen (env : Env) (start : World) (f : Feed) : Prop where
  world : Lts.Reaches (GumServer.step env) Lts.Any start f.world
  rows : ∀ {name r d}, f.readers.get? name = some r → r.stage.row = some d →
    SeenSince env start f.world r.id d

section Seen

variable {env : Env} {start : World} {f g : Feed} {name : ℕ} {r : Reader} {d : Deposit}

theorem Reader.afterRead_row {d' : Deposit} (h : (r.afterRead d).row = some d') : d' = d := by
  rw [Reader.afterRead] at h
  split at h
  · split at h <;> exact (Option.some.inj h).symm
  · exact (Option.some.inj h).symm

/-- A message leaves a reader the row it has, or none. -/
theorem Reader.recv_row {r' : Reader} (h : r.recv = some r') (hrow : r'.stage.row = some d) :
    r'.id = r.id ∧ r.stage.row = some d := by
  rw [Reader.recv] at h
  split at h
  · obtain rfl := Option.some.inj h
    cases hrow
  · split at h <;> obtain rfl := Option.some.inj h
    · exact ⟨rfl, hrow⟩
    · cases hrow
  · cases h

theorem Feed.Seen.init (env : Env) (start : World) : (Feed.init start).Seen env start where
  world := .refl
  rows h := by cases h

theorem Feed.Seen.put (h : f.Seen env start)
    (hr : ∀ d, r.stage.row = some d → SeenSince env start f.world r.id d) :
    (f.put name r).Seen env start where
  world := h.world
  rows := by
    intro name' r' d hget hrow
    rw [Feed.put, KeyMap.get?_put] at hget
    split at hget
    · obtain rfl := Option.some.inj hget
      exact hr d hrow
    · exact h.rows hget hrow

theorem Feed.Seen.remove (h : f.Seen env start) (name : ℕ) : (f.remove name).Seen env start where
  world := h.world
  rows := by
    intro name' r' d hget hrow
    rw [Feed.remove, KeyMap.get?_erase] at hget
    split at hget
    · cases hget
    · exact h.rows hget hrow

/-- What a reader reads is there. -/
theorem Feed.Seen.read (h : f.Seen env start) (name : ℕ) (r : Reader) :
    (f.read name r).Seen env start := by
  rw [Feed.read]
  split
  · next d hd =>
    refine h.put fun d' hrow => ?_
    obtain rfl := Reader.afterRead_row hrow
    exact ⟨f.world, h.world, .refl, hd⟩
  · exact h.remove name

/-- **One step.** -/
theorem Feed.Seen.step {a : FeedAction} (h : f.Seen env start) (hstep : f.step env a = some g) :
    g.Seen env start := by
  cases a with
  | service a =>
    obtain ⟨w, hservice, rfl⟩ := Option.map_eq_some_iff.mp hstep
    refine ⟨h.world.tail trivial hservice, ?_⟩
    intro name r d hr hrow
    obtain ⟨w₀, hbefore, hafter, hd⟩ := h.rows hr hrow
    exact ⟨w₀, hbefore, hafter.tail trivial hservice, hd⟩
  | lose kept =>
    obtain ⟨-, heq⟩ := Option.ite_none_right_eq_some.mp hstep
    obtain rfl := Option.some.inj heq
    exact ⟨h.world, h.rows⟩
  | relisten =>
    obtain ⟨-, heq⟩ := Option.ite_none_right_eq_some.mp hstep
    obtain rfl := Option.some.inj heq
    exact ⟨h.world, h.rows⟩
  | relay =>
    rw [Feed.step] at hstep
    split at hstep
    · next message rest hqueue =>
      obtain rfl := Option.some.inj hstep
      refine ⟨h.world, ?_⟩
      intro name r' d hget hrow
      rw [Feed.send, KeyMap.get?_map, Option.map_eq_some_iff] at hget
      obtain ⟨r, hr, rfl⟩ := hget
      rw [Reader.push_stage] at hrow
      rw [Reader.push_id]
      exact h.rows hr hrow
    · cases hstep
  | subscribe name id after hold =>
    obtain ⟨-, heq⟩ := Option.ite_none_right_eq_some.mp hstep
    obtain rfl := Option.some.inj heq
    exact h.put fun _ hrow => by cases hrow
  | read name =>
    obtain ⟨r, -, hread⟩ := Option.bind_eq_some_iff.mp hstep
    split at hread
    · obtain rfl := Option.some.inj hread
      exact h.read name r
    · obtain rfl := Option.some.inj hread
      exact h.read name r
    · cases hread
  | recv name =>
    obtain ⟨r, hr, hrecv⟩ := Option.bind_eq_some_iff.mp hstep
    split at hrecv
    · obtain ⟨r', hr', rfl⟩ := Option.map_eq_some_iff.mp hrecv
      refine h.put fun d hrow => ?_
      obtain ⟨hid, hrow'⟩ := Reader.recv_row hr' hrow
      rw [hid]
      exact h.rows hr hrow'
    · cases hrecv
  | timeout name =>
    obtain ⟨r, hr, htimeout⟩ := Option.bind_eq_some_iff.mp hstep
    split at htimeout
    · next d hstage =>
      obtain rfl := Option.some.inj htimeout
      refine h.put fun d' hrow => ?_
      obtain rfl := Option.some.inj hrow
      have hwaiting : r.stage.row = some d := by rw [hstage]; rfl
      have hseen := h.rows hr hwaiting
      exact hseen
    · cases htimeout
  | leave name =>
    obtain rfl := Option.some.inj hstep
    exact h.remove name

end Seen

/-! ## Answers -/

/-- **The payer's view is a snapshot.** Whatever is committed while a request waits, reads and
re-reads, its answer is the view of one state the service was in since the process started: the row
and the events are those of that state. The timeline of the deposit had the sequences from 1 to the
returned one then, the returned events are all of it that a payer sees, in order, and what is on the
timeline up to that sequence at the time of the answer is still the same and leads to the returned
status. -/
theorem payer_view_snapshot (env : Env) (toRfc3339 : DateTime → String) {start : World} {f : Feed}
    (hstart : Reachable env start)
    (h : Lts.Reaches (Feed.step env) Lts.Any (Feed.init start) f) {name : ℕ} {now : DateTime}
    {view : PayerView} (hanswer : f.answer toRfc3339 name now = some view) :
    ∃ w d, Lts.Reaches (step env) Lts.Any start w ∧
      Lts.Reaches (step env) Lts.Any w f.world ∧ w.db.deposits.get? view.id = some d ∧
      view = payerView toRfc3339 w.db.events d now ∧
      view.status = d.status ∧ view.sequence = d.eventSeq ∧
      view.confirmedAmount = d.confirmedAmount ∧ view.failure.map PayerFailure.code = d.failureCode ∧
      (w.db.timeline view.id).map DepositEvent.sequence = List.range' 1 view.sequence ∧
      view.events = ((w.db.timeline view.id).filter fun e =>
        decide (e.eventType ∈ PAYER_EVENTS)).map DepositEvent.payer ∧
      ((f.world.db.timeline view.id).filter fun e => decide (e.sequence ≤ view.sequence)) =
        w.db.timeline view.id ∧
      replay (w.db.timeline view.id) = some view.status := by
  have hseen : f.Seen env start := by
    refine h.invariant (P := fun f => f.Seen env start) (.init env start) ?_
    intro f a g _ hseen _ hstep
    exact hseen.step hstep
  obtain ⟨r, hr, hview⟩ := Option.bind_eq_some_iff.mp hanswer
  split at hview
  · next d hstage =>
    obtain rfl := Option.some.inj hview
    obtain ⟨w, hbefore, hafter, hd⟩ := hseen.rows hr (by rw [hstage]; rfl)
    rw [← Table.key_of_get? hd] at hd
    have hw := hstart.trans hbefore
    have htells := hw.tells hd
    have hevents := hw.eventsThrough_eq hafter hd PAYER_EVENTS
    have hsame := hw.eventsThrough_eq .refl hd PAYER_EVENTS
    refine ⟨w, d, hbefore, hafter, hd, ?_, rfl, rfl, rfl, ?_, htells.sequences, ?_, ?_, htells.status⟩
    · rw [payerView, payerView, hevents, hsame]
    · show (d.failureCode.map PayerFailure.mk).map PayerFailure.code = d.failureCode
      rw [Option.map_map]
      exact Option.map_id'
    · exact congrArg (List.map DepositEvent.payer) hevents
    · exact hw.timeline_through hafter hd
  · cases hview

namespace Fixture

/-- The reader is told of the payment and reads the row again, and the settlement is submitted
before it reads the events. -/
def untilAnswering : List FeedAction := untilNews ++ [
  .relay,
  .recv 0,
  .read 0,
  .service (.claim 1 (mint 1).job),
  .service (.advance 1 (.load requestedAt) (mint 2)),
  .service (.advance 1 (.submit (.accepted 500)) (mint 3)),
  .service (.advance 1 .go (mint 4))]

/-- The sequence of the reader's answer, and how far the deposit is by then. -/
def answered (f : Feed) : Option (ℕ × Option ℕ) :=
  (f.answer (fun _ => "") 0 requestedAt).map fun view =>
    (view.sequence, (f.world.db.deposits.get? 7).map Deposit.eventSeq)

end Fixture

/-- The fixture's deposit has three events when the reader answers with two. -/
theorem payer_view_snapshot_fixture : ∃ (f : Feed) (view : PayerView) (w : World) (d : Deposit),
    Lts.Reaches (Feed.step Fixture.env) Lts.Any (Feed.init (World.init Fixture.requestedAt)) f ∧
    f.answer (fun _ => "") 0 Fixture.requestedAt = some view ∧ view.sequence = 2 ∧
    (f.world.db.deposits.get? 7).map Deposit.eventSeq = some 3 ∧
    w.db.deposits.get? view.id = some d ∧ view.status = d.status ∧ view.sequence = d.eventSeq ∧
    view.events = ((w.db.timeline view.id).filter fun e =>
      decide (e.eventType ∈ PAYER_EVENTS)).map DepositEvent.payer := by
  obtain ⟨f, hf, hfound⟩ : ∃ f, Lts.Reaches (Feed.step Fixture.env) Lts.Any
      (Feed.init (World.init Fixture.requestedAt)) f ∧
      Fixture.answered f = some (2, some 3) :=
    @Lts.exists_reaches_of_run _ _ _ _ _ _ _ Fixture.untilAnswering _ _ (by decide +kernel)
  obtain ⟨view, hanswer, heq⟩ := Option.map_eq_some_iff.mp hfound
  obtain ⟨hsequence, hseq⟩ := Prod.mk.inj heq
  have hstart : Reachable Fixture.env (World.init Fixture.requestedAt) := ⟨_, .refl⟩
  obtain ⟨w, d, -, -, hd, -, hstatus, hsame, -, -, -, hvisible, -⟩ :=
    payer_view_snapshot Fixture.env (fun _ => "") hstart hf hanswer
  exact ⟨f, view, w, d, hf, hanswer, hsequence, hseq, hd, hstatus, hsame, hvisible⟩

end GumServer
