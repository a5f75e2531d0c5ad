import GumServer.Payer
import GumServer.Timeline

/-!
# Waiting for a change

`deposit/feed.rs` and the long poll of `deposit/pay.rs`. A transition notifies a channel of the
database in its own transaction, so the notice is there exactly when the change is. One listener a
process relays the notices to a broadcast channel, and a reader that waits for news of its deposit
re-reads the row on each notice of it.

Notices get lost when the listener's connection does. So the listener sends `RESYNC` each time it
listens again, and a reader subscribes before it first reads. Together these leave no gap: whoever
waits while there is news has a notice coming.
-/

namespace GumServer

/-- `feed::RESYNC`: sent in place of an id when notices may have been missed. -/
def RESYNC : Uuid := 0

/-- `feed::CAPACITY`: how far behind a reader may fall. -/
def CAPACITY : ℕ := 1024

/-- `MAX_WAIT_SECS`. -/
def MAX_WAIT_SECS : ℤ := 25

/-- `TIMEOUT_HEADROOM`, in milliseconds. -/
def TIMEOUT_HEADROOM : ℕ := 1000

/-- `hold_for`: how long a request that asked to wait some seconds is held, in milliseconds. -/
def holdFor (requested : Option ℤ) (requestTimeout : ℕ) : ℕ :=
  min (1000 * (max 0 (min (requested.getD 0) MAX_WAIT_SECS)).toNat)
    (requestTimeout - TIMEOUT_HEADROOM)

/-! ## Readers -/

/-- How far `view` has come. -/
inductive ReaderStage : Type where
  /-- it has subscribed, and is to read the row -/
  | subscribed
  /-- it waits for its next message, with the row it read last -/
  | waiting (d : Deposit)
  /-- it was told to re-read -/
  | woken
  /-- it is done waiting, and builds the view of this row -/
  | answering (d : Deposit)
deriving DecidableEq

/-- A request in `view`, with its receiver. -/
structure Reader where
  id : Uuid
  /-- `query.after` -/
  after : Option ℤ
  /-- the most it is held, in milliseconds -/
  hold : ℕ
  stage : ReaderStage
  /-- what its receiver has not handed out yet, oldest first -/
  inbox : List Uuid
  /-- its receiver has lost messages, and is to say so -/
  lagged : Bool
deriving DecidableEq

namespace Reader

variable (r : Reader)

/-- What it does with a row: wait for a newer one, or answer. -/
def afterRead (d : Deposit) : ReaderStage :=
  match r.after with
  | some after => if r.hold ≠ 0 ∧ (d.eventSeq : ℤ) ≤ after then .waiting d else .answering d
  | none => .answering d

/-- A message is broadcast. A full channel forgets its oldest. -/
def push (message : Uuid) : Reader :=
  if r.inbox.length < CAPACITY then { r with inbox := r.inbox ++ [message] }
  else { r with inbox := r.inbox.tail ++ [message], lagged := true }

/-- `changes.recv()` while it waits: its own id, a resync and a lag are reasons to re-read. -/
def recv : Option Reader :=
  match r.lagged, r.inbox with
  | true, _ => some { r with lagged := false, stage := .woken }
  | false, message :: rest =>
    if message ≠ r.id ∧ message ≠ RESYNC then some { r with inbox := rest }
    else some { r with inbox := rest, stage := .woken }
  | false, [] => none

/-- Something in its channel will make it re-read. -/
def Signalled : Prop := r.lagged = true ∨ r.id ∈ r.inbox ∨ RESYNC ∈ r.inbox

end Reader

/-! ## The process -/

/-- Whether the database delivers notices to the listener's session. -/
inductive Phase : Type where
  /-- not connected, or not yet listening -/
  | down
  | listening
deriving DecidableEq

/-- The service's database, and one process that feeds its readers. -/
structure Feed where
  world : World
  phase : Phase
  /-- what the listener is to send, oldest first -/
  queue : List Uuid
  readers : KeyMap ℕ Reader

/-- What can happen. -/
inductive FeedAction : Type where
  /-- the service takes a step, here or on another replica -/
  | service (a : Action) : FeedAction
  /-- the listener's connection is lost, with what was not yet received -/
  | lose (kept : List Uuid) : FeedAction
  /-- the listener is connected and listens, and is to say so -/
  | relisten : FeedAction
  /-- the listener sends what is next -/
  | relay : FeedAction
  /-- `GET /v1/pay/{id}` -/
  | subscribe (name : ℕ) (id : Uuid) (after : Option ℤ) (hold : ℕ) : FeedAction
  /-- `store::get` -/
  | read (name : ℕ) : FeedAction
  | recv (name : ℕ) : FeedAction
  /-- the hold runs out -/
  | timeout (name : ℕ) : FeedAction
  /-- the request is answered, fails or is dropped -/
  | leave (name : ℕ) : FeedAction

/-- The deposits a step notifies of: `record_event` does so with each event. -/
def announced (w w' : World) : List Uuid :=
  (w'.db.events.drop w.db.events.length).map DepositEvent.depositId

namespace Feed

variable (f : Feed)

/-- Every receiver gets a message. -/
def send (message : Uuid) : Feed := { f with readers := f.readers.map (·.push message) }

/-- A reader goes on. -/
def put (name : ℕ) (r : Reader) : Feed := { f with readers := f.readers.put name r }

/-- A reader is gone. -/
def remove (name : ℕ) : Feed := { f with readers := f.readers.erase name }

/-- A reader reads its row; there may be none. -/
def read (name : ℕ) (r : Reader) : Feed :=
  match f.world.db.deposits.get? r.id with
  | some d => f.put name { r with stage := r.afterRead d }
  | none => f.remove name

/-- One step. -/
def step (env : Env) (f : Feed) : FeedAction → Option Feed
  | .service a => (GumServer.step env f.world a).map fun w =>
    { f with
      world := w
      queue := f.queue ++ if f.phase = .listening then announced f.world w else [] }
  | .lose kept => if kept ⊆ f.queue then some { f with phase := .down, queue := kept } else none
  | .relisten =>
    if f.phase = .down then some { f with phase := .listening, queue := f.queue ++ [RESYNC] }
    else none
  | .relay => match f.queue with
    | message :: rest => some { f.send message with queue := rest }
    | [] => none
  | .subscribe name id after hold =>
    if (f.readers.get? name).isNone then
      some (f.put name ⟨id, after, hold, .subscribed, [], false⟩)
    else none
  | .read name => (f.readers.get? name).bind fun r =>
    match r.stage with
    | .subscribed | .woken => some (f.read name r)
    | _ => none
  | .recv name => (f.readers.get? name).bind fun r =>
    match r.stage with
    | .waiting _ => r.recv.map (f.put name)
    | _ => none
  | .timeout name => (f.readers.get? name).bind fun r =>
    match r.stage with
    | .waiting d => some (f.put name { r with stage := .answering d })
    | _ => none
  | .leave name => some (f.remove name)

/-- A process that starts on the database as it is. -/
def init (w : World) : Feed := ⟨w, .down, [], KeyMap.empty⟩

/-- The answer of a reader that is done waiting. -/
def answer (toRfc3339 : DateTime → String) (name : ℕ) (now : DateTime) : Option PayerView :=
  (f.readers.get? name).bind fun r =>
    match r.stage with
    | .answering d => some (payerView toRfc3339 f.world.db.events d now)
    | _ => none

end Feed

/-! ## A change is announced -/

section Announced

variable {env : Env} {w w' : World} {a : Action} {id : Uuid}

/-- A row is numbered as far as its timeline goes. -/
theorem Reachable.length_timeline (h : Reachable env w) {d : Deposit}
    (hd : w.db.deposits.get? id = some d) : (w.db.timeline id).length = d.eventSeq := by
  rw [← List.length_map (f := DepositEvent.sequence), (h.tells hd).sequences, List.length_range']

/-- And every row has a timeline. -/
theorem Reachable.timeline_ne_nil (h : Reachable env w) {d : Deposit}
    (hd : w.db.deposits.get? id = some d) : w.db.timeline id ≠ [] := by
  intro hnil
  have hstatus := (h.tells hd).status
  rw [hnil] at hstatus
  cases hstatus

/-- New events go to the ends of the timelines. -/
theorem Db.timeline_append {db db' : Db} {new : List DepositEvent}
    (h : db.events ++ new = db'.events) (id : Uuid) :
    db'.timeline id = db.timeline id ++ new.filter fun e => decide (e.depositId = id) := by
  rw [Db.timeline, ← h, List.filter_append, Db.timeline]

/-- **A step that moves the sequence of a deposit notifies of it.** -/
theorem mem_announced (hw : Reachable env w) (h : step env w a = some w') {d' : Deposit}
    (hd' : w'.db.deposits.get? id = some d')
    (hmoved : ∀ d, w.db.deposits.get? id = some d → d.eventSeq < d'.eventSeq) :
    id ∈ announced w w' := by
  obtain ⟨new, hevents⟩ := step_events_append h
  have hw' : Reachable env w' := hw.tail h
  have htimeline := Db.timeline_append hevents id
  have hnonempty : (new.filter fun e => decide (e.depositId = id)) ≠ [] := by
    intro hnil
    rw [hnil, List.append_nil] at htimeline
    cases hd : w.db.deposits.get? id with
    | some d =>
      have hlength := hw'.length_timeline hd'
      rw [htimeline, hw.length_timeline hd] at hlength
      exact absurd (hmoved d hd) (by omega)
    | none =>
      obtain ⟨e, he⟩ := List.exists_mem_of_ne_nil _ (hw'.timeline_ne_nil hd')
      rw [htimeline] at he
      obtain ⟨hmem, hid⟩ := List.mem_filter.mp he
      obtain ⟨d, howner⟩ := hw.owned hmem
      rw [of_decide_eq_true hid, hd] at howner
      cases howner
  obtain ⟨e, he⟩ := List.exists_mem_of_ne_nil _ hnonempty
  obtain ⟨hmem, hid⟩ := List.mem_filter.mp he
  rw [announced, ← hevents, List.drop_left]
  exact List.mem_map.mpr ⟨e, hmem, of_decide_eq_true hid⟩

end Announced

/-! ## Nobody waits for nothing -/

/-- There is news of a reader's deposit. -/
def Feed.News (f : Feed) (r : Reader) : Prop :=
  ∃ after d, r.after = some after ∧ f.world.db.deposits.get? r.id = some d ∧
    after < (d.eventSeq : ℤ)

/-- A message for a reader is on its way to it. -/
def Feed.Coming (f : Feed) (r : Reader) : Prop :=
  r.Signalled ∨ (r.id ∈ f.queue ∨ RESYNC ∈ f.queue) ∨ f.phase = .down

/-- Whoever waits while there is news has a message coming. -/
def Feed.Served (f : Feed) : Prop :=
  ∀ ⦃name r d⦄, f.readers.get? name = some r → r.stage = .waiting d → f.News r → f.Coming r

section Served

variable {f g : Feed} {r : Reader}

/-- A message that is broadcast is one more reason, and takes none away. -/
theorem Reader.Signalled.push (h : r.Signalled) (message : Uuid) : (r.push message).Signalled := by
  rw [Reader.push]
  split
  · rcases h with hlagged | hid | hresync
    · exact .inl hlagged
    · exact .inr (.inl (List.mem_append_left _ hid))
    · exact .inr (.inr (List.mem_append_left _ hresync))
  · exact .inl rfl

theorem Reader.signalled_push_self {message : Uuid} (h : message = r.id ∨ message = RESYNC) :
    (r.push message).Signalled := by
  have hlast (xs : List Uuid) : message ∈ xs ++ [message] := by simp
  rw [Reader.push]
  split
  · rcases h with h | h
    · exact .inr (.inl (h ▸ hlast _))
    · exact .inr (.inr (h ▸ hlast _))
  · exact .inl rfl

@[simp] theorem Reader.push_id (message : Uuid) : (r.push message).id = r.id := by
  rw [Reader.push]
  split <;> rfl

@[simp] theorem Reader.push_after (message : Uuid) : (r.push message).after = r.after := by
  rw [Reader.push]
  split <;> rfl

@[simp] theorem Reader.push_stage (message : Uuid) : (r.push message).stage = r.stage := by
  rw [Reader.push]
  split <;> rfl

variable {name : ℕ}

/-- A reader that goes on, when it is served itself. -/
theorem Feed.Served.put (h : f.Served)
    (hr : ∀ d, r.stage = .waiting d → f.News r → f.Coming r) : (f.put name r).Served := by
  intro name' r' d hget hstage hnews
  rw [Feed.put, KeyMap.get?_put] at hget
  split at hget
  · obtain rfl := Option.some.inj hget
    exact hr d hstage hnews
  · exact h hget hstage hnews

theorem Feed.Served.remove (h : f.Served) (name : ℕ) : (f.remove name).Served := by
  intro name' r' d hget hstage hnews
  rw [Feed.remove, KeyMap.get?_erase] at hget
  split at hget
  · cases hget
  · exact h hget hstage hnews

/-- Whoever waits after reading a row has no news: the row is as it read it. -/
theorem Reader.not_news_of_waiting {d d' : Deposit} {stage : ReaderStage}
    (hd : f.world.db.deposits.get? r.id = some d) (hwaiting : r.afterRead d = .waiting d') :
    ¬ f.News { r with stage := stage } := by
  rintro ⟨after, d'', hafter, hd'', hnews⟩
  obtain rfl := Option.some.inj (hd.symm.trans hd'')
  have hafter' : r.after = some after := hafter
  rw [Reader.afterRead, hafter'] at hwaiting
  dsimp only at hwaiting
  split at hwaiting
  · next hread => exact absurd hnews (Int.not_lt.mpr hread.2)
  · cases hwaiting

theorem Feed.Served.read (h : f.Served) (name : ℕ) (r : Reader) : (f.read name r).Served := by
  rw [Feed.read]
  split
  · next d hd =>
    refine h.put fun d' hstage hnews => ?_
    exact absurd hnews (Reader.not_news_of_waiting hd hstage)
  · exact h.remove name

/-- Whoever still waits after a message was not meant by it. -/
theorem Reader.recv_waiting {r' : Reader} {d : Deposit} (h : r.recv = some r')
    (hstage : r'.stage = .waiting d) : ∃ message rest, r.inbox = message :: rest ∧
      message ≠ r.id ∧ message ≠ RESYNC ∧ r' = { r with inbox := rest } := by
  rw [Reader.recv] at h
  split at h
  · obtain rfl := Option.some.inj h
    cases hstage
  · next message rest hlagged hinbox =>
    split at h
    · next hother => exact ⟨message, rest, hinbox, hother.1, hother.2, (Option.some.inj h).symm⟩
    · obtain rfl := Option.some.inj h
      cases hstage
  · cases h

/-- A message for others leaves what is meant for the reader. -/
theorem Reader.Signalled.skip (h : r.Signalled) {message : Uuid} {rest : List Uuid}
    (hinbox : r.inbox = message :: rest) (hid : message ≠ r.id) (hresync : message ≠ RESYNC) :
    ({ r with inbox := rest } : Reader).Signalled := by
  rcases h with hlagged | hmem | hmem
  · exact .inl hlagged
  · rw [hinbox, List.mem_cons] at hmem
    exact .inr (.inl (hmem.resolve_left hid.symm))
  · rw [hinbox, List.mem_cons] at hmem
    exact .inr (.inr (hmem.resolve_left hresync.symm))

theorem Feed.Served.recv {r' : Reader} {d : Deposit} (h : f.Served)
    (hr : f.readers.get? name = some r) (hwaiting : r.stage = .waiting d)
    (hrecv : r.recv = some r') : (f.put name r').Served := by
  refine h.put fun d' hstage hnews => ?_
  obtain ⟨message, rest, hinbox, hid, hresync, rfl⟩ := Reader.recv_waiting hrecv hstage
  rcases h hr hwaiting hnews with hsignalled | hqueue | hdown
  · exact .inl (hsignalled.skip hinbox hid hresync)
  · exact .inr (.inl hqueue)
  · exact .inr (.inr hdown)

/-- What the listener sends is in the channels of all. -/
theorem Feed.Served.relay (h : f.Served) {message : Uuid} {rest : List Uuid}
    (hqueue : f.queue = message :: rest) : ({ f.send message with queue := rest } : Feed).Served := by
  intro name' r' d hget hstage hnews
  rw [Feed.send, KeyMap.get?_map, Option.map_eq_some_iff] at hget
  obtain ⟨r, hr, rfl⟩ := hget
  rw [Reader.push_stage] at hstage
  have hnews' : f.News r := by
    obtain ⟨after, d'', hafter, hd'', hlt⟩ := hnews
    rw [Reader.push_after] at hafter
    rw [Reader.push_id] at hd''
    exact ⟨after, d'', hafter, hd'', hlt⟩
  rw [Feed.Coming, Reader.push_id]
  rcases h hr hstage hnews' with hsignalled | hmem | hdown
  · exact .inl (hsignalled.push message)
  · -- it was next, or is in the rest
    rw [hqueue, List.mem_cons, List.mem_cons] at hmem
    rcases hmem with (hid | hid) | (hresync | hresync)
    · exact .inl (Reader.signalled_push_self (.inl hid.symm))
    · exact .inr (.inl (.inl hid))
    · exact .inl (Reader.signalled_push_self (.inr hresync.symm))
    · exact .inr (.inl (.inr hresync))
  · exact .inr (.inr hdown)

/-- News is announced, or there is nobody to announce it to. -/
theorem Feed.Served.service {env : Env} {a : Action} {w : World} (h : f.Served)
    (hw : Reachable env f.world) (hstep : GumServer.step env f.world a = some w) :
    ({ f with
      world := w
      queue := f.queue ++ if f.phase = .listening then announced f.world w else [] } :
      Feed).Served := by
  intro name r d hr hstage hnews
  by_cases hold : f.News r
  · rcases h hr hstage hold with hsignalled | hmem | hdown
    · exact .inl hsignalled
    · exact .inr (.inl (hmem.imp (List.mem_append_left _) (List.mem_append_left _)))
    · exact .inr (.inr hdown)
  · cases hphase : f.phase with
    | down => exact .inr (.inr rfl)
    | listening =>
      obtain ⟨after, d', hafter, hd', hlt⟩ := hnews
      have hannounced : r.id ∈ announced f.world w := by
        refine mem_announced hw hstep hd' fun d₀ hd₀ => ?_
        have hread : ¬ after < (d₀.eventSeq : ℤ) := fun hlt₀ => hold ⟨after, d₀, hafter, hd₀, hlt₀⟩
        omega
      refine .inr (.inl (.inl ?_))
      rw [if_pos rfl]
      exact List.mem_append_right _ hannounced

/-- **One step.** -/
theorem Feed.Served.step {env : Env} {a : FeedAction} (h : f.Served) (hw : Reachable env f.world)
    (hstep : f.step env a = some g) : Reachable env g.world ∧ g.Served := by
  cases a with
  | service a =>
    obtain ⟨w, hservice, rfl⟩ := Option.map_eq_some_iff.mp hstep
    exact ⟨hw.tail hservice, h.service hw hservice⟩
  | lose kept =>
    obtain ⟨-, heq⟩ := Option.ite_none_right_eq_some.mp hstep
    obtain rfl := Option.some.inj heq
    exact ⟨hw, fun _ _ _ _ _ _ => .inr (.inr rfl)⟩
  | relisten =>
    obtain ⟨-, heq⟩ := Option.ite_none_right_eq_some.mp hstep
    obtain rfl := Option.some.inj heq
    exact ⟨hw, fun _ _ _ _ _ _ => .inr (.inl (.inr (by simp)))⟩
  | relay =>
    rw [Feed.step] at hstep
    split at hstep
    · next message rest hqueue =>
      obtain rfl := Option.some.inj hstep
      exact ⟨hw, h.relay hqueue⟩
    · cases hstep
  | subscribe name id after hold =>
    obtain ⟨-, heq⟩ := Option.ite_none_right_eq_some.mp hstep
    obtain rfl := Option.some.inj heq
    exact ⟨hw, h.put fun _ hstage => by cases hstage⟩
  | read name =>
    obtain ⟨r, -, hread⟩ := Option.bind_eq_some_iff.mp hstep
    have hworld : (f.read name r).world = f.world := by
      rw [Feed.read]
      split <;> rfl
    split at hread
    · obtain rfl := Option.some.inj hread
      exact ⟨hworld ▸ hw, h.read name r⟩
    · obtain rfl := Option.some.inj hread
      exact ⟨hworld ▸ hw, h.read name r⟩
    · cases hread
  | recv name =>
    obtain ⟨r, hr, hrecv⟩ := Option.bind_eq_some_iff.mp hstep
    split at hrecv
    · next d hstage =>
      obtain ⟨r', hr', rfl⟩ := Option.map_eq_some_iff.mp hrecv
      exact ⟨hw, h.recv hr hstage hr'⟩
    · cases hrecv
  | timeout name =>
    obtain ⟨r, -, htimeout⟩ := Option.bind_eq_some_iff.mp hstep
    split at htimeout
    · obtain rfl := Option.some.inj htimeout
      exact ⟨hw, h.put fun _ hstage => by cases hstage⟩
    · cases htimeout
  | leave name =>
    obtain rfl := Option.some.inj hstep
    exact ⟨hw, h.remove name⟩

end Served

/-! ## Runs -/

/-- **No wake-up is lost.** Whenever a reader waits while the sequence of its deposit is past what
it has, its channel holds the deposit's id, a resync or a lag; or the listener is to send the id or
a resync; or the listener is down, and is to send a resync as soon as it listens again. -/
theorem no_lost_wakeup (env : Env) {w : World} {f : Feed} (hw : Reachable env w)
    (h : Lts.Reaches (Feed.step env) Lts.Any (Feed.init w) f) {name : ℕ} {r : Reader}
    {d d' : Deposit} {after : ℤ} (hr : f.readers.get? name = some r)
    (hwaiting : r.stage = .waiting d) (hafter : r.after = some after)
    (hd : f.world.db.deposits.get? r.id = some d') (hnews : after < (d'.eventSeq : ℤ)) :
    (r.lagged = true ∨ r.id ∈ r.inbox ∨ RESYNC ∈ r.inbox) ∨
      (r.id ∈ f.queue ∨ RESYNC ∈ f.queue) ∨
      (f.phase = .down ∧ ∃ g, f.step env .relisten = some g ∧ RESYNC ∈ g.queue) := by
  have hserved : Reachable env f.world ∧ f.Served := by
    refine h.invariant (P := fun f => Reachable env f.world ∧ f.Served) ⟨hw, ?_⟩ ?_
    · intro name r d hget
      cases hget
    · intro f a g _ hinv _ hstep
      exact hinv.2.step hinv.1 hstep
  rcases hserved.2 hr hwaiting ⟨after, d', hafter, hd, hnews⟩ with hsignalled | hqueue | hdown
  · exact .inl hsignalled
  · exact .inr (.inl hqueue)
  · refine .inr (.inr ⟨hdown, _, if_pos hdown, ?_⟩)
    simp

namespace Fixture

/-- A reader waits for the payment of the fixture's deposit, and the payment is recorded. -/
def untilNews : List FeedAction := [
  .relisten, .relay,
  .service (.setUser "user" none),
  .service (.create new "user" 7 (mint 0)),
  .relay,
  .subscribe 0 7 (some 1) (holdFor (some 25) 10000),
  .read 0,
  .service (.indexerEvent 0 thresholdReached (some 7)),
  .service (.advance 0 .go (mint 1))]

/-- Of a reader that waits: what it has, what there is, and what is on its way. -/
def waitingFor (f : Feed) : Option (ℤ × ℕ × List Uuid) :=
  match f.readers.get? 0 with
  | some ⟨7, some after, _, .waiting _, [], false⟩ =>
    (f.world.db.deposits.get? 7).map fun d => (after, d.eventSeq, f.queue)
  | _ => none

theorem exists_of_waitingFor {f : Feed} {after : ℤ} {seq : ℕ} {queue : List Uuid}
    (h : waitingFor f = some (after, seq, queue)) : ∃ r d d',
      f.readers.get? 0 = some r ∧ r.stage = .waiting d ∧ r.id = 7 ∧ r.after = some after ∧
      f.world.db.deposits.get? r.id = some d' ∧ d'.eventSeq = seq ∧ f.queue = queue := by
  rw [waitingFor] at h
  split at h
  · next d hr =>
    obtain ⟨d', hd', heq⟩ := Option.map_eq_some_iff.mp h
    obtain ⟨rfl, hrest⟩ := Prod.mk.inj heq
    obtain ⟨rfl, rfl⟩ := Prod.mk.inj hrest
    exact ⟨_, _, d', hr, rfl, rfl, rfl, hd', rfl, rfl⟩
  · cases h

end Fixture

/-- The payment is recorded as event 2, and the listener is to say so. -/
theorem no_lost_wakeup_fixture : ∃ f r d d',
    Lts.Reaches (Feed.step Fixture.env) Lts.Any (Feed.init (World.init Fixture.requestedAt)) f ∧
    f.readers.get? 0 = some r ∧ r.stage = .waiting d ∧ r.after = some 1 ∧
    f.world.db.deposits.get? r.id = some d' ∧ d'.eventSeq = 2 ∧ f.queue = [7] ∧
    ((r.lagged = true ∨ r.id ∈ r.inbox ∨ RESYNC ∈ r.inbox) ∨
      (r.id ∈ f.queue ∨ RESYNC ∈ f.queue) ∨
      (f.phase = .down ∧ ∃ g, f.step Fixture.env .relisten = some g ∧ RESYNC ∈ g.queue)) := by
  obtain ⟨f, hf, hfound⟩ : ∃ f, Lts.Reaches (Feed.step Fixture.env) Lts.Any
      (Feed.init (World.init Fixture.requestedAt)) f ∧
      Fixture.waitingFor f = some (1, 2, [7]) :=
    @Lts.exists_reaches_of_run _ _ _ _ _ _ _ Fixture.untilNews _ _ (by decide +kernel)
  obtain ⟨r, d, d', hr, hwaiting, -, hafter, hd', hseq, hqueue⟩ :=
    Fixture.exists_of_waitingFor hfound
  have hw : Reachable Fixture.env (World.init Fixture.requestedAt) := ⟨_, .refl⟩
  exact ⟨f, r, d, d', hf, hr, hwaiting, hafter, hd', hseq, hqueue,
    no_lost_wakeup Fixture.env hw hf hr hwaiting hafter hd' (by rw [hseq]; decide)⟩

end GumServer
