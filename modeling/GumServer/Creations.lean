import GumServer.Frame
import GumServer.Sessions

/-!
# `create_deposit`, statement by statement

A call with an idempotency key first looks the key up, outside of any transaction. If the key is
there, the call is a replay or a conflict. If not, it opens a transaction, inserts its deposit, and
then the key; if somebody else's key is there by now, the call has lost: it rolls back and looks the
key up again. The winner goes on to record the first event and to queue the job that registers the
watch, and commits. Any statement may fail, and a commit may be acknowledged or not.

Calls are sessions next to the rest of the service. What a call has written is nobody else's
business until it commits, except that it stands in the way of others: the insert of a deposit waits
for an uncommitted one of the same address, and the insert of a key for an uncommitted one of the
same key.

A row is minted when it is inserted, and gets the time of its commit like everything else.

The key is inserted before the commit, and an insert waits for an uncommitted one of the same key, so
at most one call is past it at a time (`Sound.alone`), and none while the key is in the table
(`Sound.unclaimed`). The deposit of a row was committed with it and is never deleted
(`Sound.owned`).
-/

namespace GumServer

/-! ## Calls -/

/-- `CreateOutcome`. -/
inductive CreateOutcome : Type where
  | created (d : Deposit) : CreateOutcome
  /-- same key and same request: the original deposit -/
  | replayed (d : Deposit) : CreateOutcome
  /-- same key, different request -/
  | conflict : CreateOutcome

/-- `Idempotency`. -/
structure Idempotency where
  key : String
  fingerprint : List UInt8
deriving DecidableEq

/-- The arguments of a call of `create_deposit`. -/
structure CreateDeposit where
  userId : String
  new : NewDeposit
  idempotency : Option Idempotency
deriving DecidableEq

/-- The primary key of the row it would insert into `idempotency_keys`. -/
def CreateDeposit.slot (args : CreateDeposit) : Option (String × String) :=
  args.idempotency.map fun idem => (args.userId, idem.key)

/-- A row of `idempotency_keys`, under its user and key. -/
structure KeyRow where
  requestHash : List UInt8
  depositId : Uuid
  createdAt : ℤ

/-- The database with the keys. -/
structure Store where
  world : World
  keys : KeyMap (String × String) KeyRow

/-- Where a call is: what its next statement is. -/
inductive CallStage : Type where
  /-- about to look its key up, for the first time or again -/
  | lookup (again : Bool) : CallStage
  /-- its key is there, with its fingerprint: about to load the deposit -/
  | found (again : Bool) (id : Uuid) : CallStage
  /-- about to insert its deposit -/
  | begun : CallStage
  /-- about to insert its key -/
  | inserted (id : Uuid) : CallStage
  /-- about to finish, and to commit -/
  | claimed (id : Uuid) : CallStage
deriving DecidableEq

/-- A call in flight. -/
structure Creation where
  args : CreateDeposit
  stage : CallStage

/-- What a statement meets. -/
inductive CallInput : Type where
  | go : CallInput
  /-- the id of the deposit -/
  | insert (id : Uuid) : CallInput
  /-- the other ids, and what the caller is told if the commit is not acknowledged -/
  | commit (mint : Mint) (lost : Option String) : CallInput
  /-- the statement fails, or waits for too long -/
  | failed (error : String) : CallInput

/-- How a statement of a call ends. -/
abbrev CallTurn : Type := Sessions.Turn Store Creation (Except String CreateOutcome)

namespace Creation

/-- A call as it begins. -/
def start (args : CreateDeposit) : Creation :=
  ⟨args, if args.idempotency.isSome then .lookup false else .begun⟩

variable (c : Creation)

/-- On to the next statement. -/
def on (stage : CallStage) : CallTurn := .on { c with stage := stage }

/-- `lookup_idempotent` comes back with nothing: the call goes on, or has lost a row that is
not there. -/
def nothing (again : Bool) : CallTurn :=
  if again then .leave (.error "idempotency row vanished") else c.on .begun

/-- Whether it has inserted a key that is not committed yet. -/
def holds (slot : String × String) : Bool :=
  match c.stage with
  | .claimed _ => decide (c.args.slot = some slot)
  | _ => false

/-- The deposit it has inserted. -/
def inserted : Option Uuid :=
  match c.stage with
  | .inserted id | .claimed id => some id
  | _ => none

/-- Whether a deposit has to wait for the one it has inserted. -/
def blocks (new : NewDeposit) (id : Uuid) : Bool :=
  c.inserted.any fun id' => decide (id' = id) ||
    (decide (c.args.new.chainId = new.chainId) &&
      decide (c.args.new.paymentAddress = new.paymentAddress))

/-- The rows of `idempotency_keys` after the call with the deposit. -/
def putKey (s : Store) (id : Uuid) : KeyMap (String × String) KeyRow :=
  match c.args.idempotency with
  | none => s.keys
  | some idem =>
    s.keys.put (c.args.userId, idem.key) ⟨idem.fingerprint, id, s.world.clock.toMicros⟩

/-- `INSERT INTO deposits`. -/
def insertDeposit (others : List Creation) (s : Store) (id : Uuid) : Option CallTurn :=
  (GumServer.insertDeposit c.args.new id c.args.userId s.world.clock).bind fun d =>
    if s.world.fresh [id] && s.world.insertable d && !others.any (·.blocks c.args.new id) then
      some (c.on (.inserted id))
    else none

/-- The rest of the transaction, and its commit. -/
def commit (env : Env) (s : Store) (id : Uuid) (mint : Mint) (lost : Option String) :
    Option CallTurn :=
  (GumServer.insertDeposit c.args.new id c.args.userId s.world.clock).bind fun d =>
    (step env s.world (.create c.args.new c.args.userId id mint)).map fun w =>
      .commit ⟨w, c.putKey s id⟩ (match lost with
        | none => .ok (.created d)
        | some error => .error error)

/-- A statement that takes nothing with it. -/
def go (others : List Creation) (s : Store) : Option CallTurn :=
  match c.stage, c.args.idempotency with
  | .lookup again, some idem =>
    match s.keys.get? (c.args.userId, idem.key) with
    | none => some (c.nothing again)
    | some row =>
      if row.requestHash ≠ idem.fingerprint then some (.leave (.ok .conflict))
      else some (c.on (.found again row.depositId))
  | .found again id, _ =>
    match s.world.db.deposits.get? id with
    | some d => some (.leave (.ok (.replayed d)))
    | none => some (c.nothing again)
  | .inserted id, none => some (c.on (.claimed id))
  | .inserted id, some idem =>
    if (s.keys.get? (c.args.userId, idem.key)).isSome then some (c.on (.lookup true))
    else if others.any (·.holds (c.args.userId, idem.key)) then none
    else some (c.on (.claimed id))
  | _, _ => none

/-- **The next statement of a call**, next to the other calls; `none` while it waits. -/
def next (env : Env) (others : List Creation) (s : Store) : CallInput → Option CallTurn
  | .go => c.go others s
  | .insert id => if c.stage = .begun then c.insertDeposit others s id else none
  | .commit mint lost =>
    match c.stage with
    | .claimed id => c.commit env s id mint lost
    | _ => none
  | .failed error => some (.leave (.error error))

/-! ## What the next statement can do -/

variable {env : Env} {others others' : List Creation} {s : Store} {c} {input : CallInput}
  {turn : CallTurn}

/-- How a statement of a call ends, with what it takes. -/
inductive Turned (env : Env) (others : List Creation) (s : Store) (c : Creation) :
    CallTurn → Prop where
  | begun : Turned env others s c (c.on .begun)
  | found (again : Bool) (idem : Idempotency) (row : KeyRow)
      (hidem : c.args.idempotency = some idem)
      (hrow : s.keys.get? (c.args.userId, idem.key) = some row)
      (hsame : row.requestHash = idem.fingerprint) :
      Turned env others s c (c.on (.found again row.depositId))
  | inserted (id : Uuid) : Turned env others s c (c.on (.inserted id))
  | lost : Turned env others s c (c.on (.lookup true))
  | claimed (id : Uuid) (hfree : ∀ {slot}, c.args.slot = some slot →
      s.keys.get? slot = none ∧ others.any (·.holds slot) = false) :
      Turned env others s c (c.on (.claimed id))
  | failed (error : String) : Turned env others s c (.leave (.error error))
  | conflict (idem : Idempotency) (row : KeyRow) (hidem : c.args.idempotency = some idem)
      (hrow : s.keys.get? (c.args.userId, idem.key) = some row)
      (hdiffers : row.requestHash ≠ idem.fingerprint) :
      Turned env others s c (.leave (.ok .conflict))
  | replayed (again : Bool) (id : Uuid) (d : Deposit) (hstage : c.stage = .found again id)
      (hd : s.world.db.deposits.get? id = some d) :
      Turned env others s c (.leave (.ok (.replayed d)))
  | commit (id : Uuid) (mint : Mint) (d : Deposit) (w : World)
      (r : Except String CreateOutcome) (hstage : c.stage = .claimed id)
      (hinsert : GumServer.insertDeposit c.args.new id c.args.userId s.world.clock = some d)
      (hstep : step env s.world (.create c.args.new c.args.userId id mint) = some w)
      (hr : r = .ok (.created d) ∨ ∃ error, r = .error error) :
      Turned env others s c (.commit ⟨w, c.putKey s id⟩ r)

theorem nothing_turned (again : Bool) : Turned env others s c (c.nothing again) := by
  rw [nothing]
  split
  · exact .failed _
  · exact .begun

theorem go_turned (h : c.go others s = some turn) : Turned env others s c turn := by
  rw [go] at h
  split at h
  · next again idem hstage hidem =>
    split at h
    · obtain rfl := Option.some.inj h
      exact nothing_turned again
    · next row hrow =>
      split at h
      · next hdiffers =>
        obtain rfl := Option.some.inj h
        exact .conflict idem row hidem hrow hdiffers
      · next hsame =>
        obtain rfl := Option.some.inj h
        exact .found again idem row hidem hrow (not_not.mp hsame)
  · next _ again id hstage =>
    split at h
    · next d hd =>
      obtain rfl := Option.some.inj h
      exact .replayed again id d hstage hd
    · obtain rfl := Option.some.inj h
      exact nothing_turned again
  · next id hstage hidem =>
    obtain rfl := Option.some.inj h
    refine .claimed id ?_
    intro slot hslot
    rw [CreateDeposit.slot, hidem] at hslot
    cases hslot
  · next id idem hstage hidem =>
    split at h
    · obtain rfl := Option.some.inj h
      exact .lost
    · next hnone =>
      split at h
      · cases h
      · next hfree =>
        obtain rfl := Option.some.inj h
        refine .claimed id ?_
        intro slot hslot
        rw [CreateDeposit.slot, hidem] at hslot
        obtain rfl := Option.some.inj hslot
        exact ⟨by simpa using hnone, Bool.eq_false_of_not_eq_true hfree⟩
  · cases h

/-- **The next statement**, by how it ends. -/
theorem next_turned (h : c.next env others s input = some turn) :
    Turned env others s c turn := by
  cases input with
  | go => exact go_turned h
  | insert id =>
    obtain ⟨-, h⟩ := Option.ite_none_right_eq_some.mp h
    obtain ⟨d, -, h⟩ := Option.bind_eq_some_iff.mp h
    obtain ⟨-, h⟩ := Option.ite_none_right_eq_some.mp h
    obtain rfl := Option.some.inj h
    exact .inserted id
  | commit mint lost =>
    rw [next] at h
    split at h
    · next id hstage =>
      obtain ⟨d, hinsert, h⟩ := Option.bind_eq_some_iff.mp h
      obtain ⟨w, hstep, rfl⟩ := Option.map_eq_some_iff.mp h
      refine .commit id mint d w _ hstage hinsert hstep ?_
      cases lost with
      | none => exact .inl rfl
      | some error => exact .inr ⟨error, rfl⟩
    · cases h
  | failed error =>
    obtain rfl := Option.some.inj h
    exact .failed error

/-- With fewer others it ends the same way. -/
theorem next_mono (hsub : others' ⊆ others) (h : c.next env others s input = some turn) :
    c.next env others' s input = some turn := by
  have hany {p : Creation → Bool} (hnone : ¬ others.any p = true) : others'.any p = false :=
    List.any_eq_false.mpr fun c hc hp => hnone (List.any_eq_true.mpr ⟨c, hsub hc, hp⟩)
  cases input with
  | go =>
    simp only [next, go] at h ⊢
    split at h
    · exact h
    · exact h
    · exact h
    · next id idem hstage hidem =>
      split at h
      · next hsome =>
        rw [if_pos hsome]
        exact h
      · next hnone =>
        split at h
        · cases h
        · next hfree =>
          rw [if_neg hnone, hany hfree]
          exact h
    · cases h
  | insert id =>
    obtain ⟨hstage, h⟩ := Option.ite_none_right_eq_some.mp h
    obtain ⟨d, hd, h⟩ := Option.bind_eq_some_iff.mp h
    obtain ⟨hok, h⟩ := Option.ite_none_right_eq_some.mp h
    rw [Bool.and_eq_true, Bool.not_eq_true'] at hok
    refine Option.ite_none_right_eq_some.mpr ⟨hstage, ?_⟩
    refine Option.bind_eq_some_iff.mpr ⟨d, hd, ?_⟩
    refine Option.ite_none_right_eq_some.mpr ⟨?_, h⟩
    rw [Bool.and_eq_true, Bool.not_eq_true']
    exact ⟨hok.1, hany (by rw [hok.2]; simp)⟩
  | commit mint lost => exact h
  | failed error => exact h

end Creation

/-! ## The service with its calls -/

/-- Whether an action is a call of `create_deposit` all at once. -/
def Action.isCreate : Action → Bool
  | .create _ _ _ _ => true
  | _ => false

/-- What else happens. -/
inductive Background : Type where
  /-- anything but a call of `create_deposit` -/
  | service (a : Action) : Background
  /-- `prune`, as far as the keys go -/
  | prune : Background

/-- A step of everything else. -/
def Background.step (env : Env) (idempotencyTtlSecs : ℤ) (s : Store) : Background → Option Store
  | .service a =>
    if a.isCreate then none else (GumServer.step env s.world a).map fun w => { s with world := w }
  | .prune => some { s with
      keys := s.keys.filter fun e => decide (s.world.ago idempotencyTtlSecs ≤ e.2.createdAt) }

/-- **The service with its calls in flight.** -/
def creations (env : Env) (idempotencyTtlSecs : ℤ) :
    Sessions.System Store Creation Background CreateDeposit CallInput
      (Except String CreateOutcome) where
  rest _ s b := b.step env idempotencyTtlSecs s
  start := Creation.start
  next others s c input := c.next env others s input
  rest_mono := fun _ h => h
  next_mono := Creation.next_mono

/-- The state of the service and of the calls. -/
abbrev Creations : Type := Sessions.State Store Creation

/-- What can happen to them. -/
abbrev CreationAction : Type := Sessions.Action Background CreateDeposit CallInput

/-- Before anything has happened. -/
def Creations.init (clock : DateTime) : Creations :=
  ⟨⟨World.init clock, KeyMap.empty⟩, KeyMap.empty⟩

/-- Whether an action prunes a key. -/
def Creations.prunes (s : Creations) (idempotencyTtlSecs : ℤ) (slot : String × String) :
    CreationAction → Bool
  | .rest .prune => (s.shared.keys.get? slot).any fun row =>
      decide (row.createdAt < s.shared.world.ago idempotencyTtlSecs)
  | _ => false

/-! ## What holds in every state -/

/-- A deposit stays. -/
theorem Reachable.isSome_after {env : Env} {w w' : World} {a : Action} (h : Reachable env w)
    (hstep : step env w a = some w') {id : Uuid} (hid : (w.db.deposits.get? id).isSome = true) :
    (w'.db.deposits.get? id).isSome = true := by
  obtain ⟨d, hd⟩ := Option.isSome_iff_exists.mp hid
  obtain ⟨d', hd', -⟩ := h.keeps (Lts.Reaches.refl.tail trivial hstep) hd
  rw [hd']
  rfl

/-- What it is for a deposit to be created. -/
theorem create_eq_some {env : Env} {w w' : World} {new : NewDeposit} {user : String} {id : Uuid}
    {mint : Mint} (h : step env w (.create new user id mint) = some w') :
    ∃ d, insertDeposit new id user w.clock = some d ∧ d.id = id ∧
      w.fresh (id :: mint.ids) = true ∧ w.insertable d = true ∧
      w' = { w with db := w.created d mint, minted := id :: mint.ids ++ w.minted } := by
  obtain ⟨d, hinsert, h⟩ := Option.bind_eq_some_iff.mp h
  obtain ⟨hok, rfl⟩ := require_eq_some.mp h
  rw [Bool.and_eq_true] at hok
  exact ⟨d, hinsert, (Inserted.of_insert hinsert).id, hok.1, hok.2, rfl⟩

namespace Creation

variable {c : Creation} {s : Store} {id : Uuid} {slot : String × String}

/-- A call holds its own key. -/
theorem slot_of_holds (h : c.holds slot = true) : c.args.slot = some slot := by
  rw [holds] at h
  split at h
  · exact of_decide_eq_true h
  · cases h

theorem holds_of_claimed (hstage : c.stage = .claimed id) (hslot : c.args.slot = some slot) :
    c.holds slot = true := by
  rw [holds, hstage]
  exact decide_eq_true hslot

theorem start_holds (args : CreateDeposit) (slot : String × String) :
    (start args).holds slot = false := by
  rw [start, holds]
  cases args.idempotency.isSome <;> rfl

theorem start_stage_ne (args : CreateDeposit) (again : Bool) (id : Uuid) :
    (start args).stage ≠ .found again id := by
  rw [start]
  cases args.idempotency.isSome <;> exact nofun

theorem putKey_of_ne (h : c.args.slot ≠ some slot) :
    (c.putKey s id).get? slot = s.keys.get? slot := by
  rw [putKey]
  split
  · rfl
  · next idem hidem =>
    refine KeyMap.get?_put_ne _ _ ?_
    rintro rfl
    rw [CreateDeposit.slot, hidem] at h
    exact h rfl

theorem putKey_self {idem : Idempotency} (h : c.args.idempotency = some idem) :
    (c.putKey s id).get? (c.args.userId, idem.key) =
      some ⟨idem.fingerprint, id, s.world.clock.toMicros⟩ := by
  rw [putKey, h]
  exact KeyMap.get?_put_self _ _ _

end Creation

/-- **What holds in every state.** -/
structure Sound (env : Env) (s : Creations) : Prop where
  reachable : Reachable env s.shared.world
  /-- a key that somebody is about to commit is in no row -/
  unclaimed : ∀ {name c slot}, s.sessions.get? name = some c → c.holds slot = true →
    s.shared.keys.get? slot = none
  /-- and nobody else is -/
  alone : ∀ {name name' c c' slot}, s.sessions.get? name = some c →
    s.sessions.get? name' = some c' → c.holds slot = true → c'.holds slot = true → name = name'
  /-- the deposit of a row is there -/
  owned : ∀ {slot row}, s.shared.keys.get? slot = some row →
    (s.shared.world.db.deposits.get? row.depositId).isSome = true
  /-- and the one a call has found -/
  found : ∀ {name c again id}, s.sessions.get? name = some c → c.stage = .found again id →
    (s.shared.world.db.deposits.get? id).isSome = true

namespace Sound

variable {env : Env} {ttl : ℤ} {s t : Creations} {name : ℕ} {c : Creation}

theorem init (clock : DateTime) : Sound env (Creations.init clock) where
  reachable := ⟨clock, .refl⟩
  unclaimed := fun h => nomatch h
  alone := fun h => nomatch h
  owned := fun h => nomatch h
  found := fun h => nomatch h

/-- Without one call. -/
theorem without (h : Sound env s) (name : ℕ) : Sound env (s.without name) where
  reachable := h.reachable
  unclaimed := by
    intro name' c' slot hget
    rw [Sessions.State.without, KeyMap.get?_erase] at hget
    exact h.unclaimed (Option.ite_none_left_eq_some.mp hget).2
  alone := by
    intro name₁ name₂ c₁ c₂ slot hget₁ hget₂
    rw [Sessions.State.without, KeyMap.get?_erase] at hget₁ hget₂
    exact h.alone (Option.ite_none_left_eq_some.mp hget₁).2
      (Option.ite_none_left_eq_some.mp hget₂).2
  owned := h.owned
  found := by
    intro name' c' again id hget
    rw [Sessions.State.without, KeyMap.get?_erase] at hget
    exact h.found (Option.ite_none_left_eq_some.mp hget).2

/-- A call is one statement further. -/
theorem put (h : Sound env s) (hholds : ∀ {slot}, c.holds slot = true →
      s.shared.keys.get? slot = none ∧
        (s.sessions.erase name).values.any (·.holds slot) = false)
    (hfound : ∀ {again id}, c.stage = .found again id →
      (s.shared.world.db.deposits.get? id).isSome = true) :
    Sound env { s with sessions := s.sessions.put name c } := by
  have hother : ∀ {name' c' slot}, name' ≠ name → s.sessions.get? name' = some c' →
      c.holds slot = true → c'.holds slot = false := by
    intro name' c' slot hname hget hslot
    have hmem : c' ∈ (s.sessions.erase name).values := by
      refine KeyMap.mem_values_of_get? (k := name') ?_
      rw [KeyMap.get?_erase_ne _ hname]
      exact hget
    exact Bool.eq_false_of_not_eq_true (List.any_eq_false.mp (hholds hslot).2 c' hmem)
  refine ⟨h.reachable, ?_, ?_, h.owned, ?_⟩
  · intro name' c' slot hget hslot
    rw [KeyMap.get?_put] at hget
    split at hget
    · obtain rfl := Option.some.inj hget
      exact (hholds hslot).1
    · exact h.unclaimed hget hslot
  · intro name₁ name₂ c₁ c₂ slot hget₁ hget₂ hslot₁ hslot₂
    rw [KeyMap.get?_put] at hget₁ hget₂
    split at hget₁
    · next h₁ =>
      obtain rfl := Option.some.inj hget₁
      split at hget₂
      · next h₂ => exact h₁.trans h₂.symm
      · next h₂ =>
        rw [hother h₂ hget₂ hslot₁] at hslot₂
        cases hslot₂
    · next h₁ =>
      split at hget₂
      · obtain rfl := Option.some.inj hget₂
        rw [hother h₁ hget₁ hslot₂] at hslot₁
        cases hslot₁
      · exact h.alone hget₁ hget₂ hslot₁ hslot₂
  · intro name' c' again id hget hstage
    rw [KeyMap.get?_put] at hget
    split at hget
    · obtain rfl := Option.some.inj hget
      exact hfound hstage
    · exact h.found hget hstage

/-- After the commit of a call. -/
theorem committed (h : Sound env s) (hc : s.sessions.get? name = some c) {id : Uuid} {mint : Mint}
    {w : World} (hstage : c.stage = .claimed id)
    (hstep : GumServer.step env s.shared.world (.create c.args.new c.args.userId id mint) = some w) :
    Sound env { s.without name with shared := ⟨w, c.putKey s.shared id⟩ } := by
  have hwithout := h.without name
  refine ⟨h.reachable.tail hstep, ?_, hwithout.alone, ?_, ?_⟩
  · intro name' c' slot hget hslot
    have hne : c.args.slot ≠ some slot := by
      intro hself
      rw [Sessions.State.without, KeyMap.get?_erase] at hget
      obtain ⟨hname, hget⟩ := Option.ite_none_left_eq_some.mp hget
      exact hname (h.alone hget hc hslot (Creation.holds_of_claimed hstage hself))
    show (c.putKey s.shared id).get? slot = none
    rw [Creation.putKey_of_ne hne]
    exact hwithout.unclaimed hget hslot
  · intro slot row hrow
    obtain ⟨d, -, rfl, -, -, rfl⟩ := create_eq_some hstep
    by_cases hself : c.args.slot = some slot
    · obtain ⟨idem, hidem, rfl⟩ := Option.map_eq_some_iff.mp hself
      obtain rfl := Option.some.inj ((Creation.putKey_self hidem).symm.trans hrow)
      show ((s.shared.world.created d mint).deposits.get? d.id).isSome = true
      rw [World.created_deposits, if_pos rfl]
      rfl
    · rw [Creation.putKey_of_ne hself] at hrow
      exact h.reachable.isSome_after hstep (h.owned hrow)
  · intro name' c' again id' hget hstage'
    exact h.reachable.isSome_after hstep (hwithout.found hget hstage')

/-- Everything else goes on. -/
theorem background (h : Sound env s) {b : Background} {store : Store}
    (hstep : b.step env ttl s.shared = some store) : Sound env { s with shared := store } := by
  cases b with
  | service a =>
    obtain ⟨-, hstep⟩ := Option.ite_none_left_eq_some.mp hstep
    obtain ⟨w, hw, rfl⟩ := Option.map_eq_some_iff.mp hstep
    exact ⟨h.reachable.tail hw, h.unclaimed, h.alone,
      fun hrow => h.reachable.isSome_after hw (h.owned hrow),
      fun hget hstage => h.reachable.isSome_after hw (h.found hget hstage)⟩
  | prune =>
    obtain rfl := Option.some.inj hstep
    refine ⟨h.reachable, ?_, h.alone, ?_, h.found⟩
    · intro name c slot hget hslot
      rw [KeyMap.get?_filter, h.unclaimed hget hslot]
      rfl
    · intro slot row hrow
      rw [KeyMap.get?_filter] at hrow
      exact h.owned (Option.filter_eq_some_iff.mp hrow).1

/-- **Every step keeps it so.** -/
theorem step (h : Sound env s) {a : CreationAction}
    (hstep : (creations env ttl).step s a = some t) : Sound env t := by
  cases a with
  | rest b =>
    obtain ⟨store, hstore, rfl⟩ := Option.map_eq_some_iff.mp hstep
    exact h.background hstore
  | start name args =>
    obtain ⟨-, heq⟩ := Option.ite_none_right_eq_some.mp hstep
    obtain rfl := Option.some.inj heq
    refine h.put ?_ ?_
    · intro slot hslot
      exact absurd ((Creation.start_holds args slot).symm.trans hslot) Bool.false_ne_true
    · intro again id hstage
      exact absurd hstage (Creation.start_stage_ne args again id)
  | go name input =>
    obtain ⟨⟨c, turn⟩, hturn, rfl⟩ := Option.map_eq_some_iff.mp hstep
    obtain ⟨_, _, heq, hc, hnext, -⟩ := Sessions.System.turn_eq_some hturn
    obtain ⟨rfl, rfl⟩ := Sessions.Action.go.inj heq
    cases Creation.next_turned hnext with
    | begun => exact h.put (fun hslot => nomatch hslot) (fun hstage => nomatch hstage)
    | found again idem row hidem hrow hsame =>
      refine h.put (fun hslot => nomatch hslot) ?_
      intro again' id hstage
      obtain ⟨-, rfl⟩ := CallStage.found.inj hstage
      exact h.owned hrow
    | inserted id => exact h.put (fun hslot => nomatch hslot) (fun hstage => nomatch hstage)
    | lost => exact h.put (fun hslot => nomatch hslot) (fun hstage => nomatch hstage)
    | claimed id hfree =>
      refine h.put ?_ (fun hstage => nomatch hstage)
      intro slot hslot
      exact hfree (Creation.slot_of_holds (c := { c with stage := .claimed id }) hslot)
    | failed error => exact h.without name
    | conflict idem row hidem hrow hdiffers => exact h.without name
    | replayed again id d hstage hd => exact h.without name
    | commit id mint d w r hstage hinsert hw hr => exact h.committed hc hstage hw
  | quit name =>
    obtain rfl := Option.some.inj hstep
    exact h.without name

theorem ofReaches {clock : DateTime} {ok : Creations → CreationAction → Prop}
    (h : Lts.Reaches (creations env ttl).step ok (Creations.init clock) s) : Sound env s :=
  h.invariant (Sound.init clock) fun _ hs _ hstep => hs.step hstep

end Sound

end GumServer
