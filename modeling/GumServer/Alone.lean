import GumServer.Creations

/-!
# Calls under one key, alone

Calls under other keys, and whatever else happens to deposits, have no part in what a call is told.
From any run, take the steps of the calls under one key, the clock, the users and the prunes: what is
left is a run in which these calls get the very same answers (`Alike.trace`).

Taking the others away takes nothing away that a call needs. What it reads is the row of its key and
the deposit of that row, which a call under the same key has committed (`Alike.key`); a deposit that
is not there and an id that is not minted stand in nobody's way (`Alike.deposits`, `Alike.minted`).
-/

namespace GumServer

/-! ## What the service leaves alone -/

namespace Db

variable {db : Db} {now : DateTime} {mint : Mint}

theorem recordEvent_users {d : Deposit} (type : EventType) (data : Value) (snapshot : Deposit) :
    (db.recordEvent now mint d type data snapshot).users = db.users := by
  rw [recordEvent]
  split
  · split <;> rfl
  · rfl

theorem queue_users (id : Uuid) (job : Option Payload) :
    (db.queue now mint id job).users = db.users := by
  cases job <;> rfl

theorem commit_users (t : Transition) (d : Deposit) :
    (db.commit now mint t d).users = db.users := by
  rw [commit]
  split
  · rfl
  · rw [queue_users, recordEvent_users]
    rfl

theorem write_users (write : Write) : (db.write now mint write).users = db.users := by
  cases write with
  | tx tx =>
    have hbound : (db.bound now tx).users = db.users := by
      obtain ⟨_ | _, _ | _, op⟩ := tx <;> rfl
    rw [Db.write]
    rcases db.transact_cases now mint tx with h | ⟨op, d, -, -, -, h⟩
    · rw [h, hbound]
    · rw [h, commit_users, hbound]
  | _ => rfl

end Db

theorem World.created_users (w : World) (d : Deposit) (mint : Mint) :
    (w.created d mint).users = w.db.users := by
  rw [World.created_eq]
  rfl

/-- Only the clock changes the time. -/
theorem step_clock_eq {env : Env} {w w' : World} {a : Action} (h : step env w a = some w')
    (ha : ∀ now, a ≠ .tick now) : w'.clock = w.clock := by
  cases step_cases h with
  | tick now hlater => exact absurd rfl (ha now)
  | _ => rfl

/-- And only `setUser` the users. -/
theorem step_users {env : Env} {w w' : World} {a : Action} (h : step env w a = some w')
    (ha : ∀ user url, a ≠ .setUser user url) : w'.db.users = w.db.users := by
  cases step_cases h with
  | setUser user url => exact absurd rfl (ha user url)
  | advance task input mint t write engine next ht hnext hfresh => exact Db.write_users write
  | retrySettlement id mint hfresh => exact Db.write_users (.tx (.of .retrySettlement id))
  | create new user d mint hinsert hfresh hinsertable => exact w.created_users d mint
  | _ => rfl

/-! ## Two databases under one key -/

/-- **A database and what is left of it** for the calls under one key. -/
structure Alike (slot : String × String) (s u : Store) : Prop where
  clock : u.world.clock = s.world.clock
  users : u.world.db.users = s.world.db.users
  minted : u.world.minted ⊆ s.world.minted
  /-- a deposit that is left has its address -/
  deposits : ∀ {id d}, u.world.db.deposits.get? id = some d → ∃ d',
    s.world.db.deposits.get? id = some d' ∧ d'.chainId = d.chainId ∧
      d'.paymentAddress = d.paymentAddress
  key : u.keys.get? slot = s.keys.get? slot

section Alike

variable {slot : String × String} {s s' u : Store} {env : Env} {ttl : ℤ}

/-- Ids that are new are new to what is left. -/
theorem Alike.fresh (h : Alike slot s u) {ids : List Uuid} (hfresh : s.world.fresh ids = true) :
    u.world.fresh ids = true := by
  rw [World.fresh, Bool.and_eq_true, List.all_eq_true] at hfresh ⊢
  refine ⟨hfresh.1, ?_⟩
  intro id hid
  have hnew := hfresh.2 id hid
  simp only [Bool.not_eq_true', List.contains_eq_mem, decide_eq_false_iff_not] at hnew ⊢
  exact fun hmem => hnew (h.minted hmem)

/-- And so is an address. -/
theorem Alike.insertable (h : Alike slot s u) {d : Deposit} (hok : s.world.insertable d = true) :
    u.world.insertable d = true := by
  rw [World.insertable, Bool.and_eq_true, Bool.not_eq_true', List.any_eq_false] at hok ⊢
  refine ⟨h.users.symm ▸ hok.1, ?_⟩
  intro other hother hsame
  obtain ⟨d', hd', hchain, haddress⟩ := h.deposits (Table.get?_of_mem hother)
  refine hok.2 d' (Table.mem_of_get? hd') ?_
  rw [hchain, haddress]
  exact hsame

/-- **The service goes on**, and the clock stands still. -/
theorem Alike.service (h : Alike slot s u) (hs : Reachable env s.world) {a : Action} {w : World}
    (hstep : step env s.world a = some w) (htick : ∀ now, a ≠ .tick now)
    (huser : ∀ user url, a ≠ .setUser user url) : Alike slot { s with world := w } u where
  clock := h.clock.trans (step_clock_eq hstep htick).symm
  users := h.users.trans (step_users hstep huser).symm
  minted := fun _ hid => JobsFit.minted_mono hstep (h.minted hid)
  deposits := by
    intro id d hd
    obtain ⟨d', hd', hchain, haddress⟩ := h.deposits hd
    obtain ⟨d'', hd'', hkeeping⟩ := hs.keeps (Lts.Reaches.refl.tail trivial hstep) hd'
    refine ⟨d'', hd'', ?_, ?_⟩
    · exact (congrArg FixedTerms.chainId hkeeping.fixedTerms).trans hchain
    · exact (congrArg FixedTerms.paymentAddress hkeeping.fixedTerms).trans haddress
  key := h.key

/-- A key of somebody else is written. -/
theorem Alike.otherKey (h : Alike slot s u) {keys : KeyMap (String × String) KeyRow}
    (hkey : keys.get? slot = s.keys.get? slot) : Alike slot { s with keys := keys } u :=
  ⟨h.clock, h.users, h.minted, h.deposits, h.key.trans hkey.symm⟩

/-- **A call under the key commits**, in both. -/
theorem Alike.create (h : Alike slot s u) {new : NewDeposit} {user : String} {id : Uuid}
    {mint : Mint} {w : World} (hstep : step env s.world (.create new user id mint) = some w)
    {keys keys' : KeyMap (String × String) KeyRow} (hkey : keys'.get? slot = keys.get? slot) :
    ∃ w', step env u.world (.create new user id mint) = some w' ∧
      Alike slot ⟨w, keys⟩ ⟨w', keys'⟩ := by
  obtain ⟨d, hinsert, rfl, hfresh, hinsertable, rfl⟩ := create_eq_some hstep
  refine ⟨{ u.world with
    db := u.world.created d mint, minted := d.id :: mint.ids ++ u.world.minted }, ?_, ?_⟩
  · refine Option.bind_eq_some_iff.mpr ⟨d, h.clock.symm ▸ hinsert, require_eq_some.mpr ⟨?_, rfl⟩⟩
    rw [Bool.and_eq_true]
    exact ⟨h.fresh hfresh, h.insertable hinsertable⟩
  · refine ⟨h.clock, ?_, ?_, ?_, hkey⟩
    · exact (u.world.created_users d mint).trans
        (h.users.trans (s.world.created_users d mint).symm)
    · exact List.append_subset.mpr ⟨List.subset_append_left _ _,
        fun _ hid => List.mem_append_right _ (h.minted hid)⟩
    · intro id d' hd'
      rw [World.created_deposits] at hd' ⊢
      split at hd'
      · next hid =>
        obtain rfl := Option.some.inj hd'
        exact ⟨_, if_pos hid, rfl, rfl⟩
      · next hid =>
        rw [if_neg hid]
        exact h.deposits hd'

end Alike

/-! ## What a call is told -/

/-- Whether a deposit is a replay, and which one it is. -/
def CreateOutcome.answer : CreateOutcome → Option (Bool × Uuid)
  | .created d => some (false, d.id)
  | .replayed d => some (true, d.id)
  | .conflict => none

/-- **Turns that are the same to the call.** -/
inductive TurnAlike (slot : String × String) : CallTurn → CallTurn → Prop where
  | on (c : Creation) : TurnAlike slot (.on c) (.on c)
  | leave {r r' : Except String CreateOutcome}
      (h : r'.map CreateOutcome.answer = r.map CreateOutcome.answer) :
      TurnAlike slot (.leave r) (.leave r')
  | commit {s u : Store} (r : Except String CreateOutcome) (h : Alike slot s u) :
      TurnAlike slot (.commit s r) (.commit u r)

theorem Alike.refl (slot : String × String) (s : Store) : Alike slot s s :=
  ⟨rfl, rfl, List.Subset.refl _, fun hd => ⟨_, hd, rfl, rfl⟩, rfl⟩

theorem TurnAlike.refl (slot : String × String) (turn : CallTurn) : TurnAlike slot turn turn := by
  cases turn with
  | on c => exact .on c
  | leave r => exact .leave rfl
  | commit s r => exact .commit r (.refl slot s)

section Next

variable {slot : String × String} {s u : Store} {env : Env} {others : List Creation}
  {c : Creation} {input : CallInput} {turn : CallTurn}

/-- A statement that reads finds the same. -/
theorem Alike.go (h : Alike slot s u) (hslot : c.args.slot = some slot)
    (hfound : ∀ {again id}, c.stage = .found again id →
      (u.world.db.deposits.get? id).isSome = true)
    (hgo : c.go others s = some turn) :
    ∃ turn', c.go others u = some turn' ∧ TurnAlike slot turn turn' := by
  obtain ⟨idem, hidem, rfl⟩ := Option.map_eq_some_iff.mp hslot
  cases hstage : c.stage with
  | lookup again =>
    have hsame : c.go others u = c.go others s := by
      simp only [Creation.go, hstage, hidem, h.key]
    exact ⟨turn, hsame.trans hgo, .refl _ _⟩
  | found again id =>
    obtain ⟨d, hd⟩ := Option.isSome_iff_exists.mp (hfound hstage)
    obtain ⟨d', hd', -⟩ := h.deposits hd
    simp only [Creation.go, hstage, hidem, hd', Option.some.injEq] at hgo
    subst hgo
    refine ⟨.leave (.ok (.replayed d)), ?_, .leave ?_⟩
    · simp only [Creation.go, hstage, hidem, hd]
    · have hid : d.id = d'.id := (Table.key_of_get? hd).trans (Table.key_of_get? hd').symm
      simp only [Except.map, CreateOutcome.answer, hid]
  | begun =>
    rw [Creation.go, hstage] at hgo
    cases hgo
  | inserted id =>
    have hsame : c.go others u = c.go others s := by
      simp only [Creation.go, hstage, hidem, h.key]
    exact ⟨turn, hsame.trans hgo, .refl _ _⟩
  | claimed id =>
    rw [Creation.go, hstage] at hgo
    cases hgo

/-- A call keeps its arguments. -/
theorem Creation.args_of_on {c' : Creation} (h : c.next env others s input = some (.on c')) :
    c'.args = c.args := by
  cases Creation.next_turned h <;> rfl

/-- The row of the key is the same in both. -/
theorem Alike.putKey (h : Alike slot s u) (hslot : c.args.slot = some slot) (id : Uuid) :
    (c.putKey u id).get? slot = (c.putKey s id).get? slot := by
  obtain ⟨idem, hidem, rfl⟩ := Option.map_eq_some_iff.mp hslot
  rw [Creation.putKey_self hidem, Creation.putKey_self hidem, h.clock]

/-- **The next statement of a call under the key** ends the same way. -/
theorem Alike.next (h : Alike slot s u) (hslot : c.args.slot = some slot)
    (hfound : ∀ {again id}, c.stage = .found again id →
      (u.world.db.deposits.get? id).isSome = true)
    (hnext : c.next env others s input = some turn) :
    ∃ turn', c.next env others u input = some turn' ∧ TurnAlike slot turn turn' := by
  cases input with
  | go => exact h.go hslot hfound hnext
  | insert id =>
    obtain ⟨hstage, hnext⟩ := Option.ite_none_right_eq_some.mp hnext
    obtain ⟨d, hd, hnext⟩ := Option.bind_eq_some_iff.mp hnext
    obtain ⟨hok, hnext⟩ := Option.ite_none_right_eq_some.mp hnext
    rw [Bool.and_eq_true, Bool.and_eq_true] at hok
    refine ⟨turn, Option.ite_none_right_eq_some.mpr ⟨hstage, ?_⟩, .refl _ _⟩
    refine Option.bind_eq_some_iff.mpr ⟨d, h.clock.symm ▸ hd, ?_⟩
    refine Option.ite_none_right_eq_some.mpr ⟨?_, hnext⟩
    rw [Bool.and_eq_true, Bool.and_eq_true]
    exact ⟨⟨h.fresh hok.1.1, h.insertable hok.1.2⟩, hok.2⟩
  | commit mint lost =>
    rw [Creation.next] at hnext ⊢
    split at hnext
    · next id hstage =>
      obtain ⟨d, hd, hnext⟩ := Option.bind_eq_some_iff.mp hnext
      obtain ⟨w, hw, rfl⟩ := Option.map_eq_some_iff.mp hnext
      obtain ⟨w', hw', halike⟩ := h.create hw (h.putKey hslot id)
      refine ⟨_, ?_, .commit _ halike⟩
      refine Option.bind_eq_some_iff.mpr ⟨d, h.clock.symm ▸ hd, ?_⟩
      exact Option.map_eq_some_iff.mpr ⟨w', hw', rfl⟩
    · cases hnext
  | failed error => exact ⟨turn, hnext, .refl _ _⟩

end Next

/-! ## Two runs under one key -/

/-- Whether a call is under a key. -/
def Creation.isUnder (slot : String × String) (c : Creation) : Bool :=
  decide (c.args.slot = some slot)

/-- The calls under a key, among all. -/
def Under (slot : String × String) (all left : KeyMap ℕ Creation) : Prop :=
  ∀ name, left.get? name = (all.get? name).filter (·.isUnder slot)

namespace Under

variable {slot : String × String} {all left : KeyMap ℕ Creation} {name : ℕ} {c : Creation}

theorem get?_eq_some (h : Under slot all left) :
    left.get? name = some c ↔ all.get? name = some c ∧ c.args.slot = some slot := by
  rw [h name, Option.filter_eq_some_iff]
  exact and_congr_right fun _ => decide_eq_true_iff

theorem get?_eq_none (h : Under slot all left) (hc : all.get? name = some c)
    (hslot : c.args.slot ≠ some slot) : left.get? name = none := by
  rw [h name, hc, Option.filter_some, if_neg]
  exact fun hunder => hslot (of_decide_eq_true hunder)

theorem get?_of_none (h : Under slot all left) (hc : all.get? name = none) :
    left.get? name = none := by
  rw [h name, hc]
  rfl

/-- The others are fewer. -/
theorem values_subset (h : Under slot all left) (name : ℕ) :
    (left.erase name).values ⊆ (all.erase name).values := by
  intro c hc
  obtain ⟨name', hget⟩ := KeyMap.exists_get?_of_mem_values hc
  rw [KeyMap.get?_erase] at hget
  obtain ⟨hne, hget⟩ := Option.ite_none_left_eq_some.mp hget
  refine KeyMap.mem_values_of_get? (k := name') ?_
  rw [KeyMap.get?_erase_ne _ hne]
  exact (h.get?_eq_some.mp hget).1

theorem erase (h : Under slot all left) (name : ℕ) :
    Under slot (all.erase name) (left.erase name) := by
  intro name'
  rw [KeyMap.get?_erase, KeyMap.get?_erase]
  split
  · rfl
  · exact h name'

theorem put (h : Under slot all left) (hslot : c.args.slot = some slot) (name : ℕ) :
    Under slot (all.put name c) (left.put name c) := by
  intro name'
  rw [KeyMap.get?_put, KeyMap.get?_put]
  split
  · rw [Option.filter_some]
    exact (if_pos (decide_eq_true hslot)).symm
  · exact h name'

/-- A call under another key is nobody here. -/
theorem eraseOther (h : Under slot all left) (hnone : left.get? name = none) :
    Under slot (all.erase name) left := by
  intro name'
  rw [KeyMap.get?_erase]
  split
  · next heq => rw [heq, hnone, Option.filter_none]
  · exact h name'

theorem putOther (h : Under slot all left) (hnone : left.get? name = none)
    (hslot : c.args.slot ≠ some slot) : Under slot (all.put name c) left := by
  intro name'
  rw [KeyMap.get?_put]
  split
  · next heq =>
    rw [heq, hnone, Option.filter_some, if_neg]
    exact fun hunder => hslot (of_decide_eq_true hunder)
  · exact h name'

end Under

/-- The clock, the users and the prunes. -/
def Background.isCommon : Background → Bool
  | .prune | .service (.tick _) | .service (.setUser _ _) => true
  | .service _ => false

namespace Creations

variable (env : Env) (ttl : ℤ) (slot : String × String)

/-- Whether a step is common to all calls, or of a call under a key. -/
def keeps (p : Creations × CreationAction) : Bool :=
  match p.2 with
  | .rest b => b.isCommon
  | .start _ args => decide (args.slot = some slot)
  | .go name _ | .quit name => (p.1.sessions.get? name).any (·.isUnder slot)

/-- What a call under a key is told by a step. -/
def answer (p : Creations × CreationAction) :
    Option (CreateDeposit × Except String (Option (Bool × Uuid))) :=
  ((creations env ttl).replies p.1 p.2).bind fun q =>
    if q.1.args.slot = some slot then some (q.1.args, q.2.map CreateOutcome.answer) else none

/-- **A state and what is left of it.** -/
structure Left (s u : Creations) : Prop where
  shared : Alike slot s.shared u.shared
  sessions : Under slot s.sessions u.sessions

end Creations

section Left

variable {env : Env} {ttl : ℤ} {slot : String × String} {s t u : Creations} {a : CreationAction}

/-- The call of a step that is left out is under another key. -/
theorem Creations.slot_ne_of_any {name : ℕ} {c : Creation} (hc : s.sessions.get? name = some c)
    (hdrop : (s.sessions.get? name).any (·.isUnder slot) = false) : c.args.slot ≠ some slot := by
  rw [hc, Option.any_some] at hdrop
  exact of_decide_eq_false hdrop

/-- **A step that is left out.** -/
theorem Creations.Left.dropped (h : Creations.Left slot s u) (hs : Sound env s)
    (hstep : (creations env ttl).step s a = some t) (hdrop : Creations.keeps slot (s, a) = false) :
    Creations.Left slot t u ∧ Creations.answer env ttl slot (s, a) = none := by
  cases a with
  | rest b =>
    refine ⟨?_, rfl⟩
    obtain ⟨store, hstore, rfl⟩ := Option.map_eq_some_iff.mp hstep
    cases b with
    | prune => cases hdrop
    | service a =>
      obtain ⟨-, hstore⟩ := Option.ite_none_left_eq_some.mp hstore
      obtain ⟨w, hw, rfl⟩ := Option.map_eq_some_iff.mp hstore
      refine ⟨h.shared.service hs.reachable hw ?_ ?_, h.sessions⟩
      · rintro now rfl
        cases hdrop
      · rintro user url rfl
        cases hdrop
  | start name args =>
    refine ⟨?_, rfl⟩
    obtain ⟨hfree, heq⟩ := Option.ite_none_right_eq_some.mp hstep
    obtain rfl := Option.some.inj heq
    have hnone := h.sessions.get?_of_none (Option.isNone_iff_eq_none.mp hfree)
    exact ⟨h.shared, h.sessions.putOther hnone (of_decide_eq_false hdrop)⟩
  | go name input =>
    obtain ⟨⟨c, turn⟩, hturn, rfl⟩ := Option.map_eq_some_iff.mp hstep
    obtain ⟨_, _, heq, hc, hnext, -⟩ := Sessions.System.turn_eq_some hturn
    obtain ⟨rfl, rfl⟩ := Sessions.Action.go.inj heq
    have hslot := Creations.slot_ne_of_any hc hdrop
    have hnone := h.sessions.get?_eq_none hc hslot
    refine ⟨?_, ?_⟩
    · cases Creation.next_turned hnext with
      | failed error => exact ⟨h.shared, h.sessions.eraseOther hnone⟩
      | conflict idem row hidem hrow hdiffers => exact ⟨h.shared, h.sessions.eraseOther hnone⟩
      | replayed again id d hstage hd => exact ⟨h.shared, h.sessions.eraseOther hnone⟩
      | commit id mint d w r hstage hinsert hw hr =>
        have hservice := h.shared.service hs.reachable hw
          (fun _ heq => nomatch heq) (fun _ _ heq => nomatch heq)
        exact ⟨hservice.otherKey (Creation.putKey_of_ne hslot), h.sessions.eraseOther hnone⟩
      | _ => exact ⟨h.shared, h.sessions.putOther hnone hslot⟩
    · rw [Creations.answer, Sessions.System.replies, hturn]
      cases turn with
      | on c' => rfl
      | leave r => exact if_neg hslot
      | commit store r => exact if_neg hslot
  | quit name =>
    refine ⟨?_, rfl⟩
    obtain rfl := Option.some.inj hstep
    refine ⟨h.shared, h.sessions.eraseOther ?_⟩
    cases hc : s.sessions.get? name with
    | none => exact h.sessions.get?_of_none hc
    | some c => exact h.sessions.get?_eq_none hc (Creations.slot_ne_of_any hc hdrop)

/-- What is common happens to both. -/
theorem Alike.background {s s' u : Store} {b : Background} (h : Alike slot s u)
    (hstep : b.step env ttl s = some s') (hcommon : b.isCommon = true) :
    ∃ u', b.step env ttl u = some u' ∧ Alike slot s' u' := by
  cases b with
  | prune =>
    obtain rfl := Option.some.inj hstep
    refine ⟨_, rfl, h.clock, h.users, h.minted, h.deposits, ?_⟩
    rw [KeyMap.get?_filter, KeyMap.get?_filter, h.key, World.ago, World.ago, h.clock]
  | service a =>
    obtain ⟨-, hstep⟩ := Option.ite_none_left_eq_some.mp hstep
    obtain ⟨w, hw, rfl⟩ := Option.map_eq_some_iff.mp hstep
    cases a with
    | tick now =>
      obtain ⟨hlater, rfl⟩ := require_eq_some.mp hw
      rw [← h.clock] at hlater
      refine ⟨{ u with world := { u.world with clock := now } }, ?_, rfl, h.users, h.minted,
        h.deposits, h.key⟩
      exact Option.map_eq_some_iff.mpr ⟨_, require_eq_some.mpr ⟨hlater, rfl⟩, rfl⟩
    | setUser user url =>
      obtain rfl := Option.some.inj hw
      refine ⟨_, rfl, h.clock, ?_, h.minted, h.deposits, h.key⟩
      exact congrArg (·.put user url) h.users
    | _ => cases hcommon

/-- **A step that is kept.** -/
theorem Creations.Left.kept (h : Creations.Left slot s u) (hu : Sound env u)
    (hstep : (creations env ttl).step s a = some t) (hkeep : Creations.keeps slot (s, a) = true) :
    ∃ v, (creations env ttl).step u a = some v ∧ Creations.Left slot t v ∧
      Creations.answer env ttl slot (u, a) = Creations.answer env ttl slot (s, a) := by
  cases a with
  | rest b =>
    obtain ⟨store, hstore, rfl⟩ := Option.map_eq_some_iff.mp hstep
    obtain ⟨store', hstore', halike⟩ := h.shared.background hstore hkeep
    refine ⟨{ u with shared := store' }, ?_, ⟨halike, h.sessions⟩, rfl⟩
    exact Option.map_eq_some_iff.mpr ⟨store', hstore', rfl⟩
  | start name args =>
    obtain ⟨hfree, heq⟩ := Option.ite_none_right_eq_some.mp hstep
    obtain rfl := Option.some.inj heq
    have hnone := h.sessions.get?_of_none (Option.isNone_iff_eq_none.mp hfree)
    have hslot : (Creation.start args).args.slot = some slot := of_decide_eq_true hkeep
    refine ⟨{ u with sessions := u.sessions.put name (Creation.start args) }, ?_,
      ⟨h.shared, h.sessions.put hslot name⟩, rfl⟩
    rw [Sessions.System.step, hnone]
    rfl
  | go name input =>
    obtain ⟨⟨c, turn⟩, hturn, rfl⟩ := Option.map_eq_some_iff.mp hstep
    obtain ⟨_, _, heq, hc, hnext, -⟩ := Sessions.System.turn_eq_some hturn
    obtain ⟨rfl, rfl⟩ := Sessions.Action.go.inj heq
    have hslot : c.args.slot = some slot := by
      have hany : (s.sessions.get? name).any (·.isUnder slot) = true := hkeep
      rw [hc, Option.any_some] at hany
      exact of_decide_eq_true hany
    have hc' : u.sessions.get? name = some c := h.sessions.get?_eq_some.mpr ⟨hc, hslot⟩
    have hmono := Creation.next_mono (h.sessions.values_subset name) hnext
    obtain ⟨turn', hnext', halike⟩ := h.shared.next hslot (hu.found hc') hmono
    have hturn' : (creations env ttl).turn u (.go name input) = some (c, turn') := by
      rw [Sessions.System.turn, hc', Option.bind_some]
      exact Option.map_eq_some_iff.mpr ⟨turn', hnext', rfl⟩
    refine ⟨u.after name turn', ?_, ?_, ?_⟩
    · rw [Sessions.System.step, hturn', Option.map_some]
    · cases halike with
      | on c' =>
        have hargs := Creation.args_of_on hnext
        exact ⟨h.shared, h.sessions.put (hargs ▸ hslot) name⟩
      | leave heq => exact ⟨h.shared, h.sessions.erase name⟩
      | commit r halike => exact ⟨halike, h.sessions.erase name⟩
    · rw [Creations.answer, Creations.answer, Sessions.System.replies, Sessions.System.replies,
        hturn, hturn']
      cases halike with
      | on c' => rfl
      | @leave r r' heq =>
        show (if c.args.slot = some slot then some (c.args, r'.map CreateOutcome.answer) else none) =
          if c.args.slot = some slot then some (c.args, r.map CreateOutcome.answer) else none
        rw [heq]
      | commit r halike => rfl
  | quit name =>
    obtain rfl := Option.some.inj hstep
    exact ⟨_, rfl, ⟨h.shared, h.sessions.erase name⟩, rfl⟩

/-- **The run that is left.** -/
theorem Creations.Left.trace (slot : String × String) {clock : DateTime}
    {steps : List (Creations × CreationAction)}
    (h : Lts.Trace (creations env ttl).step (Creations.init clock) steps s) :
    ∃ steps' u, Lts.Trace (creations env ttl).step (Creations.init clock) steps' u ∧
      Creations.Left slot s u ∧
      steps'.map Prod.snd = (steps.filter (Creations.keeps slot)).map Prod.snd ∧
      steps'.filterMap (Creations.answer env ttl slot) =
        steps.filterMap (Creations.answer env ttl slot) := by
  induction h with
  | nil => exact ⟨[], _, .nil, ⟨.refl slot _, fun _ => rfl⟩, rfl, rfl⟩
  | @concat steps s t a hrun hstep ih =>
    obtain ⟨steps', u, hrun', hleft, hactions, hanswers⟩ := ih
    rw [List.filter_append, List.map_append, List.filterMap_append]
    cases hkeep : Creations.keeps slot (s, a) with
    | true =>
      obtain ⟨v, hstep', hleft', hanswer⟩ := hleft.kept (Sound.ofReaches hrun'.reaches) hstep hkeep
      refine ⟨steps' ++ [(u, a)], v, hrun'.concat hstep', hleft', ?_, ?_⟩
      · rw [List.map_append, hactions, List.filter_cons_of_pos hkeep]
        rfl
      · rw [List.filterMap_append, hanswers, List.filterMap_cons, List.filterMap_cons, hanswer]
    | false =>
      obtain ⟨hleft', hanswer⟩ := hleft.dropped (Sound.ofReaches hrun.reaches) hstep hkeep
      refine ⟨steps', u, hrun', hleft', ?_, ?_⟩
      · rw [hactions, List.filter_cons_of_neg (by simp [hkeep])]
        simp
      · rw [hanswers, List.filterMap_cons, hanswer]
        simp

end Left

end GumServer
