import GumServer.KeyMap
import GumServer.Lts

/-!
# API keys and their rotation

`authenticate_api_key` in `auth/mod.rs` looks a key up in a cache, then in the table, and puts what
the table said into the cache. `rotate_key` in `account/mod.rs` replaces the key in the table, then
takes the old one out of the cache, on the instance it runs on. Both are several steps, and those
of different requests mix.

The cache is right about a key that was replaced only as long as nobody puts it back, and as long as
a rotation takes out every key its user had before. Neither is seen to: an authentication may have
read the table before a rotation and write the cache after it; and a rotation takes out one key, the
one its statement read, though an earlier one may still be there when rotations overlap.
-/

namespace GumServer.ApiKeys

/-- A key, as `api_key::hash` of its secret. -/
abbrev KeyHash : Type := List UInt8

/-! ## Requests -/

/-- How far `authenticate_api_key` has come. -/
inductive AuthStage : Type where
  | arrived
  /-- not in the cache -/
  | missed
  /-- the table has its owner -/
  | selected (owner : String)
  /-- its owner is known, and the cache has it -/
  | found (owner : String)
deriving DecidableEq

/-- The owner, once it is known. -/
def AuthStage.owner : AuthStage → Option String
  | selected owner | found owner => some owner
  | arrived | missed => none

/-- An authentication in flight. -/
structure Auth where
  hash : KeyHash
  stage : AuthStage
deriving DecidableEq

/-- How far `rotate_key` has come. Once its statement is through, it goes with the keys its user had
held until then. -/
inductive RotationStage : Type where
  | generated
  /-- the statement has read `prev.old_hash`, and waits for the row -/
  | read (old : KeyHash)
  | updated (old : KeyHash) (held : List KeyHash)
  | invalidated (held : List KeyHash)
deriving DecidableEq

/-- A rotation in flight. -/
structure Rotation where
  user : String
  /-- the new key -/
  hash : KeyHash
  stage : RotationStage
deriving DecidableEq

/-- The keys its user had held until then. -/
def Rotation.held (r : Rotation) : List KeyHash :=
  match r.stage with
  | .updated _ held | .invalidated held => held
  | _ => []

/-- Those that should not be in the cache any more. -/
def Rotation.cleared (r : Rotation) : List KeyHash :=
  match r.stage with
  | .invalidated held => held
  | _ => []

/-- A rotation that has returned. -/
structure Returned where
  user : String
  /-- the keys the user held before it -/
  held : List KeyHash
  /-- how many authentications had started when it returned -/
  started : ℕ
deriving DecidableEq

/-- An instance, and the table of keys. -/
structure State where
  /-- `api_keys`: the key of a user -/
  keys : KeyMap String KeyHash
  /-- `KeyCache` -/
  cache : KeyMap KeyHash String
  /-- by number, in the order they start -/
  auths : KeyMap ℕ Auth
  rotations : KeyMap ℕ Rotation
  /-- how many authentications have started -/
  started : ℕ
  /-- every key a user was ever given -/
  issued : List (String × KeyHash)
  /-- every rotation that has returned -/
  returned : List Returned

/-- The steps of an authentication. -/
inductive AuthStep : Type where
  /-- `keys.get` -/
  | get
  /-- `SELECT user_id FROM api_keys WHERE key_hash = $1`, with what it finds -/
  | select (owner : Option String)
  /-- `keys.insert` -/
  | insert
  /-- `keys.allow`: whether the key's budget is not used up -/
  | allow (ok : Bool)

/-- The steps of a rotation. -/
inductive RotationStep : Type where
  /-- the statement reads the row -/
  | read
  /-- the statement replaces the key -/
  | update
  /-- `keys.invalidate` -/
  | invalidate
  /-- the new key is returned -/
  | finish

/-- What can happen. -/
inductive Action : Type where
  /-- `create_key` -/
  | createKey (user : String) (hash : KeyHash) : Action
  | authenticate (hash : KeyHash) : Action
  | auth (name : ℕ) (next : AuthStep) : Action
  /-- `rotate_key`, with the key it generates -/
  | rotate (name : ℕ) (user : String) (hash : KeyHash) : Action
  | rotation (name : ℕ) (next : RotationStep) : Action
  /-- a request fails, or is dropped -/
  | dropAuth (name : ℕ) : Action
  | dropRotation (name : ℕ) : Action
  /-- the cache lets an entry go -/
  | evict (hash : KeyHash) : Action
  | restart : Action

namespace State

variable (s : State)

/-- A key of 32 random bytes is like none that was given out. -/
def fresh (hash : KeyHash) : Bool := s.issued.all (·.2 ≠ hash)

/-- Give a user a key. -/
def issue (user : String) (hash : KeyHash) : State :=
  { s with keys := s.keys.put user hash, issued := (user, hash) :: s.issued }

/-- The keys a user has held. -/
def heldBy (user : String) : List KeyHash := (s.issued.filter (·.1 = user)).map Prod.snd

/-- An authentication has come further. -/
def authAt (name : ℕ) (hash : KeyHash) (stage : AuthStage) : State :=
  { s with auths := s.auths.put name ⟨hash, stage⟩ }

/-- An authentication is over. -/
def endAuth (name : ℕ) : State := { s with auths := s.auths.erase name }

/-- A rotation has come further. -/
def rotationAt (name : ℕ) (r : Rotation) (stage : RotationStage) : State :=
  { s with rotations := s.rotations.put name { r with stage := stage } }

/-- A rotation is over. -/
def endRotation (name : ℕ) : State := { s with rotations := s.rotations.erase name }

/-- The next step of `authenticate_api_key`. -/
def stepAuth (name : ℕ) (hash : KeyHash) : AuthStage → AuthStep → Option State
  | .arrived, .get =>
    some (s.authAt name hash (((s.cache.get? hash).map AuthStage.found).getD .missed))
  | .missed, .select (some owner) =>
    if s.keys.get? owner = some hash then some (s.authAt name hash (.selected owner)) else none
  -- `invalid API key`
  | .missed, .select none => if hash ∉ s.keys.values then some (s.endAuth name) else none
  | .selected owner, .insert =>
    some { s.authAt name hash (.found owner) with cache := s.cache.put hash owner }
  | .found _, .allow _ => some (s.endAuth name)
  | _, _ => none

/-- The next step of `rotate_key`. -/
def stepRotation (name : ℕ) (r : Rotation) : RotationStep → Option State
  | .read => match r.stage, s.keys.get? r.user with
    | .generated, some old => some (s.rotationAt name r (.read old))
    -- `this account has no API key yet`
    | .generated, none => some (s.endRotation name)
    | _, _ => none
  | .update => match r.stage with
    | .read old =>
      if s.fresh r.hash then
        some ((s.rotationAt name r (.updated old (s.heldBy r.user))).issue r.user r.hash)
      else none
    | _ => none
  | .invalidate => match r.stage with
    | .updated old held =>
      some { s.rotationAt name r (.invalidated held) with cache := s.cache.erase old }
    | _ => none
  | .finish => match r.stage with
    | .invalidated held =>
      some { s.endRotation name with returned := ⟨r.user, held, s.started⟩ :: s.returned }
    | _ => none

end State

/-- One step. -/
def step (s : State) : Action → Option State
  | .createKey user hash =>
    if (s.keys.get? user).isNone && s.fresh hash then some (s.issue user hash) else none
  | .authenticate hash => some { s.authAt s.started hash .arrived with started := s.started + 1 }
  | .auth name next => (s.auths.get? name).bind fun a => s.stepAuth name a.hash a.stage next
  | .rotate name user hash =>
    if (s.rotations.get? name).isNone then
      some { s with rotations := s.rotations.put name ⟨user, hash, .generated⟩ }
    else none
  | .rotation name next => (s.rotations.get? name).bind fun r => s.stepRotation name r next
  | .dropAuth name => some (s.endAuth name)
  | .dropRotation name => some (s.endRotation name)
  | .evict hash => some { s with cache := s.cache.erase hash }
  | .restart =>
    some { s with cache := KeyMap.empty, auths := KeyMap.empty, rotations := KeyMap.empty }

/-- The authentication that succeeds in a step: its number, its key and whose it is. -/
def succeeds (s : State) : Action → Option (ℕ × KeyHash × String)
  | .auth name (.allow true) => match s.auths.get? name with
    | some ⟨hash, .found owner⟩ => some (name, hash, owner)
    | _ => none
  | _ => none

/-- Before there was a key. -/
def init : State := ⟨KeyMap.empty, KeyMap.empty, KeyMap.empty, KeyMap.empty, 0, [], []⟩

/-! ## What goes wrong -/

/-- The key should not be in the cache any more: a rotation that came after it is past its
invalidation. -/
def State.outdated (s : State) (hash : KeyHash) : Bool :=
  s.returned.any (hash ∈ ·.held) || s.rotations.values.any (hash ∈ ·.cleared)

/-- Nobody puts an outdated key into the cache, and a rotation finds none of its user's earlier keys
there but the one it takes out. -/
def undisturbed (s : State) : Action → Bool
  | .auth name .insert => (s.auths.get? name).all fun a => !s.outdated a.hash
  | .rotation name .invalidate => (s.rotations.get? name).all fun r =>
    match r.stage with
    | .updated old held => held.all fun hash => hash = old || (s.cache.get? hash).isNone
    | _ => true
  | _ => true

/-! ## One step of a rotation, one of an authentication -/

section Cases

variable {s t : State} {name : ℕ}

/-- What a rotation's step can do. -/
theorem stepRotation_cases {r : Rotation} {next : RotationStep}
    (h : s.stepRotation name r next = some t) :
    (∃ old, r.stage = .generated ∧ t = s.rotationAt name r (.read old)) ∨
    t = s.endRotation name ∨
    (∃ old, s.fresh r.hash = true ∧
      t = (s.rotationAt name r (.updated old (s.heldBy r.user))).issue r.user r.hash) ∨
    (∃ old held, next = .invalidate ∧ r.stage = .updated old held ∧
      t = { s.rotationAt name r (.invalidated held) with cache := s.cache.erase old }) ∨
    (∃ held, r.stage = .invalidated held ∧
      t = { s.endRotation name with returned := ⟨r.user, held, s.started⟩ :: s.returned }) := by
  cases next with
  | read =>
    rw [State.stepRotation] at h
    split at h
    · next old hstage _ => exact .inl ⟨old, hstage, (Option.some.inj h).symm⟩
    · exact .inr (.inl (Option.some.inj h).symm)
    · cases h
  | update =>
    rw [State.stepRotation] at h
    split at h
    · next old _ =>
      obtain ⟨hfresh, h⟩ := Option.ite_none_right_eq_some.mp h
      exact .inr (.inr (.inl ⟨old, hfresh, (Option.some.inj h).symm⟩))
    · cases h
  | invalidate =>
    rw [State.stepRotation] at h
    split at h
    · next old held hstage =>
      exact .inr (.inr (.inr (.inl ⟨old, held, rfl, hstage, (Option.some.inj h).symm⟩)))
    · cases h
  | finish =>
    rw [State.stepRotation] at h
    split at h
    · next held hstage =>
      exact .inr (.inr (.inr (.inr ⟨held, hstage, (Option.some.inj h).symm⟩)))
    · cases h

/-- What an authentication's step can do: its owner comes from the cache or the table, and goes
from there to the cache. -/
theorem stepAuth_cases {hash : KeyHash} {stage : AuthStage} {next : AuthStep}
    (h : s.stepAuth name hash stage next = some t) :
    (∃ stage', t = s.authAt name hash stage' ∧ (stage'.owner.isSome →
      (s.cache.get? hash).isSome ∨ ∃ owner, s.keys.get? owner = some hash)) ∨
    (∃ owner, next = .insert ∧ stage = .selected owner ∧
      t = { s.authAt name hash (.found owner) with cache := s.cache.put hash owner }) ∨
    t = s.endAuth name := by
  rw [State.stepAuth.eq_def] at h
  split at h
  · refine .inl ⟨_, (Option.some.inj h).symm, fun howner => .inl ?_⟩
    cases hcache : s.cache.get? hash with
    | none => simp [hcache, AuthStage.owner] at howner
    | some owner => rfl
  · next owner =>
    obtain ⟨hkey, h⟩ := Option.ite_none_right_eq_some.mp h
    exact .inl ⟨_, (Option.some.inj h).symm, fun _ => .inr ⟨owner, hkey⟩⟩
  · obtain ⟨-, h⟩ := Option.ite_none_right_eq_some.mp h
    exact .inr (.inr (Option.some.inj h).symm)
  · next owner => exact .inr (.inl ⟨owner, rfl, rfl, (Option.some.inj h).symm⟩)
  · exact .inr (.inr (Option.some.inj h).symm)
  · cases h

end Cases

/-! ## The keys that were replaced -/

/-- Given out once, and nobody's now. -/
def State.Past (s : State) (hash : KeyHash) : Prop :=
  (∃ user, (user, hash) ∈ s.issued) ∧ ∀ user, s.keys.get? user ≠ some hash

/-- The table and its history. -/
structure Issued (s : State) : Prop where
  current : ∀ {user hash}, s.keys.get? user = some hash → (user, hash) ∈ s.issued
  /-- a key is given out once -/
  owner : ∀ {user user' hash}, (user, hash) ∈ s.issued → (user', hash) ∈ s.issued → user = user'
  /-- what a rotation counts as held before is nobody's key -/
  held : ∀ {name r}, s.rotations.get? name = some r → ∀ hash ∈ r.held, s.Past hash
  returned : ∀ {r}, r ∈ s.returned → ∀ hash ∈ r.held, s.Past hash

section Issued

variable {s : State} {user : String} {hash : KeyHash}

theorem not_issued_of_fresh (h : s.fresh hash = true) (user : String) :
    (user, hash) ∉ s.issued := by
  intro hmem
  have hne := List.all_eq_true.mp h _ hmem
  exact of_decide_eq_true hne rfl

theorem State.Past.issue {old : KeyHash} (h : s.Past old) (hfresh : s.fresh hash = true) :
    (s.issue user hash).Past old := by
  obtain ⟨⟨holder, hissued⟩, hnobody⟩ := h
  refine ⟨⟨holder, List.mem_cons_of_mem _ hissued⟩, fun user' => ?_⟩
  rw [State.issue, KeyMap.get?_put]
  split
  · rintro ⟨⟩
    exact not_issued_of_fresh hfresh holder hissued
  · exact hnobody user'

/-- What a user held before a new key is nobody's. -/
theorem Issued.past_heldBy (h : Issued s) (hfresh : s.fresh hash = true) {old : KeyHash}
    (hold : old ∈ s.heldBy user) : (s.issue user hash).Past old := by
  obtain ⟨⟨holder, _⟩, hmem, rfl⟩ := List.mem_map.mp hold
  obtain ⟨hissued, hholder⟩ := List.mem_filter.mp hmem
  obtain rfl : holder = user := of_decide_eq_true hholder
  refine ⟨⟨holder, List.mem_cons_of_mem _ hissued⟩, fun user' hkey => ?_⟩
  rw [State.issue, KeyMap.get?_put] at hkey
  split at hkey
  · cases hkey
    exact not_issued_of_fresh hfresh holder hissued
  · next hne => exact hne (h.owner (h.current hkey) hissued)

/-- A user is given a fresh key. -/
theorem Issued.issue (h : Issued s) (hfresh : s.fresh hash = true) :
    Issued (s.issue user hash) where
  current := by
    intro user' hash' hkey
    rw [State.issue, KeyMap.get?_put] at hkey
    split at hkey
    · next heq =>
      cases hkey
      rw [heq]
      exact List.mem_cons_self
    · exact List.mem_cons_of_mem _ (h.current hkey)
  owner := by
    intro user₁ user₂ hash' h₁ h₂
    have hnew := not_issued_of_fresh hfresh
    rcases List.mem_cons.mp h₁ with heq₁ | h₁ <;> rcases List.mem_cons.mp h₂ with heq₂ | h₂
    · exact (Prod.mk.inj heq₁).1.trans (Prod.mk.inj heq₂).1.symm
    · rw [(Prod.mk.inj heq₁).2] at h₂
      exact absurd h₂ (hnew _)
    · rw [(Prod.mk.inj heq₂).2] at h₁
      exact absurd h₁ (hnew _)
    · exact h.owner h₁ h₂
  held := fun hr old hold => (h.held hr old hold).issue hfresh
  returned := fun hr old hold => (h.returned hr old hold).issue hfresh

/-- Rotations may change, if what they count as held before is nobody's. -/
theorem Issued.rotations (h : Issued s) {m : KeyMap ℕ Rotation}
    (hm : ∀ {name r}, m.get? name = some r → ∀ hash ∈ r.held, s.Past hash) :
    Issued { s with rotations := m } :=
  ⟨h.current, h.owner, hm, h.returned⟩

theorem Issued.rotationAt (h : Issued s) {name : ℕ} {r : Rotation} {stage : RotationStage}
    (hstage : ∀ hash ∈ ({ r with stage := stage } : Rotation).held, s.Past hash) :
    Issued (s.rotationAt name r stage) := by
  refine h.rotations fun {name' r'} hget => ?_
  rw [KeyMap.get?_put] at hget
  split at hget
  · cases hget
    exact hstage
  · exact h.held hget

theorem Issued.endRotation (h : Issued s) (name : ℕ) : Issued (s.endRotation name) := by
  refine h.rotations fun {name' r'} hget => ?_
  rw [KeyMap.get?_erase] at hget
  split at hget
  · cases hget
  · exact h.held hget

variable {t : State}

theorem Issued.step {a : Action} (h : Issued s) (hstep : step s a = some t) : Issued t := by
  cases a with
  | createKey user hash =>
    obtain ⟨hfree, heq⟩ := Option.ite_none_right_eq_some.mp hstep
    obtain rfl := Option.some.inj heq
    exact h.issue (Bool.and_eq_true_iff.mp hfree).2
  | authenticate hash =>
    obtain rfl := Option.some.inj hstep
    exact ⟨h.current, h.owner, h.held, h.returned⟩
  | auth name next =>
    obtain ⟨a, -, hturn⟩ := Option.bind_eq_some_iff.mp hstep
    obtain ⟨_, rfl, -⟩ | ⟨_, -, -, rfl⟩ | rfl := stepAuth_cases hturn <;>
      exact ⟨h.current, h.owner, h.held, h.returned⟩
  | rotate name user hash =>
    obtain ⟨-, heq⟩ := Option.ite_none_right_eq_some.mp hstep
    obtain rfl := Option.some.inj heq
    have hnone : ∀ old ∈ (⟨user, hash, .generated⟩ : Rotation).held, s.Past old :=
      fun _ hold => absurd hold List.not_mem_nil
    exact h.rotationAt (r := ⟨user, hash, .generated⟩) hnone
  | rotation name next =>
    obtain ⟨r, hr, hturn⟩ := Option.bind_eq_some_iff.mp hstep
    obtain ⟨_, -, rfl⟩ | rfl | ⟨_, hfresh, rfl⟩ | ⟨_, held, -, hstage, rfl⟩ | ⟨held, hstage, rfl⟩ :=
      stepRotation_cases hturn
    · exact h.rotationAt fun _ hold => absurd hold List.not_mem_nil
    · exact h.endRotation name
    · -- the keys held so far are past with the new one
      have hissued : Issued (s.issue r.user r.hash) := h.issue hfresh
      exact hissued.rotationAt fun _ hold => h.past_heldBy hfresh hold
    · have hheld : r.held = held := by rw [Rotation.held, hstage]
      have hissued : Issued (s.rotationAt name r (.invalidated held)) :=
        h.rotationAt fun old hold => h.held hr old (by rwa [hheld])
      exact ⟨hissued.current, hissued.owner, hissued.held, hissued.returned⟩
    · have hheld : r.held = held := by rw [Rotation.held, hstage]
      have hissued := h.endRotation name
      refine ⟨hissued.current, hissued.owner, hissued.held, fun {r'} hr' => ?_⟩
      rcases List.mem_cons.mp hr' with rfl | hr'
      · intro old hold
        exact h.held hr old (by rwa [hheld])
      · exact h.returned hr'
  | dropAuth name =>
    obtain rfl := Option.some.inj hstep
    exact ⟨h.current, h.owner, h.held, h.returned⟩
  | dropRotation name =>
    obtain rfl := Option.some.inj hstep
    exact h.endRotation name
  | evict hash =>
    obtain rfl := Option.some.inj hstep
    exact ⟨h.current, h.owner, h.held, h.returned⟩
  | restart =>
    obtain rfl := Option.some.inj hstep
    exact ⟨h.current, h.owner, fun hget => absurd hget (by simp), h.returned⟩

end Issued

/-! ## The cache -/

/-- No outdated key is in the cache. -/
def Cleared (s : State) : Prop := ∀ hash, s.outdated hash = true → s.cache.get? hash = none

section Cleared

variable {s t : State}

theorem outdated_iff {hash : KeyHash} : s.outdated hash = true ↔
    (∃ r ∈ s.returned, hash ∈ r.held) ∨
      ∃ name r, s.rotations.get? name = some r ∧ hash ∈ r.cleared := by
  rw [State.outdated, Bool.or_eq_true, List.any_eq_true, List.any_eq_true]
  simp only [decide_eq_true_eq]
  refine or_congr_right ⟨?_, ?_⟩
  · rintro ⟨r, hr, hmem⟩
    obtain ⟨name, hname⟩ := KeyMap.exists_get?_of_mem_values hr
    exact ⟨name, r, hname, hmem⟩
  · rintro ⟨name, r, hname, hmem⟩
    exact ⟨r, KeyMap.mem_values_of_get? hname, hmem⟩

/-- What is left to show of a step that adds nothing to the cache. -/
theorem Cleared.of (h : Cleared s) (hcache : ∀ hash, s.cache.get? hash = none →
    t.cache.get? hash = none) (houtdated : ∀ hash, t.outdated hash = true →
    s.outdated hash = true ∨ t.cache.get? hash = none) : Cleared t := by
  intro hash hhash
  rcases houtdated hash hhash with hold | hnone
  · exact hcache hash (h hash hold)
  · exact hnone

/-- What is outdated when a rotation has come further. -/
theorem outdated_rotationAt {name : ℕ} {r : Rotation} {stage : RotationStage} {hash : KeyHash}
    (h : (s.rotationAt name r stage).outdated hash = true) :
    s.outdated hash = true ∨ hash ∈ ({ r with stage := stage } : Rotation).cleared := by
  rcases outdated_iff.mp h with hreturned | ⟨name', r', hname', hmem⟩
  · exact .inl (outdated_iff.mpr (.inl hreturned))
  · rw [State.rotationAt, KeyMap.get?_put] at hname'
    split at hname'
    · cases hname'
      exact .inr hmem
    · exact .inl (outdated_iff.mpr (.inr ⟨name', r', hname', hmem⟩))

theorem outdated_endRotation {name : ℕ} {hash : KeyHash}
    (h : (s.endRotation name).outdated hash = true) : s.outdated hash = true := by
  rcases outdated_iff.mp h with hreturned | ⟨name', r', hname', hmem⟩
  · exact outdated_iff.mpr (.inl hreturned)
  · rw [State.endRotation, KeyMap.get?_erase] at hname'
    split at hname'
    · cases hname'
    · exact outdated_iff.mpr (.inr ⟨name', r', hname', hmem⟩)

/-- A rotation that is not past its invalidation outdates nothing. -/
theorem Cleared.rotationAt {name : ℕ} {r : Rotation} {stage : RotationStage} (h : Cleared s)
    (hstage : ({ r with stage := stage } : Rotation).cleared = []) :
    Cleared (s.rotationAt name r stage) := by
  refine h.of (fun _ hnone => hnone) fun hash hhash => ?_
  rcases outdated_rotationAt hhash with hold | hmem
  · exact .inl hold
  · rw [hstage] at hmem
    cases hmem

theorem Cleared.endRotation (h : Cleared s) (name : ℕ) : Cleared (s.endRotation name) :=
  h.of (fun _ hnone => hnone) fun _ hhash => .inl (outdated_endRotation hhash)

/-- The invalidation, when it takes out all there is to take out. -/
theorem Cleared.invalidate {name : ℕ} {r : Rotation} {old : KeyHash} {held : List KeyHash}
    (h : Cleared s) (hheld : ∀ hash ∈ held, hash = old ∨ s.cache.get? hash = none) :
    Cleared { s.rotationAt name r (.invalidated held) with cache := s.cache.erase old } := by
  have herase (hash : KeyHash) (hhash : hash = old ∨ s.cache.get? hash = none) :
      (s.cache.erase old).get? hash = none := by
    rw [KeyMap.get?_erase]
    split
    · rfl
    · next hne => exact hhash.resolve_left hne
  refine h.of (fun hash hnone => herase hash (.inr hnone)) fun hash hhash => ?_
  rcases outdated_rotationAt (s := s) (r := r) hhash with hold | hmem
  · exact .inl hold
  · exact .inr (herase hash (hheld hash hmem))

theorem Cleared.step {a : Action} (h : Cleared s) (hok : undisturbed s a = true)
    (hstep : step s a = some t) : Cleared t := by
  cases a with
  | createKey user hash =>
    obtain ⟨-, heq⟩ := Option.ite_none_right_eq_some.mp hstep
    obtain rfl := Option.some.inj heq
    exact h
  | authenticate hash =>
    obtain rfl := Option.some.inj hstep
    exact h
  | auth name next =>
    obtain ⟨a, ha, hturn⟩ := Option.bind_eq_some_iff.mp hstep
    obtain ⟨_, rfl, -⟩ | ⟨owner, rfl, -, rfl⟩ | rfl := stepAuth_cases hturn
    · exact h
    · -- what it puts into the cache is not outdated
      rw [undisturbed, ha, Option.all_some, Bool.not_eq_true'] at hok
      intro hash hhash
      have hne : hash ≠ a.hash := by
        rintro rfl
        exact Bool.false_ne_true (hok.symm.trans hhash)
      exact (KeyMap.get?_put_ne _ _ hne).trans (h hash hhash)
    · exact h
  | rotate name user hash =>
    obtain ⟨-, heq⟩ := Option.ite_none_right_eq_some.mp hstep
    obtain rfl := Option.some.inj heq
    exact h.rotationAt (r := ⟨user, hash, .generated⟩) rfl
  | rotation name next =>
    obtain ⟨r, hr, hturn⟩ := Option.bind_eq_some_iff.mp hstep
    obtain ⟨_, -, rfl⟩ | rfl | ⟨_, -, rfl⟩ | ⟨old, held, rfl, hstage, rfl⟩ | ⟨held, hstage, rfl⟩ :=
      stepRotation_cases hturn
    · exact h.rotationAt rfl
    · exact h.endRotation name
    · exact h.rotationAt rfl
    · apply h.invalidate
      rw [undisturbed, hr, Option.all_some, hstage] at hok
      simpa using hok
    · -- what it returns with was cleared before
      have hcleared : r.cleared = held := by rw [Rotation.cleared, hstage]
      refine h.of (fun _ hnone => hnone) fun hash hhash => .inl ?_
      rcases outdated_iff.mp hhash with ⟨r', hr', hmem⟩ | hrotation
      · rcases List.mem_cons.mp hr' with rfl | hr'
        · exact outdated_iff.mpr (.inr ⟨name, r, hr, by rwa [hcleared]⟩)
        · exact outdated_iff.mpr (.inl ⟨r', hr', hmem⟩)
      · have hended : (s.endRotation name).outdated hash = true :=
          outdated_iff.mpr (.inr hrotation)
        exact outdated_endRotation hended
  | dropAuth name =>
    obtain rfl := Option.some.inj hstep
    exact h
  | dropRotation name =>
    obtain rfl := Option.some.inj hstep
    exact h.endRotation name
  | evict hash =>
    obtain rfl := Option.some.inj hstep
    refine h.of (fun hash' hnone => ?_) fun _ hhash => .inl hhash
    rw [KeyMap.get?_erase, hnone, ite_self]
  | restart =>
    obtain rfl := Option.some.inj hstep
    exact fun _ _ => rfl

end Cleared

/-! ## Authentications that started later -/

/-- Whoever started after a rotation had returned, with a key it replaced, has found no owner. -/
structure Barred (s : State) : Prop where
  numbered : ∀ {name a}, s.auths.get? name = some a → name < s.started
  ownerless : ∀ {name a}, s.auths.get? name = some a → ∀ r ∈ s.returned, r.started ≤ name →
    a.hash ∈ r.held → a.stage.owner = none

section Barred

variable {s t : State}

/-- An authentication that goes on with its key. -/
theorem Barred.authAt {name : ℕ} {a : Auth} {stage : AuthStage} (h : Barred s)
    (ha : s.auths.get? name = some a) (hstage : ∀ r ∈ s.returned, r.started ≤ name →
      a.hash ∈ r.held → stage.owner = none) : Barred (s.authAt name a.hash stage) where
  numbered := by
    intro name' a' ha'
    rw [State.authAt, KeyMap.get?_put] at ha'
    split at ha'
    · next heq =>
      rw [heq]
      exact h.numbered ha
    · exact h.numbered ha'
  ownerless := by
    intro name' a' ha'
    rw [State.authAt, KeyMap.get?_put] at ha'
    split at ha'
    · next heq =>
      cases ha'
      rw [heq]
      exact hstage
    · exact h.ownerless ha'

theorem Barred.endAuth (h : Barred s) (name : ℕ) : Barred (s.endAuth name) := by
  have hget {name' : ℕ} {a : Auth} (ha : (s.endAuth name).auths.get? name' = some a) :
      s.auths.get? name' = some a := by
    rw [State.endAuth, KeyMap.get?_erase] at ha
    split at ha
    · cases ha
    · exact ha
  exact ⟨fun ha => h.numbered (hget ha), fun ha => h.ownerless (hget ha)⟩

/-- One that starts has found nothing yet. -/
theorem Barred.start (h : Barred s) (hash : KeyHash) :
    Barred { s.authAt s.started hash .arrived with started := s.started + 1 } where
  numbered := by
    intro name a ha
    rw [State.authAt, KeyMap.get?_put] at ha
    split at ha
    · next heq =>
      rw [heq]
      exact Nat.lt_succ_self _
    · exact (h.numbered ha).trans (Nat.lt_succ_self _)
  ownerless := by
    intro name a ha
    rw [State.authAt, KeyMap.get?_put] at ha
    split at ha
    · cases ha
      exact fun _ _ _ _ => rfl
    · exact h.ownerless ha

/-- A rotation that returns bars none that has started. -/
theorem Barred.finish {name : ℕ} {user : String} {held : List KeyHash} (h : Barred s) :
    Barred { s.endRotation name with returned := ⟨user, held, s.started⟩ :: s.returned } := by
  refine ⟨h.numbered, fun ha r hr hstarted hmem => ?_⟩
  rcases List.mem_cons.mp hr with rfl | hr
  · exact absurd (h.numbered ha) (Nat.not_lt.mpr hstarted)
  · exact h.ownerless ha r hr hstarted hmem

theorem Barred.step {a : Action} (h : Barred s) (hissued : Issued s) (hcleared : Cleared s)
    (hstep : step s a = some t) : Barred t := by
  cases a with
  | createKey user hash =>
    obtain ⟨-, heq⟩ := Option.ite_none_right_eq_some.mp hstep
    obtain rfl := Option.some.inj heq
    exact ⟨h.numbered, h.ownerless⟩
  | authenticate hash =>
    obtain rfl := Option.some.inj hstep
    exact h.start hash
  | auth name next =>
    obtain ⟨a, ha, hturn⟩ := Option.bind_eq_some_iff.mp hstep
    obtain ⟨stage, rfl, hfound⟩ | ⟨owner, -, hstage, rfl⟩ | rfl := stepAuth_cases hturn
    · refine h.authAt ha fun r hr hstarted hmem => ?_
      rw [← Option.not_isSome_iff_eq_none]
      intro howner
      rcases hfound howner with hcached | ⟨user, hkey⟩
      · rw [hcleared a.hash (outdated_iff.mpr (.inl ⟨r, hr, hmem⟩))] at hcached
        cases hcached
      · exact (hissued.returned hr a.hash hmem).2 user hkey
    · have hnext : Barred (s.authAt name a.hash (.found owner)) := by
        refine h.authAt ha fun r hr hstarted hmem => ?_
        have hnone := h.ownerless ha r hr hstarted hmem
        rw [hstage] at hnone
        cases hnone
      exact ⟨hnext.numbered, hnext.ownerless⟩
    · exact h.endAuth name
  | rotate name user hash =>
    obtain ⟨-, heq⟩ := Option.ite_none_right_eq_some.mp hstep
    obtain rfl := Option.some.inj heq
    exact ⟨h.numbered, h.ownerless⟩
  | rotation name next =>
    obtain ⟨r, -, hturn⟩ := Option.bind_eq_some_iff.mp hstep
    obtain ⟨_, -, rfl⟩ | rfl | ⟨_, -, rfl⟩ | ⟨_, _, -, -, rfl⟩ | ⟨held, -, rfl⟩ :=
      stepRotation_cases hturn
    · exact ⟨h.numbered, h.ownerless⟩
    · exact ⟨h.numbered, h.ownerless⟩
    · exact ⟨h.numbered, h.ownerless⟩
    · exact ⟨h.numbered, h.ownerless⟩
    · exact h.finish
  | dropAuth name =>
    obtain rfl := Option.some.inj hstep
    exact h.endAuth name
  | dropRotation name =>
    obtain rfl := Option.some.inj hstep
    exact ⟨h.numbered, h.ownerless⟩
  | evict hash =>
    obtain rfl := Option.some.inj hstep
    exact ⟨h.numbered, h.ownerless⟩
  | restart =>
    obtain rfl := Option.some.inj hstep
    exact ⟨fun ha => absurd ha (by simp), fun ha => absurd ha (by simp)⟩

end Barred

/-! ## Runs -/

/-- In every state reached undisturbed. -/
theorem barred_of_reaches {s : State}
    (h : Lts.Reaches step (fun s a => undisturbed s a = true) init s) :
    Issued s ∧ Cleared s ∧ Barred s := by
  refine h.invariant (P := fun s => Issued s ∧ Cleared s ∧ Barred s) ⟨?_, ?_, ?_⟩ ?_
  · constructor <;> simp [init]
  · exact fun _ _ => rfl
  · constructor <;> simp [init]
  · intro s a t _ hinv hok hstep
    obtain ⟨hissued, hcleared, hbarred⟩ := hinv
    exact ⟨hissued.step hstep, hcleared.step hok hstep, hbarred.step hissued hcleared hstep⟩

/-- **A rotation takes effect at once**, on a run that nothing has disturbed: an authentication that
starts after it has returned does not succeed with a key its user held before. -/
theorem rotated_key_refused {s : State} {a : Action} {name : ℕ} {hash : KeyHash} {owner : String}
    (h : Lts.Reaches step (fun s a => undisturbed s a = true) init s)
    (hsucceeds : succeeds s a = some (name, hash, owner)) {r : Returned} (hr : r ∈ s.returned)
    (hstarted : r.started ≤ name) : hash ∉ r.held := by
  obtain ⟨-, -, hbarred⟩ := barred_of_reaches h
  rw [succeeds.eq_def] at hsucceeds
  split at hsucceeds
  · split at hsucceeds
    · next ha =>
      obtain ⟨rfl, rest⟩ := Prod.mk.inj (Option.some.inj hsucceeds)
      obtain ⟨rfl, rfl⟩ := Prod.mk.inj rest
      intro hmem
      cases hbarred.ownerless ha r hr hstarted hmem
    · cases hsucceeds
  · cases hsucceeds

namespace Fixture

/-- A rotation from beginning to end. -/
def rotated (hash : KeyHash) : List Action := [
  .rotate 0 "user" hash,
  .rotation 0 .read,
  .rotation 0 .update,
  .rotation 0 .invalidate,
  .rotation 0 .finish]

/-- A key in use, its rotation, and the use of the new one. -/
def useBoth : List Action := [
  .createKey "user" [0],
  .authenticate [0], .auth 0 .get, .auth 0 (.select (some "user")), .auth 0 .insert,
  .auth 0 (.allow true)] ++ rotated [1] ++ [
  .authenticate [1], .auth 1 .get, .auth 1 (.select (some "user")), .auth 1 .insert]

/-- A key is looked up before its rotation, written to the cache after it, and used again. -/
def writtenBack : List Action := [
  .createKey "user" [0],
  .authenticate [0], .auth 0 .get, .auth 0 (.select (some "user"))] ++ rotated [1] ++ [
  .auth 0 .insert,
  .authenticate [0], .auth 1 .get]

/-- What succeeds next, and what has returned. -/
def outcome (s : State) : Option ((ℕ × KeyHash × String) × List Returned) :=
  (succeeds s (.auth 1 (.allow true))).map fun success => (success, s.returned)

end Fixture

/-- The new key is used, and it is not the one that was replaced. -/
theorem rotated_key_refused_fixture : ∃ s,
    Lts.Reaches step (fun s a => undisturbed s a = true) init s ∧
      succeeds s (.auth 1 (.allow true)) = some (1, [1], "user") ∧
      ⟨"user", [[0]], 1⟩ ∈ s.returned ∧ [1] ∉ (⟨"user", [[0]], 1⟩ : Returned).held := by
  obtain ⟨s, hs, hfound⟩ : ∃ s,
      Lts.Reaches step (fun s a => undisturbed s a = true) init s ∧
      Fixture.outcome s = some ((1, [1], "user"), [⟨"user", [[0]], 1⟩]) :=
    @Lts.exists_reaches_of_run _ _ _ _ _ _ _ Fixture.useBoth _ _ (by decide +kernel)
  obtain ⟨success, hsucceeds, heq⟩ := Option.map_eq_some_iff.mp hfound
  obtain ⟨rfl, hreturned⟩ := Prod.mk.inj heq
  have hr : (⟨"user", [[0]], 1⟩ : Returned) ∈ s.returned := by simp [hreturned]
  exact ⟨s, hs, hsucceeds, hr, rotated_key_refused hs hsucceeds hr (Nat.le_refl 1)⟩

/-- An old key works after its rotation has returned. -/
theorem rotated_key_accepted : ∃ s, Lts.Reaches step Lts.Any init s ∧
    succeeds s (.auth 1 (.allow true)) = some (1, [0], "user") ∧
    ∃ r ∈ s.returned, r.user = "user" ∧ r.started ≤ 1 ∧ [0] ∈ r.held := by
  obtain ⟨s, hs, hfound⟩ : ∃ s, Lts.Reaches step Lts.Any init s ∧
      Fixture.outcome s = some ((1, [0], "user"), [⟨"user", [[0]], 1⟩]) :=
    @Lts.exists_reaches_of_run _ _ _ _ _ _ _ Fixture.writtenBack _ _ (by decide +kernel)
  obtain ⟨success, hsucceeds, heq⟩ := Option.map_eq_some_iff.mp hfound
  obtain ⟨rfl, hreturned⟩ := Prod.mk.inj heq
  exact ⟨s, hs, hsucceeds, ⟨"user", [[0]], 1⟩, by simp [hreturned], rfl, Nat.le_refl 1, by simp⟩

end GumServer.ApiKeys
