import GumServer.Idempotency

/-!
# `POST /v1/deposit`, twice

`deposit/routes.rs`: what a post asks `create_deposit` for, and what it is answered with. The key is
read first, then the body is checked against the time and the configuration of the moment, and only
what passes is looked up under its key.

A post that has created a deposit finds the row of its key, with its own fingerprint, for as long as
the row is not pruned: its call can only be told of that deposit (`Repeating`). But the post has to
pass the checks again to make the call, so a copy of it is a replay **iff it would still be valid as a
new request** (`post_replayed_iff`): once the time that is left is too short, the copy is refused.
-/

namespace GumServer

open Checks

/-! ## What is posted -/

/-- `MAX_IDEMPOTENCY_KEY_LEN`. -/
def MAX_IDEMPOTENCY_KEY_LEN : ℕ := 128

/-- `HeaderValue::to_str`: visible ASCII, and tabs. -/
def headerToStr (value : List UInt8) : Option String :=
  if value.all fun b => (decide (32 ≤ b) && decide (b < 127)) || b == 9 then
    some (String.ofList (value.map fun b => Char.ofNat b.toNat))
  else none

/-- `idempotency_key`, from the header. -/
def idempotencyKey (header : Option (List UInt8)) : Except ApiError (Option String) :=
  match header with
  | none => .ok none
  | some value => do
    let text ← okOr (headerToStr value) (.invalid "Idempotency-Key must be ASCII")
    if trim text == "" then
      pure none
    else
      refuseIf (byteLen (trim text) > MAX_IDEMPOTENCY_KEY_LEN)
        (.invalid ("Idempotency-Key must be at most " ++ toString MAX_IDEMPOTENCY_KEY_LEN ++
          " characters"))
      pure (some (trim text))

/-- `Value::from(i64)`. -/
def Value.ofI64 (n : ℤ) : Value :=
  .number (if n < 0 then .negInt n else .posInt (U64.ofInt n))

/-- `Value::from(Option<String>)`. -/
def Value.ofString? (s : Option String) : Value := (s.map Value.string).getD .null

/-- The canonical form of a body: the fields of a map, which keeps its keys in order. -/
def canonicalFields (lib : Crates) (req : CreateDepositRequest) : List (String × Value) := [
  ("amount", .string (lib.displayValue req.amount)),
  ("chain_id", .string (lib.displayValue req.chainId)),
  ("expires_at", .ofI64 req.expiresAt.timestamp),
  ("receiver", .string (toAsciiLowercase (trim req.receiver))),
  ("reference", .ofString? ((req.reference.map trim).map toAsciiLowercase)),
  ("token", .string (toAsciiLowercase (trim req.token))),
  ("webhook_url", .ofString? (req.webhookUrl.map trim))]

/-- The canonical text of a body. -/
def canonicalText (lib : Crates) (req : CreateDepositRequest) : String :=
  lib.displayValue (.object (canonicalFields lib req))

/-- `request_fingerprint`: the digest of the canonical text. -/
def requestFingerprint (lib : Crates) (sha256 : List UInt8 → List UInt8)
    (req : CreateDepositRequest) : List UInt8 :=
  sha256 (canonicalText lib req).toUTF8.toList

/-- A `POST /v1/deposit`. -/
structure Post where
  /-- whose API key it carries -/
  userId : String
  /-- the `idempotency-key` header -/
  header : Option (List UInt8)
  /-- its body, or why it does not parse -/
  body : Except String CreateDepositRequest

section Call

variable (lib : Crates) (keccak256 : List UInt8 → B256) (parseUrl : String → Except String Url)
  (sha256 : List UInt8 → List UInt8)

/-- `create`, up to its call of `create_deposit`. -/
def Post.call (post : Post) (v : Validator) (now : DateTime) (salt : B256) :
    Except ApiError CreateDeposit := do
  let req ← post.body.mapError ApiError.invalid
  let key ← idempotencyKey post.header
  let new ← v.validate lib keccak256 parseUrl req now salt
  pure ⟨post.userId, new, key.map fun key => ⟨key, requestFingerprint lib sha256 req⟩⟩

variable {lib keccak256 parseUrl sha256}

/-- What it takes to be called. -/
theorem Post.call_eq_ok {post : Post} {v : Validator} {now : DateTime} {salt : B256}
    {args : CreateDeposit} : post.call lib keccak256 parseUrl sha256 v now salt = .ok args ↔
      ∃ req key new, post.body = .ok req ∧ idempotencyKey post.header = .ok key ∧
        v.validate lib keccak256 parseUrl req now salt = .ok new ∧
        ⟨post.userId, new, key.map fun key => ⟨key, requestFingerprint lib sha256 req⟩⟩ = args := by
  constructor
  · intro h
    obtain ⟨req, hreq, h⟩ := bind_eq_ok.mp h
    obtain ⟨key, hkey, h⟩ := bind_eq_ok.mp h
    obtain ⟨new, hnew, h⟩ := bind_eq_ok.mp h
    exact ⟨req, key, new, mapError_eq_ok.mp hreq, hkey, hnew, pure_eq_ok.mp h⟩
  · rintro ⟨req, key, new, hreq, hkey, hnew, hargs⟩
    refine bind_eq_ok.mpr ⟨req, mapError_eq_ok.mpr hreq, ?_⟩
    refine bind_eq_ok.mpr ⟨key, hkey, ?_⟩
    exact bind_eq_ok.mpr ⟨new, hnew, pure_eq_ok.mpr hargs⟩

end Call

/-! ## What it is answered with -/

/-- A response of `create`. -/
inductive CreateResponse : Type where
  /-- `201` -/
  | created (d : Deposit) : CreateResponse
  /-- `200`, with `Idempotent-Replayed: true` -/
  | replayed (d : Deposit) : CreateResponse
  | refused (e : ApiError) : CreateResponse

/-- The response to an outcome. -/
def CreateOutcome.response : CreateOutcome → CreateResponse
  | .created d => .created d
  | .replayed d => .replayed d
  | .conflict => .refused ⟨409, "idempotency_conflict",
      "this Idempotency-Key was already used with a different request"⟩

/-- `From<sqlx::Error>`: the database is out of reach, or the statement went wrong. -/
def storeError (unavailable : Bool) : ApiError :=
  if unavailable then ⟨503, "store_unavailable", "database unavailable; retry"⟩
  else ⟨500, "internal", "internal error"⟩

/-- **How a post is answered**, by the steps from the start of its call to its end. -/
inductive Answered (env : Env) (ttl : ℤ) (call : Except ApiError CreateDeposit) (name : ℕ) :
    List (Creations × CreationAction) → CreateResponse → Prop where
  /-- before any call -/
  | refused (e : ApiError) (hcall : call = .error e) : Answered env ttl call name [] (.refused e)
  /-- with what the call came back with -/
  | called (args : CreateDeposit) (s : Creations) (during : List (Creations × CreationAction))
      (last : Creations) (input : CallInput) (c : Creation) (outcome : CreateOutcome)
      (hcall : call = .ok args)
      (hstays : ∀ q ∈ during ++ [(last, .go name input)],
        (q.1.sessions.get? name).isSome = true)
      (hreplies : (creations env ttl).replies last (.go name input) = some (c, .ok outcome)) :
      Answered env ttl call name ((s, .start name args) :: (during ++ [(last, .go name input)]))
        outcome.response
  /-- by a statement that failed -/
  | failed (args : CreateDeposit) (s : Creations) (during : List (Creations × CreationAction))
      (last : Creations) (input : CallInput) (c : Creation) (error : String) (unavailable : Bool)
      (hcall : call = .ok args)
      (hstays : ∀ q ∈ during ++ [(last, .go name input)],
        (q.1.sessions.get? name).isSome = true)
      (hreplies : (creations env ttl).replies last (.go name input) = some (c, .error error)) :
      Answered env ttl call name ((s, .start name args) :: (during ++ [(last, .go name input)]))
        (.refused (storeError unavailable))

/-! ## A call whose key is there -/

/-- **A call whose key has its row**, with its own fingerprint: it has not looked yet, or has found
the deposit of the row. -/
structure Creation.Repeats (c : Creation) (slot : String × String) (row : KeyRow) : Prop where
  idem : ∃ idem, c.args.idempotency = some idem ∧ (c.args.userId, idem.key) = slot ∧
    row.requestHash = idem.fingerprint
  stage : c.stage = .lookup false ∨ c.stage = .found false row.depositId

/-- A state with the row, in which a call repeats it. -/
structure Repeating (env : Env) (slot : String × String) (row : KeyRow) (name : ℕ)
    (s : Creations) : Prop where
  sound : Sound env s
  there : s.shared.keys.get? slot = some row
  call : ∀ {c}, s.sessions.get? name = some c → c.Repeats slot row

section Repeats

variable {env : Env} {ttl : ℤ} {slot : String × String} {row : KeyRow} {c : Creation}
  {others : List Creation} {store : Store} {d : Deposit}

/-- It looks its key up, -/
theorem Creation.Repeats.next_lookup (env : Env) (others : List Creation) (h : c.Repeats slot row)
    (hstage : c.stage = .lookup false) (hrow : store.keys.get? slot = some row) :
    c.next env others store .go = some (c.on (.found false row.depositId)) := by
  obtain ⟨idem, hidem, rfl, hsame⟩ := h.idem
  rw [Creation.next, Creation.go, hstage, hidem]
  simp only [hrow]
  exact if_neg (not_not.mpr hsame)

/-- and then loads the deposit. -/
theorem Creation.Repeats.next_found (env : Env) (others : List Creation)
    (hstage : c.stage = .found false row.depositId)
    (hd : store.world.db.deposits.get? row.depositId = some d) :
    c.next env others store .go = some (.leave (.ok (.replayed d))) := by
  rw [Creation.next, Creation.go, hstage]
  simp only [hd]

/-- **Nothing else can happen to it**, but that a statement fails. -/
theorem Creation.Repeats.next_eq_some (h : c.Repeats slot row)
    (hrow : store.keys.get? slot = some row)
    (hd : store.world.db.deposits.get? row.depositId = some d) {input : CallInput}
    {turn : CallTurn} (hnext : c.next env others store input = some turn) :
    turn = c.on (.found false row.depositId) ∧ input = .go ∨
    turn = .leave (.ok (.replayed d)) ∧ input = .go ∨
    ∃ error, turn = .leave (.error error) ∧ input = .failed error := by
  cases input with
  | go =>
    rcases h.stage with hstage | hstage
    · rw [h.next_lookup env others hstage hrow] at hnext
      exact .inl ⟨(Option.some.inj hnext).symm, rfl⟩
    · rw [next_found env others hstage hd] at hnext
      exact .inr (.inl ⟨(Option.some.inj hnext).symm, rfl⟩)
  | insert id =>
    obtain ⟨hbegun, -⟩ := Option.ite_none_right_eq_some.mp hnext
    rcases h.stage with hstage | hstage
    · rw [hstage] at hbegun
      cases hbegun
    · rw [hstage] at hbegun
      cases hbegun
  | commit mint lost =>
    rw [Creation.next] at hnext
    rcases h.stage with hstage | hstage
    · rw [hstage] at hnext
      cases hnext
    · rw [hstage] at hnext
      cases hnext
  | failed error => exact .inr (.inr ⟨error, (Option.some.inj hnext).symm, rfl⟩)

end Repeats

namespace Repeating

variable {env : Env} {ttl : ℤ} {slot : String × String} {row : KeyRow} {name : ℕ}
  {s t : Creations} {c : Creation}

/-- The deposit of the row is there. -/
theorem exists_deposit (h : Repeating env slot row name s) :
    ∃ d, s.shared.world.db.deposits.get? row.depositId = some d :=
  Option.isSome_iff_exists.mp (h.sound.owned h.there)

/-- **A turn of the call.** -/
theorem turn (h : Repeating env slot row name s) {input : CallInput} {turn : CallTurn}
    (hturn : (creations env ttl).turn s (.go name input) = some (c, turn)) :
    (turn = c.on (.found false row.depositId) ∧ input = .go) ∨
    (∃ d, d.id = row.depositId ∧ turn = .leave (.ok (.replayed d)) ∧ input = .go) ∨
    ∃ error, turn = .leave (.error error) ∧ input = .failed error := by
  obtain ⟨_, _, heq, hc, hnext, -⟩ := Sessions.System.turn_eq_some hturn
  obtain ⟨rfl, rfl⟩ := Sessions.Action.go.inj heq
  obtain ⟨d, hd⟩ := h.exists_deposit
  rcases (h.call hc).next_eq_some h.there hd hnext with hon | ⟨hturn, hinput⟩ | hfailed
  · exact .inl hon
  · exact .inr (.inl ⟨d, Table.key_of_get? hd, hturn, hinput⟩)
  · exact .inr (.inr hfailed)

/-- **What it is told**, unless a statement fails. -/
theorem replies (h : Repeating env slot row name s) {input : CallInput}
    {r : Except String CreateOutcome}
    (hreplies : (creations env ttl).replies s (.go name input) = some (c, r)) :
    (∃ d, d.id = row.depositId ∧ r = .ok (.replayed d) ∧ input = .go) ∨
    ∃ error, r = .error error ∧ input = .failed error := by
  rcases Sessions.System.replies_eq_some hreplies with hturn | ⟨store, hturn⟩
  · rcases h.turn hturn with ⟨heq, -⟩ | ⟨d, hd, heq, hinput⟩ | ⟨error, heq, hinput⟩
    · cases heq
    · exact .inl ⟨d, hd, Sessions.Turn.leave.inj heq, hinput⟩
    · exact .inr ⟨error, Sessions.Turn.leave.inj heq, hinput⟩
  · rcases h.turn hturn with ⟨heq, -⟩ | ⟨d, -, heq, -⟩ | ⟨error, heq, -⟩
    · cases heq
    · cases heq
    · cases heq

/-- It never commits. -/
theorem commits_eq_none (h : Repeating env slot row name s) {a : CreationAction}
    (hof : a.isOf name = true) : (creations env ttl).commits s a = none := by
  refine Option.eq_none_iff_forall_ne_some.mpr ?_
  intro c hcommits
  obtain ⟨store, r, hturn⟩ := Sessions.System.commits_eq_some hcommits
  obtain ⟨name', input, rfl, -⟩ := Sessions.System.turn_eq_some hturn
  obtain rfl : name' = name := of_decide_eq_true hof
  rcases h.turn hturn with ⟨heq, -⟩ | ⟨d, -, heq, -⟩ | ⟨error, heq, -⟩
  · cases heq
  · cases heq
  · cases heq

/-- **Every step keeps it so**, unless it prunes the key. -/
theorem step (h : Repeating env slot row name s) {a : CreationAction}
    (hstays : (s.sessions.get? name).isSome = true)
    (hstep : (creations env ttl).step s a = some t) (hprunes : s.prunes ttl slot a = false) :
    Repeating env slot row name t where
  sound := h.sound.step hstep
  there := key_stays h.sound hstep hprunes h.there
  call := by
    intro c hc
    rcases Sessions.System.step_session hstep hc with hold | ⟨args, rfl, -⟩ |
      ⟨c', input, rfl, hc', hnext⟩
    · exact h.call hold
    · -- the name is taken
      obtain ⟨hfree, -⟩ := Option.ite_none_right_eq_some.mp hstep
      rw [Option.isNone_iff_eq_none] at hfree
      rw [hfree] at hstays
      cases hstays
    · obtain ⟨d, hd⟩ := h.exists_deposit
      rcases (h.call hc').next_eq_some h.there hd hnext with ⟨heq, -⟩ | ⟨heq, -⟩ | ⟨error, heq, -⟩
      · obtain rfl := Sessions.Turn.on.inj heq
        exact ⟨(h.call hc').idem, .inr rfl⟩
      · cases heq
      · cases heq

/-- **Over a run** in which the call stays. -/
theorem run {steps : List (Creations × CreationAction)} (h : Repeating env slot row name s)
    (hrun : Lts.Trace (creations env ttl).step s steps t)
    (hstays : ∀ q ∈ steps, (q.1.sessions.get? name).isSome = true)
    (hprunes : ∀ q ∈ steps, q.1.prunes ttl slot q.2 = false) :
    (∀ q ∈ steps, Repeating env slot row name q.1) ∧ Repeating env slot row name t := by
  induction hrun with
  | nil => exact ⟨fun q hq => (nomatch hq), h⟩
  | @concat steps t u a _ hstep ih =>
    obtain ⟨hsteps, ht⟩ := ih (fun q hq => hstays q (List.mem_append_left _ hq))
      fun q hq => hprunes q (List.mem_append_left _ hq)
    have hlast : (t, a) ∈ steps ++ [(t, a)] := List.mem_append_right _ (List.mem_singleton_self _)
    refine ⟨?_, ht.step (hstays _ hlast) hstep (hprunes _ hlast)⟩
    intro q hq
    rcases List.mem_append.mp hq with hold | hq
    · exact hsteps q hold
    · obtain rfl := List.mem_singleton.mp hq
      exact ht

/-- Its key is looked up, -/
theorem look (ttl : ℤ) (h : Repeating env slot row name s) (hc : s.sessions.get? name = some c)
    (hstage : c.stage = .lookup false) :
    ∃ t c', (creations env ttl).step s (.go name .go) = some t ∧
      t.sessions.get? name = some c' ∧ c'.stage = .found false row.depositId := by
  have hstep : (creations env ttl).step s (.go name .go) =
      some (s.after name (c.on (.found false row.depositId))) :=
    (Sessions.System.turn_of_next hc ((h.call hc).next_lookup env _ hstage h.there)).2
  exact ⟨_, _, hstep, KeyMap.get?_put_self _ _ _, rfl⟩

/-- and the deposit is loaded. -/
theorem load (ttl : ℤ) (h : Repeating env slot row name s) (hc : s.sessions.get? name = some c)
    (hstage : c.stage = .found false row.depositId) :
    ∃ t d, (creations env ttl).step s (.go name .go) = some t ∧
      (creations env ttl).replies s (.go name .go) = some (c, .ok (.replayed d)) := by
  obtain ⟨d, hd⟩ := h.exists_deposit
  have hnext : (creations env ttl).next (s.sessions.erase name).values s.shared c .go =
      some (.leave (.ok (.replayed d))) := Creation.Repeats.next_found env _ hstage hd
  obtain ⟨hturn, hstep⟩ := Sessions.System.turn_of_next hc hnext
  refine ⟨_, d, hstep, ?_⟩
  rw [Sessions.System.replies, hturn]
  rfl

end Repeating

/-- **A statement that fails ends its call**, so none has while the call is there. -/
theorem not_failed_of_stays {env : Env} {ttl : ℤ} {name : ℕ} {s t : Creations}
    {steps : List (Creations × CreationAction)}
    (hrun : Lts.Trace (creations env ttl).step s steps t)
    (hstays : ∀ q ∈ steps, (q.1.sessions.get? name).isSome = true)
    (hlast : (t.sessions.get? name).isSome = true) {error : String} :
    ∀ q ∈ steps, q.2 ≠ .go name (.failed error) := by
  induction hrun with
  | nil => exact fun q hq => nomatch hq
  | @concat steps t u a _ hstep ih =>
    intro q hq hfailed
    rcases List.mem_append.mp hq with hold | hq
    · refine ih (fun q hq => hstays q (List.mem_append_left _ hq)) ?_ q hold hfailed
      exact hstays (t, a) (List.mem_append_right _ (List.mem_singleton_self _))
    · obtain rfl := List.mem_singleton.mp hq
      obtain rfl : a = .go name (.failed error) := hfailed
      obtain ⟨⟨c, turn⟩, hturn, rfl⟩ := Option.map_eq_some_iff.mp hstep
      obtain ⟨_, _, heq, -, hnext, -⟩ := Sessions.System.turn_eq_some hturn
      obtain ⟨rfl, rfl⟩ := Sessions.Action.go.inj heq
      obtain rfl := Option.some.inj hnext
      rw [Sessions.State.after, Sessions.State.without, KeyMap.get?_erase_self] at hlast
      cases hlast

/-! ## A post and its copy -/

section Posted

variable (lib : Crates) (keccak256 : List UInt8 → B256) (parseUrl : String → Except String Url)
  (sha256 : List UInt8 → List UInt8) (env : Env) (ttl : ℤ)

/-- **A post has created a deposit** under a key, in some run, and the key has not been pruned
since. -/
def Posted (post : Post) (key : String) (id : Uuid) (s : Creations) : Prop :=
  idempotencyKey post.header = .ok (some key) ∧
  ∃ (clock : DateTime) (before : List (Creations × CreationAction))
    (p : Creations × CreationAction) (between : List (Creations × CreationAction)) (v : Validator)
    (now : DateTime) (salt : B256) (c : Creation),
    Lts.Trace (creations env ttl).step (Creations.init clock) (before ++ p :: between) s ∧
    (creations env ttl).commits p.1 p.2 = some c ∧
    post.call lib keccak256 parseUrl sha256 v now salt = .ok c.args ∧ c.inserted = some id ∧
    ∀ q ∈ between, q.1.prunes ttl (post.userId, key) q.2 = false

variable {lib keccak256 parseUrl sha256 env ttl} {post : Post} {key : String} {id : Uuid}
  {s t : Creations} {req : CreateDepositRequest}

/-- **It has left a row**, with its fingerprint and its deposit. -/
theorem Posted.exists_row (h : Posted lib keccak256 parseUrl sha256 env ttl post key id s)
    (hreq : post.body = .ok req) :
    Sound env s ∧ ∃ row, s.shared.keys.get? (post.userId, key) = some row ∧
      row.requestHash = requestFingerprint lib sha256 req ∧ row.depositId = id := by
  obtain ⟨hkey, clock, before, p, between, v, now, salt, c, hrun, hcommits, hcall, hid, hprunes⟩ := h
  obtain ⟨hbefore, u, hstep, hbetween⟩ := hrun.cut
  have hsound : Sound env p.1 := .ofReaches hbefore.reaches
  obtain ⟨req', key', new, hreq', hkey', -, hargs⟩ := Post.call_eq_ok.mp hcall
  obtain rfl := Except.ok.inj (hreq.symm.trans hreq')
  obtain rfl := Except.ok.inj (hkey.symm.trans hkey')
  have hslot : c.args.slot = some (post.userId, key) := by rw [← hargs]; rfl
  have hidem : c.args.idempotency = some ⟨key, requestFingerprint lib sha256 req⟩ := by
    rw [← hargs]; rfl
  obtain ⟨-, row, hrow, hwinner⟩ := winner_commit hsound hcommits hstep hslot
  rw [Creations.winner, hcommits, Option.bind_some, if_pos hslot, hidem, Option.bind_some, hid]
    at hwinner
  obtain ⟨hhash, hdeposit⟩ := Prod.mk.inj (Option.some.inj hwinner)
  obtain ⟨hs, hthere⟩ := key_stays_run (hsound.step hstep) hbetween hprunes hrow
  exact ⟨hs, row, hthere, hhash.symm, hdeposit.symm⟩

/-- **Its copy repeats it**, once its call has started. -/
theorem Posted.repeating (h : Posted lib keccak256 parseUrl sha256 env ttl post key id s)
    {v : Validator} {now : DateTime} {salt : B256} {args : CreateDeposit} {name : ℕ}
    (hcall : post.call lib keccak256 parseUrl sha256 v now salt = .ok args)
    (hstep : (creations env ttl).step s (.start name args) = some t) :
    ∃ row, row.depositId = id ∧ Repeating env (post.userId, key) row name t := by
  obtain ⟨req, key', new, hreq, hkey, -, rfl⟩ := Post.call_eq_ok.mp hcall
  obtain rfl := Except.ok.inj (h.1.symm.trans hkey)
  obtain ⟨hs, row, hrow, hhash, hdeposit⟩ := h.exists_row hreq
  refine ⟨row, hdeposit, hs.step hstep, key_stays hs hstep rfl hrow, ?_⟩
  intro c hc
  obtain ⟨-, heq⟩ := Option.ite_none_right_eq_some.mp hstep
  obtain rfl := Option.some.inj heq
  rw [KeyMap.get?_put_self] at hc
  obtain rfl := Option.some.inj hc
  exact ⟨⟨_, rfl, rfl, hhash⟩, .inl rfl⟩

/-- To be called again, a post has to be valid again. -/
theorem Posted.called_iff (h : Posted lib keccak256 parseUrl sha256 env ttl post key id s)
    (hreq : post.body = .ok req) (v : Validator) (now : DateTime) (salt : B256) :
    (∃ args, post.call lib keccak256 parseUrl sha256 v now salt = .ok args) ↔
      ∃ new, v.validate lib keccak256 parseUrl req now salt = .ok new := by
  constructor
  · rintro ⟨args, hcall⟩
    obtain ⟨req', key', new, hreq', -, hnew, -⟩ := Post.call_eq_ok.mp hcall
    obtain rfl := Except.ok.inj (hreq.symm.trans hreq')
    exact ⟨new, hnew⟩
  · rintro ⟨new, hnew⟩
    exact ⟨_, Post.call_eq_ok.mpr ⟨req, some key, new, hreq, h.1, hnew, rfl⟩⟩

/-- **All through its call**, the copy repeats the post. -/
theorem Posted.handling (h : Posted lib keccak256 parseUrl sha256 env ttl post key id s)
    {v : Validator} {now : DateTime} {salt : B256} {args : CreateDeposit} {name : ℕ}
    {s' : Creations} {steps : List (Creations × CreationAction)}
    (hcall : post.call lib keccak256 parseUrl sha256 v now salt = .ok args)
    (hrun : Lts.Trace (creations env ttl).step s ((s', .start name args) :: steps) t)
    (hprunes : ∀ q ∈ (s', .start name args) :: steps, q.1.prunes ttl (post.userId, key) q.2 = false)
    (hstays : ∀ q ∈ steps, (q.1.sessions.get? name).isSome = true) :
    ∃ u row, Lts.Trace (creations env ttl).step u steps t ∧ row.depositId = id ∧
      ∀ q ∈ steps, Repeating env (post.userId, key) row name q.1 := by
  obtain ⟨rfl, u, hstep, hsteps⟩ := hrun.first
  obtain ⟨row, hdeposit, hu⟩ := h.repeating hcall hstep
  refine ⟨u, row, hsteps, hdeposit, (hu.run hsteps hstays ?_).1⟩
  exact fun q hq => hprunes q (List.mem_cons_of_mem _ hq)

/-- **A copy is a replay iff it is valid again**, and no statement fails. -/
theorem Posted.replayed_iff (h : Posted lib keccak256 parseUrl sha256 env ttl post key id s)
    (hreq : post.body = .ok req) {v : Validator} {now : DateTime} {salt : B256} {name : ℕ}
    {handling : List (Creations × CreationAction)} {r : CreateResponse}
    (hrun : Lts.Trace (creations env ttl).step s handling t)
    (hprunes : ∀ q ∈ handling, q.1.prunes ttl (post.userId, key) q.2 = false)
    (hanswered : Answered env ttl (post.call lib keccak256 parseUrl sha256 v now salt) name
      handling r) :
    (∃ d, r = .replayed d ∧ d.id = id) ↔
      (∃ new, v.validate lib keccak256 parseUrl req now salt = .ok new) ∧
        ∀ q ∈ handling, ∀ error, q.2 ≠ .go name (.failed error) := by
  have hcalled := h.called_iff hreq v now salt
  cases hanswered with
  | refused e hcall =>
    constructor
    · rintro ⟨d, hr, -⟩
      cases hr
    · rintro ⟨hvalid, -⟩
      obtain ⟨args, hargs⟩ := hcalled.mpr hvalid
      rw [hcall] at hargs
      cases hargs
  | called args s' during last input c outcome hcall hstays hreplies =>
    obtain ⟨u, row, hsteps, hdeposit, hrepeating⟩ := h.handling hcall hrun hprunes hstays
    have hlast := hrepeating (last, .go name input) (List.mem_append_right _ (List.mem_singleton_self _))
    rcases hlast.replies hreplies with ⟨d, hd, hr, rfl⟩ | ⟨error, hr, -⟩
    · obtain rfl := Except.ok.inj hr
      refine iff_of_true ⟨d, rfl, hd.trans hdeposit⟩ ⟨hcalled.mp ⟨args, hcall⟩, ?_⟩
      intro q hq error
      rcases List.mem_cons.mp hq with rfl | hq
      · exact nofun
      · rcases List.mem_append.mp hq with hduring | hq
        · refine not_failed_of_stays hsteps.last.1 ?_ ?_ q hduring
          · exact fun q hq => hstays q (List.mem_append_left _ hq)
          · exact hstays _ (List.mem_append_right _ (List.mem_singleton_self _))
        · obtain rfl := List.mem_singleton.mp hq
          exact nofun
    · cases hr
  | failed args s' during last input c error unavailable hcall hstays hreplies =>
    obtain ⟨u, row, -, -, hrepeating⟩ := h.handling hcall hrun hprunes hstays
    have hmem : (last, .go name input) ∈ during ++ [(last, .go name input)] :=
      List.mem_append_right _ (List.mem_singleton_self _)
    constructor
    · rintro ⟨d, hr, -⟩
      cases hr
    · rintro ⟨-, hserved⟩
      rcases (hrepeating _ hmem).replies hreplies with ⟨d, -, hr, -⟩ | ⟨error', -, rfl⟩
      · cases hr
      · exact absurd rfl (hserved _ (List.mem_cons_of_mem _ hmem) error')

/-- **It never creates another deposit.** -/
theorem Posted.no_commit (h : Posted lib keccak256 parseUrl sha256 env ttl post key id s)
    {v : Validator} {now : DateTime} {salt : B256} {name : ℕ}
    {handling : List (Creations × CreationAction)} {r : CreateResponse}
    (hrun : Lts.Trace (creations env ttl).step s handling t)
    (hprunes : ∀ q ∈ handling, q.1.prunes ttl (post.userId, key) q.2 = false)
    (hanswered : Answered env ttl (post.call lib keccak256 parseUrl sha256 v now salt) name
      handling r) :
    ∀ q ∈ handling, q.2.isOf name = true → (creations env ttl).commits q.1 q.2 = none := by
  intro q hq hof
  cases hanswered with
  | refused e hcall => cases hq
  | called args s' during last input c outcome hcall hstays hreplies =>
    obtain ⟨u, row, -, -, hrepeating⟩ := h.handling hcall hrun hprunes hstays
    rcases List.mem_cons.mp hq with rfl | hq
    · rfl
    · exact (hrepeating q hq).commits_eq_none hof
  | failed args s' during last input c error unavailable hcall hstays hreplies =>
    obtain ⟨u, row, -, -, hrepeating⟩ := h.handling hcall hrun hprunes hstays
    rcases List.mem_cons.mp hq with rfl | hq
    · rfl
    · exact (hrepeating q hq).commits_eq_none hof

/-- **It can always be answered**: it is refused at once, or the key is looked up and the deposit
loaded. -/
theorem Posted.exists_answer (h : Posted lib keccak256 parseUrl sha256 env ttl post key id s)
    (v : Validator) (now : DateTime) (salt : B256) {name : ℕ}
    (hfree : s.sessions.get? name = none) :
    ∃ (handling : List (Creations × CreationAction)) (t : Creations) (r : CreateResponse),
      Lts.Trace (creations env ttl).step s handling t ∧
      (∀ q ∈ handling, q.1.prunes ttl (post.userId, key) q.2 = false) ∧
      (∀ q ∈ handling, ∀ error, q.2 ≠ .go name (.failed error)) ∧
      Answered env ttl (post.call lib keccak256 parseUrl sha256 v now salt) name handling r := by
  cases hcall : post.call lib keccak256 parseUrl sha256 v now salt with
  | error e =>
    exact ⟨[], s, .refused e, .nil, fun q hq => (nomatch hq), fun q hq => (nomatch hq), .refused e rfl⟩
  | ok args =>
    have hstart : (creations env ttl).step s (.start name args) =
        some { s with sessions := s.sessions.put name (.start args) } := by
      refine if_pos ?_
      rw [hfree]
      rfl
    have hc := KeyMap.get?_put_self s.sessions name (.start args)
    obtain ⟨row, -, hrepeating⟩ := h.repeating hcall hstart
    have hstage : (Creation.start args).stage = .lookup false :=
      (hrepeating.call hc).stage.resolve_right (Creation.start_stage_ne args false row.depositId)
    obtain ⟨t, c, hlooks, hc', hfound⟩ := hrepeating.look ttl hc hstage
    have hstays := Option.isSome_iff_exists.mpr ⟨_, hc⟩
    obtain ⟨u, d, hloads, hreplies⟩ := (hrepeating.step hstays hlooks rfl).load ttl hc' hfound
    refine ⟨_, u, _, .cons hstart (.cons hlooks (.cons hloads .nil)), ?_, ?_,
      .called args s [(_, .go name .go)] t .go c (.replayed d) rfl ?_ hreplies⟩
    · intro q hq
      simp only [List.mem_cons, List.not_mem_nil, or_false] at hq
      rcases hq with rfl | rfl | rfl <;> rfl
    · intro q hq error
      simp only [List.mem_cons, List.not_mem_nil, or_false] at hq
      rcases hq with rfl | rfl | rfl <;> exact nofun
    · intro q hq
      rcases List.mem_append.mp hq with hq | hq
      · obtain rfl := List.mem_singleton.mp hq
        exact hstays
      · obtain rfl := List.mem_singleton.mp hq
        exact Option.isSome_iff_exists.mpr ⟨c, hc'⟩

end Posted

/-- **A post that has created a deposit, sent again.** Whatever has happened since, as long as the key
is not pruned, and whatever the configuration and the time are by now:

* the copy is answered as a replay of that deposit if and only if its body passes the checks of a new
  request once more, and no statement of its call fails;
* it commits nothing in any case;
* it can be answered wherever it comes in. -/
theorem post_replayed_iff (lib : Crates) (keccak256 : List UInt8 → B256)
    (parseUrl : String → Except String Url) (sha256 : List UInt8 → List UInt8) (env : Env) (ttl : ℤ)
    (post : Post) (req : CreateDepositRequest) (key : String) (id : Uuid) (s : Creations)
    (hreq : post.body = .ok req)
    (h : Posted lib keccak256 parseUrl sha256 env ttl post key id s)
    (v : Validator) (now : DateTime) (salt : B256) (name : ℕ) :
    (∀ (handling : List (Creations × CreationAction)) (t : Creations) (r : CreateResponse),
      Lts.Trace (creations env ttl).step s handling t →
      (∀ q ∈ handling, q.1.prunes ttl (post.userId, key) q.2 = false) →
      Answered env ttl (post.call lib keccak256 parseUrl sha256 v now salt) name handling r →
      ((∃ d, r = .replayed d ∧ d.id = id) ↔
        (∃ new, v.validate lib keccak256 parseUrl req now salt = .ok new) ∧
          ∀ q ∈ handling, ∀ error, q.2 ≠ .go name (.failed error)) ∧
      ∀ q ∈ handling, q.2.isOf name = true → (creations env ttl).commits q.1 q.2 = none) ∧
    (s.sessions.get? name = none →
      ∃ (handling : List (Creations × CreationAction)) (t : Creations) (r : CreateResponse),
      Lts.Trace (creations env ttl).step s handling t ∧
      (∀ q ∈ handling, q.1.prunes ttl (post.userId, key) q.2 = false) ∧
      (∀ q ∈ handling, ∀ error, q.2 ≠ .go name (.failed error)) ∧
      Answered env ttl (post.call lib keccak256 parseUrl sha256 v now salt) name handling r) := by
  refine ⟨?_, ?_⟩
  · intro handling t r hrun hprunes hanswered
    exact ⟨h.replayed_iff hreq hrun hprunes hanswered, h.no_commit hrun hprunes hanswered⟩
  · intro hfree
    exact h.exists_answer v now salt hfree

/-! ## The fixture's request, posted again -/

namespace Fixture

/-- The text of a JSON string without control characters. -/
def quoted (s : String) : String :=
  "\"" ++ String.ofList (s.toList.flatMap fun c =>
    if c = '"' ∨ c = '\\' then ['\\', c] else [c]) ++ "\""

/-- The text of a JSON value that is no array, object or fraction. -/
def displayFlat : Value → String
  | .null => "null"
  | .bool b => toString b
  | .number (.posInt n) => toString n.val
  | .number (.negInt n) => toString n
  | .string s => quoted s
  | _ => ""

/-- The text of a flat JSON value; an object keeps its keys in order. -/
def display : Value → String
  | .object fields =>
    let sorted := fields.mergeSort fun a b => decide (a.1 ≤ b.1)
    "\x7b" ++ ",".intercalate (sorted.map fun f => quoted f.1 ++ ":" ++ displayFlat f.2) ++ "\x7d"
  | v => displayFlat v

/-- The parsers, with the texts of flat values. -/
def crates : Crates := { Crates.reference with displayValue := display }

/-- The digest of the canonical text of the fixture's request. -/
def sha256 (_ : List UInt8) : List UInt8 := [
  41, 66, 112, 182, 93, 161, 164, 85, 98, 183, 95, 222, 202, 177, 205, 220,
  48, 32, 253, 110, 96, 172, 146, 83, 187, 75, 67, 214, 212, 117, 199, 111]

/-- The fixture's request, posted under a key. -/
def post : Post := ⟨"user", some [107, 101, 121], .ok request⟩

/-- What it asks for at a time. -/
def posted (now : DateTime) (salt : B256) : Except ApiError CreateDeposit :=
  post.call crates keccak256 parseUrl sha256 validator now salt

/-- The call. -/
def asked (now : DateTime) (salt : B256) : CreateDeposit :=
  (posted now salt).toOption.getD (calling 0 [])

/-- The post is made an hour before the deposit expires, and then time passes. -/
def once (secs : ℕ) : List CreationAction := [
  .rest (.service (.setUser "user" none)),
  .start 0 (asked requestedAt 1), .go 0 .go, .go 0 (.insert 7), .go 0 .go,
  .go 0 (.commit (mint 0) none), .rest (.service (.tick (later secs)))]

/-- What its commit is of, whether the key is pruned later, whether the name 1 is free, and the
time by then. -/
def created (p : List (Creations × CreationAction) × Creations) :
    Option (Bool × Option Uuid × Bool × Bool × DateTime) :=
  match p.1.drop 5 with
  | [] => none
  | q :: between => ((creations env 86400).commits q.1 q.2).map fun c =>
    (decide ((posted requestedAt 1).toOption = some c.args), c.inserted,
      between.any fun q => q.1.prunes 86400 ("user", "key") q.2, (p.2.sessions.get? 1).isNone,
      p.2.shared.world.clock)

theorem exists_posted (secs : ℕ)
    (h : (Lts.trace (creations env 86400).step (Creations.init requestedAt) (once secs)).bind
      created = some (true, some 7, false, true, later secs)) :
    ∃ s, Posted crates keccak256 parseUrl sha256 env 86400 post "key" 7 s ∧
      s.sessions.get? 1 = none ∧ s.shared.world.clock = later secs := by
  obtain ⟨steps, s, hrun, hcreated⟩ := Lts.exists_trace_of_trace h
  rw [created] at hcreated
  split at hcreated
  · cases hcreated
  · next q between hdrop =>
    obtain ⟨c, hcommits, heq⟩ := Option.map_eq_some_iff.mp hcreated
    simp only [Prod.mk.injEq, decide_eq_true_eq, Option.isNone_iff_eq_none] at heq
    obtain ⟨hcall, hid, hprunes, hfree, hclock⟩ := heq
    rw [← List.take_append_drop 5 steps, hdrop] at hrun
    refine ⟨s, ⟨by decide +kernel, requestedAt, _, q, between, validator, requestedAt, 1, c, hrun,
      hcommits, ?_, hid, ?_⟩, hfree, hclock⟩
    · exact toOption_eq_some.mp hcall
    · intro p hp
      exact Bool.eq_false_of_not_eq_true (List.any_eq_false.mp hprunes p hp)

end Fixture

/-- **Ten minutes later** the post is a replay. -/
theorem post_replayed_iff_fixture : ∃ s handling t d,
    s.shared.world.clock = Fixture.later 600 ∧
    Lts.Trace (creations Fixture.env 86400).step s handling t ∧
    Answered Fixture.env 86400 (Fixture.posted (Fixture.later 600) 2) 1 handling (.replayed d) ∧
    d.id = 7 := by
  obtain ⟨s, hposted, hfree, hclock⟩ := Fixture.exists_posted 600 (by decide +kernel)
  have hvalid : ∃ new, Fixture.validator.validate Fixture.crates Fixture.keccak256 Fixture.parseUrl
      Fixture.request (Fixture.later 600) 2 = .ok new := by
    have hsome : ((Fixture.validator.validate Fixture.crates Fixture.keccak256 Fixture.parseUrl
      Fixture.request (Fixture.later 600) 2).toOption).isSome = true := by decide +kernel
    obtain ⟨new, hnew⟩ := Option.isSome_iff_exists.mp hsome
    exact ⟨new, toOption_eq_some.mp hnew⟩
  obtain ⟨hiff, hanswer⟩ := post_replayed_iff Fixture.crates Fixture.keccak256 Fixture.parseUrl
    Fixture.sha256 Fixture.env 86400 Fixture.post Fixture.request "key" 7 s rfl hposted
    Fixture.validator (Fixture.later 600) 2 1
  obtain ⟨handling, t, r, hrun, hprunes, hserved, hanswered⟩ := hanswer hfree
  obtain ⟨d, rfl, hd⟩ := (hiff handling t r hrun hprunes hanswered).1.mpr ⟨hvalid, hserved⟩
  exact ⟨s, handling, t, d, hclock, hrun, hanswered, hd⟩

/-- **Less than five minutes before the deposit expires** the same post is refused, with the key and
the deposit still there. -/
theorem post_not_replayed : ∃ s,
    Posted Fixture.crates Fixture.keccak256 Fixture.parseUrl Fixture.sha256 Fixture.env 86400
      Fixture.post "key" 7 s ∧
    s.shared.world.clock = Fixture.later 3400 ∧
    Answered Fixture.env 86400 (Fixture.posted (Fixture.later 3400) 2) 1 []
      (.refused (.invalid "expires_at must be at least 300 seconds in the future")) := by
  obtain ⟨s, hposted, -, hclock⟩ := Fixture.exists_posted 3400 (by decide +kernel)
  refine ⟨s, hposted, hclock, .refused _ ?_⟩
  rfl

end GumServer
