import GumServer.Attempts
import GumServer.Stored
import Mathlib.Data.List.DropRight
import Std.Data.String.ToInt

/-!
# What the upstreams are asked for

The indexer is asked to watch an address, and later the engine to execute terms. They are two
services, asked by different workers, each from a row it read some time ago, and any number of
times: a worker may crash after its call, and an answer may be lost. A payment arrives only if they
are all asked for the same: for the address at which the factory executes the terms, and for the
amount, the token and the expiry that the terms name.

They are, in every run (`upstreams_asked_alike`), and no two deposits share a watched address.
-/

namespace GumServer

/-! ## The requests -/

/-- `clients::indexer::CreateWatch`. -/
structure CreateWatch where
  paymentAddress : Address
  chain : String
  token : Address
  balanceThreshold : String
  webhookEndpoint : String
  expiresAt : DateTime
  /-- when the address was handed out: the indexer scans back to here -/
  paymentsSince : DateTime
deriving DecidableEq

/-- `webhook_url`. -/
def AppState.webhookUrl (callbackBaseUrl path : String) : String :=
  String.ofList (callbackBaseUrl.toList.rdropWhile fun c => c == '/') ++ path

/-- The request `register_watch` makes for a deposit; `none` is the panic on text that does not
parse. -/
def Deposit.createWatch (lib : Crates) (callbackBaseUrl : String) (d : Deposit) :
    Option CreateWatch := do
  let paymentAddress ← d.paymentAddressOf lib
  let token ← lib.parseAddress d.tokenAddress
  some {
    paymentAddress
    chain := toString d.chainId
    token
    balanceThreshold := d.amount
    webhookEndpoint := AppState.webhookUrl callbackBaseUrl "/v1/webhooks/indexer"
    expiresAt := d.expiresAt
    paymentsSince := d.createdAt }

/-- The deposit whose watch an action asks the indexer for. Whatever it answers, and whether or not
the worker learns of it, it has been asked. -/
def World.registers (w : World) : Action → Option Deposit
  | .advance name (.watch _) _ =>
    match w.tasks.get? name with
    | some (.worker _ (.registering d)) => some d
    | _ => none
  | _ => none

/-- The registrations of a run. -/
def registrations (steps : List (World × Action)) : List Deposit :=
  steps.filterMap fun s => s.1.registers s.2

theorem World.of_registers {w : World} {a : Action} {d : Deposit} (h : w.registers a = some d) :
    ∃ name job, w.tasks.get? name = some (.worker job (.registering d)) := by
  rw [World.registers.eq_def] at h
  split at h
  · split at h
    · next job d' ht =>
      obtain rfl := Option.some.inj h
      exact ⟨_, job, ht⟩
    · cases h
  · cases h

/-! ## What they come from -/

namespace NewDeposit

variable (new : NewDeposit)

/-- The terms of a new deposit. -/
def terms : PaymentTerms where
  token := new.tokenAddress
  amount := new.amount
  calls := new.calls
  expirationTimestamp := U64.ofInt new.expiresAt.timestamp
  recovery := new.recovery
  salt := new.salt
  chainId := new.chainId

/-- The watch to be asked for, for a deposit created at some time. -/
def watch (callbackBaseUrl : String) (createdAt : DateTime) : CreateWatch where
  paymentAddress := new.paymentAddress
  chain := toString new.chainId.toI64
  token := new.tokenAddress
  balanceThreshold := toString new.amount.val
  webhookEndpoint := AppState.webhookUrl callbackBaseUrl "/v1/webhooks/indexer"
  expiresAt := new.expiresAt
  paymentsSince := createdAt

/-- The settlement to be submitted. -/
def submission (factory : Address) (callbackBaseUrl : String) : SubmitTransaction where
  chainId := new.chainId
  target := factory
  data := new.terms.executeCalldata
  webhook := AppState.webhookUrl callbackBaseUrl "/v1/webhooks/engine"

/-- A new deposit as `validate` makes it: its address is that of its terms, and it expires at a
whole second. -/
structure Committed (keccak256 : List UInt8 → B256) (factory : Address) : Prop where
  address : new.paymentAddress = new.terms.paymentAddress keccak256 factory
  expiresAt : DateTime.ofMicros new.expiresAt.toMicros = some new.expiresAt

variable {new}

theorem Committed.of_validate {lib : Crates} {keccak256 : List UInt8 → B256}
    {parseUrl : String → Except String Url} {v : Validator} {req : CreateDepositRequest}
    {now : DateTime} {salt : B256}
    (h : Validator.validate lib keccak256 parseUrl v req now salt = .ok new) :
    new.Committed keccak256 v.factory := by
  obtain ⟨_, chain, token, amount, receiver, reference, url, -, -, -, -, -, -, -, rfl⟩ :=
    Validator.validate_eq_ok h
  exact ⟨rfl, req.expiresAt.ofMicros_toMicros_wholeSeconds⟩

end NewDeposit

section Rows

variable {d : Deposit} {new : NewDeposit} {keccak256 : List UInt8 → B256} {factory : Address}

/-- What is asked of the indexer for a row. -/
theorem Holds.createWatch (h : Holds d new) (hnew : new.Committed keccak256 factory) (lib : Crates)
    (callbackBaseUrl : String) :
    d.createWatch lib callbackBaseUrl = some (new.watch callbackBaseUrl d.createdAt) := by
  have hexpires : d.expiresAt = new.expiresAt :=
    Option.some.inj (h.expiresAt.symm.trans hnew.expiresAt)
  rw [Deposit.createWatch, Deposit.paymentAddressOf, h.paymentAddress, h.tokenAddress]
  simp only [Crates.parseAddress_lowerHex, Option.bind_eq_bind, Option.bind_some]
  rw [h.chainId, h.amount, hexpires]
  rfl

/-- And of the engine. -/
theorem Holds.submitTransaction (h : Holds d new) (hnew : new.Committed keccak256 factory)
    (lib : Crates) (callbackBaseUrl : String) :
    d.submitTransaction lib factory (AppState.webhookUrl callbackBaseUrl "/v1/webhooks/engine") =
      some (new.submission factory callbackBaseUrl) := by
  have hexpires : d.expiresAt = new.expiresAt :=
    Option.some.inj (h.expiresAt.symm.trans hnew.expiresAt)
  rw [Deposit.submitTransaction, h.terms lib, Option.map_some, h.chainId, U64.ofInt_toI64, hexpires]
  rfl

/-- No transition touches the time a deposit was created. -/
theorem Op.row_createdAt (op : Op) (now : DateTime) (d : Deposit) :
    (op.transition.row now d).createdAt = d.createdAt := by
  cases op with
  | markEngineSubmitted job replayed => cases replayed <;> rfl
  | _ => rfl

theorem Write.row_createdAt (write : Write) (now : DateTime) (d : Deposit) :
    (write.row now d).createdAt = d.createdAt := by
  rcases write.row_cases now d with hquiet | ⟨op, -, heq⟩
  · rw [hquiet.eq]
  · rw [heq, Op.row_createdAt, (write.quiet_bound now d).eq]

end Rows

/-! ## Runs -/

/-- The columns of a row that its watch is made of are those of an earlier reading. -/
def Watches (w : World) (d : Deposit) : Prop :=
  ∃ row, w.db.deposits.get? d.id = some row ∧ row.fixedTerms = d.fixedTerms ∧
    row.createdAt = d.createdAt

section Runs

variable {env : Env} {w w' : World} {a : Action} {d : Deposit}

theorem Watches.step (h : Watches w d) (hfit : JobsFit w) (hstep : step env w a = some w') :
    Watches w' d := by
  obtain ⟨row, hrow, hterms, hcreated⟩ := h
  refine ⟨_, hfit.row_after hstep hrow, ?_, ?_⟩
  · rw [Write.row_fixedTerms, hterms]
  · rw [Write.row_createdAt, hcreated]

/-- A row keeps these columns for the rest of the run. -/
theorem Watches.later (h : Watches w d) (hreachable : Reachable env w)
    (hrun : Lts.Reaches (GumServer.step env) Lts.Any w w') : Watches w' d := by
  refine hrun.invariant (P := fun w => Watches w d) h ?_
  intro t a u hreach hwatches _ hstep
  exact hwatches.step (.reachable (hreachable.trans hreach)) hstep

/-- A worker that is about to register a watch has just read the row. -/
theorem WorkerStep.row_of_registering {db : Db} {engine engine' : Engine} {job : OutboxJob}
    {stage : Stage} {input : Input} {write : Write}
    (h : WorkerStep env db engine job stage input write engine' (some (.registering d))) :
    db.deposits.get? job.depositId = some d := by
  generalize hnew : some (Stage.registering d) = new at h
  cases h with
  | load now =>
    have hload := Option.some.inj hnew
    rw [Worker.load.eq_def] at hload
    cases hd : db.deposits.get? job.depositId with
    | none =>
      rw [hd] at hload
      split at hload <;> cases hload
    | some row =>
      rw [hd] at hload
      split at hload
      · rw [Worker.loadRegister] at hload
        split_ifs at hload
        obtain rfl := Stage.registering.inj hload
        rfl
      · rw [Worker.loadSubmit] at hload
        split_ifs at hload
      · rw [Worker.loadNotify] at hload
        split_ifs at hload
  | watch d' answer => cases answer <;> cases hnew
  | submit d' key' reply engine'' hsubmit => cases reply <;> cases hnew
  | _ => cases hnew

/-- **Workers register what the rows say**, however long ago they read them. -/
theorem Reachable.registering (h : Reachable env w) {name : ℕ} {job : OutboxJob}
    (ht : w.tasks.get? name = some (.worker job (.registering d))) : Watches w d := by
  obtain ⟨clock, hreach⟩ := h
  refine hreach.invariant (P := fun w => ∀ {name job d},
    w.tasks.get? name = some (.worker job (.registering d)) → Watches w d) ?_ ?_ ht
  · intro name job d ht
    cases ht
  · intro w a w' hrun hold _ hstep name job d ht
    have hfit := JobsFit.reachable ⟨clock, hrun⟩
    cases step_worker hstep ht with
    | kept ht => exact (hold ht).step hfit hstep
    | advanced input write ht hcommits hworker =>
      have hrow := hworker.row_of_registering
      rw [← Table.key_of_get? hrow] at hrow
      have hread : Watches w d := ⟨d, hrow, rfl, rfl⟩
      exact hread.step hfit hstep

/-- **No two deposits have the same address on the same chain.** -/
theorem Reachable.addresses_differ (h : Reachable env w) {id id' : Uuid} {d' : Deposit}
    (hd : w.db.deposits.get? id = some d) (hd' : w.db.deposits.get? id' = some d')
    (hchain : d.chainId = d'.chainId) (haddress : d.paymentAddress = d'.paymentAddress) :
    id = id' := by
  obtain ⟨clock, hreach⟩ := h
  refine hreach.invariant (P := fun w => ∀ {id id' d d'}, w.db.deposits.get? id = some d →
    w.db.deposits.get? id' = some d' → d.chainId = d'.chainId →
    d.paymentAddress = d'.paymentAddress → id = id') ?_ ?_ hd hd' hchain haddress
  · intro id id' d d' hd
    cases hd
  · intro w a w' hrun hdiffer _ hstep id id' d d' hd hd' hchain haddress
    by_cases hcreate : ∃ new user id mint, a = .create new user id mint
    · obtain ⟨new, user, id, mint, rfl⟩ := hcreate
      cases step_cases hstep with
      | create _ _ row _ hinsert hfresh hinsertable =>
        rw [World.created_deposits] at hd hd'
        have hother {other : Deposit} {k : Uuid} (hother : w.db.deposits.get? k = some other)
            (hchain : other.chainId = row.chainId)
            (haddress : other.paymentAddress = row.paymentAddress) : False := by
          rw [World.insertable, Bool.and_eq_true, Bool.not_eq_true', List.any_eq_false]
            at hinsertable
          have hnone := hinsertable.2 other (Table.mem_of_get? hother)
          simp [hchain, haddress] at hnone
        split at hd <;> split at hd'
        · next hk hk' => exact hk.symm.trans hk'
        · obtain rfl := Option.some.inj hd
          exact (hother hd' hchain.symm haddress.symm).elim
        · obtain rfl := Option.some.inj hd'
          exact (hother hd hchain haddress).elim
        · exact hdiffer hd hd' hchain haddress
    · have hkept {k : Uuid} {d' : Deposit} (hd' : w'.db.deposits.get? k = some d') :
          ∃ d, w.db.deposits.get? k = some d ∧ d'.fixedTerms = d.fixedTerms := by
        rcases step_row_created hstep hd' with hold | ⟨new, user, mint, -, ha, -⟩
        · exact hold
        · exact absurd ⟨new, user, k, mint, ha⟩ hcreate
      obtain ⟨old, hold, hterms⟩ := hkept hd
      obtain ⟨old', hold', hterms'⟩ := hkept hd'
      refine hdiffer hold hold' ?_ ?_
      · exact (congrArg FixedTerms.chainId hterms).symm.trans
          (hchain.trans (congrArg FixedTerms.chainId hterms'))
      · exact (congrArg FixedTerms.paymentAddress hterms).symm.trans
          (haddress.trans (congrArg FixedTerms.paymentAddress hterms'))

/-- **A creation of a run** has left a row with its terms and its time. -/
theorem exists_row_of_create {clock : DateTime} {steps : List (World × Action)}
    (h : Lts.Trace (step env) (World.init clock) steps w) {u : World} {new : NewDeposit}
    {user : String} {id : Uuid} {mint : Mint} (hmem : (u, Action.create new user id mint) ∈ steps) :
    ∃ d, w.db.deposits.get? id = some d ∧ Holds d new ∧ d.createdAt = u.clock := by
  obtain ⟨u', hbefore, hstep, hafter⟩ := h.of_mem hmem
  have hreachable : Reachable env u' := Reachable.tail ⟨clock, hbefore⟩ hstep
  cases step_cases hstep with
  | create _ _ d _ hinsert hfresh hinsertable =>
    have hrow : (u.created d mint).deposits.get? d.id =
        some { d with eventSeq := d.eventSeq + 1 } := by
      rw [World.created_deposits, if_pos rfl]
    have hwatches : Watches { u with db := u.created d mint, minted := d.id :: mint.ids ++ u.minted }
        { d with eventSeq := d.eventSeq + 1 } := ⟨_, hrow, rfl, rfl⟩
    obtain ⟨row, hlast, hterms, hcreated⟩ := hwatches.later hreachable hafter
    have hkept : row.createdAt = d.createdAt := hcreated
    exact ⟨row, hlast, (Holds.of_insert hinsert).congr hterms,
      hkept.trans ((stamps_of_insert hinsert).1)⟩

/-- Whatever was registered is a row's own. -/
theorem registered_watches {clock : DateTime} {steps : List (World × Action)}
    (h : Lts.Trace (step env) (World.init clock) steps w) (hd : d ∈ registrations steps) :
    Watches w d := by
  obtain ⟨⟨t, a⟩, hmem, hregisters⟩ := List.mem_filterMap.mp hd
  obtain ⟨t', hbefore, hstep, hafter⟩ := h.of_mem hmem
  obtain ⟨name, job, ht⟩ := World.of_registers hregisters
  have hreachable : Reachable env t := ⟨clock, hbefore⟩
  exact (hreachable.registering ht).later hreachable
    ((Lts.Reaches.refl.tail trivial hstep).trans hafter)

end Runs

/-- What a run asks the upstreams for, on behalf of one new deposit. -/
structure AskedFor (lib : Crates) (factory : Address) (callbackBaseUrl : String)
    (steps : List (World × Action)) (id : Uuid) (new : NewDeposit) (createdAt : DateTime) :
    Prop where
  watch : ∀ d ∈ registrations steps, d.id = id →
    d.createWatch lib callbackBaseUrl = some (new.watch callbackBaseUrl createdAt)
  settle : ∀ d key, (d, key) ∈ submissions steps → d.id = id →
    d.submitTransaction lib factory (AppState.webhookUrl callbackBaseUrl "/v1/webhooks/engine") =
      some (new.submission factory callbackBaseUrl)

/-- **The upstreams are asked for the same.** In every run whose deposits are created from validated
requests, every registration and every submission for a deposit, by whatever worker and from however
old a reading of its row, is the one its request stands for: the address that is watched is that of
the very terms that are executed, from the time it was handed out; no row fails to parse. Each is for
a deposit that was created, and no two of these have the same address on the same chain. -/
theorem upstreams_asked_alike (env : Env) (lib : Crates) (keccak256 : List UInt8 → B256)
    (parseUrl : String → Except String Url) (v : Validator) (callbackBaseUrl : String)
    (clock : DateTime) (steps : List (World × Action)) (w : World)
    (h : Lts.Trace (step env) (World.init clock) steps w)
    (hvalid : ∀ u new user id mint, (u, Action.create new user id mint) ∈ steps →
      ∃ req now salt, Validator.validate lib keccak256 parseUrl v req now salt = .ok new) :
    (∀ u new user id mint, (u, Action.create new user id mint) ∈ steps →
      new.paymentAddress = new.terms.paymentAddress keccak256 v.factory ∧
      AskedFor lib v.factory callbackBaseUrl steps id new u.clock) ∧
    (∀ id, (∃ d ∈ registrations steps, d.id = id) ∨ (∃ p ∈ submissions steps, p.1.id = id) →
      ∃ u new user mint, (u, Action.create new user id mint) ∈ steps) ∧
    ∀ u new user id mint u' new' user' id' mint', (u, Action.create new user id mint) ∈ steps →
      (u', Action.create new' user' id' mint') ∈ steps →
      (new.watch callbackBaseUrl u.clock).chain = (new'.watch callbackBaseUrl u'.clock).chain →
      new.paymentAddress = new'.paymentAddress → id = id' := by
  have hreachable : Reachable env w := ⟨clock, h.reaches⟩
  have hcommitted {u : World} {new : NewDeposit} {user : String} {id : Uuid} {mint : Mint}
      (hmem : (u, Action.create new user id mint) ∈ steps) : new.Committed keccak256 v.factory := by
    obtain ⟨req, now, salt, hvalidated⟩ := hvalid u new user id mint hmem
    exact .of_validate hvalidated
  refine ⟨?_, ?_, ?_⟩
  · intro u new user id mint hmem
    obtain ⟨row, hrow, hholds, hcreated⟩ := exists_row_of_create h hmem
    refine ⟨(hcommitted hmem).address, ?_, ?_⟩
    · rintro d hd rfl
      obtain ⟨row', hrow', hterms, hcreated'⟩ := registered_watches h hd
      obtain rfl := Option.some.inj (hrow.symm.trans hrow')
      rw [(hholds.congr hterms.symm).createWatch (hcommitted hmem) lib, ← hcreated', hcreated]
    · rintro d key hsent rfl
      obtain ⟨-, row', hrow', hterms⟩ := sent_attempted h hsent
      obtain rfl := Option.some.inj (hrow.symm.trans hrow')
      exact (hholds.congr hterms.symm).submitTransaction (hcommitted hmem) lib callbackBaseUrl
  · intro id hasked
    have hrow : ∃ d, w.db.deposits.get? id = some d := by
      rcases hasked with ⟨d, hd, rfl⟩ | ⟨⟨d, key⟩, hsent, rfl⟩
      · obtain ⟨row, hrow, -⟩ := registered_watches h hd
        exact ⟨row, hrow⟩
      · obtain ⟨-, row, hrow, -⟩ := sent_attempted h hsent
        exact ⟨row, hrow⟩
    obtain ⟨d, hd⟩ := hrow
    obtain ⟨u, new, user, mint, hmem, -⟩ := (Founded.of_trace h).founded hd
    exact ⟨u, new, user, mint, hmem⟩
  · intro u new user id mint u' new' user' id' mint' hmem hmem' hchain haddress
    obtain ⟨d, hd, hholds, -⟩ := exists_row_of_create h hmem
    obtain ⟨d', hd', hholds', -⟩ := exists_row_of_create h hmem'
    refine hreachable.addresses_differ hd hd' ?_ ?_
    · rw [hholds.chainId, hholds'.chainId]
      exact Int.repr_injective hchain
    · rw [hholds.paymentAddress, hholds'.paymentAddress, haddress]

namespace Fixture

/-- The indexer is asked for a watch, which it has no time for; the payment comes all the same, and
the engine is asked to settle it. -/
def untilAsked : List Action := [
  .setUser "user" none,
  .create new "user" 7 (mint 0),
  .claim 0 (mint 0).job,
  .advance 0 (.load requestedAt) (mint 1),
  .advance 0 (.watch (.unavailable "indexer: 503")) (mint 2),
  .indexerEvent 1 thresholdReached (some 7),
  .advance 1 .go (mint 3),
  .claim 2 (mint 3).job,
  .advance 2 (.load requestedAt) (mint 4),
  .advance 2 (.submit (.accepted 500)) (mint 5)]

/-- The fixture's deposit is what its request is validated to. -/
theorem validated_new : validated = .ok new := by
  have hnew : validated.toOption = some new := by decide +kernel
  exact Checks.toOption_eq_some.mp hnew

end Fixture

/-- On the fixture's deposit. -/
theorem upstreams_asked_alike_fixture : ∃ steps w d d' key,
    Lts.Trace (step Fixture.env) (World.init Fixture.requestedAt) steps w ∧
    d ∈ registrations steps ∧ d.createWatch Crates.reference "https://gum.example/" =
      some (Fixture.new.watch "https://gum.example/" Fixture.requestedAt) ∧
    (d', key) ∈ submissions steps ∧
    d'.submitTransaction Crates.reference Fixture.factory
        "https://gum.example/v1/webhooks/engine" =
      some (Fixture.new.submission Fixture.factory "https://gum.example/") := by
  have hrun : (Lts.trace (step Fixture.env) (World.init Fixture.requestedAt)
      Fixture.untilAsked).map (fun p => ((registrations p.1).map Deposit.id,
        (submissions p.1).map (fun s => s.1.id), p.1[1]?.map (fun s => s.1.clock))) =
      some ([7], [7], some Fixture.requestedAt) := by
    decide +kernel
  obtain ⟨⟨steps, w⟩, htrace, hfound⟩ := Option.map_eq_some_iff.mp hrun
  simp only [Prod.mk.injEq] at hfound
  obtain ⟨hregistered, hsubmitted, hclock⟩ := hfound
  obtain ⟨⟨u, a⟩, hu, hclock⟩ := Option.map_eq_some_iff.mp hclock
  have hactions := Lts.trace_actions htrace
  have ha : a = .create Fixture.new "user" 7 (Fixture.mint 0) := by
    have hsecond := congrArg (·[1]?) hactions
    rw [List.getElem?_map, hu] at hsecond
    exact Option.some.inj hsecond
  subst ha
  have hmem := List.mem_of_getElem? hu
  have hvalid (u : World) (new : NewDeposit) (user : String) (id : Uuid) (mint : Mint)
      (hcreate : (u, Action.create new user id mint) ∈ steps) : ∃ req now salt,
      Validator.validate Crates.reference Fixture.keccak256 Fixture.parseUrl Fixture.validator req
        now salt = .ok new := by
    have hcreate : Action.create new user id mint ∈ Fixture.untilAsked :=
      hactions ▸ List.mem_map_of_mem (f := Prod.snd) hcreate
    simp only [Fixture.untilAsked, List.mem_cons, List.not_mem_nil, Action.create.injEq,
      reduceCtorEq, false_or, or_false] at hcreate
    rw [hcreate.1]
    exact ⟨_, _, _, Fixture.validated_new⟩
  have hrun' := Lts.trace_of_trace htrace
  obtain ⟨hasked, -⟩ := upstreams_asked_alike Fixture.env Crates.reference Fixture.keccak256
    Fixture.parseUrl Fixture.validator "https://gum.example/" _ steps w hrun' hvalid
  obtain ⟨-, hasked⟩ := hasked u Fixture.new "user" 7 (Fixture.mint 0) hmem
  obtain ⟨d, hd⟩ : ∃ d, registrations steps = [d] := by
    rw [← List.length_eq_one_iff, ← List.length_map (f := Deposit.id), hregistered]
    rfl
  obtain ⟨⟨d', key⟩, hd'⟩ : ∃ s, submissions steps = [s] := by
    rw [← List.length_eq_one_iff, ← List.length_map (f := fun s => s.1.id), hsubmitted]
    rfl
  rw [hd] at hregistered
  rw [hd'] at hsubmitted
  have hmemd : d ∈ registrations steps := hd ▸ List.mem_singleton_self d
  have hmemd' : (d', key) ∈ submissions steps := hd' ▸ List.mem_singleton_self _
  refine ⟨steps, w, d, d', key, hrun', hmemd, ?_, hmemd', ?_⟩
  · rw [hasked.watch d hmemd (List.singleton_inj.mp hregistered)]
    exact congrArg (fun t => some (Fixture.new.watch _ t)) hclock
  · exact hasked.settle d' key hmemd' (List.singleton_inj.mp hsubmitted)

end GumServer
