import GumServer.Frame

/-!
# What a row reads as

A row keeps its addresses, amounts and hashes as text, and everything that is done for a deposit
parses them back: the watch that is registered, the settlement that is submitted, the route that is
quoted. The source takes it for granted that they parse (`expect("stored addresses are valid")`).

They do, in every state of every run, and what they parse to is what the deposit was created with
(`created_deposits_read_back`).
-/

namespace GumServer

/-! ## One row -/

/-- The terms a row holds are those of a new deposit, in the spelling of the columns. -/
structure Holds (d : Deposit) (new : NewDeposit) : Prop where
  chainId : d.chainId = new.chainId.toI64
  tokenSymbol : d.tokenSymbol = new.tokenSymbol
  tokenAddress : d.tokenAddress = new.tokenAddress.lowerHex
  tokenDecimals : d.tokenDecimals = new.tokenDecimals.val
  amount : d.amount = toString new.amount.val
  receiver : d.receiver = new.receiver.lowerHex
  calls : d.calls = new.calls.toList.map CallView.ofCall
  recovery : d.recovery = new.recovery.lowerHex
  salt : d.salt = lowerHex (B256.toBytes new.salt)
  expiresAt : DateTime.ofMicros new.expiresAt.toMicros = some d.expiresAt
  paymentAddress : d.paymentAddress = new.paymentAddress.lowerHex

/-- The confirmed total of a row is some number of base units. -/
def Deposit.HasTotal (d : Deposit) : Prop := ∃ total : U256, d.confirmedAmount = toString total.val

section Rows

variable {d d' : Deposit} {new : NewDeposit}

theorem Holds.of_insert {id : Uuid} {userId : String} {now : DateTime}
    (h : insertDeposit new id userId now = some d) : Holds d new := by
  obtain ⟨columns, hcolumns, hread⟩ := Option.bind_eq_some_iff.mp h
  obtain ⟨amount, hamount, hbind⟩ := Option.bind_eq_some_iff.mp hcolumns
  obtain ⟨calls, hcalls, hread⟩ := Option.bind_eq_some_iff.mp hread
  obtain ⟨expiresAt, hexpires, hread⟩ := Option.bind_eq_some_iff.mp hread
  obtain rfl := Option.some.inj hbind
  obtain rfl := Option.some.inj hread
  have hviews := mapM_ofValue_toValue (new.calls.toList.map CallView.ofCall)
  rw [List.map_map] at hviews
  rw [numericOfText_toString] at hamount
  obtain rfl := Option.some.inj hamount
  exact ⟨rfl, rfl, rfl, rfl, rfl, rfl, Option.some.inj (hcalls.symm.trans hviews), rfl, rfl,
    hexpires, rfl⟩

/-- It is a matter of the columns that never change. -/
theorem Holds.congr (h : Holds d new) (hterms : d'.fixedTerms = d.fixedTerms) : Holds d' new where
  chainId := (congrArg FixedTerms.chainId hterms).trans h.chainId
  tokenSymbol := (congrArg FixedTerms.tokenSymbol hterms).trans h.tokenSymbol
  tokenAddress := (congrArg FixedTerms.tokenAddress hterms).trans h.tokenAddress
  tokenDecimals := (congrArg FixedTerms.tokenDecimals hterms).trans h.tokenDecimals
  amount := (congrArg FixedTerms.amount hterms).trans h.amount
  receiver := (congrArg FixedTerms.receiver hterms).trans h.receiver
  calls := (congrArg FixedTerms.calls hterms).trans h.calls
  recovery := (congrArg FixedTerms.recovery hterms).trans h.recovery
  salt := (congrArg FixedTerms.salt hterms).trans h.salt
  expiresAt := h.expiresAt.trans (congrArg (fun t => some t.expiresAt) hterms.symm)
  paymentAddress := (congrArg FixedTerms.paymentAddress hterms).trans h.paymentAddress

/-- The terms of a row are parsed without a failure. -/
theorem Holds.terms (h : Holds d new) (lib : Crates) : d.terms lib = some {
    token := new.tokenAddress
    amount := new.amount
    calls := new.calls
    expirationTimestamp := U64.ofInt d.expiresAt.timestamp
    recovery := new.recovery
    salt := new.salt
    chainId := new.chainId } := by
  have hcalls : d.callsOf lib = some new.calls.toList := by
    rw [Deposit.callsOf, h.calls, mapM_toCall_ofCall]
  rw [Deposit.terms, h.tokenAddress, h.amount, hcalls, h.recovery, h.salt, h.chainId]
  simp only [Crates.parseAddress_lowerHex, Crates.fromStrRadix_toString,
    Crates.parseB256_lowerHex, Vec.ofList?_toList, Option.bind_eq_bind, Option.bind_some,
    U64.ofInt_toI64]

/-- A transition leaves the confirmed total alone, or writes one. -/
theorem Op.row_hasTotal (op : Op) (now : DateTime) (h : d.HasTotal) :
    (op.transition.row now d).HasTotal := by
  cases op with
  | applyPaymentConfirmed confirmed data => exact ⟨confirmed, rfl⟩
  | applyThresholdReached confirmed data => exact ⟨confirmed, rfl⟩
  | markEngineSubmitted job replayed => cases replayed <;> exact h
  | _ => exact h

theorem Write.row_hasTotal (write : Write) (now : DateTime) (h : d.HasTotal) :
    (write.row now d).HasTotal := by
  have hquiet {d d' : Deposit} (hquiet : Quiet d d') (h : d.HasTotal) : d'.HasTotal := by
    rw [hquiet.eq]
    exact h
  rcases write.row_cases now d with hsame | ⟨op, -, heq⟩
  · exact hquiet hsame h
  · rw [heq]
    exact op.row_hasTotal now (hquiet (write.quiet_bound now d) h)

end Rows

/-! ## Runs -/

section Runs

variable {env : Env} {w w' : World} {a : Action}

/-- A row is there from its creation on, with its terms. -/
theorem step_row_created (h : step env w a = some w') {id : Uuid} {d' : Deposit}
    (hd' : w'.db.deposits.get? id = some d') :
    (∃ d, w.db.deposits.get? id = some d ∧ d'.fixedTerms = d.fixedTerms) ∨
    ∃ new user mint d, a = .create new user id mint ∧
      insertDeposit new id user w.clock = some d ∧ d'.fixedTerms = d.fixedTerms := by
  have hwrite {now : DateTime} {mint : Mint} {write : Write}
      (h : (w.db.write now mint write).deposits.get? id = some d') :
      ∃ d, w.db.deposits.get? id = some d ∧ d'.fixedTerms = d.fixedTerms := by
    rw [Db.write_deposits, Option.map_eq_some_iff] at h
    obtain ⟨d, hd, rfl⟩ := h
    exact ⟨d, hd, write.row_fixedTerms now d⟩
  cases step_cases h with
  | create new user d mint hinsert hfresh hinsertable =>
    rw [World.created_deposits] at hd'
    split at hd'
    · next hid =>
      subst hid
      obtain rfl := Option.some.inj hd'
      exact .inr ⟨new, user, mint, d, rfl, hinsert, rfl⟩
    · exact .inl ⟨d', hd', rfl⟩
  | advance task input mint t write engine next ht hnext hfresh => exact .inl (hwrite hd')
  | retrySettlement row mint hfresh =>
    exact .inl (@hwrite w.clock mint (.tx (.of .retrySettlement row)) hd')
  | _ => exact .inl ⟨d', hd', rfl⟩

/-- **Every row reads back** in every state of every run. -/
theorem Reachable.stored (h : Reachable env w) {id : Uuid} {d : Deposit}
    (hd : w.db.deposits.get? id = some d) : ∃ new, Holds d new := by
  refine h.row_invariant (P := fun d => ∃ new, Holds d new) ?_ ?_ hd
  · intro new id userId now d hinsert
    exact ⟨new, (Holds.of_insert hinsert).congr rfl⟩
  · rintro d write now ⟨new, hholds⟩
    exact ⟨new, hholds.congr (write.row_fixedTerms now d)⟩

theorem Reachable.hasTotal (h : Reachable env w) {id : Uuid} {d : Deposit}
    (hd : w.db.deposits.get? id = some d) : d.HasTotal := by
  refine h.row_invariant (P := Deposit.HasTotal) ?_ ?_ hd
  · intro new id userId now d hinsert
    exact ⟨0, (Inserted.of_insert hinsert).confirmedAmount⟩
  · intro d write now hd
    exact write.row_hasTotal now hd

/-- The rows of a run are those of its creations. -/
structure Founded (steps : List (World × Action)) (w : World) : Prop where
  kept : ∀ {u new user id mint}, (u, Action.create new user id mint) ∈ steps →
    ∃ d, w.db.deposits.get? id = some d ∧ Holds d new
  founded : ∀ {id d}, w.db.deposits.get? id = some d →
    ∃ u new user mint, (u, Action.create new user id mint) ∈ steps ∧ Holds d new

theorem Founded.step {steps : List (World × Action)} (hfounded : Founded steps w) (hfit : JobsFit w)
    (h : GumServer.step env w a = some w') : Founded (steps ++ [(w, a)]) w' where
  kept := by
    intro u new user id mint hmem
    rcases List.mem_append.mp hmem with hold | hlast
    · obtain ⟨d, hd, hholds⟩ := hfounded.kept hold
      exact ⟨_, hfit.row_after h hd, hholds.congr ((w.commits env a).row_fixedTerms w.clock d)⟩
    · obtain ⟨rfl, rfl⟩ := Prod.mk.inj (List.mem_singleton.mp hlast)
      cases step_cases h with
      | create new user d mint hinsert hfresh hinsertable =>
        refine ⟨{ d with eventSeq := d.eventSeq + 1 }, ?_, (Holds.of_insert hinsert).congr rfl⟩
        rw [World.created_deposits, if_pos rfl]
  founded := by
    intro id d' hd'
    rcases step_row_created h hd' with ⟨d, hd, hterms⟩ | ⟨new, user, mint, d, rfl, hinsert, hterms⟩
    · obtain ⟨u, new, user, mint, hmem, hholds⟩ := hfounded.founded hd
      exact ⟨u, new, user, mint, List.mem_append_left _ hmem, hholds.congr hterms⟩
    · exact ⟨w, new, user, mint, List.mem_append_right _ (List.mem_singleton_self _),
        (Holds.of_insert hinsert).congr hterms⟩

theorem Founded.of_trace {clock : DateTime} {steps : List (World × Action)}
    (h : Lts.Trace (GumServer.step env) (World.init clock) steps w) : Founded steps w := by
  induction h with
  | nil =>
    refine ⟨?_, ?_⟩
    · intro u new user id mint hmem
      cases hmem
    · intro id d hd
      cases hd
  | concat hrun hstep ih => exact ih.step (JobsFit.reachable ⟨clock, hrun.reaches⟩) hstep

end Runs

/-- What the code gets out of a row whenever it parses it. -/
structure ReadsBack (lib : Crates) (d : Deposit) (new : NewDeposit) : Prop where
  /-- `Deposit::terms` -/
  terms : d.terms lib = some {
    token := new.tokenAddress
    amount := new.amount
    calls := new.calls
    expirationTimestamp := U64.ofInt d.expiresAt.timestamp
    recovery := new.recovery
    salt := new.salt
    chainId := new.chainId }
  expiresAt : DateTime.ofMicros new.expiresAt.toMicros = some d.expiresAt
  /-- `Deposit::payment_address` -/
  paymentAddress : d.paymentAddressOf lib = some new.paymentAddress
  /-- `deposit.token_address.parse()` -/
  tokenAddress : lib.parseAddress d.tokenAddress = some new.tokenAddress
  receiver : lib.parseAddress d.receiver = some new.receiver
  /-- `U256::from_str_radix(&deposit.confirmed_amount, 10)` -/
  confirmed : ∃ total, lib.fromStrRadix d.confirmedAmount = some total

theorem Holds.readsBack {d : Deposit} {new : NewDeposit} (h : Holds d new) (lib : Crates)
    (htotal : d.HasTotal) : ReadsBack lib d new where
  terms := h.terms lib
  expiresAt := h.expiresAt
  paymentAddress := by rw [Deposit.paymentAddressOf, h.paymentAddress, Crates.parseAddress_lowerHex]
  tokenAddress := by rw [h.tokenAddress, Crates.parseAddress_lowerHex]
  receiver := by rw [h.receiver, Crates.parseAddress_lowerHex]
  confirmed := by
    obtain ⟨total, htotal⟩ := htotal
    exact ⟨total, by rw [htotal, Crates.fromStrRadix_toString]⟩

/-- **Every deposit reads back as it was created.** At any point of any run, a deposit that was ever
created is there, everything the service parses out of its row parses, and to what it was created
with; and every row is one that was created. -/
theorem created_deposits_read_back (env : Env) (lib : Crates) (clock : DateTime)
    (steps : List (World × Action)) (w : World)
    (h : Lts.Trace (step env) (World.init clock) steps w) (id : Uuid) :
    (∀ u new user mint, (u, Action.create new user id mint) ∈ steps →
      ∃ d, w.db.deposits.get? id = some d ∧ ReadsBack lib d new) ∧
    ∀ d, w.db.deposits.get? id = some d →
      ∃ u new user mint, (u, Action.create new user id mint) ∈ steps ∧ ReadsBack lib d new := by
  have hfounded := Founded.of_trace h
  have hreachable : Reachable env w := ⟨clock, h.reaches⟩
  refine ⟨?_, ?_⟩
  · intro u new user mint hmem
    obtain ⟨d, hd, hholds⟩ := hfounded.kept hmem
    exact ⟨d, hd, hholds.readsBack lib (hreachable.hasTotal hd)⟩
  · intro d hd
    obtain ⟨u, new, user, mint, hmem, hholds⟩ := hfounded.founded hd
    exact ⟨u, new, user, mint, hmem, hholds.readsBack lib (hreachable.hasTotal hd)⟩

/-- The fixture's deposit, bound to a job: its row still reads back as the request. -/
theorem created_deposits_read_back_fixture : ∃ steps w u d,
    Lts.Trace (step Fixture.env) (World.init Fixture.requestedAt) steps w ∧
    (u, Action.create Fixture.new "user" 7 (Fixture.mint 0)) ∈ steps ∧
    w.db.deposits.get? 7 = some d ∧ ReadsBack Crates.reference d Fixture.new := by
  have hruns : (Lts.trace (step Fixture.env) (World.init Fixture.requestedAt)
      Fixture.untilBound).isSome = true := by decide +kernel
  obtain ⟨⟨steps, w⟩, htrace⟩ := Option.isSome_iff_exists.mp hruns
  have hcreate : Action.create Fixture.new "user" 7 (Fixture.mint 0) ∈ steps.map Prod.snd := by
    rw [Lts.trace_actions htrace, Fixture.untilBound, Fixture.untilPaid]
    simp
  obtain ⟨⟨u, a⟩, hmem, rfl⟩ := List.mem_map.mp hcreate
  obtain ⟨d, hd, hreads⟩ := (created_deposits_read_back Fixture.env Crates.reference _ steps w
    (Lts.trace_of_trace htrace) 7).1 u Fixture.new "user" (Fixture.mint 0) hmem
  exact ⟨steps, w, u, d, Lts.trace_of_trace htrace, hmem, hd, hreads⟩

end GumServer
