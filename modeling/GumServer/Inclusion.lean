import GumServer.Settled

/-!
# The transaction and its block

A row has the hash of the transaction that settles it and the number of the block it is in. The
engine reports both at once, and may report another pair later, when the transaction is included
again under another hash. `apply_settlement_included` writes both columns. `apply_settled` keeps the
block it finds when the report has none, and `apply_failed` never writes a block, though it writes
the hash. Over a row that has the block of another transaction, either leaves a pair that nobody
reported.
-/

namespace GumServer

/-! ## What reports say -/

namespace Report

/-- The block a report names, as it is stored. -/
def block : Report → Option ℤ
  | .webhook event => event.blockNumber.map U64.toI64
  | .poll _ job _ => job.blockNumber.map U64.toI64

/-- A report carries a hash together with a block. -/
def Carries (report : Report) (text : String) (block : ℤ) : Prop :=
  hashText report.txHash = some text ∧ report.block = some block

end Report

/-- The block that the data of an outcome names. -/
def Value.block (data : Value) : Option ℤ := ((data.get "block_number").bind asU64).map U64.toI64

/-- The hash an outcome writes without a block, and the block its report names all the same. -/
def SettlementOutcome.hashAlone : SettlementOutcome → Option (String × Option ℤ)
  | .settled text none _ => some (text, none)
  | .failed _ _ (some text) _ data => some (text, data.block)
  | _ => none

/-- An outcome says of a transaction what its report says: its hash, and the block it names. -/
def SettlementOutcome.Agrees (text : Option String) (block : Option ℤ) : SettlementOutcome → Prop
  | .included text' block' _ => text = some text' ∧ block = block'
  | .settled text' block' _ => text = some text' ∧ block = block'
  | .failed _ _ text' _ data => text = text' ∧ block = data.block
  | .pending => True

theorem Value.get_set_ne {data v : Value} {key key' : String} (h : key' ≠ key) :
    (data.set key v).get key' = data.get key' := by
  cases data with
  | object fields =>
    rw [Value.set, Value.get, Value.get]
    induction fields with
    | nil => simp [List.lookup_cons, beq_false_of_ne h]
    | cons f fields ih =>
      rw [List.filter_cons]
      split
      · rw [List.cons_append, List.lookup_cons, List.lookup_cons]
        split
        · rfl
        · exact ih
      · next hkey =>
        have hf : f.1 = key := by simpa using hkey
        rw [ih, List.lookup_cons, hf, beq_false_of_ne h]
  | _ => rfl

section Meaning

variable {r : Readers} {s : Deposit} {data : Value} {text : Option String} {block : Option ℤ}

theorem Value.block_set {key : String} {v : Value} (h : "block_number" ≠ key) :
    (data.set key v).block = data.block := by
  rw [Value.block, Value.get_set_ne h, Value.block]

theorem engineFailure_agrees {error : Option EngineError} (hblock : block = data.block) :
    (SettlementOutcome.engineFailure r error text s data).Agrees text block := by
  simp only [SettlementOutcome.engineFailure]
  split
  · refine ⟨rfl, ?_⟩
    rw [Value.block_set (by decide), Value.block_set (by decide)]
    exact hblock
  · refine ⟨rfl, ?_⟩
    rw [Value.block_set (by decide)]
    exact hblock

theorem fromReceipt_agrees {outcome : Option String} {receipt : Option Value}
    {error : Option EngineError} (hblock : block = data.block) :
    (SettlementOutcome.fromReceipt r outcome text block receipt error s data).Agrees text block := by
  cases text with
  | none => exact trivial
  | some text =>
    have hset : block = (data.set "receipt" (receipt.getD .null)).block := by
      rw [Value.block_set (by decide)]
      exact hblock
    rw [SettlementOutcome.fromReceipt]
    split_ifs
    · split
      · exact ⟨rfl, rfl⟩
      · exact ⟨rfl, hset⟩
      · exact ⟨rfl, hset⟩
      · exact ⟨rfl, hset⟩
    · exact engineFailure_agrees hset
    · exact trivial

theorem Value.block_ofU64? {fields : List (String × Value)} {n : Option U64}
    (h : fields.lookup "block_number" = some (.ofU64? n)) :
    n.map U64.toI64 = (Value.object fields).block := by
  rw [Value.block, Value.get, h]
  cases n <;> rfl

/-- **What a report means agrees with what it says.** -/
theorem Report.meaning_agrees {report : Report} {outcome : SettlementOutcome}
    (h : report.meaning r s = some outcome) :
    outcome.Agrees (hashText report.txHash) report.block := by
  cases report with
  | webhook event =>
    obtain rfl := Option.some.inj h
    rw [SettlementOutcome.fromEvent]
    split
    · split
      · next text htext => exact ⟨htext, rfl⟩
      · exact trivial
    · exact fromReceipt_agrees (Value.block_ofU64? rfl)
    · exact engineFailure_agrees (Value.block_ofU64? rfl)
    · exact trivial
  | poll jobId job polledAt =>
    rw [Report.meaning, SettlementOutcome.fromJob] at h
    split at h
    · obtain rfl := Option.some.inj h
      exact fromReceipt_agrees (Value.block_ofU64? rfl)
    · obtain rfl := Option.some.inj h
      exact engineFailure_agrees (Value.block_ofU64? rfl)
    · cases h

end Meaning

/-! ## What is written -/

/-- The hash a transition writes. -/
def Op.hash : Op → Option String
  | .applySettlementIncluded text _ _ | .applySettled text _ _ => some text
  | .applyFailed _ _ text _ _ => text
  | _ => none

/-- Whether a report that is about to write a hash without a block finds the same hash on its row,
or the block it names itself, unless the row has no block or is not paid. -/
def World.keepsPair (w : World) : Action → Bool
  | .advance name .go _ =>
    match w.tasks.get? name with
    | some (.settling _ _ s outcome _) =>
      match outcome.hashAlone, w.db.deposits.get? s.id with
      | some (text, block), some d => !wherePaid d || d.blockNumber.isNone ||
          d.txHash == some text || d.blockNumber == block
      | _, _ => true
    | _ => true
  | _ => true

theorem Quiet.txHash {d d' : Deposit} (h : Quiet d d') : d'.txHash = d.txHash := by rw [h.eq]

theorem Quiet.blockNumber {d d' : Deposit} (h : Quiet d d') : d'.blockNumber = d.blockNumber := by
  rw [h.eq]

section Rows

variable {env : Env} {w : World} {a : Action} {op : Op}

/-- Without a hash, a transition leaves both columns. -/
theorem Op.row_of_no_hash (h : op.hash = none) (now : DateTime) (d : Deposit) :
    (op.transition.row now d).txHash = d.txHash ∧
      (op.transition.row now d).blockNumber = d.blockNumber := by
  cases op with
  | applySettlementIncluded text block data => cases h
  | applySettled text block data => cases h
  | applyFailed code message text revertData data =>
    obtain rfl : text = none := h
    exact ⟨rfl, rfl⟩
  | markEngineSubmitted job replayed => cases replayed <;> exact ⟨rfl, rfl⟩
  | _ => exact ⟨rfl, rfl⟩

/-- **A hash comes from a report.** -/
theorem commits_hash {id : Uuid} {text : String} (h : (w.commits env a).op = some (op, id))
    (hhash : op.hash = some text) : ∃ name mint claim job s outcome retries,
      a = .advance name .go mint ∧ s.id = id ∧
      w.tasks.get? name = some (.settling claim job s outcome retries) ∧
      SettlementAsks outcome op := by
  cases World.asks h with
  | settling name input mint claim job s outcome retries _ ht _ =>
    obtain ⟨rfl, hid, hasked, -⟩ := World.commits_settling ht h
    exact ⟨name, mint, claim, job, s, outcome, retries, rfl, hid, ht, settlementOp_asks hasked⟩
  | operator id mint => cases hhash
  | indexer name input mint event s _ ht hasked => cases indexerOp_asks hasked <;> cases hhash
  | lost name input mint s watchId polledAt ht => cases hhash
  | polled name input mint s watchId watch polledAt _ ht hasked =>
    cases openOp_asks hasked <;> cases hhash
  | unknown name input mint s job ht => cases hhash
  | overdue name input mint id ht => cases hhash
  | worker name input mint job stage _ _ attempt ht hstatement =>
    cases stage <;> cases hstatement <;> cases hhash

end Rows

/-! ## Runs -/

/-- The transaction and the block of a deposit were reported together, in the course of a run. -/
def Paired (steps : List (World × Action)) (id : Uuid) (d : Deposit) : Prop :=
  ∀ text block, d.txHash = some text → d.blockNumber = some block →
    ∃ report, (id, report) ∈ reports steps ∧ report.Carries text block

section Runs

variable {env : Env} {clock : DateTime} {steps : List (World × Action)} {w w' : World} {a : Action}
  {id : Uuid}

theorem Paired.concat {d d' : Deposit} (h : Paired steps id d) (htx : d'.txHash = d.txHash)
    (hblock : d'.blockNumber = d.blockNumber) (w : World) (a : Action) :
    Paired (steps ++ [(w, a)]) id d' := by
  intro text block htext hnumber
  obtain ⟨report, hmem, hcarries⟩ := h text block (htx ▸ htext) (hblock ▸ hnumber)
  rw [reports_concat]
  exact ⟨report, List.mem_append_left _ hmem, hcarries⟩

/-- **A report keeps the pair**, if the row has no other: it writes both columns, or what it leaves
is its own. -/
theorem Paired.of_report {now : DateTime} {d : Deposit} {op : Op} {outcome : SettlementOutcome}
    {report : Report} (hpaired : Paired steps id d) (hasks : SettlementAsks outcome op)
    (hhash : op.hash ≠ none) (hheard : (id, report) ∈ reports steps)
    (hagrees : outcome.Agrees (hashText report.txHash) report.block)
    (hkeeps : ∀ text block, outcome.hashAlone = some (text, block) → d.blockNumber ≠ none →
      d.txHash = some text ∨ d.blockNumber = block) :
    Paired steps id (op.transition.row now d) := by
  intro text block htext hblock
  cases hasks with
  | included text' block' data =>
    obtain ⟨htx, hnumber⟩ := hagrees
    exact ⟨report, hheard, htx.trans htext, hnumber.trans hblock⟩
  | settled text' block' data =>
    obtain ⟨htx, hnumber⟩ := hagrees
    cases block' with
    | some number => exact ⟨report, hheard, htx.trans htext, hnumber.trans hblock⟩
    | none =>
      have hrow : d.blockNumber = some block := hblock
      rcases hkeeps text' none rfl (by simp [hrow]) with hsame | hnone
      · exact hpaired text block (hsame.trans htext) hrow
      · cases hrow.symm.trans hnone
  | failed code message text' revertData data =>
    obtain ⟨htx, hnumber⟩ := hagrees
    have hrow : d.blockNumber = some block := hblock
    cases text' with
    | none => exact absurd rfl hhash
    | some text' =>
      rcases hkeeps text' data.block rfl (by simp [hrow]) with hsame | hsaid
      · exact hpaired text block (hsame.trans htext) hrow
      · exact ⟨report, hheard, htx.trans htext, hnumber.trans (hsaid.symm.trans hrow)⟩
  | retried data => exact absurd rfl hhash

/-- **A step keeps every pair**, if what it writes keeps it. -/
theorem Paired.step (hrun : Lts.Trace (step env) (World.init clock) steps w)
    (h : GumServer.step env w a = some w') (hkeeps : w.keepsPair a = true)
    (hpaired : ∀ id d, w.db.deposits.get? id = some d → Paired steps id d) {d' : Deposit}
    (hd' : w'.db.deposits.get? id = some d') : Paired (steps ++ [(w, a)]) id d' := by
  rcases JobsFit.step_row_cases h hd' with ⟨d, hd, rfl⟩ | ⟨new, user, d, hinsert, -, rfl⟩
  · rcases (w.commits env a).row_cases w.clock d with hquiet | ⟨op, hhits, heq⟩
    · exact (hpaired id d hd).concat hquiet.txHash hquiet.blockNumber w a
    · have htx := ((w.commits env a).quiet_bound w.clock d).txHash
      have hblock := ((w.commits env a).quiet_bound w.clock d).blockNumber
      rw [heq]
      cases hhash : op.hash with
      | none =>
        obtain ⟨htx', hblock'⟩ := Op.row_of_no_hash hhash w.clock
          ((w.commits env a).bound w.clock d)
        exact (hpaired id d hd).concat (htx'.trans htx) (hblock'.trans hblock) w a
      | some text =>
        obtain ⟨name, mint, claim, job, s, outcome, retries, rfl, hs, ht, hasks⟩ :=
          commits_hash hhits.carries hhash
        obtain ⟨-, report, hheard, hmeaning⟩ := (Heard.of_trace hrun).settling ht
        have hid := Table.key_of_get? hd
        have hbound : Paired steps id ((w.commits env (.advance name .go mint)).bound w.clock d) := by
          intro text block htext hnumber
          exact hpaired id d hd text block (htx.symm.trans htext) (hblock.symm.trans hnumber)
        rw [hs, hid] at hheard
        refine Paired.concat ?_ rfl rfl w _
        refine hbound.of_report hasks (by simp [hhash]) hheard (Report.meaning_agrees hmeaning) ?_
        intro text' block' halone hsome
        have hpaid : wherePaid d = true := by
          rw [← ((w.commits env _).quiet_bound w.clock d).wherePaid, ← hasks.guard]
          exact hhits.guard
        have hnumber : d.blockNumber.isNone = false := by
          rw [hblock] at hsome
          exact Option.isNone_eq_false_iff.mpr (Option.isSome_iff_ne_none.mpr hsome)
        rw [World.keepsPair, ht] at hkeeps
        dsimp only at hkeeps
        rw [halone, hs, hid, hd] at hkeeps
        simp only [hpaid, hnumber, Bool.not_true, Bool.false_or, Bool.or_eq_true, beq_iff_eq]
          at hkeeps
        rcases hkeeps with hsame | hsaid
        · exact .inl (htx.trans hsame)
        · exact .inr (hblock.trans hsaid)
  · intro text block htext
    cases (Inserted.of_insert hinsert).txHash.symm.trans htext

end Runs

/-- **The transaction and its block were reported together**, unless a report wrote one of them over
the other's row. In every run in which each report that writes a hash without a block finds its own
hash on the row, or the block it names itself, or no block, the transaction and the block of a
deposit are those of one report about it. -/
theorem reported_pair (env : Env) (clock : DateTime) (steps : List (World × Action)) (w : World)
    (h : Lts.Trace (step env) (World.init clock) steps w)
    (hkeeps : ∀ t a, (t, a) ∈ steps → t.keepsPair a = true) (id : Uuid) (d : Deposit)
    (hd : w.db.deposits.get? id = some d) (text : String) (block : ℤ)
    (htext : d.txHash = some text) (hblock : d.blockNumber = some block) :
    ∃ report, (id, report) ∈ reports steps ∧ report.Carries text block := by
  have hpaired : ∀ id d, w.db.deposits.get? id = some d → Paired steps id d := by
    clear hd htext hblock
    induction h with
    | nil =>
      intro id d hd
      cases hd
    | concat hrun hstep ih =>
      intro id d hd
      refine Paired.step hrun hstep ?_ ?_ hd
      · exact hkeeps _ _ (List.mem_append_right _ List.mem_cons_self)
      · exact ih fun t a hmem => hkeeps t a (List.mem_append_left _ hmem)
  exact hpaired id d hd text block htext hblock

namespace Fixture

/-- The engine's notice that job 500 is in block 12. -/
def jobIncluded : EngineEvent where
  eventId := "evt-included"
  event := "transaction.included"
  jobId := 500
  outcome := none
  txHash := some 77
  blockNumber := some 12
  receipt := none
  reincluded := false
  error := none

/-- The engine's notice that job 500 was included again, under another hash in block 14, and
reverted there. -/
def jobReverted : EngineEvent where
  eventId := "evt-reverted"
  event := "transaction.confirmed"
  jobId := 500
  outcome := some "reverted"
  txHash := some 78
  blockNumber := some 14
  receipt := none
  reincluded := true
  error := none

/-- Job 500 is included. -/
def untilIncluded : List Action := untilBound ++ [
  .engineEvent 5 jobIncluded (some 7),
  .advance 5 .go (mint 5)]

/-- And is included again, and reverts. -/
def untilReverted : List Action := untilIncluded ++ [
  .engineEvent 6 jobReverted (some 7),
  .advance 6 .go (mint 6)]

/-- Whether the deposit has a transaction in a block. -/
def isIn (hash : B256) (block : ℤ) (w : World) : Option Bool :=
  (w.db.deposits.get? 7).map fun d => d.txHash == hashText (some hash) && d.blockNumber == some block

/-- Whether a report of a run says so. -/
def isReported (hash : B256) (block : ℤ) (steps : List (World × Action)) : Bool :=
  (reports steps).any fun p =>
    hashText p.2.txHash == hashText (some hash) && p.2.block == some block

end Fixture

/-- On the fixture's deposit, which is included once. -/
theorem reported_pair_fixture : ∃ steps w d text,
    Lts.Trace (step Fixture.env) (World.init Fixture.requestedAt) steps w ∧
    w.db.deposits.get? 7 = some d ∧ d.txHash = some text ∧ d.blockNumber = some 12 ∧
    ∃ report, (7, report) ∈ reports steps ∧ report.Carries text 12 := by
  obtain ⟨steps, w, htrace, hfound⟩ : ∃ steps w,
      Lts.Trace (step Fixture.env) (World.init Fixture.requestedAt) steps w ∧
      (Fixture.isIn 77 12 w).map (fun found => (found, steps.all fun p => p.1.keepsPair p.2)) =
        some (true, true) :=
    @Lts.exists_trace_of_trace _ _ _ _ _ Fixture.untilIncluded
      (fun p : List (World × Action) × World => (Fixture.isIn 77 12 p.2).map fun found =>
        (found, p.1.all fun p => p.1.keepsPair p.2)) _ (by decide +kernel)
  obtain ⟨found, hisIn, heq⟩ := Option.map_eq_some_iff.mp hfound
  obtain ⟨rfl, hkeeps⟩ := Prod.mk.inj heq
  obtain ⟨d, hd, hpair⟩ := Option.map_eq_some_iff.mp hisIn
  simp only [Bool.and_eq_true, beq_iff_eq] at hpair
  refine ⟨steps, w, d, _, htrace, hd, hpair.1, hpair.2, ?_⟩
  refine reported_pair Fixture.env _ steps w htrace ?_ 7 d hd _ 12 hpair.1 hpair.2
  intro t a hmem
  exact List.all_eq_true.mp hkeeps _ hmem

/-- After a reversal under another hash, the deposit has that hash in the block of the first, and no
report says so. -/
theorem unreported_pair : ∃ steps w d text,
    Lts.Trace (step Fixture.env) (World.init Fixture.requestedAt) steps w ∧
    w.db.deposits.get? 7 = some d ∧ d.txHash = some text ∧ d.blockNumber = some 12 ∧
    ¬ ∃ report, (7, report) ∈ reports steps ∧ report.Carries text 12 := by
  obtain ⟨steps, w, htrace, hfound⟩ : ∃ steps w,
      Lts.Trace (step Fixture.env) (World.init Fixture.requestedAt) steps w ∧
      (Fixture.isIn 78 12 w).map (fun found => (found, Fixture.isReported 78 12 steps)) =
        some (true, false) :=
    @Lts.exists_trace_of_trace _ _ _ _ _ Fixture.untilReverted
      (fun p : List (World × Action) × World => (Fixture.isIn 78 12 p.2).map fun found =>
        (found, Fixture.isReported 78 12 p.1)) _ (by decide +kernel)
  obtain ⟨found, hisIn, heq⟩ := Option.map_eq_some_iff.mp hfound
  obtain ⟨rfl, hreported⟩ := Prod.mk.inj heq
  obtain ⟨d, hd, hpair⟩ := Option.map_eq_some_iff.mp hisIn
  simp only [Bool.and_eq_true, beq_iff_eq] at hpair
  refine ⟨steps, w, d, _, htrace, hd, hpair.1, hpair.2, ?_⟩
  rintro ⟨report, hmem, htext, hblock⟩
  refine List.any_eq_false.mp hreported _ hmem ?_
  exact Bool.and_eq_true_iff.mpr ⟨beq_iff_eq.mpr htext, beq_iff_eq.mpr hblock⟩

end GumServer
