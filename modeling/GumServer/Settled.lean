import GumServer.Attempts

/-!
# Settlement is verified

A deposit is settled by what the engine reports about its job, in a webhook or in the answer to a
poll. The report has to say that the transaction succeeded, and its receipt has to show it: among
the logs of the payment address, a `Settled` that no `WrongChain` precedes. What other addresses
logged does not matter, nor does a recovery around it.
-/

namespace GumServer

/-! ## Reading the logs -/

/-- The logs show a settlement by an address: one of its logs is a `Settled`, and none before it is
a `WrongChain`. -/
def ShowSettled (payment : Address) (logs : List ReceiptLog) : Prop :=
  ∃ before log after, logs = before ++ log :: after ∧ log.address = payment ∧
    log.topics.head? = some SETTLED_TOPIC ∧
    ∀ l ∈ before, l.address = payment → l.topics.head? ≠ some WRONG_CHAIN_TOPIC

section Logs

variable {payment : Address} {log : ReceiptLog} {logs : List ReceiptLog}

/-- A `Settled` first. -/
theorem ShowSettled.head (haddress : log.address = payment)
    (htopic : log.topics.head? = some SETTLED_TOPIC) : ShowSettled payment (log :: logs) :=
  ⟨[], log, logs, rfl, haddress, htopic, by simp⟩

/-- A log that is neither does not matter. -/
theorem showSettled_cons_iff
    (hsettled : log.address = payment → log.topics.head? ≠ some SETTLED_TOPIC)
    (hwrong : log.address = payment → log.topics.head? ≠ some WRONG_CHAIN_TOPIC) :
    ShowSettled payment (log :: logs) ↔ ShowSettled payment logs := by
  constructor
  · rintro ⟨before, l, after, heq, haddress, htopic, hbefore⟩
    cases before with
    | nil =>
      obtain ⟨rfl, -⟩ := List.cons.inj heq
      exact absurd htopic (hsettled haddress)
    | cons first before =>
      obtain ⟨rfl, rfl⟩ := List.cons.inj heq
      refine ⟨before, l, after, rfl, haddress, htopic, ?_⟩
      intro l' hl'
      exact hbefore l' (List.mem_cons_of_mem _ hl')
  · rintro ⟨before, l, after, rfl, haddress, htopic, hbefore⟩
    refine ⟨log :: before, l, after, rfl, haddress, htopic, ?_⟩
    intro l' hl'
    rcases List.mem_cons.mp hl' with rfl | hl'
    · exact hwrong
    · exact hbefore l' hl'

/-- After a `WrongChain` it is too late. -/
theorem not_showSettled_of_wrongChain (haddress : log.address = payment)
    (htopic : log.topics.head? = some WRONG_CHAIN_TOPIC) : ¬ ShowSettled payment (log :: logs) := by
  rintro ⟨before, l, after, heq, -, hsettled, hbefore⟩
  cases before with
  | nil =>
    obtain ⟨rfl, -⟩ := List.cons.inj heq
    rw [htopic] at hsettled
    exact absurd (Option.some.inj hsettled) (by decide)
  | cons first before =>
    obtain ⟨rfl, -⟩ := List.cons.inj heq
    exact hbefore log List.mem_cons_self haddress htopic

/-- **The scan finds what the logs show.** -/
theorem executionOutcome_settled_iff (payment : Address) (logs : List ReceiptLog) :
    executionOutcome logs payment = .settled ↔ ShowSettled payment logs := by
  rw [executionOutcome]
  generalize false = recovered
  induction logs generalizing recovered with
  | nil =>
    rw [executionOutcomeFrom]
    constructor
    · intro h
      split at h <;> cases h
    · rintro ⟨before, log, after, heq, -⟩
      exact absurd heq.symm (by simp)
  | cons log logs ih =>
    rw [executionOutcomeFrom]
    split
    · next haddress =>
      rw [ih, showSettled_cons_iff]
      · exact fun h => absurd h haddress
      · exact fun h => absurd h haddress
    · next haddress =>
      rw [not_not] at haddress
      split
      · next htopics =>
        rw [ih, showSettled_cons_iff] <;> simp [htopics]
      · next topic topics htopics =>
        split
        · next htopic =>
          exact iff_of_true rfl (.head haddress (by simp [htopics, htopic]))
        · next hsettled =>
          split
          · next htopic =>
            refine iff_of_false (by simp) (not_showSettled_of_wrongChain haddress ?_)
            simp [htopics, htopic]
          · next hwrong =>
            rw [ih, showSettled_cons_iff] <;> simp [htopics, hsettled, hwrong]

end Logs

/-! ## Reports -/

/-- What the engine says about a job. -/
inductive Report : Type where
  | webhook (event : EngineEvent) : Report
  | poll (jobId : Uuid) (job : Job) (polledAt : String) : Report

namespace Report

/-- What a report means for a deposit, if it means something. -/
def meaning (r : Readers) (d : Deposit) : Report → Option SettlementOutcome
  | .webhook event => some (SettlementOutcome.fromEvent r event d)
  | .poll jobId job polledAt => SettlementOutcome.fromJob r jobId job polledAt d

/-- Whether it says that the transaction is confirmed. -/
def IsConfirmed : Report → Prop
  | .webhook event => event.event = "transaction.confirmed"
  | .poll _ job _ => job.status = "confirmed"

def outcome : Report → Option String
  | .webhook event => event.outcome
  | .poll _ job _ => job.outcome

def txHash : Report → Option B256
  | .webhook event => event.txHash
  | .poll _ job _ => job.txHash

def receipt : Report → Option Value
  | .webhook event => event.receipt
  | .poll _ job _ => job.receipt

end Report

/-- The logs of a receipt, when all of them parse. -/
def parsedLogs (serde : Deserializers) (receipt : Option Value) : Option (List ReceiptLog) :=
  ((receipt.bind fun r => r.get "logs").bind Value.asArray).bind
    (List.mapM (ReceiptLog.ofValue serde))

/-- A report proves the settlement of a deposit by a transaction: it is a confirmation of it, with
success, and the logs of its receipt all parse and show the settlement by the payment address. -/
structure Report.Proves (r : Readers) (report : Report) (d : Deposit) (hash : B256) : Prop where
  confirmed : report.IsConfirmed
  success : report.outcome = some "success"
  txHash : report.txHash = some hash
  logs : ∃ payment logs, d.paymentAddressOf r.lib = some payment ∧
    parsedLogs r.serde report.receipt = some logs ∧ ShowSettled payment logs

section Meaning

variable {r : Readers} {s : Deposit} {report : Report} {hash : B256}

theorem EngineEventKind.ofStr_confirmed {name : String} :
    EngineEventKind.ofStr name = .confirmed ↔ name = "transaction.confirmed" := by
  rw [EngineEventKind.ofStr]
  constructor
  · intro h
    split_ifs at h
    assumption
  · rintro rfl
    decide

theorem JobStatus.ofStr_confirmed {name : String} :
    JobStatus.ofStr name = .confirmed ↔ name = "confirmed" := by
  rw [JobStatus.ofStr]
  constructor
  · intro h
    split_ifs at h
    assumption
  · rintro rfl
    decide

/-- A failure is not a settlement. -/
theorem engineFailure_ne_settled {error : Option EngineError} {txHash : Option String}
    {data data' : Value} {text : String} {block : Option ℤ} :
    SettlementOutcome.engineFailure r error txHash s data ≠ .settled text block data' := by
  intro h
  simp only [SettlementOutcome.engineFailure] at h
  split at h <;> cases h

/-- **What makes a receipt a settlement.** -/
theorem fromReceipt_settled {outcome txHash : Option String} {block block' : Option ℤ}
    {receipt : Option Value} {error : Option EngineError} {data data' : Value} {text : String}
    (h : SettlementOutcome.fromReceipt r outcome txHash block receipt error s data =
      .settled text block' data') :
    txHash = some text ∧ outcome = some "success" ∧
      ShowSettled ((s.paymentAddressOf r.lib).getD 0) (receiptLogs r.serde receipt) := by
  cases txHash with
  | none => cases h
  | some hash =>
    rw [SettlementOutcome.fromReceipt] at h
    split_ifs at h with hsuccess hreverted
    · cases hlogs : executionOutcome (receiptLogs r.serde receipt)
        ((s.paymentAddressOf r.lib).getD 0) with
      | settled =>
        rw [hlogs] at h
        obtain ⟨rfl, -, -⟩ := SettlementOutcome.settled.inj h
        exact ⟨rfl, hsuccess, (executionOutcome_settled_iff _ _).mp hlogs⟩
      | recoveredOnly => rw [hlogs] at h; cases h
      | wrongChain => rw [hlogs] at h; cases h
      | noEvents => rw [hlogs] at h; cases h
    · exact absurd h engineFailure_ne_settled

/-- And with all of it, it is one. -/
theorem fromReceipt_of_settled {block : Option ℤ} {receipt : Option Value}
    {error : Option EngineError} {data : Value} {text : String}
    (hlogs : ShowSettled ((s.paymentAddressOf r.lib).getD 0) (receiptLogs r.serde receipt)) :
    SettlementOutcome.fromReceipt r (some "success") (some text) block receipt error s data =
      .settled text block (data.set "receipt" (receipt.getD .null)) := by
  rw [SettlementOutcome.fromReceipt]
  rw [if_pos rfl, (executionOutcome_settled_iff _ _).mpr hlogs]

/-- Logs that show something have all been parsed. -/
theorem parsedLogs_of_showSettled {payment : Address} {receipt : Option Value}
    (h : ShowSettled payment (receiptLogs r.serde receipt)) :
    parsedLogs r.serde receipt = some (receiptLogs r.serde receipt) := by
  rw [receiptLogs] at h ⊢
  change ShowSettled payment ((parsedLogs r.serde receipt).getD []) at h
  change parsedLogs r.serde receipt = some ((parsedLogs r.serde receipt).getD [])
  cases hparsed : parsedLogs r.serde receipt with
  | none =>
    rw [hparsed] at h
    obtain ⟨before, log, after, heq, -⟩ := h
    exact absurd heq.symm (by simp)
  | some logs => rfl

theorem hashText_eq_some {txHash : Option B256} {text : String} (h : hashText txHash = some text) :
    ∃ hash, txHash = some hash ∧ hashText (some hash) = some text := by
  obtain ⟨hash, rfl, heq⟩ := Option.map_eq_some_iff.mp h
  exact ⟨hash, rfl, congrArg some heq⟩

/-- **A report that means settled proves it.** -/
theorem Report.proves_of_meaning {text : String} {block : Option ℤ} {data : Value}
    {payment : Address} (hpayment : s.paymentAddressOf r.lib = some payment)
    (h : report.meaning r s = some (.settled text block data)) :
    ∃ hash, hashText (some hash) = some text ∧ report.Proves r s hash := by
  have hreceipt {outcome : Option String} {txHash : Option B256} {block' : Option ℤ}
      {receipt : Option Value} {error : Option EngineError} {data' : Value}
      (h : SettlementOutcome.fromReceipt r outcome (hashText txHash) block' receipt error s data' =
        .settled text block data) : outcome = some "success" ∧
      (∃ hash, txHash = some hash ∧ hashText (some hash) = some text) ∧
      ∃ payment logs, s.paymentAddressOf r.lib = some payment ∧
        parsedLogs r.serde receipt = some logs ∧ ShowSettled payment logs := by
    obtain ⟨htext, hsuccess, hshow⟩ := fromReceipt_settled h
    refine ⟨hsuccess, hashText_eq_some htext, payment, _, hpayment,
      parsedLogs_of_showSettled hshow, ?_⟩
    rw [hpayment] at hshow
    exact hshow
  cases report with
  | webhook event =>
    have h := Option.some.inj h
    rw [SettlementOutcome.fromEvent] at h
    split at h
    · split at h <;> cases h
    · next hkind =>
      obtain ⟨hsuccess, ⟨hash, htx, htext⟩, hlogs⟩ := hreceipt h
      exact ⟨hash, htext, EngineEventKind.ofStr_confirmed.mp hkind, hsuccess, htx, hlogs⟩
    · exact absurd h engineFailure_ne_settled
    · cases h
  | poll jobId job polledAt =>
    rw [Report.meaning, SettlementOutcome.fromJob] at h
    split at h
    · next hkind =>
      obtain ⟨hsuccess, ⟨hash, htx, htext⟩, hlogs⟩ := hreceipt (Option.some.inj h)
      exact ⟨hash, htext, JobStatus.ofStr_confirmed.mp hkind, hsuccess, htx, hlogs⟩
    · exact absurd (Option.some.inj h) engineFailure_ne_settled
    · cases h

/-- **And a report that proves it means settled.** -/
theorem Report.Proves.meaning (h : report.Proves r s hash) : ∃ text block data,
    hashText (some hash) = some text ∧ report.meaning r s = some (.settled text block data) := by
  obtain ⟨payment, logs, hpayment, hparsed, hshow⟩ := h.logs
  have hlogs : ShowSettled ((s.paymentAddressOf r.lib).getD 0)
      (receiptLogs r.serde report.receipt) := by
    rw [hpayment, receiptLogs]
    change ShowSettled payment ((parsedLogs r.serde report.receipt).getD [])
    rw [hparsed]
    exact hshow
  refine ⟨lowerHex (B256.toBytes hash), ?_⟩
  have hconfirmed := h.confirmed
  have hsuccess := h.success
  have htx := h.txHash
  cases report with
  | webhook event =>
    refine ⟨?block, ?data, rfl, congrArg some ?settled⟩
    case settled =>
      rw [SettlementOutcome.fromEvent, EngineEventKind.ofStr_confirmed.mpr hconfirmed,
        show event.outcome = some "success" from hsuccess, show event.txHash = some hash from htx]
      exact fromReceipt_of_settled hlogs
  | poll jobId job polledAt =>
    refine ⟨?polledBlock, ?polledData, rfl, ?polled⟩
    case polled =>
      rw [Report.meaning, SettlementOutcome.fromJob, JobStatus.ofStr_confirmed.mpr hconfirmed,
        show job.outcome = some "success" from hsuccess, show job.txHash = some hash from htx]
      refine congrArg some ?_
      exact fromReceipt_of_settled hlogs

end Meaning

/-! ## Reports along a run -/

/-- The report an action brings, and the deposit it is found to be about. -/
def World.hears (w : World) : Action → Option (Uuid × Report)
  | .engineEvent _ event (some id) => some (id, .webhook event)
  | .advance name (.polledJob (some job) polledAt) _ =>
    match w.tasks.get? name with
    | some (.paidStale s jobId) => some (s.id, .poll jobId job polledAt)
    | _ => none
  | _ => none

/-- The reports of a run, with the deposits they were found to be about. -/
def reports (steps : List (World × Action)) : List (Uuid × Report) :=
  steps.filterMap fun s => s.1.hears s.2

/-- An action applies a report to a deposit: it commits the transaction of a task that holds what
the report means for the deposit as the task read it. -/
def Applies (env : Env) (w : World) (a : Action) (id : Uuid) (report : Report) : Prop :=
  ∃ name mint claim job s outcome retries, a = .advance name .go mint ∧
    w.tasks.get? name = some (.settling claim job s outcome retries) ∧ s.id = id ∧
    report.meaning env.readers s = some outcome

/-- Everything that is said about a job was heard, and the deposit is the row's own. -/
structure Heard (env : Env) (steps : List (World × Action)) (w : World) : Prop where
  polling : ∀ {name s job}, w.tasks.get? name = some (.paidStale s job) → Reads w s
  settling : ∀ {name claim job s outcome retries},
    w.tasks.get? name = some (.settling claim job s outcome retries) → Reads w s ∧
      ∃ report, (s.id, report) ∈ reports steps ∧ report.meaning env.readers s = some outcome

section Runs

variable {env : Env} {steps : List (World × Action)} {w w' : World} {a : Action}

theorem reports_concat (steps : List (World × Action)) (w : World) (a : Action) :
    reports (steps ++ [(w, a)]) = reports steps ++ (w.hears a).toList := by
  rw [reports, List.filterMap_append]
  cases h : w.hears a <;> simp [h, reports]

/-- A task with a report had it before, or has just been given it. -/
theorem Task.of_settling {db : Db} {engine engine' : Engine} {t : Task} {input : Input}
    {write : Write} {claim : Option String} {job : Uuid} {s : Deposit} {outcome : SettlementOutcome}
    {retries : Option ℕ} (h : t.next env db engine input =
      some (write, engine', some (.settling claim job s outcome retries))) :
    (∃ retries', t = .settling claim job s outcome retries') ∨
    ∃ polled polledAt, t = .paidStale s job ∧ input = .polledJob (some polled) polledAt ∧
      SettlementOutcome.fromJob env.readers job polled polledAt s = some outcome := by
  rcases Task.next_step h with ⟨hstep, -⟩ | ⟨job', stage, stage', rfl, hworker, -⟩
  · generalize hnew : some (Task.settling claim job s outcome retries) = new at hstep
    cases hstep with
    | count claim' job' s' outcome' =>
      obtain ⟨rfl, rfl, rfl, rfl, rfl⟩ := Task.settling.inj (Option.some.inj hnew)
      exact .inl ⟨none, rfl⟩
    | pollPaid s' job' _ _ outcome' _ =>
      obtain ⟨rfl, rfl, rfl, rfl, rfl⟩ := Task.settling.inj (Option.some.inj hnew)
      cases input with
      | polledJob polled polledAt =>
        cases polled with
        | none => cases h
        | some polled =>
          have htask := Option.some.inj (Prod.mk.inj (Prod.mk.inj (Option.some.inj h)).2).2
          split at htask
          · next outcome' houtcome =>
            obtain ⟨-, -, -, rfl, -⟩ := Task.settling.inj htask
            exact .inr ⟨polled, polledAt, rfl, rfl, houtcome⟩
          · cases htask
      | _ => cases h
    | applyOpen s' watchId watch polledAt t' ht' =>
      subst hnew
      rcases ht' with ht' | ht' <;> cases ht'
    | _ => cases hnew
  · cases stage' <;> cases hworker

/-- A worker does not become a handler, and nothing goes back to polling. -/
theorem Task.not_paidStale {db : Db} {engine engine' : Engine} {t : Task} {input : Input}
    {write : Write} {job : Uuid} {s : Deposit} :
    t.next env db engine input ≠ some (write, engine', some (.paidStale s job)) := by
  intro h
  rcases Task.next_step h with ⟨hstep, -⟩ | ⟨job', stage, stage', rfl, hworker, -⟩
  · generalize hnew : some (Task.paidStale s job) = new at hstep
    cases hstep with
    | applyOpen s' watchId watch polledAt t' ht' =>
      subst hnew
      rcases ht' with ht' | ht' <;> cases ht'
    | _ => cases hnew
  · cases stage' <;> cases hworker

/-- **A step keeps everything heard.** -/
theorem Heard.step (hheard : Heard env steps w) (hfit : JobsFit w)
    (h : GumServer.step env w a = some w') : Heard env (steps ++ [(w, a)]) w' where
  polling := by
    intro name s job ht
    cases step_tasks h ht with
    | kept ht => exact (hheard.polling ht).step hfit h
    | stalePaid s job hd hjob => exact Reads.step ⟨s, hd, rfl⟩ hfit h
    | advanced input mint write engine ha hold hnext => exact absurd hnext Task.not_paidStale
  settling := by
    intro name claim job s outcome retries ht
    rw [reports_concat]
    cases step_tasks h ht with
    | kept ht =>
      obtain ⟨hreads, report, hmem, hmeaning⟩ := hheard.settling ht
      exact ⟨hreads.step hfit h, report, List.mem_append_left _ hmem, hmeaning⟩
    | engine event d hd hjob ha =>
      refine ⟨Reads.step ⟨s, hd, rfl⟩ hfit h, .webhook event, ?_, rfl⟩
      rw [ha]
      exact List.mem_append_right _ (List.mem_singleton_self _)
    | advanced input mint write engine ha hold hnext =>
      rcases Task.of_settling hnext with ⟨retries', rfl⟩ | ⟨polled, polledAt, rfl, rfl, hmeaning⟩
      · obtain ⟨hreads, report, hmem, hmeaning⟩ := hheard.settling hold
        exact ⟨hreads.step hfit h, report, List.mem_append_left _ hmem, hmeaning⟩
      · refine ⟨(hheard.polling hold).step hfit h, .poll job polled polledAt, ?_, hmeaning⟩
        rw [ha, World.hears, hold]
        exact List.mem_append_right _ (List.mem_singleton_self _)

/-- In every run. -/
theorem Heard.of_trace {clock : DateTime}
    (h : Lts.Trace (GumServer.step env) (World.init clock) steps w) : Heard env steps w := by
  induction h with
  | nil =>
    refine ⟨?_, ?_⟩
    · intro name s job ht
      cases ht
    · intro name claim job s outcome retries ht
      cases ht
  | concat hrun hstep ih => exact ih.step (JobsFit.reachable ⟨clock, hrun.reaches⟩) hstep

/-- The payment address of a row always parses. -/
theorem Reachable.paymentAddressOf (h : Reachable env w) (lib : Crates) {id : Uuid} {d : Deposit}
    (hd : w.db.deposits.get? id = some d) : ∃ payment, d.paymentAddressOf lib = some payment := by
  have htext : ∃ payment : Address, d.paymentAddress = payment.lowerHex := by
    refine h.row_invariant (P := fun d => ∃ payment : Address, d.paymentAddress = payment.lowerHex)
      ?_ ?_ hd
    · intro new id userId now d hinsert
      exact ⟨new.paymentAddress, (Inserted.of_insert hinsert).paymentAddress⟩
    · rintro d write now ⟨payment, hpayment⟩
      have hterms := write.row_fixedTerms now d
      exact ⟨payment, (congrArg FixedTerms.paymentAddress hterms).trans hpayment⟩
  obtain ⟨payment, htext⟩ := htext
  refine ⟨payment, ?_⟩
  rw [Deposit.paymentAddressOf, htext, Crates.parseAddress_lowerHex]

/-- A proof is about the terms of a deposit. -/
theorem Report.Proves.congr {r : Readers} {report : Report} {d d' : Deposit} {hash : B256}
    (h : report.Proves r d hash) (hterms : d'.fixedTerms = d.fixedTerms) :
    report.Proves r d' hash := by
  have haddress : d'.paymentAddress = d.paymentAddress :=
    congrArg FixedTerms.paymentAddress hterms
  obtain ⟨payment, logs, hpayment, hlogs⟩ := h.logs
  refine ⟨h.confirmed, h.success, h.txHash, payment, logs, ?_, hlogs⟩
  rw [Deposit.paymentAddressOf, haddress]
  exact hpayment

/-- A deposit is settled by `apply_settled` and nothing else. -/
theorem Op.of_settled {op : Op} {now : DateTime} {d : Deposit} (hnot : d.status ≠ .settled)
    (h : (op.transition.row now d).status = .settled) : ∃ text block data,
      op = .applySettled text block data ∧ (op.transition.row now d).txHash = some text := by
  cases op with
  | applySettled text block data => exact ⟨text, block, data, rfl, rfl⟩
  | markEngineSubmitted job replayed =>
    cases replayed <;> exact absurd h hnot
  | markWatchRegistered watch => exact absurd h hnot
  | applyPaymentOrphaned data => exact absurd h hnot
  | applySettlementIncluded text block data => exact absurd h hnot
  | resubmit data => exact absurd h hnot
  | reregisterWatch => exact absurd h hnot
  | _ => cases h

/-- **`apply_settled` comes from a task with a report that means it.** -/
theorem commits_settled {text : String} {block : Option ℤ} {data : Value} {id : Uuid}
    (h : (w.commits env a).op = some (.applySettled text block data, id)) :
    ∃ name mint claim job s retries, a = .advance name .go mint ∧ s.id = id ∧
      w.tasks.get? name = some (.settling claim job s (.settled text block data) retries) := by
  cases World.asks h with
  | settling name input mint claim job s outcome retries _ ht hasked =>
    obtain ⟨rfl, -⟩ := World.commits_settling ht h
    cases settlementOp_asks hasked
    exact ⟨name, mint, claim, job, s, retries, rfl, rfl, ht⟩
  | indexer name input mint event s _ ht hasked => cases indexerOp_asks hasked
  | polled name input mint s watchId watch polledAt _ ht hasked => cases openOp_asks hasked
  | worker name input mint job stage _ _ attempt ht hstatement =>
    cases stage <;> cases hstatement

/-- **A confirmed settlement settles a paid deposit.** -/
theorem settles_of_proof {clock : DateTime}
    (hrun : Lts.Trace (GumServer.step env) (World.init clock) steps w)
    (h : GumServer.step env w a = some w') {id : Uuid} {d : Deposit} {report : Report} {hash : B256}
    (happlies : Applies env w a id report) (hd : w.db.deposits.get? id = some d)
    (hpaid : d.status = .paid) (hproves : report.Proves env.readers d hash) :
    ∃ d', w'.db.deposits.get? id = some d' ∧ d'.status = .settled ∧
      d'.txHash = hashText (some hash) := by
  obtain ⟨name, mint, claim, job, s, outcome, retries, rfl, ht, rfl, hmeaning⟩ := happlies
  obtain ⟨⟨row, hrow, hterms⟩, -⟩ := (Heard.of_trace hrun).settling ht
  obtain rfl := Option.some.inj (hd.symm.trans hrow)
  obtain ⟨text, block, data, htext, hsettled⟩ := (hproves.congr hterms.symm).meaning
  obtain rfl := Option.some.inj (hmeaning.symm.trans hsettled)
  have hcommits : w.commits env (.advance name .go mint) =
      .tx ⟨claim.map fun id => (.engine, id), none, some (.applySettled text block data, s.id)⟩ := by
    rw [World.commits, ht]
    rfl
  have hid := Table.key_of_get? hd
  have hhits : (w.commits env (.advance name .go mint)).Hits w.clock
      (.applySettled text block data) d := by
    rw [hcommits]
    refine ⟨congrArg some (congrArg _ hid.symm), ?_⟩
    exact beq_iff_eq.mpr hpaid
  refine ⟨_, (JobsFit.reachable ⟨clock, hrun.reaches⟩).row_after h hd, ?_, ?_⟩
  · rw [hhits.row]
    rfl
  · rw [hhits.row, htext]
    rfl

end Runs

/-- A report was applied to a deposit in the course of a run, after it had been heard. -/
def AppliedIn (env : Env) (steps : List (World × Action)) (id : Uuid) (report : Report) : Prop :=
  ∃ before w a after, steps = before ++ (w, a) :: after ∧ (id, report) ∈ reports before ∧
    Applies env w a id report

theorem AppliedIn.concat {env : Env} {steps : List (World × Action)} {id : Uuid} {report : Report}
    (h : AppliedIn env steps id report) (w : World) (a : Action) :
    AppliedIn env (steps ++ [(w, a)]) id report := by
  obtain ⟨before, t, b, after, rfl, hheard, happlies⟩ := h
  exact ⟨before, t, b, after ++ [(w, a)], by simp, hheard, happlies⟩

/-- **A settled deposit has its proof.** -/
theorem proof_of_settled {env : Env} {clock : DateTime} {steps : List (World × Action)} {w : World}
    (h : Lts.Trace (step env) (World.init clock) steps w) {id : Uuid} {d : Deposit}
    (hd : w.db.deposits.get? id = some d) (hsettled : d.status = .settled) :
    ∃ report hash, AppliedIn env steps id report ∧ report.Proves env.readers d hash ∧
      d.txHash = hashText (some hash) := by
  induction h generalizing d with
  | nil => cases hd
  | @concat steps w w' a hrun hstep ih =>
    have hreachable : Reachable env w := ⟨clock, hrun.reaches⟩
    rcases JobsFit.step_row hstep hd with ⟨old, hold, rfl⟩ | ⟨-, hpending, -⟩
    · have hterms := (w.commits env a).row_fixedTerms w.clock old
      by_cases hwas : old.status = .settled
      · -- it was settled before, and its transaction stands
        obtain ⟨report, hash, happlied, hproves, htx⟩ := ih hold hwas
        have hstanding := (w.commits env a).row_standing w.clock (.inl hwas)
        refine ⟨report, hash, happlied.concat w a, hproves.congr hterms, ?_⟩
        exact (congrArg Standing.txHash hstanding).trans htx
      · rcases (w.commits env a).row_cases w.clock old with hquiet | ⟨op, hhits, heq⟩
        · exact absurd (hquiet.status.symm.trans hsettled) hwas
        · have hbound := (w.commits env a).quiet_bound w.clock old
          rw [heq] at hsettled
          obtain ⟨text, block, data, rfl, htx⟩ := Op.of_settled (hbound.status ▸ hwas) hsettled
          obtain ⟨name, mint, claim, job, s, retries, rfl, hid, ht⟩ :=
            commits_settled hhits.carries
          obtain ⟨⟨row, hrow, hread⟩, report, hheard, hmeaning⟩ := (Heard.of_trace hrun).settling ht
          have hkey := Table.key_of_get? hold
          rw [hid, hkey, hold] at hrow
          obtain rfl := Option.some.inj hrow
          obtain ⟨payment, hpayment⟩ := hreachable.paymentAddressOf env.readers.lib hold
          have hpayment' : s.paymentAddressOf env.readers.lib = some payment := by
            have haddress : old.paymentAddress = s.paymentAddress :=
              congrArg FixedTerms.paymentAddress hread
            rw [Deposit.paymentAddressOf, ← haddress]
            exact hpayment
          obtain ⟨hash, htext, hproves⟩ := Report.proves_of_meaning hpayment' hmeaning
          rw [hid, hkey] at hheard
          refine ⟨report, hash, ⟨steps, w, _, [], rfl, hheard, ?_⟩,
            hproves.congr (hterms.trans hread), ?_⟩
          · exact ⟨name, mint, claim, job, s, _, retries, rfl, ht, hid.trans hkey, hmeaning⟩
          · rw [heq, htx, htext]
    · rw [hpending] at hsettled
      cases hsettled

/-- **Settlement is verified.** In every run, a settled deposit has the transaction of an engine
report that was applied to it, and that report is a confirmation with success whose logs all parse
and show the payment address `Settled`, with no `WrongChain` of it before. And every such report
that is applied to a paid deposit settles it. -/
theorem settlement_verified (env : Env) (clock : DateTime) (steps : List (World × Action))
    (w : World) (h : Lts.Trace (step env) (World.init clock) steps w) :
    (∀ id d, w.db.deposits.get? id = some d → d.status = .settled →
      ∃ report hash, AppliedIn env steps id report ∧ report.Proves env.readers d hash ∧
        d.txHash = hashText (some hash)) ∧
    ∀ a w' id d report hash, step env w a = some w' → Applies env w a id report →
      w.db.deposits.get? id = some d → d.status = .paid → report.Proves env.readers d hash →
      ∃ d', w'.db.deposits.get? id = some d' ∧ d'.status = .settled ∧
        d'.txHash = hashText (some hash) := by
  refine ⟨?_, ?_⟩
  · intro id d hd hsettled
    exact proof_of_settled h hd hsettled
  · intro a w' id d report hash hstep happlies hd hpaid hproves
    exact settles_of_proof h hstep happlies hd hpaid hproves

namespace Fixture

/-- A log of an address, with one topic. -/
def log (address : Address) (topic : B256) : Value :=
  .object [("address", .string address.lowerHex),
    ("topics", .array [.string (lowerHex (B256.toBytes topic))])]

/-- The engine's notice that job 500 is confirmed: the token logs something, and the payment
address forwards what was too much and settles. -/
def jobConfirmed : EngineEvent where
  eventId := "evt-confirmed"
  event := "transaction.confirmed"
  jobId := 500
  outcome := some "success"
  txHash := some 77
  blockNumber := some 12
  receipt := some (.object [("logs", .array [
    log usdc WRONG_CHAIN_TOPIC,
    log new.paymentAddress RECOVERED_TOPIC,
    log new.paymentAddress SETTLED_TOPIC])])
  reincluded := false
  error := none

/-- The deposit is bound to its job, and the confirmation is applied. -/
def untilSettled : List Action := untilBound ++ [
  .engineEvent 5 jobConfirmed (some 7),
  .advance 5 .go (mint 5)]

end Fixture

/-- On the fixture's deposit, settled by a webhook. -/
theorem settlement_verified_fixture : ∃ steps w d,
    Lts.Trace (step Fixture.env) (World.init Fixture.requestedAt) steps w ∧
    w.db.deposits.get? 7 = some d ∧ d.status = .settled ∧
    ∃ report hash, AppliedIn Fixture.env steps 7 report ∧
      report.Proves Fixture.env.readers d hash ∧ d.txHash = hashText (some hash) := by
  obtain ⟨steps, w, htrace, hfound⟩ : ∃ steps w,
      Lts.Trace (step Fixture.env) (World.init Fixture.requestedAt) steps w ∧
      ((w.db.deposits.get? 7).map fun d => d.status) = some .settled :=
    @Lts.exists_trace_of_trace _ _ _ _ _ Fixture.untilSettled
      (fun p : List (World × Action) × World => (p.2.db.deposits.get? 7).map fun d => d.status) _
      (by decide +kernel)
  obtain ⟨d, hd, hsettled⟩ := Option.map_eq_some_iff.mp hfound
  have hproof := (settlement_verified Fixture.env _ steps w htrace).1 7 d hd hsettled
  exact ⟨steps, w, d, htrace, hd, hsettled, hproof⟩

end GumServer
