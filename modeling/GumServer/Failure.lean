import GumServer.Consistent
import GumServer.ErrorAbi
import GumServer.Inclusion
import GumServer.Recordable

/-!
# The failure that is served

The revert data of a failed settlement is decoded twice: when the failure is recorded, for the data
of its event, and whenever the deposit is looked at, from the hex of the row. The row keeps the
bytes and the calls they are about, so both are one view. That is the last `failed` event of the
timeline and no earlier one: a retry clears the columns, and the next failure writes them anew.
-/

namespace GumServer

open Bytes

/-- `Failure`. -/
structure Failure where
  code : String
  message : String
  revert : Option Value

namespace Deposit

variable (lib : Crates) (abi : RevertAbi) (d : Deposit)

/-- `failure.revert`, from the row; the outer `none` is the panic on text that does not parse. -/
def revertView : Option (Option Value) :=
  d.failureRevertData.mapM fun text => do
    let data ← lib.parseBytes text
    let calls ← d.callsOf lib
    some (RevertView.ofExecute abi data calls)

/-- The `failure` of `Deposit::view`. -/
def failureView : Option (Option Failure) :=
  d.failureCode.mapM fun code => do
    let revert ← d.revertView lib abi
    some { code, message := d.failureMessage.getD "", revert }

end Deposit

section View

variable {lib : Crates} {abi : RevertAbi} {d : Deposit}

/-- The revert data of a row reads back from its hex. -/
theorem Deposit.revertView_eq {revertData : Option (List UInt8)} {calls : List Call}
    (hdata : d.failureRevertData = revertData.map lowerHex) (hcalls : d.callsOf lib = some calls) :
    d.revertView lib abi =
      some (revertData.map fun bytes => RevertView.ofExecute abi bytes calls) := by
  rw [Deposit.revertView, hdata]
  cases revertData <;> simp [hcalls]

theorem Deposit.failureView_eq {code : String} {revert : Option Value}
    (hcode : d.failureCode = some code) (hrevert : d.revertView lib abi = some revert) :
    d.failureView lib abi = some (some ⟨code, d.failureMessage.getD "", revert⟩) := by
  simp [Deposit.failureView, hcode, hrevert]

end View

/-- The last `failed` event of a timeline. -/
def lastFailed (timeline : List DepositEvent) : Option DepositEvent :=
  (timeline.filter fun e => decide (e.eventType = .failed)).getLast?

section LastFailed

variable {timeline : List DepositEvent} {e : DepositEvent}

theorem lastFailed_concat_self (h : e.eventType = .failed) :
    lastFailed (timeline ++ [e]) = some e := by
  simp [lastFailed, h]

theorem lastFailed_concat_of_ne (h : e.eventType ≠ .failed) :
    lastFailed (timeline ++ [e]) = lastFailed timeline := by
  simp [lastFailed, h]

end LastFailed

/-! ## What is recorded -/

/-- The outcome has the revert in its data, as it is viewed, exactly when it has revert data. -/
def SettlementOutcome.ShowsRevert (view : List UInt8 → Value) : SettlementOutcome → Prop
  | .failed _ _ _ revertData data => data.get "revert" = revertData.map view
  | _ => True

theorem Value.get_set_self {fields : List (String × Value)} {key : String} {v : Value} :
    ((Value.object fields).set key v).get key = some v := by
  rw [Value.set, Value.get, List.lookup_append]
  have hnone : (fields.filter fun f => f.1 ≠ key).lookup key = none := by
    rw [List.lookup_eq_none_iff]
    intro p hp
    have hne : p.1 ≠ key := of_decide_eq_true (List.mem_filter.mp hp).2
    exact bne_iff_ne.mpr hne.symm
  rw [hnone, Option.none_or, List.lookup_cons_self]

section Meaning

variable {r : Readers} {s : Deposit} {fields : List (String × Value)} {text : Option String}
  {block : Option ℤ} {error : Option EngineError}

/-- An engine failure shows its revert. -/
theorem engineFailure_showsRevert (h : fields.lookup "revert" = none) :
    (SettlementOutcome.engineFailure r error text s (.object fields)).ShowsRevert
      fun bytes => r.revert.view bytes ((s.callsOf r.lib).getD []) := by
  cases hbytes : error.bind (EngineError.revertBytes r.lib) with
  | none =>
    rw [engineFailure_of_none hbytes]
    exact (Value.get_set_ne (by decide)).trans h
  | some bytes =>
    rw [engineFailure_of_some hbytes]
    exact Value.get_set_self

theorem fromReceipt_showsRevert {outcome : Option String} {receipt : Option Value}
    (h : fields.lookup "revert" = none) :
    (SettlementOutcome.fromReceipt r outcome text block receipt error s (.object fields)).ShowsRevert
      fun bytes => r.revert.view bytes ((s.callsOf r.lib).getD []) := by
  cases text with
  | none => exact trivial
  | some text =>
    have hset : ((Value.object fields).set "receipt" (receipt.getD .null)).get "revert" = none :=
      (Value.get_set_ne (by decide)).trans h
    rw [SettlementOutcome.fromReceipt]
    split_ifs
    · split
      · exact trivial
      · exact hset
      · exact hset
      · exact hset
    · exact engineFailure_showsRevert hset
    · exact trivial

/-- **What a report means shows its revert**, beside the calls of the deposit it is about. -/
theorem Report.meaning_showsRevert {report : Report} {outcome : SettlementOutcome}
    (h : report.meaning r s = some outcome) :
    outcome.ShowsRevert fun bytes => r.revert.view bytes ((s.callsOf r.lib).getD []) := by
  cases report with
  | webhook event =>
    obtain rfl := Option.some.inj h
    rw [SettlementOutcome.fromEvent]
    split
    · split <;> exact trivial
    · exact fromReceipt_showsRevert rfl
    · exact engineFailure_showsRevert rfl
    · exact trivial
  | poll jobId job polledAt =>
    rw [Report.meaning, SettlementOutcome.fromJob] at h
    split at h
    · obtain rfl := Option.some.inj h
      exact fromReceipt_showsRevert rfl
    · obtain rfl := Option.some.inj h
      exact engineFailure_showsRevert rfl
    · cases h

end Meaning

/-- **A failure is a report's or a refusal's.** -/
theorem commits_failed {env : Env} {w : World} {a : Action} {code message : String}
    {text : Option String} {revertData : Option (List UInt8)} {data : Value} {id : Uuid}
    (h : (w.commits env a).op = some (.applyFailed code message text revertData data, id)) :
    (∃ name claim job s retries, s.id = id ∧ w.tasks.get? name =
      some (.settling claim job s (.failed code message text revertData data) retries)) ∨
    revertData = none ∧ data = .object [("error", .string message)] := by
  cases World.asks h with
  | settling name input mint claim job s outcome retries _ ht hasked =>
    cases settlementOp_asks hasked
    exact .inl ⟨name, claim, job, s, retries, rfl, ht⟩
  | indexer name input mint event s _ ht hasked => cases indexerOp_asks hasked
  | polled name input mint s watchId watch polledAt _ ht hasked => cases openOp_asks hasked
  | worker name input mint job stage _ _ attempt ht hstatement =>
    cases stage <;> cases hstatement
    exact .inr ⟨rfl, rfl⟩

/-! ## Along a run -/

/-- The last `failed` event tells the failure of the row: the revert in its data is the view of the
row's revert data beside the row's calls. -/
def TellsFailure (lib : Crates) (abi : RevertAbi) (timeline : List DepositEvent) (d : Deposit) :
    Prop :=
  d.failureCode ≠ none → ∃ (e : DepositEvent) (revertData : Option (List UInt8)) (calls : List Call),
    lastFailed timeline = some e ∧ d.failureRevertData = revertData.map lowerHex ∧
    d.callsOf lib = some calls ∧
    e.data.get "revert" = revertData.map fun bytes => RevertView.ofExecute abi bytes calls

theorem Deposit.callsOf_congr {d d' : Deposit} (lib : Crates) (h : d'.fixedTerms = d.fixedTerms) :
    d'.callsOf lib = d.callsOf lib := by
  have hcalls : d'.calls = d.calls := congrArg FixedTerms.calls h
  rw [Deposit.callsOf, hcalls, Deposit.callsOf]

namespace TellsFailure

variable {lib : Crates} {abi : RevertAbi} {timeline timeline' : List DepositEvent} {d d' : Deposit}

theorem of_same (h : TellsFailure lib abi timeline d) (hcode : d'.failureCode = d.failureCode)
    (hrevert : d'.failureRevertData = d.failureRevertData) (hterms : d'.fixedTerms = d.fixedTerms)
    (hlast : lastFailed timeline' = lastFailed timeline) : TellsFailure lib abi timeline' d' := by
  intro hsome
  obtain ⟨e, revertData, calls, htold, hdata, hcalls, hview⟩ := h (hcode ▸ hsome)
  refine ⟨e, revertData, calls, hlast.trans htold, hrevert.trans hdata, ?_, hview⟩
  exact (Deposit.callsOf_congr lib hterms).trans hcalls

/-- **A transition keeps the two together**, if a failure shows its revert. -/
theorem of_hit (h : TellsFailure lib abi timeline d) (op : Op) (now : DateTime) (mint : Mint)
    (hconsistent : d.Consistent) (hguard : op.transition.guard d = true) {calls : List Call}
    (hcalls : d.callsOf lib = some calls)
    (hshows : ∀ {code message text revertData data},
      op = .applyFailed code message text revertData data → data.get "revert" =
        revertData.map fun bytes => RevertView.ofExecute abi bytes calls) :
    TellsFailure lib abi (timeline ++ (op.transition.event.map fun e =>
      Db.eventOf now mint (op.transition.set now d) e.1 e.2).toList) (op.transition.row now d) := by
  have hterms := op.row_fixedTerms now d
  have hcalls' := (Deposit.callsOf_congr lib hterms).trans hcalls
  cases op with
  | applyFailed code message text revertData data =>
    intro _
    refine ⟨_, revertData, calls, lastFailed_concat_self rfl, rfl, hcalls', ?_⟩
    exact (Value.get_set_ne (by decide)).trans (hshows rfl)
  | failOpen code message =>
    intro _
    refine ⟨_, none, calls, lastFailed_concat_self rfl, ?_, hcalls', rfl⟩
    exact (hconsistent.of_open hguard).1.failureRevertData
  | retrySettlement =>
    intro hsome
    exact absurd rfl hsome
  | markEngineSubmitted job replayed =>
    cases replayed with
    | true => exact h.of_same rfl rfl hterms (congrArg lastFailed (List.append_nil _))
    | false => exact h.of_same rfl rfl hterms (lastFailed_concat_of_ne EventType.noConfusion)
  | _ => exact h.of_same rfl rfl hterms (lastFailed_concat_of_ne EventType.noConfusion)

/-- What is served is what was recorded. -/
theorem served (h : TellsFailure lib abi timeline d) :
    ∃ failure, d.failureView lib abi = some failure ∧ ∀ f, failure = some f →
      ∃ e, lastFailed timeline = some e ∧ f.revert = e.data.get "revert" := by
  cases hcode : d.failureCode with
  | none =>
    refine ⟨none, by simp [Deposit.failureView, hcode], ?_⟩
    intro f hf
    cases hf
  | some code =>
    obtain ⟨e, revertData, calls, hlast, hdata, hcalls, hview⟩ := h (by simp [hcode])
    refine ⟨_, Deposit.failureView_eq hcode (Deposit.revertView_eq hdata hcalls), ?_⟩
    rintro f ⟨⟩
    exact ⟨e, hlast, hview.symm⟩

end TellsFailure

section Runs

variable {env : Env} {abi : RevertAbi} {w w' : World} {a : Action} {d : Deposit}

/-- The calls of a row always parse. -/
theorem Reachable.callsOf (h : Reachable env w) (lib : Crates) {id : Uuid}
    (hd : w.db.deposits.get? id = some d) : ∃ calls, d.callsOf lib = some calls := by
  have hviews : ∃ calls : List Call, d.calls = calls.map CallView.ofCall := by
    refine h.row_invariant (P := fun d => ∃ calls : List Call, d.calls = calls.map CallView.ofCall)
      ?_ ?_ hd
    · intro new id userId now d hinsert
      exact ⟨_, (Inserted.of_insert hinsert).calls⟩
    · rintro d write now ⟨calls, hcalls⟩
      exact ⟨calls, (congrArg FixedTerms.calls (write.row_fixedTerms now d)).trans hcalls⟩
  obtain ⟨calls, hviews⟩ := hviews
  refine ⟨calls, ?_⟩
  rw [Deposit.callsOf, hviews, mapM_toCall_ofCall]

/-- **A failure that is recorded shows its revert**, beside the calls of the row. -/
theorem Reachable.failure_showsRevert (h : Reachable env w)
    (habi : env.readers.revert = .ofAbi abi) {code message : String} {text : Option String}
    {revertData : Option (List UInt8)} {data : Value} {calls : List Call}
    (hop : (w.commits env a).op = some (.applyFailed code message text revertData data, d.id))
    (hd : w.db.deposits.get? d.id = some d) (hcalls : d.callsOf env.readers.lib = some calls) :
    data.get "revert" = revertData.map fun bytes => RevertView.ofExecute abi bytes calls := by
  rcases commits_failed hop with ⟨name, claim, job, s, retries, hid, ht⟩ | ⟨rfl, rfl⟩
  · obtain ⟨clock, hreach⟩ := h
    obtain ⟨steps, htrace⟩ := hreach.exists_trace
    obtain ⟨⟨row, hrow, hterms⟩, report, -, hmeaning⟩ := (Heard.of_trace htrace).settling ht
    rw [hid, hd] at hrow
    obtain rfl := Option.some.inj hrow
    have hshows := Report.meaning_showsRevert hmeaning
    rw [← Deposit.callsOf_congr env.readers.lib hterms, hcalls, habi] at hshows
    exact hshows
  · rfl

/-- **The timelines tell the failures** in every state of every run. -/
theorem Reachable.tellsFailure (h : Reachable env w) (habi : env.readers.revert = .ofAbi abi)
    (hd : w.db.deposits.get? d.id = some d) :
    TellsFailure env.readers.lib abi (w.db.timeline d.id) d := by
  obtain ⟨clock, hreach⟩ := h
  refine timeline_invariant hreach.from_reached ?_ ?_ ?_ hd
  · intro new id userId now d mint hinsert hsome
    exact absurd (Inserted.of_insert hinsert).failureCode hsome
  · intro timeline d d' htells hquiet
    exact htells.of_same (by rw [hquiet.eq]) (by rw [hquiet.eq]) hquiet.fixedTerms rfl
  · intro w a op d mint hok hhits hd htells
    have hreachable : Reachable env w := ⟨clock, hok.2⟩
    have hbound := (w.commits env a).quiet_bound w.clock d
    obtain ⟨calls, hcalls⟩ := hreachable.callsOf env.readers.lib hd
    refine htells.of_hit op w.clock mint ?_ hhits.guard
      ((Deposit.callsOf_congr _ hbound.fixedTerms).trans hcalls) ?_
    · exact (hreachable.consistent hd).bound _ _
    · rintro code message text revertData data rfl
      exact hreachable.failure_showsRevert habi hhits.carries hd hcalls

/-- **A failure is served with its revert.** -/
theorem Reachable.failure_served (h : Reachable env w) (hstep : step env w a = some w')
    {code message : String} {text : Option String} {bytes data}
    (hhits : (w.commits env a).Hits w.clock (.applyFailed code message text (some bytes) data) d)
    (hd : w.db.deposits.get? d.id = some d) :
    ∃ d' f calls, w'.db.deposits.get? d.id = some d' ∧ d.callsOf env.readers.lib = some calls ∧
      d'.failureView env.readers.lib abi = some (some f) ∧
      f.revert = some (RevertView.ofExecute abi bytes calls) := by
  obtain ⟨calls, hcalls⟩ := h.callsOf env.readers.lib hd
  have hcalls' := (Deposit.callsOf_congr env.readers.lib
    ((w.commits env a).row_fixedTerms w.clock d)).trans hcalls
  rw [hhits.row] at hcalls'
  have hrevert := @Deposit.revertView_eq _ abi _ (some bytes) _ rfl hcalls'
  have hview := Deposit.failureView_eq rfl hrevert
  rw [← hhits.row] at hview
  exact ⟨_, _, calls, (JobsFit.reachable h).row_after hstep hd, hcalls, hview, rfl⟩

end Runs

/-! ## A failed call -/

section CallFailed

variable {abi : RevertAbi} {index : U256} {revertData : List UInt8} {calls : List Call}

/-- A failed call is viewed with what the call itself reverted with. -/
theorem RevertView.ofExecute_callFailed (habi : abi.Lawful)
    (hsize : (ExecuteError.payment (.callFailed index revertData)).encode.length < 2 ^ 64) :
    RevertView.ofExecute abi (ExecuteError.payment (.callFailed index revertData)).encode calls =
      RevertView.of (ExecuteError.payment (.callFailed index revertData)).encode
        (.callFailed index revertData (Reason.decodeCall abi revertData)) calls := by
  rw [RevertView.ofExecute, decodeExecute_encode habi _ hsize]
  rfl

theorem RevertView.callOf_isSome {reason : Reason} :
    (RevertView.callOf (.callFailed index revertData reason) calls).isSome ↔
      index.val < calls.length := by
  rw [RevertView.callOf, Option.isSome_map, callAt, isSome_getElem?]

end CallFailed

/-- **What a settlement reverted with is told as it is.** Whatever error revert data is the encoding
of, it is read as that error, with its arguments. A failed call is viewed with the whole data, with
what the call itself reverted with, and with the call, if the index is one of a call. And in every
state of every run, each row's failure can be served, with the revert that is on the last `failed`
event of its timeline; after a failure with revert data this is the view of that data. -/
theorem reverts_told (abi : RevertAbi) (habi : abi.Lawful) :
    (∀ e : ExecuteError, e.encode.length < 2 ^ 64 →
      Reason.decodeExecute abi e.encode = e.reason abi) ∧
    (∀ (index : U256) (revertData data : List UInt8) (calls : List Call) (view : Value),
      data = (ExecuteError.payment (.callFailed index revertData)).encode → data.length < 2 ^ 64 →
      view = RevertView.ofExecute abi data calls →
      view.get "data" = some (.string (lowerHex data)) ∧
      (∃ reason, view.get "reason" = some reason ∧
        reason = RevertView.of revertData (Reason.decodeCall abi revertData) [] ∧
        reason.get "data" = some (.string (lowerHex revertData))) ∧
      ((view.get "call").isSome ↔ index.val < calls.length) ∧
      ∀ call, calls[index.val]? = some call →
        (view.get "call").bind (·.get "target") = some (.string call.target.lowerHex)) ∧
    (∀ (env : Env) (w : World), env.readers.revert = .ofAbi abi → Reachable env w →
      ∀ id d, w.db.deposits.get? id = some d →
      ∃ failure, d.failureView env.readers.lib abi = some failure ∧ ∀ f, failure = some f →
        ∃ e, lastFailed (w.db.timeline id) = some e ∧ f.revert = e.data.get "revert") ∧
    ∀ (env : Env) (w w' : World) (a : Action), Reachable env w → step env w a = some w' →
      ∀ d code message text bytes data, w.db.deposits.get? d.id = some d →
      (w.commits env a).Hits w.clock (.applyFailed code message text (some bytes) data) d →
      ∃ d' f calls, w'.db.deposits.get? d.id = some d' ∧ d.callsOf env.readers.lib = some calls ∧
        d'.failureView env.readers.lib abi = some (some f) ∧
        f.revert = some (RevertView.ofExecute abi bytes calls) := by
  refine ⟨?_, ?_, ?_, ?_⟩
  · intro e hsize
    exact decodeExecute_encode habi e hsize
  · rintro index revertData data calls view rfl hsize rfl
    rw [RevertView.ofExecute_callFailed habi hsize, RevertView.get_call]
    refine ⟨RevertView.get_data, ?_, RevertView.callOf_isSome, ?_⟩
    · exact ⟨_, RevertView.get_reason, rfl, RevertView.get_data⟩
    · intro call hcall
      rw [RevertView.callOf, callAt, hcall]
      rfl
  · intro env w hrevert h id d hd
    obtain rfl := Table.key_of_get? hd
    exact (h.tellsFailure hrevert hd).served
  · intro env w w' a h hstep d code message text bytes data hd hhits
    exact h.failure_served hstep hhits hd

namespace Fixture

/-- The default configuration, with decoders. -/
def decoding : Env :=
  { env with readers := { env.readers with revert := .ofAbi .reference } }

/-- What the fixture's one call reverts with. -/
def transferFailed : List UInt8 := (ExecuteError.callTarget .transferFailed).encode

/-- And the payment, for its call. -/
def callFailed : List UInt8 := (ExecuteError.payment (.callFailed 0 transferFailed)).encode

/-- The engine's notice that the simulation of job 500 reverts with it. -/
def jobReverts : EngineEvent where
  eventId := "evt-reverts"
  event := "transaction.failed"
  jobId := 500
  outcome := none
  txHash := none
  blockNumber := none
  receipt := none
  reincluded := false
  error := some ⟨"simulation_reverted", "execution reverted", some (lowerHex callFailed)⟩

/-- The deposit fails with it. -/
def untilCallFailed : List Action := untilBound ++ [
  .engineEvent 5 jobReverts (some 7),
  .advance 5 .go (mint 5)]

/-- The name of an error's view, and of the one inside it. -/
def revertNames (view : Option Value) : Option String × Option String :=
  ((view.bind (·.get "name")).bind Value.asStr,
    ((view.bind (·.get "reason")).bind (·.get "name")).bind Value.asStr)

end Fixture

/-- On the fixture's deposit, whose payment's one call fails. -/
theorem reverts_told_fixture : ∃ w d f e, Reachable Fixture.decoding w ∧
    w.db.deposits.get? 7 = some d ∧ d.failureView Crates.reference .reference = some (some f) ∧
    lastFailed (w.db.timeline 7) = some e ∧ f.revert = e.data.get "revert" ∧
    Fixture.revertNames f.revert = (some "CallFailed", some "TransferFailed") ∧
    Reason.decodeExecute .reference Fixture.callFailed =
      (ExecuteError.payment (.callFailed 0 Fixture.transferFailed)).reason .reference ∧
    ∃ reason, (RevertView.ofExecute .reference Fixture.callFailed Fixture.new.calls.toList).get "reason" =
        some reason ∧
      reason.get "data" = some (.string (lowerHex Fixture.transferFailed)) := by
  obtain ⟨w, hw, hfound⟩ : ∃ w, Lts.Reaches (step Fixture.decoding) Lts.Any
      (World.init Fixture.requestedAt) w ∧
      ((w.db.deposits.get? 7).bind fun d => (lastFailed (w.db.timeline 7)).map fun e =>
        (d.failureCode.isSome, Fixture.revertNames (e.data.get "revert"))) =
          some (true, some "CallFailed", some "TransferFailed") :=
    @Lts.exists_reaches_of_run _ _ _ _ _ _ _ Fixture.untilCallFailed _ _ (by decide +kernel)
  obtain ⟨d, hd, hmap⟩ := Option.bind_eq_some_iff.mp hfound
  obtain ⟨e, he, heq⟩ := Option.map_eq_some_iff.mp hmap
  obtain ⟨hfailed, hnames⟩ := Prod.mk.inj heq
  obtain ⟨code, hcode⟩ := Option.isSome_iff_exists.mp hfailed
  have hreachable : Reachable Fixture.decoding w := ⟨_, hw⟩
  obtain ⟨hdecoded, hviewed, htold, -⟩ := reverts_told .reference RevertAbi.reference_lawful
  obtain ⟨failure, hview, hserved⟩ := htold Fixture.decoding w rfl hreachable 7 d hd
  obtain ⟨revert, -, rfl⟩ : ∃ revert, d.revertView Fixture.decoding.readers.lib .reference =
      some revert ∧ some ⟨code, d.failureMessage.getD "", revert⟩ = failure := by
    simpa [Deposit.failureView, hcode, Option.bind_eq_some_iff] using hview
  obtain ⟨e', he', hrevert⟩ := hserved _ rfl
  obtain rfl := Option.some.inj (he.symm.trans he')
  have hsize : Fixture.callFailed.length < 2 ^ 64 := by decide +kernel
  obtain ⟨-, ⟨reason, hreason, -, hdata⟩, -, -⟩ :=
    hviewed 0 Fixture.transferFailed _ Fixture.new.calls.toList _ rfl hsize rfl
  exact ⟨w, d, _, e, hreachable, hd, hview, he, hrevert, hrevert ▸ hnames,
    hdecoded _ hsize, reason, hreason, hdata⟩

end GumServer
