import GumServer.Payer
import GumServer.Revert

/-!
# Failures that can be recorded

PostgreSQL takes no U+0000 in a `TEXT` and none in a `JSONB`. A failure that has one can never be
recorded, and its deposit stays where it is. Revert data is the place to look for one: what a call
target reverts with is anybody's bytes. Every way through `chain/revert.rs` is clean, whatever the
bytes (`Reason.plain_decodeExecute`), since the one text it decodes is sanitized and the rest is
numbers, hex and names.

The engine's own code and message pass by that. So a failure can be recorded exactly when these, and
the rest of the report, come without.
-/

namespace GumServer

/-! ## Texts without NUL -/

/-- PostgreSQL takes the text. -/
def NulFree (s : String) : Prop := NUL ∉ s.toList

instance (s : String) : Decidable (NulFree s) := inferInstanceAs (Decidable (NUL ∉ s.toList))

/-- A text inside a value, also as the name of a field. -/
inductive Value.Holds (s : String) : Value → Prop where
  | string : Holds s (.string s)
  | element {v : Value} {xs : List Value} (mem : v ∈ xs) (holds : Holds s v) : Holds s (.array xs)
  | name {v : Value} {fields : List (String × Value)} (mem : (s, v) ∈ fields) :
      Holds s (.object fields)
  | field {name : String} {v : Value} {fields : List (String × Value)} (mem : (name, v) ∈ fields)
      (holds : Holds s v) : Holds s (.object fields)

/-- PostgreSQL takes the value. -/
def Value.NulFree (v : Value) : Prop := ∀ s, v.Holds s → GumServer.NulFree s

section Texts

variable {s t : String}

@[simp] theorem nulFree_append : NulFree (s ++ t) ↔ NulFree s ∧ NulFree t := by
  rw [NulFree, String.toList_append, List.mem_append, not_or]
  rfl

theorem nulFree_between {u : String} (hs : NulFree s) (ht : NulFree t) (hu : NulFree u) :
    NulFree (s ++ t ++ u) :=
  nulFree_append.mpr ⟨nulFree_append.mpr ⟨hs, ht⟩, hu⟩

@[simp] theorem nulFree_ofList {cs : List Char} : NulFree (String.ofList cs) ↔ NUL ∉ cs := by
  rw [NulFree, String.toList_ofList]

@[simp] theorem nulFree_repr (n : ℕ) : NulFree n.repr := by
  rw [Nat.repr_eq_ofList_toDigits, nulFree_ofList]
  intro hmem
  exact absurd (Nat.isDigit_of_mem_toDigits (by decide) (by decide) hmem) (by decide)

theorem nul_not_mem_hexChars (bs : List UInt8) : NUL ∉ hexChars bs := by
  have hdigit {n : ℕ} (h : n < 16) : NUL ≠ Nat.digitChar n := by
    revert n
    decide
  induction bs with
  | nil => exact List.not_mem_nil
  | cons b bs ih =>
    have hb := b.toNat_lt
    rw [hexChars, List.mem_cons, List.mem_cons, not_or, not_or]
    exact ⟨hdigit (by omega), hdigit (by omega), ih⟩

@[simp] theorem nulFree_lowerHex (bs : List UInt8) : NulFree (lowerHex bs) := by
  rw [lowerHex, nulFree_ofList, List.mem_cons, List.mem_cons, not_or, not_or]
  exact ⟨by decide, by decide, nul_not_mem_hexChars bs⟩

@[simp] theorem nulFree_address (a : Address) : NulFree a.lowerHex := nulFree_lowerHex _

@[simp] theorem nulFree_hexNumber (n : U256) : NulFree (hexNumber n) := by
  rw [hexNumber, nulFree_append, nulFree_ofList]
  refine ⟨by decide, ?_⟩
  split
  · decide
  · intro hmem
    rw [String.toList_ofList] at hmem
    exact nul_not_mem_hexChars _ ((List.dropWhile_sublist _).mem hmem)

/-- A text that is spelled out. -/
theorem nulFree_literal {cs : List Char} (h : NUL ∉ cs) : NulFree (String.ofList cs) :=
  nulFree_ofList.mpr h

/-- Whatever is sanitized is clean. -/
@[simp] theorem nulFree_sanitize (s : String) : NulFree (sanitize s) := by
  rw [sanitize, nulFree_ofList, List.mem_flatMap]
  rintro ⟨c, -, hmem⟩
  split at hmem
  · exact absurd hmem (by decide)
  · next hne => exact hne (List.mem_singleton.mp hmem).symm

theorem nulFree_nameOf (h : NulFree s) : NulFree (Reason.nameOf s) := by
  rw [Reason.nameOf, nulFree_ofList]
  exact fun hmem => h ((List.takeWhile_sublist _).mem hmem)

theorem nulFree_intercalate {ss : List String} (hs : NulFree s) (h : ∀ t ∈ ss, NulFree t) :
    NulFree (s.intercalate ss) := by
  rw [NulFree, String.toList_intercalate]
  induction ss with
  | nil => exact List.not_mem_nil
  | cons t ss ih =>
    have ht := h t List.mem_cons_self
    have hrest := ih fun t ht => h t (List.mem_cons_of_mem _ ht)
    cases ss with
    | nil => rwa [List.map_singleton, List.intercalate_singleton]
    | cons t' ss =>
      simp only [List.map_cons, List.intercalate_cons_cons, List.mem_append, not_or]
      exact ⟨⟨ht, hs⟩, hrest⟩

end Texts

namespace Value

@[simp] theorem nulFree_string {s : String} : (string s).NulFree ↔ GumServer.NulFree s := by
  constructor
  · exact fun h => h s .string
  · rintro h t ⟨⟩
    exact h

@[simp] theorem nulFree_bool (b : Bool) : (bool b).NulFree := by
  rintro s ⟨⟩

@[simp] theorem nulFree_number (n : Number) : (number n).NulFree := by
  rintro s ⟨⟩

@[simp] theorem nulFree_null : null.NulFree := by
  rintro s ⟨⟩

theorem nulFree_object {fields : List (String × Value)} : (object fields).NulFree ↔
    ∀ f ∈ fields, GumServer.NulFree f.1 ∧ f.2.NulFree := by
  constructor
  · rintro h ⟨name, v⟩ hmem
    exact ⟨h name (.name hmem), fun s hs => h s (.field hmem hs)⟩
  · intro h s hs
    cases hs with
    | name mem => exact (h _ mem).1
    | field mem holds => exact (h _ mem).2 s holds

end Value

/-! ## Reasons -/

namespace Reason

/-- The arguments of an error are clean, and their names. -/
def PlainArgs (args : List (String × String)) : Prop :=
  ∀ arg ∈ args, NulFree arg.1 ∧ NulFree arg.2

theorem plainArgs_nil : PlainArgs [] := fun _ harg => absurd harg List.not_mem_nil

section Args

variable {name : List Char} {args : List (String × String)}

theorem plainArgs_cons {value : String} (hname : NUL ∉ name) (hvalue : NulFree value)
    (hargs : PlainArgs args) : PlainArgs ((String.ofList name, value) :: args) :=
  List.forall_mem_cons.mpr ⟨⟨nulFree_literal hname, hvalue⟩, hargs⟩

theorem plainArgs_address (hname : NUL ∉ name) (a : Address) (hargs : PlainArgs args) :
    PlainArgs ((String.ofList name, a.lowerHex) :: args) :=
  plainArgs_cons hname (nulFree_address a) hargs

theorem plainArgs_number (hname : NUL ∉ name) (n : U256) (hargs : PlainArgs args) :
    PlainArgs ((String.ofList name, toString n.val) :: args) :=
  plainArgs_cons hname (nulFree_repr n.val) hargs

end Args

/-- The texts of a reason are clean. -/
def Plain : Reason → Prop
  | message text => NulFree text
  | custom signature args => NulFree signature ∧ PlainArgs args
  | callFailed _ _ reason => reason.Plain
  | _ => True

section Plain

variable {abi : RevertAbi} {reason : Reason}

theorem plain_callTarget (error : CallTargetError) : error.reason.Plain := by
  cases error with
  | erc20InsufficientBalance sender balance needed =>
    exact ⟨nulFree_literal (by decide), plainArgs_address (by decide) sender
      (plainArgs_number (by decide) balance (plainArgs_number (by decide) needed plainArgs_nil))⟩
  | erc20InvalidSender sender =>
    exact ⟨nulFree_literal (by decide), plainArgs_address (by decide) sender plainArgs_nil⟩
  | erc20InvalidReceiver receiver =>
    exact ⟨nulFree_literal (by decide), plainArgs_address (by decide) receiver plainArgs_nil⟩
  | erc20InsufficientAllowance spender allowance needed =>
    exact ⟨nulFree_literal (by decide), plainArgs_address (by decide) spender
      (plainArgs_number (by decide) allowance (plainArgs_number (by decide) needed plainArgs_nil))⟩
  | erc20InvalidApprover approver =>
    exact ⟨nulFree_literal (by decide), plainArgs_address (by decide) approver plainArgs_nil⟩
  | erc20InvalidSpender spender =>
    exact ⟨nulFree_literal (by decide), plainArgs_address (by decide) spender plainArgs_nil⟩
  | accountIsFrozen frozenAccount =>
    exact ⟨nulFree_literal (by decide), plainArgs_address (by decide) frozenAccount plainArgs_nil⟩
  | _ => exact ⟨nulFree_literal (by decide), plainArgs_nil⟩

/-- **Whatever a call reverts with**, its reason is clean. -/
theorem plain_decodeCall (abi : RevertAbi) (data : List UInt8) : (decodeCall abi data).Plain := by
  rw [decodeCall]
  split
  · trivial
  · split
    · exact nulFree_sanitize _
    · trivial
    · exact plain_callTarget _
    · trivial

/-- **Whatever `execute` reverts with.** -/
theorem plain_decodeExecute (abi : RevertAbi) (data : List UInt8) :
    (decodeExecute abi data).Plain := by
  rw [decodeExecute]
  split
  · trivial
  · exact plain_decodeCall abi _
  · trivial
  · trivial
  · trivial
  · trivial
  · trivial
  · exact plain_decodeCall abi data

theorem Plain.signature (h : reason.Plain) {signature : String}
    (hsignature : reason.signature = some signature) : NulFree signature := by
  cases reason with
  | custom signature' args =>
    obtain rfl := Option.some.inj hsignature
    exact h.1
  | empty => cases hsignature
  | unrecognised data => cases hsignature
  | _ =>
    obtain rfl := Option.some.inj hsignature
    exact nulFree_literal (by decide)

theorem Plain.args (h : reason.Plain) : PlainArgs reason.args := by
  cases reason with
  | insufficientTokenBalance balance required =>
    exact plainArgs_number (by decide) balance (plainArgs_number (by decide) required plainArgs_nil)
  | callFailed index revertData reason => exact plainArgs_number (by decide) index plainArgs_nil
  | callTargetHasNoCode index target =>
    exact plainArgs_number (by decide) index (plainArgs_address (by decide) target plainArgs_nil)
  | amountNotSpent remaining => exact plainArgs_number (by decide) remaining plainArgs_nil
  | initCodeTooLarge length => exact plainArgs_number (by decide) length plainArgs_nil
  | message text => exact plainArgs_cons (by decide) h plainArgs_nil
  | panic code => exact plainArgs_number (by decide) code plainArgs_nil
  | custom signature args => exact h.2
  | _ => exact plainArgs_nil

theorem Plain.callText (h : reason.Plain) {text : String}
    (htext : reason.callText abi = some text) : NulFree text := by
  cases reason with
  | message text' =>
    obtain rfl := Option.some.inj htext
    exact h
  | panic code =>
    obtain rfl := Option.some.inj htext
    split
    · next kind hkind =>
      have hplain : NulFree kind := abi.panicKind_plain hkind
      exact nulFree_between (nulFree_between (nulFree_literal (by decide)) (nulFree_hexNumber code)
        (nulFree_literal (by decide))) hplain (nulFree_literal (by decide))
    · exact nulFree_append.mpr ⟨nulFree_literal (by decide), nulFree_hexNumber code⟩
  | custom signature args =>
    obtain rfl := Option.some.inj htext
    have hargs : NulFree (", ".intercalate (args.map fun arg => arg.1 ++ ": " ++ arg.2)) := by
      refine nulFree_intercalate (nulFree_literal (by decide)) fun t ht => ?_
      obtain ⟨arg, harg, rfl⟩ := List.mem_map.mp ht
      exact nulFree_between (h.2 arg harg).1 (nulFree_literal (by decide)) (h.2 arg harg).2
    exact nulFree_between (nulFree_append.mpr ⟨nulFree_nameOf h.1, nulFree_literal (by decide)⟩)
      hargs (nulFree_literal (by decide))
  | empty =>
    obtain rfl := Option.some.inj htext
    exact nulFree_literal (by decide)
  | unrecognised data =>
    obtain rfl := Option.some.inj htext
    split
    · exact nulFree_between (nulFree_literal (by decide)) (nulFree_lowerHex _)
        (nulFree_literal (by decide))
    · exact nulFree_append.mpr ⟨nulFree_literal (by decide), nulFree_lowerHex _⟩
  | _ => cases htext

theorem nulFree_describeCall (abi : RevertAbi) (index : U256) (calls : List Call) :
    NulFree (describeCall abi index calls) := by
  rw [describeCall]
  split
  · exact nulFree_append.mpr ⟨nulFree_literal (by decide), nulFree_repr _⟩
  · split
    · exact nulFree_between (nulFree_between (nulFree_between (nulFree_literal (by decide))
        (nulFree_repr _) (nulFree_literal (by decide))) (nulFree_repr _)
        (nulFree_literal (by decide))) (nulFree_address _) (nulFree_literal (by decide))
    · exact nulFree_between (nulFree_between (nulFree_literal (by decide)) (nulFree_repr _)
        (nulFree_literal (by decide))) (nulFree_address _) (nulFree_literal (by decide))

theorem Plain.getD_callText (h : reason.Plain) {other : String} (hother : NulFree other) :
    NulFree ((reason.callText abi).getD other) := by
  cases htext : reason.callText abi with
  | none => exact hother
  | some text => exact h.callText htext

theorem Plain.sentence (h : reason.Plain) {inner : String} (hinner : NulFree inner)
    (calls : List Call) : NulFree (reason.sentence abi calls inner) := by
  have hempty : NulFree "" := nulFree_literal (by decide)
  cases reason with
  | insufficientTokenBalance balance required =>
    exact nulFree_between (nulFree_between (nulFree_literal (by decide)) (nulFree_repr _) (nulFree_literal (by decide)))
      (nulFree_repr _) (nulFree_literal (by decide))
  | callFailed index revertData reason =>
    exact nulFree_append.mpr
      ⟨nulFree_between (nulFree_literal (by decide)) (nulFree_describeCall abi index calls) (nulFree_literal (by decide)), hinner⟩
  | callTargetHasNoCode index target =>
    exact nulFree_between (nulFree_between (nulFree_literal (by decide)) (nulFree_repr _) (nulFree_literal (by decide)))
      (nulFree_address _) (nulFree_literal (by decide))
  | amountNotSpent remaining =>
    exact nulFree_append.mpr
      ⟨nulFree_between (nulFree_literal (by decide)) (nulFree_repr _) (nulFree_literal (by decide)), nulFree_literal (by decide)⟩
  | alreadyDeployed => exact nulFree_append.mpr ⟨nulFree_literal (by decide), nulFree_literal (by decide)⟩
  | deploymentFailed =>
    exact nulFree_literal (by decide)
  | initCodeTooLarge length => exact nulFree_between (nulFree_literal (by decide)) (nulFree_repr _) (nulFree_literal (by decide))
  | custom signature args =>
    show NulFree (if signature = "TransferFailed()" then _ else _)
    split
    · exact nulFree_literal (by decide)
    · exact nulFree_append.mpr ⟨nulFree_literal (by decide), h.getD_callText hempty⟩
  | message text => exact nulFree_append.mpr ⟨nulFree_literal (by decide), h.getD_callText hempty⟩
  | panic code => exact nulFree_append.mpr ⟨nulFree_literal (by decide), h.getD_callText hempty⟩
  | empty => exact nulFree_append.mpr ⟨nulFree_literal (by decide), h.getD_callText hempty⟩
  | unrecognised data => exact nulFree_append.mpr ⟨nulFree_literal (by decide), h.getD_callText hempty⟩

/-- The sentence is clean. -/
theorem Plain.describe (h : reason.Plain) (calls : List Call) :
    NulFree (reason.describe abi calls) := by
  induction reason generalizing calls with
  | callFailed index revertData reason ih =>
    have hplain : reason.Plain := h
    exact h.sentence (hplain.getD_callText (ih hplain [])) calls
  | _ => exact h.sentence (nulFree_literal (by decide)) calls

end Plain

end Reason

/-! ## Levels -/

/-- PostgreSQL takes the fields of an object. -/
def PlainFields (fields : List (String × Value)) : Prop :=
  ∀ f ∈ fields, NulFree f.1 ∧ f.2.NulFree

section Fields

variable {fields fields' : List (String × Value)}

theorem plainFields_append (h : PlainFields fields) (h' : PlainFields fields') :
    PlainFields (fields ++ fields') :=
  List.forall_mem_append.mpr ⟨h, h'⟩

theorem plainFields_field? {name : List Char} {v : Option Value} (hname : NUL ∉ name)
    (hv : ∀ w, v = some w → w.NulFree) : PlainFields (Value.field? (String.ofList name) v) := by
  intro f hf
  obtain ⟨w, hw, rfl⟩ := Option.map_eq_some_iff.mp (Option.mem_toList.mp hf)
  exact ⟨nulFree_literal hname, hv w hw⟩

theorem plainFields_string {name : List Char} {s : String} (hname : NUL ∉ name) (hs : NulFree s) :
    PlainFields [(String.ofList name, .string s)] :=
  List.forall_mem_singleton.mpr ⟨nulFree_literal hname, Value.nulFree_string.mpr hs⟩

end Fields

namespace RevertView

variable {reason : Reason}

theorem nulFree_kind (reason : Reason) : NulFree (kind reason) := by
  cases reason <;> exact nulFree_literal (by decide)

theorem nulFree_callOf {calls : List Call} {v : Value} (h : callOf reason calls = some v) :
    v.NulFree := by
  have hjson {index : U256} {v : Value}
      (h : (callAt index calls).map (CallRef.json index) = some v) : v.NulFree := by
    obtain ⟨call, -, rfl⟩ := Option.map_eq_some_iff.mp h
    refine Value.nulFree_object.mpr (List.forall_mem_cons.mpr ⟨?_, ?_⟩)
    · exact ⟨nulFree_literal (by decide), Value.nulFree_number _⟩
    · exact plainFields_string (by decide) (nulFree_address _)
  cases reason with
  | callFailed index revertData reason => exact hjson h
  | callTargetHasNoCode index target => exact hjson h
  | _ => cases h

theorem plainFields_level (h : reason.Plain) (data : List UInt8) (calls : List Call) :
    PlainFields (level data reason calls) := by
  rw [level]
  refine plainFields_append (plainFields_append (plainFields_append (plainFields_append
    (plainFields_append (List.forall_mem_cons.mpr ⟨?_, ?_⟩) ?_) ?_) ?_) ?_) ?_
  · exact ⟨nulFree_literal (by decide), Value.nulFree_string.mpr (nulFree_kind reason)⟩
  · exact plainFields_string (by decide) (nulFree_lowerHex data)
  · refine plainFields_field? (by decide) fun w hw => ?_
    obtain ⟨-, heq⟩ := Option.ite_none_right_eq_some.mp hw
    obtain rfl := Option.some.inj heq
    exact Value.nulFree_string.mpr (nulFree_lowerHex _)
  · refine plainFields_field? (by decide) fun w hw => ?_
    obtain ⟨name, hname, rfl⟩ := Option.map_eq_some_iff.mp hw
    obtain ⟨signature, hsignature, rfl⟩ := Option.map_eq_some_iff.mp hname
    exact Value.nulFree_string.mpr (nulFree_nameOf (h.signature hsignature))
  · refine plainFields_field? (by decide) fun w hw => ?_
    obtain ⟨signature, hsignature, rfl⟩ := Option.map_eq_some_iff.mp hw
    exact Value.nulFree_string.mpr (h.signature hsignature)
  · refine plainFields_field? (by decide) fun w hw => ?_
    obtain ⟨-, heq⟩ := Option.ite_none_right_eq_some.mp hw
    obtain rfl := Option.some.inj heq
    refine Value.nulFree_object.mpr fun f hf => ?_
    obtain ⟨arg, harg, rfl⟩ := List.mem_map.mp hf
    exact ⟨(h.args arg harg).1, Value.nulFree_string.mpr (h.args arg harg).2⟩
  · exact plainFields_field? (by decide) fun w hw => nulFree_callOf hw

/-- Every level is clean. -/
theorem nulFree_of (h : reason.Plain) (data : List UInt8) (calls : List Call) :
    (of data reason calls).NulFree := by
  induction reason generalizing data calls with
  | callFailed index revertData reason ih =>
    have hinner : (of revertData reason []).NulFree := ih h revertData []
    refine Value.nulFree_object.mpr (plainFields_append (plainFields_level h data calls) ?_)
    exact List.forall_mem_singleton.mpr ⟨nulFree_literal (by decide), hinner⟩
  | _ => exact Value.nulFree_object.mpr (plainFields_level h data calls)

end RevertView

/-! ## Failures -/

/-- PostgreSQL takes what a failure is recorded with. -/
def Op.NulFree : Op → Prop
  | .applyFailed code message _ _ data =>
    GumServer.NulFree code ∧ GumServer.NulFree message ∧ data.NulFree
  | .resubmit data => data.NulFree
  | _ => True

/-- However often the deposit was retried, the transition `apply_settlement` ends in can be
recorded. -/
def SettlementOutcome.Recordable (outcome : SettlementOutcome) : Prop :=
  ∀ retries op, settlementOp outcome retries = some op → op.NulFree

section Failures

variable {code message : String} {txHash : Option String} {revertData : Option (List UInt8)}
  {data : Value} {fields : List (String × Value)}

/-- A failure ends in `apply_failed` in the end. -/
theorem recordable_failed_iff :
    (SettlementOutcome.failed code message txHash revertData data).Recordable ↔
      NulFree code ∧ NulFree message ∧ data.NulFree := by
  constructor
  · intro h
    refine h SettlementOutcome.MAX_AUTO_RETRIES (.applyFailed code message txHash revertData data) ?_
    simp [settlementOp]
  · rintro ⟨hcode, hmessage, hdata⟩ retries op hop
    rw [settlementOp] at hop
    split at hop
    · obtain rfl := Option.some.inj hop
      refine Value.nulFree_object.mpr (List.forall_mem_cons.mpr ⟨?_, ?_⟩)
      · exact ⟨nulFree_literal (by decide), Value.nulFree_bool true⟩
      · exact plainFields_append (plainFields_string (by decide) hcode)
          (plainFields_string (by decide) hmessage)
    · obtain rfl := Option.some.inj hop
      exact ⟨hcode, hmessage, hdata⟩

/-- A field that is overwritten does not count. -/
theorem nulFree_set {key : List Char} {v : Value} (hkey : NUL ∉ key) :
    ((Value.object fields).set (String.ofList key) v).NulFree ↔
      PlainFields (fields.filter (·.1 ≠ String.ofList key)) ∧ v.NulFree := by
  rw [Value.set, Value.nulFree_object, List.forall_mem_append, List.forall_mem_singleton]
  exact and_congr_right fun _ => and_iff_right (nulFree_literal hkey)

end Failures

/-! ## What the engine reports -/

/-- The code of a failure, before its prefix. -/
def failureCode (error : Option EngineError) (txHash : Option String) : String :=
  (error.map (·.code)).getD (if txHash.isSome then "execution_reverted" else "failed")

/-- `engine_message`. -/
def engineMessage (error : Option EngineError) (txHash : Option String) : String :=
  ((error.map (·.message)).filter (· ≠ "")).getD
    (if txHash.isSome then "PaymentFactory.execute reverted"
      else "the engine could not execute the transaction")

/-- The fields of a report that `engine_failure` does not write itself. -/
def keptFields (revertData : Option (List UInt8)) (fields : List (String × Value)) :
    List (String × Value) :=
  fields.filter fun f => f.1 ≠ "engine_message" && (f.1 ≠ "revert" || revertData.isNone)

/-- A report of a failure comes without NUL, but for what is read as revert data. -/
structure PlainReport (lib : Crates) (error : Option EngineError)
    (fields : List (String × Value)) : Prop where
  code : ∀ {e}, error = some e → NulFree e.code
  message : ∀ {e}, error = some e → NulFree e.message
  fields : PlainFields (keptFields (error.bind (EngineError.revertBytes lib)) fields)

section Reports

variable {lib : Crates} {r : Readers} {error : Option EngineError} {txHash : Option String}
  {deposit : Deposit} {data : Value} {fields : List (String × Value)}

theorem nulFree_failureCode_iff : NulFree (failureCode error txHash) ↔
    ∀ {e}, error = some e → NulFree e.code := by
  cases error with
  | none =>
    have hdefault : NulFree (failureCode none txHash) := by
      cases txHash <;> exact nulFree_literal (by decide)
    exact iff_of_true hdefault fun h => by cases h
  | some e =>
    constructor
    · rintro h _ ⟨⟩
      exact h
    · exact fun h => h rfl

theorem nulFree_engineMessage_iff : NulFree (engineMessage error txHash) ↔
    ∀ {e}, error = some e → NulFree e.message := by
  have hdefault : NulFree (if txHash.isSome then "PaymentFactory.execute reverted"
      else "the engine could not execute the transaction") := by
    cases txHash <;> exact nulFree_literal (by decide)
  cases error with
  | none => exact iff_of_true hdefault fun h => by cases h
  | some e =>
    by_cases hempty : e.message = ""
    · -- an empty message is replaced, and has no NUL either
      refine iff_of_true ?_ ?_
      · rw [engineMessage, Option.map_some, hempty]
        exact hdefault
      · rintro _ ⟨⟩
        rw [hempty]
        exact nulFree_literal (by decide)
    · have hown : engineMessage (some e) txHash = e.message := by
        simp [engineMessage, Option.filter_some, hempty]
      rw [hown]
      constructor
      · rintro h _ ⟨⟩
        exact h
      · exact fun h => h rfl

/-- A failure without revert data says what the engine says. -/
theorem engineFailure_of_none (h : error.bind (EngineError.revertBytes r.lib) = none) :
    SettlementOutcome.engineFailure r error txHash deposit data =
      .failed ("engine_" ++ failureCode error txHash) (engineMessage error txHash) txHash none
        (data.set "engine_message" (.string (engineMessage error txHash))) := by
  rw [SettlementOutcome.engineFailure]
  cases txHash <;> simp only [h] <;> rfl

/-- One with revert data says what the data says. -/
theorem engineFailure_of_some {bytes : List UInt8}
    (h : error.bind (EngineError.revertBytes r.lib) = some bytes) :
    SettlementOutcome.engineFailure r error txHash deposit data =
      .failed ("engine_" ++ failureCode error txHash)
        (r.revert.describe bytes ((deposit.callsOf r.lib).getD [])) txHash (some bytes)
        ((data.set "engine_message" (.string (engineMessage error txHash))).set "revert"
          (r.revert.view bytes ((deposit.callsOf r.lib).getD []))) := by
  rw [SettlementOutcome.engineFailure]
  cases txHash <;> simp only [h] <;> rfl

theorem keptFields_none : keptFields none fields = fields.filter (·.1 ≠ "engine_message") := by
  simp [keptFields]

theorem keptFields_some {bytes : List UInt8} : keptFields (some bytes) fields =
    (fields.filter (·.1 ≠ "engine_message")).filter (·.1 ≠ "revert") := by
  simp [keptFields, List.filter_filter, Bool.and_comm]

/-- The two fields that are written, one after the other. -/
theorem nulFree_set_set {v w : Value} :
    (((Value.object fields).set "engine_message" v).set "revert" w).NulFree ↔
      (PlainFields ((fields.filter (·.1 ≠ "engine_message")).filter (·.1 ≠ "revert")) ∧ v.NulFree) ∧
        w.NulFree := by
  have hkey : NulFree "engine_message" := nulFree_literal (by decide)
  have hfirst : (Value.object fields).set "engine_message" v =
    .object (fields.filter (·.1 ≠ "engine_message") ++ [("engine_message", v)]) := rfl
  have hkept : [("engine_message", v)].filter (·.1 ≠ "revert") = [("engine_message", v)] := by
    simp
  rw [hfirst, nulFree_set (by decide), List.filter_append, hkept]
  simp only [PlainFields, List.forall_mem_append, List.forall_mem_singleton, hkey, true_and]

end Reports

/-- **A failure can be recorded exactly when the engine's own texts can.** Whatever revert data a
failure comes with, its code, its message and its event are without NUL if and only if the error's
code and message are, and the rest of the report. -/
theorem engineFailure_recordable_iff (lib : Crates) (serde : Deserializers) (abi : RevertAbi)
    (error : Option EngineError) (txHash : Option String) (deposit : Deposit)
    (fields : List (String × Value)) :
    (SettlementOutcome.engineFailure ⟨lib, serde, .ofAbi abi⟩ error txHash deposit
      (.object fields)).Recordable ↔ PlainReport lib error fields := by
  have hengine : NulFree "engine_" := nulFree_literal (by decide)
  cases hbytes : error.bind (EngineError.revertBytes lib) with
  | none =>
    rw [engineFailure_of_none hbytes, recordable_failed_iff, nulFree_append,
      nulFree_failureCode_iff, nulFree_set (by decide), Value.nulFree_string,
      nulFree_engineMessage_iff]
    constructor
    · rintro ⟨⟨-, hcode⟩, hmessage, hfields, -⟩
      exact ⟨hcode, hmessage, by rwa [hbytes, keptFields_none]⟩
    · rintro ⟨hcode, hmessage, hfields⟩
      rw [hbytes, keptFields_none] at hfields
      exact ⟨⟨hengine, hcode⟩, hmessage, hfields, hmessage⟩
  | some bytes =>
    have hplain := Reason.plain_decodeExecute abi bytes
    rw [engineFailure_of_some hbytes, recordable_failed_iff, nulFree_append,
      nulFree_failureCode_iff, nulFree_set_set, Value.nulFree_string, nulFree_engineMessage_iff]
    constructor
    · rintro ⟨⟨-, hcode⟩, -, ⟨hfields, hmessage⟩, -⟩
      exact ⟨hcode, hmessage, by rwa [hbytes, keptFields_some]⟩
    · rintro ⟨hcode, hmessage, hfields⟩
      rw [hbytes, keptFields_some] at hfields
      exact ⟨⟨hengine, hcode⟩, hplain.describe _, ⟨hfields, hmessage⟩,
        RevertView.nulFree_of hplain bytes _⟩

namespace Fixture

theorem noKind_plain {text : String} (h : (none : Option String) = some text) :
    NUL ∉ text.toList := by
  cases h

/-- Decoders that are not needed: there is no revert data below. -/
def abi : RevertAbi where
  paymentError _ := none
  paymentFactoryError _ := none
  revert _ := none
  panic _ := none
  callTargetError _ := none
  transferCall _ := none
  panicKind _ := none
  panicKind_plain := noKind_plain

/-- An error with a NUL in its message. -/
def nulError : EngineError := ⟨"rejected", String.ofList [NUL], none⟩

end Fixture

/-- The engine gives up on a transaction, with a NUL in its message. The failure can not be
recorded. -/
theorem engineFailure_unrecordable :
    ¬ (SettlementOutcome.engineFailure ⟨Crates.reference, Fixture.env.readers.serde,
      .ofAbi Fixture.abi⟩ (some Fixture.nulError) none Fixture.stuck (.object [])).Recordable := by
  rw [engineFailure_of_none rfl, recordable_failed_iff]
  rintro ⟨-, hmessage, -⟩
  have hnul : engineMessage (some Fixture.nulError) none = String.ofList [NUL] := by
    simp [engineMessage, Option.filter_some, Fixture.nulError]
  rw [hnul, nulFree_ofList] at hmessage
  exact hmessage List.mem_cons_self

end GumServer
