import GumServer.Revert
import GumServer.Solidity

/-!
# Errors as bytes

Revert data is a Solidity error in the ABI's encoding: the four bytes of its selector, then its
arguments as a tuple. `decode_execute` tries the interfaces one after the other, so an error is read
as itself only because the ones tried before it reject its selector. With decoders that read back
what is encoded and reject the selectors of others (`RevertAbi.Lawful`), every error is read as the
reason that it is (`decodeExecute_encode`).
-/

namespace GumServer

open Solidity Bytes

/-! ## Encodings -/

namespace PaymentError

/-- The selectors of `IPaymentErrors`. -/
def SELECTORS : List (List UInt8) :=
  [[0xa1, 0x71, 0x24, 0xf8], [0x5c, 0x0d, 0xee, 0x5d], [0x5d, 0xce, 0xe1, 0x9d],
    [0xe5, 0x89, 0x91, 0xf1]]

/-- `SELECTOR`. -/
def selector : PaymentError → List UInt8
  | insufficientTokenBalance _ _ => [0xa1, 0x71, 0x24, 0xf8]
  | callFailed _ _ => [0x5c, 0x0d, 0xee, 0x5d]
  | callTargetHasNoCode _ _ => [0x5d, 0xce, 0xe1, 0x9d]
  | amountNotSpent _ => [0xe5, 0x89, 0x91, 0xf1]

/-- The arguments, as the parts of a tuple. -/
def parts : PaymentError → List Part
  | insufficientTokenBalance balance required => [.word balance.val, .word required.val]
  | callFailed index revertData => [.word index.val, .tail (encodeBytes revertData)]
  | callTargetHasNoCode index target => [.word index.val, .word target.val]
  | amountNotSpent remaining => [.word remaining.val]

end PaymentError

namespace PaymentFactoryError

/-- The selectors of `IPaymentFactoryErrors`. -/
def SELECTORS : List (List UInt8) :=
  [[0xa6, 0xef, 0x0b, 0xa1], [0x30, 0x11, 0x64, 0x25], [0x6c, 0x20, 0xae, 0x80]]

/-- `SELECTOR`. -/
def selector : PaymentFactoryError → List UInt8
  | alreadyDeployed => [0xa6, 0xef, 0x0b, 0xa1]
  | deploymentFailed => [0x30, 0x11, 0x64, 0x25]
  | initCodeTooLarge _ => [0x6c, 0x20, 0xae, 0x80]

/-- The arguments, as the parts of a tuple. -/
def parts : PaymentFactoryError → List Part
  | alreadyDeployed | deploymentFailed => []
  | initCodeTooLarge length => [.word length.val]

end PaymentFactoryError

/-- The selector of `Error(string)`. -/
def REVERT : List UInt8 := [0x08, 0xc3, 0x79, 0xa0]

/-- The selector of `Panic(uint256)`. -/
def PANIC : List UInt8 := [0x4e, 0x48, 0x7b, 0x71]

namespace CallTargetError

/-- The selectors of `ICallTargetErrors`. -/
def SELECTORS : List (List UInt8) :=
  [[0xe4, 0x50, 0xd3, 0x8c], [0x96, 0xc6, 0xfd, 0x1e], [0xec, 0x44, 0x2f, 0x05],
    [0xfb, 0x8f, 0x41, 0xb2], [0xe6, 0x02, 0xdf, 0x05], [0x94, 0x28, 0x0d, 0x62],
    [0xd9, 0x3c, 0x06, 0x65], [0xcf, 0x8e, 0xb5, 0x97], [0xcd, 0x1f, 0xda, 0x9f],
    [0xf4, 0xd6, 0x78, 0xb8], [0x13, 0xbe, 0x25, 0x2b], [0x90, 0xb8, 0xec, 0x18],
    [0x79, 0x39, 0xf4, 0x24], [0x3e, 0x3f, 0x8f, 0x73]]

/-- `SELECTOR`. -/
def selector : CallTargetError → List UInt8
  | erc20InsufficientBalance _ _ _ => [0xe4, 0x50, 0xd3, 0x8c]
  | erc20InvalidSender _ => [0x96, 0xc6, 0xfd, 0x1e]
  | erc20InvalidReceiver _ => [0xec, 0x44, 0x2f, 0x05]
  | erc20InsufficientAllowance _ _ _ => [0xfb, 0x8f, 0x41, 0xb2]
  | erc20InvalidApprover _ => [0xe6, 0x02, 0xdf, 0x05]
  | erc20InvalidSpender _ => [0x94, 0x28, 0x0d, 0x62]
  | enforcedPause => [0xd9, 0x3c, 0x06, 0x65]
  | accountIsFrozen _ => [0xcf, 0x8e, 0xb5, 0x97]
  | transferPaused => [0xcd, 0x1f, 0xda, 0x9f]
  | insufficientBalance => [0xf4, 0xd6, 0x78, 0xb8]
  | insufficientAllowance => [0x13, 0xbe, 0x25, 0x2b]
  | transferFailed => [0x90, 0xb8, 0xec, 0x18]
  | transferFromFailed => [0x79, 0x39, 0xf4, 0x24]
  | approveFailed => [0x3e, 0x3f, 0x8f, 0x73]

/-- The arguments, as the parts of a tuple. -/
def parts : CallTargetError → List Part
  | erc20InsufficientBalance account first second
  | erc20InsufficientAllowance account first second =>
    [.word account.val, .word first.val, .word second.val]
  | erc20InvalidSender account | erc20InvalidReceiver account | erc20InvalidApprover account
  | erc20InvalidSpender account | accountIsFrozen account => [.word account.val]
  | enforcedPause | transferPaused | insufficientBalance | insufficientAllowance | transferFailed
  | transferFromFailed | approveFailed => []

end CallTargetError

/-- An error that revert data can be the encoding of. -/
inductive ExecuteError : Type where
  | payment (error : PaymentError)
  | factory (error : PaymentFactoryError)
  /-- `Error(string)` -/
  | revert (reason : String)
  /-- `Panic(uint256)` -/
  | panic (code : U256)
  | callTarget (error : CallTargetError)

namespace ExecuteError

/-- `SELECTOR`. -/
def selector : ExecuteError → List UInt8
  | payment error => error.selector
  | factory error => error.selector
  | revert _ => REVERT
  | panic _ => PANIC
  | callTarget error => error.selector

/-- The arguments, as the parts of a tuple. -/
def parts : ExecuteError → List Part
  | payment error => error.parts
  | factory error => error.parts
  | revert reason => [.tail (encodeBytes reason.toUTF8.toList)]
  | panic code => [.word code.val]
  | callTarget error => error.parts

/-- `SolError::abi_encode`. -/
def encode (e : ExecuteError) : List UInt8 := e.selector ++ encodeParts e.parts

/-- The reason an error is: with its arguments, the reason of a failed call inside it, and its text
as it is stored. -/
def reason (abi : RevertAbi) : ExecuteError → Reason
  | payment (.insufficientTokenBalance balance required) => .insufficientTokenBalance balance required
  | payment (.callFailed index revertData) =>
    .callFailed index revertData (Reason.decodeCall abi revertData)
  | payment (.callTargetHasNoCode index target) => .callTargetHasNoCode index target
  | payment (.amountNotSpent remaining) => .amountNotSpent remaining
  | factory .alreadyDeployed => .alreadyDeployed
  | factory .deploymentFailed => .deploymentFailed
  | factory (.initCodeTooLarge length) => .initCodeTooLarge length
  | revert reason => .message (sanitize reason)
  | panic code => .panic code
  | callTarget error => error.reason

@[simp] theorem length_selector (e : ExecuteError) : e.selector.length = 4 := by
  cases e with
  | payment error => cases error <;> rfl
  | factory error => cases error <;> rfl
  | revert reason => rfl
  | panic code => rfl
  | callTarget error => cases error <;> rfl

theorem take_encode (e : ExecuteError) : e.encode.take 4 = e.selector := by
  rw [encode, ← e.length_selector, List.take_left]

theorem isEmpty_encode (e : ExecuteError) : e.encode.isEmpty = false := by
  refine List.isEmpty_eq_false_iff.mpr ?_
  intro hnil
  have hlength := congrArg List.length hnil
  simp [encode] at hlength

end ExecuteError

/-! ## Decoders -/

/-- **alloy's decoders**: each reads back what is encoded, if it fits a slice, and rejects the
selectors that are not its own. -/
structure RevertAbi.Lawful (abi : RevertAbi) : Prop where
  paymentError : ∀ e, (ExecuteError.payment e).encode.length < 2 ^ 64 →
    abi.paymentError (ExecuteError.payment e).encode = some e
  paymentFactoryError : ∀ e, (ExecuteError.factory e).encode.length < 2 ^ 64 →
    abi.paymentFactoryError (ExecuteError.factory e).encode = some e
  revert : ∀ reason, (ExecuteError.revert reason).encode.length < 2 ^ 64 →
    abi.revert (ExecuteError.revert reason).encode = some reason
  panic : ∀ code, (ExecuteError.panic code).encode.length < 2 ^ 64 →
    abi.panic (ExecuteError.panic code).encode = some code
  callTargetError : ∀ e, (ExecuteError.callTarget e).encode.length < 2 ^ 64 →
    abi.callTargetError (ExecuteError.callTarget e).encode = some e
  paymentError_rejects : ∀ data, data.take 4 ∉ PaymentError.SELECTORS →
    abi.paymentError data = none
  paymentFactoryError_rejects : ∀ data, data.take 4 ∉ PaymentFactoryError.SELECTORS →
    abi.paymentFactoryError data = none
  revert_rejects : ∀ data, data.take 4 ≠ REVERT → abi.revert data = none
  panic_rejects : ∀ data, data.take 4 ≠ PANIC → abi.panic data = none
  callTargetError_rejects : ∀ data, data.take 4 ∉ CallTargetError.SELECTORS →
    abi.callTargetError data = none

section Decode

variable {abi : RevertAbi}

/-- **Every error is read as the reason it is**: no interface that is tried before its own has its
selector. -/
theorem decodeExecute_encode (habi : abi.Lawful) (e : ExecuteError)
    (hsize : e.encode.length < 2 ^ 64) : Reason.decodeExecute abi e.encode = e.reason abi := by
  have hcall (hpayment : e.selector ∉ PaymentError.SELECTORS)
      (hfactory : e.selector ∉ PaymentFactoryError.SELECTORS) :
      Reason.decodeExecute abi e.encode = Reason.decodeCall abi e.encode := by
    rw [Reason.decodeExecute, habi.paymentError_rejects _ (by rw [e.take_encode]; exact hpayment),
      habi.paymentFactoryError_rejects _ (by rw [e.take_encode]; exact hfactory)]
  cases e with
  | payment error =>
    rw [Reason.decodeExecute, habi.paymentError error hsize]
    cases error <;> rfl
  | factory error =>
    have hpayment : abi.paymentError (ExecuteError.factory error).encode = none := by
      apply habi.paymentError_rejects
      rw [ExecuteError.take_encode]
      cases error <;> simp [ExecuteError.selector, PaymentFactoryError.selector,
        PaymentError.SELECTORS]
    rw [Reason.decodeExecute, hpayment, habi.paymentFactoryError error hsize]
    cases error <;> rfl
  | revert reason =>
    rw [hcall, Reason.decodeCall, ExecuteError.isEmpty_encode, habi.revert reason hsize]
    · rfl
    · simp [ExecuteError.selector, REVERT, PaymentError.SELECTORS]
    · simp [ExecuteError.selector, REVERT, PaymentFactoryError.SELECTORS]
  | panic code =>
    have hrevert : abi.revert (ExecuteError.panic code).encode = none := by
      apply habi.revert_rejects
      rw [ExecuteError.take_encode]
      simp [ExecuteError.selector, PANIC, REVERT]
    rw [hcall, Reason.decodeCall, ExecuteError.isEmpty_encode, hrevert, habi.panic code hsize]
    · rfl
    · simp [ExecuteError.selector, PANIC, PaymentError.SELECTORS]
    · simp [ExecuteError.selector, PANIC, PaymentFactoryError.SELECTORS]
  | callTarget error =>
    have hrevert : abi.revert (ExecuteError.callTarget error).encode = none := by
      apply habi.revert_rejects
      rw [ExecuteError.take_encode]
      cases error <;> simp [ExecuteError.selector, CallTargetError.selector, REVERT]
    have hpanic : abi.panic (ExecuteError.callTarget error).encode = none := by
      apply habi.panic_rejects
      rw [ExecuteError.take_encode]
      cases error <;> simp [ExecuteError.selector, CallTargetError.selector, PANIC]
    rw [hcall, Reason.decodeCall, ExecuteError.isEmpty_encode, hrevert, hpanic,
      habi.callTargetError error hsize]
    · rfl
    · cases error <;> simp [ExecuteError.selector, CallTargetError.selector, PaymentError.SELECTORS]
    · cases error <;> simp [ExecuteError.selector, CallTargetError.selector,
        PaymentFactoryError.SELECTORS]

end Decode

/-! ## Views -/

section Views

variable {data : List UInt8} {reason : Reason} {calls : List Call}

theorem lookup_field? {key name : String} {v : Option Value} {rest : List (String × Value)} :
    (Value.field? name v ++ rest).lookup key =
      if key = name then v.or (rest.lookup key) else rest.lookup key := by
  cases v with
  | none => simp [Value.field?]
  | some v =>
    rw [Value.field?, Option.map_some, Option.toList_some, List.singleton_append, List.lookup_cons]
    by_cases h : key = name
    · simp [h]
    · simp [h, beq_false_of_ne h]

/-- A level has its bytes in hex. -/
theorem RevertView.get_data : (RevertView.of data reason calls).get "data" =
    some (.string (lowerHex data)) := by
  cases reason <;> rfl

/-- And the settlement call it is about, if there is one. -/
theorem RevertView.get_call : (RevertView.of data reason calls).get "call" =
    RevertView.callOf reason calls := by
  have hlookup (rest : List (String × Value)) (hrest : rest.lookup "call" = none) :
      (RevertView.level data reason calls ++ rest).lookup "call" =
        RevertView.callOf reason calls := by
    simp [RevertView.level, List.lookup_cons, lookup_field?, hrest]
  have hnil := hlookup [] rfl
  rw [List.append_nil] at hnil
  cases reason with
  | callFailed index revertData inner => exact hlookup _ (by simp [List.lookup_cons])
  | _ => exact hnil

/-- Inside a failed call's level is the level of the call's own revert. -/
theorem RevertView.get_reason {index : U256} {revertData : List UInt8} :
    (RevertView.of data (.callFailed index revertData reason) calls).get "reason" =
      some (RevertView.of revertData reason []) := by
  simp [RevertView.of, Value.get, RevertView.level, List.lookup_cons, lookup_field?]

end Views

/-! ## Reference decoders -/

section Reference

variable {β : Type} {pre post : List Part}

/-- The byte string behind a word. -/
def bytesAt (args : List UInt8) (k : ℕ) : Option (List UInt8) := (tailAt args k).bind decodeBytes

theorem bytesAt_encodeParts {bs : List UInt8}
    (hsize : (encodeParts (pre ++ .tail (encodeBytes bs) :: post)).length < 2 ^ 256) :
    bytesAt (encodeParts (pre ++ .tail (encodeBytes bs) :: post)) pre.length = some bs := by
  have htail := @tailAt_encodeParts pre post [] (encodeBytes bs) hsize
  have hlength : bs.length < 2 ^ 256 := by
    simp only [length_encodeParts, tails_append, tails, List.length_append, length_encodeBytes]
      at hsize
    omega
  rw [List.append_nil] at htail
  rw [bytesAt, htail, Option.bind_some, decodeBytes_encodeBytes hlength]

/-- Read the arguments as the selector says. -/
def decodeWith (table : List (List UInt8 × (List UInt8 → Option β))) (data : List UInt8) :
    Option β :=
  (table.lookup (data.take 4)).bind fun read => read (data.drop 4)

theorem decodeWith_encode {table : List (List UInt8 × (List UInt8 → Option β))} (e : ExecuteError) :
    decodeWith table e.encode = (table.lookup e.selector).bind fun read => read (encodeParts e.parts) := by
  rw [decodeWith, e.take_encode, ExecuteError.encode, ← e.length_selector, List.drop_left]

theorem decodeWith_rejects {table : List (List UInt8 × (List UInt8 → Option β))} {data : List UInt8}
    (h : data.take 4 ∉ table.map Prod.fst) : decodeWith table data = none := by
  have hnone : table.lookup (data.take 4) = none := by
    rw [List.lookup_eq_none_iff]
    intro p hp
    exact bne_iff_ne.mpr fun heq => h (List.mem_map.mpr ⟨p, hp, heq.symm⟩)
  rw [decodeWith, hnone, Option.bind_none]

end Reference

/-- Decoders that read the errors in the order of their arguments. -/
def RevertAbi.reference : RevertAbi where
  paymentError := decodeWith [
    ([0xa1, 0x71, 0x24, 0xf8], fun args => (finAt _ args 0).bind fun balance =>
      (finAt _ args 1).map (.insufficientTokenBalance balance)),
    ([0x5c, 0x0d, 0xee, 0x5d], fun args => (finAt _ args 0).bind fun index =>
      (bytesAt args 1).map (.callFailed index)),
    ([0x5d, 0xce, 0xe1, 0x9d], fun args => (finAt _ args 0).bind fun index =>
      (finAt _ args 1).map (.callTargetHasNoCode index)),
    ([0xe5, 0x89, 0x91, 0xf1], fun args => (finAt _ args 0).map .amountNotSpent)]
  paymentFactoryError := decodeWith [
    ([0xa6, 0xef, 0x0b, 0xa1], fun _ => some .alreadyDeployed),
    ([0x30, 0x11, 0x64, 0x25], fun _ => some .deploymentFailed),
    ([0x6c, 0x20, 0xae, 0x80], fun args => (finAt _ args 0).map .initCodeTooLarge)]
  revert := decodeWith [(REVERT, fun args =>
    (bytesAt args 0).bind fun bs => String.fromUTF8? bs.toByteArray)]
  panic := decodeWith [(PANIC, fun args => finAt _ args 0)]
  callTargetError := decodeWith [
    ([0xe4, 0x50, 0xd3, 0x8c], fun args => (finAt _ args 0).bind fun sender =>
      (finAt _ args 1).bind fun balance =>
        (finAt _ args 2).map (.erc20InsufficientBalance sender balance)),
    ([0x96, 0xc6, 0xfd, 0x1e], fun args => (finAt _ args 0).map .erc20InvalidSender),
    ([0xec, 0x44, 0x2f, 0x05], fun args => (finAt _ args 0).map .erc20InvalidReceiver),
    ([0xfb, 0x8f, 0x41, 0xb2], fun args => (finAt _ args 0).bind fun spender =>
      (finAt _ args 1).bind fun allowance =>
        (finAt _ args 2).map (.erc20InsufficientAllowance spender allowance)),
    ([0xe6, 0x02, 0xdf, 0x05], fun args => (finAt _ args 0).map .erc20InvalidApprover),
    ([0x94, 0x28, 0x0d, 0x62], fun args => (finAt _ args 0).map .erc20InvalidSpender),
    ([0xd9, 0x3c, 0x06, 0x65], fun _ => some .enforcedPause),
    ([0xcf, 0x8e, 0xb5, 0x97], fun args => (finAt _ args 0).map .accountIsFrozen),
    ([0xcd, 0x1f, 0xda, 0x9f], fun _ => some .transferPaused),
    ([0xf4, 0xd6, 0x78, 0xb8], fun _ => some .insufficientBalance),
    ([0x13, 0xbe, 0x25, 0x2b], fun _ => some .insufficientAllowance),
    ([0x90, 0xb8, 0xec, 0x18], fun _ => some .transferFailed),
    ([0x79, 0x39, 0xf4, 0x24], fun _ => some .transferFromFailed),
    ([0x3e, 0x3f, 0x8f, 0x73], fun _ => some .approveFailed)]
  transferCall := decodeWith [(TRANSFER, fun args => (finAt _ args 0).bind fun recipient =>
    (finAt _ args 1).map (recipient, ·))]
  panicKind _ := none
  panicKind_plain h := by cases h

section Laws

variable {w : ℕ} {p q : Part} {post : List Part} {n : Fin (2 ^ w)}

theorem finAt_first (hw : w ≤ 256) : finAt w (encodeParts (.word n.val :: post)) 0 = some n :=
  finAt_encodeParts [] post n hw

theorem finAt_second (hw : w ≤ 256) : finAt w (encodeParts (p :: .word n.val :: post)) 1 = some n :=
  finAt_encodeParts [p] post n hw

theorem finAt_third (hw : w ≤ 256) :
    finAt w (encodeParts (p :: q :: .word n.val :: post)) 2 = some n :=
  finAt_encodeParts [p, q] post n hw

/-- The byte string of an error that fits a slice is read back. -/
theorem ExecuteError.bytesAt_parts {e : ExecuteError} (pre : List Part) {bs : List UInt8}
    (hsize : e.encode.length < 2 ^ 64) (hparts : e.parts = pre ++ [.tail (encodeBytes bs)]) :
    bytesAt (encodeParts e.parts) pre.length = some bs := by
  rw [ExecuteError.encode, List.length_append] at hsize
  have hlength : (encodeParts e.parts).length < 2 ^ 256 :=
    Nat.lt_of_le_of_lt (Nat.le_add_left _ _) (hsize.trans (by decide))
  rw [hparts] at hlength ⊢
  exact bytesAt_encodeParts hlength

theorem RevertAbi.reference_paymentError (e : PaymentError)
    (hsize : (ExecuteError.payment e).encode.length < 2 ^ 64) :
    RevertAbi.reference.paymentError (ExecuteError.payment e).encode = some e := by
  refine (decodeWith_encode _).trans ?_
  cases e with
  | callFailed index revertData =>
    have hbytes := ExecuteError.bytesAt_parts [.word index.val] hsize rfl
    rw [ExecuteError.parts, PaymentError.parts, List.length_singleton] at hbytes
    simp [ExecuteError.selector, PaymentError.selector, ExecuteError.parts, PaymentError.parts,
      List.lookup_cons, finAt_first, hbytes]
  | _ => simp [ExecuteError.selector, PaymentError.selector, ExecuteError.parts,
      PaymentError.parts, List.lookup_cons, finAt_first, finAt_second]

theorem RevertAbi.reference_paymentFactoryError (e : PaymentFactoryError) :
    RevertAbi.reference.paymentFactoryError (ExecuteError.factory e).encode = some e := by
  refine (decodeWith_encode _).trans ?_
  cases e <;> simp [ExecuteError.selector, PaymentFactoryError.selector, ExecuteError.parts,
    PaymentFactoryError.parts, List.lookup_cons, finAt_first]

theorem RevertAbi.reference_revert (reason : String)
    (hsize : (ExecuteError.revert reason).encode.length < 2 ^ 64) :
    RevertAbi.reference.revert (ExecuteError.revert reason).encode = some reason := by
  have hbytes := ExecuteError.bytesAt_parts [] hsize rfl
  rw [List.length_nil] at hbytes
  rw [RevertAbi.reference]
  dsimp only
  rw [decodeWith_encode, ExecuteError.selector, List.lookup_cons_self, Option.bind_some]
  dsimp only
  rw [hbytes]
  exact fromUTF8?_toUTF8_toList reason

theorem RevertAbi.reference_panic (code : U256) :
    RevertAbi.reference.panic (ExecuteError.panic code).encode = some code := by
  rw [RevertAbi.reference]
  dsimp only
  rw [decodeWith_encode, ExecuteError.selector, List.lookup_cons_self, Option.bind_some]
  exact finAt_first (le_refl 256)

theorem RevertAbi.reference_callTargetError (e : CallTargetError) :
    RevertAbi.reference.callTargetError (ExecuteError.callTarget e).encode = some e := by
  refine (decodeWith_encode _).trans ?_
  cases e <;> simp [ExecuteError.selector, CallTargetError.selector, ExecuteError.parts,
    CallTargetError.parts, List.lookup_cons, finAt_first, finAt_second, finAt_third]

/-- **They are lawful.** -/
theorem RevertAbi.reference_lawful : RevertAbi.reference.Lawful where
  paymentError := RevertAbi.reference_paymentError
  paymentFactoryError e _ := RevertAbi.reference_paymentFactoryError e
  revert := RevertAbi.reference_revert
  panic code _ := RevertAbi.reference_panic code
  callTargetError e _ := RevertAbi.reference_callTargetError e
  paymentError_rejects _ h := decodeWith_rejects h
  paymentFactoryError_rejects _ h := decodeWith_rejects h
  revert_rejects _ h := decodeWith_rejects fun hmem => h (List.mem_singleton.mp hmem)
  panic_rejects _ h := decodeWith_rejects fun hmem => h (List.mem_singleton.mp hmem)
  callTargetError_rejects _ h := decodeWith_rejects h

end Laws

end GumServer
