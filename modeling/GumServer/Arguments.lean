import GumServer.Reader

/-!
# The multicalls' arguments

`Arguments.decode` is Solidity's reading of the four multicall signatures, by offsets alone, and
`readArguments` the source's, with its bounds. `Arguments.calldata` is what a caller with these
arguments sends. The two readings agree wherever the source's gives anything, and within the
bounds that is on every canonical encoding.
-/

namespace GumServer

open Bytes Solidity

/-! ## The four signatures -/

/-- The arguments of a multicall: what is pulled first, where the entrypoint is the approval
proxy's, and the metadata, where the version carries it. -/
structure Arguments where
  pulls : Option Pulls
  multicall : Multicall
  metadata : Option (List UInt8)
deriving DecidableEq

namespace Arguments

/-- The selector of the signature with these arguments. -/
def selector (a : Arguments) : List UInt8 :=
  match a.pulls, a.metadata with
  | none, some _ => MULTICALL
  | none, none => MULTICALL_V2
  | some _, some _ => TRANSFER_AND_MULTICALL
  | some _, none => TRANSFER_AND_MULTICALL_V2

/-- The arrays of tokens and amounts. -/
def pullParts : Option Pulls → List Part
  | none => []
  | some p => [.tail (encodeList (fun t : Address => .word t.val) p.tokens),
      .tail (encodeList (fun n : U256 => .word n.val) p.amounts)]

/-- The metadata. -/
def metadataParts : Option (List UInt8) → List Part
  | none => []
  | some bs => [.tail (encodeBytes bs)]

/-- The arguments, as the parts of a tuple. -/
def parts (a : Arguments) : List Part :=
  pullParts a.pulls ++ .tail (encodeList (fun c => .tail (NestedCall.encode c)) a.multicall.calls) ::
    .word a.multicall.refundTo.val :: .word a.multicall.nftRecipient.val :: metadataParts a.metadata

/-- The canonical encoding of a call with these arguments. -/
def calldata (a : Arguments) : List UInt8 := a.selector ++ encodeParts a.parts

/-- Read the arguments a multicall has, from the `k`-th word on, by following the offsets. -/
def decodeFrom (pulls : Option Pulls) (withMetadata : Bool) (block : List UInt8) (k : ℕ) :
    Option Arguments := do
  let calls ← listAt NestedCall.at? block k
  let refundTo ← finAt 160 block (k + 1)
  let nftRecipient ← finAt 160 block (k + 2)
  if withMetadata then
    let metadata ← bytesAt block (k + 3)
    some { pulls, multicall := { calls, refundTo, nftRecipient }, metadata := some metadata }
  else some { pulls, multicall := { calls, refundTo, nftRecipient }, metadata := none }

/-- What a contract with these signatures reads. -/
def decode (calldata : List UInt8) : Option Arguments := do
  let (selector, args) ← splitAtChecked calldata 4
  match ← Entrypoint.ofSelector selector with
  | .multicall withMetadata => decodeFrom none withMetadata args 0
  | .transferAndMulticall withMetadata => do
    let tokens ← listAt (finAt 160) args 0
    let amounts ← listAt (finAt 256) args 1
    decodeFrom (some { tokens, amounts }) withMetadata args 2
  | _ => none

/-- The bounds of the source's reader. -/
structure Within (a : Arguments) : Prop where
  tokens : ∀ p ∈ a.pulls, p.tokens.length ≤ MAX_ABI_ITEMS
  amounts : ∀ p ∈ a.pulls, p.amounts.length ≤ MAX_ABI_ITEMS
  calls : a.multicall.calls.length ≤ MAX_ABI_ITEMS
  data : ∀ c ∈ a.multicall.calls, c.data.length ≤ MAX_ABI_BYTES
  metadata : ∀ bs ∈ a.metadata, bs.length ≤ MAX_ABI_BYTES

/-- What the checks keep of the arguments: the metadata is read and dropped. -/
def entry (a : Arguments) : Entry :=
  match a.pulls with
  | none => .multicall a.multicall
  | some p => .transferAndMulticall p a.multicall

end Arguments

/-- Read the arguments a multicall has, in the order of the checks, and keep the metadata. -/
def readFrom (pulls : Option Pulls) (withMetadata : Bool) (r : Abi) : Option Arguments := do
  let (calls, r) ← r.nestedCalls
  let (refundTo, r) ← r.address
  let (nftRecipient, r) ← r.address
  if withMetadata then
    let (metadata, _) ← r.bytesArg
    some { pulls, multicall := { calls, refundTo, nftRecipient }, metadata := some metadata }
  else some { pulls, multicall := { calls, refundTo, nftRecipient }, metadata := none }

/-- What the source's reader makes of a multicall's bytes. -/
def readArguments (calldata : List UInt8) : Option Arguments := do
  let (selector, args) ← splitAtChecked calldata 4
  match ← Entrypoint.ofSelector selector with
  | .multicall withMetadata => readFrom none withMetadata (Abi.new args)
  | .transferAndMulticall withMetadata => do
    let (pulls, r) ← readPulls (Abi.new args)
    readFrom (some pulls) withMetadata r
  | _ => none

/-! ### The checks read these arguments -/

/-- The checks read the same, without the metadata. -/
theorem readMulticall_eq (pulls : Option Pulls) (withMetadata : Bool) (r : Abi) :
    readMulticall withMetadata r =
      (readFrom pulls withMetadata r).map Arguments.multicall := by
  rw [readMulticall, readFrom]
  simp only [Option.bind_eq_bind, Option.map_bind, Function.comp_def]
  cases withMetadata with
  | false => rfl
  | true => simp only [if_pos, Option.map_bind, Function.comp_def, Option.map_some]

theorem readFrom_pulls {pulls : Option Pulls} {withMetadata : Bool} {r : Abi} {a : Arguments}
    (h : readFrom pulls withMetadata r = some a) : a.pulls = pulls := by
  obtain ⟨⟨calls, r₁⟩, -, h⟩ := Option.bind_eq_some_iff.mp h
  obtain ⟨⟨refundTo, r₂⟩, -, h⟩ := Option.bind_eq_some_iff.mp h
  obtain ⟨⟨nftRecipient, r₃⟩, -, h⟩ := Option.bind_eq_some_iff.mp h
  cases withMetadata with
  | false =>
    obtain rfl := Option.some.inj h
    rfl
  | true =>
    obtain ⟨⟨metadata, r₄⟩, -, h⟩ := Option.bind_eq_some_iff.mp h
    obtain rfl := Option.some.inj h
    rfl

theorem decodeFrom_pulls {pulls : Option Pulls} {withMetadata : Bool} {block : List UInt8} {k : ℕ}
    {a : Arguments} (h : Arguments.decodeFrom pulls withMetadata block k = some a) :
    a.pulls = pulls := by
  obtain ⟨calls, -, h⟩ := Option.bind_eq_some_iff.mp h
  obtain ⟨refundTo, -, h⟩ := Option.bind_eq_some_iff.mp h
  obtain ⟨nftRecipient, -, h⟩ := Option.bind_eq_some_iff.mp h
  cases withMetadata with
  | false =>
    obtain rfl := Option.some.inj h
    rfl
  | true =>
    obtain ⟨metadata, -, h⟩ := Option.bind_eq_some_iff.mp h
    obtain rfl := Option.some.inj h
    rfl

/-- Where the reader gives arguments, the checks were handed these. -/
theorem readEntry_of_readArguments {calldata : List UInt8} {a : Arguments}
    (h : readArguments calldata = some a) : readEntry calldata = some a.entry := by
  obtain ⟨⟨selector, args⟩, hsplit, h⟩ := Option.bind_eq_some_iff.mp h
  obtain ⟨entrypoint, hentry, h⟩ := Option.bind_eq_some_iff.mp h
  rw [readEntry, hsplit, Option.bind_eq_bind, Option.bind_some]
  dsimp only
  rw [hentry, Option.bind_eq_bind, Option.bind_some]
  cases entrypoint with
  | multicall withMetadata =>
    have hpulls := readFrom_pulls h
    dsimp only at h ⊢
    rw [readMulticall_eq none, h, Option.map_some, Option.map_some, Arguments.entry, hpulls]
  | transferAndMulticall withMetadata =>
    obtain ⟨⟨pulls, r⟩, hread, h⟩ := Option.bind_eq_some_iff.mp h
    have hpulls := readFrom_pulls h
    dsimp only at h ⊢
    rw [hread, Option.bind_eq_bind, Option.bind_some]
    dsimp only
    rw [readMulticall_eq (some pulls), h, Option.map_some, Option.map_some, Arguments.entry,
      hpulls]
  | depositErc20 | depositErc20All | depositNative | forward => cases h

/-- And what the checks are handed for a multicall, the reader gave. -/
theorem readArguments_of_readEntry {calldata : List UInt8} {e : Entry}
    (h : readEntry calldata = some e)
    (hmulticall : (∃ m, e = .multicall m) ∨ ∃ p m, e = .transferAndMulticall p m) :
    ∃ a, readArguments calldata = some a ∧ a.entry = e := by
  obtain ⟨⟨selector, args⟩, hsplit, h⟩ := Option.bind_eq_some_iff.mp h
  obtain ⟨entrypoint, hentry, h⟩ := Option.bind_eq_some_iff.mp h
  suffices hread : ∃ a, readArguments calldata = some a by
    obtain ⟨a, ha⟩ := hread
    refine ⟨a, ha, ?_⟩
    have hsame := readEntry_of_readArguments ha
    rw [readEntry, hsplit, Option.bind_eq_bind, Option.bind_some] at hsame
    dsimp only at hsame
    rw [hentry] at hsame
    exact Option.some.inj (hsame.symm.trans h)
  rw [readArguments, hsplit, Option.bind_eq_bind, Option.bind_some]
  dsimp only
  rw [hentry, Option.bind_eq_bind, Option.bind_some]
  cases entrypoint with
  | multicall withMetadata =>
    obtain ⟨m, hm, -⟩ := Option.map_eq_some_iff.mp h
    rw [readMulticall_eq none] at hm
    obtain ⟨a, ha, -⟩ := Option.map_eq_some_iff.mp hm
    exact ⟨a, ha⟩
  | transferAndMulticall withMetadata =>
    obtain ⟨⟨pulls, r⟩, hread, h⟩ := Option.bind_eq_some_iff.mp h
    obtain ⟨m, hm, -⟩ := Option.map_eq_some_iff.mp h
    rw [readMulticall_eq (some pulls)] at hm
    obtain ⟨a, ha, -⟩ := Option.map_eq_some_iff.mp hm
    exact ⟨a, by dsimp only; rw [hread]; exact ha⟩
  | depositErc20 =>
    obtain ⟨_, -, rfl⟩ := Option.map_eq_some_iff.mp h
    simp at hmulticall
  | depositErc20All =>
    obtain rfl := Option.some.inj h
    simp at hmulticall
  | depositNative =>
    obtain ⟨_, -, rfl⟩ := Option.map_eq_some_iff.mp h
    simp at hmulticall
  | forward =>
    obtain ⟨_, -, rfl⟩ := Option.map_eq_some_iff.mp h
    simp at hmulticall

/-! ### The reader follows the decoder -/

section Whole

variable {pulls : Option Pulls} {withMetadata : Bool} {bytes calldata : List UInt8} {base k : ℕ}
  {a : Arguments}

theorem readFrom_sound
    (h : readFrom pulls withMetadata (Abi.atWord bytes base k) = some a) :
    Arguments.decodeFrom pulls withMetadata (bytes.drop base) k = some a := by
  obtain ⟨⟨calls, _⟩, hread, h⟩ := Option.bind_eq_some_iff.mp h
  obtain ⟨hcalls, -, rfl⟩ := follows_nestedCall.list.sound hread
  obtain ⟨⟨refundTo, _⟩, hread, h⟩ := Option.bind_eq_some_iff.mp h
  obtain ⟨hrefund, -, rfl⟩ := follows_address.sound hread
  obtain ⟨⟨nftRecipient, _⟩, hread, h⟩ := Option.bind_eq_some_iff.mp h
  obtain ⟨hnft, -, rfl⟩ := follows_address.sound hread
  rw [Arguments.decodeFrom, hcalls, hrefund, hnft]
  cases withMetadata with
  | false => exact h
  | true =>
    obtain ⟨⟨metadata, _⟩, hread, h⟩ := Option.bind_eq_some_iff.mp h
    obtain ⟨hmetadata, -, rfl⟩ := follows_bytes.sound hread
    simp only [Option.bind_eq_bind, Option.bind_some, if_pos, hmetadata]
    exact h

theorem readFrom_complete (hshort : bytes.length ≤ MAX_ABI_OFFSET) (hwithin : a.Within)
    (h : Arguments.decodeFrom pulls withMetadata (bytes.drop base) k = some a) :
    readFrom pulls withMetadata (Abi.atWord bytes base k) = some a := by
  obtain ⟨calls, hcalls, h⟩ := Option.bind_eq_some_iff.mp h
  obtain ⟨refundTo, hrefund, h⟩ := Option.bind_eq_some_iff.mp h
  obtain ⟨nftRecipient, hnft, h⟩ := Option.bind_eq_some_iff.mp h
  have hread : a.multicall.calls = calls →
      (Abi.atWord bytes base k).nestedCalls = some (calls, Abi.atWord bytes base (k + 1)) := by
    rintro rfl
    exact follows_nestedCall.list.complete hshort hcalls ⟨hwithin.calls, hwithin.data⟩
  cases withMetadata with
  | false =>
    obtain rfl := Option.some.inj h
    simp only [readFrom, hread rfl, follows_address.complete hshort hrefund trivial,
      follows_address.complete hshort hnft trivial, Option.bind_eq_bind, Option.bind_some]
    rfl
  | true =>
    obtain ⟨metadata, hmetadata, h⟩ := Option.bind_eq_some_iff.mp h
    obtain rfl := Option.some.inj h
    simp only [readFrom, hread rfl, follows_address.complete hshort hrefund trivial,
      follows_address.complete hshort hnft trivial, if_pos,
      follows_bytes.complete hshort hmetadata (hwithin.metadata _ rfl), Option.bind_eq_bind,
      Option.bind_some]

/-- **What is read is what Solidity reads**, however the offsets alias or overlap. -/
theorem readArguments_sound (h : readArguments calldata = some a) :
    Arguments.decode calldata = some a := by
  obtain ⟨⟨selector, args⟩, hsplit, h⟩ := Option.bind_eq_some_iff.mp h
  obtain ⟨entrypoint, hentry, h⟩ := Option.bind_eq_some_iff.mp h
  rw [Arguments.decode, hsplit, Option.bind_eq_bind, Option.bind_some]
  dsimp only
  rw [hentry, Option.bind_eq_bind, Option.bind_some]
  cases entrypoint with
  | multicall withMetadata =>
    rw [Abi.new_eq] at h
    have hrest := readFrom_sound h
    exact hrest
  | transferAndMulticall withMetadata =>
    obtain ⟨⟨pulls, r⟩, hpulls, h⟩ := Option.bind_eq_some_iff.mp h
    obtain ⟨⟨tokens, _⟩, hread, hpulls⟩ := Option.bind_eq_some_iff.mp hpulls
    rw [Abi.new_eq] at hread
    obtain ⟨htokens, -, rfl⟩ := follows_address.list.sound hread
    obtain ⟨⟨amounts, _⟩, hread, hpulls⟩ := Option.bind_eq_some_iff.mp hpulls
    obtain ⟨hamounts, -, rfl⟩ := follows_uint.list.sound hread
    obtain ⟨rfl, rfl⟩ := Prod.mk.inj (Option.some.inj hpulls)
    have hrest := readFrom_sound h
    rw [List.drop_zero] at htokens hamounts hrest
    dsimp only
    rw [htokens, hamounts]
    exact hrest
  | depositErc20 | depositErc20All | depositNative | forward => cases h

/-- In bytes short enough, what Solidity reads within the bounds is read. -/
theorem readArguments_complete (hshort : calldata.length ≤ MAX_ABI_OFFSET) (hwithin : a.Within)
    (h : Arguments.decode calldata = some a) : readArguments calldata = some a := by
  obtain ⟨⟨selector, args⟩, hsplit, h⟩ := Option.bind_eq_some_iff.mp h
  obtain ⟨entrypoint, hentry, h⟩ := Option.bind_eq_some_iff.mp h
  have hargs : args.length ≤ MAX_ABI_OFFSET := by
    obtain ⟨rfl, -⟩ := splitAtChecked_eq_some.mp hsplit
    rw [List.length_append] at hshort
    omega
  rw [readArguments, hsplit, Option.bind_eq_bind, Option.bind_some]
  dsimp only
  rw [hentry, Option.bind_eq_bind, Option.bind_some]
  cases entrypoint with
  | multicall withMetadata =>
    dsimp only at h ⊢
    rw [← @List.drop_zero _ args] at h
    rw [Abi.new_eq]
    exact readFrom_complete hargs hwithin h
  | transferAndMulticall withMetadata =>
    obtain ⟨tokens, htokens, h⟩ := Option.bind_eq_some_iff.mp h
    obtain ⟨amounts, hamounts, h⟩ := Option.bind_eq_some_iff.mp h
    have hpulls : a.pulls = some ⟨tokens, amounts⟩ := decodeFrom_pulls h
    rw [← @List.drop_zero _ args] at htokens hamounts h
    have hfirst := follows_address.list.complete hargs htokens
      ⟨hwithin.tokens _ hpulls, fun _ _ => trivial⟩
    have hsecond := follows_uint.list.complete hargs hamounts
      ⟨hwithin.amounts _ hpulls, fun _ _ => trivial⟩
    have hread : readPulls (Abi.new args) = some (⟨tokens, amounts⟩, Abi.atWord args 0 2) := by
      rw [readPulls, Abi.new_eq, hfirst, Option.bind_eq_bind, Option.bind_some]
      dsimp only
      rw [hsecond]
      rfl
    dsimp only
    rw [hread, Option.bind_eq_bind, Option.bind_some]
    exact readFrom_complete hargs hwithin h
  | depositErc20 | depositErc20All | depositNative | forward => cases h

end Whole

/-! ### The canonical encoding decodes -/

theorem reads_word {w : ℕ} (hw : w ≤ 256) : Reads (fun n : Fin (2 ^ w) => .word n.val) (finAt w) :=
  fun _ _ n _ _ => finAt_of_word
    (wordAt_encodeParts (n.isLt.trans_le (Nat.pow_le_pow_right (by decide) hw)))

namespace Arguments

/-- The arguments every multicall has, wherever in the tuple they start. -/
theorem decodeFrom_encodeParts {ps pre : List Part} {calls : List NestedCall}
    {refundTo nftRecipient : Address} {metadata : Option (List UInt8)} (pulls : Option Pulls)
    (hps : ps = pre ++ .tail (encodeList (fun c => .tail (NestedCall.encode c)) calls) ::
      .word refundTo.val :: .word nftRecipient.val :: metadataParts metadata)
    (hsize : (encodeParts ps).length < 2 ^ 256) :
    decodeFrom pulls metadata.isSome (encodeParts ps) pre.length =
      some ⟨pulls, ⟨calls, refundTo, nftRecipient⟩, metadata⟩ := by
  have hcalls := reads_nestedCall.list.part_at hps rfl hsize
  rw [List.append_cons] at hps
  have hrefund : finAt 160 (encodeParts ps) (pre.length + 1) = some refundTo :=
    (reads_word (by decide)).part_at hps (by simp) hsize
  rw [List.append_cons] at hps
  have hnft : finAt 160 (encodeParts ps) (pre.length + 2) = some nftRecipient :=
    (reads_word (by decide)).part_at hps (by simp) hsize
  rw [List.append_cons] at hps
  rw [decodeFrom, hcalls, hrefund, hnft]
  cases metadata with
  | none => rfl
  | some bs =>
    have hmetadata : bytesAt (encodeParts ps) (pre.length + 3) = some bs :=
      reads_bytes.part_at hps (by simp) hsize
    simp only [Option.isSome_some, if_pos, hmetadata, Option.bind_eq_bind, Option.bind_some]

theorem splitAt_calldata (a : Arguments) :
    splitAtChecked a.calldata 4 = some (a.selector, encodeParts a.parts) := by
  refine splitAtChecked_eq_some.mpr ⟨rfl, ?_⟩
  rw [selector]
  split <;> rfl

theorem ofSelector_selector (a : Arguments) : Entrypoint.ofSelector a.selector =
    some (if a.pulls.isSome then .transferAndMulticall a.metadata.isSome
      else .multicall a.metadata.isSome) := by
  obtain ⟨pulls, m, metadata⟩ := a
  cases pulls <;> cases metadata <;> rfl

/-- **The canonical encoding decodes** to the arguments it was made from. -/
theorem decode_calldata (a : Arguments) (hsize : (encodeParts a.parts).length < 2 ^ 256) :
    decode a.calldata = some a := by
  rw [decode, splitAt_calldata, Option.bind_eq_bind, Option.bind_some]
  dsimp only
  rw [ofSelector_selector, Option.bind_eq_bind, Option.bind_some]
  obtain ⟨pulls, m, metadata⟩ := a
  cases pulls with
  | none =>
    have hps : parts ⟨none, m, metadata⟩ = [] ++
        .tail (encodeList (fun c => .tail (NestedCall.encode c)) m.calls) ::
          .word m.refundTo.val :: .word m.nftRecipient.val :: metadataParts metadata := rfl
    have hrest := decodeFrom_encodeParts none hps hsize
    simp only [Option.isSome_none, Bool.false_eq_true, if_false]
    rwa [List.length_nil] at hrest
  | some p =>
    have hps : parts ⟨some p, m, metadata⟩ =
        [.tail (encodeList (fun t : Address => .word t.val) p.tokens),
          .tail (encodeList (fun n : U256 => .word n.val) p.amounts)] ++
        .tail (encodeList (fun c => .tail (NestedCall.encode c)) m.calls) ::
          .word m.refundTo.val :: .word m.nftRecipient.val :: metadataParts metadata := rfl
    have htokens : listAt (finAt 160) (encodeParts (parts ⟨some p, m, metadata⟩)) 0 =
        some p.tokens :=
      (reads_word (by decide)).list.part_at (List.nil_append _).symm rfl hsize
    have hamounts : listAt (finAt 256) (encodeParts (parts ⟨some p, m, metadata⟩)) 1 =
        some p.amounts :=
      (reads_word (by decide)).list.part_at
        (List.append_cons [] _ _) rfl hsize
    have hrest := decodeFrom_encodeParts (some p) hps hsize
    simp only [Option.isSome_some, if_pos, htokens, hamounts, Option.bind_eq_bind,
      Option.bind_some]
    rwa [List.length_cons, List.length_singleton] at hrest

/-! ### How long the encoding is -/

theorem tails_words {α : Type} (n : α → ℕ) (xs : List α) :
    tails (xs.map fun x => .word (n x)) = [] := by
  induction xs with
  | nil => rfl
  | cons x xs ih => exact ih

theorem length_encodeList_words {α : Type} (n : α → ℕ) (xs : List α) :
    (encodeList (fun x => .word (n x)) xs).length = 32 + 32 * xs.length := by
  rw [length_encodeList, length_encodeParts, tails_words, List.length_map, List.length_nil,
    Nat.add_zero]

theorem length_encodeBytes_le {bs : List UInt8} (h : bs.length ≤ MAX_ABI_BYTES) :
    (encodeBytes bs).length ≤ 64 + MAX_ABI_BYTES := by
  have hpad := padding_lt bs.length
  rw [length_encodeBytes]
  omega

theorem length_encode_le {c : NestedCall} (h : c.data.length ≤ MAX_ABI_BYTES) :
    c.encode.length ≤ 192 + MAX_ABI_BYTES := by
  have hbytes := length_encodeBytes_le h
  rw [NestedCall.encode, length_encodeParts, NestedCall.parts]
  simp only [tails, List.append_nil, List.length_cons, List.length_nil]
  omega

variable {a : Arguments}

theorem length_calls_le (h : a.Within) :
    (encodeList (fun c => .tail (NestedCall.encode c)) a.multicall.calls).length ≤
      32 + (32 * MAX_ABI_ITEMS + MAX_ABI_ITEMS * (192 + MAX_ABI_BYTES)) := by
  have htails := length_tails_le a.multicall.calls fun c hc => length_encode_le (h.data c hc)
  have hmul := Nat.mul_le_mul_right (192 + MAX_ABI_BYTES) h.calls
  have hcalls := h.calls
  rw [itemParts] at htails
  rw [length_encodeList, length_encodeParts, List.length_map]
  omega

theorem length_tails_pullParts (h : a.Within) :
    (tails (pullParts a.pulls)).length ≤ 2 * (32 + 32 * MAX_ABI_ITEMS) := by
  cases hpulls : a.pulls with
  | none => exact Nat.zero_le _
  | some p =>
    have htokens := h.tokens p hpulls
    have hamounts := h.amounts p hpulls
    simp only [pullParts, tails, List.length_append, List.append_nil, length_encodeList_words]
    omega

theorem length_tails_metadataParts (h : a.Within) :
    (tails (metadataParts a.metadata)).length ≤ 64 + MAX_ABI_BYTES := by
  cases hmetadata : a.metadata with
  | none => exact Nat.zero_le _
  | some bs =>
    rw [metadataParts, tails, tails, List.append_nil]
    exact length_encodeBytes_le (h.metadata bs hmetadata)

theorem length_parts_le (a : Arguments) : a.parts.length ≤ 6 := by
  obtain ⟨pulls, m, metadata⟩ := a
  cases pulls <;> cases metadata <;> simp [parts, pullParts, metadataParts]

/-- Within the bounds no offset of the encoding is refused. -/
theorem length_calldata_le (h : a.Within) : a.calldata.length ≤ MAX_ABI_OFFSET := by
  have hselector : a.selector.length = 4 := (splitAtChecked_eq_some.mp a.splitAt_calldata).2
  have hcalls := length_calls_le h
  have hpulls := length_tails_pullParts h
  have hmetadata := length_tails_metadataParts h
  have hparts := length_parts_le a
  have htails : (tails a.parts).length = (tails (pullParts a.pulls)).length +
      ((encodeList (fun c => .tail (NestedCall.encode c)) a.multicall.calls).length +
        (tails (metadataParts a.metadata)).length) := by
    rw [parts, tails_append, tails, tails, tails, List.length_append, List.length_append]
  have hbounds : MAX_ABI_ITEMS = 8 ∧ MAX_ABI_BYTES = 8192 ∧ MAX_ABI_OFFSET = 1048576 := by decide
  rw [calldata, List.length_append, hselector, length_encodeParts, htails]
  rw [hbounds.1, hbounds.2.1] at hcalls
  omega

end Arguments

/-! ## The agreement -/

/-- A canonical encoding within the bounds is read as what it encodes. -/
theorem readArguments_calldata {a : Arguments} (h : a.Within) :
    readArguments a.calldata = some a := by
  have hshort := Arguments.length_calldata_le h
  have hle : (encodeParts a.parts).length ≤ a.calldata.length := by
    rw [Arguments.calldata, List.length_append]
    omega
  have hsize : (encodeParts a.parts).length < 2 ^ 256 :=
    lt_of_le_of_lt (hle.trans hshort) (by decide)
  exact readArguments_complete hshort h (a.decode_calldata hsize)

/-- **The reader agrees with Solidity's ABI.** Within its bounds it reads every canonical encoding
of the four signatures; whatever bytes it reads, Solidity reads the same; and so the multicall that
the checks are handed is the one the contract runs. -/
theorem reader_agrees :
    (∀ a : Arguments, a.Within → readArguments a.calldata = some a) ∧
      (∀ calldata a, readArguments calldata = some a → Arguments.decode calldata = some a) ∧
      (∀ calldata m, readEntry calldata = some (.multicall m) →
        ∃ a, Arguments.decode calldata = some a ∧ a.entry = .multicall m) ∧
      ∀ calldata p m, readEntry calldata = some (.transferAndMulticall p m) →
        ∃ a, Arguments.decode calldata = some a ∧ a.entry = .transferAndMulticall p m := by
  refine ⟨fun a h => readArguments_calldata h, fun _ _ => readArguments_sound,
    fun calldata m h => ?_, fun calldata p m h => ?_⟩
  · obtain ⟨a, hread, hentry⟩ := readArguments_of_readEntry h (.inl ⟨m, rfl⟩)
    exact ⟨a, readArguments_sound hread, hentry⟩
  · obtain ⟨a, hread, hentry⟩ := readArguments_of_readEntry h (.inr ⟨p, m, rfl⟩)
    exact ⟨a, readArguments_sound hread, hentry⟩

/-- One token. -/
def onePull : Pulls := { tokens := [0xaf88d065], amounts := [2526643] }

/-- One token pulled, approved and deposited by two nested calls, with metadata. -/
def pullArguments : Arguments where
  pulls := some onePull
  multicall := {
    calls := [⟨0xaf88d065, false, 0, APPROVE ++ [1, 2, 3]⟩, ⟨0xbad, true, 7, DEPOSIT_ERC20⟩]
    refundTo := 0xd8da6bf2
    nftRecipient := 0 }
  metadata := some [0x01]

theorem pullArguments_within : pullArguments.Within where
  tokens := by decide
  amounts := by decide
  calls := by decide
  data := by decide
  metadata := by decide

theorem reader_agrees_pull :
    readArguments pullArguments.calldata = some pullArguments ∧
      Arguments.decode pullArguments.calldata = some pullArguments ∧
      ∃ a, Arguments.decode pullArguments.calldata = some a ∧
        a.entry = .transferAndMulticall onePull pullArguments.multicall := by
  have hread := reader_agrees.1 pullArguments pullArguments_within
  have hentry : readEntry pullArguments.calldata =
      some (.transferAndMulticall onePull pullArguments.multicall) :=
    readEntry_of_readArguments hread
  exact ⟨hread, reader_agrees.2.1 _ _ hread, reader_agrees.2.2.2 _ _ _ hentry⟩

end GumServer
