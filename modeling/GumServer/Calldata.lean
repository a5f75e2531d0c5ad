import GumServer.Text

/-!
# Reading Relay's calldata

`Abi` is the source's own bounds-checked reader of ABI words: a byte string, the base
its dynamic offsets are relative to, and a position. Every read answers `none` past the
end, on a bound exceeded, or on a malformed word. Offsets and lengths are bounded before
they are added, so the `usize` sums of the source never overflow and are plain sums here.

`Entrypoint` names the entrypoints of Relay's contracts the checks know, and `readEntry`
is what a call's bytes say: which entrypoint, with which arguments. The checks of a route
read the same words in the same order.
-/

namespace GumServer

open Bytes

/-! ## Selectors -/

/-- `approve(address,uint256)`. -/
def APPROVE : List UInt8 := [0x09, 0x5e, 0xa7, 0xb3]

/-- `transfer(address,uint256)`. -/
def TRANSFER : List UInt8 := [0xa9, 0x05, 0x9c, 0xbb]

/-- `depositErc20(address,address,uint256,bytes32)`. -/
def DEPOSIT_ERC20 : List UInt8 := [0xe8, 0x01, 0x79, 0x52]

/-- `depositErc20(address,address,bytes32)`. -/
def DEPOSIT_ERC20_ALL : List UInt8 := [0x5a, 0x1e, 0xe3, 0xac]

/-- `depositNative(address,bytes32)`. -/
def DEPOSIT_NATIVE : List UInt8 := [0x49, 0x29, 0x0c, 0x1c]

/-- `multicall((address,bool,uint256,bytes)[],address,address,bytes)`. -/
def MULTICALL : List UInt8 := [0xcd, 0x6e, 0x13, 0xf7]

/-- `multicall((address,bool,uint256,bytes)[],address,address)`. -/
def MULTICALL_V2 : List UInt8 := [0x30, 0xbe, 0x55, 0x67]

/-- `transferAndMulticall(address[],uint256[],(address,bool,uint256,bytes)[],address,address,bytes)`. -/
def TRANSFER_AND_MULTICALL : List UInt8 := [0xf9, 0xe4, 0xba, 0xb4]

/-- `transferAndMulticall(address[],uint256[],(address,bool,uint256,bytes)[],address,address)`. -/
def TRANSFER_AND_MULTICALL_V2 : List UInt8 := [0x30, 0x87, 0x50, 0x56]

/-- `forward(bytes)`. -/
def FORWARD : List UInt8 := [0xd9, 0x48, 0xd4, 0x68]

/-- `split_at_checked`. -/
def splitAtChecked (bs : List UInt8) (n : ℕ) : Option (List UInt8 × List UInt8) :=
  if n ≤ bs.length then some (bs.take n, bs.drop n) else none

theorem splitAtChecked_eq_some {bs head args : List UInt8} {n : ℕ} :
    splitAtChecked bs n = some (head, args) ↔ bs = head ++ args ∧ head.length = n := by
  rw [splitAtChecked]
  constructor
  · intro h
    split at h
    · next hn =>
      obtain ⟨rfl, rfl⟩ := Prod.mk.inj (Option.some.inj h)
      exact ⟨(List.take_append_drop n bs).symm, List.length_take_of_le hn⟩
    · cases h
  · rintro ⟨rfl, rfl⟩
    rw [if_pos (by simp)]
    simp

/-! ## The reader -/

/-- The largest dynamic offset a call may use. -/
def MAX_ABI_OFFSET : ℕ := 1 <<< 20

/-- The longest `bytes` argument. -/
def MAX_ABI_BYTES : ℕ := 8 <<< 10

/-- The longest array. -/
def MAX_ABI_ITEMS : ℕ := 8

/-- Reads ABI-encoded words, bounds-checked throughout. -/
structure Abi where
  bytes : List UInt8
  /-- where this reader's dynamic offsets are relative to -/
  base : ℕ
  pos : ℕ

/-- One of Relay's nested calls, `(address target, bool allowFailure, uint256 value, bytes callData)`. -/
structure NestedCall where
  target : Address
  allowFailure : Bool
  value : U256
  data : List UInt8
deriving DecidableEq

namespace Abi

/-- `Abi::new`: a reader at the start. -/
def new (bytes : List UInt8) : Abi := ⟨bytes, 0, 0⟩

/-- `Abi::at`: a reader elsewhere in the same bytes. -/
def moved (r : Abi) (base pos : ℕ) : Abi := ⟨r.bytes, base, pos⟩

/-- `Abi::word`. -/
def word (r : Abi) : Option (List UInt8 × Abi) :=
  (slice? r.bytes r.pos 32).map fun w => (w, r.moved r.base (r.pos + 32))

/-- The address in a word: twelve zero bytes, then its twenty. -/
def addressOf (w : List UInt8) : Option Address :=
  if (w.take 12).any (· ≠ 0) then none else some (Address.ofBytes (w.drop 12))

/-- `Abi::address`. -/
def address (r : Abi) : Option (Address × Abi) := do
  let (w, r) ← r.word
  let a ← addressOf w
  some (a, r)

/-- `Abi::uint`. -/
def uint (r : Abi) : Option (U256 × Abi) := do
  let (w, r) ← r.word
  some (U256.ofBytes w, r)

section Words

variable {β : Type} (r : Abi)

theorem word_bind (f : List UInt8 × Abi → Option β) :
    r.word.bind f =
      (slice? r.bytes r.pos 32).bind fun w => f (w, r.moved r.base (r.pos + 32)) := by
  rw [word]
  cases slice? r.bytes r.pos 32 <;> rfl

theorem address_bind (f : Address × Abi → Option β) :
    r.address.bind f =
      ((slice? r.bytes r.pos 32).bind addressOf).bind
        fun a => f (a, r.moved r.base (r.pos + 32)) := by
  rw [address]
  simp only [Option.bind_eq_bind, word_bind, Option.bind_assoc, Option.bind_some]

theorem uint_bind (f : U256 × Abi → Option β) :
    r.uint.bind f =
      (slice? r.bytes r.pos 32).bind
        fun w => f (U256.ofBytes w, r.moved r.base (r.pos + 32)) := by
  rw [uint]
  simp only [Option.bind_eq_bind, word_bind, Option.bind_assoc, Option.bind_some]

end Words

/-- `Abi::offset`. -/
def offset (r : Abi) : Option (ℕ × Abi) := do
  let (n, r) ← r.uint
  if n.val ≤ MAX_ABI_OFFSET then some (n.val, r) else none

/-- `Abi::bytes`, a dynamic `bytes` argument: an offset to a length and its data. -/
def bytesArg (r : Abi) : Option (List UInt8 × Abi) := do
  let (off, r) ← r.offset
  let start := r.base + off
  let (len, _) ← (r.moved start start).uint
  if MAX_ABI_BYTES < len.val then none
  else
    let data ← slice? r.bytes (start + 32) len.val
    some (data, r)

/-- Read so many items in a row. -/
def items {α : Type} (item : Abi → Option (α × Abi)) : ℕ → Abi → Option (List α)
  | 0, _ => some []
  | n + 1, r => do
    let (a, r) ← item r
    let rest ← items item n r
    some (a :: rest)

/-- `Abi::static_items`, a dynamic array: an offset to a length and its items, whose own
offsets are relative to the position after the length. -/
def staticItems {α : Type} (item : Abi → Option (α × Abi)) (r : Abi) : Option (List α × Abi) := do
  let (off, r) ← r.offset
  let start := r.base + off
  let (len, inner) ← (r.moved start start).uint
  if MAX_ABI_ITEMS < len.val then none
  else
    let out ← items item len.val (inner.moved inner.pos inner.pos)
    some (out, r)

/-- A `bool`: a word that is zero or one. -/
def boolean (r : Abi) : Option (Bool × Abi) := do
  let (raw, r) ← r.uint
  if raw = 0 then some (false, r) else if raw = 1 then some (true, r) else none

/-- One nested call, behind its offset. -/
def nestedCall (r : Abi) : Option (NestedCall × Abi) := do
  let (off, r) ← r.offset
  let start := r.base + off
  let (target, el) ← (r.moved start start).address
  let (allowFailure, el) ← el.boolean
  let (value, el) ← el.uint
  let (data, _) ← el.bytesArg
  some (⟨target, allowFailure, value, data⟩, r)

/-- `Abi::nested_calls`. -/
def nestedCalls (r : Abi) : Option (List NestedCall × Abi) := r.staticItems nestedCall

end Abi

/-! ## What a call's bytes say -/

/-- The entrypoints of Relay's contracts the checks know, the two versions of the
multicalls told apart by the metadata they carry. -/
inductive Entrypoint : Type where
  /-- a deposit of so much of a token -/
  | depositErc20
  /-- a deposit by the whole allowance -/
  | depositErc20All
  /-- a deposit of the transaction's value -/
  | depositNative
  /-- nested calls, run by the router -/
  | multicall (withMetadata : Bool)
  /-- tokens pulled into the router, then nested calls run there -/
  | transferAndMulticall (withMetadata : Bool)
  /-- the transaction's value, forwarded to the solver -/
  | forward
deriving DecidableEq

/-- The entrypoint behind a selector. -/
def Entrypoint.ofSelector (selector : List UInt8) : Option Entrypoint :=
  if selector = DEPOSIT_ERC20 then some .depositErc20
  else if selector = DEPOSIT_ERC20_ALL then some .depositErc20All
  else if selector = DEPOSIT_NATIVE then some .depositNative
  else if selector = MULTICALL then some (.multicall true)
  else if selector = MULTICALL_V2 then some (.multicall false)
  else if selector = TRANSFER_AND_MULTICALL then some (.transferAndMulticall true)
  else if selector = TRANSFER_AND_MULTICALL_V2 then some (.transferAndMulticall false)
  else if selector = FORWARD then some .forward
  else none

/-- The arguments of `depositErc20`. -/
structure DepositErc20 where
  depositor : Address
  token : Address
  amount : U256
  orderId : List UInt8
deriving DecidableEq

/-- The arguments of `depositNative`. -/
structure DepositNative where
  depositor : Address
  orderId : List UInt8
deriving DecidableEq

/-- The arguments both multicalls share. -/
structure Multicall where
  calls : List NestedCall
  refundTo : Address
  nftRecipient : Address
deriving DecidableEq

/-- What a `transferAndMulticall` pulls. -/
structure Pulls where
  tokens : List Address
  amounts : List U256
deriving DecidableEq

/-- Read `depositErc20`'s arguments. -/
def readDepositErc20 (args : List UInt8) : Option DepositErc20 := do
  let (depositor, r) ← (Abi.new args).address
  let (token, r) ← r.address
  let (amount, r) ← r.uint
  let (orderId, _) ← r.word
  some { depositor, token, amount, orderId }

/-- Read `depositNative`'s arguments. -/
def readDepositNative (args : List UInt8) : Option DepositNative := do
  let (depositor, r) ← (Abi.new args).address
  let (orderId, _) ← r.word
  some { depositor, orderId }

/-- Read what is pulled: two arrays. -/
def readPulls (r : Abi) : Option (Pulls × Abi) := do
  let (tokens, r) ← r.staticItems Abi.address
  let (amounts, r) ← r.staticItems Abi.uint
  some ({ tokens, amounts }, r)

/-- Read the nested calls and who gets the surplus; the metadata must decode, where the
version carries it. -/
def readMulticall (withMetadata : Bool) (r : Abi) : Option Multicall := do
  let (calls, r) ← r.nestedCalls
  let (refundTo, r) ← r.address
  let (nftRecipient, r) ← r.address
  if withMetadata then
    let _ ← r.bytesArg
    some { calls, refundTo, nftRecipient }
  else some { calls, refundTo, nftRecipient }

/-- A call on one of Relay's contracts, read in full. -/
inductive Entry : Type where
  /-- `depositErc20`, with its amount -/
  | depositErc20 (args : DepositErc20)
  /-- `depositErc20`, by the whole allowance -/
  | depositErc20All
  /-- `depositNative` -/
  | depositNative (args : DepositNative)
  /-- `multicall`, either version -/
  | multicall (args : Multicall)
  /-- `transferAndMulticall`, either version -/
  | transferAndMulticall (pulls : Pulls) (args : Multicall)
  /-- `forward` -/
  | forward
deriving DecidableEq

/-- Read a call on one of Relay's contracts: its selector, then the arguments of the
entrypoint behind it. -/
def readEntry (calldata : List UInt8) : Option Entry := do
  let (selector, args) ← splitAtChecked calldata 4
  match ← Entrypoint.ofSelector selector with
  | .depositErc20 => (readDepositErc20 args).map .depositErc20
  | .depositErc20All => some .depositErc20All
  | .depositNative => (readDepositNative args).map .depositNative
  | .multicall withMetadata => (readMulticall withMetadata (Abi.new args)).map .multicall
  | .transferAndMulticall withMetadata => do
    let (pulls, r) ← readPulls (Abi.new args)
    (readMulticall withMetadata r).map (.transferAndMulticall pulls)
  | .forward => (Abi.new args).bytesArg.map fun _ => .forward

/-! ### The words of a deposit -/

theorem Entrypoint.ofSelector_depositErc20 {selector : List UInt8} :
    ofSelector selector = some .depositErc20 ↔ selector = DEPOSIT_ERC20 := by
  rw [ofSelector]
  split_ifs <;> simp_all

/-- `depositErc20`'s arguments are its first four words. -/
theorem readDepositErc20_eq (args : List UInt8) :
    readDepositErc20 args =
      ((slice? args 0 32).bind Abi.addressOf).bind fun depositor =>
        ((slice? args 32 32).bind Abi.addressOf).bind fun token =>
          (slice? args 64 32).bind fun amount =>
            (slice? args 96 32).map fun orderId =>
              ⟨depositor, token, U256.ofBytes amount, orderId⟩ := by
  rw [readDepositErc20]
  simp only [Option.bind_eq_bind, Abi.address_bind, Abi.uint_bind, Abi.word_bind, Abi.moved,
    Abi.new, Nat.zero_add, Nat.reduceAdd, Option.map_eq_bind]
  rfl

/-- `depositNative`'s arguments are its first two words. -/
theorem readDepositNative_eq (args : List UInt8) :
    readDepositNative args =
      ((slice? args 0 32).bind Abi.addressOf).bind fun depositor =>
        (slice? args 32 32).map fun orderId => ⟨depositor, orderId⟩ := by
  rw [readDepositNative]
  simp only [Option.bind_eq_bind, Abi.address_bind, Abi.word_bind, Abi.moved, Abi.new,
    Nat.zero_add, Option.map_eq_bind]
  rfl

/-- A call read as `depositErc20` starts with its selector; its amount is the third word
past it. -/
theorem readEntry_depositErc20 {data : List UInt8} {d : DepositErc20}
    (h : readEntry data = some (.depositErc20 d)) :
    ∃ args, data = DEPOSIT_ERC20 ++ args ∧ readDepositErc20 args = some d := by
  rw [readEntry] at h
  obtain ⟨⟨selector, args⟩, hsplit, h⟩ := Option.bind_eq_some_iff.mp h
  obtain ⟨entrypoint, hsel, h⟩ := Option.bind_eq_some_iff.mp h
  obtain ⟨rfl, -⟩ := splitAtChecked_eq_some.mp hsplit
  cases entrypoint with
  | depositErc20 =>
    obtain ⟨d', hd, heq⟩ := Option.map_eq_some_iff.mp h
    obtain rfl := Entry.depositErc20.inj heq
    exact ⟨args, by rw [Entrypoint.ofSelector_depositErc20.mp hsel], hd⟩
  | depositErc20All => cases h
  | depositNative =>
    obtain ⟨_, -, heq⟩ := Option.map_eq_some_iff.mp h
    cases heq
  | multicall _ =>
    obtain ⟨_, -, heq⟩ := Option.map_eq_some_iff.mp h
    cases heq
  | transferAndMulticall _ =>
    obtain ⟨_, -, h⟩ := Option.bind_eq_some_iff.mp h
    obtain ⟨_, -, heq⟩ := Option.map_eq_some_iff.mp h
    cases heq
  | forward =>
    obtain ⟨_, -, heq⟩ := Option.map_eq_some_iff.mp h
    cases heq

/-- And a call that starts with the selector is read as nothing else. -/
theorem readEntry_append_depositErc20 (args : List UInt8) :
    readEntry (DEPOSIT_ERC20 ++ args) = (readDepositErc20 args).map .depositErc20 := by
  have hsplit : splitAtChecked (DEPOSIT_ERC20 ++ args) 4 = some (DEPOSIT_ERC20, args) :=
    splitAtChecked_eq_some.mpr ⟨rfl, rfl⟩
  rw [readEntry, hsplit]
  rfl

theorem readEntry_append_depositNative (args : List UInt8) :
    readEntry (DEPOSIT_NATIVE ++ args) = (readDepositNative args).map .depositNative := by
  have hsplit : splitAtChecked (DEPOSIT_NATIVE ++ args) 4 = some (DEPOSIT_NATIVE, args) :=
    splitAtChecked_eq_some.mpr ⟨rfl, rfl⟩
  rw [readEntry, hsplit]
  rfl

/-- A call on the payer's token, read as the checks do: a selector, a spender or
recipient, and an amount. -/
structure TokenCall where
  selector : List UInt8
  /-- the spender of an approval, the recipient of a transfer -/
  target : Address
  amount : U256

/-- Read a call on the token from its selector and its first two words. -/
def readTokenCall (calldata : List UInt8) : Option TokenCall := do
  let (selector, args) ← splitAtChecked calldata 4
  if args.length < 64 then none
  else some ⟨selector, Address.ofBytes ((args.drop 12).take 20),
    U256.ofBytes ((args.drop 32).take 32)⟩

/-! ### Selectors of pulls -/

/-- The bytes start with either version's `transferAndMulticall` selector. -/
def StartsPull (calldata : List UInt8) : Prop :=
  TRANSFER_AND_MULTICALL <+: calldata ∨ TRANSFER_AND_MULTICALL_V2 <+: calldata

theorem StartsPull.splitAt {calldata : List UInt8} (h : StartsPull calldata) :
    ∃ selector args withMetadata, splitAtChecked calldata 4 = some (selector, args) ∧
      Entrypoint.ofSelector selector = some (.transferAndMulticall withMetadata) := by
  rcases h with ⟨args, rfl⟩ | ⟨args, rfl⟩
  · exact ⟨_, args, true, splitAtChecked_eq_some.mpr ⟨rfl, rfl⟩, rfl⟩
  · exact ⟨_, args, false, splitAtChecked_eq_some.mpr ⟨rfl, rfl⟩, rfl⟩

theorem readEntry_pull {calldata : List UInt8} {e : Entry} (hpull : StartsPull calldata)
    (h : readEntry calldata = some e) : ∃ p m, e = .transferAndMulticall p m := by
  obtain ⟨selector, args, withMetadata, hsplit, hentry⟩ := hpull.splitAt
  rw [readEntry] at h
  rw [hsplit, Option.bind_eq_bind, Option.bind_some] at h
  dsimp only at h
  rw [hentry, Option.bind_eq_bind, Option.bind_some] at h
  obtain ⟨⟨p, r⟩, -, h⟩ := Option.bind_eq_some_iff.mp h
  obtain ⟨m, -, rfl⟩ := Option.map_eq_some_iff.mp h
  exact ⟨p, m, rfl⟩

/-- A call that is read has the selector of an entrypoint. -/
theorem readEntry_splitAt {calldata : List UInt8} {e : Entry} (h : readEntry calldata = some e) :
    ∃ selector args entrypoint, splitAtChecked calldata 4 = some (selector, args) ∧
      Entrypoint.ofSelector selector = some entrypoint := by
  obtain ⟨⟨selector, args⟩, hsplit, h⟩ := Option.bind_eq_some_iff.mp h
  obtain ⟨entrypoint, hsel, -⟩ := Option.bind_eq_some_iff.mp h
  exact ⟨selector, args, entrypoint, hsplit, hsel⟩

end GumServer
