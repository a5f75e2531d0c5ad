import Mathlib.Data.Set.Function
import GumServer.Calldata
import GumServer.Solidity

/-!
# Payment addresses and their calldata

`chain/payment.rs`: a payment is described by seven terms, and its address is derived off
chain from all of them: the terms are `execute`'s calldata arguments, the init code is the
pinned creation code with the implementation and the terms behind it, and the address is
`CREATE2` of its hash.

`decodeExecute` reads the calldata back by the standard ABI, so the encoding loses nothing
(`decodeExecute_executeCalldata`); the init code of a factory is then injective in the
terms, and so is the address wherever the hash has no collision.
-/

namespace GumServer

open Bytes Solidity

/-! ## Terms -/

/-- A `Vec`: its length is a `usize`. -/
structure Vec (α : Type) where
  toList : List α
  /-- the length fits a `usize` -/
  fits : toList.length < 2 ^ 64
deriving DecidableEq

/-- A list as a `Vec`, when it fits. -/
def Vec.ofList? {α : Type} (xs : List α) : Option (Vec α) :=
  if h : xs.length < 2 ^ 64 then some ⟨xs, h⟩ else none

@[simp] theorem Vec.ofList?_toList {α : Type} (v : Vec α) : Vec.ofList? v.toList = some v :=
  dif_pos v.fits

/-- `Payment.Call`: one call the payment makes, as itself, on settlement. -/
structure Call where
  target : Address
  data : Vec UInt8
deriving DecidableEq

/-- The seven terms a payment is described by. -/
structure PaymentTerms where
  token : Address
  amount : U256
  /-- run in order on settlement -/
  calls : Vec Call
  expirationTimestamp : U64
  recovery : Address
  salt : B256
  chainId : U64
deriving DecidableEq

/-! ## Encoding -/

/-- `Payment.creationCode`, pinned in `payment_creation_code.hex`: whole words, then the rest. -/
def PAYMENT_CREATION_CODE : List UInt8 :=
  ([
    0x608060405234801561000f575f5ffd5b506040516107fa3803806107fa833981,
    0x01604081905261002e91610453565b610212565b81601452826034526fa9059c,
    0xbb0000000000000000000000005f5260205f604460105f855af18060015f5114,
    0x1661007c57803d833b15171061007c576390b8ec185f526004601cfd5b505050,
    0x50565b6370a082315f52306020525f60205f6024601c855afa6100a4573d5f5f,
    0x3e3d5ffd5b60203d10156100b1575f5ffd5b50505f5190565b68365f5f375f5f,
    0x365f7360b81b5f52606090811b6009526e5af43d5f5f3e5f3d91602a57fd5bf3,
    0x60881b601d521b602c528060405360415ff35b81516020830151602085038111,
    0x15610108575f5ffd5b808401805160208388030381111561011e575f5ffd5b5f,
    0x5f82602085015f885af192503d8361016a57635c0dee5d89528560208a015260,
    0x40808a01528060608a0152805f60808b013e5f898201608001526064601f8201,
    0x601f191601601c8a01fd5b8061018a57843b61018a57635dcee19d5f52856020,
    0x52846040526044601cfd5b601f19601f8301169350604089528360600160208a,
    0x01528160408a0152816020840160608b015e5f8260608b0101528360608a0101,
    0x9350808452805f602086013e5f8160208601015284867f74a5b5c63602662a2c,
    0x967556916428411d055eeb47c4d96e6325304cb5603a99601f19601f8501168c,
    0x6020890103018ca3505050505050505050565b6020810160e082511015610224,
    0x575f5ffd5b60405160c082015146146102715760c08201515f52466020527f24,
    0x497bc308635bccbc06f4997297d2158da178be2267eeead419bfdb19d42d4b60,
    0x405fa16102715f6080840151866100b8565b61027b8251610082565b60608301,
    0x514211156102c2576102978160808501518551610033565b805f528251608084,
    0x01515f5160206107da5f395f51905f5260205fa36102c25f6080850151876100,
    0xb8565b60208301518110156102e75760208301516040528060205263a17124f8,
    0x5f526044601cfd5b602083015180820391146103225761030581608085015185,
    0x51610033565b805f52825160808401515f5160206107da5f395f51905f526020,
    0x5fa35b5061032d8251610082565b602083015181146103515760208301516040,
    0x528060205263a17124f85f526044601cfd5b5082518201604083015160208401,
    0x820381111561036c575f5ffd5b830160208101818303601f1981015f5b845181,
    0x10156103d057604083038160051b1160408410171561039c575f5ffd5b806005,
    0x1b8401516040830381116040841017156103b7575f5ffd5b84016103c7888289,
    0x0383856100f2565b5060010161037c565b505050505050506103e18151610082,
    0x565b80156103f85763e58991f15f52806020526024601cfd5b5060208101515f,
    0x5280517f7823e479a1a4ebe2418874847436f8a1680c5ee5b17f38bb59dbff28,
    0xe1b4555260205fa261043760016080830151856100b8565b505050610522565b,
    0x634e487b7160e01b5f52604160045260245ffd5b5f5f60408385031215610464,
    0x575f5ffd5b82516001600160a01b038116811461047a575f5ffd5b6020840151,
    0x9092506001600160401b03811115610495575f5ffd5b8301601f810185136104,
    0xa5575f5ffd5b80516001600160401b038111156104be576104be61043f565b60,
    0x4051601f8201601f19908116603f011681016001600160401b03811182821017,
    0x156104ec576104ec61043f565b60405281815282820160200187101561050357,
    0x5f5ffd5b8160208401602083015e5f6020838301015280935050505092509290,
    0x50565b6102ab8061052f5f395ff3fe608060405234801561000f575f5ffd5b50,
    0x60043610610034575f3560e01c80630cd865ec1461003857806380bdaf031461,
    0x005e575b5f5ffd5b61004b610046366004610224565b610076565b6040519081,
    0x526020015b60405180910390f35b610066610199565b60405190151581526020,
    0x01610055565b5f5f6100806101a8565b506040517f70a0823100000000000000,
    0x0000000000000000000000000000000000000000008152306004820152909150,
    0x73ffffffffffffffffffffffffffffffffffffffff8416906370a08231906024,
    0x01602060405180830381865afa1580156100ec573d5f5f3e3d5ffd5b50505050,
    0x6040513d601f19601f82011682018060405250810190610110919061025e565b,
    0x9150815f0361012157505f92915050565b61012c8382846101d1565b8273ffff,
    0xffffffffffffffffffffffffffffffffffff168173ffffffffffffffffffffff,
    0xffffffffffffffffff167ffff3b3844276f57024e0b42afec1a37f75db36511e,
    0x43819a4f2a63ab7862b6488460405161018b91815260200190565b6040518091,
    0x0390a350919050565b5f6101a26101a8565b92915050565b5f5f6041303b1461,
    0x01b7575f5ffd5b6015602c5f303c5f518060601c92508060141a915050909156,
    0x5b81601452806034526fa9059cbb0000000000000000000000005f5260205f60,
    0x4460105f875af18060015f51141661021a57803d853b15171061021a576390b8,
    0xec185f526004601cfd5b505f603452505050565b5f6020828403121561023457,
    0x5f5ffd5b813573ffffffffffffffffffffffffffffffffffffffff8116811461,
    0x0257575f5ffd5b9392505050565b5f6020828403121561026e575f5ffd5b5051,
    0x91905056fea2646970667358221220b764f94c520be8aea696a4bebc0edfdb14,
    0x6a17541b0804f7bcc3ccb8e899be1564736f6c63430008210033fff3b3844276].flatMap (toBe 32)) ++
  toBe 26 0xf57024e0b42afec1a37f75db36511e43819a4f2a63ab7862b648

theorem length_PAYMENT_CREATION_CODE : PAYMENT_CREATION_CODE.length = 2042 := by
  simp [PAYMENT_CREATION_CODE, length_toBe]

/-- The selector of `execute(address,uint256,(address,bytes)[],uint64,address,bytes32,uint256)`. -/
def EXECUTE : List UInt8 := [0xc5, 0xcd, 0xfc, 0x83]

/-- `abi.encode` of a call, a dynamic tuple. -/
def encodeCall (c : Call) : List UInt8 :=
  encodeParts [.word c.target.val, .tail (encodeBytes c.data.toList)]

/-- `IERC20::transferCall` of a recipient and an amount. -/
def transferCall (recipient : Address) (amount : U256) : List UInt8 :=
  TRANSFER ++ encodeParts [.word recipient.val, .word amount.val]

theorem length_transferCall (recipient : Address) (amount : U256) :
    (transferCall recipient amount).length = 68 := by
  simp [transferCall, TRANSFER, length_encodeParts, tails]

/-- `Call::transfer`: the whole of a plain payment's settlement. -/
def Call.transfer (token recipient : Address) (amount : U256) : Call :=
  ⟨token, transferCall recipient amount, by rw [length_transferCall]; decide⟩

namespace PaymentTerms

/-- The parts of `execute`'s arguments. -/
def executeParts (t : PaymentTerms) : List Part :=
  [.word t.token.val, .word t.amount.val, .tail (encodeArray encodeCall t.calls.toList),
    .word t.expirationTimestamp.val, .word t.recovery.val, .word t.salt.val, .word t.chainId.val]

/-- Calldata for `PaymentFactory.execute(...)`. -/
def executeCalldata (t : PaymentTerms) : List UInt8 := EXECUTE ++ encodeParts t.executeParts

end PaymentTerms

/-! ## Addresses

The hash is a parameter: `keccak256`, from bytes to words. -/

section Address

variable (keccak256 : List UInt8 → B256)

/-- The address in the low twenty bytes of a hash. -/
def Address.ofHash (hash : B256) : Address := Address.ofBytes (B256.toBytes hash)

/-- `Address::create(1)`: the hash of the RLP list of the address and the nonce. -/
def Address.createFirst (a : Address) : Address :=
  Address.ofHash (keccak256 ([0xd6, 0x94] ++ a.toBytes ++ [0x01]))

/-- `Address::create2`. -/
def Address.create2 (a : Address) (salt initCodeHash : B256) : Address :=
  Address.ofHash
    (keccak256 ([0xff] ++ a.toBytes ++ B256.toBytes salt ++ B256.toBytes initCodeHash))

/-- `payment_implementation`: the factory's first creation. -/
def paymentImplementation (factory : Address) : Address := factory.createFirst keccak256

/-- `init_code`: the creation code, then the implementation and the terms as `execute` takes
them. -/
def PaymentTerms.initCode (t : PaymentTerms) (factory : Address) : List UInt8 :=
  PAYMENT_CREATION_CODE ++
    encodeParts [.word (paymentImplementation keccak256 factory).val,
      .tail (encodeBytes (t.executeCalldata.drop 4))]

/-- `payment_address`. -/
def PaymentTerms.paymentAddress (t : PaymentTerms) (factory : Address) : Address :=
  factory.create2 keccak256 0 (keccak256 (t.initCode keccak256 factory))

end Address

/-! ## Reading the calldata back -/

/-- A number of this width in the `k`-th word of a block. -/
def finAt (w : ℕ) (block : List UInt8) (k : ℕ) : Option (Fin (2 ^ w)) :=
  (wordAt block k).bind fun n => if h : n < 2 ^ w then some ⟨n, h⟩ else none

/-- Read a call. -/
def decodeCall (block : List UInt8) : Option Call := do
  let target ← finAt 160 block 0
  let bytes ← (tailAt block 1).bind decodeBytes
  let data ← Vec.ofList? bytes
  some { target, data }

/-- Read `execute`'s calldata. -/
def decodeExecute (calldata : List UInt8) : Option PaymentTerms := do
  let (selector, args) ← splitAtChecked calldata 4
  if selector ≠ EXECUTE then none
  else
    let token ← finAt 160 args 0
    let amount ← finAt 256 args 1
    let list ← (tailAt args 2).bind (decodeArray decodeCall)
    let calls ← Vec.ofList? list
    let expirationTimestamp ← finAt 64 args 3
    let recovery ← finAt 160 args 4
    let salt ← finAt 256 args 5
    let chainId ← finAt 64 args 6
    some { token, amount, calls, expirationTimestamp, recovery, salt, chainId }

section RoundTrip

theorem finAt_of_word {w : ℕ} {block : List UInt8} {k : ℕ} {n : Fin (2 ^ w)}
    (h : wordAt block k = some n.val) : finAt w block k = some n := by
  rw [finAt, h, Option.bind_some, dif_pos n.isLt]

theorem finAt_encodeParts {w : ℕ} (pre post : List Part) (n : Fin (2 ^ w)) (hw : w ≤ 256) :
    finAt w (encodeParts (pre ++ .word n.val :: post)) pre.length = some n := by
  have hn : n.val < 2 ^ 256 := lt_of_lt_of_le n.isLt (Nat.pow_le_pow_right (by decide) hw)
  have hword := @wordAt_encodeParts pre post [] n.val hn
  rw [List.append_nil] at hword
  exact finAt_of_word hword

theorem padding_lt (n : ℕ) : padding n < 32 := Nat.mod_lt _ (by decide)

theorem length_encodeCall_lt (c : Call) : (encodeCall c).length < 2 ^ 65 := by
  have hfits := c.data.fits
  have hpad := padding_lt c.data.toList.length
  rw [encodeCall, length_encodeParts, tails, tails, tails, List.append_nil, length_encodeBytes]
  rw [List.length_cons, List.length_cons, List.length_nil]
  omega

theorem length_tails_le {α : Type} {enc : α → List UInt8} {b : ℕ} (xs : List α)
    (h : ∀ x ∈ xs, (enc x).length ≤ b) : (tails (itemParts enc xs)).length ≤ xs.length * b := by
  induction xs with
  | nil => exact Nat.zero_le _
  | cons x xs ih =>
    have hx := h x (List.mem_cons_self ..)
    have hxs := ih fun y hy => h y (List.mem_cons_of_mem _ hy)
    simp only [itemParts, List.map_cons, tails, List.length_append, List.length_cons] at hxs ⊢
    rw [Nat.succ_mul]
    omega

/-- The calls of some terms take less than a word can count. -/
theorem length_calls_lt (calls : Vec Call) :
    (encodeParts (itemParts encodeCall calls.toList)).length < 2 ^ 130 := by
  have htails : (tails (itemParts encodeCall calls.toList)).length ≤
      calls.toList.length * 2 ^ 65 :=
    length_tails_le calls.toList fun c _ => (length_encodeCall_lt c).le
  have hfits := calls.fits
  have hmul : calls.toList.length * 2 ^ 65 ≤ 2 ^ 64 * 2 ^ 65 := Nat.mul_le_mul_right _ hfits.le
  rw [length_encodeParts, itemParts, List.length_map]
  rw [itemParts] at htails
  omega

theorem decodeCall_encodeCall (c : Call) (rest : List UInt8) :
    decodeCall (encodeCall c ++ rest) = some c := by
  have hsize : (encodeCall c).length < 2 ^ 256 :=
    (length_encodeCall_lt c).trans (by decide)
  have htarget : wordAt (encodeCall c ++ rest) 0 = some c.target.val :=
    @wordAt_encodeParts [] _ rest _ (c.target.isLt.trans (by decide))
  have htail : tailAt (encodeCall c ++ rest) 1 = some (encodeBytes c.data.toList ++ ([] ++ rest)) :=
    @tailAt_encodeParts [.word c.target.val] [] rest _ hsize
  rw [decodeCall, finAt_of_word htarget, htail]
  simp only [Option.bind_eq_bind, Option.bind_some,
    decodeBytes_encodeBytes (c.data.fits.trans (by decide)), Vec.ofList?_toList]

namespace PaymentTerms

variable (t : PaymentTerms)

theorem length_executeParts_lt : (encodeParts t.executeParts).length < 2 ^ 131 := by
  have hcalls := length_calls_lt t.calls
  rw [length_encodeParts]
  simp only [executeParts, tails, length_encodeArray, List.length_append, List.length_cons,
    List.length_nil]
  omega

/-- A static argument, at its place. -/
theorem finAt_executeParts {w : ℕ} (pre post : List Part) (n : Fin (2 ^ w)) (hw : w ≤ 256)
    (hparts : t.executeParts = pre ++ .word n.val :: post) :
    finAt w (encodeParts t.executeParts) pre.length = some n := by
  rw [hparts]
  exact finAt_encodeParts pre post n hw

/-- The calls, behind their offset. -/
theorem decodeArray_executeParts :
    (tailAt (encodeParts t.executeParts) 2).bind (decodeArray decodeCall) =
      some t.calls.toList := by
  have hsize : (encodeParts t.executeParts).length < 2 ^ 256 :=
    t.length_executeParts_lt.trans (by decide)
  have htail := @tailAt_encodeParts [.word t.token.val, .word t.amount.val]
    [.word t.expirationTimestamp.val, .word t.recovery.val, .word t.salt.val, .word t.chainId.val]
    [] (encodeArray encodeCall t.calls.toList) hsize
  have htail : tailAt (encodeParts t.executeParts ++ []) 2 = _ := htail
  rw [List.append_nil] at htail
  rw [htail, Option.bind_some]
  exact decodeArray_encodeArray (fun c _ rest => decodeCall_encodeCall c rest)
    (t.calls.fits.trans (by decide)) ((length_calls_lt t.calls).trans (by decide))

/-- **The calldata decodes** back to exactly the terms it was made from. -/
theorem decodeExecute_executeCalldata : decodeExecute t.executeCalldata = some t := by
  have hsplit : splitAtChecked t.executeCalldata 4 = some (EXECUTE, encodeParts t.executeParts) :=
    splitAtChecked_eq_some.mpr ⟨rfl, rfl⟩
  have htoken := t.finAt_executeParts [] [.word t.amount.val,
    .tail (encodeArray encodeCall t.calls.toList), .word t.expirationTimestamp.val,
    .word t.recovery.val, .word t.salt.val, .word t.chainId.val] t.token (by decide) rfl
  have hamount := t.finAt_executeParts [.word t.token.val]
    [.tail (encodeArray encodeCall t.calls.toList), .word t.expirationTimestamp.val,
      .word t.recovery.val, .word t.salt.val, .word t.chainId.val] t.amount (by decide) rfl
  have hexpiry := t.finAt_executeParts [.word t.token.val, .word t.amount.val,
    .tail (encodeArray encodeCall t.calls.toList)]
    [.word t.recovery.val, .word t.salt.val, .word t.chainId.val]
    t.expirationTimestamp (by decide) rfl
  have hrecovery := t.finAt_executeParts [.word t.token.val, .word t.amount.val,
    .tail (encodeArray encodeCall t.calls.toList), .word t.expirationTimestamp.val]
    [.word t.salt.val, .word t.chainId.val] t.recovery (by decide) rfl
  have hsalt := t.finAt_executeParts [.word t.token.val, .word t.amount.val,
    .tail (encodeArray encodeCall t.calls.toList), .word t.expirationTimestamp.val,
    .word t.recovery.val] [.word t.chainId.val] t.salt (by decide) rfl
  have hchain := t.finAt_executeParts [.word t.token.val, .word t.amount.val,
    .tail (encodeArray encodeCall t.calls.toList), .word t.expirationTimestamp.val,
    .word t.recovery.val, .word t.salt.val] [] t.chainId (by decide) rfl
  simp only [List.length_cons, List.length_nil, Nat.zero_add, Nat.reduceAdd]
    at htoken hamount hexpiry hrecovery hsalt hchain
  rw [decodeExecute, hsplit]
  simp only [Option.bind_eq_bind, Option.bind_some, ne_eq, not_true_eq_false, if_false, htoken,
    hamount, t.decodeArray_executeParts, Vec.ofList?_toList, hexpiry, hrecovery, hsalt, hchain]

end PaymentTerms

end RoundTrip

/-! ## The address commits to every term -/

section Commits

variable (keccak256 : List UInt8 → B256) (factory : Address)

theorem executeCalldata_injective : Function.Injective PaymentTerms.executeCalldata := by
  intro t t' h
  have hdecode := t.decodeExecute_executeCalldata
  rw [h, t'.decodeExecute_executeCalldata] at hdecode
  exact (Option.some.inj hdecode).symm

/-- The terms in an init code are found behind the creation code and their offset. -/
theorem initCode_terms (t : PaymentTerms) :
    (tailAt ((t.initCode keccak256 factory).drop PAYMENT_CREATION_CODE.length) 1).bind
      decodeBytes = some (encodeParts t.executeParts) := by
  have hlen := t.length_executeParts_lt
  have hpad := padding_lt (encodeParts t.executeParts).length
  have hdrop : t.executeCalldata.drop 4 = encodeParts t.executeParts := List.drop_left' rfl
  have hsize : (encodeParts [.word (paymentImplementation keccak256 factory).val,
      .tail (encodeBytes (encodeParts t.executeParts))]).length < 2 ^ 256 := by
    rw [length_encodeParts]
    simp only [tails, List.append_nil, length_encodeBytes, List.length_cons, List.length_nil]
    omega
  have htail := @tailAt_encodeParts [.word (paymentImplementation keccak256 factory).val] []
    [] (encodeBytes (encodeParts t.executeParts)) hsize
  rw [PaymentTerms.initCode, List.drop_left' rfl, hdrop]
  rw [List.append_nil, List.singleton_append, List.length_singleton] at htail
  rw [htail, Option.bind_some]
  exact decodeBytes_encodeBytes (hlen.trans (by decide))

/-- Different terms have different init codes. -/
theorem initCode_injective :
    Function.Injective fun t : PaymentTerms => t.initCode keccak256 factory := by
  intro t t' h
  have hterms := initCode_terms keccak256 factory t
  rw [show t.initCode keccak256 factory = t'.initCode keccak256 factory from h,
    initCode_terms keccak256 factory t', Option.some.injEq] at hterms
  apply executeCalldata_injective
  rw [PaymentTerms.executeCalldata, PaymentTerms.executeCalldata, hterms]

/-- **The address commits to every term.** Different terms have different init codes, the
calldata decodes back to its terms, and on any terms whose init codes and `CREATE2` hashes do
not collide the address is injective. -/
theorem paymentAddress_commits :
    (∀ t t' : PaymentTerms, t ≠ t' → t.initCode keccak256 factory ≠ t'.initCode keccak256 factory) ∧
    (∀ t : PaymentTerms, decodeExecute t.executeCalldata = some t) ∧
    ∀ S : Set PaymentTerms,
      Set.InjOn keccak256 ((fun t => t.initCode keccak256 factory) '' S) →
      Set.InjOn (factory.create2 keccak256 0)
        ((fun t => keccak256 (t.initCode keccak256 factory)) '' S) →
      Set.InjOn (fun t => t.paymentAddress keccak256 factory) S := by
  refine ⟨fun t t' hne h => hne (initCode_injective keccak256 factory h),
    PaymentTerms.decodeExecute_executeCalldata, ?_⟩
  intro S hcode haddress t ht t' ht' h
  have hhash := haddress (Set.mem_image_of_mem _ ht) (Set.mem_image_of_mem _ ht') h
  have hinit := hcode (Set.mem_image_of_mem _ ht) (Set.mem_image_of_mem _ ht') hhash
  exact initCode_injective keccak256 factory hinit

end Commits

/-! ## The payments of the local fixture -/

namespace Fixture

/-- The factory of the local bootstrap. -/
def factory : Address := ⟨0x5FbDB2315678afecb367f032d93F642f64180aa3, by decide⟩

/-- The receiver of the fixture. -/
def receiver : Address := ⟨0x70997970C51812dc3A010C7d01b50e0d17dc79C8, by decide⟩

/-- The token of the fixture. -/
def usdc : Address := ⟨0xe7f1725E7734CE288F8367e1Bb143E90bb3F0512, by decide⟩

/-- The fixture's terms under this salt. -/
def terms (salt : B256) : PaymentTerms where
  token := usdc
  amount := ⟨2500000, by decide⟩
  calls := ⟨[Call.transfer usdc receiver ⟨2500000, by decide⟩], by decide⟩
  expirationTimestamp := 1800000000
  recovery := ⟨0x3C44CdDdB6a900fa2b585dd299e03d12FA4293BC, by decide⟩
  salt := salt
  chainId := 31337

/-- `keccak256` on the hashes the fixture's addresses under the salts 1 and 0xab need. -/
def keccak256 (bs : List UInt8) : B256 :=
  -- an init code has the last byte of its salt here, a `CREATE2` preimage its init code's hash
  match bs[2329]?, bs[53]? with
  | some b, _ =>
    if b = 1 then ⟨0xe897ff8353ad45842e653a66850a599dc6d96d830be720538bd1427bc1d0e494, by decide⟩
    else ⟨0x60d30ed88398a26b96df752c9d900cd5d9832b13ddbf2b4163821bcefac4fc23, by decide⟩
  | none, some b =>
    if b = 0xe8 then ⟨0x2fdf709abda79bec3df98ce700b90992c77b829feaea0ebba6d07204c98b5984, by decide⟩
    else ⟨0x353ff40aa8e8299bfbd596026852c2794e4582a6468fd245bcca3d38132b9e56, by decide⟩
  | none, none => ⟨0xe467a5b633a39bbdb7a33f03a16e02e87b7454126e5e10d957a927a7f5b5d2be, by decide⟩

/-- The hash of an init code is chosen by the last byte of the salt in it. -/
theorem keccak256_initCode {t : PaymentTerms} {b : UInt8} (h : (encodeParts
      [.word (paymentImplementation keccak256 factory).val,
        .tail (encodeBytes (t.executeCalldata.drop 4))])[287]? = some b) :
    keccak256 (t.initCode keccak256 factory) =
      if b = 1 then ⟨0xe897ff8353ad45842e653a66850a599dc6d96d830be720538bd1427bc1d0e494, by decide⟩
      else ⟨0x60d30ed88398a26b96df752c9d900cd5d9832b13ddbf2b4163821bcefac4fc23, by decide⟩ := by
  have hbyte : (t.initCode keccak256 factory)[2329]? = some b := by
    rw [PaymentTerms.initCode,
      List.getElem?_append_right (by rw [length_PAYMENT_CREATION_CODE]; decide),
      length_PAYMENT_CREATION_CODE]
    exact h
  rw [keccak256, hbyte]

theorem hash_terms_one : keccak256 ((terms 1).initCode keccak256 factory) =
    ⟨0xe897ff8353ad45842e653a66850a599dc6d96d830be720538bd1427bc1d0e494, by decide⟩ :=
  keccak256_initCode (show _ = some 1 by decide +kernel)

theorem hash_terms_ab : keccak256 ((terms 0xab).initCode keccak256 factory) =
    ⟨0x60d30ed88398a26b96df752c9d900cd5d9832b13ddbf2b4163821bcefac4fc23, by decide⟩ :=
  keccak256_initCode (show _ = some 0xab by decide +kernel)

theorem create2_terms_one : factory.create2 keccak256 0
    ⟨0xe897ff8353ad45842e653a66850a599dc6d96d830be720538bd1427bc1d0e494, by decide⟩ =
    ⟨0x00b90992c77b829feaea0ebba6d07204c98b5984, by decide⟩ := by
  decide +kernel

theorem create2_terms_ab : factory.create2 keccak256 0
    ⟨0x60d30ed88398a26b96df752c9d900cd5d9832b13ddbf2b4163821bcefac4fc23, by decide⟩ =
    ⟨0x6852c2794e4582a6468fd245bcca3d38132b9e56, by decide⟩ := by
  decide +kernel

end Fixture

/-- On the fixture's payments under two salts, one at the address the deployed factory reports. -/
theorem paymentAddress_commits_fixture :
    Set.InjOn (fun t : PaymentTerms => t.paymentAddress Fixture.keccak256 Fixture.factory)
      {Fixture.terms 1, Fixture.terms 0xab} ∧
    (Fixture.terms 0xab).paymentAddress Fixture.keccak256 Fixture.factory =
      ⟨0x6852c2794e4582a6468fd245bcca3d38132b9e56, by decide⟩ ∧
    decodeExecute (Fixture.terms 1).executeCalldata = some (Fixture.terms 1) := by
  obtain ⟨-, hdecode, hinj⟩ := paymentAddress_commits Fixture.keccak256 Fixture.factory
  refine ⟨hinj _ ?_ ?_, ?_, hdecode _⟩
  · rw [Set.image_pair, Set.injOn_pair, Fixture.hash_terms_one, Fixture.hash_terms_ab]
    intro h
    exact absurd h (by decide)
  · rw [Set.image_pair, Set.injOn_pair, Fixture.hash_terms_one, Fixture.hash_terms_ab,
      Fixture.create2_terms_one, Fixture.create2_terms_ab]
    intro h
    exact absurd h (by decide)
  · rw [PaymentTerms.paymentAddress, Fixture.hash_terms_ab, Fixture.create2_terms_ab]

end GumServer
