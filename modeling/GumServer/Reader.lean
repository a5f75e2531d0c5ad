import GumServer.Payment

/-!
# Reads that follow a decoder

Solidity reads an argument by following its offset, wherever it points and however long what stands
there is. The source's reader follows the same offsets from a position in one byte string, with a
bound on every offset and length.

Each read of the source is compared with the decoder of one word of a block (`Follows`): what the
read gives, the decoder gives, and what the decoder gives within the bounds, the read gives. The
block is what follows the reader's base, so nesting only moves the base.
-/

namespace GumServer

open Bytes Solidity

/-! ## Words and blocks -/

theorem wordAt_drop (bytes : List UInt8) (base k : ℕ) :
    wordAt (bytes.drop base) k = (slice? bytes (base + 32 * k) 32).map beNat := by
  rw [wordAt, slice?_drop _ _ _ (by decide)]

theorem finAt_eq_some {w : ℕ} {block : List UInt8} {k : ℕ} {n : Fin (2 ^ w)} :
    finAt w block k = some n ↔ wordAt block k = some n.val := by
  refine ⟨fun h => ?_, finAt_of_word⟩
  obtain ⟨m, hm, h⟩ := Option.bind_eq_some_iff.mp h
  split at h
  · obtain rfl := Option.some.inj h
    exact hm
  · cases h

theorem tailAt_drop {bytes block : List UInt8} {base k : ℕ} :
    tailAt (bytes.drop base) k = some block ↔
      ∃ off, wordAt (bytes.drop base) k = some off ∧ off ≤ (bytes.drop base).length ∧
        bytes.drop (base + off) = block := by
  rw [tailAt, Option.bind_eq_some_iff]
  constructor
  · rintro ⟨off, hword, h⟩
    split at h
    · next hoff => exact ⟨off, hword, hoff, by rw [← List.drop_drop]; exact Option.some.inj h⟩
    · cases h
  · rintro ⟨off, hword, hoff, rfl⟩
    exact ⟨off, hword, by rw [if_pos hoff, List.drop_drop]⟩

theorem U256.val_ofBytes {w : List UInt8} (hw : w.length = 32) : (U256.ofBytes w).val = beNat w := by
  have hlt : beNat w < 256 ^ 32 := hw ▸ beNat_lt w
  exact Nat.mod_eq_of_lt (Nat.lt_of_lt_of_eq hlt (by decide))

/-- A word is an address when its number fits one. -/
theorem addressOf_eq_some {w : List UInt8} {a : Address} (hw : w.length = 32) :
    Abi.addressOf w = some a ↔ beNat w = a.val := by
  have hlow : beNat (w.drop 12) < 2 ^ 160 := by
    have h := beNat_lt (w.drop 12)
    rw [List.length_drop, hw] at h
    exact Nat.lt_of_lt_of_eq h (by decide)
  have hsplit : beNat w = 256 ^ 20 * beNat (w.take 12) + beNat (w.drop 12) := by
    have h := beNat_append (w.take 12) (w.drop 12)
    rwa [List.take_append_drop, List.length_drop, hw] at h
  have hval : (Address.ofBytes (w.drop 12)).val = beNat (w.drop 12) := Nat.mod_eq_of_lt hlow
  have hzero : ((w.take 12).any (· ≠ 0)) = true ↔ beNat (w.take 12) ≠ 0 := by
    rw [Ne, beNat_eq_zero]
    simp
  rw [Abi.addressOf]
  split
  · next hany =>
    have hpos := Nat.pos_of_ne_zero (hzero.mp hany)
    have ha := a.isLt
    have hge : 256 ^ 20 * 1 ≤ 256 ^ 20 * beNat (w.take 12) := Nat.mul_le_mul_left _ hpos
    constructor
    · intro h
      cases h
    · intro h
      omega
  · next hany =>
    have hnil : beNat (w.take 12) = 0 := by
      by_contra hne
      exact hany (hzero.mpr hne)
    rw [Option.some.injEq, Fin.ext_iff, hval, hsplit, hnil, Nat.mul_zero, Nat.zero_add]

/-! ## Reads and decoders -/

namespace Abi

/-- A reader at the `k`-th word of the block behind its base. -/
def atWord (bytes : List UInt8) (base k : ℕ) : Abi := ⟨bytes, base, base + 32 * k⟩

theorem new_eq (bytes : List UInt8) : new bytes = atWord bytes 0 0 := rfl

/-- Read the offset, then elsewhere; go on behind the offset. -/
def behind {α : Type} (inner : Abi → Option α) (r : Abi) : Option (α × Abi) := do
  let (off, r) ← r.offset
  let a ← inner (r.moved (r.base + off) (r.base + off))
  some (a, r)

section Words

variable {bytes : List UInt8} {base k off : ℕ} {r : Abi}

theorem uint_atWord {n : U256} : (atWord bytes base k).uint = some (n, r) ↔
    wordAt (bytes.drop base) k = some n.val ∧ r = atWord bytes base (k + 1) := by
  have hread : (atWord bytes base k).uint = (slice? bytes (base + 32 * k) 32).bind
      fun w => some (U256.ofBytes w, atWord bytes base (k + 1)) :=
    (Option.bind_fun_some _).symm.trans ((atWord bytes base k).uint_bind some)
  rw [hread, wordAt_drop, Option.bind_eq_some_iff]
  constructor
  · rintro ⟨w, hw, h⟩
    obtain ⟨rfl, rfl⟩ := Prod.mk.inj (Option.some.inj h)
    rw [hw, Option.map_some, U256.val_ofBytes (length_slice? hw)]
    exact ⟨rfl, rfl⟩
  · rintro ⟨h, rfl⟩
    obtain ⟨w, hw, hn⟩ := Option.map_eq_some_iff.mp h
    rw [← U256.val_ofBytes (length_slice? hw)] at hn
    exact ⟨w, hw, by rw [Fin.ext hn]⟩

theorem address_atWord {a : Address} : (atWord bytes base k).address = some (a, r) ↔
    wordAt (bytes.drop base) k = some a.val ∧ r = atWord bytes base (k + 1) := by
  have hread : (atWord bytes base k).address =
      ((slice? bytes (base + 32 * k) 32).bind addressOf).bind
        fun a => some (a, atWord bytes base (k + 1)) :=
    (Option.bind_fun_some _).symm.trans ((atWord bytes base k).address_bind some)
  rw [hread, wordAt_drop, Option.bind_eq_some_iff]
  constructor
  · rintro ⟨a', ha, h⟩
    obtain ⟨w, hw, ha⟩ := Option.bind_eq_some_iff.mp ha
    obtain ⟨rfl, rfl⟩ := Prod.mk.inj (Option.some.inj h)
    rw [hw, Option.map_some, (addressOf_eq_some (length_slice? hw)).mp ha]
    exact ⟨rfl, rfl⟩
  · rintro ⟨h, rfl⟩
    obtain ⟨w, hw, ha⟩ := Option.map_eq_some_iff.mp h
    exact ⟨a, by rw [hw]; exact (addressOf_eq_some (length_slice? hw)).mpr ha, rfl⟩

theorem wordAt_lt {block : List UInt8} {n : ℕ} (h : wordAt block k = some n) : n < 2 ^ 256 := by
  obtain ⟨w, hw, rfl⟩ := Option.map_eq_some_iff.mp h
  have hlt := beNat_lt w
  rw [length_slice? hw] at hlt
  exact Nat.lt_of_lt_of_eq hlt (by decide)

theorem offset_atWord : (atWord bytes base k).offset = some (off, r) ↔
    wordAt (bytes.drop base) k = some off ∧ off ≤ MAX_ABI_OFFSET ∧
      r = atWord bytes base (k + 1) := by
  rw [offset]
  constructor
  · intro h
    obtain ⟨⟨n, r'⟩, hn, h⟩ := Option.bind_eq_some_iff.mp h
    obtain ⟨hword, rfl⟩ := uint_atWord.mp hn
    dsimp only at h
    split at h
    · next hmax =>
      obtain ⟨rfl, rfl⟩ := Prod.mk.inj (Option.some.inj h)
      exact ⟨hword, hmax, rfl⟩
    · cases h
  · rintro ⟨hword, hmax, rfl⟩
    have hn : (atWord bytes base k).uint =
        some (⟨off, wordAt_lt hword⟩, atWord bytes base (k + 1)) := uint_atWord.mpr ⟨hword, rfl⟩
    rw [hn, Option.bind_eq_bind, Option.bind_some]
    exact if_pos hmax

theorem behind_atWord {α : Type} {inner : Abi → Option α} {a : α} :
    behind inner (atWord bytes base k) = some (a, r) ↔
      ∃ off, wordAt (bytes.drop base) k = some off ∧ off ≤ MAX_ABI_OFFSET ∧
        inner (atWord bytes (base + off) 0) = some a ∧ r = atWord bytes base (k + 1) := by
  rw [behind]
  constructor
  · intro h
    obtain ⟨⟨off, r'⟩, hoff, h⟩ := Option.bind_eq_some_iff.mp h
    obtain ⟨hword, hmax, rfl⟩ := offset_atWord.mp hoff
    obtain ⟨a', ha, h⟩ := Option.bind_eq_some_iff.mp h
    obtain ⟨rfl, rfl⟩ := Prod.mk.inj (Option.some.inj h)
    exact ⟨off, hword, hmax, ha, rfl⟩
  · rintro ⟨off, hword, hmax, ha, rfl⟩
    rw [offset_atWord.mpr ⟨hword, hmax, rfl⟩, Option.bind_eq_bind, Option.bind_some]
    exact Option.bind_eq_some_iff.mpr ⟨a, ha, rfl⟩

end Words

end Abi

/-- The read of one argument and the decoder of one word agree, up to the reader's bounds. -/
structure Follows {α : Type} (read : Abi → Option (α × Abi))
    (decode : List UInt8 → ℕ → Option α) (fits : α → Prop) : Prop where
  /-- what is read is what the decoder gives, and within the bounds -/
  sound : ∀ {bytes base k a r}, read (Abi.atWord bytes base k) = some (a, r) →
    decode (bytes.drop base) k = some a ∧ fits a ∧ r = Abi.atWord bytes base (k + 1)
  /-- in bytes so short that no offset inside them is refused, what the decoder gives is read -/
  complete : ∀ {bytes base k a}, bytes.length ≤ MAX_ABI_OFFSET →
    decode (bytes.drop base) k = some a → fits a →
      read (Abi.atWord bytes base k) = some (a, Abi.atWord bytes base (k + 1))

/-- The same for what stands behind an offset, read from the start of its own block. -/
structure FollowsBlock {α : Type} (read : Abi → Option α)
    (decode : List UInt8 → Option α) (fits : α → Prop) : Prop where
  sound : ∀ {bytes start a}, read (Abi.atWord bytes start 0) = some a →
    decode (bytes.drop start) = some a ∧ fits a
  complete : ∀ {bytes start a}, bytes.length ≤ MAX_ABI_OFFSET →
    decode (bytes.drop start) = some a → fits a → read (Abi.atWord bytes start 0) = some a

section Reads

variable {α : Type} {fits : α → Prop}

/-- A block is found behind its offset. Past the end there is none, so the offset is inside. -/
theorem FollowsBlock.behind {read : Abi → Option α} {decode : List UInt8 → Option α}
    (h : FollowsBlock read decode fits) (hnil : decode [] = none) :
    Follows (Abi.behind read) (fun block k => (tailAt block k).bind decode) fits where
  sound := by
    intro bytes base k a r hread
    obtain ⟨off, hword, -, ha, rfl⟩ := Abi.behind_atWord.mp hread
    obtain ⟨hdec, hfits⟩ := h.sound ha
    have hoff : off ≤ (bytes.drop base).length := by
      by_contra hlt
      rw [List.drop_eq_nil_of_le (by rw [List.length_drop] at hlt; omega), hnil] at hdec
      cases hdec
    refine ⟨?_, hfits, rfl⟩
    rw [tailAt_drop.mpr ⟨off, hword, hoff, rfl⟩, Option.bind_some, hdec]
  complete := by
    intro bytes base k a hshort hdec hfits
    obtain ⟨block, htail, hdec⟩ := Option.bind_eq_some_iff.mp hdec
    obtain ⟨off, hword, hoff, rfl⟩ := tailAt_drop.mp htail
    have hmax : off ≤ MAX_ABI_OFFSET := by
      rw [List.length_drop] at hoff
      omega
    exact Abi.behind_atWord.mpr ⟨off, hword, hmax, h.complete hshort hdec hfits, rfl⟩

theorem follows_address : Follows Abi.address (finAt 160) fun _ => True where
  sound h := by
    obtain ⟨hword, rfl⟩ := Abi.address_atWord.mp h
    exact ⟨finAt_of_word hword, trivial, rfl⟩
  complete _ h _ := Abi.address_atWord.mpr ⟨finAt_eq_some.mp h, rfl⟩

theorem follows_uint : Follows Abi.uint (finAt 256) fun _ => True where
  sound h := by
    obtain ⟨hword, rfl⟩ := Abi.uint_atWord.mp h
    exact ⟨finAt_of_word hword, trivial, rfl⟩
  complete _ h _ := Abi.uint_atWord.mpr ⟨finAt_eq_some.mp h, rfl⟩

/-- A `bool` in the `k`-th word of a block. -/
def boolAt (block : List UInt8) (k : ℕ) : Option Bool :=
  (wordAt block k).bind fun n =>
    if n = 0 then some false else if n = 1 then some true else none

theorem boolAt_eq_some {block : List UInt8} {k : ℕ} {b : Bool} :
    boolAt block k = some b ↔ wordAt block k = some b.toNat := by
  rw [boolAt, Option.bind_eq_some_iff]
  constructor
  · rintro ⟨n, hn, h⟩
    split_ifs at h with h0 h1
    · obtain rfl := Option.some.inj h
      rw [hn, h0, Bool.toNat_false]
    · obtain rfl := Option.some.inj h
      rw [hn, h1, Bool.toNat_true]
  · intro h
    refine ⟨_, h, ?_⟩
    cases b <;> rfl

theorem follows_boolean : Follows Abi.boolean boolAt fun _ => True where
  sound := by
    intro bytes base k b r h
    obtain ⟨⟨raw, r'⟩, hraw, h⟩ := Option.bind_eq_some_iff.mp h
    obtain ⟨hword, rfl⟩ := Abi.uint_atWord.mp hraw
    rw [boolAt_eq_some, hword]
    dsimp only at h
    split_ifs at h with h0 h1
    · obtain ⟨rfl, rfl⟩ := Prod.mk.inj (Option.some.inj h)
      exact ⟨by rw [h0]; rfl, trivial, rfl⟩
    · obtain ⟨rfl, rfl⟩ := Prod.mk.inj (Option.some.inj h)
      exact ⟨by rw [h1]; rfl, trivial, rfl⟩
  complete := by
    intro bytes base k b _ h _
    have hword := boolAt_eq_some.mp h
    cases b with
    | false =>
      have hraw : (Abi.atWord bytes base k).uint = some (0, Abi.atWord bytes base (k + 1)) :=
        Abi.uint_atWord.mpr ⟨hword, rfl⟩
      rw [Abi.boolean, hraw]
      rfl
    | true =>
      have hraw : (Abi.atWord bytes base k).uint = some (1, Abi.atWord bytes base (k + 1)) :=
        Abi.uint_atWord.mpr ⟨hword, rfl⟩
      rw [Abi.boolean, hraw]
      rfl

/-! ### Byte strings -/

/-- What stands behind the offset of a `bytes` argument. -/
def Abi.bytesBlock (r : Abi) : Option (List UInt8) := do
  let (len, _) ← r.uint
  if MAX_ABI_BYTES < len.val then none else slice? r.bytes (r.pos + 32) len.val

theorem Abi.bytesArg_eq (r : Abi) : r.bytesArg = Abi.behind Abi.bytesBlock r := by
  rw [bytesArg, behind]
  simp only [Option.bind_eq_bind]
  congr 1
  funext ⟨off, r'⟩
  rw [bytesBlock, Option.bind_eq_bind, Option.bind_assoc]
  congr 1
  funext ⟨len, _⟩
  dsimp only
  split
  · rfl
  · rfl

theorem follows_bytesBlock :
    FollowsBlock Abi.bytesBlock decodeBytes fun bs => bs.length ≤ MAX_ABI_BYTES where
  sound := by
    intro bytes start bs h
    obtain ⟨⟨len, r⟩, hlen, h⟩ := Option.bind_eq_some_iff.mp h
    obtain ⟨hword, rfl⟩ := Abi.uint_atWord.mp hlen
    dsimp only at h
    split at h
    · cases h
    · next hmax =>
      have hslice : slice? bytes (start + 32) len.val = some bs := h
      refine ⟨?_, by rw [length_slice? hslice]; exact not_lt.mp hmax⟩
      obtain ⟨hle, hbs⟩ := slice?_eq_some.mp hslice
      rw [decodeBytes, hword, Option.bind_some, slice?_eq_some, List.length_drop, List.drop_drop]
      exact ⟨by omega, hbs⟩
  complete := by
    intro bytes start bs _ h hfits
    obtain ⟨len, hword, h⟩ := Option.bind_eq_some_iff.mp h
    have hlen : (Abi.atWord bytes start 0).uint =
        some (⟨len, Abi.wordAt_lt hword⟩, Abi.atWord bytes start 1) :=
      Abi.uint_atWord.mpr ⟨hword, rfl⟩
    have hslice : slice? bytes (start + 32) len = some bs := by
      obtain ⟨w, hw, -⟩ := Option.map_eq_some_iff.mp hword
      have hstart := (slice?_eq_some.mp hw).1
      obtain ⟨hle, hbs⟩ := slice?_eq_some.mp h
      rw [List.length_drop] at hstart hle
      rw [List.drop_drop] at hbs
      exact slice?_eq_some.mpr ⟨by omega, hbs⟩
    rw [length_slice? h] at hfits
    rw [Abi.bytesBlock, hlen, Option.bind_eq_bind, Option.bind_some]
    exact (if_neg (not_lt.mpr hfits)).trans hslice

theorem follows_bytes : Follows Abi.bytesArg bytesAt fun bs => bs.length ≤ MAX_ABI_BYTES := by
  rw [funext Abi.bytesArg_eq]
  exact follows_bytesBlock.behind rfl

/-! ### Arrays -/

/-- What stands behind the offset of an array. -/
def Abi.itemsBlock (item : Abi → Option (α × Abi)) (r : Abi) : Option (List α) := do
  let (len, inner) ← r.uint
  if MAX_ABI_ITEMS < len.val then none
  else items item len.val (inner.moved inner.pos inner.pos)

theorem Abi.staticItems_eq (item : Abi → Option (α × Abi)) (r : Abi) :
    r.staticItems item = Abi.behind (Abi.itemsBlock item) r := by
  rw [staticItems, behind]
  simp only [Option.bind_eq_bind]
  congr 1
  funext ⟨off, r'⟩
  rw [itemsBlock, Option.bind_eq_bind, Option.bind_assoc]
  congr 1
  funext ⟨len, inner⟩
  dsimp only
  split
  · rfl
  · rfl

section Items

variable {item : Abi → Option (α × Abi)} {decode : List UInt8 → ℕ → Option α}
  {bytes : List UInt8} {base k n : ℕ} {xs : List α}

theorem Follows.items_sound (h : Follows item decode fits)
    (hread : Abi.items item n (Abi.atWord bytes base k) = some xs) :
    itemsAt decode (bytes.drop base) k n = some xs ∧ xs.length = n ∧ ∀ x ∈ xs, fits x := by
  induction n generalizing k xs with
  | zero =>
    obtain rfl := Option.some.inj hread
    exact ⟨rfl, rfl, by simp⟩
  | succ n ih =>
    obtain ⟨⟨x, r⟩, hx, hread⟩ := Option.bind_eq_some_iff.mp hread
    obtain ⟨rest, hrest, hread⟩ := Option.bind_eq_some_iff.mp hread
    obtain rfl := Option.some.inj hread
    obtain ⟨hdec, hfits, rfl⟩ := h.sound hx
    obtain ⟨hitems, hlen, hall⟩ := ih hrest
    refine ⟨?_, congrArg Nat.succ hlen, List.forall_mem_cons.mpr ⟨hfits, hall⟩⟩
    rw [itemsAt, hdec, hitems]
    rfl

theorem Follows.items_complete (h : Follows item decode fits)
    (hshort : bytes.length ≤ MAX_ABI_OFFSET)
    (hdec : itemsAt decode (bytes.drop base) k n = some xs) (hfits : ∀ x ∈ xs, fits x) :
    Abi.items item n (Abi.atWord bytes base k) = some xs := by
  induction n generalizing k xs with
  | zero => exact hdec
  | succ n ih =>
    obtain ⟨x, hx, hdec⟩ := Option.bind_eq_some_iff.mp hdec
    obtain ⟨rest, hrest, hdec⟩ := Option.bind_eq_some_iff.mp hdec
    obtain rfl := Option.some.inj hdec
    obtain ⟨hxfits, hall⟩ := List.forall_mem_cons.mp hfits
    rw [Abi.items, h.complete hshort hx hxfits, Option.bind_eq_bind, Option.bind_some]
    dsimp only
    rw [ih hrest hall]
    rfl

theorem length_itemsAt {block : List UInt8} (h : itemsAt decode block k n = some xs) :
    xs.length = n := by
  induction n generalizing k xs with
  | zero =>
    obtain rfl := Option.some.inj h
    rfl
  | succ n ih =>
    obtain ⟨x, -, h⟩ := Option.bind_eq_some_iff.mp h
    obtain ⟨rest, hrest, h⟩ := Option.bind_eq_some_iff.mp h
    obtain rfl := Option.some.inj h
    exact congrArg Nat.succ (ih hrest)

theorem Follows.block (h : Follows item decode fits) :
    FollowsBlock (Abi.itemsBlock item) (decodeList decode)
      fun xs => xs.length ≤ MAX_ABI_ITEMS ∧ ∀ x ∈ xs, fits x where
  sound := by
    intro bytes start xs hread
    obtain ⟨⟨len, r⟩, hlen, hread⟩ := Option.bind_eq_some_iff.mp hread
    obtain ⟨hword, rfl⟩ := Abi.uint_atWord.mp hlen
    dsimp only at hread
    split at hread
    · cases hread
    · next hmax =>
      have hread : Abi.items item len.val (Abi.atWord bytes (start + 32) 0) = some xs := hread
      obtain ⟨hitems, hcount, hall⟩ := h.items_sound hread
      refine ⟨?_, by rw [hcount]; exact not_lt.mp hmax, hall⟩
      rw [decodeList, hword, Option.bind_some, List.drop_drop, hitems]
  complete := by
    intro bytes start xs hshort hdec hfits
    obtain ⟨hmax, hall⟩ := hfits
    obtain ⟨len, hword, hdec⟩ := Option.bind_eq_some_iff.mp hdec
    have hlen : (Abi.atWord bytes start 0).uint =
        some (⟨len, Abi.wordAt_lt hword⟩, Abi.atWord bytes start 1) :=
      Abi.uint_atWord.mpr ⟨hword, rfl⟩
    rw [length_itemsAt hdec] at hmax
    rw [List.drop_drop] at hdec
    rw [Abi.itemsBlock, hlen, Option.bind_eq_bind, Option.bind_some]
    exact (if_neg (not_lt.mpr hmax)).trans (h.items_complete hshort hdec hall)

/-- **Arrays** of what can be read can be read, up to their own bound. -/
theorem Follows.list (h : Follows item decode fits) :
    Follows (Abi.staticItems item) (listAt decode)
      fun xs => xs.length ≤ MAX_ABI_ITEMS ∧ ∀ x ∈ xs, fits x := by
  rw [funext (Abi.staticItems_eq item)]
  exact h.block.behind rfl

end Items

end Reads

/-! ### Nested calls -/

namespace NestedCall

/-- `(address target, bool allowFailure, uint256 value, bytes callData)`, as the parts of a tuple. -/
def parts (c : NestedCall) : List Part :=
  [.word c.target.val, .word c.allowFailure.toNat, .word c.value.val, .tail (encodeBytes c.data)]

/-- The tuple of a nested call. -/
def encode (c : NestedCall) : List UInt8 := encodeParts c.parts

/-- Read the tuple of a nested call. -/
def decode (block : List UInt8) : Option NestedCall := do
  let target ← finAt 160 block 0
  let allowFailure ← boolAt block 1
  let value ← finAt 256 block 2
  let data ← bytesAt block 3
  some { target, allowFailure, value, data }

/-- The nested call behind the `k`-th word of a block. -/
def at? (block : List UInt8) (k : ℕ) : Option NestedCall := (tailAt block k).bind decode

end NestedCall

/-- What stands behind the offset of a nested call. -/
def Abi.nestedBlock (r : Abi) : Option NestedCall := do
  let (target, r) ← r.address
  let (allowFailure, r) ← r.boolean
  let (value, r) ← r.uint
  let (data, _) ← r.bytesArg
  some { target, allowFailure, value, data }

theorem Abi.nestedCall_eq (r : Abi) : r.nestedCall = Abi.behind Abi.nestedBlock r := by
  rw [nestedCall, behind]
  simp only [nestedBlock, Option.bind_eq_bind, Option.bind_assoc, Option.bind_some]

theorem follows_nestedBlock :
    FollowsBlock Abi.nestedBlock NestedCall.decode fun c => c.data.length ≤ MAX_ABI_BYTES where
  sound := by
    intro bytes start c h
    obtain ⟨⟨target, _⟩, hread, h⟩ := Option.bind_eq_some_iff.mp h
    obtain ⟨htarget, -, rfl⟩ := follows_address.sound hread
    obtain ⟨⟨allowFailure, _⟩, hread, h⟩ := Option.bind_eq_some_iff.mp h
    obtain ⟨hallow, -, rfl⟩ := follows_boolean.sound hread
    obtain ⟨⟨value, _⟩, hread, h⟩ := Option.bind_eq_some_iff.mp h
    obtain ⟨hvalue, -, rfl⟩ := follows_uint.sound hread
    obtain ⟨⟨data, _⟩, hread, h⟩ := Option.bind_eq_some_iff.mp h
    obtain ⟨hdata, hfits, rfl⟩ := follows_bytes.sound hread
    obtain rfl := Option.some.inj h
    refine ⟨?_, hfits⟩
    rw [NestedCall.decode, htarget, hallow, hvalue, hdata]
    rfl
  complete := by
    intro bytes start c hshort h hfits
    obtain ⟨target, htarget, h⟩ := Option.bind_eq_some_iff.mp h
    obtain ⟨allowFailure, hallow, h⟩ := Option.bind_eq_some_iff.mp h
    obtain ⟨value, hvalue, h⟩ := Option.bind_eq_some_iff.mp h
    obtain ⟨data, hdata, h⟩ := Option.bind_eq_some_iff.mp h
    obtain rfl := Option.some.inj h
    simp only [Abi.nestedBlock, Option.bind_eq_bind, Option.bind_some,
      follows_address.complete hshort htarget trivial,
      follows_boolean.complete hshort hallow trivial, follows_uint.complete hshort hvalue trivial,
      follows_bytes.complete hshort hdata hfits]

theorem follows_nestedCall :
    Follows Abi.nestedCall NestedCall.at? fun c => c.data.length ≤ MAX_ABI_BYTES := by
  rw [funext Abi.nestedCall_eq]
  exact follows_nestedBlock.behind rfl

theorem reads_nestedCall : Reads (fun c : NestedCall => .tail c.encode) NestedCall.at? := by
  refine reads_tail fun c rest hsize => ?_
  have htarget : wordAt (c.encode ++ rest) 0 = some c.target.val :=
    @wordAt_encodeParts [] _ rest _ (c.target.isLt.trans (by decide))
  have hallow : wordAt (c.encode ++ rest) 1 = some c.allowFailure.toNat :=
    @wordAt_encodeParts [.word c.target.val] _ rest _
      (lt_of_le_of_lt (Bool.toNat_le _) (by decide))
  have hvalue : wordAt (c.encode ++ rest) 2 = some c.value.val :=
    @wordAt_encodeParts [.word c.target.val, .word c.allowFailure.toNat] _ rest _ c.value.isLt
  have hdata : bytesAt (c.encode ++ rest) 3 = some c.data :=
    reads_bytes [.word c.target.val, .word c.allowFailure.toNat, .word c.value.val] [] c.data rest
      hsize
  rw [NestedCall.decode, finAt_of_word htarget, boolAt_eq_some.mpr hallow, finAt_of_word hvalue,
    hdata]
  rfl

end GumServer
