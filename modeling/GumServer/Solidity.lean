import GumServer.Bytes

/-!
# Solidity's ABI: heads and tails

A tuple is encoded as one word a part, then the parts that do not fit in a word: those are
`tail`s, and their word is the offset of their bytes from the start of the tuple. Arrays of
dynamic items are tuples behind a length; `bytes` is a length and the bytes, padded to whole
words.

Decoding follows the offsets and ignores what stands behind: every decoder below reads a
block it encoded back from the front of any longer one (`wordAt_encodeParts`,
`tailAt_encodeParts`, `decodeBytes_encodeBytes`, `decodeArray_encodeArray`), which is what
lets encodings nest. The one condition is that offsets fit in a word.
-/

namespace Solidity

open Bytes

/-! ## Tuples -/

/-- One part of a tuple: a number in its own word, or bytes behind an offset. -/
inductive Part : Type where
  /-- a static part -/
  | word : ℕ → Part
  /-- a dynamic part, already encoded -/
  | tail : List UInt8 → Part

/-- The dynamic parts, one after the other. -/
def tails : List Part → List UInt8
  | [] => []
  | .word _ :: ps => tails ps
  | .tail bs :: ps => bs ++ tails ps

/-- One word a part; `off` is where the next dynamic part starts. -/
def heads : ℕ → List Part → List UInt8
  | _, [] => []
  | off, .word n :: ps => toBe 32 n ++ heads off ps
  | off, .tail bs :: ps => toBe 32 off ++ heads (off + bs.length) ps

/-- A tuple: its words, then its dynamic parts. -/
def encodeParts (ps : List Part) : List UInt8 := heads (32 * ps.length) ps ++ tails ps

/-- The number in the `k`-th word of a block. -/
def wordAt (block : List UInt8) (k : ℕ) : Option ℕ := (slice? block (32 * k) 32).map beNat

/-- The block the `k`-th word of a block points to. -/
def tailAt (block : List UInt8) (k : ℕ) : Option (List UInt8) :=
  (wordAt block k).bind fun off => if off ≤ block.length then some (block.drop off) else none

section Tuples

variable {ps pre post : List Part} {rest bs : List UInt8} {n off : ℕ}

@[simp] theorem tails_append : tails (pre ++ post) = tails pre ++ tails post := by
  induction pre with
  | nil => rfl
  | cons p pre ih => cases p <;> simp [tails, ih]

@[simp] theorem length_heads (off : ℕ) (ps : List Part) :
    (heads off ps).length = 32 * ps.length := by
  induction ps generalizing off with
  | nil => rfl
  | cons p ps ih => cases p <;> simp [heads, ih, Nat.mul_succ, Nat.add_comm]

theorem length_encodeParts (ps : List Part) :
    (encodeParts ps).length = 32 * ps.length + (tails ps).length := by
  simp [encodeParts]

/-- The words split where the parts do; the running offset has passed the tails before. -/
theorem heads_append (off : ℕ) :
    heads off (pre ++ post) = heads off pre ++ heads (off + (tails pre).length) post := by
  induction pre generalizing off with
  | nil => rfl
  | cons p pre ih => cases p <;> simp [heads, tails, ih, Nat.add_assoc]

theorem slice?_zero {w : List UInt8} (hw : w.length = n) : slice? (w ++ rest) 0 n = some w :=
  slice?_of_drop (Nat.zero_le _) rfl hw

/-- The word of a part stands where its position says. -/
theorem slice?_head {w : List UInt8} (hw : w.length = 32) (off : ℕ)
    (hheads : heads (off + (tails pre).length) post = w ++ bs) :
    slice? (heads off (pre ++ post) ++ rest) (32 * pre.length) 32 = some w := by
  rw [heads_append, hheads, List.append_assoc, ← Nat.add_zero (32 * pre.length),
    slice?_append (length_heads off pre), List.append_assoc, slice?_zero hw]

theorem wordAt_encodeParts (hn : n < 2 ^ 256) :
    wordAt (encodeParts (pre ++ .word n :: post) ++ rest) pre.length = some n := by
  have hlt : n < 256 ^ 32 := Nat.lt_of_lt_of_eq hn (by decide)
  rw [wordAt, encodeParts, List.append_assoc, slice?_head (length_toBe 32 n) _ (by rw [heads]),
    Option.map_some, beNat_toBe_of_lt hlt]

/-- **A dynamic part** is found behind its offset, whatever follows the tuple. -/
theorem tailAt_encodeParts
    (hsize : (encodeParts (pre ++ .tail bs :: post)).length < 2 ^ 256) :
    tailAt (encodeParts (pre ++ .tail bs :: post) ++ rest) pre.length =
      some (bs ++ (tails post ++ rest)) := by
  have hle : 32 * (pre ++ .tail bs :: post).length + (tails pre).length ≤
      (encodeParts (pre ++ .tail bs :: post)).length := by
    have htails : (tails (pre ++ .tail bs :: post)).length =
        (tails pre).length + (tails (.tail bs :: post)).length := by
      rw [tails_append, List.length_append]
    rw [length_encodeParts]
    omega
  have hoff : 32 * (pre ++ .tail bs :: post).length + (tails pre).length < 256 ^ 32 :=
    Nat.lt_of_le_of_lt hle (Nat.lt_of_lt_of_eq hsize (by decide))
  have hword : wordAt (encodeParts (pre ++ .tail bs :: post) ++ rest) pre.length =
      some (32 * (pre ++ .tail bs :: post).length + (tails pre).length) := by
    rw [wordAt, encodeParts, List.append_assoc, slice?_head (length_toBe 32 _) _
      (by rw [heads]), Option.map_some, beNat_toBe_of_lt hoff]
  have hdrop : (encodeParts (pre ++ .tail bs :: post) ++ rest).drop
      (32 * (pre ++ .tail bs :: post).length + (tails pre).length) =
        bs ++ (tails post ++ rest) := by
    rw [encodeParts, tails_append, List.append_assoc, List.append_assoc, ← List.append_assoc,
      List.drop_left']
    · simp [tails]
    · simp
  have hfits : 32 * (pre ++ .tail bs :: post).length + (tails pre).length ≤
      (encodeParts (pre ++ .tail bs :: post) ++ rest).length :=
    Nat.le_trans hle (List.prefix_append _ _).length_le
  rw [tailAt, hword, Option.bind_some, if_pos hfits, hdrop]

end Tuples

/-! ## Byte strings -/

/-- How many zero bytes fill a byte string up to whole words. -/
def padding (n : ℕ) : ℕ := (32 - n % 32) % 32

/-- `bytes`: the length, the bytes, and zeros up to whole words. -/
def encodeBytes (bs : List UInt8) : List UInt8 :=
  toBe 32 bs.length ++ (bs ++ List.replicate (padding bs.length) 0)

/-- Read `bytes`; the zeros are not looked at. -/
def decodeBytes (block : List UInt8) : Option (List UInt8) :=
  (wordAt block 0).bind fun len => slice? block 32 len

section ByteStrings

variable {bs rest : List UInt8} {n : ℕ}

theorem length_encodeBytes (bs : List UInt8) :
    (encodeBytes bs).length = 32 + (bs.length + padding bs.length) := by
  simp [encodeBytes]

theorem wordAt_zero (hn : n < 2 ^ 256) : wordAt (toBe 32 n ++ rest) 0 = some n := by
  have hlt : n < 256 ^ 32 := Nat.lt_of_lt_of_eq hn (by decide)
  rw [wordAt, slice?_zero (length_toBe 32 n), Option.map_some, beNat_toBe_of_lt hlt]

theorem decodeBytes_encodeBytes (hbs : bs.length < 2 ^ 256) :
    decodeBytes (encodeBytes bs ++ rest) = some bs := by
  rw [decodeBytes, encodeBytes, List.append_assoc, wordAt_zero hbs, Option.bind_some,
    ← Nat.add_zero 32, slice?_append (length_toBe 32 bs.length), List.append_assoc,
    slice?_zero rfl]

end ByteStrings

/-! ## Arrays of dynamic items -/

section Arrays

variable {α : Type} (enc : α → List UInt8) (dec : List UInt8 → Option α)

/-- The tuple of the items. -/
def itemParts (xs : List α) : List Part := xs.map fun x => .tail (enc x)

/-- An array: the count, then the tuple of the items. -/
def encodeArray (xs : List α) : List UInt8 := toBe 32 xs.length ++ encodeParts (itemParts enc xs)

/-- Read so many items of a tuple, from the `k`-th on. -/
def decodeItems (body : List UInt8) : ℕ → ℕ → Option (List α)
  | _, 0 => some []
  | k, n + 1 => do
    let x ← (tailAt body k).bind dec
    let xs ← decodeItems body (k + 1) n
    some (x :: xs)

/-- Read an array. -/
def decodeArray (block : List UInt8) : Option (List α) :=
  (wordAt block 0).bind fun len => decodeItems dec (block.drop 32) 0 len

variable {enc dec}

theorem length_encodeArray (xs : List α) :
    (encodeArray enc xs).length = 32 + (encodeParts (itemParts enc xs)).length := by
  simp [encodeArray]

/-- The items from any position on, when each reads back from the front of a block. -/
theorem decodeItems_encodeParts {rest : List UInt8} {pre xs : List α}
    (hdec : ∀ x ∈ xs, ∀ rest, dec (enc x ++ rest) = some x)
    (hsize : (encodeParts (itemParts enc (pre ++ xs))).length < 2 ^ 256) :
    decodeItems dec (encodeParts (itemParts enc (pre ++ xs)) ++ rest) pre.length xs.length =
      some xs := by
  induction xs generalizing pre with
  | nil => rfl
  | cons x xs ih =>
    have hparts : itemParts enc (pre ++ x :: xs) =
        itemParts enc pre ++ .tail (enc x) :: itemParts enc xs := by
      simp [itemParts]
    have hlen : pre.length = (itemParts enc pre).length := by simp [itemParts]
    have htail : tailAt (encodeParts (itemParts enc (pre ++ x :: xs)) ++ rest) pre.length =
        some (enc x ++ (tails (itemParts enc xs) ++ rest)) := by
      rw [hparts, hlen]
      rw [hparts] at hsize
      exact tailAt_encodeParts hsize
    have happend : pre ++ x :: xs = pre ++ [x] ++ xs := by simp
    have hnext : decodeItems dec (encodeParts (itemParts enc (pre ++ [x] ++ xs)) ++ rest)
        (pre ++ [x]).length xs.length = some xs :=
      ih (fun y hy => hdec y (List.mem_cons_of_mem _ hy)) (happend ▸ hsize)
    rw [← happend, List.length_append, List.length_singleton] at hnext
    rw [List.length_cons, decodeItems, htail, Option.bind_some,
      hdec x (List.mem_cons_self ..), hnext]
    rfl

theorem decodeArray_encodeArray {rest : List UInt8} {xs : List α}
    (hdec : ∀ x ∈ xs, ∀ rest, dec (enc x ++ rest) = some x)
    (hlen : xs.length < 2 ^ 256)
    (hsize : (encodeParts (itemParts enc xs)).length < 2 ^ 256) :
    decodeArray dec (encodeArray enc xs ++ rest) = some xs := by
  rw [decodeArray, encodeArray, List.append_assoc, wordAt_zero hlen, Option.bind_some,
    List.drop_left' (length_toBe 32 _)]
  exact @decodeItems_encodeParts _ enc dec rest [] xs hdec hsize

end Arrays

/-! ## Parts that read back

An item of a tuple is written as a part and read by its position. `Reads` says that the two belong
together: wherever in a tuple the part stands, and whatever follows the tuple, reading that position
gives the item. It is what makes encodings compose: arrays and `bytes` are items again.
-/

/-- The `bytes` behind the `k`-th word of a block. -/
def bytesAt (block : List UInt8) (k : ℕ) : Option (List UInt8) := (tailAt block k).bind decodeBytes

section Lists

variable {α : Type} (part : α → Part) (item : List UInt8 → ℕ → Option α)

/-- An array of items of any kind: the count, then their tuple. -/
def encodeList (xs : List α) : List UInt8 := toBe 32 xs.length ++ encodeParts (xs.map part)

/-- Read so many items of a tuple, from the `k`-th on. -/
def itemsAt (body : List UInt8) : ℕ → ℕ → Option (List α)
  | _, 0 => some []
  | k, n + 1 => do
    let x ← item body k
    let xs ← itemsAt body (k + 1) n
    some (x :: xs)

/-- Read an array of items of any kind. -/
def decodeList (block : List UInt8) : Option (List α) :=
  (wordAt block 0).bind fun len => itemsAt item (block.drop 32) 0 len

/-- The array behind the `k`-th word of a block. -/
def listAt (block : List UInt8) (k : ℕ) : Option (List α) := (tailAt block k).bind (decodeList item)

/-- Reading the position of a part gives what the part was written for. -/
def Reads : Prop :=
  ∀ (pre post : List Part) (x : α) (rest : List UInt8),
    (encodeParts (pre ++ part x :: post)).length < 2 ^ 256 →
      item (encodeParts (pre ++ part x :: post) ++ rest) pre.length = some x

variable {part item}

theorem length_encodeList (xs : List α) :
    (encodeList part xs).length = 32 + (encodeParts (xs.map part)).length := by
  simp [encodeList]

/-- An item behind an offset, when it reads back from the front of its own block. -/
theorem reads_tail {enc : α → List UInt8} {dec : List UInt8 → Option α}
    (h : ∀ x rest, (enc x).length < 2 ^ 256 → dec (enc x ++ rest) = some x) :
    Reads (fun x => .tail (enc x)) fun block k => (tailAt block k).bind dec := by
  intro pre post x rest hsize
  have hx : (enc x).length < 2 ^ 256 := by
    rw [length_encodeParts, tails_append, tails] at hsize
    simp only [List.length_append] at hsize
    omega
  dsimp only at hsize ⊢
  rw [tailAt_encodeParts hsize, Option.bind_some, h x _ hx]

theorem reads_bytes : Reads (fun bs => .tail (encodeBytes bs)) bytesAt :=
  reads_tail fun bs rest hsize => decodeBytes_encodeBytes (by rw [length_encodeBytes] at hsize; omega)

/-- The part at a position of a whole tuple. -/
theorem Reads.part_at (h : Reads part item) {ps pre post : List Part} {x : α} {k : ℕ}
    (hps : ps = pre ++ part x :: post) (hk : k = pre.length)
    (hsize : (encodeParts ps).length < 2 ^ 256) : item (encodeParts ps) k = some x := by
  subst hps hk
  have hread := h pre post x [] hsize
  rwa [List.append_nil] at hread

/-- The items from any position on. -/
theorem Reads.itemsAt (h : Reads part item) {rest : List UInt8} {pre xs : List α}
    (hsize : (encodeParts ((pre ++ xs).map part)).length < 2 ^ 256) :
    itemsAt item (encodeParts ((pre ++ xs).map part) ++ rest) pre.length xs.length = some xs := by
  induction xs generalizing pre with
  | nil => rfl
  | cons x xs ih =>
    have happend : pre ++ x :: xs = pre ++ [x] ++ xs := by simp
    have hx : item (encodeParts ((pre ++ x :: xs).map part) ++ rest) pre.length = some x := by
      have hread := h (pre.map part) (xs.map part) x rest
      rw [← List.map_cons, ← List.map_append, List.length_map] at hread
      exact hread hsize
    have hxs := ih (by rwa [← happend])
    rw [← happend, List.length_append, List.length_singleton] at hxs
    rw [List.length_cons, Solidity.itemsAt, hx, hxs]
    rfl

/-- **Arrays nest**: an array of items that read back reads back. -/
theorem Reads.list (h : Reads part item) :
    Reads (fun xs => .tail (encodeList part xs)) (listAt item) := by
  refine reads_tail fun xs rest hsize => ?_
  rw [length_encodeList] at hsize
  have hcount : xs.length < 2 ^ 256 := by
    rw [length_encodeParts, List.length_map] at hsize
    omega
  have hitems := @Reads.itemsAt _ _ _ h rest [] xs (Nat.lt_of_le_of_lt (Nat.le_add_left _ _) hsize)
  rw [decodeList, encodeList, List.append_assoc, wordAt_zero hcount, Option.bind_some,
    List.drop_left' (length_toBe 32 _)]
  exact hitems

end Lists

end Solidity
