import GumServer.Bytes

/-!
# Fixed-width integers and Rust strings

The machine integers of the source are `Fin`s of their own width, so a wrapped sum
is a different number from the exact one and an overflow check is a comparison.
Strings are Lean strings read as lists of characters; `byteLen` is Rust's `len()`.

The string functions here are the standard library's (`trim`, `to_ascii_lowercase`,
`parse::<u64>`), with Rust's conventions where they differ from Lean's: `trim`
strips Unicode white space, and `parse::<u64>` takes a leading `+`.

Hexadecimal text is spelled by `hexChars` and read by `unhex`, which takes digits of
either case; `unhex_hexChars` and `unhex_map_toLower` are all the rest needs.
-/

namespace GumServer

open Bytes

/-! ## Fixed-width integers -/

/-- `alloy_primitives::U256`. -/
abbrev U256 : Type := Fin (2 ^ 256)

/-- `alloy_primitives::Address`, as the number its twenty bytes spell. -/
abbrev Address : Type := Fin (2 ^ 160)

/-- `alloy_primitives::B256`, as the number its thirty-two bytes spell. -/
abbrev B256 : Type := Fin (2 ^ 256)

/-- A `u64`. -/
abbrev U64 : Type := Fin (2 ^ 64)

-- the numerals of each width rest on one instance
instance U256.instNeZero : NeZero (2 ^ 256) := ⟨by decide⟩

instance Address.instNeZero : NeZero (2 ^ 160) := ⟨by decide⟩

instance U64.instNeZero : NeZero (2 ^ 64) := ⟨by decide⟩

/-- `checked_add` at width `2 ^ w`: `none` on overflow. -/
def checkedAdd {w : ℕ} (a b : Fin (2 ^ w)) : Option (Fin (2 ^ w)) :=
  if h : a.val + b.val < 2 ^ w then some ⟨a.val + b.val, h⟩ else none

theorem checkedAdd_eq_some {w : ℕ} {a b c : Fin (2 ^ w)} :
    checkedAdd a b = some c ↔ c.val = a.val + b.val := by
  rw [checkedAdd]
  split
  · rw [Option.some.injEq, Fin.ext_iff]
    exact eq_comm
  · have := c.isLt
    constructor
    · intro h
      cases h
    · intro h
      omega

/-- A missing amount counts as nothing. -/
theorem val_getD_zero (o : Option U256) : (o.getD 0).val = (o.map Fin.val).getD 0 := by
  cases o <;> rfl

/-- `U256::MAX`. -/
def U256.MAX : U256 := ⟨2 ^ 256 - 1, by decide⟩

/-- The address a byte string spells, from its last twenty bytes. -/
def Address.ofBytes (bs : List UInt8) : Address :=
  ⟨beNat bs % 2 ^ 160, Nat.mod_lt _ (by decide)⟩

/-- `U256::from_be_slice`. -/
def U256.ofBytes (bs : List UInt8) : U256 :=
  ⟨beNat bs % 2 ^ 256, Nat.mod_lt _ (by decide)⟩

/-- The twenty bytes of an address. -/
def Address.toBytes (a : Address) : List UInt8 := toBe 20 a.val

/-- The thirty-two bytes of a word. -/
def B256.toBytes (w : B256) : List UInt8 := toBe 32 w.val

@[simp] theorem Address.length_toBytes (a : Address) : a.toBytes.length = 20 := length_toBe 20 _

@[simp] theorem B256.length_toBytes (w : B256) : (B256.toBytes w).length = 32 := length_toBe 32 _

@[simp] theorem Address.ofBytes_toBytes (a : Address) : Address.ofBytes a.toBytes = a := by
  apply Fin.ext
  have ha : a.val < 256 ^ 20 := a.isLt
  simp only [Address.ofBytes, Address.toBytes, beNat_toBe_of_lt ha]
  exact Nat.mod_eq_of_lt a.isLt

@[simp] theorem U256.ofBytes_toBytes (w : B256) : U256.ofBytes (B256.toBytes w) = w := by
  apply Fin.ext
  have hw : w.val < 256 ^ 32 := w.isLt
  simp only [U256.ofBytes, B256.toBytes, beNat_toBe_of_lt hw]
  exact Nat.mod_eq_of_lt w.isLt

/-! ## The standard library's strings -/

/-- `str::len`: the length in UTF-8 bytes. -/
def byteLen (s : String) : ℕ := s.utf8ByteSize

/-- `char::is_whitespace`: Unicode's `White_Space`. -/
def isWhitespace (c : Char) : Bool :=
  (9 ≤ c.toNat && c.toNat ≤ 13) || c.toNat == 0x20 || c.toNat == 0x85 || c.toNat == 0xa0 ||
  c.toNat == 0x1680 || (0x2000 ≤ c.toNat && c.toNat ≤ 0x200a) || c.toNat == 0x2028 ||
  c.toNat == 0x2029 || c.toNat == 0x202f || c.toNat == 0x205f || c.toNat == 0x3000

/-- `str::trim`. -/
def trim (s : String) : String :=
  String.ofList ((s.toList.dropWhile isWhitespace).reverse.dropWhile isWhitespace).reverse

/-- `str::to_ascii_lowercase`. -/
def toAsciiLowercase (s : String) : String := String.ofList (s.toList.map Char.toLower)

/-- `str::to_ascii_uppercase`. -/
def toAsciiUppercase (s : String) : String := String.ofList (s.toList.map Char.toUpper)

/-- `str::eq_ignore_ascii_case`. -/
def eqIgnoreAsciiCase (s t : String) : Bool := toAsciiLowercase s == toAsciiLowercase t

/-- `str::strip_prefix("0x")`, on characters. -/
def strip0x : List Char → Option (List Char)
  | '0' :: 'x' :: cs => some cs
  | _ => none

theorem strip0x_eq_some {cs rest : List Char} :
    strip0x cs = some rest ↔ cs = '0' :: 'x' :: rest := by
  simp only [strip0x]
  constructor
  · intro h
    split at h
    · rw [Option.some.inj h]
    · cases h
  · rintro rfl
    rfl

/-- `str::parse::<u64>`: an optional `+`, then decimal digits, at most `u64::MAX`. -/
def parseU64 (s : String) : Option U64 :=
  let digits := match s.toList with
    | '+' :: cs => cs
    | cs => cs
  if h : Nat.ofDigitChars 10 digits 0 < 2 ^ 64 then
    if digits ≠ [] ∧ digits.all Char.isDigit then some ⟨Nat.ofDigitChars 10 digits 0, h⟩ else none
  else none

theorem all_isDigit_toDigits (n : ℕ) : (Nat.toDigits 10 n).all Char.isDigit = true := by
  rw [List.all_eq_true]
  intro c hc
  exact Nat.isDigit_of_mem_toDigits (by decide) (by decide) hc

/-! ## Hexadecimal -/

/-- The value of a hex digit of either case. -/
def hexVal (c : Char) : Option ℕ :=
  if 48 ≤ c.toNat ∧ c.toNat ≤ 57 then some (c.toNat - 48)
  else if 97 ≤ c.toNat ∧ c.toNat ≤ 102 then some (c.toNat - 87)
  else if 65 ≤ c.toNat ∧ c.toNat ≤ 70 then some (c.toNat - 55)
  else none

/-- `u8::is_ascii_hexdigit`, on characters: the bytes of any other character are not ASCII. -/
def isHexDigit (c : Char) : Bool := (hexVal c).isSome

/-- Pairs of hex digits of either case, read as bytes; an odd digit or any other
character is a refusal. -/
def unhex : List Char → Option (List UInt8)
  | [] => some []
  | [_] => none
  | a :: b :: rest =>
    match hexVal a, hexVal b with
    | some x, some y => (unhex rest).map (UInt8.ofNat (16 * x + y) :: ·)
    | _, _ => none

/-- `hex::encode`: two lowercase digits a byte. -/
def hexChars : List UInt8 → List Char
  | [] => []
  | b :: bs => Nat.digitChar (b.toNat / 16) :: Nat.digitChar (b.toNat % 16) :: hexChars bs

/-- Bytes as `0x` and lowercase hex: `{:#x}` of an address or a hash, `to_string` of `Bytes`. -/
def lowerHex (bs : List UInt8) : String := String.ofList ('0' :: 'x' :: hexChars bs)

/-- `{address:#x}`. -/
def Address.lowerHex (a : Address) : String := GumServer.lowerHex a.toBytes

theorem hexVal_digitChar {n : ℕ} (h : n < 16) : hexVal (Nat.digitChar n) = some n := by
  revert n
  decide

theorem unhex_hexChars (bs : List UInt8) : unhex (hexChars bs) = some bs := by
  induction bs with
  | nil => rfl
  | cons b bs ih =>
    have hb := b.toNat_lt
    have hsplit : 16 * (b.toNat / 16) + b.toNat % 16 = b.toNat := by omega
    rw [hexChars, unhex, hexVal_digitChar (by omega), hexVal_digitChar (by omega), ih]
    simp [hsplit]

/-- `char::to_ascii_lowercase` moves the capitals up by 32 and nothing else. -/
theorem toNat_toLower (c : Char) :
    c.toLower.toNat = if 65 ≤ c.toNat ∧ c.toNat ≤ 90 then c.toNat + 32 else c.toNat := by
  have hval : c.toNat = c.val.toNat := rfl
  have hcond : (c.val ≥ 'A'.val ∧ c.val ≤ 'Z'.val) ↔ (65 ≤ c.toNat ∧ c.toNat ≤ 90) := by
    rw [hval]
    exact Iff.rfl
  unfold Char.toLower
  split
  · next h =>
    obtain ⟨h65, h90⟩ := hcond.mp h
    rw [if_pos (hcond.mp h)]
    change (c.val + ('a'.val - 'A'.val)).toNat = c.toNat + 32
    rw [UInt32.toNat_add, ← hval]
    simp
    omega
  · next h => rw [if_neg (mt hcond.mpr h)]

/-- Lowercasing a digit does not change what it spells. -/
theorem hexVal_toLower (c : Char) : hexVal c.toLower = hexVal c := by
  simp only [hexVal, toNat_toLower]
  split_ifs <;> first | omega | rfl

theorem unhex_map_toLower (cs : List Char) : unhex (cs.map Char.toLower) = unhex cs := by
  induction cs using unhex.induct with
  | case1 => rfl
  | case2 c => rfl
  | case3 a b rest x y hx hy ih =>
    simp only [List.map_cons, unhex, hexVal_toLower, hx, hy, ih]
  | case4 a b rest hnone =>
    simp only [List.map_cons, unhex, hexVal_toLower]

/-! ### Lengths of hex text -/

theorem byteLen_cons (c : Char) (cs : List Char) :
    byteLen (String.ofList (c :: cs)) = c.utf8Size + byteLen (String.ofList cs) := by
  simp only [byteLen]
  rw [← List.singleton_append, String.ofList_append, String.utf8ByteSize_append]
  simp

theorem utf8Size_of_isHexDigit {c : Char} (h : isHexDigit c = true) : c.utf8Size = 1 := by
  rw [Char.utf8Size_eq_one_iff]
  rw [isHexDigit, hexVal] at h
  have hval : c.toNat = c.val.toNat := rfl
  rw [UInt32.le_iff_toNat_le, ← hval]
  have : c.toNat ≤ 102 := by
    by_contra hlt
    rw [if_neg (by omega), if_neg (by omega), if_neg (by omega)] at h
    cases h
  exact Nat.le_trans this (by decide)

theorem byteLen_of_hex {cs : List Char} (h : cs.all isHexDigit = true) :
    byteLen (String.ofList cs) = cs.length := by
  induction cs with
  | nil => rfl
  | cons c cs ih =>
    rw [List.all_cons, Bool.and_eq_true] at h
    rw [byteLen_cons, utf8Size_of_isHexDigit h.1, ih h.2, List.length_cons, Nat.add_comm]

/-- Text that decodes is hex digits only, two a byte. -/
theorem all_isHexDigit_of_unhex {cs : List Char} {bs : List UInt8} (h : unhex cs = some bs) :
    cs.all isHexDigit = true ∧ cs.length = 2 * bs.length := by
  induction cs using unhex.induct generalizing bs with
  | case1 =>
    obtain rfl := Option.some.inj h
    exact ⟨rfl, rfl⟩
  | case2 c => cases h
  | case3 a b rest x y hx hy ih =>
    simp only [unhex, hx, hy, Option.map_eq_some_iff] at h
    obtain ⟨bs', hbs', rfl⟩ := h
    obtain ⟨hall, hlen⟩ := ih hbs'
    refine ⟨?_, ?_⟩
    · simp only [List.all_cons, isHexDigit, hx, hy, Option.isSome_some, Bool.true_and]
      exact hall
    · simp only [List.length_cons]
      omega
  | case4 a b rest hnone =>
    simp only [unhex] at h
    cases h

theorem unhex_take {cs : List Char} {bs : List UInt8} (h : unhex cs = some bs) (n : ℕ) :
    unhex (cs.take (2 * n)) = some (bs.take n) := by
  induction cs using unhex.induct generalizing bs n with
  | case1 =>
    obtain rfl := Option.some.inj h
    simp [unhex]
  | case2 c => cases h
  | case3 a b rest x y hx hy ih =>
    simp only [unhex, hx, hy, Option.map_eq_some_iff] at h
    obtain ⟨bs', hbs', rfl⟩ := h
    cases n with
    | zero => rfl
    | succ n =>
      rw [Nat.mul_succ, List.take_succ_cons, List.take_succ_cons, List.take_succ_cons, unhex, hx, hy,
        ih hbs' n]
      rfl
  | case4 a b rest hnone =>
    simp only [unhex] at h
    cases h

/-! ## Texts as bytes -/

theorem toList_loop_eq (bs : ByteArray) (i : ℕ) (r : List UInt8) :
    ByteArray.toList.loop bs i r = r.reverse ++ bs.data.toList.drop i := by
  fun_induction ByteArray.toList.loop bs i r with
  | case1 i r hi ih =>
    have hlt : i < bs.data.toList.length := by simpa using hi
    rw [ih, List.reverse_cons, List.append_assoc, List.drop_eq_getElem_cons hlt]
    simp [ByteArray.get!, hi]
  | case2 i r hi =>
    have hle : bs.data.toList.length ≤ i := by simpa using hi
    rw [List.drop_eq_nil_of_le hle, List.append_nil]

/-- The bytes of an array, as a list and back. -/
theorem toByteArray_toList (bs : ByteArray) : bs.toList.toByteArray = bs := by
  refine ByteArray.ext ?_
  rw [List.data_toByteArray, ByteArray.toList, toList_loop_eq]
  simp

/-- A text is read back from its bytes. -/
theorem fromUTF8?_toUTF8_toList (s : String) :
    String.fromUTF8? s.toUTF8.toList.toByteArray = some s := by
  rw [toByteArray_toList, String.fromUTF8?]
  exact dif_pos s.isValidUTF8

/-- No two texts have the same bytes. -/
theorem toUTF8_toList_injective {s t : String} (h : s.toUTF8.toList = t.toUTF8.toList) : s = t := by
  have hread := fromUTF8?_toUTF8_toList s
  rw [h, fromUTF8?_toUTF8_toList] at hread
  exact (Option.some.inj hread).symm

end GumServer
