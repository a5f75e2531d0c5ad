import GumServer.Chrono

/-!
# Signed numbers, and legible text

`i64` and its text: a number is read back from what `to_string` makes of it (`I64.parse_toString`).
Numbers and hex are legible (`Legible`): no white space to trim and no separator to split at, so a
text that is put together from them comes apart as it was put together (`splitOnce_append`).
-/

namespace GumServer

/-! ## `i64` -/

/-- A number an `i64` can hold. -/
def InI64 (n : ℤ) : Prop := -2 ^ 63 ≤ n ∧ n < 2 ^ 63

instance (n : ℤ) : Decidable (InI64 n) := inferInstanceAs (Decidable (_ ∧ _))

/-- `i64`. -/
@[ext] structure I64 where
  val : ℤ
  inRange : InI64 val
deriving DecidableEq

namespace I64

/-- The number, when an `i64` can hold it. -/
def ofInt? (n : ℤ) : Option I64 := if h : InI64 n then some ⟨n, h⟩ else none

/-- The low 64 bits of a number, as a signed one. -/
def wrap (n : ℤ) : I64 :=
  ⟨(n + 2 ^ 63) % 2 ^ 64 - 2 ^ 63, by
    have hlow := Int.emod_nonneg (n + 2 ^ 63) (b := 2 ^ 64) (by decide)
    have hhigh := Int.emod_lt_of_pos (n + 2 ^ 63) (b := 2 ^ 64) (by decide)
    exact ⟨by omega, by omega⟩⟩

theorem ofInt?_of_inRange {n : ℤ} (h : InI64 n) : ofInt? n = some ⟨n, h⟩ := dif_pos h

theorem ofInt?_eq_none {n : ℤ} : ofInt? n = none ↔ ¬ InI64 n := by
  rw [ofInt?]
  split <;> simp_all

theorem wrap_of_inRange {n : ℤ} (h : InI64 n) : wrap n = ⟨n, h⟩ := by
  obtain ⟨hlow, hhigh⟩ := h
  apply I64.ext
  simp only [wrap]
  rw [Int.emod_eq_of_lt (by omega) (by omega)]
  omega

/-- `str::parse::<i64>`: an optional sign, then decimal digits. -/
def parse (cs : List Char) : Option I64 :=
  let (negative, digits) := match cs with
    | '-' :: cs => (true, cs)
    | '+' :: cs => (false, cs)
    | cs => (false, cs)
  if digits ≠ [] ∧ digits.all Char.isDigit then
    ofInt? (if negative then -(Nat.ofDigitChars 10 digits 0 : ℤ) else Nat.ofDigitChars 10 digits 0)
  else none

end I64

section Parse

variable {cs : List Char}

/-- Digits spell their number, -/
theorem I64.parse_digits (hne : cs ≠ []) (hall : cs.all Char.isDigit = true) :
    I64.parse cs = I64.ofInt? (Nat.ofDigitChars 10 cs 0 : ℕ) := by
  rw [I64.parse]
  · simp [hne, hall]
  · rintro cs' rfl
    simp at hall
  · rintro cs' rfl
    simp at hall

/-- and with a sign its negative. -/
theorem I64.parse_minus (hne : cs ≠ []) (hall : cs.all Char.isDigit = true) :
    I64.parse ('-' :: cs) = I64.ofInt? (-(Nat.ofDigitChars 10 cs 0 : ℕ)) := by
  simp [I64.parse, hne, hall]

/-- A number read back from its own text. -/
theorem I64.parse_toString (n : I64) : I64.parse (toString n.val).toList = some n := by
  obtain ⟨val, hval⟩ := n
  cases val with
  | ofNat m =>
    have htext : (toString (Int.ofNat m)).toList = Nat.toDigits 10 m := by
      rw [show toString (Int.ofNat m) = m.repr from rfl, Nat.repr_eq_ofList_toDigits,
        String.toList_ofList]
    rw [htext, I64.parse_digits Nat.toDigits_ne_nil (all_isDigit_toDigits m),
      Nat.ofDigitChars_ten_toDigits]
    exact I64.ofInt?_of_inRange hval
  | negSucc m =>
    have htext : (toString (Int.negSucc m)).toList = '-' :: Nat.toDigits 10 (m + 1) := by
      rw [show toString (Int.negSucc m) = "-" ++ (m + 1).repr from rfl,
        Nat.repr_eq_ofList_toDigits, String.toList_append]
      simp
    rw [htext, I64.parse_minus Nat.toDigits_ne_nil (all_isDigit_toDigits (m + 1)),
      Nat.ofDigitChars_ten_toDigits]
    exact I64.ofInt?_of_inRange hval

end Parse

/-! ## Text that is put together -/

/-- `str::split_once`, on characters. -/
def splitOnce (c : Char) : List Char → Option (List Char × List Char)
  | [] => none
  | x :: xs => if x = c then some ([], xs) else (splitOnce c xs).map fun p => (x :: p.1, p.2)

theorem splitOnce_append {c : Char} {key v : List Char} (h : c ∉ key) :
    splitOnce c (key ++ c :: v) = some (key, v) := by
  induction key with
  | nil => simp [splitOnce]
  | cons x xs ih =>
    simp only [List.mem_cons, not_or] at h
    simp [splitOnce, Ne.symm h.1, ih h.2]

theorem trim_of_no_whitespace {cs : List Char} (h : ∀ c ∈ cs, isWhitespace c = false) :
    trim (String.ofList cs) = String.ofList cs := by
  have hdrop {cs : List Char} (h : ∀ c ∈ cs, isWhitespace c = false) :
      cs.dropWhile isWhitespace = cs := by
    cases cs with
    | nil => rfl
    | cons c cs => simp [h c (List.mem_cons_self)]
  rw [trim, String.toList_ofList, hdrop h, hdrop, List.reverse_reverse]
  intro c hc
  exact h c (List.mem_reverse.mp hc)

/-- A character that is neither a comma nor a blank. -/
def Legible (c : Char) : Prop := 45 ≤ c.toNat ∧ c.toNat < 127

theorem Legible.not_whitespace {c : Char} (h : Legible c) : isWhitespace c = false := by
  obtain ⟨hlow, hhigh⟩ := h
  rw [Bool.eq_false_iff]
  intro hspace
  simp only [isWhitespace, Bool.or_eq_true, Bool.and_eq_true, decide_eq_true_eq, beq_iff_eq]
    at hspace
  omega

theorem Legible.ne_comma {c : Char} (h : Legible c) : ',' ≠ c := by
  rintro rfl
  exact absurd h.1 (by decide)

theorem legible_of_isHexDigit {c : Char} (h : isHexDigit c = true) : Legible c := by
  rw [isHexDigit, hexVal] at h
  by_contra hnot
  rw [Legible] at hnot
  rw [if_neg (by omega), if_neg (by omega), if_neg (by omega)] at h
  cases h

theorem legible_of_isDigit {c : Char} (h : c.isDigit = true) : Legible c := by
  simp only [Char.isDigit, Bool.and_eq_true, decide_eq_true_eq, ge_iff_le,
    UInt32.le_iff_toNat_le] at h
  have hval : c.toNat = c.val.toNat := rfl
  have hzero : ('0' : Char).val.toNat = 48 := rfl
  have hnine : ('9' : Char).val.toNat = 57 := rfl
  rw [Legible]
  omega

theorem legible_hexChars (bs : List UInt8) : ∀ c ∈ hexChars bs, Legible c := by
  intro c hc
  have hall := (all_isHexDigit_of_unhex (unhex_hexChars bs)).1
  exact legible_of_isHexDigit (List.all_eq_true.mp hall c hc)

theorem legible_toString (n : ℤ) : ∀ c ∈ (toString n).toList, Legible c := by
  have hdigits (m : ℕ) : ∀ c ∈ m.repr.toList, Legible c := by
    intro c hc
    rw [Nat.repr_eq_ofList_toDigits, String.toList_ofList] at hc
    exact legible_of_isDigit (List.all_eq_true.mp (all_isDigit_toDigits m) c hc)
  cases n with
  | ofNat m => exact hdigits m
  | negSucc m =>
    intro c hc
    rw [show toString (Int.negSucc m) = "-" ++ (m + 1).repr from rfl, String.toList_append] at hc
    rcases List.mem_append.mp hc with hminus | hc
    · obtain rfl := List.mem_singleton.mp hminus
      exact ⟨by decide, by decide⟩
    · exact hdigits (m + 1) c hc

end GumServer
