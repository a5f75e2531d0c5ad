import Mathlib.Algebra.Ring.Nat
import Mathlib.Data.List.Induction

/-!
# Big-endian bytes

Byte strings are lists of `UInt8`. A number is written as a fixed count of bytes,
most significant first (`toBe`), and read back by `beNat`, which gives the number
up to the width. `slice?` is the bounds-checked range read every parser below is
built from: it answers `none` past the end instead of truncating.

Nothing here knows what the bytes mean.
-/

namespace Bytes

/-! ## Numbers as bytes -/

/-- The number a byte string spells, most significant byte first. -/
def beNat (bs : List UInt8) : ℕ := bs.foldl (fun n b => 256 * n + b.toNat) 0

/-- The `k` low bytes of `n`, most significant first. -/
def toBe : ℕ → ℕ → List UInt8
  | 0, _ => []
  | k + 1, n => toBe k (n / 256) ++ [UInt8.ofNat n]

@[simp] theorem beNat_nil : beNat [] = 0 := rfl

@[simp] theorem beNat_concat (bs : List UInt8) (b : UInt8) :
    beNat (bs ++ [b]) = 256 * beNat bs + b.toNat := by
  simp [beNat, List.foldl_append]

@[simp] theorem length_toBe (k n : ℕ) : (toBe k n).length = k := by
  induction k generalizing n with
  | zero => rfl
  | succ k ih => rw [toBe, List.length_append, ih, List.length_singleton]

/-- Reading back what was written keeps the low `k` bytes of the number. -/
theorem beNat_toBe (k n : ℕ) : beNat (toBe k n) = n % 256 ^ k := by
  induction k generalizing n with
  | zero => simp [toBe, Nat.mod_one]
  | succ k ih =>
    have hb : (UInt8.ofNat n).toNat = n % 256 := by simp
    rw [toBe, beNat_concat, ih, hb, Nat.pow_succ']
    rw [Nat.mod_mul]
    omega

theorem beNat_toBe_of_lt {k n : ℕ} (h : n < 256 ^ k) : beNat (toBe k n) = n := by
  rw [beNat_toBe, Nat.mod_eq_of_lt h]

theorem beNat_append (as bs : List UInt8) :
    beNat (as ++ bs) = 256 ^ bs.length * beNat as + beNat bs := by
  induction bs using List.reverseRecOn with
  | nil => simp
  | append_singleton bs b ih =>
    rw [← List.append_assoc, beNat_concat, ih, beNat_concat, List.length_append,
      List.length_singleton, Nat.pow_succ', Nat.mul_add, Nat.mul_assoc, Nat.add_assoc]

theorem beNat_lt (bs : List UInt8) : beNat bs < 256 ^ bs.length := by
  induction bs using List.reverseRecOn with
  | nil => simp
  | append_singleton bs b ih =>
    have hb := b.toNat_lt
    rw [beNat_concat, List.length_append, List.length_singleton, Nat.pow_succ]
    omega

/-- Only zeros spell nothing. -/
theorem beNat_eq_zero {bs : List UInt8} : beNat bs = 0 ↔ ∀ b ∈ bs, b = 0 := by
  induction bs using List.reverseRecOn with
  | nil => simp
  | append_singleton bs b ih =>
    have hb : b.toNat = 0 ↔ b = 0 := UInt8.toNat_inj (b := 0)
    rw [beNat_concat, Nat.add_eq_zero_iff, hb, Nat.mul_eq_zero, ih, List.forall_mem_append,
      List.forall_mem_singleton]
    simp

/-! ## Bounds-checked ranges -/

/-- `bytes.get(at .. at + n)`: the `n` elements from `at`, or `none` past the end. -/
def slice? {α : Type*} (bs : List α) (start n : ℕ) : Option (List α) :=
  if start + n ≤ bs.length then some ((bs.drop start).take n) else none

section Slice

variable {α : Type*} {bs : List α} {i n : ℕ} {s : List α}

theorem slice?_eq_some : slice? bs i n = some s ↔
    i + n ≤ bs.length ∧ (bs.drop i).take n = s := by
  simp [slice?]

theorem length_slice? (h : slice? bs i n = some s) : s.length = n := by
  obtain ⟨hle, rfl⟩ := slice?_eq_some.mp h
  rw [List.length_take, List.length_drop]
  omega

/-- A range that starts a known block reads that block. -/
theorem slice?_of_drop {w rest : List α} (hi : i ≤ bs.length) (h : bs.drop i = w ++ rest)
    (hn : w.length = n) : slice? bs i n = some w := by
  have hlen := congrArg List.length h
  rw [List.length_drop, List.length_append] at hlen
  refine slice?_eq_some.mpr ⟨by omega, ?_⟩
  rw [h, ← hn, List.take_left']
  rfl

/-- A range past a block is a range of what follows it. -/
theorem slice?_append {w rest : List α} (hw : w.length = i) (j : ℕ) :
    slice? (w ++ rest) (i + j) n = slice? rest j n := by
  subst hw
  have hdrop : (w ++ rest).drop (w.length + j) = rest.drop j := by
    rw [List.drop_append]
    simp
  simp only [slice?, List.length_append, hdrop]
  congr 1
  exact propext ⟨by omega, by omega⟩

/-- A range of what follows a position, counted from the position. -/
theorem slice?_drop (bs : List α) (start i : ℕ) (hn : 0 < n) :
    slice? (bs.drop start) i n = slice? bs (start + i) n := by
  simp only [slice?, List.length_drop, List.drop_drop]
  congr 1
  exact propext ⟨by omega, by omega⟩

/-- A range inside a block does not see what follows it. -/
theorem slice?_append_left {a b : List α} (h : i + n ≤ a.length) :
    slice? (a ++ b) i n = slice? a i n := by
  rw [slice?, slice?, if_pos h, if_pos (by rw [List.length_append]; omega),
    List.drop_append_of_le_length (by omega), List.take_append_of_le_length]
  rw [List.length_drop]
  omega

end Slice

end Bytes
