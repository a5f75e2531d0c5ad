import Mathlib.Algebra.Order.Ring.Int
import Mathlib.Order.Interval.Finset.Nat
import GumServer.Table

/-!
# A pool of workers

A pool has `w` permits and works through a queue in order. The job at the head starts as soon as a
permit is free, and each job gives its permit back within a time `d`, so the jobs start in rounds:
the one at position `i` no later than `i / w` rounds of `d` after the pool began. Which jobs end
early, and in which order, does not matter.

The reason is in `exists_oldest`: when the pool is full, one of its jobs is at least `w` positions
behind the head of the queue. That one started a round earlier, and its permit is about to be back.
-/

namespace Pool

/-- How many rounds a queue takes. -/
def rounds (w size : ℕ) : ℕ := (size + w - 1) / w

variable {S : Type} {position : S → ℕ}

/-- **The schedule**: a queue of `size` jobs of which `started` have been started, with those that
are `running`, at a time `now` after the pool began at `since`. -/
structure OnTime (startedAt : S → ℤ) (w : ℕ) (d : ℤ) (size : ℕ) (since now : ℤ) (started : ℕ)
    (running : Table position) : Prop where
  lt_started : ∀ s ∈ running.rows, position s < started
  startedAt_le : ∀ s ∈ running.rows, startedAt s ≤ since + (position s / w : ℕ) * d
  /-- no job keeps its permit for longer than `d` -/
  now_le : ∀ s ∈ running.rows, now ≤ startedAt s + d
  /-- the head of the queue is not late either -/
  next_le : started < size → now ≤ since + (started / w : ℕ) * d

/-- The time a number of rounds takes grows with them. -/
theorem add_rounds_le {since d : ℤ} {m n : ℕ} (hd : 0 ≤ d) (h : m ≤ n) :
    since + (m : ℤ) * d ≤ since + (n : ℤ) * d :=
  Int.add_le_add_left (Int.mul_le_mul_of_nonneg_right (Int.ofNat_le.mpr h) hd) since

theorem round_succ {since d : ℤ} {n : ℕ} :
    since + (n : ℤ) * d + d = since + ((n + 1 : ℕ) : ℤ) * d := by
  rw [Int.natCast_add, Int.add_mul, Int.natCast_one, Int.one_mul, Int.add_assoc]

/-- More jobs take no fewer rounds. -/
theorem rounds_mono (w : ℕ) {m n : ℕ} (h : m ≤ n) : rounds w m ≤ rounds w n :=
  Nat.div_le_div_right (by omega)

/-- Among `w` distinct positions before another one is one that is `w` before it. -/
theorem exists_oldest {w started : ℕ} {running : Table position} (hw : 0 < w)
    (hfull : w ≤ running.rows.length) (hlt : ∀ s ∈ running.rows, position s < started) :
    ∃ s ∈ running.rows, position s + w ≤ started := by
  by_contra hnone
  have hlate : ∀ s ∈ running.rows, started < position s + w := by
    intro s hs
    exact Nat.lt_of_not_le fun hle => hnone ⟨s, hs, hle⟩
  have hsub : (running.rows.map position).toFinset ⊆ Finset.Ico (started + 1 - w) started := by
    intro p hp
    obtain ⟨s, hs, rfl⟩ := List.mem_map.mp (List.mem_toFinset.mp hp)
    have h₁ := hlate s hs
    have h₂ := hlt s hs
    exact Finset.mem_Ico.mpr ⟨by omega, h₂⟩
  have hcard := Finset.card_le_card hsub
  rw [List.toFinset_card_of_nodup running.nodup, List.length_map, Nat.card_Ico] at hcard
  omega

section OnTime

variable {startedAt : S → ℤ} {w : ℕ} {d : ℤ} {size : ℕ} {since now : ℤ} {started : ℕ}
  {running running' : Table position}

/-- Nothing has been started yet. -/
theorem OnTime.init : OnTime startedAt w d size now now 0 (Table.empty : Table position) where
  lt_started := fun _ hs => nomatch hs
  startedAt_le := fun _ hs => nomatch hs
  now_le := fun _ hs => nomatch hs
  next_le := fun _ => by simp

/-- **Time passes** while nothing waits for a free permit and no job is overdue. -/
theorem OnTime.tick {now' : ℤ} (h : OnTime startedAt w d size since now started running)
    (hw : 0 < w) (hd : 0 ≤ d) (hbusy : size ≤ started ∨ w ≤ running.rows.length)
    (hdeadline : ∀ s ∈ running.rows, now' ≤ startedAt s + d) :
    OnTime startedAt w d size since now' started running where
  lt_started := h.lt_started
  startedAt_le := h.startedAt_le
  now_le := hdeadline
  next_le := by
    intro hnext
    have hfull : w ≤ running.rows.length := hbusy.resolve_left (Nat.not_le.mpr hnext)
    obtain ⟨s, hs, hold⟩ := exists_oldest hw hfull h.lt_started
    have hround : position s / w + 1 ≤ started / w := by
      rw [← Nat.add_div_right _ hw]
      exact Nat.div_le_div_right hold
    calc now' ≤ startedAt s + d := hdeadline s hs
      _ ≤ since + (position s / w : ℕ) * d + d := Int.add_le_add_right (h.startedAt_le s hs) d
      _ = since + ((position s / w + 1 : ℕ) : ℤ) * d := round_succ
      _ ≤ since + (started / w : ℕ) * d := add_rounds_le hd hround

/-- **The head of the queue starts.** -/
theorem OnTime.start {s : S} (h : OnTime startedAt w d size since now started running)
    (hd : 0 ≤ d) (hnext : started < size) (hposition : position s = started)
    (hstart : startedAt s = now) :
    OnTime startedAt w d size since now (started + 1) (running.put s) where
  lt_started := by
    intro s' hs'
    rcases List.mem_cons.mp hs' with rfl | hold
    · rw [hposition]
      exact Nat.lt_succ_self started
    · exact Nat.lt_succ_of_lt (h.lt_started s' (List.mem_of_mem_filter hold))
  startedAt_le := by
    intro s' hs'
    rcases List.mem_cons.mp hs' with rfl | hold
    · rw [hstart, hposition]
      exact h.next_le hnext
    · exact h.startedAt_le s' (List.mem_of_mem_filter hold)
  now_le := by
    intro s' hs'
    rcases List.mem_cons.mp hs' with rfl | hold
    · omega
    · exact h.now_le s' (List.mem_of_mem_filter hold)
  next_le := fun _ => (h.next_le hnext).trans
    (add_rounds_le hd (Nat.div_le_div_right (Nat.le_succ started)))

/-- **Jobs end**, and whatever else becomes of those that stay, they keep their place and start. -/
theorem OnTime.mono (h : OnTime startedAt w d size since now started running)
    (hsub : ∀ s' ∈ running'.rows, ∃ s ∈ running.rows,
      position s' = position s ∧ startedAt s' = startedAt s) :
    OnTime startedAt w d size since now started running' where
  lt_started := by
    intro s' hs'
    obtain ⟨s, hs, hposition, -⟩ := hsub s' hs'
    exact hposition ▸ h.lt_started s hs
  startedAt_le := by
    intro s' hs'
    obtain ⟨s, hs, hposition, hstart⟩ := hsub s' hs'
    rw [hposition, hstart]
    exact h.startedAt_le s hs
  now_le := by
    intro s' hs'
    obtain ⟨s, hs, -, hstart⟩ := hsub s' hs'
    rw [hstart]
    exact h.now_le s hs
  next_le := h.next_le

/-- **While anything is left to do**, running or waiting, the rounds of the queue are not over. -/
theorem OnTime.now_le_rounds (h : OnTime startedAt w d size since now started running)
    (hw : 0 < w) (hd : 0 ≤ d) (hsize : started ≤ size)
    (hleft : running.rows ≠ [] ∨ started < size) : now ≤ since + (rounds w size : ℕ) * d := by
  have hlast : ∀ {p : ℕ}, p < size → p / w + 1 ≤ rounds w size := by
    intro p hp
    rw [← Nat.add_div_right _ hw, rounds]
    exact Nat.div_le_div_right (by omega)
  rcases hleft with hrunning | hnext
  · obtain ⟨s, hs⟩ := List.exists_mem_of_ne_nil _ hrunning
    have hround := hlast (Nat.lt_of_lt_of_le (h.lt_started s hs) hsize)
    calc now ≤ startedAt s + d := h.now_le s hs
      _ ≤ since + (position s / w : ℕ) * d + d := Int.add_le_add_right (h.startedAt_le s hs) d
      _ = since + ((position s / w + 1 : ℕ) : ℤ) * d := round_succ
      _ ≤ since + (rounds w size : ℕ) * d := add_rounds_le hd hround
  · exact (h.next_le hnext).trans
      (add_rounds_le hd ((Nat.le_succ _).trans (hlast hnext)))

end OnTime

end Pool
