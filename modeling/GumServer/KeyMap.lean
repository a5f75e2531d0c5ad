import Mathlib.Algebra.BigOperators.Group.Finset.Basic
import Mathlib.Algebra.Order.BigOperators.Group.Finset
import Mathlib.Algebra.Ring.Nat

/-!
# Maps from keys to amounts

A map is a list of entries with distinct keys. The distinctness is a field, so an entry
is counted once by construction and `total` is a sum over keys: `total_put` says what
one write does to it, `sum_le_total` compares it with a sum over any set of keys.

The order of the entries carries no meaning and nothing below depends on it.
-/

/-- A finite map with one entry a key. -/
structure KeyMap (K V : Type) where
  entries : List (K × V)
  /-- one entry a key -/
  nodup : (entries.map Prod.fst).Nodup
deriving DecidableEq

namespace KeyMap

variable {K V : Type} [DecidableEq K]

/-- The map without entries. -/
def empty : KeyMap K V := ⟨[], List.nodup_nil⟩

/-- The value at a key. -/
def get? (m : KeyMap K V) (k : K) : Option V := m.entries.lookup k

/-- The values, one a key. -/
def values (m : KeyMap K V) : List V := m.entries.map Prod.snd

/-- The entries of every other key. -/
def others (m : KeyMap K V) (k : K) : List (K × V) := m.entries.filter fun e => e.1 ≠ k

theorem nodup_others (m : KeyMap K V) (k : K) :
    ((k :: (m.others k).map Prod.fst)).Nodup := by
  refine List.nodup_cons.mpr ⟨?_, ?_⟩
  · intro hmem
    obtain ⟨e, he, rfl⟩ := List.mem_map.mp hmem
    exact of_decide_eq_true (List.mem_filter.mp he).2 rfl
  · exact (List.filter_sublist.map Prod.fst).nodup m.nodup

/-- Write one key, whether or not it is there. -/
def put (m : KeyMap K V) (k : K) (v : V) : KeyMap K V :=
  ⟨(k, v) :: m.others k, m.nodup_others k⟩

/-- Forget one key. -/
def erase (m : KeyMap K V) (k : K) : KeyMap K V :=
  ⟨m.others k, (List.nodup_cons.mp (m.nodup_others k)).2⟩

/-- The entries that pass a test. -/
def filter (m : KeyMap K V) (p : K × V → Bool) : KeyMap K V :=
  ⟨m.entries.filter p, (List.filter_sublist.map Prod.fst).nodup m.nodup⟩

/-- Change every value. -/
def map {W : Type} (f : V → W) (m : KeyMap K V) : KeyMap K W :=
  ⟨m.entries.map fun e => (e.1, f e.2), by
    rw [List.map_map]
    exact m.nodup⟩

/-- The sum of a measure of the values. -/
def total (f : V → ℕ) (m : KeyMap K V) : ℕ := (m.entries.map fun e => f e.2).sum

@[simp] theorem get?_empty (k : K) : (empty : KeyMap K V).get? k = none := rfl

omit [DecidableEq K] in
@[simp] theorem total_empty (f : V → ℕ) : (empty : KeyMap K V).total f = 0 := rfl

@[simp] theorem get?_put_self (m : KeyMap K V) (k : K) (v : V) : (m.put k v).get? k = some v := by
  simp [get?, put]

theorem lookup_filter_ne {entries : List (K × V)} {k k' : K} (h : k' ≠ k) :
    (entries.filter fun e => e.1 ≠ k).lookup k' = entries.lookup k' := by
  induction entries with
  | nil => rfl
  | cons e entries ih =>
    obtain ⟨a, v⟩ := e
    by_cases hk : a = k
    · subst hk
      rw [List.filter_cons_of_neg (by simp), ih, List.lookup_cons]
      rw [beq_eq_false_iff_ne.mpr h]
    · rw [List.filter_cons_of_pos (by simpa using hk), List.lookup_cons, List.lookup_cons, ih]

@[simp] theorem get?_put_ne (m : KeyMap K V) {k k' : K} (v : V) (h : k' ≠ k) :
    (m.put k v).get? k' = m.get? k' := by
  rw [get?, put, List.lookup_cons, beq_eq_false_iff_ne.mpr h]
  exact lookup_filter_ne h

theorem get?_put (m : KeyMap K V) (k k' : K) (v : V) :
    (m.put k v).get? k' = if k' = k then some v else m.get? k' := by
  split
  · next h => rw [h, get?_put_self]
  · next h => rw [get?_put_ne m v h]

@[simp] theorem get?_erase_self (m : KeyMap K V) (k : K) : (m.erase k).get? k = none := by
  rw [get?, erase, List.lookup_eq_none_iff]
  intro e he
  have hne := of_decide_eq_true (List.mem_filter.mp he).2
  exact bne_iff_ne.mpr (Ne.symm hne)

theorem get?_erase_ne (m : KeyMap K V) {k k' : K} (h : k' ≠ k) :
    (m.erase k).get? k' = m.get? k' := lookup_filter_ne h

theorem get?_erase (m : KeyMap K V) (k k' : K) :
    (m.erase k).get? k' = if k' = k then none else m.get? k' := by
  split
  · next h => rw [h, get?_erase_self]
  · next h => rw [get?_erase_ne m h]

@[simp] theorem get?_map {W : Type} (f : V → W) (m : KeyMap K V) (k : K) :
    (m.map f).get? k = (m.get? k).map f := by
  obtain ⟨entries, hnd⟩ := m
  simp only [get?, map]
  induction entries with
  | nil => rfl
  | cons e entries ih =>
    rw [List.map_cons, List.lookup_cons, List.lookup_cons]
    cases k == e.1 with
    | true => rfl
    | false => exact ih (List.nodup_cons.mp hnd).2

/-- Nothing is found under a key that no entry has. -/
theorem lookup_eq_none {entries : List (K × V)} {k : K} (h : k ∉ entries.map Prod.fst) :
    entries.lookup k = none := by
  refine List.lookup_eq_none_iff.mpr ?_
  intro e he
  refine bne_iff_ne.mpr ?_
  rintro rfl
  exact h (List.mem_map_of_mem he)

/-- A filter asks about the one entry of a key. -/
theorem get?_filter (m : KeyMap K V) (p : K × V → Bool) (k : K) :
    (m.filter p).get? k = (m.get? k).filter fun v => p (k, v) := by
  obtain ⟨entries, hnd⟩ := m
  simp only [filter, get?]
  induction entries with
  | nil => rfl
  | cons e entries ih =>
    obtain ⟨a, v⟩ := e
    rw [List.map_cons, List.nodup_cons] at hnd
    rw [List.lookup_cons]
    by_cases hk : k = a
    · subst hk
      have hnone : (entries.filter p).lookup k = none :=
        lookup_eq_none fun hmem => hnd.1 ((List.filter_sublist.map Prod.fst).subset hmem)
      by_cases hp : p (k, v) = true
      · simp [List.filter_cons_of_pos hp, Option.filter_some, hp]
      · simp [List.filter_cons_of_neg hp, Option.filter_some, hp, hnone]
    · rw [beq_eq_false_iff_ne.mpr hk, ← ih hnd.2]
      by_cases hp : p (a, v) = true
      · rw [List.filter_cons_of_pos hp, List.lookup_cons, beq_eq_false_iff_ne.mpr hk]
      · rw [List.filter_cons_of_neg hp]

/-- Nothing is found under a key without an entry. -/
theorem get?_eq_none {m : KeyMap K V} {k : K} (h : k ∉ m.entries.map Prod.fst) :
    m.get? k = none := lookup_eq_none h

/-- What is found under a key is one of the values. -/
theorem mem_values_of_get? {m : KeyMap K V} {k : K} {v : V} (h : m.get? k = some v) :
    v ∈ m.values := by
  obtain ⟨before, after, hentries, -⟩ := List.lookup_eq_some_iff.mp h
  rw [values, hentries]
  simp

/-- And each of the values is found under a key. -/
theorem exists_get?_of_mem_values {m : KeyMap K V} {v : V} (h : v ∈ m.values) :
    ∃ k, m.get? k = some v := by
  obtain ⟨entries, hnd⟩ := m
  simp only [values, get?] at h ⊢
  induction entries with
  | nil => cases h
  | cons e entries ih =>
    obtain ⟨a, u⟩ := e
    rw [List.map_cons, List.nodup_cons] at hnd
    rcases List.mem_cons.mp h with rfl | h
    · exact ⟨a, List.lookup_cons_self⟩
    · obtain ⟨k, hk⟩ := ih hnd.2 h
      refine ⟨k, ?_⟩
      have hne : k ≠ a := by
        rintro rfl
        obtain ⟨before, after, hentries, -⟩ := List.lookup_eq_some_iff.mp hk
        exact hnd.1 (by simp [hentries])
      rw [List.lookup_cons, beq_eq_false_iff_ne.mpr hne]
      exact hk

/-- What is left after a key is forgotten. -/
theorem others_others (m : KeyMap K V) (k k' : K) :
    (m.others k).filter (fun e => e.1 ≠ k') = (m.others k').filter (fun e => e.1 ≠ k) := by
  rw [others, others, List.filter_filter, List.filter_filter]
  exact List.filter_congr fun e _ => Bool.and_comm _ _

theorem erase_put_self (m : KeyMap K V) (k : K) (v : V) : (m.put k v).erase k = m.erase k := by
  simp [erase, put, others]

theorem erase_put_ne (m : KeyMap K V) {k k' : K} (v : V) (h : k ≠ k') :
    (m.put k v).erase k' = (m.erase k').put k v := by
  simp only [erase, put, others, List.filter_cons_of_pos, decide_eq_true_eq, ne_eq, h,
    not_false_eq_true, mk.injEq, List.cons.injEq, true_and]
  exact m.others_others k k'

theorem erase_erase (m : KeyMap K V) (k k' : K) :
    (m.erase k).erase k' = (m.erase k').erase k := by
  simp only [erase, others, mk.injEq]
  exact m.others_others k k'

theorem erase_erase_self (m : KeyMap K V) (k : K) : (m.erase k).erase k = m.erase k := by
  simp [erase, others]

/-- A key that is not there is forgotten already. -/
theorem erase_of_get?_none {m : KeyMap K V} {k : K} (h : m.get? k = none) : m.erase k = m := by
  obtain ⟨entries, nodup⟩ := m
  simp only [erase, others, mk.injEq]
  refine List.filter_eq_self.mpr ?_
  intro e he
  have hne := List.lookup_eq_none_iff.mp h e he
  exact decide_eq_true (Ne.symm (bne_iff_ne.mp hne))

theorem values_erase_subset (m : KeyMap K V) (k : K) : (m.erase k).values ⊆ m.values :=
  List.map_subset _ (List.filter_sublist.subset)

/-- With distinct keys, a sum over the entries splits into one key's and the rest. -/
theorem sum_split (f : V → ℕ) {entries : List (K × V)} (hnd : (entries.map Prod.fst).Nodup)
    (k : K) :
    (entries.map fun e => f e.2).sum =
      ((entries.filter fun e => e.1 ≠ k).map fun e => f e.2).sum +
        ((entries.lookup k).map f).getD 0 := by
  induction entries with
  | nil => rfl
  | cons e entries ih =>
    obtain ⟨a, v⟩ := e
    rw [List.map_cons, List.nodup_cons] at hnd
    by_cases hk : a = k
    · subst hk
      have hrest : (entries.filter fun e => e.1 ≠ a) = entries := by
        rw [List.filter_eq_self]
        intro e he
        rw [decide_eq_true_eq]
        rintro rfl
        exact hnd.1 (List.mem_map.mpr ⟨e, he, rfl⟩)
      rw [List.filter_cons_of_neg (by simp), hrest, List.lookup_cons, beq_self_eq_true,
        List.map_cons, List.sum_cons]
      exact Nat.add_comm _ _
    · have hne : (k == a) = false := beq_eq_false_iff_ne.mpr (Ne.symm hk)
      rw [List.filter_cons_of_pos (by simpa using hk), List.lookup_cons, hne, List.map_cons,
        List.map_cons, List.sum_cons, List.sum_cons, ih hnd.2]
      exact (Nat.add_assoc _ _ _).symm

/-- **One write** changes the total by the new value less the old one. -/
theorem total_put (f : V → ℕ) (m : KeyMap K V) (k : K) (v : V) :
    (m.put k v).total f + ((m.get? k).map f).getD 0 = m.total f + f v := by
  rw [total, total, sum_split f m.nodup k, put, List.map_cons, List.sum_cons, get?, others]
  dsimp only
  omega

theorem total_erase (f : V → ℕ) (m : KeyMap K V) (k : K) :
    (m.erase k).total f + ((m.get? k).map f).getD 0 = m.total f :=
  (sum_split f m.nodup k).symm

/-- What is found under a key is part of the total. -/
theorem le_total_of_get? (f : V → ℕ) {m : KeyMap K V} {k : K} {v : V} (h : m.get? k = some v) :
    f v ≤ m.total f := by
  rw [← m.total_erase f k, h, Option.map_some, Option.getD_some]
  exact Nat.le_add_left _ _

omit [DecidableEq K] in
/-- A total that is not nothing comes from somewhere. -/
theorem exists_of_total_ne_zero {f : V → ℕ} {m : KeyMap K V} (h : m.total f ≠ 0) :
    ∃ v ∈ m.values, f v ≠ 0 := by
  by_contra hnone
  refine h (List.sum_eq_zero_iff_forall_eq_nat.mpr ?_)
  intro n hn
  obtain ⟨e, he, rfl⟩ := List.mem_map.mp hn
  by_contra hne
  exact hnone ⟨e.2, List.mem_map_of_mem he, hne⟩

omit [DecidableEq K] in
theorem total_mono {f g : V → ℕ} (m : KeyMap K V) (h : ∀ v, f v ≤ g v) : m.total f ≤ m.total g :=
  List.sum_le_sum fun e _ => h e.2

/-- A measure of a set of keys is at most the total, when each key measures no more than its
entry, and nothing where it has none. -/
theorem sum_le_total (f : V → ℕ) {g : K → ℕ} (m : KeyMap K V) (s : Finset K)
    (h : ∀ k ∈ s, g k ≤ ((m.get? k).map f).getD 0) : ∑ k ∈ s, g k ≤ m.total f := by
  induction s using Finset.induction_on generalizing m with
  | empty => simp
  | insert k s hk ih =>
    have hle := h k (Finset.mem_insert_self k s)
    rw [Finset.sum_insert hk, total, sum_split f m.nodup k]
    have hrest := ih ⟨m.others k, (List.nodup_cons.mp (m.nodup_others k)).2⟩ ?_
    · exact (Nat.add_comm _ _).trans_le (Nat.add_le_add hrest hle)
    · intro k' hk'
      have hsame : (m.others k).lookup k' = m.get? k' :=
        lookup_filter_ne (ne_of_mem_of_not_mem hk' hk)
      rw [get?, hsame]
      exact h k' (Finset.mem_insert_of_mem hk')

/-- A map has no more entries under some keys than there are keys. -/
theorem countP_le_card (m : KeyMap K V) (keys : List K) :
    m.entries.countP (fun e => decide (e.1 ∈ keys)) ≤ keys.toFinset.card := by
  have hnodup : ((m.entries.filter fun e => decide (e.1 ∈ keys)).map Prod.fst).Nodup :=
    (List.filter_sublist.map Prod.fst).nodup m.nodup
  rw [List.countP_eq_length_filter, ← List.length_map (f := Prod.fst),
    ← List.toFinset_card_of_nodup hnodup]
  refine Finset.card_le_card ?_
  intro key hkey
  obtain ⟨e, he, rfl⟩ := List.mem_map.mp (List.mem_toFinset.mp hkey)
  exact List.mem_toFinset.mpr (of_decide_eq_true (List.mem_filter.mp he).2)

end KeyMap
