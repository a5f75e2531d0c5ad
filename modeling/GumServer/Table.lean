import Mathlib.Data.List.Nodup

/-!
# Tables with a primary key

A table is a list of rows with distinct keys, where the key is a column of the row itself. So a
row found under a key has that key (`key_of_get?`), and nothing has to be said about it again.

The order of the rows carries no meaning.
-/

/-- Rows with a primary key. -/
structure Table {K V : Type} (key : V → K) where
  rows : List V
  /-- one row a key -/
  nodup : (rows.map key).Nodup

namespace Table

variable {K V : Type} [DecidableEq K] {key : V → K}

omit [DecidableEq K] in
/-- The table without rows. -/
def empty : Table key := ⟨[], List.nodup_nil⟩

/-- The row under a key. -/
def get? (t : Table key) (k : K) : Option V := t.rows.find? fun v => key v == k

/-- The rows under every other key. -/
def others (t : Table key) (k : K) : List V := t.rows.filter fun v => key v != k

/-- Write a row, whether or not its key is there. -/
def put (t : Table key) (v : V) : Table key where
  rows := v :: t.others (key v)
  nodup := by
    refine List.nodup_cons.mpr ⟨?_, (List.filter_sublist.map key).nodup t.nodup⟩
    intro hmem
    obtain ⟨w, hw, hkey⟩ := List.mem_map.mp hmem
    exact bne_iff_ne.mp (List.mem_filter.mp hw).2 hkey

/-- Delete the row under a key. -/
def erase (t : Table key) (k : K) : Table key :=
  ⟨t.others k, (List.filter_sublist.map key).nodup t.nodup⟩

/-- `UPDATE … WHERE key = k`. -/
def modify (t : Table key) (k : K) (f : V → V) : Table key :=
  match t.get? k with
  | some v => t.put (f v)
  | none => t

variable {t : Table key} {k k' : K} {v w : V}

/-- A row found under a key has that key. -/
theorem key_of_get? (h : t.get? k = some v) : key v = k :=
  eq_of_beq (List.find?_some (p := fun v => key v == k) h)

theorem mem_of_get? (h : t.get? k = some v) : v ∈ t.rows := List.mem_of_find?_eq_some h

/-- Every row is found under its key. -/
theorem get?_of_mem (h : v ∈ t.rows) : t.get? (key v) = some v := by
  obtain ⟨rows, hnd⟩ := t
  simp only [get?] at h ⊢
  induction rows with
  | nil => cases h
  | cons u rows ih =>
    rw [List.map_cons, List.nodup_cons] at hnd
    rcases List.mem_cons.mp h with rfl | h
    · simp
    · have hne : key u ≠ key v := fun heq => hnd.1 (heq ▸ List.mem_map_of_mem h)
      rw [List.find?_cons, beq_eq_false_iff_ne.mpr hne]
      exact ih hnd.2 h

@[simp] theorem get?_empty : (empty : Table key).get? k = none := rfl

theorem find?_others (h : k' ≠ k) : (t.others k).find? (fun v => key v == k') = t.get? k' := by
  rw [others, get?, List.find?_filter]
  congr 1
  funext v
  by_cases hv : key v = k'
  · simp [hv, h]
  · simp [hv]

/-- **One write** shows under its own key and nowhere else. -/
theorem get?_put (t : Table key) (v : V) (k : K) :
    (t.put v).get? k = if key v = k then some v else t.get? k := by
  rw [get?, put, List.find?_cons]
  by_cases h : key v = k
  · simp [h]
  · simp only [h, if_false, beq_eq_false_iff_ne.mpr h]
    exact find?_others (Ne.symm h)

@[simp] theorem get?_put_self (t : Table key) (v : V) : (t.put v).get? (key v) = some v := by
  rw [get?_put, if_pos rfl]

theorem get?_put_ne (t : Table key) (v : V) (h : key v ≠ k) : (t.put v).get? k = t.get? k := by
  rw [get?_put, if_neg h]

/-- The last write of a key counts. -/
theorem put_put (t : Table key) {v w : V} (h : key v = key w) : (t.put v).put w = t.put w := by
  simp only [put, others, mk.injEq, List.cons.injEq, true_and]
  rw [List.filter_cons_of_neg (by simp [h]), List.filter_filter]
  refine List.filter_congr ?_
  intro u _
  rw [h, Bool.and_self]

theorem modify_of_get? (h : t.get? k = some v) (f : V → V) : t.modify k f = t.put (f v) := by
  rw [modify, h]

theorem get?_erase (t : Table key) (k k' : K) :
    (t.erase k).get? k' = if k' = k then none else t.get? k' := by
  split
  · next h =>
    subst h
    rw [get?, erase, List.find?_eq_none]
    intro v hv
    simpa using (List.mem_filter.mp hv).2
  · next h => exact find?_others h

/-- A row, and the rows under every other key. -/
theorem perm_of_get? (h : t.get? k = some v) : t.rows.Perm (v :: t.others k) := by
  obtain ⟨rows, hnd⟩ := t
  simp only [get?, others] at h ⊢
  induction rows with
  | nil => cases h
  | cons u rows ih =>
    rw [List.map_cons, List.nodup_cons] at hnd
    by_cases hk : key u = k
    · rw [List.find?_cons_of_pos (by simp [hk])] at h
      obtain rfl := Option.some.inj h
      rw [List.filter_cons_of_neg (by simp [hk])]
      refine .cons u (List.Perm.of_eq (List.filter_eq_self.mpr ?_).symm)
      intro u' hu'
      refine bne_iff_ne.mpr ?_
      rintro rfl
      exact hnd.1 (hk ▸ List.mem_map_of_mem hu')
    · rw [List.find?_cons_of_neg (by simp [hk])] at h
      rw [List.filter_cons_of_pos (by simp [hk])]
      exact ((ih hnd.2 h).cons u).trans (.swap v u _)

/-- A change under one key, as a change of every row that looks at its own key. -/
theorem map_get?_of_key (t : Table key) (k k' : K) (f : V → V) :
    ((t.get? k').map fun v => if key v = k then f v else v) =
      if k' = k then (t.get? k).map f else t.get? k' := by
  cases h : t.get? k' with
  | none =>
    by_cases hk : k' = k
    · rw [if_pos hk, ← hk, h, Option.map_none, Option.map_none]
    · rw [if_neg hk, Option.map_none]
  | some v =>
    have hv := key_of_get? h
    by_cases hk : k' = k
    · rw [if_pos hk, ← hk, h, Option.map_some, Option.map_some, if_pos hv]
    · rw [if_neg hk, Option.map_some, if_neg (fun hv' => hk (hv.symm.trans hv'))]

/-- An update of a row that keeps its key. -/
theorem get?_modify (t : Table key) (k k' : K) (f : V → V) (hkey : ∀ v, key (f v) = key v) :
    (t.modify k f).get? k' = (t.get? k').map fun v => if key v = k then f v else v := by
  rw [map_get?_of_key]
  cases h : t.get? k with
  | none =>
    by_cases hk : k' = k
    · rw [modify, h, if_pos hk, hk, h, Option.map_none]
    · rw [modify, h, if_neg hk]
  | some v =>
    have hv : key (f v) = k := (hkey v).trans (key_of_get? h)
    rw [modify, h, Option.map_some]
    by_cases hk : k' = k
    · rw [if_pos hk, hk, get?_put, if_pos hv]
    · rw [if_neg hk, get?_put_ne _ _ (fun hv' => hk (hv'.symm.trans hv))]

theorem get?_modify_ne (t : Table key) (f : V → V) (hkey : ∀ v, key (f v) = key v) (h : k' ≠ k) :
    (t.modify k f).get? k' = t.get? k' := by
  rw [get?_modify t k k' f hkey, map_get?_of_key, if_neg h]

end Table
