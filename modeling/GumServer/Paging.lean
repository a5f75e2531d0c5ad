import Mathlib.Data.List.Sort
import GumServer.Checks

/-!
# Keyset paging

Rows with distinct keys of a linear order, read from the largest key down, a page at a time: a page
starts below the last key of the one before it, and one row more than fits on it is fetched, to see
whether there is a page after it.

Whoever follows the pages reads all rows in order, each once, on full pages up to the last
(`follow_pages`). What stands for a key between two requests is up to the server: any text that
brings the next page back does.
-/

namespace Paging

open Checks

variable {α κ : Type} [LinearOrder κ] (key : α → κ)

/-! ## Pages -/

/-- `ORDER BY key DESC`. -/
def descending (rows : List α) : List α := rows.mergeSort fun a b => decide (key b ≤ key a)

/-- Is a row below the place where a page starts? -/
def below (place : Option κ) (a : α) : Bool := place.all fun k => decide (key a < k)

/-- The rows of a page, and one more if there is one. -/
def fetch (rows : List α) (place : Option κ) (limit : ℕ) : List α :=
  (descending key (rows.filter (below key place))).take (limit + 1)

/-- The rows of a page, and where the next one starts. -/
def page (rows : List α) (limit : ℕ) (place : Option κ) : List α × Option κ :=
  let fetched := fetch key rows place limit
  if limit < fetched.length then (fetched.take limit, (fetched.take limit).getLast?.map key)
  else (fetched, none)

/-- Ask for pages, from a place on, until there is no next one; `none` is to give up. -/
def follow {ε τ : Type} (serve : Option τ → Except ε (List α × Option τ)) :
    ℕ → Option τ → Except ε (Option (List (List α)))
  | 0, _ => .ok none
  | n + 1, place => do
    let (items, next) ← serve place
    match next with
    | none => pure (some [items])
    | some token => do
      let pages ← follow serve n (some token)
      pure (pages.map fun pages => items :: pages)

/-! ## The order -/

section Order

variable {key} {rows : List α}

theorem descending_perm (rows : List α) : (descending key rows).Perm rows :=
  List.mergeSort_perm rows _

/-- Rows with distinct keys stand in one order. -/
theorem descending_pairwise (hkeys : (rows.map key).Nodup) :
    (descending key rows).Pairwise fun a b => key b < key a := by
  have hle : (descending key rows).Pairwise fun a b => decide (key b ≤ key a) = true := by
    apply List.pairwise_mergeSort
    · intro a b c hab hbc
      simp only [decide_eq_true_eq] at *
      exact hbc.trans hab
    · intro a b
      simp only [Bool.or_eq_true, decide_eq_true_eq]
      exact le_total _ _
  have hne : (descending key rows).Pairwise fun a b => key a ≠ key b := by
    rw [← List.pairwise_map]
    exact (((descending_perm rows).map key).nodup_iff).mpr hkeys
  refine (hle.and hne).imp ?_
  rintro a b ⟨hab, hne⟩
  exact lt_of_le_of_ne (of_decide_eq_true hab) (Ne.symm hne)

/-- Rows that are left out leave the order of the others alone. -/
theorem descending_filter (hkeys : (rows.map key).Nodup) (p : α → Bool) :
    descending key (rows.filter p) = (descending key rows).filter p := by
  have hkeys' : ((rows.filter p).map key).Nodup :=
    hkeys.sublist (List.Sublist.map key List.filter_sublist)
  have hsorted := (descending_pairwise hkeys).sublist (List.filter_sublist (p := p))
  refine List.Perm.eq_of_pairwise ?_ (descending_pairwise hkeys') hsorted ?_
  · intro a b _ _ hab hba
    exact absurd hab hba.asymm
  · exact (descending_perm _).trans ((descending_perm rows).filter p).symm

end Order

/-! ## Following the pages -/

section Follow

variable {key} {rows : List α} {limit : ℕ}

/-- A place between what has been read and what is left. -/
def Reached (key : α → κ) (rows : List α) (place : Option κ) (left : List α) : Prop :=
  ∃ read, descending key rows = read ++ left ∧ place = read.getLast?.map key

theorem reached_start : Reached key rows none (descending key rows) :=
  ⟨[], rfl, rfl⟩

/-- What is left is what is below the place. -/
theorem Reached.filter_below {place : Option κ} {left : List α} (hkeys : (rows.map key).Nodup)
    (h : Reached key rows place left) :
    descending key (rows.filter (below key place)) = left := by
  obtain ⟨read, hsplit, rfl⟩ := h
  have hsorted := descending_pairwise hkeys
  rw [descending_filter hkeys, hsplit]
  rw [hsplit] at hsorted
  rcases List.eq_nil_or_concat read with rfl | ⟨front, last, rfl⟩
  · simp [below]
  rw [List.concat_eq_append] at hsorted ⊢
  obtain ⟨hread, -, hacross⟩ := List.pairwise_append.mp hsorted
  obtain ⟨-, -, hlast⟩ := List.pairwise_append.mp hread
  rw [List.filter_append, List.getLast?_concat, Option.map_some]
  have hnone : (front ++ [last]).filter (below key (some (key last))) = [] := by
    rw [List.filter_eq_nil_iff]
    intro a ha
    simp only [below, Option.all_some, decide_eq_true_eq, not_lt]
    rcases List.mem_append.mp ha with ha | ha
    · exact (hlast a ha last (List.mem_singleton_self last)).le
    · rw [List.mem_singleton.mp ha]
  have hall : left.filter (below key (some (key last))) = left := by
    rw [List.filter_eq_self]
    intro a ha
    simp only [below, Option.all_some, decide_eq_true_eq]
    exact hacross last (List.mem_append_right _ (List.mem_singleton_self last)) a ha
  rw [hnone, hall, List.nil_append]

/-- **The last page** has all that is left. -/
theorem Reached.page_last {place : Option κ} {left : List α} (hkeys : (rows.map key).Nodup)
    (h : Reached key rows place left) (hleft : left.length ≤ limit) :
    page key rows limit place = (left, none) := by
  have htake : left.take (limit + 1) = left := List.take_of_length_le (by omega)
  simp only [page, fetch, h.filter_below hkeys, htake]
  rw [if_neg (by omega)]

/-- **A page before it** is full, and the next one starts where it ends. -/
theorem Reached.page_full {place : Option κ} {left : List α} (hkeys : (rows.map key).Nodup)
    (hlimit : 0 < limit) (h : Reached key rows place left) (hleft : limit < left.length) :
    ∃ k ∈ rows.map key, page key rows limit place = (left.take limit, some k) ∧
      Reached key rows (some k) (left.drop limit) := by
  have hne : left.take limit ≠ [] := by
    rw [← List.length_pos_iff, List.length_take]
    omega
  have htake : (left.take (limit + 1)).take limit = left.take limit := by
    rw [List.take_take, Nat.min_eq_left (Nat.le_succ limit)]
  have hfetched : limit < (left.take (limit + 1)).length := by
    rw [List.length_take]
    omega
  refine ⟨key ((left.take limit).getLast hne), ?_, ?_, ?_⟩
  · obtain ⟨read, hsplit, -⟩ := h
    have hmem : (left.take limit).getLast hne ∈ descending key rows := by
      rw [hsplit]
      exact List.mem_append_right _ (List.mem_of_mem_take (List.getLast_mem hne))
    exact List.mem_map_of_mem ((descending_perm rows).mem_iff.mp hmem)
  · simp only [page, fetch, h.filter_below hkeys, if_pos hfetched, htake,
      List.getLast?_eq_some_getLast hne, Option.map_some]
  · obtain ⟨read, hsplit, -⟩ := h
    refine ⟨read ++ left.take limit, ?_, ?_⟩
    · rw [List.append_assoc, List.take_append_drop, hsplit]
    · rw [List.getLast?_append_of_ne_nil _ hne, List.getLast?_eq_some_getLast hne, Option.map_some]

variable {ε τ : Type} {serve : Option τ → Except ε (List α × Option τ)} {token : κ → τ}

/-- From a place on, the pages are what is left. -/
theorem Reached.follow (hkeys : (rows.map key).Nodup) (hlimit : 0 < limit)
    (hserve : ∀ place, (∀ k ∈ place, k ∈ rows.map key) →
      serve (place.map token) = .ok ((page key rows limit place).1,
        (page key rows limit place).2.map token))
    {place : Option κ} (hplace : ∀ k ∈ place, k ∈ rows.map key) {left : List α}
    (h : Reached key rows place left) :
    ∃ pages, pages ≠ [] ∧
      (∀ n, pages.length ≤ n → Paging.follow serve n (place.map token) = .ok (some pages)) ∧
      pages.flatten = left ∧ ∀ p ∈ pages.dropLast, p.length = limit := by
  induction hn : left.length using Nat.strong_induction_on generalizing place left with
  | _ m ih =>
    subst hn
    have hone := hserve place hplace
    rcases Nat.lt_or_ge limit left.length with hleft | hleft
    · obtain ⟨k, hk, hpage, hnext⟩ := h.page_full hkeys hlimit hleft
      have hshort : (left.drop limit).length < left.length := by
        rw [List.length_drop]
        omega
      obtain ⟨pages, hne, hfollow, hflat, hfull⟩ := ih _ hshort (by simpa using hk) hnext rfl
      refine ⟨left.take limit :: pages, List.cons_ne_nil _ _, ?_, ?_, ?_⟩
      · intro n hn
        obtain ⟨n, rfl⟩ : ∃ n', n = n' + 1 := ⟨n - 1, by rw [List.length_cons] at hn; omega⟩
        rw [List.length_cons] at hn
        have hrest := hfollow n (by omega)
        rw [Option.map_some] at hrest
        rw [Paging.follow, hone, hpage]
        apply bind_eq_ok.mpr
        refine ⟨_, rfl, bind_eq_ok.mpr ⟨some pages, hrest, rfl⟩⟩
      · rw [List.flatten_cons, hflat, List.take_append_drop]
      · rw [List.dropLast_cons_of_ne_nil hne]
        intro p hp
        rcases List.mem_cons.mp hp with rfl | hp
        · rw [List.length_take]
          omega
        · exact hfull p hp
    · have hpage := h.page_last hkeys hleft
      refine ⟨[left], List.cons_ne_nil _ _, ?_, by simp, by simp⟩
      intro n hn
      obtain ⟨n, rfl⟩ : ∃ n', n = n' + 1 := ⟨n - 1, by rw [List.length_singleton] at hn; omega⟩
      rw [Paging.follow, hone, hpage]
      rfl

/-- **Whoever follows the pages reads all rows**, from the largest key down, on full pages up to the
last. -/
theorem follow_pages (hkeys : (rows.map key).Nodup) (hlimit : 0 < limit)
    (hserve : ∀ place, (∀ k ∈ place, k ∈ rows.map key) →
      serve (place.map token) = .ok ((page key rows limit place).1,
        (page key rows limit place).2.map token)) :
    ∃ pages, (∀ n, pages.length ≤ n → follow serve n none = .ok (some pages)) ∧
      pages.flatten = descending key rows ∧ ∀ p ∈ pages.dropLast, p.length = limit := by
  obtain ⟨pages, -, hfollow, hflat, hfull⟩ :=
    reached_start.follow hkeys hlimit hserve (by simp)
  exact ⟨pages, hfollow, hflat, hfull⟩

end Follow

end Paging
