import GumServer.Lts
import Mathlib.Algebra.Order.Ring.Int
import Mathlib.Data.List.Perm.Subperm
import Mathlib.Data.Set.Defs

/-!
# Oldest first

A line of things to be seen to, each with the time it was last seen to. A worker takes the oldest
few of those that are due, sees to them one by one, and takes the oldest few again. Whatever it has
seen to goes to the end of the line, and so does whatever comes or is seen to by anybody else.

Nothing is forgotten. As long as something stays where it is in the line and is not taken, the
worker takes what is ahead of it, and each of these only once: there are no more of them than there
were at the start (`takes_le`). But the worker may also leave something as it is, and that will be
taken again; so the bound has to count it.
-/

namespace OldestFirst

variable {K : Type}

/-- What is in the line, with the time it was last seen to. -/
abbrev Line (K : Type) : Type := K → Option ℤ

/-- Whatever is new in the line is at its end. -/
def Moves (now : ℤ) (line line' : Line K) : Prop :=
  ∀ k t, line' k = some t → line k = some t ∨ now ≤ t

/-- The oldest `n` of what is due, or all of it. -/
structure Batch (n : ℕ) (line : Line K) (due : Set K) (batch : List K) : Prop where
  nodup : batch.Nodup
  full : ∀ k ∈ due, k ∉ batch → batch.length = n
  oldest : ∀ k ∈ due, k ∉ batch → ∀ t, line k = some t →
    ∀ k' ∈ batch, ∃ t', line k' = some t' ∧ t' ≤ t

/-- The line, and what a worker has taken and not come to yet. -/
structure State (K : Type) where
  now : ℤ
  line : Line K
  todo : List K

/-- What can happen. -/
inductive Action (K : Type) : Type where
  /-- time passes, and the line changes -/
  | pass (now : ℤ) (line : Line K) : Action K
  /-- the worker takes what is due -/
  | take (due : Set K) (batch : List K) : Action K
  /-- it sees to the next one -/
  | serve (line : Line K) : Action K
  /-- it leaves the next one as it is -/
  | leave : Action K

open Classical in
/-- One step. -/
noncomputable def step (n : ℕ) (s : State K) : Action K → Option (State K)
  | .pass now line =>
    if s.now ≤ now ∧ Moves s.now s.line line then some ⟨now, line, s.todo⟩ else none
  | .take due batch =>
    if s.todo = [] ∧ Batch n s.line due batch then some { s with todo := batch } else none
  | .serve line =>
    match s.todo with
    | [] => none
    | k :: rest =>
      if Moves s.now s.line line ∧ ∀ t, line k = some t → s.now ≤ t then
        some ⟨s.now, line, rest⟩
      else none
  | .leave =>
    match s.todo with
    | [] => none
    | _ :: rest => some { s with todo := rest }

/-- What a step takes, counted in batches. -/
def takes : List (State K × Action K) → ℕ :=
  List.countP fun p => match p.2 with
    | .take _ _ => true
    | _ => false

/-- What was left as it is. -/
def left : List (State K × Action K) → ℕ :=
  List.countP fun p => match p.2 with
    | .leave => true
    | _ => false

/-- What was seen to. -/
def served (steps : List (State K × Action K)) : List K :=
  steps.filterMap fun p => match p.2 with
    | .serve _ => p.1.todo.head?
    | _ => none

section Runs

variable {n : ℕ} {d : K} {t : ℤ} {s₀ s s' : State K} {steps : List (State K × Action K)}
  {a : Action K}

/-- The steps that can be taken, with what is checked before each and the state after it. -/
inductive Stepped (n : ℕ) (s : State K) : Action K → State K → Prop where
  | pass (now : ℤ) (line : Line K) (hlater : s.now ≤ now) (hmoves : Moves s.now s.line line) :
      Stepped n s (.pass now line) ⟨now, line, s.todo⟩
  | take (due : Set K) (batch : List K) (hidle : s.todo = []) (hbatch : Batch n s.line due batch) :
      Stepped n s (.take due batch) { s with todo := batch }
  | serve (line : Line K) (k : K) (rest : List K) (htodo : s.todo = k :: rest)
      (hmoves : Moves s.now s.line line) (hlast : ∀ t, line k = some t → s.now ≤ t) :
      Stepped n s (.serve line) ⟨s.now, line, rest⟩
  | leave (k : K) (rest : List K) (htodo : s.todo = k :: rest) :
      Stepped n s .leave { s with todo := rest }

/-- **What a step can be.** -/
theorem step_cases (h : step n s a = some s') : Stepped n s a s' := by
  cases a with
  | pass now line =>
    rw [step] at h
    split at h
    · next hok =>
      obtain rfl := Option.some.inj h
      exact .pass now line hok.1 hok.2
    · cases h
  | take due batch =>
    rw [step] at h
    split at h
    · next hok =>
      obtain rfl := Option.some.inj h
      exact .take due batch hok.1 hok.2
    · cases h
  | serve line =>
    rw [step] at h
    split at h
    · cases h
    · next k rest htodo =>
      split at h
      · next hok =>
        obtain rfl := Option.some.inj h
        exact .serve line k rest htodo hok.1 hok.2
      · cases h
  | leave =>
    rw [step] at h
    split at h
    · cases h
    · next k rest htodo =>
      obtain rfl := Option.some.inj h
      exact .leave k rest htodo

/-- Time goes on, and whatever is new in the line is at its end. -/
theorem step_moves (h : step n s a = some s') : s.now ≤ s'.now ∧ Moves s.now s.line s'.line := by
  cases step_cases h with
  | pass now line hlater hmoves => exact ⟨hlater, hmoves⟩
  | take due batch hidle hbatch => exact ⟨Int.le_refl _, fun _ _ => .inl⟩
  | serve line k rest htodo hmoves hlast => exact ⟨Int.le_refl _, hmoves⟩
  | leave k rest htodo => exact ⟨Int.le_refl _, fun _ _ => .inl⟩

/-- **While something stays where it is**, what was taken was ahead of it at the start, each only
once, and what was seen to is behind it now. -/
structure Inv (n : ℕ) (d : K) (t : ℤ) (s₀ : State K) (steps : List (State K × Action K))
    (s : State K) : Prop where
  ahead : ∀ k t', s.line k = some t' → t' ≤ t → s₀.line k = some t'
  behind : ∀ k ∈ served steps, ∀ t', s.line k = some t' → t < t'
  once : (served steps ++ s.todo).Nodup
  taken : ∀ k ∈ served steps ++ s.todo, k ≠ d ∧ ∃ t', s₀.line k = some t' ∧ t' ≤ t
  count : n * takes steps = (served steps).length + left steps + s.todo.length

/-- Before anything was taken. -/
theorem Inv.init (hidle : s₀.todo = []) : Inv n d t s₀ [] s₀ where
  ahead _ _ h _ := h
  behind _ h := by cases h
  once := by
    rw [hidle]
    exact List.nodup_nil
  taken k hk := by
    rw [hidle] at hk
    cases hk
  count := by
    rw [hidle]
    rfl

theorem takes_append (steps more : List (State K × Action K)) :
    takes (steps ++ more) = takes steps + takes more := List.countP_append

theorem left_append (steps more : List (State K × Action K)) :
    left (steps ++ more) = left steps + left more := List.countP_append

theorem served_append (steps more : List (State K × Action K)) :
    served (steps ++ more) = served steps ++ served more := List.filterMap_append

/-- **A step keeps the account**, as long as it does not take what stays. -/
theorem Inv.step (h : Inv n d t s₀ steps s) (hstep : OldestFirst.step n s a = some s')
    (hnow : t < s.now) (hd : s.line d = some t)
    (hdue : ∀ due batch, a = .take due batch → d ∈ due ∧ d ∉ batch) :
    Inv n d t s₀ (steps ++ [(s, a)]) s' := by
  obtain ⟨-, hmoves⟩ := step_moves hstep
  have hahead : ∀ k t', s'.line k = some t' → t' ≤ t → s₀.line k = some t' := by
    intro k t' hk ht'
    rcases hmoves k t' hk with hold | hnew
    · exact h.ahead k t' hold ht'
    · omega
  have hbehind : ∀ k ∈ served steps, ∀ t', s'.line k = some t' → t < t' := by
    intro k hk t' ht'
    rcases hmoves k t' ht' with hold | hnew
    · exact h.behind k hk t' hold
    · omega
  cases step_cases hstep with
  | pass now line hlater hmoves =>
    have hserved : served (steps ++ [(s, .pass now line)]) = served steps := by
      rw [served_append]
      exact List.append_nil _
    exact {
      ahead := hahead
      behind := hserved ▸ hbehind
      once := hserved ▸ h.once
      taken := hserved ▸ h.taken
      count := by
        rw [hserved, takes_append, left_append]
        exact h.count }
  | take due batch hidle hbatch =>
    obtain ⟨hmem, hnot⟩ := hdue due batch rfl
    have hserved : served (steps ++ [(s, .take due batch)]) = served steps := by
      rw [served_append]
      exact List.append_nil _
    have htaken : ∀ k ∈ batch, ∃ t', s.line k = some t' ∧ t' ≤ t :=
      hbatch.oldest d hmem hnot t hd
    refine ⟨hahead, hserved ▸ hbehind, ?_, ?_, ?_⟩
    · rw [hserved]
      refine List.nodup_append.mpr ⟨(List.nodup_append.mp h.once).1, hbatch.nodup, ?_⟩
      rintro k hk _ hk' rfl
      obtain ⟨t', hline, hle⟩ := htaken k hk'
      have := h.behind k hk t' hline
      omega
    · rw [hserved]
      intro k hk
      rcases List.mem_append.mp hk with hk | hk
      · exact h.taken k (List.mem_append_left _ hk)
      · obtain ⟨t', hline, hle⟩ := htaken k hk
        refine ⟨?_, t', h.ahead k t' hline hle, hle⟩
        rintro rfl
        exact hnot hk
    · have hcount := h.count
      rw [hidle, List.length_nil] at hcount
      rw [hserved, takes_append, left_append, Nat.mul_add, hcount, hbatch.full d hmem hnot]
      exact congrArg₂ _ (Nat.add_zero _) (Nat.mul_one n)
  | serve line k rest htodo hmoves hlast =>
    have hserved : served (steps ++ [(s, .serve line)]) = served steps ++ [k] := by
      rw [served_append]
      simp [served, htodo]
    have hall : served steps ++ [k] ++ rest = served steps ++ s.todo := by
      rw [htodo, List.append_assoc, List.singleton_append]
    refine ⟨hahead, ?_, ?_, ?_, ?_⟩
    · rw [hserved]
      intro k' hk' t' ht'
      rcases List.mem_append.mp hk' with hk' | hk'
      · exact hbehind k' hk' t' ht'
      · obtain rfl := List.mem_singleton.mp hk'
        exact Int.lt_of_lt_of_le hnow (hlast t' ht')
    · rw [hserved, hall]
      exact h.once
    · rw [hserved, hall]
      exact h.taken
    · have hcount := h.count
      rw [htodo, List.length_cons] at hcount
      rw [hserved, takes_append, left_append, List.length_append, List.length_singleton]
      change n * takes steps = (served steps).length + 1 + left steps + rest.length
      omega
  | leave k rest htodo =>
    have hserved : served (steps ++ [(s, .leave)]) = served steps := by
      rw [served_append]
      exact List.append_nil _
    have hsub : (served steps ++ rest).Sublist (served steps ++ s.todo) := by
      rw [htodo]
      exact (List.sublist_cons_self k rest).append_left _
    refine ⟨hahead, hserved ▸ hbehind, ?_, ?_, ?_⟩
    · rw [hserved]
      exact h.once.sublist hsub
    · rw [hserved]
      intro k' hk'
      exact h.taken k' (hsub.subset hk')
    · have hcount := h.count
      rw [htodo, List.length_cons] at hcount
      rw [hserved, takes_append, left_append]
      change n * takes steps = (served steps).length + (left steps + 1) + rest.length
      omega

/-- Time goes on. -/
theorem now_le (h : Lts.Trace (step n) s₀ steps s) : s₀.now ≤ s.now := by
  induction h with
  | nil => exact Int.le_refl _
  | concat _ hstep ih => exact ih.trans (step_moves hstep).1

/-- The account of a run. -/
theorem Inv.of_trace (h : Lts.Trace (OldestFirst.step n) s₀ steps s) (hidle : s₀.todo = [])
    (hpast : t < s₀.now) (hd : s.line d = some t)
    (hdue : ∀ u due batch, (u, Action.take due batch) ∈ steps → d ∈ due ∧ d ∉ batch) :
    Inv n d t s₀ steps s := by
  induction h with
  | nil => exact .init hidle
  | concat hrun hstep ih =>
    have hnow := Int.lt_of_lt_of_le hpast (now_le hrun)
    have hbefore := ((step_moves hstep).2 d t hd).resolve_right (Int.not_le.mpr hnow)
    refine (ih hbefore fun u due batch hmem => ?_).step hstep hnow hbefore ?_
    · exact hdue u due batch (List.mem_append_left _ hmem)
    · rintro due batch rfl
      exact hdue _ due batch (List.mem_append_right _ List.mem_cons_self)

/-- From where the worker has nothing taken: all that is taken, a full batch each time, is among what
was ahead at the start; but for what was left as it is, and for what the worker has not come to yet,
each of these only once. -/
theorem takes_le_of_idle (h : Lts.Trace (step n) s₀ steps s) (hidle : s₀.todo = [])
    (hpast : t < s₀.now) (hd : s.line d = some t)
    (hdue : ∀ u due batch, (u, Action.take due batch) ∈ steps → d ∈ due ∧ d ∉ batch)
    {ahead : List K}
    (hahead : ∀ k t', k ≠ d → s₀.line k = some t' → t' ≤ t → k ∈ ahead) :
    n * takes steps ≤ ahead.length + left steps := by
  have hinv := Inv.of_trace h hidle hpast hd hdue
  have hsub : served steps ++ s.todo ⊆ ahead := by
    intro k hk
    obtain ⟨hne, t', hline, hle⟩ := hinv.taken k hk
    exact hahead k t' hne hline hle
  have hle := (List.subperm_of_subset hinv.once hsub).length_le
  rw [List.length_append] at hle
  rw [hinv.count]
  omega

/-- **Nothing is forgotten.** While something that is due stays where it is and is never taken, the
batches that are taken come to no more than what was ahead of it at the start and what was left as
it is. -/
theorem takes_le (h : Lts.Trace (step n) s₀ steps s) (hpast : t < s₀.now) (hd : s.line d = some t)
    (hdue : ∀ u due batch, (u, Action.take due batch) ∈ steps → d ∈ due ∧ d ∉ batch)
    {ahead : List K}
    (hahead : ∀ k t', k ≠ d → s₀.line k = some t' → t' ≤ t → k ∈ ahead) :
    n * takes steps ≤ ahead.length + left steps := by
  induction steps generalizing s₀ with
  | nil => exact (Nat.mul_zero n).trans_le (Nat.zero_le _)
  | cons p steps ih =>
    by_cases hidle : s₀.todo = []
    · exact takes_le_of_idle h hidle hpast hd hdue hahead
    · obtain ⟨hp, s₁, hstep, hrest⟩ := h.first
      obtain ⟨hlater, hmoves⟩ := step_moves hstep
      have hnone : takes [p] = 0 := by
        obtain ⟨u, a⟩ := p
        obtain rfl : u = s₀ := hp
        cases step_cases hstep with
        | take due batch hempty hbatch => exact absurd hempty hidle
        | _ => rfl
      have hle := ih hrest (Int.lt_of_lt_of_le hpast hlater)
        (fun u due batch hmem => hdue u due batch (List.mem_cons_of_mem _ hmem))
        (by
          intro k t' hne hline hle
          rcases hmoves k t' hline with hold | hnew
          · exact hahead k t' hne hold hle
          · omega)
      have htakes := takes_append [p] steps
      have hleft := left_append [p] steps
      rw [List.singleton_append] at htakes hleft
      rw [htakes, hnone, Nat.zero_add, hleft]
      omega

end Runs

end OldestFirst
