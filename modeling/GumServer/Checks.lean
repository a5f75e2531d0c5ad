import Mathlib.Algebra.Ring.Nat
import Mathlib.Data.List.Forall2

/-!
# Sequences of checks

A checker refuses with a reason or goes on: `Except ε`. The two ways to refuse are
`refuseIf` (an early `return Err`) and `okOr` (a missing value, Rust's `ok_or`).
Everything proved about a checker starts from the inversions here: a sequence of
checks that succeeded is the conjunction of the checks.
-/

namespace Checks

variable {ε α β : Type}

/-- `if bad { return Err(why) }`. -/
def refuseIf (bad : Bool) (why : ε) : Except ε Unit := if bad then .error why else .ok ()

/-- `Option::ok_or`. -/
def okOr (o : Option α) (why : ε) : Except ε α :=
  match o with
  | some a => .ok a
  | none => .error why

theorem bind_eq_ok {x : Except ε α} {f : α → Except ε β} {b : β} :
    (x >>= f) = .ok b ↔ ∃ a, x = .ok a ∧ f a = .ok b := by
  cases x with
  | error e => simp [bind, Except.bind]
  | ok a => simp [bind, Except.bind]

theorem pure_eq_ok {a b : α} : (pure a : Except ε α) = .ok b ↔ a = b := by
  simp [pure, Except.pure]

theorem refuseIf_eq_ok {bad : Bool} {why : ε} {u : Unit} :
    refuseIf bad why = .ok u ↔ bad = false := by
  cases bad <;> simp [refuseIf]

theorem okOr_eq_ok {o : Option α} {why : ε} {a : α} : okOr o why = .ok a ↔ o = some a := by
  cases o <;> simp [okOr]

/-- A refusal at the head of a sequence: the check passed, and so did the rest. -/
theorem refuseIf_bind_eq_ok {bad : Bool} {why : ε} {f : Unit → Except ε β} {b : β} :
    (refuseIf bad why >>= f) = .ok b ↔ bad = false ∧ f () = .ok b := by
  cases bad <;> simp [refuseIf, bind, Except.bind]

/-- A lookup at the head of a sequence: there was a value, and the rest took it. -/
theorem okOr_bind_eq_ok {o : Option α} {why : ε} {f : α → Except ε β} {b : β} :
    (okOr o why >>= f) = .ok b ↔ ∃ a, o = some a ∧ f a = .ok b := by
  cases o <;> simp [okOr, bind, Except.bind]

@[simp] theorem okOr_some_bind {a : α} {why : ε} {f : α → Except ε β} :
    (okOr (some a) why >>= f) = f a := rfl

@[simp] theorem okOr_none_bind {why : ε} {f : α → Except ε β} :
    (okOr none why >>= f) = .error why := rfl

theorem mapError_eq_ok {ε' : Type} {x : Except ε α} {f : ε → ε'} {a : α} :
    x.mapError f = .ok a ↔ x = .ok a := by
  cases x <;> simp [Except.mapError]

theorem map_eq_ok {x : Except ε α} {f : α → β} {b : β} :
    x.map f = .ok b ↔ ∃ a, x = .ok a ∧ f a = b := by
  cases x <;> simp [Except.map]

theorem toOption_eq_some {x : Except ε α} {a : α} : x.toOption = some a ↔ x = .ok a := by
  cases x <;> simp [Except.toOption]

/-- `for a in as { acc = step(acc, a)?; }`. -/
def each (step : β → α → Except ε β) : List α → β → Except ε β
  | [], b => .ok b
  | a :: as, b => do
    let b' ← step b a
    each step as b'

@[simp] theorem each_nil (step : β → α → Except ε β) (b : β) : each step [] b = .ok b := rfl

theorem each_cons_eq_ok {step : β → α → Except ε β} {a : α} {as : List α} {b c : β} :
    each step (a :: as) b = .ok c ↔ ∃ b', step b a = .ok b' ∧ each step as b' = .ok c := by
  rw [each, bind_eq_ok]

/-- What relates the two ends of every step, and composes, relates the two ends of the loop. -/
theorem each_rel {step : β → α → Except ε β} {R : β → β → Prop} {as : List α} {b c : β}
    (hrefl : ∀ b, R b b) (htrans : ∀ {x y z}, R x y → R y z → R x z)
    (hstep : ∀ {b a b'}, step b a = .ok b' → R b b') (h : each step as b = .ok c) : R b c := by
  induction as generalizing b with
  | nil =>
    obtain rfl := Except.ok.inj h
    exact hrefl b
  | cons a as ih =>
    obtain ⟨b', ha, hrest⟩ := each_cons_eq_ok.mp h
    exact htrans (hstep ha) (ih hrest)

/-- What every step keeps, the loop keeps. -/
theorem each_invariant {step : β → α → Except ε β} {P : β → Prop}
    (hstep : ∀ {b a b'}, step b a = .ok b' → P b → P b') {as : List α} {b c : β}
    (h : each step as b = .ok c) : P b → P c :=
  each_rel (R := fun b c => P b → P c) (fun _ hb => hb) (fun hxy hyz hx => hyz (hxy hx)) hstep h

theorem each_append_eq_ok {step : β → α → Except ε β} {as as' : List α} {b c : β} :
    each step (as ++ as') b = .ok c ↔ ∃ m, each step as b = .ok m ∧ each step as' m = .ok c := by
  induction as generalizing b with
  | nil => simp
  | cons a as ih =>
    rw [List.cons_append, each_cons_eq_ok]
    simp only [each_cons_eq_ok, ih]
    constructor
    · rintro ⟨b', ha, m, has, has'⟩
      exact ⟨m, ⟨b', ha, has⟩, has'⟩
    · rintro ⟨m, ⟨b', ha, has⟩, has'⟩
      exact ⟨b', ha, m, has, has'⟩

theorem each_map {γ : Type} (step : β → γ → Except ε β) (f : α → γ) (as : List α) (b : β) :
    each step (as.map f) b = each (fun b a => step b (f a)) as b := by
  induction as generalizing b with
  | nil => rfl
  | cons a as ih => simp only [List.map_cons, each, ih]

/-- A loop that pushes one result a step collects them in order, one for each element. -/
theorem each_collect {γ : Type} {step : β → α → Except ε β} {out : β → List γ} {R : α → γ → Prop}
    (hstep : ∀ {b a b'}, step b a = .ok b' → ∃ c, out b' = out b ++ [c] ∧ R a c)
    {as : List α} {b b' : β} (h : each step as b = .ok b') :
    ∃ cs, out b' = out b ++ cs ∧ List.Forall₂ R as cs := by
  induction as generalizing b with
  | nil =>
    obtain rfl := Except.ok.inj h
    exact ⟨[], (List.append_nil _).symm, .nil⟩
  | cons a as ih =>
    obtain ⟨mid, ha, hrest⟩ := each_cons_eq_ok.mp h
    obtain ⟨c, hc, hR⟩ := hstep ha
    obtain ⟨cs, hcs, hRs⟩ := ih hrest
    refine ⟨c :: cs, ?_, .cons hR hRs⟩
    rw [hcs, hc, List.append_assoc, List.singleton_append]

/-- A loop that cannot tell two states apart goes through from both. -/
theorem each_sim {step : β → α → Except ε β} {R : β → β → Prop}
    (hsim : ∀ {a b c b'}, R b c → step b a = .ok b' → ∃ c', step c a = .ok c' ∧ R b' c')
    {as : List α} {b c b' : β} (hR : R b c) (h : each step as b = .ok b') :
    ∃ c', each step as c = .ok c' ∧ R b' c' := by
  induction as generalizing b c with
  | nil =>
    obtain rfl := Except.ok.inj h
    exact ⟨c, rfl, hR⟩
  | cons a as ih =>
    obtain ⟨mid, ha, hrest⟩ := each_cons_eq_ok.mp h
    obtain ⟨mid', ha', hmid⟩ := hsim hR ha
    obtain ⟨c', hrest', hc'⟩ := ih hmid hrest
    exact ⟨c', each_cons_eq_ok.mpr ⟨mid', ha', hrest'⟩, hc'⟩

/-- Every element of a loop that went through was taken by some step. -/
theorem each_mem {step : β → α → Except ε β} {as : List α} {b c : β}
    (h : each step as b = .ok c) {a : α} (ha : a ∈ as) : ∃ x y, step x a = .ok y := by
  induction as generalizing b with
  | nil => cases ha
  | cons a' as ih =>
    obtain ⟨b', ha', hrest⟩ := each_cons_eq_ok.mp h
    rcases List.mem_cons.mp ha with rfl | ha
    · exact ⟨b, b', ha'⟩
    · exact ih hrest ha

end Checks
