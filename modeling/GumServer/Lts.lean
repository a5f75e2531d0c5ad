import Mathlib.Data.List.Induction
import Mathlib.Data.Nat.Notation

/-!
# Runs of a transition system

A system is a step function that refuses with `none`: `step s a` is what the action `a` makes of
the state `s`. `Reaches ok s t` is a run from `s` to `t` each of whose steps met the condition
`ok` in the state it was taken from. What one step keeps, a run keeps (`Reaches.invariant`). A
`Trace` is a run together with its steps, for what is said about everything that was ever done.

A concrete run is a list of actions (`run`), and a computation finds out whether it goes through.
-/

namespace Lts

variable {σ α : Type}

/-- The states a run can reach by steps that meet a condition. -/
inductive Reaches (step : σ → α → Option σ) (ok : σ → α → Prop) (s : σ) : σ → Prop where
  /-- nothing has happened yet -/
  | refl : Reaches step ok s s
  /-- one step more -/
  | tail {t u : σ} {a : α} : Reaches step ok s t → ok t a → step t a = some u →
      Reaches step ok s u

/-- Every step is allowed. -/
def Any (_ : σ) (_ : α) : Prop := True

instance (s : σ) (a : α) : Decidable (Any s a) := inferInstanceAs (Decidable True)

section Reaches

variable {step : σ → α → Option σ} {ok : σ → α → Prop} {s t u : σ}

/-- **The invariant rule**: what holds at the start and survives every allowed step from a
reached state holds in every reached state. -/
theorem Reaches.invariant {P : σ → Prop} (h : Reaches step ok s t) (hinit : P s)
    (hstep : ∀ {t a u}, Reaches step ok s t → P t → ok t a → step t a = some u → P u) : P t := by
  induction h with
  | refl => exact hinit
  | tail hreach hok hs ih => exact hstep hreach ih hok hs

/-- A run under a condition is a run under any weaker one. -/
theorem Reaches.mono {ok' : σ → α → Prop} (h : Reaches step ok s t)
    (hok : ∀ {s a}, ok s a → ok' s a) : Reaches step ok' s t := by
  induction h with
  | refl => exact .refl
  | tail _ hmeets hs ih => exact ih.tail (hok hmeets) hs

theorem Reaches.trans (h : Reaches step ok s t) (h' : Reaches step ok t u) :
    Reaches step ok s u := by
  induction h' with
  | refl => exact h
  | tail _ hok hs ih => exact ih.tail hok hs

/-- Every step of a run is taken from a state the run has reached. -/
theorem Reaches.from_reached (h : Reaches step ok s t) :
    Reaches step (fun t a => ok t a ∧ Reaches step ok s t) s t := by
  induction h with
  | refl => exact .refl
  | tail hreach hok hs ih => exact ih.tail ⟨hok, hreach⟩ hs

/-- **The projection rule**: a run of one system is a run of another, if each of its steps is one of
that, or leaves its state alone. -/
theorem Reaches.project {τ β : Type} {step' : τ → β → Option τ} (f : σ → τ)
    (h : Reaches step ok s t) (hstep : ∀ {t a u}, Reaches step ok s t → ok t a →
      step t a = some u → f u = f t ∨ ∃ b, step' (f t) b = some (f u)) :
    Reaches step' Any (f s) (f t) := by
  induction h with
  | refl => exact .refl
  | tail hreach hok hs ih =>
    rcases hstep hreach hok hs with hsame | ⟨b, hb⟩
    · rw [hsame]
      exact ih
    · exact ih.tail trivial hb

end Reaches

/-! ## Traces -/

/-- A run with its steps, oldest first: each action with the state it was taken from. -/
inductive Trace (step : σ → α → Option σ) (s : σ) : List (σ × α) → σ → Prop where
  | nil : Trace step s [] s
  | concat {steps : List (σ × α)} {t u : σ} {a : α} : Trace step s steps t → step t a = some u →
      Trace step s (steps ++ [(t, a)]) u

section Trace

variable {step : σ → α → Option σ} {s t u : σ} {steps : List (σ × α)}

theorem Trace.reaches (h : Trace step s steps t) : Reaches step Any s t := by
  induction h with
  | nil => exact .refl
  | concat _ hs ih => exact ih.tail trivial hs

/-- Every run has its steps. -/
theorem Reaches.exists_trace {ok : σ → α → Prop} (h : Reaches step ok s t) :
    ∃ steps, Trace step s steps t := by
  induction h with
  | refl => exact ⟨[], .nil⟩
  | tail _ _ hs ih =>
    obtain ⟨steps, htrace⟩ := ih
    exact ⟨_, htrace.concat hs⟩

/-- **A step of a trace** was taken from a state the run had reached, and the run went on from
what it made of it. -/
theorem Trace.of_mem (h : Trace step s steps u) {a : α} (hmem : (t, a) ∈ steps) :
    ∃ t', Reaches step Any s t ∧ step t a = some t' ∧ Reaches step Any t' u := by
  induction h with
  | nil => cases hmem
  | concat hrun hs ih =>
    rcases List.mem_append.mp hmem with hold | hlast
    · obtain ⟨t', hbefore, hstep, hafter⟩ := ih hold
      exact ⟨t', hbefore, hstep, hafter.tail trivial hs⟩
    · obtain ⟨rfl, rfl⟩ := Prod.mk.inj (List.mem_singleton.mp hlast)
      exact ⟨_, hrun.reaches, hs, .refl⟩

/-- The last step of a trace. -/
theorem Trace.last {p : σ × α} (h : Trace step s (steps ++ [p]) u) :
    Trace step s steps p.1 ∧ step p.1 p.2 = some u := by
  generalize hsteps : steps ++ [p] = all at h
  cases h with
  | nil => simp at hsteps
  | concat hrun hs =>
    obtain ⟨rfl, rfl⟩ := List.append_singleton_inj.mp hsteps
    exact ⟨hrun, hs⟩

/-- A trace in two parts. -/
theorem Trace.split {before after : List (σ × α)} (h : Trace step s (before ++ after) u) :
    ∃ t, Trace step s before t ∧ Trace step t after u := by
  induction after using List.reverseRecOn generalizing u with
  | nil =>
    rw [List.append_nil] at h
    exact ⟨u, h, .nil⟩
  | append_singleton after p ih =>
    rw [← List.append_assoc] at h
    obtain ⟨hrun, hs⟩ := h.last
    obtain ⟨t, hbefore, hafter⟩ := ih hrun
    exact ⟨t, hbefore, hafter.concat hs⟩

/-- A trace cut at a step. -/
theorem Trace.cut {before after : List (σ × α)} {p : σ × α}
    (h : Trace step s (before ++ p :: after) u) : Trace step s before p.1 ∧
      ∃ t, step p.1 p.2 = some t ∧ Trace step t after u := by
  rw [List.append_cons] at h
  obtain ⟨t, hbefore, hafter⟩ := h.split
  obtain ⟨hrun, hs⟩ := hbefore.last
  exact ⟨hrun, t, hs, hafter⟩

/-- A trace without steps stays where it is. -/
theorem Trace.eq_of_nil (h : Trace step s [] u) : u = s := by
  generalize hnil : ([] : List (σ × α)) = none at h
  cases h with
  | nil => rfl
  | concat _ _ => simp at hnil

/-- The first step of a trace. -/
theorem Trace.first {p : σ × α} (h : Trace step s (p :: steps) u) :
    p.1 = s ∧ ∃ t, step s p.2 = some t ∧ Trace step t steps u := by
  have hcut : Trace step s ([] ++ p :: steps) u := h
  obtain ⟨hbefore, t, hs, hafter⟩ := hcut.cut
  have hstart : p.1 = s := hbefore.eq_of_nil
  exact ⟨hstart, t, hstart ▸ hs, hafter⟩

/-- One step more in front. -/
theorem Trace.cons {a : α} (hs : step s a = some t) (h : Trace step t steps u) :
    Trace step s ((s, a) :: steps) u := by
  induction h with
  | nil => exact Trace.nil.concat hs
  | concat _ hlast ih => exact ih.concat hlast

/-- One trace after another. -/
theorem Trace.append {more : List (σ × α)} (h : Trace step s steps t) (h' : Trace step t more u) :
    Trace step s (steps ++ more) u := by
  induction h' with
  | nil =>
    rw [List.append_nil]
    exact h
  | concat _ hs ih =>
    rw [← List.append_assoc]
    exact ih.concat hs

/-- A trace whose steps all meet a condition is a run under it. -/
theorem Trace.reaches_of {ok : σ → α → Prop} (h : Trace step s steps t)
    (hok : ∀ t a, (t, a) ∈ steps → ok t a) : Reaches step ok s t := by
  induction h with
  | nil => exact .refl
  | concat _ hs ih =>
    refine (ih fun t a hmem => hok t a (List.mem_append_left _ hmem)).tail ?_ hs
    exact hok _ _ (List.mem_append_right _ List.mem_cons_self)

/-- The states of a trace that ends in a state, that one included. -/
def visited (steps : List (σ × α)) (last : σ) : List σ := steps.map Prod.fst ++ [last]

/-- A trace goes through each of its states. -/
theorem Trace.of_visited (h : Trace step s steps u) (ht : t ∈ visited steps u) :
    ∃ before, before <+: steps ∧ Trace step s before t := by
  rcases List.mem_append.mp ht with ht | ht
  · obtain ⟨p, hp, rfl⟩ := List.mem_map.mp ht
    obtain ⟨before, after, rfl⟩ := List.append_of_mem hp
    exact ⟨before, List.prefix_append _ _, h.cut.1⟩
  · obtain rfl := List.mem_singleton.mp ht
    exact ⟨steps, List.prefix_rfl, h⟩

/-- And what a step makes of one is the next. -/
theorem Trace.next_visited (h : Trace step s steps u) {a : α} (hmem : (t, a) ∈ steps) :
    ∃ t', step t a = some t' ∧ t' ∈ visited steps u := by
  obtain ⟨before, after, rfl⟩ := List.append_of_mem hmem
  obtain ⟨-, t', hs, hafter⟩ := h.cut
  refine ⟨t', hs, ?_⟩
  cases after with
  | nil =>
    obtain rfl := hafter.eq_of_nil
    simp [visited]
  | cons p after =>
    obtain ⟨rfl, -⟩ := hafter.first
    simp [visited]

end Trace

/-- Take the actions one after the other, and keep what was done. -/
def trace (step : σ → α → Option σ) (s : σ) : List α → Option (List (σ × α) × σ)
  | [] => some ([], s)
  | a :: as => (step s a).bind fun t => (trace step t as).map fun p => ((s, a) :: p.1, p.2)

/-- A list of actions that goes through is a trace. -/
theorem trace_of_trace {step : σ → α → Option σ} {s t : σ} {as : List α} {steps : List (σ × α)}
    (h : trace step s as = some (steps, t)) : Trace step s steps t := by
  induction as generalizing s steps with
  | nil =>
    obtain ⟨rfl, rfl⟩ := Prod.mk.inj (Option.some.inj h)
    exact .nil
  | cons a as ih =>
    obtain ⟨mid, hmid, hmap⟩ := Option.bind_eq_some_iff.mp h
    obtain ⟨⟨rest, last⟩, hrest, heq⟩ := Option.map_eq_some_iff.mp hmap
    obtain ⟨rfl, rfl⟩ := Prod.mk.inj heq
    exact .cons hmid (ih hrest)

/-- Of these very actions. -/
theorem trace_actions {step : σ → α → Option σ} {s t : σ} {as : List α} {steps : List (σ × α)}
    (h : trace step s as = some (steps, t)) : steps.map Prod.snd = as := by
  induction as generalizing s steps with
  | nil =>
    obtain ⟨rfl, -⟩ := Prod.mk.inj (Option.some.inj h)
    rfl
  | cons a as ih =>
    obtain ⟨mid, -, hmap⟩ := Option.bind_eq_some_iff.mp h
    obtain ⟨⟨rest, last⟩, hrest, heq⟩ := Option.map_eq_some_iff.mp hmap
    obtain ⟨rfl, rfl⟩ := Prod.mk.inj heq
    rw [List.map_cons, ih hrest]

/-- A computation that finds something in a concrete run finds a trace. -/
theorem exists_trace_of_trace {β : Type} {step : σ → α → Option σ} {s : σ} {as : List α}
    {f : List (σ × α) × σ → Option β} {b : β} (h : (trace step s as).bind f = some b) :
    ∃ steps t, Trace step s steps t ∧ f (steps, t) = some b := by
  obtain ⟨⟨steps, t⟩, hrun, ht⟩ := Option.bind_eq_some_iff.mp h
  exact ⟨steps, t, trace_of_trace hrun, ht⟩

/-! ## Concrete runs -/

/-- Take the actions one after the other. -/
def run (step : σ → α → Option σ) (ok : σ → α → Bool) (s : σ) : List α → Option σ
  | [] => some s
  | a :: as => if ok s a then (step s a).bind fun t => run step ok t as else none

/-- What it is for a list of actions to go through. -/
theorem run_cons {step : σ → α → Option σ} {ok : σ → α → Bool} {s u : σ} {a : α} {as : List α} :
    run step ok s (a :: as) = some u ↔
      ok s a = true ∧ ∃ t, step s a = some t ∧ run step ok t as = some u := by
  rw [run]
  split
  · next hok => simp [hok, Option.bind_eq_some_iff]
  · next hok => simp [hok]

/-- A list of actions that goes through is a run. -/
theorem reaches_of_run {step : σ → α → Option σ} {ok : σ → α → Prop} [∀ s a, Decidable (ok s a)]
    {s t : σ} {as : List α} (h : run step (fun s a => decide (ok s a)) s as = some t) :
    Reaches step ok s t := by
  induction as generalizing s with
  | nil =>
    obtain rfl := Option.some.inj h
    exact .refl
  | cons a as ih =>
    rw [run] at h
    split at h
    · next hok =>
      obtain ⟨mid, hmid, hrest⟩ := Option.bind_eq_some_iff.mp h
      exact ((Reaches.refl.tail (of_decide_eq_true hok) hmid).trans (ih hrest))
    · cases h

/-- A computation that finds something in the last state of a run finds a reached state. -/
theorem exists_reaches_of_run {β : Type} {step : σ → α → Option σ} {ok : σ → α → Prop}
    [∀ s a, Decidable (ok s a)] {s : σ} {as : List α} {f : σ → Option β} {b : β}
    (h : (run step (fun s a => decide (ok s a)) s as).bind f = some b) :
    ∃ t, Reaches step ok s t ∧ f t = some b := by
  obtain ⟨t, hrun, ht⟩ := Option.bind_eq_some_iff.mp h
  exact ⟨t, reaches_of_run hrun, ht⟩

end Lts
