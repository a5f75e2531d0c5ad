import GumServer.Lts
import Mathlib.Data.List.Destutter

/-!
# Histories of a view

A view of a system shows one value in each of its states. Its `history` in a run is what it shows,
each change once. A view `Follows` a relation when no step takes it anywhere the relation does not
lead, and when, as long as there is room, wherever the relation leads there is a way. Then every
history is a chain of the relation (`Follows.history_isChain`), and every chain that there is room
for is a history (`Follows.exists_history`).
-/

namespace Lts

variable {σ α β : Type} [DecidableEq β] {step : σ → α → Option σ} {view : σ → β}

/-- What a view shows in the course of a run, each change once. -/
def history (view : σ → β) (steps : List (σ × α)) (last : σ) : List β :=
  ((visited steps last).map view).destutter (· ≠ ·)

section History

variable {s t u : σ} {steps : List (σ × α)}

/-- The states of a trace begin with the one it starts from. -/
theorem Trace.visited_eq_cons (h : Trace step s steps u) : ∃ after, visited steps u = s :: after := by
  cases steps with
  | nil =>
    obtain rfl := h.eq_of_nil
    exact ⟨[], rfl⟩
  | cons p steps =>
    obtain ⟨rfl, -⟩ := h.first
    exact ⟨visited steps u, rfl⟩

/-- A step in front that the view does not see. -/
theorem history_of_same {a : α} (h : Trace step t steps u) (hsame : view t = view s) :
    history view ((s, a) :: steps) u = history view steps u := by
  obtain ⟨after, hafter⟩ := h.visited_eq_cons
  have hvisited : visited ((s, a) :: steps) u = s :: visited steps u := rfl
  rw [history, history, hvisited, hafter, List.map_cons, List.map_cons, List.destutter_cons',
    List.destutter'_cons_neg, ← hsame, List.destutter_cons']
  exact not_not.mpr hsame.symm

/-- A step in front that the view sees. -/
theorem history_of_ne {a : α} (h : Trace step t steps u) (hne : view s ≠ view t) :
    history view ((s, a) :: steps) u = view s :: history view steps u := by
  obtain ⟨after, hafter⟩ := h.visited_eq_cons
  have hvisited : visited ((s, a) :: steps) u = s :: visited steps u := rfl
  rw [history, history, hvisited, hafter, List.map_cons, List.map_cons, List.destutter_cons',
    List.destutter'_cons_pos, List.destutter_cons']
  exact hne

/-- What the view does not see in front of a run leaves no trace in its history. -/
theorem Reaches.exists_history {b : β} {shown : List β}
    (hrun : Reaches step (fun t _ => view t = b) s t) (hview : view t = b)
    (h : ∃ steps u, Trace step t steps u ∧ history view steps u = shown) :
    ∃ steps u, Trace step s steps u ∧ history view steps u = shown := by
  induction hrun with
  | refl => exact h
  | tail _ hok hs ih =>
    obtain ⟨steps, u, htrace, rfl⟩ := h
    exact ih hok ⟨_, u, .cons hs htrace, history_of_same htrace (hview.trans hok.symm)⟩

end History

/-- A view of a system follows a relation. -/
structure Follows (step : σ → α → Option σ) (view : σ → β) (next : β → β → Prop) (P : σ → Prop)
    (room : ℕ → σ → Prop) : Prop where
  invariant : ∀ {s a t}, P s → step s a = some t → P t
  /-- no step leads anywhere else -/
  along : ∀ {s a t}, P s → step s a = some t → view t = view s ∨ next (view s) (view t)
  /-- to each next value there is a way, on which nothing is seen before the last step -/
  way : ∀ {n s b}, P s → room (n + 1) s → next (view s) b →
    ∃ t a u, Reaches step (fun t _ => view t = view s) s t ∧ view t = view s ∧
      step t a = some u ∧ view u = b ∧ room n u
  differs : ∀ {a b}, next a b → a ≠ b

namespace Follows

variable {next : β → β → Prop} {P : σ → Prop} {room : ℕ → σ → Prop} {s u : σ}
  {steps : List (σ × α)}

omit [DecidableEq β] in
theorem reaches (h : Follows step view next P room) {ok : σ → α → Prop} (hs : P s)
    (hrun : Reaches step ok s u) : P u :=
  hrun.invariant hs fun _ ht _ hstep => h.invariant ht hstep

/-- **A history is a chain of the relation** that begins where the view stands. -/
theorem history_isChain (h : Follows step view next P room) (hs : P s)
    (htrace : Trace step s steps u) : (history view steps u).IsChain next ∧
      ∃ rest, history view steps u = view s :: rest := by
  induction steps generalizing s with
  | nil =>
    obtain rfl := htrace.eq_of_nil
    exact ⟨.singleton _, [], rfl⟩
  | cons p steps ih =>
    obtain ⟨rfl, t, hstep, hafter⟩ := htrace.first
    obtain ⟨hchain, rest, hrest⟩ := ih (h.invariant hs hstep) hafter
    rcases h.along hs hstep with hsame | hnext
    · rw [history_of_same hafter hsame]
      exact ⟨hchain, rest, hrest.trans (by rw [hsame])⟩
    · rw [history_of_ne hafter (h.differs hnext)]
      refine ⟨?_, _, rfl⟩
      rw [hrest] at hchain ⊢
      exact .cons_cons hnext hchain

/-- **Every chain is a history**, as long as there is room for it. -/
theorem exists_history (h : Follows step view next P room) (hs : P s) {rest : List β}
    (hroom : room rest.length s) (hchain : (view s :: rest).IsChain next) :
    ∃ steps u, Trace step s steps u ∧ history view steps u = view s :: rest := by
  induction rest generalizing s with
  | nil => exact ⟨[], s, .nil, rfl⟩
  | cons b rest ih =>
    obtain ⟨hnext, hafter⟩ := List.isChain_cons_cons.mp hchain
    obtain ⟨t, a, u, hrun, hview, hstep, rfl, hroom'⟩ := h.way hs hroom hnext
    obtain ⟨steps, last, htrace, hhistory⟩ :=
      ih (h.invariant (h.reaches hs hrun) hstep) hroom' hafter
    refine hrun.exists_history hview ⟨_, last, .cons hstep htrace, ?_⟩
    rw [history_of_ne htrace (hview ▸ h.differs hnext), hhistory, hview]

end Follows

end Lts
