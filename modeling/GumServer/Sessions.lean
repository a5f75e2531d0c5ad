import GumServer.KeyMap
import GumServer.Lts

/-!
# Sessions over a shared state

A shared state is changed by sessions, each of which works on its own until it commits, and by
everything else. What a session has done before its commit is its own: it is part of the session
and not of the shared state. A session may be rolled back anywhere.

Others can only stand in its way, when they hold what it needs: a system says what is possible next
to some sessions, and that it is possible next to fewer. From this alone, a session that does not
commit leaves no trace (`Trace.without`): the run is one in which it never was.
-/

namespace Sessions

variable {σ δ α μ ι ρ : Type}

/-- How a session's next statement ends. -/
inductive Turn (σ δ ρ : Type) : Type where
  /-- it goes on -/
  | on (d : δ) : Turn σ δ ρ
  /-- it is over, rolled back, with a result -/
  | leave (r : ρ) : Turn σ δ ρ
  /-- it is over, committed, with a result -/
  | commit (s : σ) (r : ρ) : Turn σ δ ρ

/-- A shared state, and what happens to it. -/
structure System (σ δ α μ ι ρ : Type) where
  /-- a step of everything else, next to the sessions there are -/
  rest : List δ → σ → α → Option σ
  /-- a session, as it begins -/
  start : μ → δ
  /-- the next statement of a session, next to the others -/
  next : List δ → σ → δ → ι → Option (Turn σ δ ρ)
  rest_mono : ∀ {ds ds' s a s'}, ds' ⊆ ds → rest ds s a = some s' → rest ds' s a = some s'
  next_mono : ∀ {ds ds' s d i turn}, ds' ⊆ ds → next ds s d i = some turn →
    next ds' s d i = some turn

/-- The shared state, and the sessions there are. -/
structure State (σ δ : Type) where
  shared : σ
  sessions : KeyMap ℕ δ

/-- What can happen. -/
inductive Action (α μ ι : Type) : Type where
  | rest (a : α) : Action α μ ι
  | start (name : ℕ) (m : μ) : Action α μ ι
  | go (name : ℕ) (i : ι) : Action α μ ι
  /-- a session is rolled back where it is -/
  | quit (name : ℕ) : Action α μ ι

/-- Whether an action is a session's. -/
def Action.isOf (name : ℕ) : Action α μ ι → Bool
  | .rest _ => false
  | .start name' _ | .go name' _ | .quit name' => decide (name' = name)

namespace State

variable (s : State σ δ)

/-- Without one session. -/
def without (name : ℕ) : State σ δ := { s with sessions := s.sessions.erase name }

/-- After a session's turn. -/
def after (name : ℕ) : Turn σ δ ρ → State σ δ
  | .on d => { s with sessions := s.sessions.put name d }
  | .leave _ => s.without name
  | .commit t _ => { s.without name with shared := t }

end State

namespace System

variable (sys : System σ δ α μ ι ρ)

/-- The turn of a session that an action is. -/
def turn (s : State σ δ) : Action α μ ι → Option (δ × Turn σ δ ρ)
  | .go name i => (s.sessions.get? name).bind fun d =>
    (sys.next (s.sessions.erase name).values s.shared d i).map fun turn => (d, turn)
  | _ => none

/-- One step. -/
def step (s : State σ δ) : Action α μ ι → Option (State σ δ)
  | .rest a => (sys.rest s.sessions.values s.shared a).map fun t => { s with shared := t }
  | .start name m =>
    if (s.sessions.get? name).isNone then
      some { s with sessions := s.sessions.put name (sys.start m) }
    else none
  | .go name i => (sys.turn s (.go name i)).map fun p => s.after name p.2
  | .quit name => some (s.without name)

/-- The session an action commits. -/
def commits (s : State σ δ) (a : Action α μ ι) : Option δ :=
  (sys.turn s a).bind fun p =>
    match p.2 with
    | .commit _ _ => some p.1
    | _ => none

/-- The session an action ends with a result. -/
def replies (s : State σ δ) (a : Action α μ ι) : Option (δ × ρ) :=
  (sys.turn s a).bind fun p =>
    match p.2 with
    | .commit _ r | .leave r => some (p.1, r)
    | .on _ => none

end System

section Turn

variable {sys : System σ δ α μ ι ρ} {s t : State σ δ} {a : Action α μ ι} {d : δ}

/-- What it is for an action to be a session's turn. -/
theorem System.turn_eq_some {turn : Turn σ δ ρ} (h : sys.turn s a = some (d, turn)) :
    ∃ name i, a = .go name i ∧ s.sessions.get? name = some d ∧
      sys.next (s.sessions.erase name).values s.shared d i = some turn ∧
      sys.step s a = some (s.after name turn) := by
  cases a with
  | go name i =>
    have hstep : sys.step s (.go name i) = some (s.after name turn) := by
      rw [System.step, h, Option.map_some]
    obtain ⟨d', hd', hmap⟩ := Option.bind_eq_some_iff.mp h
    obtain ⟨turn', hnext, heq⟩ := Option.map_eq_some_iff.mp hmap
    obtain ⟨rfl, rfl⟩ := Prod.mk.inj heq
    exact ⟨name, i, rfl, hd', hnext, hstep⟩
  | rest a => cases h
  | start name m => cases h
  | quit name => cases h

/-- A session that can go on has a turn. -/
theorem System.turn_of_next {name : ℕ} {i : ι} {turn : Turn σ δ ρ}
    (hd : s.sessions.get? name = some d)
    (hnext : sys.next (s.sessions.erase name).values s.shared d i = some turn) :
    sys.turn s (.go name i) = some (d, turn) ∧
      sys.step s (.go name i) = some (s.after name turn) := by
  have hturn : sys.turn s (.go name i) = some (d, turn) := by
    rw [System.turn, hd, Option.bind_some, hnext, Option.map_some]
  exact ⟨hturn, by rw [System.step, hturn, Option.map_some]⟩

/-- What it is for one to commit. -/
theorem System.commits_eq_some (h : sys.commits s a = some d) :
    ∃ u r, sys.turn s a = some (d, .commit u r) := by
  obtain ⟨⟨d', turn⟩, hturn, hcommit⟩ := Option.bind_eq_some_iff.mp h
  cases turn with
  | commit u r =>
    obtain rfl := Option.some.inj hcommit
    exact ⟨u, r, hturn⟩
  | on d => cases hcommit
  | leave r => cases hcommit

/-- What it is for one to end with a result. -/
theorem System.replies_eq_some {r : ρ} (h : sys.replies s a = some (d, r)) :
    sys.turn s a = some (d, .leave r) ∨ ∃ u, sys.turn s a = some (d, .commit u r) := by
  obtain ⟨⟨d', turn⟩, hturn, hreply⟩ := Option.bind_eq_some_iff.mp h
  cases turn with
  | commit u r' =>
    obtain ⟨rfl, rfl⟩ := Prod.mk.inj (Option.some.inj hreply)
    exact .inr ⟨u, hturn⟩
  | leave r' =>
    obtain ⟨rfl, rfl⟩ := Prod.mk.inj (Option.some.inj hreply)
    exact .inl hturn
  | on d => cases hreply

/-- **Only a commit and the rest change the shared state.** -/
theorem System.step_shared (h : sys.step s a = some t) (hrest : ∀ b, a ≠ .rest b)
    (hcommits : sys.commits s a = none) : t.shared = s.shared := by
  cases a with
  | rest b => exact absurd rfl (hrest b)
  | start name m =>
    rw [System.step] at h
    split at h
    · obtain rfl := Option.some.inj h
      rfl
    · cases h
  | go name i =>
    obtain ⟨⟨d, turn⟩, hturn, rfl⟩ := Option.map_eq_some_iff.mp h
    cases turn with
    | on d' => rfl
    | leave r => rfl
    | commit u r =>
      rw [System.commits, hturn] at hcommits
      cases hcommits
  | quit name =>
    obtain rfl := Option.some.inj h
    rfl

/-- **Where a session comes from**: it was there, it has just begun, or it had its turn. -/
theorem System.step_session (h : sys.step s a = some t) {name : ℕ}
    (hd : t.sessions.get? name = some d) :
    s.sessions.get? name = some d ∨ (∃ m, a = .start name m ∧ d = sys.start m) ∨
    ∃ d' i, a = .go name i ∧ s.sessions.get? name = some d' ∧
      sys.next (s.sessions.erase name).values s.shared d' i = some (.on d) := by
  have hothers {name' : ℕ} (hget : (s.sessions.erase name').get? name = some d) :
      s.sessions.get? name = some d := by
    rw [KeyMap.get?_erase] at hget
    exact (Option.ite_none_left_eq_some.mp hget).2
  cases a with
  | rest a =>
    obtain ⟨u, -, rfl⟩ := Option.map_eq_some_iff.mp h
    exact .inl hd
  | start name' m =>
    obtain ⟨-, heq⟩ := Option.ite_none_right_eq_some.mp h
    obtain rfl := Option.some.inj heq
    rw [KeyMap.get?_put] at hd
    split at hd
    · next hname =>
      obtain rfl := hname
      exact .inr (.inl ⟨m, rfl, (Option.some.inj hd).symm⟩)
    · exact .inl hd
  | go name' i =>
    obtain ⟨⟨d', turn⟩, hturn, rfl⟩ := Option.map_eq_some_iff.mp h
    obtain ⟨_, _, heq, hd', hnext, -⟩ := System.turn_eq_some hturn
    obtain ⟨rfl, rfl⟩ := Action.go.inj heq
    cases turn with
    | on d'' =>
      rw [State.after, KeyMap.get?_put] at hd
      split at hd
      · next hname =>
        obtain rfl := hname
        obtain rfl := Option.some.inj hd
        exact .inr (.inr ⟨d', i, rfl, hd', hnext⟩)
      · exact .inl hd
    | leave r => exact .inl (hothers hd)
    | commit u r => exact .inl (hothers hd)
  | quit name' =>
    obtain rfl := Option.some.inj h
    exact .inl (hothers hd)

end Turn

/-! ## A session that does not commit -/

section Without

variable {sys : System σ δ α μ ι ρ} {s t : State σ δ} {a : Action α μ ι} {name : ℕ}

/-- A step of a session that does not commit is nothing to the rest. -/
theorem step_of (h : sys.step s a = some t) (hof : a.isOf name = true)
    (hcommits : sys.commits s a = none) : t.without name = s.without name := by
  cases a with
  | rest a => cases hof
  | start name' m =>
    obtain rfl : name' = name := of_decide_eq_true hof
    rw [System.step] at h
    split at h
    · obtain rfl := Option.some.inj h
      exact congrArg (State.mk s.shared) (s.sessions.erase_put_self name' _)
    · cases h
  | go name' i =>
    obtain rfl : name' = name := of_decide_eq_true hof
    obtain ⟨⟨d, turn⟩, hturn, rfl⟩ := Option.map_eq_some_iff.mp h
    cases turn with
    | on d' => exact congrArg (State.mk s.shared) (s.sessions.erase_put_self name' _)
    | leave r => exact congrArg (State.mk s.shared) (s.sessions.erase_erase_self name')
    | commit u r =>
      rw [System.commits, hturn] at hcommits
      cases hcommits
  | quit name' =>
    obtain rfl : name' = name := of_decide_eq_true hof
    obtain rfl := Option.some.inj h
    exact congrArg (State.mk s.shared) (s.sessions.erase_erase_self name')

/-- A step of anybody else is possible without the session. -/
theorem step_without (h : sys.step s a = some t) (hof : a.isOf name = false) :
    sys.step (s.without name) a = some (t.without name) := by
  cases a with
  | rest a =>
    obtain ⟨u, hu, rfl⟩ := Option.map_eq_some_iff.mp h
    exact Option.map_eq_some_iff.mpr
      ⟨u, sys.rest_mono (s.sessions.values_erase_subset name) hu, rfl⟩
  | start name' m =>
    have hne : name' ≠ name := of_decide_eq_false hof
    rw [System.step] at h ⊢
    split at h
    · next hfree =>
      obtain rfl := Option.some.inj h
      rw [State.without, KeyMap.get?_erase_ne _ hne, if_pos hfree, State.without,
        KeyMap.erase_put_ne _ _ hne]
    · cases h
  | go name' i =>
    have hne : name' ≠ name := of_decide_eq_false hof
    obtain ⟨⟨d, turn⟩, hturn, rfl⟩ := Option.map_eq_some_iff.mp h
    obtain ⟨d', hd', hmap⟩ := Option.bind_eq_some_iff.mp hturn
    obtain ⟨turn', hnext, heq⟩ := Option.map_eq_some_iff.mp hmap
    obtain ⟨rfl, rfl⟩ := Prod.mk.inj heq
    refine Option.map_eq_some_iff.mpr ⟨(d', turn'), ?_, ?_⟩
    · -- the others are fewer
      rw [System.turn, State.without, KeyMap.get?_erase_ne _ hne, hd', Option.bind_some,
        KeyMap.erase_erase]
      exact Option.map_eq_some_iff.mpr
        ⟨turn', sys.next_mono (KeyMap.values_erase_subset _ name) hnext, rfl⟩
    · cases turn' with
      | on d => exact congrArg (State.mk s.shared) (KeyMap.erase_put_ne _ d hne).symm
      | leave r => exact congrArg (State.mk s.shared) (KeyMap.erase_erase _ name name')
      | commit u r => exact congrArg (State.mk u) (KeyMap.erase_erase _ name name')
  | quit name' =>
    obtain rfl := Option.some.inj h
    exact congrArg (some ∘ State.mk s.shared) (KeyMap.erase_erase _ name name')

/-- **A session that does not commit leaves no trace.** -/
theorem Trace.without {steps : List (State σ δ × Action α μ ι)} (h : Lts.Trace sys.step s steps t)
    (hcommits : ∀ p ∈ steps, p.2.isOf name = true → sys.commits p.1 p.2 = none) :
    ∃ steps', Lts.Trace sys.step (s.without name) steps' (t.without name) ∧
      steps'.map Prod.snd = (steps.map Prod.snd).filter fun a => !a.isOf name := by
  induction h with
  | nil => exact ⟨[], .nil, rfl⟩
  | @concat steps t u a hrun hstep ih =>
    obtain ⟨steps', hrun', hactions⟩ := ih fun p hp => hcommits p (List.mem_append_left _ hp)
    rw [List.map_append, List.filter_append, ← hactions]
    cases hof : a.isOf name with
    | true =>
      refine ⟨steps', ?_, ?_⟩
      · rw [step_of hstep hof (hcommits (t, a) (by simp) hof)]
        exact hrun'
      · simp [hof]
    | false =>
      refine ⟨steps' ++ [(t.without name, a)], hrun'.concat (step_without hstep hof), ?_⟩
      simp [hof]

end Without

end Sessions
