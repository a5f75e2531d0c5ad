import GumServer.Reconciler

/-!
# Stale deposits come up

The passes of a replica work off a line of deposits, the least recently touched first. This holds
through everything that goes on beside them, so the argument about such a line (`OldestFirst`)
carries over: each run of the fleet is a run of the line (`Fleet.exists_views`), with a batch taken
for each pass that begins and a deposit left as it is for each poll that comes to nothing.
-/

namespace GumServer

namespace Fleet

variable {env : Env} {s s' : Fleet} {a : FleetAction} {w : World} {sweep : Sweep}
  {rows : List (ℕ × Uuid)} {replica : ℕ}

/-! ## Counting -/

/-- Whether the deposit a replica is at has a report that says nothing. -/
def silent (s : Fleet) (replica : ℕ) (sweep : Sweep) : Bool :=
  match s.turn replica sweep with
  | (name, _) :: _ => (s.world.tasks.get? name).any Task.silent
  | [] => false

/-- How many deposits of its batch a step leaves as they were. -/
def leaves (replica : ℕ) (sweep : Sweep) (s : Fleet) : FleetAction → ℕ
  | .skip r => if r = replica ∧ s.turn replica sweep ≠ [] then 1 else 0
  | .stop r => if r = replica then (s.turn replica sweep).length else 0
  | .proceed r _ _ => if r = replica ∧ s.silent replica sweep = true then 1 else 0
  | .service _ | .select _ _ _ => 0

/-- The deposits that a replica's passes have left as they were. -/
def leftAsIs (replica : ℕ) (sweep : Sweep) (steps : List (Fleet × FleetAction)) : ℕ :=
  (steps.map fun p => leaves replica sweep p.1 p.2).sum

/-- The passes a replica has begun. -/
def begun (replica : ℕ) (sweep : Sweep) : List (Fleet × FleetAction) → ℕ :=
  List.countP fun p => match p.2 with
    | .select r q _ => decide (r = replica) && decide (q = sweep)
    | _ => false

/-- What a replica's pass sees of the service: the line, and what it has not come to yet. -/
def view (s : Fleet) (replica : ℕ) (sweep : Sweep) : OldestFirst.State Uuid :=
  ⟨s.world.clock.toMicros, s.world.line sweep, (s.turn replica sweep).map Prod.snd⟩

/-- The deposits a sweep may take. -/
def due (env : Env) (w : World) (sweep : Sweep) : Set Uuid :=
  {id | ∃ d, w.db.deposits.get? id = some d ∧ sweep.selects env w d = true}

/-- What a step comes to for one replica's passes. -/
structure Views (env : Env) (replica : ℕ) (sweep : Sweep) (s s' : Fleet) (a : FleetAction)
    (moves : List (OldestFirst.State Uuid × OldestFirst.Action Uuid)) : Prop where
  trace : Lts.Trace (OldestFirst.step BATCH) (s.view replica sweep) moves (s'.view replica sweep)
  takes : OldestFirst.takes moves = begun replica sweep [(s, a)]
  left : OldestFirst.left moves = leaves replica sweep s a
  taken : ∀ u due' batch, (u, .take due' batch) ∈ moves → ∃ rows,
    a = .select replica sweep rows ∧ batch = rows.map Prod.snd ∧ due' = due env s.world sweep

section Turns

theorem turn_of_pass {todo : List (ℕ × Uuid)}
    (h : s.passes.get? replica = some ⟨sweep, todo⟩) : s.turn replica sweep = todo := by
  rw [turn, h]
  exact if_pos rfl

@[simp] theorem turn_put_self {todo : List (ℕ × Uuid)} :
    (⟨w, s.passes.put replica ⟨sweep, todo⟩⟩ : Fleet).turn replica sweep = todo :=
  turn_of_pass (KeyMap.get?_put_self _ _ _)

theorem turn_of_idle (h : s.idle replica = true) : s.turn replica sweep = [] := by
  rw [idle] at h
  rw [turn]
  split
  · next p hp =>
    rw [hp, Option.all_some, List.isEmpty_iff] at h
    rw [h, ite_self]
  · rfl

/-- A pass of the other sweep is none of this one. -/
theorem turn_of_other {sweep' : Sweep} {todo : List (ℕ × Uuid)}
    (h : s.passes.get? replica = some ⟨sweep', todo⟩) (hne : sweep' ≠ sweep) :
    s.turn replica sweep = [] := by
  rw [turn, h]
  exact if_neg hne

/-- The step of another pass leaves a turn alone. -/
theorem turn_put_other {replica' : ℕ} {sweep' : Sweep} {todo : List (ℕ × Uuid)}
    (hidle : replica' = replica → s.turn replica sweep = [])
    (hne : ¬ (replica' = replica ∧ sweep' = sweep)) :
    (⟨w, s.passes.put replica' ⟨sweep', todo⟩⟩ : Fleet).turn replica sweep =
      s.turn replica sweep := by
  by_cases hr : replica' = replica
  · rw [hidle hr]
    subst hr
    exact turn_of_other (KeyMap.get?_put_self _ _ _) fun hq => hne ⟨rfl, hq⟩
  · rw [turn, turn]
    dsimp only
    rw [KeyMap.get?_put_ne _ _ (Ne.symm hr)]

/-- What is no pass of a replica's sweep has nothing of it. -/
theorem foreign {r : ℕ} {q : Sweep} {todo : List (ℕ × Uuid)}
    (h : s.passes.get? r = some ⟨q, todo⟩) (hne : ¬ (r = replica ∧ q = sweep)) :
    r = replica → s.turn replica sweep = [] := by
  rintro rfl
  exact turn_of_other h fun hq => hne ⟨rfl, hq⟩

end Turns

/-- Time goes on, and whatever a step touches goes to the end of the line. -/
theorem step_moves (h : step env s a = some s') (sweep : Sweep) :
    s.world.clock.toMicros ≤ s'.world.clock.toMicros ∧
      OldestFirst.Moves s.world.clock.toMicros (s.world.line sweep) (s'.world.line sweep) := by
  have hsame {w : World} (hdb : w.db = s.world.db) (hclock : w.clock = s.world.clock) :
      s.world.clock.toMicros ≤ w.clock.toMicros ∧
        OldestFirst.Moves s.world.clock.toMicros (s.world.line sweep) (w.line sweep) := by
    refine ⟨Int.le_of_eq (congrArg _ hclock.symm), ?_⟩
    intro id t ht
    rw [World.line, hdb] at ht
    exact .inl ht
  cases step_cases h with
  | service a w hleaves hstep => exact ⟨step_clock hstep, step_line hstep sweep⟩
  | select replica sweep' rows w hidle hbatch hloads =>
    exact hsame (Loaded.of_loads hloads).db (Loaded.of_loads hloads).clock
  | proceed replica input mint sweep' name id rest w hpass hstep =>
    exact ⟨step_clock hstep, step_line hstep sweep⟩
  | skip replica sweep' name id rest hpass => exact hsame rfl rfl
  | stop replica sweep' todo hpass => exact hsame rfl rfl

/-- A batch is of the oldest that are due. -/
theorem batch_of {ids : List Uuid} (h : w.isBatch env sweep ids = true) :
    OldestFirst.Batch BATCH (w.line sweep) (due env w sweep) ids := by
  simp only [World.isBatch, Bool.and_eq_true, decide_eq_true_eq, List.all_eq_true] at h
  obtain ⟨⟨⟨⟨hnodup, -⟩, hselected⟩, -⟩, hothers⟩ := h
  have hlater : ∀ k ∈ due env w sweep, k ∉ ids → ids.length = BATCH ∧ ∃ d,
      w.db.deposits.get? k = some d ∧
      ∀ id ∈ ids, ∃ t, w.touchedAt id = some t ∧ t ≤ d.updatedAt.toMicros := by
    rintro k ⟨d, hd, hselects⟩ hnot
    have hk : d.id = k := Table.key_of_get? hd
    have hrow := hothers d (Table.mem_of_get? hd)
    rw [hselects, Bool.not_true, Bool.false_or, Bool.or_eq_true, List.contains_iff_mem, hk,
      Bool.and_eq_true, decide_eq_true_eq, List.all_eq_true] at hrow
    obtain ⟨hfull, hall⟩ := hrow.resolve_left hnot
    refine ⟨hfull, d, hd, fun id hid => ?_⟩
    obtain ⟨t, ht, hle⟩ := (Option.any_eq_true _ _).mp (hall id hid)
    exact ⟨t, ht, of_decide_eq_true hle⟩
  refine ⟨hnodup, fun k hk hnot => (hlater k hk hnot).1, ?_⟩
  intro k hk hnot t ht k' hk'
  obtain ⟨-, d, hd, hall⟩ := hlater k hk hnot
  obtain ⟨d₀, hd₀, -, rfl⟩ := World.line_eq_some.mp ht
  obtain rfl := Option.some.inj (hd.symm.trans hd₀)
  obtain ⟨t', ht', hle⟩ := hall k' hk'
  obtain ⟨d', hd', hselects⟩ := (Option.any_eq_true _ _).mp (hselected k' hk')
  obtain ⟨e, he, rfl⟩ := Option.map_eq_some_iff.mp ht'
  obtain rfl := Option.some.inj (hd'.symm.trans he)
  exact ⟨_, World.line_eq_some.mpr ⟨d', hd', Sweep.covers_of_selects hselects, rfl⟩, hle⟩

namespace Views

open OldestFirst (Line)

/-- A step that is none of the pass's. -/
theorem pass (h : step env s a = some s') (hturn : s'.turn replica sweep = s.turn replica sweep)
    (hbegun : begun replica sweep [(s, a)] = 0) (hleaves : leaves replica sweep s a = 0) :
    Views env replica sweep s s' a [(s.view replica sweep,
      .pass s'.world.clock.toMicros (s'.world.line sweep))] where
  trace := by
    refine Lts.Trace.nil.concat ?_
    rw [OldestFirst.step, view, view, hturn]
    exact if_pos (step_moves h sweep)
  takes := hbegun.symm
  left := hleaves.symm
  taken u due' batch hmem := by
    obtain ⟨-, heq⟩ := Prod.mk.inj (List.mem_singleton.mp hmem)
    cases heq

/-- A step after which a few deposits are left as they were, from the head of the pass on. -/
theorem leave {done todo : List (ℕ × Uuid)} (h : step env s a = some s')
    (hturn : s.turn replica sweep = done ++ todo) (hturn' : s'.turn replica sweep = todo)
    (hbegun : begun replica sweep [(s, a)] = 0)
    (hleaves : leaves replica sweep s a = done.length) :
    ∃ moves, Views env replica sweep s s' a moves := by
  obtain ⟨hclock, hmoves⟩ := step_moves h sweep
  have hrun (now : ℤ) (line : Line Uuid) (done todo : List Uuid) : ∃ moves,
      Lts.Trace (OldestFirst.step BATCH) ⟨now, line, done ++ todo⟩ moves ⟨now, line, todo⟩ ∧
      OldestFirst.takes moves = 0 ∧ OldestFirst.left moves = done.length ∧
      ∀ u due' batch, (u, OldestFirst.Action.take due' batch) ∉ moves := by
    induction done with
    | nil => exact ⟨[], .nil, rfl, rfl, fun _ _ _ => List.not_mem_nil⟩
    | cons id done ih =>
      obtain ⟨moves, htrace, htakes, hleft, hnone⟩ := ih
      refine ⟨_, .cons (a := .leave) rfl htrace, ?_, ?_, ?_⟩
      · rw [OldestFirst.takes, List.countP_cons, ← OldestFirst.takes, htakes]
        rfl
      · rw [OldestFirst.left, List.countP_cons, ← OldestFirst.left, hleft]
        rfl
      · intro u due' batch hmem
        rcases List.mem_cons.mp hmem with heq | hmem
        · cases (Prod.mk.inj heq).2
        · exact hnone u due' batch hmem
  obtain ⟨moves, htrace, htakes, hleft, hnone⟩ := hrun s'.world.clock.toMicros
    (s'.world.line sweep) (done.map Prod.snd) (todo.map Prod.snd)
  refine ⟨(s.view replica sweep, .pass s'.world.clock.toMicros (s'.world.line sweep)) :: moves,
    ?_, ?_, ?_, ?_⟩
  · have hview : s'.view replica sweep = ⟨s'.world.clock.toMicros, s'.world.line sweep,
        todo.map Prod.snd⟩ := by rw [view, hturn']
    rw [hview]
    refine .cons ?_ htrace
    rw [OldestFirst.step, view, hturn, List.map_append]
    exact if_pos ⟨hclock, hmoves⟩
  · rw [OldestFirst.takes, List.countP_cons, ← OldestFirst.takes, htakes, hbegun]
    rfl
  · rw [OldestFirst.left, List.countP_cons, ← OldestFirst.left, hleft, hleaves, List.length_map]
    rfl
  · intro u due' batch hmem
    rcases List.mem_cons.mp hmem with heq | hmem
    · cases (Prod.mk.inj heq).2
    · exact (hnone u due' batch hmem).elim

/-- **Every step is one of the line**, or a few: for each replica and each of its passes. -/
theorem of_step (htended : Tended s) (h : step env s a = some s') (replica : ℕ) (sweep : Sweep) :
    ∃ moves, Views env replica sweep s s' a moves := by
  cases step_cases h with
  | service a w hleaves hstep => exact ⟨_, pass h rfl rfl rfl⟩
  | select r q rows w hidle hbatch hloads =>
    by_cases hown : r = replica ∧ q = sweep
    · obtain ⟨rfl, rfl⟩ := hown
      have hloaded := Loaded.of_loads hloads
      refine ⟨[(s.view r q, .take (due env s.world q) (rows.map Prod.snd))], ?_, ?_, rfl, ?_⟩
      · have hline : w.line q = s.world.line q := by
          funext id
          rw [World.line, World.line, hloaded.db]
        have hview : view ⟨w, s.passes.put r ⟨q, rows⟩⟩ r q =
            ⟨s.world.clock.toMicros, s.world.line q, rows.map Prod.snd⟩ := by
          rw [view, turn_put_self, hloaded.clock, hline]
        rw [hview]
        refine Lts.Trace.nil.concat ?_
        rw [OldestFirst.step, view, turn_of_idle hidle]
        exact if_pos ⟨rfl, batch_of hbatch⟩
      · simp [OldestFirst.takes, begun]
      · intro u due' batch hmem
        obtain ⟨-, heq⟩ := Prod.mk.inj (List.mem_singleton.mp hmem)
        obtain ⟨rfl, rfl⟩ := by simpa using heq
        exact ⟨rows, rfl, rfl, rfl⟩
    · refine ⟨_, pass h (turn_put_other ?_ hown) ?_ rfl⟩
      · rintro rfl
        exact turn_of_idle hidle
      · simp only [begun, List.countP_singleton]
        rw [if_neg]
        simpa using hown
  | proceed r input mint q name id rest w hpass hstep =>
    by_cases hown : r = replica ∧ q = sweep
    · obtain ⟨rfl, rfl⟩ := hown
      have hturn := turn_of_pass hpass
      obtain ⟨-, t, ht, -, hend⟩ := htended.proceed hpass hstep
      have hleaves : leaves r q s (.proceed r input mint) = if t.silent then 1 else 0 := by
        simp [leaves, silent, hturn, ht]
      rcases hend with ⟨t', ht', -, hloud⟩ | ⟨hnone, hend⟩
      · -- the deposit is still in hand
        refine ⟨_, pass h ?_ rfl (hleaves.trans ?_)⟩
        · rw [turn_put_self, ht', hturn]
          rfl
        · rw [hloud]
          rfl
      · rw [hnone] at h ⊢
        by_cases hsilent : t.silent = true
        · refine @leave _ _ _ _ _ _ [(name, id)] rest h hturn turn_put_self rfl ?_
          rw [hleaves, hsilent]
          rfl
        · have hserved := hend.resolve_left hsilent
          refine ⟨[(s.view r q, .serve (w.line q))], ?_, rfl, ?_, ?_⟩
          · have hclock : w.clock = s.world.clock := by
              cases GumServer.step_cases hstep
              rfl
            have hview : view ⟨w, s.passes.put r ⟨q, rest⟩⟩ r q =
                ⟨s.world.clock.toMicros, w.line q, rest.map Prod.snd⟩ := by
              rw [view, turn_put_self, hclock]
            refine Lts.Trace.nil.concat (Eq.trans ?_ (congrArg some hview.symm))
            rw [OldestFirst.step, view, hturn]
            refine if_pos ⟨step_line hstep q, fun t' ht' => ?_⟩
            obtain ⟨d, hd, hcovers, rfl⟩ := World.line_eq_some.mp ht'
            rcases hserved d hd with hstamped | hnot
            · rw [hstamped]
            · rw [hcovers] at hnot
              cases hnot
          · rw [hleaves, if_neg hsilent]
            rfl
          · intro u due' batch hmem
            obtain ⟨-, heq⟩ := Prod.mk.inj (List.mem_singleton.mp hmem)
            cases heq
    · have hidle := foreign hpass hown
      refine ⟨_, pass h (turn_put_other hidle hown) rfl ?_⟩
      refine if_neg ?_
      rintro ⟨rfl, hsilent⟩
      rw [silent, hidle rfl] at hsilent
      cases hsilent
  | skip r q name id rest hpass =>
    by_cases hown : r = replica ∧ q = sweep
    · obtain ⟨rfl, rfl⟩ := hown
      have hturn := turn_of_pass hpass
      refine @leave _ _ _ _ _ _ [(name, id)] rest h hturn turn_put_self rfl ?_
      rw [leaves, hturn]
      exact if_pos ⟨rfl, List.cons_ne_nil _ _⟩
    · have hidle := foreign hpass hown
      refine ⟨_, pass h (turn_put_other hidle hown) rfl ?_⟩
      refine if_neg ?_
      rintro ⟨rfl, hne⟩
      exact hne (hidle rfl)
  | stop r q todo hpass =>
    by_cases hown : r = replica ∧ q = sweep
    · obtain ⟨rfl, rfl⟩ := hown
      have hturn := turn_of_pass hpass
      refine @leave _ _ _ _ _ _ todo [] h (hturn.trans (List.append_nil todo).symm) turn_put_self
        rfl ?_
      rw [leaves, hturn]
      exact if_pos rfl
    · have hidle := foreign hpass hown
      refine ⟨_, pass h (turn_put_other hidle hown) rfl ?_⟩
      rw [leaves]
      split
      · next hr => rw [hidle hr, List.length_nil]
      · rfl

end Views

/-! ## Runs -/

theorem begun_append (replica : ℕ) (sweep : Sweep) (before after : List (Fleet × FleetAction)) :
    begun replica sweep (before ++ after) =
      begun replica sweep before + begun replica sweep after := List.countP_append

theorem leftAsIs_append (replica : ℕ) (sweep : Sweep)
    (before after : List (Fleet × FleetAction)) :
    leftAsIs replica sweep (before ++ after) =
      leftAsIs replica sweep before + leftAsIs replica sweep after := by
  rw [leftAsIs, List.map_append, List.sum_append, leftAsIs, leftAsIs]

/-- **A run of the fleet is one of the line**, for each replica and each of its sweeps. -/
theorem exists_views {s₀ : Fleet} {steps : List (Fleet × FleetAction)} (htended : Tended s₀)
    (h : Lts.Trace (step env) s₀ steps s) (replica : ℕ) (sweep : Sweep) : ∃ moves,
      Lts.Trace (OldestFirst.step BATCH) (s₀.view replica sweep) moves (s.view replica sweep) ∧
      OldestFirst.takes moves = begun replica sweep steps ∧
      OldestFirst.left moves = leftAsIs replica sweep steps ∧
      ∀ u due' batch, (u, .take due' batch) ∈ moves → ∃ t rows,
        (t, .select replica sweep rows) ∈ steps ∧ batch = rows.map Prod.snd ∧
        due' = due env t.world sweep := by
  suffices hall : Tended s ∧ ∃ moves,
      Lts.Trace (OldestFirst.step BATCH) (s₀.view replica sweep) moves (s.view replica sweep) ∧
      OldestFirst.takes moves = begun replica sweep steps ∧
      OldestFirst.left moves = leftAsIs replica sweep steps ∧
      ∀ u due' batch, (u, .take due' batch) ∈ moves → ∃ t rows,
        (t, .select replica sweep rows) ∈ steps ∧ batch = rows.map Prod.snd ∧
        due' = due env t.world sweep from hall.2
  induction h with
  | nil => exact ⟨htended, [], .nil, rfl, rfl, fun _ _ _ hmem => (List.not_mem_nil hmem).elim⟩
  | @concat steps t u a hrun hstep ih =>
    obtain ⟨htended, moves, htrace, htakes, hleft, htaken⟩ := ih
    obtain ⟨more, hviews⟩ := Views.of_step htended hstep replica sweep
    refine ⟨htended.step hstep, moves ++ more, htrace.append hviews.trace, ?_, ?_, ?_⟩
    · rw [OldestFirst.takes_append, htakes, hviews.takes, begun_append]
    · rw [OldestFirst.left_append, hleft, hviews.left, leftAsIs_append]
      rfl
    · intro v due' batch hmem
      rcases List.mem_append.mp hmem with hmem | hmem
      · obtain ⟨t', rows, hrows, hbatch, hdue⟩ := htaken v due' batch hmem
        exact ⟨t', rows, List.mem_append_left _ hrows, hbatch, hdue⟩
      · obtain ⟨rows, rfl, hbatch, hdue⟩ := hviews.taken v due' batch hmem
        exact ⟨t, rows, List.mem_append_right _ List.mem_cons_self, hbatch, hdue⟩

end Fleet

/-! ## What nobody touches -/

section Untouched

variable {env : Env} {w w' : World} {id : Uuid} {d d' : Deposit}

/-- A row at the end of a run is untouched, or its stamp is of the run. -/
theorem Reachable.touched (h : Reachable env w) (hrun : Lts.Reaches (step env) Lts.Any w w')
    (hd : w.db.deposits.get? id = some d) : w.clock.toMicros ≤ w'.clock.toMicros ∧
      ∃ d', w'.db.deposits.get? id = some d' ∧
        (Untouched d d' ∨ w.clock.toMicros ≤ d'.updatedAt.toMicros) := by
  refine hrun.invariant (P := fun u => w.clock.toMicros ≤ u.clock.toMicros ∧
    ∃ d', u.db.deposits.get? id = some d' ∧
      (Untouched d d' ∨ w.clock.toMicros ≤ d'.updatedAt.toMicros))
    ⟨Int.le_refl _, d, hd, .inl (.refl d)⟩ ?_
  rintro u a u' hu ⟨hclock, e, he, hstamp⟩ - hstep
  have hfit : JobsFit u := JobsFit.reachable (h.trans hu)
  refine ⟨hclock.trans (step_clock hstep), _, hfit.row_after hstep he, ?_⟩
  rcases (u.commits env a).row_touched u.clock e with hstamped | huntouched
  · rw [hstamped]
    exact .inr hclock
  · rcases hstamp with hsame | hlate
    · exact .inl (hsame.trans huntouched)
    · rw [huntouched.updatedAt]
      exact .inr hlate

/-- A row that has its old stamp at the end of a run was untouched all along. -/
theorem Reachable.untouched {u : World} (h : Reachable env w)
    (hbefore : Lts.Reaches (step env) Lts.Any w u) (hafter : Lts.Reaches (step env) Lts.Any u w')
    (hd : w.db.deposits.get? id = some d) (hd' : w'.db.deposits.get? id = some d')
    (hpast : d.updatedAt.toMicros < w.clock.toMicros) (hsame : d'.updatedAt = d.updatedAt) :
    w.clock.toMicros ≤ u.clock.toMicros ∧
      ∃ e, u.db.deposits.get? id = some e ∧ Untouched d e := by
  obtain ⟨hclock, e, he, hstamp⟩ := h.touched hbefore hd
  refine ⟨hclock, e, he, hstamp.resolve_right fun hlate => ?_⟩
  obtain ⟨-, d'', hd'', hstamp'⟩ := (h.trans hbefore).touched hafter he
  obtain rfl := Option.some.inj (hd'.symm.trans hd'')
  rw [← hsame] at hpast
  rcases hstamp' with huntouched | hlate'
  · rw [huntouched.updatedAt] at hpast
    omega
  · omega

end Untouched

/-- The other deposits of a sweep that were last touched no later than some time. -/
def World.ahead (w : World) (sweep : Sweep) (id : Uuid) (t : ℤ) : List Uuid :=
  (w.db.deposits.rows.filter fun d => sweep.covers d && decide (d.updatedAt.toMicros ≤ t) &&
    decide (d.id ≠ id)).map Deposit.id

theorem World.mem_ahead {w : World} {sweep : Sweep} {id k : Uuid} {t t' : ℤ} (hne : k ≠ id)
    (hline : w.line sweep k = some t') (hle : t' ≤ t) : k ∈ w.ahead sweep id t := by
  obtain ⟨d, hd, hcovers, rfl⟩ := World.line_eq_some.mp hline
  have hk : d.id = k := Table.key_of_get? hd
  refine List.mem_map.mpr ⟨d, List.mem_filter.mpr ⟨Table.mem_of_get? hd, ?_⟩, hk⟩
  simp [hcovers, hle, hk, hne]

/-- **No stale deposit is forgotten.** A run of the replicas is a run of the service. From any point
of it on, amid webhooks, workers, operators and the other replicas, while a stale deposit is touched
by nobody and is in none of a replica's batches, the passes that replica begins, a hundred deposits
each, come to no more than the deposits that were ahead of it at the start, each once, and those the
passes leave as they were, because a poll was refused, the pass broke off, or a receipt said
nothing. -/
theorem stale_deposits_come_up (env : Env) (s₀ : Fleet) (hreachable : s₀.Reachable env)
    (steps : List (Fleet × FleetAction)) (s : Fleet)
    (h : Lts.Trace (Fleet.step env) s₀ steps s) (replica : ℕ) (sweep : Sweep)
    (id : Uuid) (d d' : Deposit)
    (hd : s₀.world.db.deposits.get? id = some d)
    (hselects : sweep.selects env s₀.world d = true)
    (hpast : d.updatedAt.toMicros < s₀.world.clock.toMicros)
    (hd' : s.world.db.deposits.get? id = some d') (hsame : d'.updatedAt = d.updatedAt) :
    Lts.Reaches (step env) Lts.Any s₀.world s.world ∧
    ((∃ t rows, (t, .select replica sweep rows) ∈ steps ∧ id ∈ rows.map Prod.snd) ∨
      BATCH * Fleet.begun replica sweep steps ≤
        (s₀.world.ahead sweep id d.updatedAt.toMicros).length +
          Fleet.leftAsIs replica sweep steps) := by
  refine ⟨Fleet.reaches_world h.reaches, ?_⟩
  by_cases htaken : ∃ t rows, (t, .select replica sweep rows) ∈ steps ∧ id ∈ rows.map Prod.snd
  · exact .inl htaken
  · refine .inr ?_
    have hworld := hreachable.world
    obtain ⟨moves, htrace, htakes, hleft, hdue⟩ :=
      Fleet.exists_views (.reachable hreachable) h replica sweep
    rw [← htakes, ← hleft]
    refine OldestFirst.takes_le (d := id) (t := d.updatedAt.toMicros) htrace hpast ?_ ?_ ?_
    · obtain ⟨-, e, he, huntouched⟩ :=
        hworld.untouched (Fleet.reaches_world h.reaches) .refl hd hd' hpast hsame
      obtain rfl := Option.some.inj (hd'.symm.trans he)
      refine World.line_eq_some.mpr ⟨d', hd', ?_, by rw [hsame]⟩
      rw [Sweep.covers_untouched huntouched]
      exact Sweep.covers_of_selects hselects
    · intro u due' batch hmem
      obtain ⟨t, rows, hrows, rfl, rfl⟩ := hdue u due' batch hmem
      obtain ⟨t', hbefore, hstep, hafter⟩ := h.of_mem hrows
      have hon : Lts.Reaches (Fleet.step env) Lts.Any t s :=
        (Lts.Reaches.refl.tail trivial hstep).trans hafter
      obtain ⟨hclock, e, he, huntouched⟩ := hworld.untouched (Fleet.reaches_world hbefore)
        (Fleet.reaches_world hon) hd hd' hpast hsame
      refine ⟨⟨e, he, Sweep.selects_untouched huntouched hclock hselects⟩, fun hid => ?_⟩
      exact htaken ⟨t, rows, hrows, hid⟩
    · intro k t' hne hline hle
      exact World.mem_ahead hne hline hle

namespace Fixture

/-- The fixture's deposit is created, gets its watch, and is left alone for half an hour. -/
def untilStale : List FleetAction :=
  untilWatched.map .service ++ [.service (.tick (later 1800))]

/-- Two passes of a replica, in which the indexer refuses to say how the watch is. -/
def refusedTwice : List FleetAction := [
  .select 0 .openDeposits [(9, 7)],
  .skip 0,
  .select 0 .openDeposits [(9, 7)],
  .skip 0]

/-- Whether the deposit is due, and untouched by the passes. -/
def passedBy (s : Fleet) (d d' : Deposit) : Bool :=
  Sweep.openDeposits.selects env s.world d &&
  decide (d.updatedAt.toMicros < s.world.clock.toMicros) && decide (d'.updatedAt = d.updatedAt)

/-- What the passes come to, and what is ahead of the deposit. -/
def passes (s : Fleet) (p : List (Fleet × FleetAction) × Fleet) : Option (Bool × ℕ × ℕ × ℕ) :=
  (s.world.db.deposits.get? 7).bind fun d => (p.2.world.db.deposits.get? 7).map fun d' =>
    (passedBy s d d', Fleet.begun 0 .openDeposits p.1, Fleet.leftAsIs 0 .openDeposits p.1,
      (s.world.ahead .openDeposits 7 d.updatedAt.toMicros).length)

end Fixture

/-- On the fixture's deposit, which nothing is ahead of: two passes are begun and two deposits left
as they were, so it was in one of the two. -/
theorem stale_deposits_come_up_fixture : ∃ s₀ steps s, Fleet.Reachable Fixture.env s₀ ∧
    Lts.Trace (Fleet.step Fixture.env) s₀ steps s ∧ Fleet.begun 0 .openDeposits steps = 2 ∧
    Fleet.leftAsIs 0 .openDeposits steps = 2 ∧
    ∃ t rows, (t, .select 0 .openDeposits rows) ∈ steps ∧ 7 ∈ rows.map Prod.snd := by
  obtain ⟨s₀, hreach, hrun⟩ : ∃ s₀, Lts.Reaches (Fleet.step Fixture.env) Lts.Any
      (Fleet.init Fixture.requestedAt) s₀ ∧
      ((Lts.trace (Fleet.step Fixture.env) s₀ Fixture.refusedTwice).bind fun p =>
        Fixture.passes s₀ p) = some (true, 2, 2, 0) :=
    @Lts.exists_reaches_of_run _ _ _ _ _ _ _ Fixture.untilStale _ _ (by decide +kernel)
  obtain ⟨⟨steps, s⟩, htrace, hrun⟩ := Option.bind_eq_some_iff.mp hrun
  obtain ⟨d, hd, hrun⟩ := Option.bind_eq_some_iff.mp hrun
  obtain ⟨d', hd', hfound⟩ := Option.map_eq_some_iff.mp hrun
  obtain ⟨hpassed, hbegun, hleft, hahead⟩ := by simpa only [Prod.mk.injEq] using hfound
  simp only [Fixture.passedBy, Bool.and_eq_true, decide_eq_true_eq] at hpassed
  obtain ⟨⟨hselects, hpast⟩, hsame⟩ := hpassed
  have htrace : Lts.Trace (Fleet.step Fixture.env) s₀ steps s := Lts.trace_of_trace htrace
  have hreachable : Fleet.Reachable Fixture.env s₀ := ⟨_, hreach⟩
  refine ⟨s₀, steps, s, hreachable, htrace, hbegun, hleft, ?_⟩
  refine (stale_deposits_come_up Fixture.env s₀ hreachable steps s htrace 0 .openDeposits 7
    d d' hd hselects hpast hd' hsame).2.resolve_right ?_
  rw [hbegun, hleft, hahead]
  decide

end GumServer
