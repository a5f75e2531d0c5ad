import GumServer.Lts
import Mathlib.Algebra.Order.Ring.Int
import Mathlib.Tactic.Linarith

/-!
# A value fetched from afar

Many callers share a value that comes from somewhere slow and unreliable. It is kept for a while. A
caller that finds it too old fetches it again, and keeps the others waiting behind a lock meanwhile;
when that fails, all of them are served what was kept, and nobody tries again for some time. A
caller may be dropped at any time, with its lock and its fetch.

So whoever gets a value gets the last one fetched, and an older one than agreed only right after a
failure (`Trace.returned_ok`); an error is only for those who come before the first success
(`Trace.returned_error`); and the fetches are apart from each other (`Trace.spaced`), however many
callers there are (`Trace.fetches_le`).
-/

namespace Refresh

variable {V E : Type}

/-- What is kept: the last value with the time it was fetched, and when a fetch failed after it. -/
structure Cache (V : Type) where
  fetched : Option (ℤ × V)
  failedAt : Option ℤ

/-- For how long a value is good, and for how long a failure is not tried again. -/
structure Policy (E : Type) where
  ttl : ℤ
  backoff : ℤ
  /-- the error while a failure is not tried again and there is no value -/
  busy : E
  /-- an error that is known before anything is sent -/
  unreachable : Option E
  ttl_nonneg : 0 ≤ ttl
  backoff_pos : 0 < backoff

/-- What a caller finds. -/
inductive Lookup (V E : Type) : Type where
  | serve (v : V) : Lookup V E
  | refuse (e : E) : Lookup V E
  | fetch : Lookup V E

namespace Cache

variable (p : Policy E) (now : ℤ) (c : Cache V)

/-- Nothing yet. -/
def empty : Cache V := ⟨none, none⟩

/-- What is kept, or an error. -/
def stale (e : E) : Except E V :=
  match c.fetched with
  | some (_, v) => .ok v
  | none => .error e

/-- What a caller finds. -/
def lookup : Lookup V E :=
  match c.fetched.filter fun x => decide (now - x.1 < p.ttl) with
  | some (_, v) => .serve v
  | none =>
    if c.failedAt.any fun t => decide (now - t < p.backoff) then
      match c.stale p.busy with
      | .ok v => .serve v
      | .error e => .refuse e
    else
      match p.unreachable with
      | some e => .refuse e
      | none => .fetch

/-- What is kept after a fetch. -/
def settle : Except E V → Cache V
  | .ok v => ⟨some (now, v), none⟩
  | .error _ => { c with failedAt := some now }

/-- And what the caller that made it gets. -/
def result : Except E V → Except E V
  | .ok v => .ok v
  | .error e => c.stale e

end Cache

/-! ## Many callers -/

/-- The time, what is kept, and the caller with the lock, whose fetch is on its way. -/
structure State (V : Type) where
  now : ℤ
  cache : Cache V
  holder : Option ℕ

/-- What can happen. -/
inductive Action (V E : Type) : Type where
  | tick (now : ℤ) : Action V E
  /-- a caller gets the lock, and looks -/
  | call (caller : ℕ) : Action V E
  /-- a fetch is answered -/
  | answer (response : Except E V) : Action V E
  /-- the caller with the lock is dropped -/
  | cancel : Action V E

/-- One step. -/
def step (p : Policy E) (s : State V) : Action V E → Option (State V)
  | .tick now => if s.now ≤ now then some { s with now := now } else none
  | .call caller =>
    if s.holder.isNone then
      match s.cache.lookup p s.now with
      | .fetch => some { s with holder := some caller }
      | _ => some s
    else none
  | .answer response =>
    s.holder.map fun _ => { s with cache := s.cache.settle s.now response, holder := none }
  | .cancel => s.holder.map fun _ => { s with holder := none }

/-- What a caller gets in a step. -/
def returned (p : Policy E) (s : State V) : Action V E → Option (Except E V)
  | .call _ =>
    match s.cache.lookup p s.now with
    | .serve v => some (.ok v)
    | .refuse e => some (.error e)
    | .fetch => none
  | .answer response => s.holder.map fun _ => s.cache.result response
  | .tick _ | .cancel => none

/-- Before the first call. -/
def State.init (now : ℤ) : State V := ⟨now, .empty, none⟩

/-- The answer a step brings to a fetch, with its time. -/
def answered (s : State V) : Action V E → Option (ℤ × Except E V)
  | .answer response => s.holder.map fun _ => (s.now, response)
  | .tick _ | .call _ | .cancel => none

/-- The fetches of a run, as far as they were answered. -/
def fetches (steps : List (State V × Action V E)) : List (ℤ × Except E V) :=
  steps.filterMap fun s => answered s.1 s.2

theorem fetches_concat (steps : List (State V × Action V E)) (s : State V) (a : Action V E) :
    fetches (steps ++ [(s, a)]) = fetches steps ++ (answered s a).toList := by
  rw [fetches, List.filterMap_append, List.filterMap_cons, List.filterMap_nil]
  cases answered s a <;> rfl

/-! ## What is kept -/

/-- The last value fetched. -/
def lastFetched (fs : List (ℤ × Except E V)) : Option (ℤ × V) :=
  (fs.filterMap fun x => x.2.toOption.map fun v => (x.1, v)).getLast?

/-- When the last fetch failed, if it did. -/
def lastFailed (fs : List (ℤ × Except E V)) : Option ℤ :=
  fs.getLast?.bind fun x =>
    match x.2 with
    | .ok _ => none
    | .error _ => some x.1

/-- What is to be kept of the fetches. -/
def kept (fs : List (ℤ × Except E V)) : Cache V := ⟨lastFetched fs, lastFailed fs⟩

theorem kept_concat (fs : List (ℤ × Except E V)) (now : ℤ) (response : Except E V) :
    kept (fs ++ [(now, response)]) = (kept fs).settle now response := by
  cases response with
  | ok v => simp [kept, lastFetched, lastFailed, Cache.settle, Except.toOption]
  | error e => simp [kept, lastFetched, lastFailed, Cache.settle, Except.toOption]

/-- Failures leave the last value what it was. -/
theorem lastFetched_append {fs gs : List (ℤ × Except E V)} (h : ∀ x ∈ gs, ∃ e, x.2 = .error e) :
    lastFetched (fs ++ gs) = lastFetched fs := by
  have hnone : gs.filterMap (fun x => x.2.toOption.map fun v => (x.1, v)) = [] := by
    rw [List.filterMap_eq_nil_iff]
    intro x hx
    obtain ⟨e, he⟩ := h x hx
    rw [he]
    rfl
  rw [lastFetched, List.filterMap_append, hnone, List.append_nil, lastFetched]

/-- The time to wait after a fetch. -/
def Policy.wait (p : Policy E) : Except E V → ℤ
  | .ok _ => p.ttl
  | .error _ => p.backoff

theorem Policy.wait_nonneg (p : Policy E) (response : Except E V) : 0 ≤ p.wait response := by
  cases response with
  | ok v => exact p.ttl_nonneg
  | error e => exact p.backoff_pos.le

section Lookup

variable {p : Policy E} {now : ℤ} {c : Cache V} {fs : List (ℤ × Except E V)}

/-- A value that is served is the one that is kept, and it is good, or a failure excuses it. -/
theorem Cache.lookup_serve {v : V} (h : c.lookup p now = .serve v) : ∃ t, c.fetched = some (t, v) ∧
    (now - t < p.ttl ∨ ∃ t', c.failedAt = some t' ∧ now - t' < p.backoff) := by
  rw [lookup] at h
  split at h
  · next t v' hgood =>
    obtain rfl := Lookup.serve.inj h
    obtain ⟨hkept, hgood⟩ := Option.filter_eq_some_iff.mp hgood
    exact ⟨t, hkept, .inl (of_decide_eq_true hgood)⟩
  · split at h
    · next hfailed =>
      obtain ⟨t', ht', hlate⟩ := (Option.any_eq_true _ _).mp hfailed
      rw [stale] at h
      cases hkept : c.fetched with
      | none =>
        rw [hkept] at h
        cases h
      | some x =>
        rw [hkept] at h
        obtain rfl := Lookup.serve.inj h
        exact ⟨x.1, rfl, .inr ⟨t', ht', of_decide_eq_true hlate⟩⟩
    · split at h <;> cases h

/-- Nobody is refused what is kept, as long as the source can be reached. -/
theorem Cache.lookup_refuse {e : E} (h : c.lookup p now = .refuse e) :
    c.fetched = none ∨ p.unreachable = some e := by
  rw [lookup] at h
  split at h
  · cases h
  · split at h
    · rw [stale] at h
      cases hkept : c.fetched with
      | none => exact .inl rfl
      | some x =>
        rw [hkept] at h
        cases h
    · split at h
      · next e' he' =>
        obtain rfl := Lookup.refuse.inj h
        exact .inr he'
      · cases h

/-- **Whoever fetches has waited**: since the last fetch, as long as its outcome asks for. -/
theorem lookup_fetch (h : (kept fs).lookup p now = .fetch) :
    p.unreachable = none ∧ ∀ x ∈ fs.getLast?, x.1 + p.wait x.2 ≤ now := by
  rw [Cache.lookup] at h
  split at h
  · cases h
  · next hold =>
    split at h
    · split at h <;> cases h
    · next hfailed =>
      split at h
      · cases h
      · next hreachable =>
        refine ⟨hreachable, ?_⟩
        rintro ⟨t, response⟩ hlast
        obtain ⟨before, rfl⟩ := List.getLast?_eq_some_iff.mp hlast
        cases response with
        | ok v =>
          rw [kept_concat, Cache.settle] at hold
          have hlate := Option.filter_eq_none_iff.mp hold (t, v) rfl
          rw [decide_eq_true_eq] at hlate
          change t + p.ttl ≤ now
          omega
        | error e =>
          rw [kept_concat, Cache.settle] at hfailed
          simp only [Option.any_some, decide_eq_true_eq] at hfailed
          change t + p.backoff ≤ now
          omega

end Lookup

/-! ## Runs -/

/-- Fetches that keep their distance, each at a time that has come. -/
structure Spaced (p : Policy E) (now : ℤ) (fs : List (ℤ × Except E V)) : Prop where
  apart : fs.Pairwise fun x y => x.1 + p.wait x.2 ≤ y.1
  past : ∀ x ∈ fs, x.1 ≤ now

/-- **The state of a run**: what is kept is what the fetches leave, and whoever has the lock has
waited for it. -/
structure Inv (p : Policy E) (fs : List (ℤ × Except E V)) (s : State V) : Prop where
  cache : s.cache = kept fs
  spaced : Spaced p s.now fs
  waited : s.holder.isSome = true →
    p.unreachable = none ∧ ∀ x ∈ fs.getLast?, x.1 + p.wait x.2 ≤ s.now
  reached : fs ≠ [] → p.unreachable = none

section Runs

variable {p : Policy E} {fs : List (ℤ × Except E V)} {s s' : State V} {a : Action V E}
  {steps : List (State V × Action V E)} {start : ℤ}

/-- A fetch after the last one is after all of them. -/
theorem Spaced.concat {now : ℤ} (h : Spaced p now fs)
    (hlast : ∀ x ∈ fs.getLast?, x.1 + p.wait x.2 ≤ now) (response : Except E V) :
    Spaced p now (fs ++ [(now, response)]) where
  apart := by
    rw [List.pairwise_append]
    refine ⟨h.apart, List.pairwise_singleton _ _, ?_⟩
    intro x hx y hy
    rw [List.mem_singleton.mp hy]
    rcases List.eq_nil_or_concat fs with rfl | ⟨before, last, rfl⟩
    · cases hx
    · have hend := hlast last (by simp)
      rw [List.concat_eq_append] at hx
      rcases List.mem_append.mp hx with hx | hx
      · have hgap := (List.pairwise_append.mp (List.concat_eq_append ▸ h.apart)).2.2 x hx last
          (List.mem_singleton_self _)
        have hwait := p.wait_nonneg last.2
        change x.1 + p.wait x.2 ≤ now
        omega
      · rw [List.mem_singleton.mp hx]
        exact hend
  past := by
    intro x hx
    rcases List.mem_append.mp hx with hx | hx
    · exact h.past x hx
    · rw [List.mem_singleton.mp hx]

theorem Spaced.later {now now' : ℤ} (h : Spaced p now fs) (hnow : now ≤ now') : Spaced p now' fs where
  apart := h.apart
  past x hx := (h.past x hx).trans hnow

theorem Inv.init : Inv p ([] : List (ℤ × Except E V)) (State.init start) where
  cache := rfl
  spaced := ⟨.nil, fun x hx => by cases hx⟩
  waited h := by cases h
  reached h := absurd rfl h

/-- **A step keeps the state.** -/
theorem Inv.step (h : Inv p fs s) (hstep : step p s a = some s') :
    Inv p (fs ++ (answered s a).toList) s' := by
  cases a with
  | tick now =>
    rw [Refresh.step] at hstep
    split at hstep
    · next hlater =>
      obtain rfl := Option.some.inj hstep
      rw [answered, Option.toList_none, List.append_nil]
      refine ⟨h.cache, h.spaced.later hlater, ?_, h.reached⟩
      intro hheld
      obtain ⟨hreachable, hlast⟩ := h.waited hheld
      exact ⟨hreachable, fun x hx => (hlast x hx).trans hlater⟩
    · cases hstep
  | call caller =>
    rw [Refresh.step] at hstep
    rw [answered, Option.toList_none, List.append_nil]
    split at hstep
    · split at hstep
      · next hfetch =>
        obtain rfl := Option.some.inj hstep
        rw [h.cache] at hfetch
        exact ⟨h.cache, h.spaced, fun _ => lookup_fetch hfetch, h.reached⟩
      · obtain rfl := Option.some.inj hstep
        exact h
    · cases hstep
  | answer response =>
    obtain ⟨caller, hheld, rfl⟩ := Option.map_eq_some_iff.mp hstep
    obtain ⟨hreachable, hlast⟩ := h.waited (by rw [hheld]; rfl)
    have hanswered : answered s (.answer response) = some (s.now, response) := by
      rw [answered, hheld, Option.map_some]
    rw [hanswered]
    refine ⟨?_, h.spaced.concat hlast response, ?_, fun _ => hreachable⟩
    · rw [Option.toList_some, kept_concat, ← h.cache]
    · intro hheld
      cases hheld
  | cancel =>
    obtain ⟨caller, hheld, rfl⟩ := Option.map_eq_some_iff.mp hstep
    rw [answered, Option.toList_none, List.append_nil]
    refine ⟨h.cache, h.spaced, ?_, h.reached⟩
    intro hheld
    cases hheld

theorem Inv.of_trace (h : Lts.Trace (Refresh.step p) (State.init start) steps s) :
    Inv p (fetches steps) s := by
  induction h with
  | nil => exact .init
  | concat hrun hstep ih =>
    rw [fetches_concat]
    exact ih.step hstep

/-- **Whoever gets a value gets the last one fetched**: by itself just now, or not too long ago, or
else the last fetch has failed, and not long ago either. -/
theorem returned_ok (h : Lts.Trace (Refresh.step p) (State.init start) steps s) {v : V}
    (hreturned : returned p s a = some (.ok v)) :
    ∃ t, lastFetched (fetches (steps ++ [(s, a)])) = some (t, v) ∧
      (t = s.now ∨ s.now - t < p.ttl ∨
        ∃ t', lastFailed (fetches (steps ++ [(s, a)])) = some t' ∧ s.now - t' < p.backoff) := by
  have hinv := Inv.of_trace h
  rw [fetches_concat]
  cases a with
  | call caller =>
    rw [answered, Option.toList_none, List.append_nil]
    rw [returned] at hreturned
    split at hreturned
    · next v' hserve =>
      obtain rfl := Except.ok.inj (Option.some.inj hreturned)
      rw [hinv.cache] at hserve
      obtain ⟨t, hkept, hgood⟩ := Cache.lookup_serve hserve
      exact ⟨t, hkept, .inr hgood⟩
    · cases Option.some.inj hreturned
    · cases hreturned
  | answer response =>
    obtain ⟨caller, hheld, hresult⟩ := Option.map_eq_some_iff.mp hreturned
    have hanswered : answered s (.answer response) = some (s.now, response) := by
      rw [answered, hheld, Option.map_some]
    rw [hanswered, Option.toList_some]
    have hsettled := kept_concat (fetches steps) s.now response
    cases response with
    | ok v' =>
      obtain rfl := Except.ok.inj hresult
      exact ⟨s.now, congrArg Cache.fetched hsettled, .inl rfl⟩
    | error e =>
      rw [Cache.result, Cache.stale, hinv.cache] at hresult
      split at hresult
      · next t v' hkept =>
        obtain rfl := Except.ok.inj hresult
        refine ⟨t, (congrArg Cache.fetched hsettled).trans hkept, .inr (.inr ⟨s.now, ?_, ?_⟩)⟩
        · exact congrArg Cache.failedAt hsettled
        · rw [Int.sub_self]
          exact p.backoff_pos
      · cases hresult
  | tick now => cases hreturned
  | cancel => cases hreturned

/-- **An error is only for those who come before the first success.** -/
theorem returned_error (h : Lts.Trace (Refresh.step p) (State.init start) steps s) {e : E}
    (hreturned : returned p s a = some (.error e)) :
    lastFetched (fetches (steps ++ [(s, a)])) = none := by
  have hinv := Inv.of_trace h
  rw [fetches_concat]
  cases a with
  | call caller =>
    rw [answered, Option.toList_none, List.append_nil]
    rw [returned] at hreturned
    split at hreturned
    · cases Option.some.inj hreturned
    · next e' hrefuse =>
      rw [hinv.cache] at hrefuse
      rcases Cache.lookup_refuse hrefuse with hnothing | hunreachable
      · exact hnothing
      · by_cases hempty : fetches steps = []
        · rw [hempty]
          rfl
        · cases hunreachable.symm.trans (hinv.reached hempty)
    · cases hreturned
  | answer response =>
    obtain ⟨caller, hheld, hresult⟩ := Option.map_eq_some_iff.mp hreturned
    have hanswered : answered s (.answer response) = some (s.now, response) := by
      rw [answered, hheld, Option.map_some]
    rw [hanswered, Option.toList_some]
    cases response with
    | ok v => cases hresult
    | error e' =>
      rw [Cache.result, Cache.stale, hinv.cache] at hresult
      split at hresult
      · cases hresult
      · next hnothing =>
        exact (congrArg Cache.fetched (kept_concat (fetches steps) s.now (.error e'))).trans
          hnothing
  | tick now => cases hreturned
  | cancel => cases hreturned

/-- **Until another value has come, everybody gets the same**, and nobody an error. -/
theorem returned_same {before middle : List (State V × Action V E)} {s₁ : State V} {a₁ : Action V E}
    (h : Lts.Trace (Refresh.step p) (State.init start) (before ++ (s₁, a₁) :: middle) s) {v : V}
    (hfirst : returned p s₁ a₁ = some (.ok v))
    (hnone : ∀ x ∈ fetches (middle ++ [(s, a)]), ∃ e, x.2 = .error e) {result : Except E V}
    (hreturned : returned p s a = some result) : result = .ok v := by
  obtain ⟨t, hkept, -⟩ := returned_ok h.cut.1 hfirst
  have hlast : lastFetched (fetches (before ++ (s₁, a₁) :: middle ++ [(s, a)])) = some (t, v) := by
    rw [← hkept, ← @lastFetched_append V E (fetches (before ++ [(s₁, a₁)])) _ hnone, fetches, fetches,
      fetches, ← List.filterMap_append]
    simp only [List.append_assoc, List.cons_append, List.nil_append]
  cases result with
  | ok v' =>
    obtain ⟨t', hkept', -⟩ := returned_ok h hreturned
    obtain ⟨-, rfl⟩ := Prod.mk.inj (Option.some.inj (hkept'.symm.trans hlast))
    rfl
  | error e => cases (returned_error h hreturned).symm.trans hlast

/-- Times that keep a distance fill a span. -/
theorem length_le_of_apart {m t span : ℤ} {times : List ℤ}
    (hapart : times.Pairwise fun x y => x + m ≤ y) (hspan : ∀ x ∈ times, t ≤ x ∧ x ≤ t + span)
    (hne : times ≠ []) : (times.length : ℤ) * m ≤ span + m := by
  induction times generalizing t span with
  | nil => exact absurd rfl hne
  | cons x times ih =>
    obtain ⟨hfirst, hrest⟩ := List.pairwise_cons.mp hapart
    have hx := hspan x List.mem_cons_self
    rw [List.length_cons, Int.natCast_succ, Int.add_mul, Int.one_mul]
    by_cases hnil : times = []
    · subst hnil
      simp only [List.length_nil, Int.natCast_zero, Int.zero_mul]
      omega
    · -- the others are in what is left of the span after the first
      have hlater := @ih (x + m) (t + span - (x + m)) hrest (fun y hy => by
        have hy' := hspan y (List.mem_cons_of_mem _ hy)
        have := hfirst y hy
        omega) hnil
      omega

/-- **However many callers there are**, the fetches of a run are spread out: a span of time has no
more than fit into it. -/
theorem fetches_le (h : Lts.Trace (Refresh.step p) (State.init start) steps s) {m : ℤ} (hm : 0 ≤ m)
    (httl : m ≤ p.ttl) (hbackoff : m ≤ p.backoff) (t : ℤ) {span : ℤ} (hspan : 0 ≤ span) :
    (((fetches steps).countP fun x => decide (t ≤ x.1 ∧ x.1 ≤ t + span) : ℕ) : ℤ) * m ≤
      span + m := by
  have hapart := (Inv.of_trace h).spaced.apart
  have hwait (response : Except E V) : m ≤ p.wait response := by
    cases response with
    | ok v => exact httl
    | error e => exact hbackoff
  rw [List.countP_eq_length_filter]
  set inside := (fetches steps).filter fun x => decide (t ≤ x.1 ∧ x.1 ≤ t + span) with hinside
  have htimes : (inside.map Prod.fst).Pairwise fun x y => x + m ≤ y := by
    rw [List.pairwise_map]
    refine (hapart.filter _).imp ?_
    intro x y hxy
    have := hwait x.2
    omega
  by_cases hnil : inside = []
  · rw [hnil]
    simp only [List.length_nil, Int.natCast_zero, Int.zero_mul]
    omega
  · have hle := @length_le_of_apart m t span _ htimes (by
      intro x hx
      obtain ⟨y, hy, rfl⟩ := List.mem_map.mp hx
      exact of_decide_eq_true (List.mem_filter.mp hy).2) (by simpa using hnil)
    rwa [List.length_map] at hle

end Runs

end Refresh
