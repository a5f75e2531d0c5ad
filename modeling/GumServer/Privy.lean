import GumServer.Chrono
import GumServer.KeyMap
import GumServer.Lts

/-!
# Users who come with a Privy token

`authenticate_privy` in `auth/mod.rs`: the first contact creates the user, and later calls refresh
the row at most once a minute. What keeps it to once a minute is a cache of the subjects seen
(`AppState::first_touch`), and a subject is entered there before its row is inserted. In between,
and for the rest of the minute if the insert fails, the cache vouches for a row that is not there.

A request is its token's subject and how far it has come; requests take their steps in any order.
-/

namespace GumServer.Privy

/-! ## Requests -/

/-- How far a request with a valid token has come. -/
inductive Stage : Type where
  /-- its token is verified -/
  | verified
  /-- `touched.contains_key` said no -/
  | unseen
  /-- `touched.insert` is done, and the statement is on its way -/
  | marked
deriving DecidableEq

/-- A request in flight. -/
structure Request where
  /-- `claims.sub` -/
  subject : String
  stage : Stage
deriving DecidableEq

/-- A `users` row, of what the statement writes. -/
structure User where
  webhookSecret : String
  lastSeenAt : DateTime

/-- How a statement ends for who sent it. -/
inductive Outcome : Type where
  /-- it committed, and says so -/
  | ok
  /-- an error, and nothing was committed -/
  | failed
  /-- it committed, but the answer was lost -/
  | unheard
deriving DecidableEq

/-- An instance, and the table it shares with others. -/
structure State where
  /-- the keys of the `touched` cache -/
  touched : List String
  users : KeyMap String User
  requests : KeyMap ℕ Request

/-- What can happen. -/
inductive Action : Type where
  | request (name : ℕ) (subject : String) : Action
  /-- `first_touch` looks up the subject -/
  | look (name : ℕ) : Action
  /-- `first_touch` enters it -/
  | mark (name : ℕ) : Action
  /-- the `INSERT … ON CONFLICT DO UPDATE` -/
  | insert (name : ℕ) (secret : String) (now : DateTime) (outcome : Outcome) : Action
  /-- the request is dropped, and its statement with it -/
  | drop (name : ℕ) : Action
  /-- the minute is over, or the cache full -/
  | expire (key : String) : Action
  /-- another instance's statement -/
  | elsewhere (subject secret : String) (now : DateTime) : Action

/-- The cache's key for a subject: `format!("user:{}", claims.sub)`. -/
def touchKey (subject : String) : String := "user:" ++ subject

theorem touchKey_injective : Function.Injective touchKey :=
  fun _ _ h => (String.append_right_inj "user:").mp h

namespace State

variable (s : State)

/-- The request is over. -/
def leave (name : ℕ) : State := { s with requests := s.requests.erase name }

/-- The request has come further. -/
def reach (name : ℕ) (subject : String) (stage : Stage) : State :=
  { s with requests := s.requests.put name ⟨subject, stage⟩ }

/-- `INSERT INTO users … ON CONFLICT (id) DO UPDATE SET last_seen_at = now()`. -/
def upsert (subject secret : String) (now : DateTime) : State :=
  let user := match s.users.get? subject with
    | some user => { user with lastSeenAt := now }
    | none => ⟨secret, now⟩
  { s with users := s.users.put subject user }

/-- Whether a row is there. -/
def hasRow (subject : String) : Bool := (s.users.get? subject).isSome

/-- The subject of a request that has come so far. -/
def subjectAt (name : ℕ) (stage : Stage) : Option String :=
  ((s.requests.get? name).filter (·.stage = stage)).map (·.subject)

end State

/-- One step. -/
def step (s : State) : Action → Option State
  | .request name subject =>
    if (s.requests.get? name).isNone then some (s.reach name subject .verified) else none
  | .look name => (s.subjectAt name .verified).map fun subject =>
    if touchKey subject ∈ s.touched then s.leave name else s.reach name subject .unseen
  | .mark name => (s.subjectAt name .unseen).map fun subject =>
    { s.reach name subject .marked with touched := touchKey subject :: s.touched }
  | .insert name secret now outcome => (s.subjectAt name .marked).map fun subject =>
    if outcome = .failed then s.leave name else (s.upsert subject secret now).leave name
  | .drop name => some (s.leave name)
  | .expire key => some { s with touched := s.touched.filter (· ≠ key) }
  | .elsewhere subject secret now => some (s.upsert subject secret now)

/-- The subject for which `authenticate_privy` returns `Ok` in a step. -/
def returnsOk (s : State) : Action → Option String
  | .look name => (s.subjectAt name .verified).filter fun subject => touchKey subject ∈ s.touched
  | .insert name _ _ .ok => s.subjectAt name .marked
  | _ => none

/-- An instance as it starts, on the users there are. -/
def init (users : KeyMap String User) : State := ⟨[], users, KeyMap.empty⟩

/-! ## What goes wrong -/

namespace State

variable (s : State)

/-- The cache has the subject, the table does not. -/
def unbacked (subject : String) : Bool :=
  decide (touchKey subject ∈ s.touched) && !s.hasRow subject

/-- Another request's insert is on its way. -/
def insertsOther (name : ℕ) (subject : String) : Bool :=
  (s.requests.erase name).values.contains ⟨subject, .marked⟩

end State

/-- An insert that comes to nothing leaves no mark on a subject without a row, or there is another
on its way; and nobody looks up such a subject while one is. -/
def undisturbed (s : State) : Action → Bool
  | .look name => (s.subjectAt name .verified).all fun subject =>
    !(s.unbacked subject && s.insertsOther name subject)
  | .insert name _ _ .failed | .drop name => (s.subjectAt name .marked).all fun subject =>
    !s.unbacked subject || s.insertsOther name subject
  | _ => true

/-- A subject in the cache without a row has an insert on its way. -/
def Vouched (s : State) : Prop :=
  ∀ subject, s.unbacked subject = true →
    ∃ name, s.requests.get? name = some ⟨subject, .marked⟩

section Lemmas

variable {s t : State} {name : ℕ} {subject : String}

theorem subjectAt_eq_some {stage : Stage} : s.subjectAt name stage = some subject ↔
    s.requests.get? name = some ⟨subject, stage⟩ := by
  rw [State.subjectAt]
  rcases s.requests.get? name with _ | ⟨subject', stage'⟩
  · simp
  · by_cases h : stage' = stage <;> simp [h]

theorem unbacked_iff : s.unbacked subject = true ↔
    touchKey subject ∈ s.touched ∧ s.hasRow subject = false := by
  simp [State.unbacked]

theorem insertsOther_iff : s.insertsOther name subject = true ↔
    ∃ name', name' ≠ name ∧ s.requests.get? name' = some ⟨subject, .marked⟩ := by
  rw [State.insertsOther, List.contains_iff_mem]
  constructor
  · intro h
    obtain ⟨name', hname'⟩ := KeyMap.exists_get?_of_mem_values h
    have hne : name' ≠ name := by
      rintro rfl
      simp at hname'
    rw [KeyMap.get?_erase_ne _ hne] at hname'
    exact ⟨name', hne, hname'⟩
  · rintro ⟨name', hne, hname'⟩
    rw [← KeyMap.get?_erase_ne _ hne] at hname'
    exact KeyMap.mem_values_of_get? hname'

/-- The statement leaves a row. -/
theorem hasRow_upsert {subject' secret : String} {now : DateTime} :
    (s.upsert subject secret now).hasRow subject' =
      (decide (subject' = subject) || s.hasRow subject') := by
  by_cases h : subject' = subject <;> simp [State.hasRow, State.upsert, h]

/-- What is left to show of a step, when it marks nobody. -/
theorem Vouched.of (h : Vouched s)
    (hunbacked : ∀ subject, t.unbacked subject = true → s.unbacked subject = true)
    (hrequests : ∀ subject name, t.unbacked subject = true →
      s.requests.get? name = some ⟨subject, .marked⟩ →
      ∃ name', t.requests.get? name' = some ⟨subject, .marked⟩) : Vouched t := by
  intro subject hsubject
  obtain ⟨name, hname⟩ := h subject (hunbacked subject hsubject)
  exact hrequests subject name hsubject hname

/-- A request that is over is not missed, if there is another for its subject. -/
theorem Vouched.leave (h : Vouched s) (hother : ∀ subject, s.unbacked subject = true →
    s.requests.get? name = some ⟨subject, .marked⟩ → s.insertsOther name subject = true) :
    Vouched (s.leave name) := by
  refine h.of (fun _ h => h) fun subject name' hsubject hname' => ?_
  by_cases heq : name' = name
  · subst heq
    obtain ⟨other, hne, hget⟩ := insertsOther_iff.mp (hother subject hsubject hname')
    exact ⟨other, (KeyMap.get?_erase_ne _ hne).trans hget⟩
  · exact ⟨name', (KeyMap.get?_erase_ne _ heq).trans hname'⟩

/-- Nor is one that was not marked, where it is now. -/
theorem Vouched.reach {subject' : String} {stage : Stage} (h : Vouched s)
    (hunmarked : ∀ subject, s.requests.get? name ≠ some ⟨subject, .marked⟩) :
    Vouched (s.reach name subject' stage) := by
  refine h.of (fun _ h => h) fun subject name' _ hname' => ⟨name', ?_⟩
  have hne : name' ≠ name := by
    rintro rfl
    exact hunmarked subject hname'
  exact (KeyMap.get?_put_ne _ _ hne).trans hname'

theorem Vouched.upsert {secret : String} {now : DateTime} (h : Vouched s) :
    Vouched (s.upsert subject secret now) := by
  refine h.of (fun subject' hsubject' => ?_) fun _ name _ hname => ⟨name, hname⟩
  obtain ⟨htouched, hrow⟩ := unbacked_iff.mp hsubject'
  rw [hasRow_upsert, Bool.or_eq_false_iff] at hrow
  exact unbacked_iff.mpr ⟨htouched, hrow.2⟩

/-- A marked subject has its insert on its way. -/
theorem Vouched.mark (h : Vouched s)
    (hunmarked : ∀ subject, s.requests.get? name ≠ some ⟨subject, .marked⟩) :
    Vouched { s.reach name subject .marked with touched := touchKey subject :: s.touched } := by
  intro subject' hsubject'
  obtain ⟨htouched, hrow⟩ := unbacked_iff.mp hsubject'
  by_cases heq : subject' = subject
  · subst heq
    exact ⟨name, KeyMap.get?_put_self _ _ _⟩
  · rcases List.mem_cons.mp htouched with hkey | hold
    · exact absurd (touchKey_injective hkey) heq
    · exact h.reach hunmarked subject' (unbacked_iff.mpr ⟨hold, hrow⟩)

/-- A request at another stage is not marked. -/
theorem not_marked {stage : Stage} (hsubject : s.subjectAt name stage = some subject)
    (hne : stage ≠ .marked) (subject' : String) :
    s.requests.get? name ≠ some ⟨subject', .marked⟩ := by
  rw [subjectAt_eq_some.mp hsubject]
  rintro ⟨⟩
  exact hne rfl

/-- A request may go when nothing hangs on it. -/
theorem Vouched.leave_of_undisturbed (h : Vouched s)
    (hok : ((s.subjectAt name .marked).all fun subject =>
      !s.unbacked subject || s.insertsOther name subject) = true) : Vouched (s.leave name) := by
  apply h.leave
  intro subject hunbacked hname
  rw [subjectAt_eq_some.mpr hname, Option.all_some, hunbacked] at hok
  exact hok

/-- **One step.** -/
theorem Vouched.step {a : Action} (h : Vouched s) (hok : undisturbed s a = true)
    (hstep : step s a = some t) : Vouched t := by
  cases a with
  | request name subject =>
    rw [Privy.step] at hstep
    split at hstep
    · next hfree =>
      obtain rfl := Option.some.inj hstep
      apply h.reach
      intro subject' hname
      rw [hname] at hfree
      cases hfree
    · cases hstep
  | look name =>
    obtain ⟨subject, hsubject, rfl⟩ := Option.map_eq_some_iff.mp hstep
    have hunmarked := not_marked hsubject (by decide)
    split
    · exact h.leave fun subject' _ hname => absurd hname (hunmarked subject')
    · exact h.reach hunmarked
  | mark name =>
    obtain ⟨subject, hsubject, rfl⟩ := Option.map_eq_some_iff.mp hstep
    exact h.mark (not_marked hsubject (by decide))
  | insert name secret now outcome =>
    obtain ⟨subject, hsubject, rfl⟩ := Option.map_eq_some_iff.mp hstep
    split
    · next hfailed =>
      subst hfailed
      exact h.leave_of_undisturbed hok
    · -- the row is there now, so the mark is backed
      apply h.upsert.leave
      intro subject' hunbacked hname
      obtain rfl : subject = subject' := by
        have hget := subjectAt_eq_some.mp hsubject
        exact congrArg Request.subject (Option.some.inj (hget.symm.trans hname))
      have hrow := (unbacked_iff.mp hunbacked).2
      simp [hasRow_upsert] at hrow
  | drop name =>
    obtain rfl := Option.some.inj hstep
    exact h.leave_of_undisturbed hok
  | expire key =>
    obtain rfl := Option.some.inj hstep
    refine h.of (fun subject hsubject => ?_) fun _ name _ hname => ⟨name, hname⟩
    obtain ⟨htouched, hrow⟩ := unbacked_iff.mp hsubject
    exact unbacked_iff.mpr ⟨List.mem_of_mem_filter htouched, hrow⟩
  | elsewhere subject secret now =>
    obtain rfl := Option.some.inj hstep
    exact h.upsert

end Lemmas

/-! ## Runs -/

/-- In every state reached undisturbed. -/
theorem vouched_of_reaches {users : KeyMap String User} {s : State}
    (h : Lts.Reaches step (fun s a => undisturbed s a = true) (init users) s) : Vouched s := by
  refine h.invariant (fun subject hsubject => ?_) fun _ hvouched hok hstep =>
    hvouched.step hok hstep
  exact absurd (unbacked_iff.mp hsubject).1 List.not_mem_nil

/-- **A user who is let in has a row**, on a run that nothing has disturbed: no insert for a subject
without a row came to nothing while its mark stood and no other was on its way, and nobody looked
up such a subject while one was. -/
theorem returnsOk_hasRow {users : KeyMap String User} {s t : State} {a : Action} {subject : String}
    (h : Lts.Reaches step (fun s a => undisturbed s a = true) (init users) s)
    (hok : undisturbed s a = true) (hstep : step s a = some t)
    (hreturns : returnsOk s a = some subject) : t.hasRow subject = true := by
  cases a with
  | look name =>
    obtain ⟨hsubject, htouched⟩ := Option.filter_eq_some_iff.mp hreturns
    rw [step, hsubject, Option.map_some, if_pos (of_decide_eq_true htouched)] at hstep
    obtain rfl := Option.some.inj hstep
    by_contra hrow
    have hunbacked := unbacked_iff.mpr ⟨of_decide_eq_true htouched, Bool.eq_false_of_not_eq_true hrow⟩
    obtain ⟨name', hname'⟩ := vouched_of_reaches h subject hunbacked
    have hne : name' ≠ name := by
      rintro rfl
      exact not_marked hsubject (by decide) subject hname'
    have hother := insertsOther_iff.mpr ⟨name', hne, hname'⟩
    simp [undisturbed, hsubject, hunbacked, hother] at hok
  | insert name secret now outcome =>
    cases outcome with
    | ok =>
      have hsubject : s.subjectAt name .marked = some subject := hreturns
      rw [step, hsubject, Option.map_some] at hstep
      obtain rfl := Option.some.inj hstep
      exact hasRow_upsert.trans (by simp)
    | failed => cases hreturns
    | unheard => cases hreturns
  | request name subject => cases hreturns
  | mark name => cases hreturns
  | drop name => cases hreturns
  | expire key => cases hreturns
  | elsewhere subject secret now => cases hreturns

namespace Fixture

/-- A first contact whose insert ends in some way, and then a second request. -/
def firstContact (outcome : Outcome) : List Action := [
  .request 0 "did:privy:a",
  .look 0,
  .mark 0,
  .insert 0 "whsec" (.ofSecs 0 (by decide)) outcome,
  .request 1 "did:privy:a"]

/-- Whether the second request is let in, and whether there is a row then. -/
def second (s : State) : Option (String × Bool) :=
  (returnsOk s (.look 1)).bind fun subject =>
    (step s (.look 1)).map fun t => (subject, t.hasRow subject)

theorem exists_of_second {s : State} {subject : String} {row : Bool}
    (h : second s = some (subject, row)) : ∃ t, step s (.look 1) = some t ∧
      returnsOk s (.look 1) = some subject ∧ t.hasRow subject = row := by
  obtain ⟨subject', hreturns, hmap⟩ := Option.bind_eq_some_iff.mp h
  obtain ⟨t, hstep, heq⟩ := Option.map_eq_some_iff.mp hmap
  obtain ⟨rfl, hrow⟩ := Prod.mk.inj heq
  exact ⟨t, hstep, hreturns, hrow⟩

end Fixture

/-- The insert goes through, and its mark lets the second request in. -/
theorem returnsOk_hasRow_fixture : ∃ s t,
    Lts.Reaches step (fun s a => undisturbed s a = true) (init KeyMap.empty) s ∧
      undisturbed s (.look 1) = true ∧ step s (.look 1) = some t ∧
      returnsOk s (.look 1) = some "did:privy:a" ∧ t.hasRow "did:privy:a" = true := by
  obtain ⟨s, hs, hfound⟩ : ∃ s,
      Lts.Reaches step (fun s a => undisturbed s a = true) (init KeyMap.empty) s ∧
      (if undisturbed s (.look 1) then Fixture.second s else none) = some ("did:privy:a", true) :=
    @Lts.exists_reaches_of_run _ _ _ _ _ _ _ (Fixture.firstContact .ok) _ _ (by decide +kernel)
  obtain ⟨hok, hfound⟩ := Option.ite_none_right_eq_some.mp hfound
  obtain ⟨t, hstep, hreturns, -⟩ := Fixture.exists_of_second hfound
  exact ⟨s, t, hs, hok, hstep, hreturns, returnsOk_hasRow hs hok hstep hreturns⟩

/-- The insert fails, and its mark lets the second request in all the same. -/
theorem returnsOk_without_row : ∃ s t, Lts.Reaches step Lts.Any (init KeyMap.empty) s ∧
    step s (.look 1) = some t ∧ returnsOk s (.look 1) = some "did:privy:a" ∧
    t.hasRow "did:privy:a" = false := by
  obtain ⟨s, hs, hfound⟩ : ∃ s, Lts.Reaches step Lts.Any (init KeyMap.empty) s ∧
      Fixture.second s = some ("did:privy:a", false) :=
    @Lts.exists_reaches_of_run _ _ _ _ _ _ _ (Fixture.firstContact .failed) _ _ (by decide +kernel)
  obtain ⟨t, hstep, hreturns, hrow⟩ := Fixture.exists_of_second hfound
  exact ⟨s, t, hs, hstep, hreturns, hrow⟩

end GumServer.Privy
