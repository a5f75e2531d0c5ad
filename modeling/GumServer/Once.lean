import GumServer.Serial

/-!
# At most once

An inbound event takes effect at most once until its id is pruned. Past its first statement, a
delivery holds the claim on its id: it is the only one that does, and the id is not committed. So
its commit, which makes the claim visible together with everything else it has written, is the
first since the id was last pruned; and every copy that comes later leaves at the first statement.

What is answered with `200` has its claim in the table. What ends before its commit was never
there.
-/

namespace GumServer

/-! ## Claims in the database -/

namespace Db

variable (db : Db) (now : DateTime) (mint : Mint)

theorem recordEvent_inbound (d : Deposit) (type : EventType) (data : Value) (snapshot : Deposit) :
    (db.recordEvent now mint d type data snapshot).inbound = db.inbound := by
  rw [recordEvent]
  split
  · split <;> rfl
  · rfl

theorem commit_inbound (t : Transition) (d : Deposit) :
    (db.commit now mint t d).inbound = db.inbound := by
  rw [commit]
  split
  · rfl
  · rw [queue.eq_def]
    split <;> exact recordEvent_inbound _ _ _ _ _ _ _

theorem applyOp_inbound (op : Option (Op × Uuid)) :
    (db.applyOp now mint op).inbound = db.inbound := by
  rcases op with _ | ⟨op, id⟩
  · rfl
  · rw [applyOp, apply]
    split
    · rfl
    · split
      · exact db.commit_inbound now mint _ _
      · rfl

end Db

/-- The key a write claims. -/
def Write.claims : Write → Option (Sender × String)
  | .tx t => t.claim
  | .nothing | .touch _ | .reschedule _ _ _ | .markDead _ _ | .delete _ => none

/-- A write that claims nothing leaves the claims alone. -/
theorem Db.write_inbound {db : Db} {now : DateTime} {mint : Mint} {write : Write}
    (h : write.claims = none) : (db.write now mint write).inbound = db.inbound := by
  cases write with
  | tx t =>
    obtain ⟨claim, bind, op⟩ := t
    obtain rfl : claim = none := h
    rw [Db.write, transact, applyOp_inbound]
    rcases bind with _ | ⟨id, watch⟩ <;> rfl
  | nothing => rfl
  | touch id => rfl
  | reschedule row delay error => rfl
  | markDead row error => rfl
  | delete row => rfl

/-- The id a task holds a claim on. -/
def Task.claims : Task → Option (Sender × String)
  | .indexer event _ _ => some (.indexer, event.id)
  | .settling claim _ _ _ _ => claim.map fun id => (.engine, id)
  | .openStale _ _ | .openPolled _ _ _ _ | .paidStale _ _ | .paidUnknown _ _ | .touching _
  | .overdue _ | .worker _ _ => none

/-- No handler of `step`'s own is in flight. -/
def World.NoClaims (w : World) : Prop :=
  ∀ name t, w.tasks.get? name = some t → t.claims = none

section Rest

variable {env : Env} {w w' : World} {a : Action}

/-- A worker claims no inbound id. -/
theorem WorkerStep.claims {db : Db} {engine engine' : Engine} {job : OutboxJob} {stage : Stage}
    {input : Input} {write : Write} {stage' : Option Stage}
    (h : WorkerStep env db engine job stage input write engine' stage') : write.claims = none := by
  have hlater {now : DateTime} {delay : ℤ} {error : String} :
      (Worker.retryLater env job now delay error).claims = none := by
    rw [Worker.retryLater]
    split <;> rfl
  cases h with
  | finalise attempt _ _ hwrite =>
    cases attempt <;> cases input <;> cases hwrite
    · rfl
    · exact hlater
    · rfl
  | reschedule error now delay => exact hlater
  | _ => rfl

/-- Then nothing is claimed. -/
theorem World.NoClaims.commits (h : w.NoClaims) (env : Env) (a : Action) :
    (w.commits env a).claims = none := by
  generalize hwrite : w.commits env a = write
  have hcommitter := hwrite ▸ w.committer env a
  cases hcommitter with
  | nobody => rfl
  | operator id mint ha => rfl
  | handler name t t' ht hstep =>
    have hclaims := h name t ht
    cases hstep with
    | indexer event d => cases hclaims
    | settle claim job d outcome retries hcounted => exact hclaims
    | _ => rfl
  | worker name job stage input engine' stage' ht hstep => exact hstep.claims

/-- And none comes. -/
theorem World.NoClaims.step (h : w.NoClaims) (hstep : step env w a = some w')
    (ha : a.isInbound = false) : w'.NoClaims := by
  intro name t ht
  cases step_tasks hstep ht with
  | kept ht => exact h name t ht
  | advanced input mint write engine _ hold hnext =>
    have hclaims := h name _ hold
    rcases Task.next_step hnext with ⟨hhandler, -⟩ | ⟨job, stage, stage', -, hnext', -⟩
    · cases hhandler with
      | count claim job d outcome => exact hclaims
      | readOrphaned event d row hrow => cases hclaims
      | applyOpen d watchId watch polledAt t' ht' => rcases ht' with ht' | ht' <;> cases ht'; rfl
      | _ => rfl
    · cases stage' <;> cases hnext'
      rfl
  | indexer event d hd ha' =>
    rw [ha'] at ha
    cases ha
  | engine event d hd hjob ha' =>
    rw [ha'] at ha
    cases ha
  | _ => rfl

/-- **What the rest does to the claims**: it prunes them. -/
theorem step_inbound (hstep : step env w a = some w') (hclaims : w.NoClaims)
    (ha : a.isInbound = false) :
    w'.db.inbound = w.db.inbound ∨ a = .prune ∧
      w'.db.inbound = w.db.inbound.filter fun e => decide (w.ago (7 * 86400) ≤ e.2) := by
  cases step_cases hstep with
  | prune => exact .inr ⟨rfl, rfl⟩
  | indexerUnknown task event => cases ha
  | engineUnknown task event => cases ha
  | advance task input mint t write engine next ht hnext =>
    have hwrite := hclaims.commits env (.advance task input mint)
    rw [World.commits_advance ht hnext] at hwrite
    exact .inl (Db.write_inbound hwrite)
  | retrySettlement id mint => exact .inl (Db.applyOp_inbound _ _ _ _)
  | create new user d mint =>
    left
    show (w.created d mint).inbound = w.db.inbound
    rw [World.created]
    exact Db.recordEvent_inbound _ _ _ _ _ _ _
  | _ => exact .inl rfl

end Rest

/-! ## Claims in flight -/

/-- What a statement does to the claims. -/
theorem Db.exec_inbound (db : Db) (st : Statement) (key : Sender × String) :
    (db.exec st).inbound.get? key = db.inbound.get? key ∧ st.claims ≠ some key ∨
    ((db.exec st).inbound.get? key).isSome = true ∧ st.claims = some key := by
  cases st with
  | claim key' now =>
    by_cases hkey : key = key'
    · subst hkey
      refine .inr ⟨?_, rfl⟩
      rw [Db.exec, Db.claimInbound, KeyMap.get?_put_self]
      rfl
    · refine .inl ⟨KeyMap.get?_put_ne _ _ hkey, ?_⟩
      intro heq
      exact hkey (Option.some.inj heq).symm
  | _ => exact .inl ⟨rfl, by simp [Statement.claims]⟩

namespace Delivery

/-- What a transaction sees of the claims: its own, and the committed ones. -/
theorem view_inbound (d : Delivery) (db : Db) (key : Sender × String) :
    if d.holds key then ((d.view db).inbound.get? key).isSome = true
    else (d.view db).inbound.get? key = db.inbound.get? key := by
  obtain ⟨message, progress, writes⟩ := d
  rw [view, holds]
  dsimp only
  induction writes using List.reverseRecOn with
  | nil => rfl
  | append_singleton writes st ih =>
    rw [List.foldl_append, List.foldl_cons, List.foldl_nil, List.any_append, List.any_cons,
      List.any_nil, Bool.or_false]
    rcases Db.exec_inbound (writes.foldl Db.exec db) st key with ⟨hsame, hclaims⟩ | ⟨hsome, hclaims⟩
    · rw [hsame, decide_eq_false hclaims, Bool.or_false]
      exact ih
    · rw [decide_eq_true hclaims, Bool.or_true]
      exact hsome

theorem holds_append (d : Delivery) (progress : HandlerStage) (writes : List Statement)
    (key : Sender × String) : (Delivery.mk d.message progress (d.writes ++ writes)).holds key =
      (d.holds key || writes.any fun s => decide (s.claims = some key)) :=
  List.any_append

end Delivery

/-- **One delivery an id, and the id is not committed.** -/
structure Exclusive (s : Desk) : Prop where
  noClaims : s.shared.NoClaims
  begun : ∀ {name d key}, s.sessions.get? name = some d → d.progress = .begun → d.holds key = false
  past : ∀ {name d key}, s.sessions.get? name = some d → d.progress ≠ .begun →
    (d.holds key = true ↔ key = d.message.key)
  uncommitted : ∀ {name d key}, s.sessions.get? name = some d → d.holds key = true →
    s.shared.db.inbound.get? key = none
  alone : ∀ {name name' d d' key}, s.sessions.get? name = some d → s.sessions.get? name' = some d' →
    d.holds key = true → d'.holds key = true → name = name'

namespace Exclusive

theorem init (clock : DateTime) : Exclusive (Desk.init clock) where
  noClaims := fun _ _ ht => absurd ht (by simp [Desk.init, World.init])
  begun := fun h => absurd h (by simp [Desk.init])
  past := fun h => absurd h (by simp [Desk.init])
  uncommitted := fun h => absurd h (by simp [Desk.init])
  alone := fun h => absurd h (by simp [Desk.init])

variable {env : Env} {s t : Desk} {name : ℕ} {d : Delivery}

/-- One session less. -/
theorem without (h : Exclusive s) (name : ℕ) : Exclusive (s.without name) := by
  have hkept {name' : ℕ} {d : Delivery} (hd : (s.without name).sessions.get? name' = some d) :
      s.sessions.get? name' = some d := by
    by_cases hname : name' = name
    · rw [hname, Sessions.State.without, KeyMap.get?_erase_self] at hd
      cases hd
    · rwa [Sessions.State.without, KeyMap.get?_erase_ne _ hname] at hd
  exact {
    noClaims := h.noClaims
    begun := fun hd => h.begun (hkept hd)
    past := fun hd => h.past (hkept hd)
    uncommitted := fun hd => h.uncommitted (hkept hd)
    alone := fun hd hd' => h.alone (hkept hd) (hkept hd') }

/-- A session that goes on, with what nobody else holds. -/
theorem put (h : Exclusive s) (hbegun : d.progress = .begun → ∀ key, d.holds key = false)
    (hpast : d.progress ≠ .begun → ∀ key, (d.holds key = true ↔ key = d.message.key))
    (hheld : ∀ key, d.holds key = true → s.shared.db.inbound.get? key = none ∧
      (s.sessions.erase name).values.any (Delivery.holds key) = false) :
    Exclusive { s with sessions := s.sessions.put name d } := by
  have hcases {name' : ℕ} {d' : Delivery} (hd' : (s.sessions.put name d).get? name' = some d') :
      name' = name ∧ d' = d ∨ name' ≠ name ∧ s.sessions.get? name' = some d' := by
    rw [KeyMap.get?_put] at hd'
    split at hd'
    · next hname => exact .inl ⟨hname, (Option.some.inj hd').symm⟩
    · next hname => exact .inr ⟨hname, hd'⟩
  have hother {name' : ℕ} {d' : Delivery} {key : Sender × String} (hname : name' ≠ name)
      (hd' : s.sessions.get? name' = some d') (hholds : d.holds key = true) :
      d'.holds key = false := by
    have herased : (s.sessions.erase name).get? name' = some d' :=
      (KeyMap.get?_erase_ne _ hname).trans hd'
    have hmem := List.any_eq_false.mp (hheld key hholds).2 d' (KeyMap.mem_values_of_get? herased)
    exact Bool.eq_false_of_not_eq_true hmem
  refine ⟨h.noClaims, ?_, ?_, ?_, ?_⟩
  · intro name' d' key hd' hprogress
    rcases hcases hd' with ⟨-, rfl⟩ | ⟨-, hd'⟩
    · exact hbegun hprogress key
    · exact h.begun hd' hprogress
  · intro name' d' key hd' hprogress
    rcases hcases hd' with ⟨-, rfl⟩ | ⟨-, hd'⟩
    · exact hpast hprogress key
    · exact h.past hd' hprogress
  · intro name' d' key hd' hholds
    rcases hcases hd' with ⟨-, rfl⟩ | ⟨-, hd'⟩
    · exact (hheld key hholds).1
    · exact h.uncommitted hd' hholds
  · intro name₁ name₂ d₁ d₂ key hd₁ hd₂ hholds₁ hholds₂
    rcases hcases hd₁ with ⟨rfl, rfl⟩ | ⟨hname₁, hold₁⟩
    · rcases hcases hd₂ with ⟨rfl, -⟩ | ⟨hname₂, hold₂⟩
      · rfl
      · rw [hother hname₂ hold₂ hholds₁] at hholds₂
        cases hholds₂
    · rcases hcases hd₂ with ⟨rfl, rfl⟩ | ⟨-, hold₂⟩
      · rw [hother hname₁ hold₁ hholds₂] at hholds₁
        cases hholds₁
      · exact h.alone hold₁ hold₂ hholds₁ hholds₂

/-- What a session holds, no other holds. -/
theorem others (h : Exclusive s) {key : Sender × String} (hd : s.sessions.get? name = some d)
    (hholds : d.holds key = true) :
    (s.sessions.erase name).values.any (Delivery.holds key) = false := by
  rw [List.any_eq_false]
  intro d' hd' hholds'
  obtain ⟨name', hget⟩ := KeyMap.exists_get?_of_mem_values hd'
  have hname : name' ≠ name := by
    rintro rfl
    rw [KeyMap.get?_erase_self] at hget
    cases hget
  rw [KeyMap.get?_erase_ne _ hname] at hget
  exact hname (h.alone hget hd hholds' hholds)

/-- After the commit of a delivery. -/
theorem committed (h : Exclusive s) {w : World} (hd : s.sessions.get? name = some d)
    (htasks : w.tasks = s.shared.tasks)
    (hdb : w.db = d.view s.shared.db) : Exclusive { s.without name with shared := w } := by
  have hwithout := h.without name
  refine ⟨?_, hwithout.begun, hwithout.past, ?_, hwithout.alone⟩
  · intro name' t ht
    exact h.noClaims name' t (htasks ▸ ht)
  · intro name' d' key hd' hholds'
    have hnot : d.holds key = false := by
      refine Bool.eq_false_of_not_eq_true ?_
      intro hholds
      have hmem := List.any_eq_false.mp (h.others hd hholds) d' (KeyMap.mem_values_of_get? hd')
      exact hmem hholds'
    have hview := d.view_inbound s.shared.db key
    rw [hnot, if_neg (by simp)] at hview
    rw [hdb, hview]
    exact hwithout.uncommitted hd' hholds'

/-- **Every step keeps it so.** -/
theorem step (h : Exclusive s) {a : Sessions.Action Action Message Meets}
    (hstep : (desk env).step s a = some t) : Exclusive t := by
  cases a with
  | rest a =>
    obtain ⟨w, hw, rfl⟩ := Option.map_eq_some_iff.mp hstep
    obtain ⟨ha, hw⟩ := restStep_eq_some hw
    refine ⟨h.noClaims.step hw ha, h.begun, h.past, ?_, h.alone⟩
    intro name d key hd hholds
    have hnone := h.uncommitted hd hholds
    rcases step_inbound hw h.noClaims ha with hsame | ⟨-, hpruned⟩
    · show w.db.inbound.get? key = none
      rw [hsame]
      exact hnone
    · show w.db.inbound.get? key = none
      rw [hpruned, KeyMap.get?_filter, hnone]
      rfl
  | start name m =>
    rw [Sessions.System.step] at hstep
    split at hstep
    · obtain rfl := Option.some.inj hstep
      refine h.put (fun _ _ => rfl) ?_ ?_
      · intro hpast
        exact absurd rfl hpast
      · intro key hholds
        cases hholds
    · cases hstep
  | go name meets =>
    obtain ⟨⟨d', turn⟩, hturn, rfl⟩ := Option.map_eq_some_iff.mp hstep
    obtain ⟨_, _, heq, hd, hnext, -⟩ := Sessions.System.turn_eq_some hturn
    obtain ⟨rfl, rfl⟩ := Sessions.Action.go.inj heq
    cases Delivery.next_turned hnext with
    | duplicate hbegun hclaimed => exact h.without name
    | notYet hpast => exact h.without name
    | claim hbegun hnew hfree =>
      have hholds (key : Sender × String) :
          (Delivery.mk d'.message .claimed
            (d'.writes ++ [.claim d'.message.key s.shared.clock])).holds key = true ↔
              key = d'.message.key := by
        rw [Delivery.holds_append, h.begun hd hbegun, List.any_cons, List.any_nil]
        simp [Statement.claims, eq_comm]
      refine h.put (by simp) (fun _ => hholds) ?_
      intro key hkey
      obtain rfl := (hholds key).mp hkey
      exact ⟨hnew, hfree⟩
    | on progress writes hpast hon hwrites =>
      have hholds (key : Sender × String) :
          (Delivery.mk d'.message progress (d'.writes ++ writes)).holds key = d'.holds key := by
        rw [Delivery.holds_append, List.any_eq_false.mpr, Bool.or_false]
        intro st hst
        rw [hwrites st hst]
        simp
      refine h.put (fun hbegun => absurd hbegun hon) ?_ ?_
      · intro _ key
        rw [hholds]
        exact h.past hd hpast
      · intro key hkey
        rw [hholds] at hkey
        exact ⟨h.uncommitted hd hkey, h.others hd hkey⟩
    | commit acknowledged hend hfresh => exact h.committed hd rfl rfl
  | quit name =>
    obtain rfl := Option.some.inj hstep
    exact h.without name

theorem reachable {clock : DateTime} {ok : Desk → Sessions.Action Action Message Meets → Prop}
    (h : Lts.Reaches (desk env).step ok (Desk.init clock) s) : Exclusive s :=
  h.invariant (Exclusive.init clock) fun _ hs _ hstep => hs.step hstep

end Exclusive

/-! ## Commits, answers and prunes -/

section Runs

variable {env : Env} {s t : Desk} {a : Sessions.Action Action Message Meets} {d : Delivery}
  {key : Sender × String}

/-- **What a commit does.** The id was not committed, and now it is, with all the delivery wrote,
which claims no other. -/
theorem commits_claim (h : Exclusive s) (hcommits : (desk env).commits s a = some d)
    (hstep : (desk env).step s a = some t) :
    s.shared.db.inbound.get? d.message.key = none ∧ t.shared.db = d.view s.shared.db ∧
      (t.shared.db.inbound.get? d.message.key).isSome = true ∧ ∀ key, key ≠ d.message.key →
        t.shared.db.inbound.get? key = s.shared.db.inbound.get? key := by
  obtain ⟨u, r, hturn⟩ := Sessions.System.commits_eq_some hcommits
  obtain ⟨name, meets, -, hd, hnext, hafter⟩ := Sessions.System.turn_eq_some hturn
  obtain rfl := Option.some.inj (hafter.symm.trans hstep)
  cases Delivery.next_turned hnext with
  | commit acknowledged hend hfresh =>
    have hpast : d.progress ≠ .begun := by
      rcases hend with hdone | hunknown
      · simp [hdone]
      · simp [hunknown]
    have hholds : d.holds d.message.key = true := (h.past hd hpast).mpr rfl
    have hview := d.view_inbound s.shared.db d.message.key
    rw [if_pos hholds] at hview
    refine ⟨h.uncommitted hd hholds, rfl, hview, ?_⟩
    intro key hkey
    have hother := d.view_inbound s.shared.db key
    rwa [if_neg fun hholds => hkey ((h.past hd hpast).mp hholds)] at hother

/-- **What a step does to a claim**: nothing, or its delivery commits, or it is pruned. -/
theorem step_claim (h : Exclusive s) (hstep : (desk env).step s a = some t)
    (key : Sender × String) :
    t.shared.db.inbound.get? key = s.shared.db.inbound.get? key ∨
    (∃ d, (desk env).commits s a = some d ∧ d.message.key = key) ∨
    s.prunes key a = true ∧ t.shared.db.inbound.get? key = none := by
  cases hcommits : (desk env).commits s a with
  | some d =>
    by_cases hkey : key = d.message.key
    · exact .inr (.inl ⟨d, rfl, hkey.symm⟩)
    · exact .inl ((commits_claim h hcommits hstep).2.2.2 key hkey)
  | none =>
    cases a with
    | rest b =>
      obtain ⟨w, hw, rfl⟩ := Option.map_eq_some_iff.mp hstep
      obtain ⟨hinbound, hw⟩ := restStep_eq_some hw
      rcases step_inbound hw h.noClaims hinbound with hsame | ⟨rfl, hpruned⟩
      · exact .inl (congrArg (·.get? key) hsame)
      · show w.db.inbound.get? key = _ ∨ _
        rw [hpruned, KeyMap.get?_filter, Desk.prunes]
        cases s.shared.db.inbound.get? key with
        | none => exact .inl rfl
        | some at' =>
          rw [Option.filter_some, Option.any_some]
          by_cases hold : at' < s.shared.ago (7 * 86400)
          · exact .inr (.inr ⟨decide_eq_true hold, if_neg (by simpa using hold)⟩)
          · exact .inl (if_pos (decide_eq_true (Int.not_lt.mp hold)))
    | start name m =>
      rw [Sessions.System.step_shared hstep (fun b => nofun) hcommits]
      exact .inl rfl
    | go name meets =>
      rw [Sessions.System.step_shared hstep (fun b => nofun) hcommits]
      exact .inl rfl
    | quit name =>
      rw [Sessions.System.step_shared hstep (fun b => nofun) hcommits]
      exact .inl rfl

/-- **A `200` is sent with a commit, or by a copy that finds the claim.** -/
theorem replies_claim (hreplies : (desk env).replies s a = some (d, .ok)) :
    (desk env).commits s a = some d ∨ (s.shared.db.inbound.get? d.message.key).isSome = true ∧
      ∃ t, (desk env).step s a = some t ∧ t.shared = s.shared := by
  rcases Sessions.System.replies_eq_some hreplies with hturn | ⟨u, hturn⟩
  · obtain ⟨name, meets, -, -, hnext, hafter⟩ := Sessions.System.turn_eq_some hturn
    cases Delivery.next_turned hnext with
    | duplicate hbegun hclaimed => exact .inr ⟨hclaimed, _, hafter, rfl⟩
  · rw [Sessions.System.commits, hturn]
    exact .inl rfl

variable {clock : DateTime} {steps : List (Desk × Sessions.Action Action Message Meets)}

/-- A claim in the table was committed. -/
theorem exists_commit (h : Lts.Trace (desk env).step (Desk.init clock) steps s)
    (hkey : (s.shared.db.inbound.get? key).isSome = true) :
    ∃ p ∈ steps, ∃ d t, (desk env).commits p.1 p.2 = some d ∧ d.message.key = key ∧
      (desk env).step p.1 p.2 = some t ∧ t.shared.db = d.view p.1.shared.db := by
  induction h with
  | nil => cases hkey
  | @concat steps s t a hrun hstep ih =>
    have hexclusive := Exclusive.reachable hrun.reaches
    rcases step_claim hexclusive hstep key with hsame | ⟨d, hcommits, hd⟩ | ⟨-, hnone⟩
    · obtain ⟨p, hp, hfound⟩ := ih (hsame ▸ hkey)
      exact ⟨p, List.mem_append_left _ hp, hfound⟩
    · refine ⟨(s, a), List.mem_append_right _ (List.mem_singleton_self _), d, t, hcommits, hd,
        hstep, ?_⟩
      exact (commits_claim hexclusive hcommits hstep).2.1
    · rw [hnone] at hkey
      cases hkey

/-- A claim stays in the table until it is pruned. -/
theorem claim_stays (h : Exclusive s) (hrun : Lts.Trace (desk env).step s steps t)
    (hkey : (s.shared.db.inbound.get? key).isSome = true)
    (hprunes : ∀ p ∈ steps, p.1.prunes key p.2 = false) :
    Exclusive t ∧ (t.shared.db.inbound.get? key).isSome = true := by
  induction hrun with
  | nil => exact ⟨h, hkey⟩
  | @concat steps t u a _ hstep ih =>
    obtain ⟨ht, hkey⟩ := ih fun p hp => hprunes p (List.mem_append_left _ hp)
    refine ⟨ht.step hstep, ?_⟩
    rcases step_claim ht hstep key with hsame | ⟨d, hcommits, rfl⟩ | ⟨hpruned, -⟩
    · rw [hsame]
      exact hkey
    · exact (commits_claim ht hcommits hstep).2.2.1
    · rw [hprunes (t, a) (List.mem_append_right _ (List.mem_singleton_self _))] at hpruned
      cases hpruned

/-- **Between two commits of one id it is pruned.** -/
theorem pruned_between {before between after : List (Desk × Sessions.Action Action Message Meets)}
    {p q : Desk × Sessions.Action Action Message Meets} {d' : Delivery}
    (h : Lts.Trace (desk env).step (Desk.init clock) (before ++ p :: (between ++ q :: after)) s)
    (hp : (desk env).commits p.1 p.2 = some d) (hq : (desk env).commits q.1 q.2 = some d')
    (hkey : d.message.key = d'.message.key) :
    ∃ r ∈ between, r.1.prunes d.message.key r.2 = true := by
  obtain ⟨hbefore, t, hstep, hrest⟩ := h.cut
  obtain ⟨hbetween, u, hstep', -⟩ := hrest.cut
  have hexclusive := Exclusive.reachable hbefore.reaches
  have hclaimed := (commits_claim hexclusive hp hstep).2.2.1
  by_contra hnone
  have hprunes : ∀ r ∈ between, r.1.prunes d.message.key r.2 = false := by
    intro r hr
    exact Bool.eq_false_of_not_eq_true fun hpruned => hnone ⟨r, hr, hpruned⟩
  obtain ⟨hexclusive', hstill⟩ := claim_stays (hexclusive.step hstep) hbetween hclaimed hprunes
  rw [hkey, (commits_claim hexclusive' hq hstep').1] at hstill
  cases hstill

/-- A delivery that commits is at its end, and what is committed is what it has written. -/
theorem commits_at_end (h : (desk env).commits s a = some d) :
    (d.progress = .done ∨ d.progress = .unknown) ∧ ∃ name, s.sessions.get? name = some d ∧
      (∀ name', a.isOf name' = true → name' = name) ∧
      ∀ t, (desk env).step s a = some t → t.shared.db = d.view s.shared.db := by
  obtain ⟨u, r, hturn⟩ := Sessions.System.commits_eq_some h
  obtain ⟨name, meets, rfl, hd, hnext, hafter⟩ := Sessions.System.turn_eq_some hturn
  cases Delivery.next_turned hnext with
  | commit acknowledged hend hfresh =>
    refine ⟨hend, name, hd, fun name' hof => (of_decide_eq_true hof).symm, ?_⟩
    intro t hstep
    obtain rfl := Option.some.inj (hafter.symm.trans hstep)
    rfl

/-- While nothing is committed and nothing else happens, a delivery that begins is by itself. -/
theorem alone_of_quiet {name : ℕ} (h : Lts.Trace (desk env).step s steps t)
    (hfree : s.sessions.get? name = none)
    (hquiet : ∀ p ∈ steps, (desk env).commits p.1 p.2 = none ∧ ∀ b, p.2 ≠ .rest b) :
    t.shared = s.shared ∧
      ∀ d, t.sessions.get? name = some d → Alone env s.shared d.message d := by
  induction h with
  | nil =>
    refine ⟨rfl, ?_⟩
    intro d hd
    rw [hfree] at hd
    cases hd
  | @concat steps t u a _ hstep ih =>
    obtain ⟨hshared, halone⟩ := ih fun p hp => hquiet p (List.mem_append_left _ hp)
    obtain ⟨hcommits, hrest⟩ :=
      hquiet (t, a) (List.mem_append_right _ (List.mem_singleton_self _))
    refine ⟨(Sessions.System.step_shared hstep hrest hcommits).trans hshared, ?_⟩
    intro d hd
    rcases Sessions.System.step_session hstep hd with hkept | ⟨m, -, rfl⟩ | ⟨d', meets, -, hd', hnext⟩
    · exact halone d hkept
    · exact .start
    · rw [hshared] at hnext
      rw [Delivery.message_of_next hnext]
      exact (halone d' hd').next (Delivery.next_mono (List.nil_subset _) hnext)

/-- **A delivery in whose time nothing else changes the state is its message's transaction.** -/
theorem performed_of_quiet {before between after : List (Desk × Sessions.Action Action Message Meets)}
    {first p : Desk × Sessions.Action Action Message Meets} {name : ℕ}
    (h : Lts.Trace (desk env).step s (before ++ first :: (between ++ p :: after)) t)
    (hfree : first.1.sessions.get? name = none)
    (hquiet : ∀ r ∈ first :: between, (desk env).commits r.1 r.2 = none ∧ ∀ b, r.2 ≠ .rest b)
    (hof : p.2.isOf name = true) (hcommits : (desk env).commits p.1 p.2 = some d) :
    ∃ u, (desk env).step p.1 p.2 = some u ∧
      d.message.Performed env p.1.shared u.shared.db := by
  obtain ⟨-, u, hfirst, hrest⟩ := h.cut
  obtain ⟨hbetween, v, hlast, -⟩ := hrest.cut
  obtain ⟨hshared, halone⟩ := alone_of_quiet (hbetween.cons hfirst) hfree hquiet
  obtain ⟨hend, name', hd, hname, hwritten⟩ := commits_at_end hcommits
  obtain rfl := hname name hof
  have hperformed := (halone d hd).performed hend
  rw [← hshared, ← hwritten v hlast] at hperformed
  exact ⟨v, hlast, hperformed⟩

end Runs

/-- **Inbound events take effect at most once, and none is acknowledged and lost.** In every run of
the service and of the deliveries to it, in which deliveries may be copies and retries of each other,
and may end anywhere:

* between two commits of one id, the id is pruned;
* a `200` leaves the id in the table, where a commit put it together with all that the delivery
  wrote, in this step or before;
* a delivery changes nothing but by its commit;
* a delivery that ends without one might as well not have been there: whatever else happened leads
  to the very same state without it;
* a delivery that commits is at its end; and if nothing else has changed the state since it began,
  what it commits is its message's transaction on the deposit the message is about, or the claim
  alone, when there is none. -/
theorem inbound_at_most_once (env : Env) (clock : DateTime)
    (steps : List (Desk × Sessions.Action Action Message Meets)) (s : Desk)
    (h : Lts.Trace (desk env).step (Desk.init clock) steps s) :
    (∀ before p between q after d d', steps = before ++ p :: (between ++ q :: after) →
      (desk env).commits p.1 p.2 = some d → (desk env).commits q.1 q.2 = some d' →
      d.message.key = d'.message.key → ∃ r ∈ between, r.1.prunes d.message.key r.2 = true) ∧
    (∀ before p after d, steps = before ++ p :: after →
      (desk env).replies p.1 p.2 = some (d, .ok) →
      (∃ t, (desk env).step p.1 p.2 = some t ∧
        (t.shared.db.inbound.get? d.message.key).isSome = true) ∧
      ∃ q ∈ before ++ [p], ∃ d' t, (desk env).commits q.1 q.2 = some d' ∧
        d'.message.key = d.message.key ∧ (desk env).step q.1 q.2 = some t ∧
        t.shared.db = d'.view q.1.shared.db) ∧
    (∀ p ∈ steps, ∀ t, (desk env).step p.1 p.2 = some t → (∀ b, p.2 ≠ .rest b) →
      (desk env).commits p.1 p.2 = none → t.shared = p.1.shared) ∧
    (∀ name steps' t, Lts.Trace (desk env).step s steps' t →
      s.sessions.get? name = none → t.sessions.get? name = none →
      (∀ p ∈ steps', p.2.isOf name = true → (desk env).commits p.1 p.2 = none) →
      ∃ steps'', Lts.Trace (desk env).step s steps'' t ∧
        steps''.map Prod.snd = (steps'.map Prod.snd).filter fun a => !a.isOf name) ∧
    (∀ p ∈ steps, ∀ d, (desk env).commits p.1 p.2 = some d →
      d.progress = .done ∨ d.progress = .unknown) ∧
    ∀ before first between p after name d, steps = before ++ first :: (between ++ p :: after) →
      first.1.sessions.get? name = none →
      (∀ r ∈ first :: between, (desk env).commits r.1 r.2 = none ∧ ∀ b, r.2 ≠ .rest b) →
      p.2.isOf name = true → (desk env).commits p.1 p.2 = some d →
      ∃ t, (desk env).step p.1 p.2 = some t ∧
        d.message.Performed env p.1.shared t.shared.db := by
  refine ⟨?_, ?_, ?_, ?_, ?_, ?_⟩
  · rintro before p between q after d d' rfl hp hq hkey
    exact pruned_between h hp hq hkey
  · rintro before p after d rfl hreplies
    obtain ⟨hbefore, t, hstep, -⟩ := h.cut
    have hexclusive := Exclusive.reachable hbefore.reaches
    rcases replies_claim hreplies with hcommits | ⟨hclaimed, t', hstep', hsame⟩
    · obtain ⟨-, hview, hclaimed, -⟩ := commits_claim hexclusive hcommits hstep
      refine ⟨⟨t, hstep, hclaimed⟩, p, List.mem_append_right _ (List.mem_singleton_self p), d, t, ?_⟩
      exact ⟨hcommits, rfl, hstep, hview⟩
    · obtain ⟨q, hq, hfound⟩ := exists_commit hbefore hclaimed
      refine ⟨⟨t', hstep', ?_⟩, q, List.mem_append_left _ hq, hfound⟩
      rw [hsame]
      exact hclaimed
  · intro p _ t hstep hrest hcommits
    exact Sessions.System.step_shared hstep hrest hcommits
  · intro name steps' t hrun hfree hfree' hcommits
    have hwithout := Sessions.Trace.without hrun hcommits
    rwa [Sessions.State.without, KeyMap.erase_of_get?_none hfree, Sessions.State.without,
      KeyMap.erase_of_get?_none hfree'] at hwithout
  · intro p _ d hcommits
    exact (commits_at_end hcommits).1
  · rintro before first between p after name d rfl hfree hquiet hof hcommits
    exact performed_of_quiet h hfree hquiet hof hcommits

/-! ## Two copies and a crash -/

namespace Fixture

/-- What a statement meets that mints an id. -/
def meets (n : ℕ) : Meets := ⟨(mint n).event, false, true⟩

/-- A deposit is created, as number 7, and the notice that it is paid comes twice. The first copy
crashes after its claim, which the second has waited for. -/
def twice : List (Sessions.Action Action Message Meets) := [
  .rest (.setUser "user" none),
  .rest (.create new "user" 7 (mint 0)),
  .start 0 (.indexer thresholdReached),
  .start 1 (.indexer thresholdReached),
  .go 0 (meets 1),
  .quit 0] ++
  (List.range 10).map (fun n => .go 1 (meets (n + 1))) ++
  [.start 2 (.indexer thresholdReached)]

/-- What the next statement of the third copy answers. -/
def answer (s : Desk) : Option ((Sender × String) × Response) :=
  ((desk env).step s (.go 2 (meets 20))).bind fun _ =>
    ((desk env).replies s (.go 2 (meets 20))).map fun p => (p.1.message.key, p.2)

end Fixture

/-- On the fixture's deposit: the third copy is answered with `200`, and so the event took effect. -/
theorem inbound_at_most_once_fixture : ∃ steps s t d,
    Lts.Trace (desk Fixture.env).step (Desk.init Fixture.requestedAt) steps t ∧
    steps.map Prod.snd = Fixture.twice ++ [.go 2 (Fixture.meets 20)] ∧
    (desk Fixture.env).replies s (.go 2 (Fixture.meets 20)) = some (d, .ok) ∧
    ∃ q ∈ steps, ∃ d', (desk Fixture.env).commits q.1 q.2 = some d' ∧
      d'.message.key = (.indexer, "evt-threshold") := by
  have hrun : (Lts.trace (desk Fixture.env).step (Desk.init Fixture.requestedAt)
      Fixture.twice).bind (fun p => Fixture.answer p.2) = some ((.indexer, "evt-threshold"), .ok) := by
    decide +kernel
  obtain ⟨⟨steps, s⟩, htrace, hanswer⟩ := Option.bind_eq_some_iff.mp hrun
  obtain ⟨t, hstep, hanswer⟩ := Option.bind_eq_some_iff.mp hanswer
  obtain ⟨⟨d, r⟩, hreplies, heq⟩ := Option.map_eq_some_iff.mp hanswer
  obtain ⟨hkey, rfl⟩ := Prod.mk.inj heq
  have hall := (Lts.trace_of_trace htrace).concat hstep
  obtain ⟨-, q, hq, d', t', hcommits, hkey', -⟩ :=
    (inbound_at_most_once Fixture.env _ _ t hall).2.1 steps (s, .go 2 (Fixture.meets 20)) [] d rfl
      hreplies
  refine ⟨_, s, t, d, hall, ?_, hreplies, q, hq, d', hcommits, hkey'.trans hkey⟩
  rw [List.map_append, Lts.trace_actions htrace]
  rfl

end GumServer
