import GumServer.Alone

/-!
# One deposit for one key

Calls of `create_deposit` under one key race: several may find the key missing, and each insert a
deposit of its own. One of them commits, together with the key. From then on the row of the key stays
as it is until it is pruned (`key_step`), and every call that comes back has come back with this row:
with its deposit if the fingerprint is the winner's, else with a conflict (`Told`).
-/

namespace GumServer

namespace Creations

variable (env : Env) (ttl : ℤ) (slot : String × String)

/-- What a step commits under a key: the fingerprint of the call, and its deposit. -/
def winner (p : Creations × CreationAction) : Option (List UInt8 × Uuid) :=
  ((creations env ttl).commits p.1 p.2).bind fun c =>
    if c.args.slot = some slot then
      c.args.idempotency.bind fun idem => c.inserted.map fun id => (idem.fingerprint, id)
    else none

/-- The call a step is of. -/
def callOf (p : Creations × CreationAction) : Option Creation :=
  match p.2 with
  | .rest _ => none
  | .start _ args => some (.start args)
  | .go name _ | .quit name => p.1.sessions.get? name

end Creations

/-- The same, of a row. -/
def KeyRow.winner (row : KeyRow) : List UInt8 × Uuid := (row.requestHash, row.depositId)

/-! ## The row of a key -/

section Key

variable {env : Env} {ttl : ℤ} {slot : String × String} {s t : Creations} {a : CreationAction}

/-- **A commit under a key** finds no row and leaves one. -/
theorem winner_commit (h : Sound env s) {c : Creation}
    (hcommits : (creations env ttl).commits s a = some c)
    (hstep : (creations env ttl).step s a = some t) (hslot : c.args.slot = some slot) :
    s.shared.keys.get? slot = none ∧ ∃ row, t.shared.keys.get? slot = some row ∧
      Creations.winner env ttl slot (s, a) = some row.winner := by
  obtain ⟨store, r, hturn⟩ := Sessions.System.commits_eq_some hcommits
  obtain ⟨name, input, -, hc, hnext, hafter⟩ := Sessions.System.turn_eq_some hturn
  obtain rfl := Option.some.inj (hafter.symm.trans hstep)
  cases Creation.next_turned hnext with
  | commit id mint d w r hstage hinsert hw hr =>
    refine ⟨h.unclaimed hc (Creation.holds_of_claimed hstage hslot), ?_⟩
    obtain ⟨idem, hidem, rfl⟩ := Option.map_eq_some_iff.mp hslot
    refine ⟨_, Creation.putKey_self hidem, ?_⟩
    rw [Creations.winner, hcommits, Option.bind_some, if_pos hslot, hidem, Option.bind_some,
      Creation.inserted, hstage]
    rfl

/-- **What a step does to the row of a key** that it does not prune: nothing, unless it commits a
call under it. -/
theorem key_step (h : Sound env s) (hstep : (creations env ttl).step s a = some t)
    (hprunes : s.prunes ttl slot a = false) :
    (Creations.winner env ttl slot (s, a) = none ∧
      t.shared.keys.get? slot = s.shared.keys.get? slot) ∨
    (s.shared.keys.get? slot = none ∧ ∃ row, t.shared.keys.get? slot = some row ∧
      Creations.winner env ttl slot (s, a) = some row.winner) := by
  cases hcommits : (creations env ttl).commits s a with
  | some c =>
    by_cases hslot : c.args.slot = some slot
    · exact .inr (winner_commit h hcommits hstep hslot)
    · refine .inl ⟨?_, ?_⟩
      · rw [Creations.winner, hcommits, Option.bind_some, if_neg hslot]
      · obtain ⟨store, r, hturn⟩ := Sessions.System.commits_eq_some hcommits
        obtain ⟨name, input, -, hc, hnext, hafter⟩ := Sessions.System.turn_eq_some hturn
        obtain rfl := Option.some.inj (hafter.symm.trans hstep)
        cases Creation.next_turned hnext with
        | commit id mint d w r hstage hinsert hw hr => exact Creation.putKey_of_ne hslot
  | none =>
    refine .inl ⟨by rw [Creations.winner, hcommits]; rfl, ?_⟩
    cases a with
    | rest b =>
      obtain ⟨store, hstore, rfl⟩ := Option.map_eq_some_iff.mp hstep
      cases b with
      | service a =>
        obtain ⟨-, hstore⟩ := Option.ite_none_left_eq_some.mp hstore
        obtain ⟨w, hw, rfl⟩ := Option.map_eq_some_iff.mp hstore
        rfl
      | prune =>
        obtain rfl := Option.some.inj hstore
        have hold : (s.shared.keys.get? slot).any (fun row =>
          decide (row.createdAt < s.shared.world.ago ttl)) = false := hprunes
        show (s.shared.keys.filter _).get? slot = _
        rw [KeyMap.get?_filter]
        cases hrow : s.shared.keys.get? slot with
        | none => rfl
        | some row =>
          rw [hrow, Option.any_some] at hold
          rw [Option.filter_some]
          exact if_pos (decide_eq_true (Int.not_lt.mp (of_decide_eq_false hold)))
    | start name args =>
      rw [Sessions.System.step_shared hstep (fun b => nofun) hcommits]
    | go name input =>
      rw [Sessions.System.step_shared hstep (fun b => nofun) hcommits]
    | quit name =>
      rw [Sessions.System.step_shared hstep (fun b => nofun) hcommits]

/-- **What a run does to it.** -/
theorem key_run {steps : List (Creations × CreationAction)} (h : Sound env s)
    (hrun : Lts.Trace (creations env ttl).step s steps t)
    (hprunes : ∀ p ∈ steps, p.1.prunes ttl slot p.2 = false) : Sound env t ∧
      ((s.shared.keys.get? slot).map KeyRow.winner).toList ++
        steps.filterMap (Creations.winner env ttl slot) =
      ((t.shared.keys.get? slot).map KeyRow.winner).toList := by
  induction hrun with
  | nil => exact ⟨h, List.append_nil _⟩
  | @concat steps t u a _ hstep ih =>
    obtain ⟨ht, hwinners⟩ := ih fun p hp => hprunes p (List.mem_append_left _ hp)
    refine ⟨ht.step hstep, ?_⟩
    rw [List.filterMap_append, ← List.append_assoc, hwinners]
    have hkept := hprunes (t, a) (List.mem_append_right _ (List.mem_singleton_self _))
    rcases key_step ht hstep hkept with ⟨hnone, hsame⟩ | ⟨hnone, row, hrow, hwinner⟩
    · rw [hsame, List.filterMap_cons, hnone]
      exact List.append_nil _
    · rw [hnone, hrow, List.filterMap_cons, hwinner]
      rfl

end Key

/-! ## What the calls are told -/

/-- A call that has found its key has found the row that is there. -/
def Looked (slot : String × String) (s : Creations) : Prop :=
  ∀ {name c again id}, s.sessions.get? name = some c → c.args.slot = some slot →
    c.stage = .found again id → ∃ row idem, s.shared.keys.get? slot = some row ∧
      c.args.idempotency = some idem ∧ row.requestHash = idem.fingerprint ∧ row.depositId = id

section Told

variable {env : Env} {ttl : ℤ} {slot : String × String} {s t : Creations} {a : CreationAction}

/-- A row stays until it is pruned. -/
theorem key_stays (h : Sound env s) (hstep : (creations env ttl).step s a = some t)
    (hprunes : s.prunes ttl slot a = false) {row : KeyRow}
    (hrow : s.shared.keys.get? slot = some row) : t.shared.keys.get? slot = some row := by
  rcases key_step h hstep hprunes with ⟨-, hsame⟩ | ⟨hnone, -⟩
  · exact hsame.trans hrow
  · rw [hnone] at hrow
    cases hrow

/-- Over a run. -/
theorem key_stays_run {steps : List (Creations × CreationAction)} (h : Sound env s)
    (hrun : Lts.Trace (creations env ttl).step s steps t)
    (hprunes : ∀ p ∈ steps, p.1.prunes ttl slot p.2 = false) {row : KeyRow}
    (hrow : s.shared.keys.get? slot = some row) :
    Sound env t ∧ t.shared.keys.get? slot = some row := by
  induction hrun with
  | nil => exact ⟨h, hrow⟩
  | @concat steps t u a _ hstep ih =>
    obtain ⟨ht, hthere⟩ := ih fun p hp => hprunes p (List.mem_append_left _ hp)
    have hkept : t.prunes ttl slot a = false :=
      hprunes (t, a) (List.mem_append_right _ (List.mem_singleton_self _))
    exact ⟨ht.step hstep, key_stays ht hstep hkept hthere⟩

theorem Looked.step (h : Looked slot s) (hs : Sound env s)
    (hstep : (creations env ttl).step s a = some t) (hprunes : s.prunes ttl slot a = false) :
    Looked slot t := by
  intro name c again id hc hslot hstage
  rcases Sessions.System.step_session hstep hc with hold | ⟨args, -, rfl⟩ | ⟨c', input, rfl, hc', hnext⟩
  · obtain ⟨row, idem, hrow, hfits⟩ := h hold hslot hstage
    exact ⟨row, idem, key_stays hs hstep hprunes hrow, hfits⟩
  · exact absurd hstage (Creation.start_stage_ne args again id)
  · cases Creation.next_turned hnext with
    | found again' idem row hidem hrow hsame =>
      obtain ⟨-, rfl⟩ := CallStage.found.inj hstage
      obtain rfl : slot = (c'.args.userId, idem.key) := by
        have hself : c'.args.slot = some slot := hslot
        rw [CreateDeposit.slot, hidem] at hself
        exact (Option.some.inj hself).symm
      exact ⟨row, idem, key_stays hs hstep hprunes hrow, hidem, hsame, rfl⟩
    | _ => cases hstage

/-- **What a call is told**: about the row that is there once it comes back. -/
theorem told_step (h : Looked slot s) (hstep : (creations env ttl).step s a = some t)
    {c : Creation} {outcome : CreateOutcome}
    (hreplies : (creations env ttl).replies s a = some (c, .ok outcome))
    (hslot : c.args.slot = some slot) {idem : Idempotency}
    (hidem : c.args.idempotency = some idem) :
    ∃ row, t.shared.keys.get? slot = some row ∧ outcome.answer.map Prod.snd =
      if idem.fingerprint = row.requestHash then some row.depositId else none := by
  obtain ⟨idem', hidem', rfl⟩ := Option.map_eq_some_iff.mp hslot
  obtain rfl : idem = idem' := Option.some.inj (hidem.symm.trans hidem')
  rcases Sessions.System.replies_eq_some hreplies with hturn | ⟨store, hturn⟩
  · obtain ⟨name, input, -, hc, hnext, hafter⟩ := Sessions.System.turn_eq_some hturn
    obtain rfl := Option.some.inj (hafter.symm.trans hstep)
    cases Creation.next_turned hnext with
    | conflict idem' row hidem' hrow hdiffers =>
      obtain rfl : idem = idem' := Option.some.inj (hidem.symm.trans hidem')
      exact ⟨row, hrow, (if_neg (Ne.symm hdiffers)).symm⟩
    | replayed again id d hstage hd =>
      obtain ⟨row, idem', hrow, hidem', hsame, rfl⟩ := h hc hslot hstage
      obtain rfl : idem = idem' := Option.some.inj (hidem.symm.trans hidem')
      refine ⟨row, hrow, ?_⟩
      rw [if_pos hsame.symm, ← Table.key_of_get? hd]
      rfl
  · obtain ⟨name, input, -, hc, hnext, hafter⟩ := Sessions.System.turn_eq_some hturn
    obtain rfl := Option.some.inj (hafter.symm.trans hstep)
    cases Creation.next_turned hnext with
    | commit id mint d w r hstage hinsert hw hr =>
      rcases hr with hcreated | ⟨error, herror⟩
      · obtain rfl := Except.ok.inj hcreated
        refine ⟨_, Creation.putKey_self hidem, ?_⟩
        rw [if_pos rfl, ← (Inserted.of_insert hinsert).id]
        rfl
      · cases herror

/-- **Over a run**, about the row that is there at its end. -/
theorem told_run {steps : List (Creations × CreationAction)} (h : Looked slot s) (hs : Sound env s)
    (hrun : Lts.Trace (creations env ttl).step s steps t)
    (hprunes : ∀ p ∈ steps, p.1.prunes ttl slot p.2 = false) :
    Looked slot t ∧ ∀ p ∈ steps, ∀ {c outcome idem},
      (creations env ttl).replies p.1 p.2 = some (c, .ok outcome) → c.args.slot = some slot →
      c.args.idempotency = some idem →
      ∃ row, t.shared.keys.get? slot = some row ∧ outcome.answer.map Prod.snd =
        if idem.fingerprint = row.requestHash then some row.depositId else none := by
  induction hrun with
  | nil => exact ⟨h, fun p hp => nomatch hp⟩
  | @concat steps t u a hrun hstep ih =>
    have hbefore : ∀ p ∈ steps, p.1.prunes ttl slot p.2 = false :=
      fun p hp => hprunes p (List.mem_append_left _ hp)
    have hkept : t.prunes ttl slot a = false :=
      hprunes (t, a) (List.mem_append_right _ (List.mem_singleton_self _))
    obtain ⟨hlooked, htold⟩ := ih hbefore
    have ht := (key_run hs hrun hbefore).1
    refine ⟨hlooked.step ht hstep hkept, ?_⟩
    intro p hp c outcome idem hreplies hslot hidem
    rcases List.mem_append.mp hp with hold | hlast
    · obtain ⟨row, hrow, hanswer⟩ := htold p hold hreplies hslot hidem
      exact ⟨row, key_stays ht hstep hkept hrow, hanswer⟩
    · obtain rfl := List.mem_singleton.mp hlast
      exact told_step hlooked hstep hreplies hslot hidem

end Told

/-! ## What a commit adds -/

/-- One deposit, one event and one job. -/
structure AddsDeposit (db db' : Db) (id : Uuid) : Prop where
  new : db.deposits.get? id = none
  deposit : ∃ d, db'.deposits.get? id = some d
  deposits : ∀ id', id' ≠ id → db'.deposits.get? id' = db.deposits.get? id'
  event : ∃ e, db'.events = db.events ++ [e] ∧ e.depositId = id ∧ e.eventType = .created
  job : ∃ r, db.outbox.get? r.id = none ∧ db'.outbox.get? r.id = some r ∧ r.depositId = id ∧
    r.payload = .registerWatch ∧ ∀ row, row ≠ r.id → db'.outbox.get? row = db.outbox.get? row

theorem AddsDeposit.ofCreate {env : Env} {w w' : World} {new : NewDeposit} {user : String}
    {id : Uuid} {mint : Mint} (h : Reachable env w)
    (hstep : step env w (.create new user id mint) = some w') : AddsDeposit w.db w'.db id := by
  obtain ⟨d, -, rfl, hfresh, -, rfl⟩ := create_eq_some hstep
  have hfit := JobsFit.reachable h
  refine ⟨?_, ?_, ?_, ?_, ?_⟩
  · refine Option.eq_none_iff_forall_ne_some.mpr fun d' hd' => ?_
    exact JobsFit.not_minted hfresh (List.mem_cons_self) (hfit.deposits hd')
  · exact ⟨_, (World.created_deposits w d mint d.id).trans (if_pos rfl)⟩
  · intro id' hne
    exact (World.created_deposits w d mint id').trans (if_neg (Ne.symm hne))
  · exact ⟨_, World.created_events w d mint, rfl, rfl⟩
  · refine ⟨Db.newRow w.clock mint.job d.id .registerWatch, ?_, ?_, rfl, rfl, ?_⟩
    · refine Option.eq_none_iff_forall_ne_some.mpr fun r hr => ?_
      exact JobsFit.not_minted hfresh (List.mem_cons_of_mem _ mint.job_mem) (hfit.rows hr)
    · exact (World.created_outbox w d mint mint.job).trans (if_pos rfl)
    · intro row hne
      exact (World.created_outbox w d mint row).trans (if_neg (Ne.symm hne))

/-- **A winner** adds its deposit. -/
theorem winner_adds {env : Env} {ttl : ℤ} {slot : String × String} {s t : Creations}
    {a : CreationAction} {fingerprint : List UInt8} {id : Uuid} (h : Sound env s)
    (hwinner : Creations.winner env ttl slot (s, a) = some (fingerprint, id))
    (hstep : (creations env ttl).step s a = some t) :
    AddsDeposit s.shared.world.db t.shared.world.db id := by
  obtain ⟨c, hcommits, hwinner⟩ := Option.bind_eq_some_iff.mp hwinner
  obtain ⟨-, hwinner⟩ := Option.ite_none_right_eq_some.mp hwinner
  obtain ⟨idem, -, hwinner⟩ := Option.bind_eq_some_iff.mp hwinner
  obtain ⟨id', hinserted, heq⟩ := Option.map_eq_some_iff.mp hwinner
  obtain ⟨-, rfl⟩ := Prod.mk.inj heq
  obtain ⟨store, r, hturn⟩ := Sessions.System.commits_eq_some hcommits
  obtain ⟨name, input, -, hc, hnext, hafter⟩ := Sessions.System.turn_eq_some hturn
  obtain rfl := Option.some.inj (hafter.symm.trans hstep)
  cases Creation.next_turned hnext with
  | commit id mint d w r hstage hinsert hw hr =>
    rw [Creation.inserted, hstage] at hinserted
    obtain rfl := Option.some.inj hinserted
    exact .ofCreate h.reachable hw

/-! ## What a call leaves behind -/

section Behind

variable {env : Env} {ttl : ℤ} {slot : String × String} {s t : Creations} {a : CreationAction}
  {c : Creation}

/-- A call commits itself. -/
theorem callOf_of_commits (hcommits : (creations env ttl).commits s a = some c) :
    Creations.callOf (s, a) = some c := by
  obtain ⟨store, r, hturn⟩ := Sessions.System.commits_eq_some hcommits
  obtain ⟨name, input, rfl, hc, -⟩ := Sessions.System.turn_eq_some hturn
  exact hc

/-- **A call that is no winner leaves nothing behind.** -/
theorem nothing_behind (h : Sound env s) (hstep : (creations env ttl).step s a = some t)
    (hc : Creations.callOf (s, a) = some c) (hslot : c.args.slot = some slot)
    (hwinner : Creations.winner env ttl slot (s, a) = none) : t.shared = s.shared := by
  refine Sessions.System.step_shared hstep ?_ ?_
  · rintro b rfl
    cases hc
  · cases hcommits : (creations env ttl).commits s a with
    | none => rfl
    | some c' =>
      obtain rfl := Option.some.inj (hc.symm.trans (callOf_of_commits hcommits))
      obtain ⟨-, row, -, hrow⟩ := winner_commit h hcommits hstep hslot
      rw [hwinner] at hrow
      cases hrow

/-- A winner has the fingerprint of its call. -/
theorem winner_fingerprint {fingerprint : List UInt8} {id : Uuid} {idem : Idempotency}
    (hwinner : Creations.winner env ttl slot (s, a) = some (fingerprint, id))
    (hc : Creations.callOf (s, a) = some c) (hidem : c.args.idempotency = some idem) :
    idem.fingerprint = fingerprint := by
  obtain ⟨c', hcommits, hwinner⟩ := Option.bind_eq_some_iff.mp hwinner
  obtain rfl := Option.some.inj (hc.symm.trans (callOf_of_commits hcommits))
  obtain ⟨-, hwinner⟩ := Option.ite_none_right_eq_some.mp hwinner
  obtain ⟨idem', hidem', hwinner⟩ := Option.bind_eq_some_iff.mp hwinner
  obtain rfl := Option.some.inj (hidem.symm.trans hidem')
  obtain ⟨id', -, heq⟩ := Option.map_eq_some_iff.mp hwinner
  exact (Prod.mk.inj heq).1

end Behind

/-- **One deposit for one key.** In every run of any number of calls of `create_deposit`, next to
the rest of the service, and for every user and key:

* as long as the key is not pruned, at most one call under it commits, every call under it that
  comes back without an error comes back with the deposit of that one if it has the same
  fingerprint, and else with a conflict, and no step of a call with another fingerprint changes
  anything;
* the commit adds one deposit, one `created` event and one `register_watch` job, and nothing else;
* no other step of a call under the key changes anything;
* calls under other users and keys make no difference: the clock, the users, the prunes and the
  steps of the calls under the key alone are a run too, in which these calls are told the same. -/
theorem create_deposit_idempotent (env : Env) (ttl : ℤ) (clock : DateTime)
    (slot : String × String) (steps : List (Creations × CreationAction)) (s : Creations)
    (h : Lts.Trace (creations env ttl).step (Creations.init clock) steps s) :
    ((∀ p ∈ steps, p.1.prunes ttl slot p.2 = false) →
      (steps.filterMap (Creations.winner env ttl slot)).length ≤ 1 ∧
      (∀ p ∈ steps, ∀ c outcome idem,
        (creations env ttl).replies p.1 p.2 = some (c, .ok outcome) → c.args.slot = some slot →
        c.args.idempotency = some idem →
        ∃ fingerprint id,
          steps.filterMap (Creations.winner env ttl slot) = [(fingerprint, id)] ∧
          outcome.answer.map Prod.snd =
            if idem.fingerprint = fingerprint then some id else none) ∧
      ∀ p ∈ steps, ∀ t c idem, (creations env ttl).step p.1 p.2 = some t →
        Creations.callOf p = some c → c.args.slot = some slot →
        c.args.idempotency = some idem →
        (∀ w ∈ steps.filterMap (Creations.winner env ttl slot), w.1 ≠ idem.fingerprint) →
        t.shared = p.1.shared) ∧
    (∀ p ∈ steps, ∀ t fingerprint id, (creations env ttl).step p.1 p.2 = some t →
      Creations.winner env ttl slot p = some (fingerprint, id) →
      AddsDeposit p.1.shared.world.db t.shared.world.db id) ∧
    (∀ p ∈ steps, ∀ t c, (creations env ttl).step p.1 p.2 = some t →
      Creations.callOf p = some c → c.args.slot = some slot →
      Creations.winner env ttl slot p = none → t.shared = p.1.shared) ∧
    ∃ steps' s', Lts.Trace (creations env ttl).step (Creations.init clock) steps' s' ∧
      steps'.map Prod.snd = (steps.filter (Creations.keeps slot)).map Prod.snd ∧
      steps'.filterMap (Creations.answer env ttl slot) =
        steps.filterMap (Creations.answer env ttl slot) := by
  have hsound : ∀ p ∈ steps, Sound env p.1 := by
    intro p hp
    obtain ⟨-, hreaches, -⟩ := h.of_mem hp
    exact Sound.ofReaches hreaches
  refine ⟨?_, ?_, ?_, ?_⟩
  · intro hprunes
    have hwinners : steps.filterMap (Creations.winner env ttl slot) =
        ((s.shared.keys.get? slot).map KeyRow.winner).toList :=
      (key_run (Sound.init clock) h hprunes).2
    refine ⟨?_, ?_, ?_⟩
    · rw [hwinners]
      exact Option.length_toList_le
    · intro p hp c outcome idem hreplies hslot hidem
      have hlooked : Looked slot (Creations.init clock) := by
        intro name c again id hget
        cases hget
      obtain ⟨row, hrow, hanswer⟩ :=
        (told_run hlooked (Sound.init clock) h hprunes).2 p hp hreplies hslot hidem
      refine ⟨row.requestHash, row.depositId, ?_, hanswer⟩
      rw [hwinners, hrow]
      rfl
    · intro p hp t c idem hstep hc hslot hidem hother
      refine nothing_behind (hsound p hp) hstep hc hslot ?_
      cases hwinner : Creations.winner env ttl slot p with
      | none => rfl
      | some w =>
        have hmem := List.mem_filterMap.mpr ⟨p, hp, hwinner⟩
        exact absurd (winner_fingerprint hwinner hc hidem).symm (hother w hmem)
  · intro p hp t fingerprint id hstep hwinner
    exact winner_adds (hsound p hp) hwinner hstep
  · intro p hp t c hstep hc hslot hwinner
    exact nothing_behind (hsound p hp) hstep hc hslot hwinner
  · obtain ⟨steps', u, hrun, -, hactions, hanswers⟩ := Creations.Left.trace slot h
    exact ⟨steps', u, hrun, hactions, hanswers⟩

/-! ## Two copies of a request, and another one -/

namespace Fixture

/-- The fixture's request under a key, at an address of its own. -/
def calling (n : ℕ) (fingerprint : List UInt8) : CreateDeposit where
  userId := "user"
  new := { new with paymentAddress := Fin.ofNat _ (n + 1) }
  idempotency := some ⟨"key", fingerprint⟩

/-- Two copies of a request, and another one under the same key, all insert their deposits before
any of them inserts the key. -/
def race : List CreationAction := [
  .rest (.service (.setUser "user" none)),
  .start 0 (calling 0 [1]), .start 1 (calling 1 [1]), .start 2 (calling 2 [2]),
  .go 0 .go, .go 1 .go, .go 2 .go,
  .go 0 (.insert 7), .go 1 (.insert 8), .go 2 (.insert 9),
  .go 0 .go, .go 0 (.commit (mint 0) none),
  .go 1 .go, .go 1 .go, .go 1 .go,
  .go 2 .go, .go 2 .go]

/-- What they are told, and whether the key is pruned. -/
def raced (p : List (Creations × CreationAction) × Creations) :
    Option (List (Option (Option (Bool × Uuid))) × Bool) :=
  some ((p.1.filterMap (Creations.answer env 86400 ("user", "key"))).map fun q => q.2.toOption,
    p.1.any fun q => q.1.prunes 86400 ("user", "key") q.2)

end Fixture

/-- The first call wins, its copy is told about its deposit, and the other request conflicts. -/
theorem create_deposit_idempotent_fixture : ∃ steps s,
    Lts.Trace (creations Fixture.env 86400).step (Creations.init Fixture.requestedAt) steps s ∧
    (steps.filterMap (Creations.answer Fixture.env 86400 ("user", "key"))).map
      (fun q => q.2.toOption) = [some (some (false, 7)), some (some (true, 7)), some none] ∧
    (steps.filterMap (Creations.winner Fixture.env 86400 ("user", "key"))).length ≤ 1 := by
  obtain ⟨steps, s, hrun, hraced⟩ : ∃ steps s, Lts.Trace (creations Fixture.env 86400).step
      (Creations.init Fixture.requestedAt) steps s ∧ Fixture.raced (steps, s) =
        some ([some (some (false, 7)), some (some (true, 7)), some none], false) :=
    @Lts.exists_trace_of_trace _ _ _ _ _ Fixture.race _ _ (by decide +kernel)
  obtain ⟨hanswers, hprunes⟩ := Prod.mk.inj (Option.some.inj hraced)
  refine ⟨steps, s, hrun, hanswers, ?_⟩
  refine ((create_deposit_idempotent Fixture.env 86400 _ ("user", "key") steps s hrun).1 ?_).1
  intro p hp
  exact Bool.eq_false_of_not_eq_true (List.any_eq_false.mp hprunes p hp)

end GumServer
