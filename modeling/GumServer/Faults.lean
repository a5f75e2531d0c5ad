import GumServer.Checks

/-!
# Computations that can fault

A checker answers or refuses. Some of its operations are defined on part of their inputs only: text
is cut at a byte, a slice is taken, a value is expected to be there, numbers of fixed width are
subtracted. `Faulty` keeps the two apart: a fault is no refusal.

`sure` is a checker that cannot fault. A sequence of computations that are sure is sure
(`bind_eq_sure`). Where a fault is possible, `Answers` says when: the computation faults exactly
under the condition and otherwise comes to what the checker comes to.
-/

namespace Faults

open Checks

/-- What an operation can run into on inputs it is not defined on. -/
inductive Fault : Type where
  /-- text cut inside a character or past its end -/
  | boundary
  /-- a slice that leaves what it is taken from -/
  | range
  /-- a value of fixed size from a slice of another size -/
  | size
  /-- nothing where something was expected -/
  | expect
  /-- a difference below zero -/
  | underflow
  /-- a sum past the width -/
  | overflow
  /-- a call nested too deep -/
  | depth
deriving DecidableEq

/-- A computation that may fault, and otherwise answers or refuses. -/
structure Faulty (ε α : Type) : Type where
  run : Except Fault (Except ε α)

/-! ## Operations -/

section Operations

variable {α : Type}

/-- Cut characters behind so many bytes. -/
def splitBytes : ℕ → List Char → Option (List Char × List Char)
  | 0, cs => some ([], cs)
  | _ + 1, [] => none
  | n + 1, c :: cs =>
    if c.utf8Size ≤ n + 1 then
      (splitBytes (n + 1 - c.utf8Size) cs).map fun (front, back) => (c :: front, back)
    else none

/-- `&text[n..]`. -/
def textFrom (text : String) (n : ℕ) : Except Fault String :=
  match splitBytes n text.toList with
  | some (_, back) => .ok (String.ofList back)
  | none => .error .boundary

/-- `&text[..n]`. -/
def textTo (text : String) (n : ℕ) : Except Fault String :=
  match splitBytes n text.toList with
  | some (front, _) => .ok (String.ofList front)
  | none => .error .boundary

/-- `&items[i..j]`. -/
def range (items : List α) (i j : ℕ) : Except Fault (List α) :=
  if i ≤ j ∧ j ≤ items.length then .ok ((items.drop i).take (j - i)) else .error .range

/-- A slice as a value of exactly this size. -/
def exactly (n : ℕ) (items : List α) : Except Fault (List α) :=
  if items.length = n then .ok items else .error .size

/-- A slice as a value of at most this size. -/
def atMost (n : ℕ) (items : List α) : Except Fault (List α) :=
  if items.length ≤ n then .ok items else .error .size

/-- `expect`. -/
def expect (o : Option α) : Except Fault α :=
  match o with
  | some a => .ok a
  | none => .error .expect

/-- `a - b`. -/
def sub {n : ℕ} (a b : Fin n) : Except Fault (Fin n) :=
  if b ≤ a then .ok (a - b) else .error .underflow

/-- `a + b` at so many bits. -/
def add (bits : ℕ) (a b : ℕ) : Except Fault ℕ :=
  if a + b < 2 ^ bits then .ok (a + b) else .error .overflow

/-- Characters are cut behind a whole front. -/
theorem splitBytes_append (front back : List Char) :
    splitBytes (front.map Char.utf8Size).sum (front ++ back) = some (front, back) := by
  induction front with
  | nil =>
    cases back <;> rfl
  | cons c front ih =>
    have hpos := c.utf8Size_pos
    obtain ⟨n, hn⟩ : ∃ n, ((c :: front).map Char.utf8Size).sum = n + 1 :=
      ⟨c.utf8Size + (front.map Char.utf8Size).sum - 1, by simp; omega⟩
    have hrest : n + 1 - c.utf8Size = (front.map Char.utf8Size).sum := by
      rw [← hn, List.map_cons, List.sum_cons, Nat.add_sub_cancel_left]
    have hle : c.utf8Size ≤ n + 1 := by
      rw [← hn, List.map_cons, List.sum_cons]
      omega
    rw [hn, List.cons_append, splitBytes, if_pos hle, hrest, ih]
    rfl

theorem textFrom_eq {text : String} {front back : List Char} {n : ℕ}
    (htext : text.toList = front ++ back) (hn : (front.map Char.utf8Size).sum = n) :
    textFrom text n = .ok (String.ofList back) := by
  rw [textFrom, htext, ← hn, splitBytes_append]

theorem textTo_eq {text : String} {front back : List Char} {n : ℕ}
    (htext : text.toList = front ++ back) (hn : (front.map Char.utf8Size).sum = n) :
    textTo text n = .ok (String.ofList front) := by
  rw [textTo, htext, ← hn, splitBytes_append]

theorem range_eq {items : List α} {i j : ℕ} (hij : i ≤ j) (hj : j ≤ items.length) :
    range items i j = .ok ((items.drop i).take (j - i)) := if_pos ⟨hij, hj⟩

theorem exactly_eq {items : List α} {n : ℕ} (h : items.length = n) :
    exactly n items = .ok items := if_pos h

theorem atMost_eq {items : List α} {n : ℕ} (h : items.length ≤ n) :
    atMost n items = .ok items := if_pos h

theorem sub_eq {n : ℕ} {a b : Fin n} (h : b ≤ a) : sub a b = .ok (a - b) := if_pos h

theorem sub_fault {n : ℕ} {a b : Fin n} (h : a < b) : sub a b = .error .underflow :=
  if_neg (Fin.not_le.mpr h)

theorem add_eq {bits a b : ℕ} (h : a + b < 2 ^ bits) : add bits a b = .ok (a + b) := if_pos h

end Operations

/-! ## Sequences -/

section Sequences

variable {ε ε' α β γ : Type}

/-- A fault ends a sequence, and so does a refusal. -/
instance Faulty.instMonad : Monad (Faulty ε) where
  pure a := ⟨.ok (.ok a)⟩
  bind m f :=
    match m.run with
    | .error fault => ⟨.error fault⟩
    | .ok (.error e) => ⟨.ok (.error e)⟩
    | .ok (.ok a) => f a

/-- A checker, as a computation that cannot fault. -/
def sure (x : Except ε α) : Faulty ε α := ⟨.ok x⟩

/-- An operation, as a computation that does not refuse. -/
def attempt (x : Except Fault α) : Faulty ε α := ⟨x.map .ok⟩

instance Faulty.instLiftChecks : MonadLift (Except ε) (Faulty ε) := ⟨sure⟩

instance Faulty.instLiftOperations : MonadLift (Except Fault) (Faulty ε) := ⟨attempt⟩

/-- `map_err`. -/
def mapErr (f : ε → ε') (m : Faulty ε α) : Faulty ε' α := ⟨m.run.map (Except.mapError f)⟩

theorem liftM_eq_attempt (x : Except Fault α) : (liftM x : Faulty ε α) = attempt x := rfl

theorem liftM_okOr_some_bind (a : α) (why : ε) (f : α → Faulty ε β) :
    ((liftM (okOr (some a) why) : Faulty ε α) >>= f) = f a := rfl

/-- An operation that went well, at the head of a sequence. -/
theorem attempt_ok_bind (a : α) (f : α → Faulty ε β) : (attempt (.ok a) >>= f) = f a := rfl

theorem run_bind_fault {m : Faulty ε α} {fault : Fault} (h : m.run = .error fault)
    (f : α → Faulty ε β) : (m >>= f).run = .error fault := by
  obtain ⟨run⟩ := m
  subst h
  rfl

/-- **Sure things compose.** The rest need only be sure of what the first part answers. -/
theorem bind_eq_sure {m : Faulty ε α} {x : Except ε α} {f : α → Faulty ε β}
    {g : α → Except ε β} (hm : m = sure x) (hf : ∀ a, x = .ok a → f a = sure (g a)) :
    (m >>= f) = sure (x >>= g) := by
  subst hm
  cases x with
  | error e => rfl
  | ok a => exact hf a rfl

theorem mapErr_sure (f : ε → ε') (x : Except ε α) : mapErr f (sure x) = sure (x.mapError f) := rfl

theorem foldlM_eq_sure {step : β → α → Faulty ε β} {check : β → α → Except ε β}
    (h : ∀ b a, step b a = sure (check b a)) (as : List α) (b : β) :
    as.foldlM step b = sure (each check as b) := by
  induction as generalizing b with
  | nil => rfl
  | cons a as ih =>
    rw [List.foldlM_cons, each]
    exact bind_eq_sure (h b a) fun b' _ => ih b'

/-! ### Faults under a condition -/

/-- The computation faults, in this way, exactly when `bad`, and otherwise comes to what the checker
comes to. -/
structure Answers (m : Faulty ε α) (x : Except ε α) (fault : Fault) (bad : Prop) : Prop where
  faults : bad → m.run = .error fault
  answers : ¬ bad → m = sure x

section Rules

variable {m : Faulty ε α} {x : Except ε α} {fault : Fault} {bad bad' : Prop} {f : α → Faulty ε β}
  {g : α → Except ε β} {worse : α → Prop}

theorem Answers.of_sure (h : m = sure x) : Answers m x fault False := ⟨False.elim, fun _ => h⟩

/-- Whether there is an answer at all is the condition. -/
theorem Answers.iff (h : Answers m x fault bad) : (∃ answer, m.run = .ok answer) ↔ ¬ bad := by
  constructor
  · rintro ⟨answer, hanswer⟩ hbad
    rw [h.faults hbad] at hanswer
    cases hanswer
  · intro hbad
    exact ⟨x, by rw [h.answers hbad]; rfl⟩

/-- There is no other fault. -/
theorem Answers.eq_fault (h : Answers m x fault bad) {other : Fault} (hrun : m.run = .error other) :
    other = fault := by
  by_cases hbad : bad
  · rw [h.faults hbad] at hrun
    exact (Except.error.inj hrun).symm
  · rw [h.answers hbad] at hrun
    cases hrun

theorem Answers.congr (h : Answers m x fault bad) (hiff : bad ↔ bad') : Answers m x fault bad' :=
  propext hiff ▸ h

/-- **The rule of sequence**: the first part faults, or the rest does on what the first part
answers. -/
theorem Answers.bind (hm : Answers m x fault bad)
    (hf : ∀ a, x = .ok a → Answers (f a) (g a) fault (worse a)) :
    Answers (m >>= f) (x >>= g) fault (bad ∨ ∃ a, x = .ok a ∧ worse a) where
  faults := by
    intro h
    by_cases hbad : bad
    · exact run_bind_fault (hm.faults hbad) f
    · obtain ⟨a, rfl, hworse⟩ := h.resolve_left hbad
      rw [hm.answers hbad]
      exact (hf a rfl).faults hworse
  answers := by
    intro h
    refine bind_eq_sure (hm.answers fun hbad => h (.inl hbad)) fun a ha => ?_
    exact (hf a ha).answers fun hworse => h (.inr ⟨a, ha, hworse⟩)

/-- A check in front that cannot fault. -/
theorem Answers.sure_bind (hf : ∀ a, x = .ok a → Answers (f a) (g a) fault (worse a)) :
    Answers (sure x >>= f) (x >>= g) fault (∃ a, x = .ok a ∧ worse a) :=
  ((Answers.of_sure rfl).bind hf).congr (by simp)

/-- A check behind that cannot fault. -/
theorem Answers.bind_sure (hm : Answers m x fault bad)
    (hf : ∀ a, x = .ok a → f a = sure (g a)) : Answers (m >>= f) (x >>= g) fault bad :=
  (hm.bind fun a ha => Answers.of_sure (hf a ha)).congr (by simp)

/-- **The rule of loops**: the loop faults at the element it comes to and faults on. -/
theorem Answers.foldlM {step : β → α → Faulty ε β} {check : β → α → Except ε β}
    {bad : β → α → Prop} (h : ∀ b a, Answers (step b a) (check b a) fault (bad b a)) (as : List α)
    (b : β) :
    Answers (as.foldlM step b) (each check as b) fault
      (∃ before a after b', as = before ++ a :: after ∧ each check before b = .ok b' ∧
        bad b' a) := by
  induction as generalizing b with
  | nil => exact (Answers.of_sure rfl).congr (by simp)
  | cons a as ih =>
    rw [List.foldlM_cons, each]
    refine ((h b a).bind fun b' _ => ih b').congr ⟨?_, ?_⟩
    · rintro (hbad | ⟨b', ha, before, a', after, b'', rfl, hbefore, hbad⟩)
      · exact ⟨[], a, as, b, rfl, rfl, hbad⟩
      · exact ⟨a :: before, a', after, b'', rfl, each_cons_eq_ok.mpr ⟨b', ha, hbefore⟩, hbad⟩
    · rintro ⟨before, a', after, b'', hsplit, hbefore, hbad⟩
      cases before with
      | nil =>
        obtain ⟨rfl, rfl⟩ := List.cons.inj hsplit
        obtain rfl := Except.ok.inj hbefore
        exact .inl hbad
      | cons x before =>
        obtain ⟨rfl, rfl⟩ := List.cons.inj hsplit
        obtain ⟨b', ha, hbefore⟩ := each_cons_eq_ok.mp hbefore
        exact .inr ⟨b', ha, before, a', after, b'', rfl, hbefore, hbad⟩

end Rules

end Sequences

/-! ## Lookups -/

section Lookups

variable {ε α β : Type}

/-- A lookup that may find nothing; `mapErr` gives it its reason. -/
def found (o : Option α) : Faulty Unit α := sure (okOr o ())

instance : MonadLift Option (Faulty Unit) := ⟨found⟩

theorem bind_eq_found {m : Faulty Unit α} {o : Option α} {f : α → Faulty Unit β}
    {g : α → Option β} (hm : m = found o) (hf : ∀ a, o = some a → f a = found (g a)) :
    (m >>= f) = found (o >>= g) := by
  subst hm
  cases o with
  | none => rfl
  | some a => exact hf a rfl

theorem mapErr_found (o : Option α) (why : ε) :
    mapErr (fun _ => why) (found o) = sure (okOr o why) := by
  cases o <;> rfl

end Lookups

end Faults
