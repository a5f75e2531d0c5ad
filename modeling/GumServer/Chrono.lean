import Mathlib.Algebra.Ring.Int.Defs
import Mathlib.Tactic.NormNum
import GumServer.Text

/-!
# Times

`chrono::DateTime<Utc>` is a count of whole seconds since the Unix epoch and the
nanoseconds of the second. The calendar ends somewhere, so a time carries a proof that
its second lies between the first and the last one; a truncated time needs no new check.

A leap second is the second before it, counted on past a billion nanoseconds. It shows
in differences only (`signedDurationSince`).
-/

namespace GumServer

/-- The first second of the calendar. -/
def MIN_SECS : ℤ := -8334601228800

/-- The last second of the calendar. -/
def MAX_SECS : ℤ := 8210266876799

/-- `chrono::DateTime<Utc>`. -/
structure DateTime where
  /-- whole seconds since the Unix epoch -/
  secs : ℤ
  /-- nanoseconds of the second, past a billion in a leap second -/
  nanos : ℕ
  nanos_lt : nanos < 2000000000
  /-- the second lies in the calendar -/
  inRange : MIN_SECS ≤ secs ∧ secs ≤ MAX_SECS
deriving DecidableEq

namespace DateTime

/-- `DateTime::timestamp`. -/
def timestamp (t : DateTime) : ℤ := t.secs

/-- `DateTime::from_timestamp`. -/
def fromTimestamp (secs : ℤ) (nanos : ℕ) : Option DateTime :=
  if h : (MIN_SECS ≤ secs ∧ secs ≤ MAX_SECS) ∧ nanos < 2000000000 then
    some ⟨secs, nanos, h.2, h.1⟩
  else none

/-- The start of a second of the calendar. -/
def ofSecs (secs : ℤ) (h : MIN_SECS ≤ secs ∧ secs ≤ MAX_SECS) : DateTime := ⟨secs, 0, by decide, h⟩

/-- `from_timestamp(t.timestamp(), 0).expect("in range")`: the time at its whole second. -/
def wholeSeconds (t : DateTime) : DateTime := ofSecs t.secs t.inRange

/-- The `expect` in `wholeSeconds` never fails. -/
theorem fromTimestamp_wholeSeconds (t : DateTime) :
    fromTimestamp t.timestamp 0 = some t.wholeSeconds :=
  dif_pos ⟨t.inRange, by decide⟩

/-- The second of the day. -/
def timeOfDay (t : DateTime) : ℤ := t.secs % 86400

/-- `NaiveTime::signed_duration_since`, in nanoseconds: a leap second between the two
times counts. -/
def timeSince (a b : DateTime) : ℤ :=
  let secs := a.timeOfDay - b.timeOfDay
  let leap : ℤ :=
    if a.timeOfDay > b.timeOfDay ∧ b.nanos ≥ 1000000000 then 1
    else if a.timeOfDay < b.timeOfDay ∧ a.nanos ≥ 1000000000 then -1
    else 0
  (secs + leap) * 1000000000 + (a.nanos - b.nanos : ℤ)

/-- `DateTime::signed_duration_since`, in nanoseconds: the days between the dates, then the
time of day. -/
def signedDurationSince (a b : DateTime) : ℤ :=
  (a.secs / 86400 - b.secs / 86400) * 86400 * 1000000000 + timeSince a b

/-- `TimeDelta::num_seconds`: towards zero. -/
def numSeconds (nanos : ℤ) : ℤ := nanos.tdiv 1000000000

/-! ## `TIMESTAMPTZ` -/

/-- A time as microseconds since the Unix epoch. -/
def toMicros (t : DateTime) : ℤ := t.secs * 1000000 + (t.nanos / 1000 : ℕ)

/-- A stored time, read back. -/
def ofMicros (micros : ℤ) : Option DateTime :=
  fromTimestamp (micros / 1000000) ((micros % 1000000).toNat * 1000)

/-- A time at its whole second is stored without loss. -/
theorem ofMicros_toMicros_wholeSeconds (t : DateTime) :
    ofMicros t.wholeSeconds.toMicros = some t.wholeSeconds := by
  have hmicros : t.wholeSeconds.toMicros = t.secs * 1000000 := by
    simp [toMicros, wholeSeconds, ofSecs]
  have hdiv : t.secs * 1000000 / 1000000 = t.secs := by omega
  have hmod : t.secs * 1000000 % 1000000 = 0 := by omega
  rw [ofMicros, hmicros, hdiv, hmod]
  exact t.fromTimestamp_wholeSeconds

end DateTime

/-! ## Casts -/

/-- `n as u64`: the low 64 bits. -/
def U64.ofInt (n : ℤ) : U64 := ⟨(n % 2 ^ 64).toNat, by omega⟩

/-- `n as i64`: the bits as a signed number. -/
def U64.toI64 (n : U64) : ℤ := if n.val < 2 ^ 63 then n.val else n.val - 2 ^ 64

@[simp] theorem U64.ofInt_toI64 (n : U64) : U64.ofInt n.toI64 = n := by
  have hn := n.isLt
  apply Fin.ext
  simp only [U64.ofInt, U64.toI64]
  split <;> omega

end GumServer
