import GumServer.I64
import GumServer.Json

/-!
# Signed webhooks

`webhooks/sign.rs`: `t=<unix seconds>,v1=<hex hmac>`, over the time and the body. The header is text
from anybody: its fields come in any order, any number of times, and the last of each counts
(`lastField`). The time is compared with the clock before the digest is, in machine arithmetic.

So the check says what it is meant to say **as long as the two times are less than 2⁶³ seconds
apart** (`verify_right_iff`). Beyond that the difference, or its absolute value, is no `i64`: with
overflow checks the verification panics, without them it wraps around.
-/

namespace GumServer

/-! ## Arithmetic -/

/-- How integer arithmetic is compiled. -/
inductive Build : Type where
  /-- overflow panics -/
  | checked
  /-- overflow wraps around: the default of a release build -/
  | wrapping
deriving DecidableEq

/-- What an operation gives whose exact result is a number; `none` is a panic. -/
def Build.arith : Build → ℤ → Option I64
  | .checked, n => I64.ofInt? n
  | .wrapping, n => some (I64.wrap n)

theorem Build.arith_of_inRange (build : Build) {n : ℤ} (h : InI64 n) :
    build.arith n = some ⟨n, h⟩ := by
  cases build with
  | checked => exact I64.ofInt?_of_inRange h
  | wrapping => exact congrArg some (I64.wrap_of_inRange h)

/-! ## The header -/

/-- What the loop over the header has read. -/
structure SignatureFields where
  timestamp : Option I64
  digest : Option (List UInt8)

section Header

variable (lib : Crates)

/-- A part of the header as a name and a value. -/
def headerField (part : List Char) : Option (List Char × List Char) :=
  splitOnce '=' (trim (String.ofList part)).toList

/-- One part of the header. -/
def SignatureFields.read (acc : SignatureFields) (part : List Char) : SignatureFields :=
  match headerField part with
  | some (key, v) =>
    if key = ['t'] then { acc with timestamp := I64.parse v }
    else if key = ['v', '1'] then { acc with digest := lib.hexDecode (String.ofList v) }
    else acc
  | none => acc

/-- The loop over the header. -/
def SignatureFields.ofHeader (header : String) : SignatureFields :=
  (header.toList.splitOn ',').foldl (read lib) ⟨none, none⟩

end Header

section Verify

variable (lib : Crates) (hmac : List UInt8 → List UInt8 → List UInt8)

/-- `mac`: the time, a dot, and the body. -/
def mac (secret : String) (timestamp : I64) (body : List UInt8) : List UInt8 :=
  hmac secret.toUTF8.toList ((toString timestamp.val).toUTF8.toList ++ ".".toUTF8.toList ++ body)

/-- `signature_header`. -/
def signatureHeader (secret : String) (timestamp : I64) (body : List UInt8) : String :=
  "t=" ++ toString timestamp.val ++ ",v1=" ++ String.ofList (hexChars (mac hmac secret timestamp body))

/-- `(now - timestamp).abs()`. -/
def age (build : Build) (now timestamp : I64) : Option I64 :=
  (build.arith (now.val - timestamp.val)).bind fun diff => build.arith |diff.val|

/-- `verify`; `none` is a panic. -/
def verify (build : Build) (secret header : String) (body : List UInt8) (now tolerance : I64) :
    Option Bool :=
  match SignatureFields.ofHeader lib header with
  | ⟨some timestamp, some digest⟩ =>
    (age build now timestamp).map fun age =>
      if age.val > tolerance.val then false else mac hmac secret timestamp body == digest
  | _ => some false

end Verify

/-! ## What the loop has read -/

/-- The value of a part, if its name is this one. -/
def fieldValue (key : String) (part : List Char) : Option (List Char) :=
  (headerField part).bind fun f => if f.1 = key.toList then some f.2 else none

/-- The last field of a header with a name. -/
def lastField (key header : String) : Option (List Char) :=
  ((header.toList.splitOn ',').filterMap (fieldValue key)).getLast?

section Header

variable {lib : Crates}

theorem getLast?_fieldValue (key : String) (parts : List (List Char)) (part : List Char) :
    ((parts ++ [part]).filterMap (fieldValue key)).getLast? =
      (fieldValue key part).or (parts.filterMap (fieldValue key)).getLast? := by
  rw [List.filterMap_append, List.getLast?_append]
  cases h : fieldValue key part <;> simp [h]

/-- **The last field of each name counts.** -/
theorem SignatureFields.foldl_read (parts : List (List Char)) :
    parts.foldl (SignatureFields.read lib) ⟨none, none⟩ =
      ⟨(parts.filterMap (fieldValue "t")).getLast?.bind I64.parse,
        (parts.filterMap (fieldValue "v1")).getLast?.bind
          fun v => lib.hexDecode (String.ofList v)⟩ := by
  induction parts using List.reverseRecOn with
  | nil => rfl
  | append_singleton parts part ih =>
    rw [List.foldl_append, ih, getLast?_fieldValue, getLast?_fieldValue, List.foldl_cons,
      List.foldl_nil, SignatureFields.read, fieldValue, fieldValue]
    cases headerField part with
    | none => simp
    | some field =>
      obtain ⟨key, v⟩ := field
      by_cases ht : key = ['t']
      · simp [ht]
      · by_cases hv : key = ['v', '1']
        · simp [hv]
        · simp [ht, hv]

theorem SignatureFields.ofHeader_eq (header : String) : SignatureFields.ofHeader lib header =
    ⟨(lastField "t" header).bind I64.parse,
      (lastField "v1" header).bind fun v => lib.hexDecode (String.ofList v)⟩ :=
  SignatureFields.foldl_read _

end Header

/-! ## What a verification says -/

section Says

variable (lib : Crates) (hmac : List UInt8 → List UInt8 → List UInt8)

/-- **What an accepted header shows**: a time within the tolerance, and the digest for it. -/
def Genuine (secret header : String) (body : List UInt8) (now tolerance : I64) : Prop :=
  ∃ t digest, (lastField "t" header).bind I64.parse = some t ∧
    ((lastField "v1" header).bind fun v => lib.hexDecode (String.ofList v)) = some digest ∧
    |now.val - t.val| ≤ tolerance.val ∧ digest = mac hmac secret t body

/-- **Both times are within an `i64` of each other**, if the header has a time and a digest. -/
def Comparable (header : String) (now : I64) : Prop :=
  ∀ t, (lastField "t" header).bind I64.parse = some t →
    ((lastField "v1" header).bind fun v => lib.hexDecode (String.ofList v)).isSome = true →
    |now.val - t.val| < 2 ^ 63

variable {lib hmac} {now t : I64}

/-- The age is exact, -/
theorem age_of_lt (build : Build) (h : |now.val - t.val| < 2 ^ 63) :
    ∃ a, age build now t = some a ∧ a.val = |now.val - t.val| := by
  obtain ⟨hlow, hhigh⟩ := abs_lt.mp h
  have hdiff : InI64 (now.val - t.val) := ⟨hlow.le, hhigh⟩
  have habs : InI64 |now.val - t.val| := ⟨by have := abs_nonneg (now.val - t.val); omega, h⟩
  refine ⟨⟨_, habs⟩, ?_, rfl⟩
  rw [age, build.arith_of_inRange hdiff, Option.bind_some, build.arith_of_inRange habs]

/-- or the arithmetic overflows. -/
theorem age_of_not_lt (h : ¬ |now.val - t.val| < 2 ^ 63) : age .checked now t = none := by
  rw [age]
  by_cases hdiff : InI64 (now.val - t.val)
  · rw [Build.arith_of_inRange _ hdiff, Option.bind_some]
    exact I64.ofInt?_eq_none.mpr fun habs => h habs.2
  · rw [Build.arith, I64.ofInt?_eq_none.mpr hdiff, Option.bind_none]

variable {secret header : String} {body : List UInt8} {tolerance : I64}

/-- **A header is judged rightly, without overflow, exactly when the times compare.** -/
theorem verify_eq_iff :
    (∃ b, (∀ build, verify lib hmac build secret header body now tolerance = some b) ∧
      (b = true ↔ Genuine lib hmac secret header body now tolerance)) ↔
    Comparable lib header now := by
  simp only [verify, SignatureFields.ofHeader_eq]
  rcases htime : (lastField "t" header).bind I64.parse with _ | t
  · -- no time: refused
    refine iff_of_true ⟨false, fun _ => rfl, ?_⟩ ?_
    · simp [Genuine, htime]
    · simp [Comparable, htime]
  rcases hdigest : (lastField "v1" header).bind fun v => lib.hexDecode (String.ofList v)
    with _ | digest
  · -- no digest: refused
    refine iff_of_true ⟨false, fun _ => rfl, ?_⟩ ?_
    · simp [Genuine, hdigest]
    · simp [Comparable, hdigest]
  have hcomparable : Comparable lib header now ↔ |now.val - t.val| < 2 ^ 63 := by
    simp [Comparable, htime, hdigest]
  have hgenuine : Genuine lib hmac secret header body now tolerance ↔
      |now.val - t.val| ≤ tolerance.val ∧ digest = mac hmac secret t body := by
    simp [Genuine, htime, hdigest, and_comm]
  rw [hcomparable, hgenuine]
  constructor
  · rintro ⟨b, hbuild, -⟩
    by_contra hfar
    have hchecked := hbuild .checked
    simp only [age_of_not_lt hfar] at hchecked
    cases hchecked
  · intro hnear
    refine ⟨decide (|now.val - t.val| ≤ tolerance.val) && mac hmac secret t body == digest, ?_, ?_⟩
    · intro build
      obtain ⟨a, ha, hval⟩ := age_of_lt build hnear
      simp only [ha, Option.map_some, hval]
      by_cases hold : |now.val - t.val| ≤ tolerance.val
      · simp [hold]
      · simp [hold, not_le.mp hold]
    · simp only [Bool.and_eq_true, decide_eq_true_eq, beq_iff_eq]
      exact and_congr_right fun _ => eq_comm

end Says

/-! ## Headers of our own -/

section Field

variable (key : List Char) {v : List Char} (hkey : ∀ c ∈ key, Legible c ∧ '=' ≠ c)
  (hv : ∀ c ∈ v, Legible c)

include hkey hv

theorem legible_field : ∀ c ∈ key ++ '=' :: v, Legible c := by
  intro c hc
  rcases List.mem_append.mp hc with hc | hc
  · exact (hkey c hc).1
  · rcases List.mem_cons.mp hc with rfl | hc
    · exact ⟨by decide, by decide⟩
    · exact hv c hc

/-- **A field of a name and a legible value** is read back. -/
theorem headerField_legible : headerField (key ++ '=' :: v) = some (key, v) := by
  have hblank : ∀ c ∈ key ++ '=' :: v, isWhitespace c = false :=
    fun c hc => (legible_field key hkey hv c hc).not_whitespace
  rw [headerField, trim_of_no_whitespace hblank, String.toList_ofList]
  exact splitOnce_append fun hmem => (hkey '=' hmem).2 rfl

theorem comma_not_mem_field : ',' ∉ key ++ '=' :: v :=
  fun hmem => (legible_field key hkey hv ',' hmem).ne_comma rfl

end Field

/-- **The fields of a header of our own** are the time and the digest. -/
theorem lastField_signatureHeader (hmac : List UInt8 → List UInt8 → List UInt8) (secret : String)
    (t : I64) (body : List UInt8) :
    lastField "t" (signatureHeader hmac secret t body) = some (toString t.val).toList ∧
      lastField "v1" (signatureHeader hmac secret t body) =
        some (hexChars (mac hmac secret t body)) := by
  have ht : ∀ c ∈ ['t'], Legible c ∧ '=' ≠ c := by simp [Legible]
  have hv1 : ∀ c ∈ ['v', '1'], Legible c ∧ '=' ≠ c := by simp [Legible]
  have htext := legible_toString t.val
  have hhex := legible_hexChars (mac hmac secret t body)
  have hsplit : (signatureHeader hmac secret t body).toList.splitOn ',' =
      [['t'] ++ '=' :: (toString t.val).toList,
        ['v', '1'] ++ '=' :: hexChars (mac hmac secret t body)] := by
    rw [← List.splitOn_intercalate ',' ?_ (List.cons_ne_nil _ _)]
    · simp [signatureHeader, List.intercalate]
    · intro part hpart
      rcases List.mem_cons.mp hpart with rfl | hpart
      · exact comma_not_mem_field _ ht htext
      · obtain rfl := List.mem_singleton.mp hpart
        exact comma_not_mem_field _ hv1 hhex
  simp only [lastField, hsplit, List.filterMap_cons, List.filterMap_nil, fieldValue,
    headerField_legible _ ht htext, headerField_legible _ hv1 hhex, Option.bind_some]
  exact ⟨rfl, rfl⟩

/-- **What a verification says.** For every secret, header, body, time and tolerance:

* with and without overflow checks alike, the header is judged, and accepted if and only if its last
  `t` is a number, its last `v1` is hex, the two times differ by at most the tolerance, and the hex is
  the digest: this holds exactly when the difference of the times stays below 2⁶³, or there are no
  two times to compare;
* a header of our own is accepted exactly within the tolerance, as long as its time is less than 2⁶³
  seconds away. -/
theorem verify_right_iff (lib : Crates) (hmac : List UInt8 → List UInt8 → List UInt8)
    (secret header : String) (body : List UInt8) (now tolerance : I64) :
    ((∃ b, (∀ build, verify lib hmac build secret header body now tolerance = some b) ∧
      (b = true ↔ Genuine lib hmac secret header body now tolerance)) ↔
        Comparable lib header now) ∧
    ∀ t, (∀ build, verify lib hmac build secret (signatureHeader hmac secret t body) body now
      tolerance = some (decide (|now.val - t.val| ≤ tolerance.val))) ↔
        |now.val - t.val| < 2 ^ 63 := by
  refine ⟨verify_eq_iff, ?_⟩
  intro t
  obtain ⟨htime, hdigest⟩ := lastField_signatureHeader hmac secret t body
  have ht : (lastField "t" (signatureHeader hmac secret t body)).bind I64.parse = some t := by
    rw [htime]
    exact t.parse_toString
  have hv1 : ((lastField "v1" (signatureHeader hmac secret t body)).bind fun v =>
      lib.hexDecode (String.ofList v)) = some (mac hmac secret t body) := by
    rw [hdigest, Option.bind_some, lib.hexDecode_eq, String.toList_ofList, unhex_hexChars]
  have hcomparable : Comparable lib (signatureHeader hmac secret t body) now ↔
      |now.val - t.val| < 2 ^ 63 := by
    simp [Comparable, ht, hv1]
  have hgenuine : Genuine lib hmac secret (signatureHeader hmac secret t body) body now tolerance ↔
      |now.val - t.val| ≤ tolerance.val := by
    simp [Genuine, ht, hv1]
  constructor
  · intro hjudged
    refine hcomparable.mp (verify_eq_iff.mp ⟨_, hjudged, ?_⟩)
    rw [decide_eq_true_eq, hgenuine]
  · intro hnear build
    obtain ⟨b, hjudged, hb⟩ := verify_eq_iff.mpr (hcomparable.mpr hnear)
    rw [hjudged build, Option.some.injEq, Bool.eq_iff_iff, hb, hgenuine, decide_eq_true_eq]

namespace Fixture

/-- HMAC-SHA256 under `s3cret` of `-9223372035054775808.{}`, the one message that is signed here. -/
def hmac (_ _ : List UInt8) : List UInt8 := [
  82, 213, 225, 126, 192, 12, 152, 168, 229, 107, 109, 212, 204, 95, 95, 121,
  212, 152, 191, 117, 84, 73, 102, 204, 199, 125, 71, 83, 136, 164, 86, 226]

/-- The time of the fixture, and 2⁶³ seconds before it. -/
def signedAt : I64 := ⟨1800000000, by decide⟩

def longAgo : I64 := ⟨1800000000 - 2 ^ 63, by decide⟩

/-- Five minutes. -/
def tolerance : I64 := ⟨300, by decide⟩

end Fixture

/-- **2⁶³ seconds apart**: a checked build panics, and a wrapping one accepts the header. -/
theorem verify_overflows :
    verify Crates.reference Fixture.hmac .checked "s3cret"
      (signatureHeader Fixture.hmac "s3cret" Fixture.longAgo "\x7b\x7d".toUTF8.toList)
      "\x7b\x7d".toUTF8.toList Fixture.signedAt Fixture.tolerance = none ∧
    verify Crates.reference Fixture.hmac .wrapping "s3cret"
      (signatureHeader Fixture.hmac "s3cret" Fixture.longAgo "\x7b\x7d".toUTF8.toList)
      "\x7b\x7d".toUTF8.toList Fixture.signedAt Fixture.tolerance = some true ∧
    ¬ |Fixture.signedAt.val - Fixture.longAgo.val| ≤ Fixture.tolerance.val := by
  refine ⟨?_, ?_, by decide⟩
  · decide +kernel
  · decide +kernel

end GumServer
