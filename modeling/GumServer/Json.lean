import Mathlib.Data.Int.Notation
import GumServer.Text

/-!
# JSON values and third-party parsers

`Value` is `serde_json::Value`: an object is its list of fields, looked up by name.
Every accessor answers `none` on the wrong shape, as serde's do, so a missing, null
or mistyped field and an absent one look the same to the caller.

`Crates` collects the parsers and formatters the source takes from elsewhere (alloy,
ruint, hex, `std::fmt`). They are parameters of the model: what is proved below holds
of any functions with the documented behaviour its laws state. `Crates.reference` is
one such choice, close enough to the real parsers to run the model on real quotes.
-/

namespace GumServer

/-! ## Values -/

/-- `serde_json::Number`. -/
inductive Number : Type where
  /-- a non-negative integer -/
  | posInt : U64 → Number
  /-- a negative integer -/
  | negInt : ℤ → Number
  /-- anything with a fraction or an exponent -/
  | float : Float → Number

/-- `serde_json::Value`. -/
inductive Value : Type where
  /-- `null` -/
  | null : Value
  /-- a boolean -/
  | bool : Bool → Value
  /-- a number -/
  | number : Number → Value
  /-- a string -/
  | string : String → Value
  /-- an array -/
  | array : List Value → Value
  /-- an object, as its fields -/
  | object : List (String × Value) → Value

namespace Value

instance : Inhabited Value := ⟨null⟩

/-- `Value::get(&str)`. -/
def get (key : String) : Value → Option Value
  | object fields => fields.lookup key
  | _ => none

/-- `Value::as_str`. -/
def asStr : Value → Option String
  | string s => some s
  | _ => none

/-- `Value::as_u64`. -/
def asU64 : Value → Option U64
  | number (.posInt n) => some n
  | _ => none

/-- `Value::as_array`. -/
def asArray : Value → Option (List Value)
  | array xs => some xs
  | _ => none

/-- `Value::is_object`. -/
def isObject : Value → Bool
  | object _ => true
  | _ => false

/-- An array index of a JSON pointer: decimal, without a sign or a leading zero. -/
def parseIndex (token : String) : Option ℕ :=
  match token.toList with
  | '+' :: _ => none
  | '0' :: _ :: _ => none
  | _ => (parseU64 token).map (·.val)

/-- `Value::pointer`, on the pointer's reference tokens. -/
def pointer : List String → Value → Option Value
  | [], v => some v
  | token :: rest, object fields => (fields.lookup token).bind (pointer rest)
  | token :: rest, array xs => ((parseIndex token).bind (xs[·]?)).bind (pointer rest)
  | _ :: _, _ => none

/-- The string at a field: `get(key).and_then(Value::as_str)`. -/
def strField (v : Value) (key : String) : Option String := (v.get key).bind asStr

theorem strField_eq_some {v : Value} {key s : String} :
    v.strField key = some s ↔ v.get key = some (string s) := by
  rw [strField]
  rcases v.get key with _ | w
  · simp
  · cases w <;> simp [asStr]

theorem asArray_eq_some {v : Value} {xs : List Value} : v.asArray = some xs ↔ v = array xs := by
  cases v <;> simp [asArray]

end Value

/-! ## Third-party parsers -/

/-- What the source takes from other crates, with the documented behaviour it relies on. -/
structure Crates where
  /-- `str::parse::<Address>` -/
  parseAddress : String → Option Address
  /-- `str::parse::<B256>` -/
  parseB256 : String → Option B256
  /-- `str::parse::<Bytes>` -/
  parseBytes : String → Option (List UInt8)
  /-- `U256::from_str_radix(_, 10)` -/
  fromStrRadix : String → Option U256
  /-- `hex::decode` -/
  hexDecode : String → Option (List UInt8)
  /-- `{:?}` of a string -/
  debugStr : String → String
  /-- `{:?}` of an optional JSON value -/
  debugValue : Option Value → String
  /-- `{}` of a JSON value -/
  displayValue : Value → String
  /-- `usd.parse::<f64>().ok().map(|usd| format!("{:.2}", (-usd).max(0.0)))` -/
  routeUsd : String → Option String
  /-- an address parses from `0x` and forty hex digits of either case -/
  parseAddress_hex : ∀ {cs : List Char} {bs : List UInt8}, unhex cs = some bs → bs.length = 20 →
    parseAddress (String.ofList ('0' :: 'x' :: cs)) = some (Address.ofBytes bs)
  /-- no address parses from an empty string -/
  parseAddress_empty : parseAddress "" = none
  /-- a hash parses from `0x` and sixty-four hex digits of either case -/
  parseB256_hex : ∀ {cs : List Char} {bs : List UInt8}, unhex cs = some bs → bs.length = 32 →
    parseB256 (String.ofList ('0' :: 'x' :: cs)) = some (U256.ofBytes bs)
  /-- byte strings parse from `0x` and any even count of hex digits -/
  parseBytes_hex : ∀ {cs : List Char} {bs : List UInt8}, unhex cs = some bs →
    parseBytes (String.ofList ('0' :: 'x' :: cs)) = some bs
  /-- decimal digits spell their number, when it fits -/
  fromStrRadix_digits : ∀ {cs : List Char}, cs ≠ [] → cs.all Char.isDigit →
    (fromStrRadix (String.ofList cs)).map Fin.val =
      if Nat.ofDigitChars 10 cs 0 < 2 ^ 256 then some (Nat.ofDigitChars 10 cs 0) else none
  /-- pairs of hex digits of either case, no prefix -/
  hexDecode_eq : ∀ s, hexDecode s = unhex s.toList

namespace Crates

variable (lib : Crates)

/-- An address read back from its own `{:#x}`. -/
@[simp] theorem parseAddress_lowerHex (a : Address) : lib.parseAddress a.lowerHex = some a := by
  rw [Address.lowerHex, lowerHex, lib.parseAddress_hex (unhex_hexChars _) (by simp)]
  simp

/-- A hash read back from its own `{:#x}`. -/
@[simp] theorem parseB256_lowerHex (w : B256) :
    lib.parseB256 (lowerHex (B256.toBytes w)) = some w := by
  rw [lowerHex, lib.parseB256_hex (unhex_hexChars _) (by simp)]
  simp

/-- Bytes read back from their own `to_string`. -/
@[simp] theorem parseBytes_lowerHex (bs : List UInt8) :
    lib.parseBytes (lowerHex bs) = some bs := by
  rw [lowerHex, lib.parseBytes_hex (unhex_hexChars _)]

/-- A number read back from its own decimal text. -/
@[simp] theorem fromStrRadix_toString (n : U256) :
    lib.fromStrRadix (toString n.val) = some n := by
  have h : (lib.fromStrRadix (String.ofList (Nat.toDigits 10 n.val))).map Fin.val = _ :=
    lib.fromStrRadix_digits Nat.toDigits_ne_nil (all_isDigit_toDigits n.val)
  rw [Nat.ofDigitChars_ten_toDigits, if_pos n.isLt, Option.map_eq_some_iff] at h
  obtain ⟨m, hm, hval⟩ := h
  rw [show toString n.val = n.val.repr from rfl, Nat.repr_eq_ofList_toDigits, hm,
    Fin.ext hval]

end Crates

/-- The digits of a `from_str_radix` text: `_` is skipped. -/
def radixDigits (s : String) : List Char := s.toList.filter (· ≠ '_')

/-- The characters of a hex text after an optional `0x`. -/
def hexDigitsOf (s : String) : List Char := (strip0x s.toList).getD s.toList

/-- A fixed-size hex text: exactly `k` bytes. -/
def parseFixed {α : Type} (k : ℕ) (f : List UInt8 → α) (s : String) : Option α :=
  ((unhex (hexDigitsOf s)).filter (·.length == k)).map f

/-- Parsers with the documented behaviour, to run the model with. The formatters only
reach the texts of refusals, and are left plain. -/
def Crates.reference : Crates where
  parseAddress := parseFixed 20 Address.ofBytes
  parseB256 := parseFixed 32 U256.ofBytes
  parseBytes s := unhex (hexDigitsOf s)
  fromStrRadix s :=
    if h : Nat.ofDigitChars 10 (radixDigits s) 0 < 2 ^ 256 then
      if (radixDigits s).all Char.isDigit then some ⟨_, h⟩ else none
    else none
  hexDecode s := unhex s.toList
  debugStr s := s
  debugValue _ := "Value"
  displayValue _ := "Value"
  routeUsd s := some s
  parseAddress_hex := by
    intro cs bs h hlen
    simp [parseFixed, hexDigitsOf, strip0x, h, hlen]
  parseAddress_empty := by decide
  parseB256_hex := by
    intro cs bs h hlen
    simp [parseFixed, hexDigitsOf, strip0x, h, hlen]
  parseBytes_hex := by
    intro cs bs h
    simp [hexDigitsOf, strip0x, h]
  fromStrRadix_digits := by
    intro cs hne hall
    have hfilter : radixDigits (String.ofList cs) = cs := by
      rw [radixDigits, String.toList_ofList, List.filter_eq_self]
      intro c hc
      have hd := List.all_eq_true.mp hall c hc
      rw [decide_eq_true_eq]
      rintro rfl
      exact absurd hd (by decide)
    rw [hfilter]
    by_cases h : Nat.ofDigitChars 10 cs 0 < 2 ^ 256 <;> simp [hall]
  hexDecode_eq _ := rfl

end GumServer
