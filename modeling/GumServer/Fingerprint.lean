import GumServer.Replays
import GumServer.JsonText

/-!
# One fingerprint, one deposit

The fingerprint of a request forgets what it takes to be spelling: white space around a field, the
letter case of addresses and symbols, fractions of a second. The validator reads each field in its
own way. Here the two are held against each other: requests that are accepted and have the same
fingerprint are requests for the same deposit, up to the salt and the address derived from it
(`same_fingerprint_same_deposit`).

The token is the field to look at: text that names no address may be one in lower case (`0X…`), and
is then a symbol to the validator and the address to the fingerprint. It takes a configured symbol
that spells an address to tell the two apart.
-/

namespace GumServer

open Checks

/-! ## What is relied on -/

/-- Hex is read in either case. -/
structure HexCase (lib : Crates) : Prop where
  address {s : String} {a : Address} : lib.parseAddress s = some a →
    lib.parseAddress (toAsciiLowercase s) = some a
  b256 {s : String} {w : B256} : lib.parseB256 s = some w →
    lib.parseB256 (toAsciiLowercase s) = some w

/-- No symbol of a configured token spells an address, in whatever case. -/
def Registry.NoSymbolIsAddress (registry : Registry) (lib : Crates) : Prop :=
  ∀ raw chain, registry.chain raw = some chain →
    ∀ token ∈ chain.tokens, lib.parseAddress (toAsciiLowercase token.symbol) = none

/-! ## What the fingerprint keeps -/

/-- What two requests of one fingerprint have in common. -/
structure SameRequest (lib : Crates) (req req' : CreateDepositRequest) : Prop where
  chainId : lib.displayValue req.chainId = lib.displayValue req'.chainId
  token : toAsciiLowercase (trim req.token) = toAsciiLowercase (trim req'.token)
  amount : lib.displayValue req.amount = lib.displayValue req'.amount
  receiver : toAsciiLowercase (trim req.receiver) = toAsciiLowercase (trim req'.receiver)
  expiresAt : req.expiresAt.timestamp = req'.expiresAt.timestamp
  reference : (req.reference.map trim).map toAsciiLowercase =
    (req'.reference.map trim).map toAsciiLowercase
  webhookUrl : req.webhookUrl.map trim = req'.webhookUrl.map trim

section Canonical

variable {lib : Crates} {req req' : CreateDepositRequest}

theorem Value.scalar_ofI64 (n : ℤ) : (Value.ofI64 n).Scalar := by
  rw [Value.ofI64]
  split
  · next h => exact h
  · trivial

theorem Value.scalar_ofString? (s : Option String) : (Value.ofString? s).Scalar := by
  cases s <;> trivial

theorem Value.ofString?_injective {s t : Option String} (h : Value.ofString? s = Value.ofString? t) :
    s = t := by
  cases s <;> cases t <;> simp_all [Value.ofString?]

theorem Value.ofI64_injective {m n : ℤ} (hm : m < 2 ^ 64) (hn : n < 2 ^ 64)
    (h : Value.ofI64 m = Value.ofI64 n) : m = n := by
  have hnumber := Value.number.inj h
  split at hnumber <;> split at hnumber
  · exact Number.negInt.inj hnumber
  · cases hnumber
  · cases hnumber
  · have hval := congrArg Fin.val (Number.posInt.inj hnumber)
    simp only [U64.ofInt] at hval
    omega

theorem DateTime.timestamp_lt (t : DateTime) : t.timestamp < 2 ^ 64 := by
  have ht := t.inRange.2
  rw [DateTime.timestamp]
  rw [MAX_SECS] at ht
  omega

theorem scalar_canonicalFields (lib : Crates) (req : CreateDepositRequest) :
    ∀ f ∈ canonicalFields lib req, f.2.Scalar := by
  intro f hf
  simp only [canonicalFields, List.mem_cons, List.not_mem_nil, or_false] at hf
  rcases hf with rfl | rfl | rfl | rfl | rfl | rfl | rfl
  · trivial
  · trivial
  · exact Value.scalar_ofI64 _
  · trivial
  · exact Value.scalar_ofString? _
  · trivial
  · exact Value.scalar_ofString? _

/-- Bodies whose canonical texts are the same have the same fields in them. -/
theorem sameRequest_of_text (hjson : JsonText lib.displayValue)
    (h : canonicalText lib req = canonicalText lib req') : SameRequest lib req req' := by
  have hkeys : (canonicalFields lib req).map Prod.fst = (canonicalFields lib req').map Prod.fst := by
    simp only [canonicalFields, List.map_cons, List.map_nil]
  have hfields : canonicalFields lib req = canonicalFields lib req' :=
    hjson.object hkeys (scalar_canonicalFields lib req) (scalar_canonicalFields lib req') h
  simp only [canonicalFields] at hfields
  simp only [List.cons.injEq, Prod.mk.injEq, true_and, Value.string.injEq, and_true] at hfields
  obtain ⟨hamount, hchain, hexpires, hreceiver, hreference, htoken, hwebhook⟩ := hfields
  exact {
    chainId := hchain
    token := htoken
    amount := hamount
    receiver := hreceiver
    expiresAt := Value.ofI64_injective (DateTime.timestamp_lt _) (DateTime.timestamp_lt _) hexpires
    reference := Value.ofString?_injective hreference
    webhookUrl := Value.ofString?_injective hwebhook }

end Canonical

/-! ## What the validator reads -/

section Validator

variable {lib : Crates} {keccak256 : List UInt8 → B256} {parseUrl : String → Except String Url}

/-- The chain is read from a value that its text gives away. -/
theorem chainRaw_scalar {v : Value} {raw : String} (h : Validator.chainRaw v = .ok raw) :
    v.Scalar := by
  cases v with
  | string s => trivial
  | number n =>
    cases n with
    | posInt n => trivial
    | _ => cases h
  | _ => cases h

theorem amountText_scalar {v : Value} {text : String} (h : amountText v = .ok text) : v.Scalar := by
  cases v with
  | string s => trivial
  | _ => cases h

theorem toAsciiLowercase_eq_empty {s : String} : toAsciiLowercase s = "" ↔ s = "" := by
  rw [← String.toList_inj, ← String.toList_inj]
  simp [toAsciiLowercase]

/-- Two spellings of an address that differ in case only. -/
theorem HexCase.address_inj (hhex : HexCase lib) {s t : String} {a b : Address}
    (ha : lib.parseAddress s = some a) (hb : lib.parseAddress t = some b)
    (h : toAsciiLowercase s = toAsciiLowercase t) : a = b := by
  have ha' := hhex.address ha
  rw [h, hhex.address hb] at ha'
  exact (Option.some.inj ha').symm

theorem HexCase.b256_inj (hhex : HexCase lib) {s t : String} {a b : B256}
    (ha : lib.parseB256 s = some a) (hb : lib.parseB256 t = some b)
    (h : toAsciiLowercase s = toAsciiLowercase t) : a = b := by
  have ha' := hhex.b256 ha
  rw [h, hhex.b256 hb] at ha'
  exact (Option.some.inj ha').symm

/-- A token that is found by its symbol is not found by an address of the same spelling. -/
theorem token_symbol {chain : ChainSpec} {raw : String} {token : TokenSpec}
    (hsymbols : ∀ token ∈ chain.tokens, lib.parseAddress (toAsciiLowercase token.symbol) = none)
    (h : chain.token lib raw = some token) (hraw : lib.parseAddress (trim raw) = none) :
    lib.parseAddress (toAsciiLowercase (trim raw)) = none := by
  rw [ChainSpec.token, hraw] at h
  have hname := List.find?_some h
  have hmem := List.mem_of_find?_eq_some h
  rw [eqIgnoreAsciiCase, beq_iff_eq] at hname
  rw [← hname]
  exact hsymbols token hmem

/-- **The token** of two spellings that the fingerprint takes for one. -/
theorem token_eq {chain : ChainSpec} {raw raw' : String} {token token' : TokenSpec}
    (hhex : HexCase lib)
    (hsymbols : ∀ token ∈ chain.tokens, lib.parseAddress (toAsciiLowercase token.symbol) = none)
    (h : chain.token lib raw = some token) (h' : chain.token lib raw' = some token')
    (hraw : toAsciiLowercase (trim raw) = toAsciiLowercase (trim raw')) : token = token' := by
  rcases ha : lib.parseAddress (trim raw) with _ | a <;>
    rcases ha' : lib.parseAddress (trim raw') with _ | a'
  · -- both are symbols
    rw [ChainSpec.token, ha] at h
    rw [ChainSpec.token, ha'] at h'
    simp only [eqIgnoreAsciiCase, hraw] at h h'
    exact Option.some.inj (h.symm.trans h')
  · have hnone := token_symbol hsymbols h ha
    rw [hraw, hhex.address ha'] at hnone
    cases hnone
  · have hnone := token_symbol hsymbols h' ha'
    rw [← hraw, hhex.address ha] at hnone
    cases hnone
  · -- both are addresses
    obtain rfl := hhex.address_inj ha ha' hraw
    rw [ChainSpec.token, ha] at h
    rw [ChainSpec.token, ha'] at h'
    exact Option.some.inj (h.symm.trans h')

theorem receiver_eq {raw raw' : String} {a a' : Address} (hhex : HexCase lib)
    (h : parseAddressField lib keccak256 "receiver" raw = .ok a)
    (h' : parseAddressField lib keccak256 "receiver" raw' = .ok a')
    (hraw : toAsciiLowercase (trim raw) = toAsciiLowercase (trim raw')) : a = a' := by
  obtain ⟨b, hb, h⟩ := okOr_bind_eq_ok.mp h
  obtain ⟨-, h⟩ := refuseIf_bind_eq_ok.mp h
  obtain ⟨-, h⟩ := refuseIf_bind_eq_ok.mp h
  obtain ⟨b', hb', h'⟩ := okOr_bind_eq_ok.mp h'
  obtain ⟨-, h'⟩ := refuseIf_bind_eq_ok.mp h'
  obtain ⟨-, h'⟩ := refuseIf_bind_eq_ok.mp h'
  obtain rfl := pure_eq_ok.mp h
  obtain rfl := pure_eq_ok.mp h'
  exact hhex.address_inj hb hb' hraw

/-- A blank text is blank in lower case. -/
theorem presentText_lower (field : Option String) :
    (presentText field).map toAsciiLowercase =
      ((field.map trim).map toAsciiLowercase).filter (· ≠ "") := by
  rcases field with _ | s
  · rfl
  · by_cases hs : trim s = ""
    · have hlower := toAsciiLowercase_eq_empty.mpr hs
      simp only [presentText, Option.map_some, Option.filter_some, hs]
      rfl
    · have hlower := mt toAsciiLowercase_eq_empty.mp hs
      simp only [presentText, Option.map_some, Option.filter_some, ne_eq, hs, hlower,
        not_false_eq_true, decide_true, if_true]

theorem reference_eq {field field' : Option String} {r r' : Option B256} (hhex : HexCase lib)
    (h : Validator.parseReference lib field = .ok r)
    (h' : Validator.parseReference lib field' = .ok r')
    (hfield : (field.map trim).map toAsciiLowercase = (field'.map trim).map toAsciiLowercase) :
    r = r' := by
  have hpresent : (presentText field).map toAsciiLowercase =
      (presentText field').map toAsciiLowercase := by
    rw [presentText_lower, presentText_lower, hfield]
  rw [Validator.parseReference] at h h'
  rcases ht : presentText field with _ | t <;> rcases ht' : presentText field' with _ | t'
  · rw [ht] at h
    rw [ht'] at h'
    exact Except.ok.inj (h.symm.trans h')
  · rw [ht, ht'] at hpresent
    cases hpresent
  · rw [ht, ht'] at hpresent
    cases hpresent
  · rw [ht] at h hpresent
    rw [ht'] at h' hpresent
    obtain ⟨w, hw, rfl⟩ := map_eq_ok.mp h
    obtain ⟨w', hw', rfl⟩ := map_eq_ok.mp h'
    rw [hhex.b256_inj (okOr_eq_ok.mp hw) (okOr_eq_ok.mp hw') (Option.some.inj hpresent)]

/-- **One fingerprint, one deposit.** Two requests that the validator accepts, at whatever times and
with whatever salts, and that have the same fingerprint are for deposits of the same chain, token,
decimals, amount, receiver, calls, expiry, reference and webhook: only the salt and the payment
address may differ. -/
theorem same_fingerprint_same_deposit {sha256 : List UInt8 → List UInt8} {v : Validator}
    {req req' : CreateDepositRequest} {now now' : DateTime} {salt salt' : B256}
    {new new' : NewDeposit} (hjson : JsonText lib.displayValue) (hhex : HexCase lib)
    (hsha : ∀ r r', sha256 (canonicalText lib r).toUTF8.toList =
      sha256 (canonicalText lib r').toUTF8.toList → canonicalText lib r = canonicalText lib r')
    (hsymbols : v.registry.NoSymbolIsAddress lib)
    (h : v.validate lib keccak256 parseUrl req now salt = .ok new)
    (h' : v.validate lib keccak256 parseUrl req' now' salt' = .ok new')
    (hsame : requestFingerprint lib sha256 req = requestFingerprint lib sha256 req') :
    new' = { new with salt := new'.salt, paymentAddress := new'.paymentAddress } := by
  have hreq := sameRequest_of_text hjson (hsha req req' hsame)
  obtain ⟨raw, chain, token, amount, receiver, reference, webhookUrl, hraw, hchain, htoken, hamount,
    hreceiver, hreference, hwebhookUrl, rfl⟩ := Validator.validate_eq_ok h
  obtain ⟨raw', chain', token', amount', receiver', reference', webhookUrl', hraw', hchain', htoken',
    hamount', hreceiver', hreference', hwebhookUrl', rfl⟩ := Validator.validate_eq_ok h'
  rw [hjson.scalar (chainRaw_scalar hraw) (chainRaw_scalar hraw') hreq.chainId, hraw'] at hraw
  obtain rfl := Except.ok.inj hraw
  rw [hchain'] at hchain
  obtain rfl := Option.some.inj hchain
  have hknown := (Option.filter_eq_some_iff.mp hchain').1
  obtain rfl := token_eq hhex (hsymbols _ _ hknown) htoken htoken' hreq.token
  obtain rfl : amount = amount' := by
    obtain ⟨text, htext, -⟩ := bind_eq_ok.mp hamount
    obtain ⟨text', htext', -⟩ := bind_eq_ok.mp hamount'
    rw [hjson.scalar (amountText_scalar htext) (amountText_scalar htext') hreq.amount, hamount']
      at hamount
    exact (Except.ok.inj hamount).symm
  obtain rfl := receiver_eq hhex hreceiver hreceiver' hreq.receiver
  obtain rfl := reference_eq hhex hreference hreference' hreq.reference
  obtain rfl : webhookUrl = webhookUrl' := by
    rw [Validator.parseWebhookUrl, presentText, hreq.webhookUrl] at hwebhookUrl
    exact Except.ok.inj (hwebhookUrl.symm.trans hwebhookUrl')
  have hexpires : req.expiresAt.wholeSeconds = req'.expiresAt.wholeSeconds := by
    have hsecs : req.expiresAt.secs = req'.expiresAt.secs := hreq.expiresAt
    simp only [DateTime.wholeSeconds, hsecs]
  rw [hexpires]
  rfl

end Validator

/-! ## The reference parsers -/

theorem strip0x_map_toLower (cs : List Char) {rest : List Char} (h : strip0x cs = some rest) :
    strip0x (cs.map Char.toLower) = some (rest.map Char.toLower) := by
  rw [strip0x_eq_some.mp h]
  rfl

/-- Hex digits are none of `0x`. -/
theorem strip0x_of_unhex {cs : List Char} {bs : List UInt8} (h : unhex cs = some bs) :
    strip0x cs = none := by
  rw [Option.eq_none_iff_forall_not_mem]
  intro rest hrest
  rw [strip0x_eq_some.mp hrest] at h
  have hall := (all_isHexDigit_of_unhex h).1
  simp only [List.all_cons, Bool.and_eq_true] at hall
  exact absurd hall.2.1 (by decide)

theorem parseFixed_lower {α : Type} {k : ℕ} {f : List UInt8 → α} {s : String} {a : α}
    (h : parseFixed k f s = some a) : parseFixed k f (toAsciiLowercase s) = some a := by
  have hdigits : unhex (hexDigitsOf (toAsciiLowercase s)) = unhex (hexDigitsOf s) := by
    obtain ⟨bs, hbs, -⟩ := Option.map_eq_some_iff.mp h
    have hread := (Option.filter_eq_some_iff.mp hbs).1
    rw [hexDigitsOf] at hread ⊢
    rw [hexDigitsOf, toAsciiLowercase, String.toList_ofList]
    rcases hs : strip0x s.toList with _ | rest
    · rw [hs, Option.getD_none] at hread
      have hlower := (unhex_map_toLower s.toList).trans hread
      rw [strip0x_of_unhex hlower, Option.getD_none, Option.getD_none, hlower, hread]
    · rw [strip0x_map_toLower _ hs, Option.getD_some, Option.getD_some, unhex_map_toLower]
  rw [parseFixed, hdigits]
  exact h

/-! ## One request, spelled in two ways -/

namespace Fixture

/-- The parsers, with JSON as it is written. -/
def jsonCrates : Crates := { Crates.reference with displayValue := Value.text }

/-- The fixture's request again, with its token in capitals and a fraction of a second. -/
def requestAgain : CreateDepositRequest :=
  { request with
    token := "USDC "
    expiresAt := ⟨1800000000, 250000000, by decide, expiry.inRange⟩ }

/-- A hash with the digest of the canonical text of the fixture's request. -/
def digest (bs : List UInt8) : List UInt8 :=
  if bs = (canonicalText jsonCrates request).toUTF8.toList then sha256 bs else 0 :: bs

theorem digest_injective {s t : String} (h : digest s.toUTF8.toList = digest t.toUTF8.toList) :
    s = t := by
  simp only [digest, sha256] at h
  split at h <;> split at h
  · next hs ht => exact toUTF8_toList_injective (hs.trans ht.symm)
  · simp at h
  · simp at h
  · exact toUTF8_toList_injective (List.tail_eq_of_cons_eq h)

theorem hexCase : HexCase jsonCrates where
  address h := by
    have hparse : jsonCrates.parseAddress = parseFixed 20 Address.ofBytes := rfl
    rw [hparse] at h ⊢
    exact parseFixed_lower h
  b256 h := by
    have hparse : jsonCrates.parseB256 = parseFixed 32 U256.ofBytes := rfl
    rw [hparse] at h ⊢
    exact parseFixed_lower h

theorem canonicalText_requestAgain :
    canonicalText jsonCrates requestAgain = canonicalText jsonCrates request := by
  have htoken : toAsciiLowercase (trim "USDC ") = toAsciiLowercase (trim "usdc") := by decide
  have hexpires : requestAgain.expiresAt.timestamp = request.expiresAt.timestamp := rfl
  simp only [canonicalText, canonicalFields, hexpires]
  simp only [requestAgain, request, htoken]

theorem noSymbolIsAddress : validator.registry.NoSymbolIsAddress jsonCrates := by
  intro raw chain hchain token htoken
  have hone : chain = Registry.specOf "anvil" ⟨"anvil", 31337, true, [⟨"usdc", usdc, 6⟩]⟩ := by
    rw [Registry.chain] at hchain
    split at hchain
    · exact List.mem_singleton.mp (KeyMap.mem_values_of_get? hchain)
    · exact List.mem_singleton.mp (KeyMap.mem_values_of_get? hchain)
  subst hone
  rw [List.mem_singleton.mp htoken]
  decide +kernel

end Fixture

theorem same_fingerprint_same_deposit_fixture :
    ∃ new new', Fixture.validator.validate Fixture.jsonCrates Fixture.keccak256 Fixture.parseUrl
        Fixture.request Fixture.requestedAt 1 = .ok new ∧
      Fixture.validator.validate Fixture.jsonCrates Fixture.keccak256 Fixture.parseUrl
        Fixture.requestAgain Fixture.requestedAt 2 = .ok new' ∧
      requestFingerprint Fixture.jsonCrates Fixture.digest Fixture.request =
        requestFingerprint Fixture.jsonCrates Fixture.digest Fixture.requestAgain ∧
      new' = { new with salt := new'.salt, paymentAddress := new'.paymentAddress } := by
  have hvalid : ((Fixture.validator.validate Fixture.jsonCrates Fixture.keccak256 Fixture.parseUrl
      Fixture.request Fixture.requestedAt 1).toOption).isSome = true := by decide +kernel
  have hagain : ((Fixture.validator.validate Fixture.jsonCrates Fixture.keccak256 Fixture.parseUrl
      Fixture.requestAgain Fixture.requestedAt 2).toOption).isSome = true := by decide +kernel
  obtain ⟨new, hnew⟩ := Option.isSome_iff_exists.mp hvalid
  obtain ⟨new', hnew'⟩ := Option.isSome_iff_exists.mp hagain
  have hsame : requestFingerprint Fixture.jsonCrates Fixture.digest Fixture.request =
      requestFingerprint Fixture.jsonCrates Fixture.digest Fixture.requestAgain := by
    rw [requestFingerprint, requestFingerprint, Fixture.canonicalText_requestAgain]
  rw [toOption_eq_some] at hnew hnew'
  have hjson : JsonText Fixture.jsonCrates.displayValue := jsonText
  have hsha (r r' : CreateDepositRequest)
      (h : Fixture.digest (canonicalText Fixture.jsonCrates r).toUTF8.toList =
        Fixture.digest (canonicalText Fixture.jsonCrates r').toUTF8.toList) :
      canonicalText Fixture.jsonCrates r = canonicalText Fixture.jsonCrates r' :=
    Fixture.digest_injective h
  refine ⟨new, new', hnew, hnew', hsame, ?_⟩
  exact same_fingerprint_same_deposit hjson Fixture.hexCase hsha Fixture.noSymbolIsAddress hnew
    hnew' hsame

end GumServer
