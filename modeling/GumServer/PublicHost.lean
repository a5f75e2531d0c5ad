import GumServer.Target

/-!
# Whom a webhook may reach

An accepted target is meant to be out on the public internet. What that excludes is said here in
blocks of addresses and in names as DNS compares them: without regard to case, and with or without
the dot of the root at the end. The URL parser normalises addresses and lowercases names, but keeps
that dot, and the checks do not take it off. So an accepted name is public **iff the name without
its final dot would have been accepted too** (`accepted_target_public_iff`).
-/

namespace GumServer

/-! ## Addresses -/

/-- An IPv4 address as a number. -/
def v4Number (a b c d : ℕ) : ℕ := ((a * 256 + b) * 256 + c) * 256 + d

/-- The blocks no webhook may reach, with the lengths of their prefixes. -/
def RESERVED_V4 : List (ℕ × ℕ) := [
  -- private
  (v4Number 10 0 0 0, 8), (v4Number 172 16 0 0, 12), (v4Number 192 168 0 0, 16),
  -- loopback
  (v4Number 127 0 0 0, 8),
  -- link-local
  (v4Number 169 254 0 0, 16),
  -- 0/8, with the unspecified address
  (v4Number 0 0 0 0, 8),
  -- documentation
  (v4Number 192 0 2 0, 24), (v4Number 198 51 100 0, 24), (v4Number 203 0 113 0, 24),
  -- broadcast
  (v4Number 255 255 255 255, 32),
  -- carrier-grade NAT
  (v4Number 100 64 0 0, 10)]

/-- Whether two numbers of `size` bits agree in a prefix of `bits`. -/
def SamePrefix (size bits m n : ℕ) : Prop := m / 2 ^ (size - bits) = n / 2 ^ (size - bits)

/-- An IPv4 address in one of the blocks. -/
def ReservedV4 (a b c d : Fin 256) : Prop :=
  ∃ block ∈ RESERVED_V4, SamePrefix 32 block.2 (v4Number a.val b.val c.val d.val) block.1

/-- An address that is not out on the internet: of either family, or an IPv4 address mapped into
IPv6. -/
def Reserved : IpAddr → Prop
  | .v4 a b c d => ReservedV4 a b c d
  | .v6 a b c d e f g h =>
    -- ::1 and ::
    (a = 0 ∧ b = 0 ∧ c = 0 ∧ d = 0 ∧ e = 0 ∧ f = 0 ∧ g = 0 ∧ (h = 1 ∨ h = 0)) ∨
    -- fc00::/7 and fe80::/10
    SamePrefix 16 7 a.val 0xfc00 ∨ SamePrefix 16 10 a.val 0xfe80 ∨
    -- ::ffff:0:0/96
    (a = 0 ∧ b = 0 ∧ c = 0 ∧ d = 0 ∧ e = 0 ∧ f = 0xffff ∧
      ReservedV4 (segmentOctets g).1 (segmentOctets g).2 (segmentOctets h).1 (segmentOctets h).2)

theorem isPublicV4_of_reserved {a b c d : Fin 256} (h : ReservedV4 a b c d) :
    isPublicV4 a b c d = false := by
  obtain ⟨a, ha⟩ := a
  obtain ⟨b, hb⟩ := b
  obtain ⟨c, hc⟩ := c
  obtain ⟨d, hd⟩ := d
  obtain ⟨block, hblock, hsame⟩ := h
  simp only [RESERVED_V4, List.mem_cons, List.not_mem_nil, or_false] at hblock
  rcases hblock with rfl | rfl | rfl | rfl | rfl | rfl | rfl | rfl | rfl | rfl | rfl
  all_goals simp only [SamePrefix, v4Number, Nat.reduceSub, Nat.reducePow, Nat.reduceMul,
    Nat.reduceAdd, Nat.reduceDiv, Nat.div_one] at hsame
  · obtain rfl : a = 10 := by omega
    simp [isPublicV4]
  · obtain ⟨rfl, hlo, hhi⟩ : a = 172 ∧ 16 ≤ b ∧ b ≤ 31 := by omega
    simp [isPublicV4, Fin.le_def]
    exact ⟨hlo, hhi⟩
  · obtain ⟨rfl, rfl⟩ : a = 192 ∧ b = 168 := by omega
    simp [isPublicV4]
  · obtain rfl : a = 127 := by omega
    simp [isPublicV4]
  · obtain ⟨rfl, rfl⟩ : a = 169 ∧ b = 254 := by omega
    simp [isPublicV4]
  · obtain rfl : a = 0 := by omega
    simp [isPublicV4]
  · obtain ⟨rfl, rfl, rfl⟩ : a = 192 ∧ b = 0 ∧ c = 2 := by omega
    simp [isPublicV4]
  · obtain ⟨rfl, rfl, rfl⟩ : a = 198 ∧ b = 51 ∧ c = 100 := by omega
    simp [isPublicV4]
  · obtain ⟨rfl, rfl, rfl⟩ : a = 203 ∧ b = 0 ∧ c = 113 := by omega
    simp [isPublicV4]
  · obtain ⟨rfl, rfl, rfl, rfl⟩ : a = 255 ∧ b = 255 ∧ c = 255 ∧ d = 255 := by omega
    simp [isPublicV4]
  · obtain ⟨rfl, hlo, hhi⟩ : a = 100 ∧ 64 ≤ b ∧ b ≤ 127 := by omega
    simp [isPublicV4, Fin.le_def]
    exact ⟨hlo, hhi⟩

/-- Masking a segment with the high bits of a prefix compares the prefixes. -/
theorem uniqueLocal_of_same {a : Fin 65536} (h : SamePrefix 16 7 a.val 0xfc00) :
    a.val &&& 0xfe00 = 0xfc00 := by
  have key : ∀ r < 512, (126 * 512 + r) &&& 0xfe00 = 0xfc00 := by decide +kernel
  simp only [SamePrefix, Nat.reduceSub, Nat.reducePow, Nat.reduceDiv] at h
  have hr := key (a.val % 512) (Nat.mod_lt _ (by decide))
  rwa [← h, mul_comm, Nat.div_add_mod] at hr

theorem linkLocal_of_same {a : Fin 65536} (h : SamePrefix 16 10 a.val 0xfe80) :
    a.val &&& 0xffc0 = 0xfe80 := by
  have key : ∀ r < 64, (1018 * 64 + r) &&& 0xffc0 = 0xfe80 := by decide +kernel
  simp only [SamePrefix, Nat.reduceSub, Nat.reducePow, Nat.reduceDiv] at h
  have hr := key (a.val % 64) (Nat.mod_lt _ (by decide))
  rwa [← h, mul_comm, Nat.div_add_mod] at hr

theorem isPublic_of_reserved {addr : IpAddr} (h : Reserved addr) : isPublic addr = false := by
  cases addr with
  | v4 a b c d => exact isPublicV4_of_reserved h
  | v6 a b c d e f g h' =>
    rcases h with ⟨rfl, rfl, rfl, rfl, rfl, rfl, rfl, rfl | rfl⟩ | hlocal | hlink |
      ⟨rfl, rfl, rfl, rfl, rfl, rfl, hmapped⟩
    · simp [isPublic]
    · simp [isPublic]
    · simp [isPublic, uniqueLocal_of_same hlocal]
    · simp [isPublic, linkLocal_of_same hlink]
    · simp [isPublic, isPublicV4_of_reserved hmapped]

/-! ## Names -/

/-- A name without the dot of the root. -/
def rootless (name : String) : String :=
  if endsWith name "." then String.ofList name.toList.dropLast else name

/-- A name, in lower case and without the dot of the root, of the machine itself, of a host of the
local network or under a suffix kept for one. -/
def PrivateName (name : String) : Prop :=
  name = "localhost" ∨ '.' ∉ name.toList ∨
    ∃ top ∈ ["localhost", "internal", "local"], ∃ host, name = host ++ "." ++ top

/-- What DNS looks a domain up as. -/
def dnsName (d : String) : String := rootless (toAsciiLowercase d)

/-- A host that an app may be called at. -/
def PublicHost : Host → Prop
  | .ip addr => ¬ Reserved addr
  | .domain d => ¬ PrivateName (dnsName d)

/-- What an accepted URL is meant to be. -/
structure PublicTarget (url : Url) : Prop where
  scheme : url.scheme = "https"
  username : url.username = ""
  password : url.password = none
  host : ∃ host, url.host = some host ∧ PublicHost host

theorem endsWith_append (host top : String) : endsWith (host ++ top) top = true := by
  simp [endsWith]

theorem endsWith_iff {s suffix : String} :
    endsWith s suffix = true ↔ ∃ front, s = front ++ suffix := by
  constructor
  · intro h
    obtain ⟨front, hfront⟩ := List.isSuffixOf_iff_suffix.mp h
    refine ⟨String.ofList front, ?_⟩
    apply String.toList_inj.mp
    simp [hfront]
  · rintro ⟨front, rfl⟩
    exact endsWith_append front suffix

theorem rootless_append_dot (name : String) : rootless (name ++ ".") = name := by
  rw [rootless, if_pos (endsWith_append name ".")]
  simp

theorem rootless_of_not_endsWith {name : String} (h : endsWith name "." = false) :
    rootless name = name := by
  simp [rootless, h]

/-- On a name in lower case the checks refuse just the private names. -/
theorem isPublicHost_domain_iff {name : String} (hlower : toAsciiLowercase name = name) :
    isPublicHost (.domain name) = true ↔ ¬ PrivateName name := by
  have hlocalhost : toAsciiLowercase "localhost" = "localhost" := by decide
  have hname : eqIgnoreAsciiCase name "localhost" = true ↔ name = "localhost" := by
    simp [eqIgnoreAsciiCase, hlower, hlocalhost]
  have hunder : (∃ top ∈ ["localhost", "internal", "local"], ∃ host, name = host ++ "." ++ top) ↔
      endsWith name ".localhost" = true ∨ endsWith name ".internal" = true ∨
        endsWith name ".local" = true := by
    have hdot (host top : String) : host ++ "." ++ top = host ++ ("." ++ top) :=
      String.append_assoc
    simp only [endsWith_iff, List.mem_cons, List.not_mem_nil, or_false, exists_eq_or_imp,
      exists_eq_left, hdot]
    rfl
  rw [PrivateName, hunder, ← hname]
  simp only [isPublicHost, Bool.not_eq_true', Bool.or_eq_false_iff, Bool.not_eq_false',
    List.contains_iff_mem, not_or, not_not, Bool.not_eq_true]
  constructor
  · rintro ⟨⟨⟨⟨hself, h1⟩, h2⟩, h3⟩, hdot⟩
    exact ⟨hself, hdot, h1, h2, h3⟩
  · rintro ⟨hself, hdot, h1, h2, h3⟩
    exact ⟨⟨⟨⟨hself, h1⟩, h2⟩, h3⟩, hdot⟩

/-! ## What is accepted -/

/-- What `validate` makes sure of. -/
theorem validateTarget_ok {parseUrl : String → Except String Url} {raw : String} {url : Url}
    (h : validateTarget parseUrl raw false = .ok url) :
    parseUrl raw = .ok url ∧ url.scheme = "https" ∧ url.username = "" ∧ url.password = none ∧
      ∃ host, url.host = some host ∧ isPublicHost host = true := by
  rw [validateTarget] at h
  split at h
  · cases h
  split at h
  · cases h
  rename_i parsed hparse
  split at h
  · cases h
  rename_i hcredentials
  split at h
  · cases h
  rename_i hhttp
  split at h
  · cases h
  rename_i hscheme
  split at h
  · cases h
  rename_i host hhost
  split at h
  · rename_i hpublic
    cases h
    simp only [not_or, not_not, Bool.not_eq_true] at hcredentials
    have hhttps : url.scheme = "https" := by
      by_contra hne
      exact hscheme ⟨hne, fun hhttp' => hhttp (by simpa using hhttp')⟩
    exact ⟨hparse, hhttps, hcredentials.1, by simpa using hcredentials.2, host, hhost,
      by simpa using hpublic⟩
  · cases h

theorem endsWith_dot_cases (d : String) : endsWith d "." = false ∨ ∃ name, d = name ++ "." := by
  cases hdot : endsWith d "." with
  | false => exact Or.inl rfl
  | true => exact Or.inr (endsWith_iff.mp hdot)

/-- The part of a lower-case name before its final dot is in lower case. -/
theorem toAsciiLowercase_of_append_dot {name : String}
    (h : toAsciiLowercase (name ++ ".") = name ++ ".") : toAsciiLowercase name = name := by
  have hchars := congrArg String.toList h
  simp only [toAsciiLowercase, String.toList_append, List.map_append, String.toList_ofList] at hchars
  apply String.toList_inj.mp
  simpa [toAsciiLowercase] using (List.append_inj' hchars (by simp)).1

section Accepted

variable {parseUrl : String → Except String Url}

-- the URL parser lowercases domains, and keeps a final dot
variable (hlower : ∀ {raw url d}, parseUrl raw = .ok url → url.host = some (.domain d) →
  toAsciiLowercase d = d)

include hlower

/-- **An accepted target is an https endpoint out on the public internet exactly when its host is
no name with a final dot that would have been refused without the dot.** The dot is the root's and
changes nothing for DNS, but it hides each suffix the checks look for, and makes every single label
contain a dot. -/
theorem accepted_target_public_iff {raw : String} {url : Url}
    (h : validateTarget parseUrl raw false = .ok url) :
    PublicTarget url ↔
      ∀ name, url.host = some (.domain (name ++ ".")) → isPublicHost (.domain name) = true := by
  obtain ⟨hparse, hscheme, huser, hpassword, host, hhost, hpublic⟩ := validateTarget_ok h
  constructor
  · rintro htarget name hname
    obtain ⟨host', hhost', hpublic'⟩ := htarget.host
    rw [hname] at hhost'
    cases hhost'
    have hd := hlower hparse hname
    rw [PublicHost, dnsName, hd, rootless_append_dot] at hpublic'
    exact (isPublicHost_domain_iff (toAsciiLowercase_of_append_dot hd)).mpr hpublic'
  · intro hdots
    refine ⟨hscheme, huser, hpassword, host, hhost, ?_⟩
    cases host with
    | ip addr =>
      intro hreserved
      rw [isPublicHost, isPublic_of_reserved hreserved] at hpublic
      cases hpublic
    | domain d =>
      have hd := hlower hparse hhost
      rw [PublicHost, dnsName, hd]
      obtain hdot | ⟨name, rfl⟩ := endsWith_dot_cases d
      · rw [rootless_of_not_endsWith hdot]
        exact (isPublicHost_domain_iff hd).mp hpublic
      · rw [rootless_append_dot]
        exact (isPublicHost_domain_iff (toAsciiLowercase_of_append_dot hd)).mp (hdots name hhost)

end Accepted

/-- What a parser makes of one string. -/
def parsesOnly (raw : String) (url : Url) : String → Except String Url :=
  fun s => if s = raw then .ok url else .error "relative URL without a base"

/-- `https://app.example.com/hooks/gum`, parsed. -/
def APP_URL : Url where
  scheme := "https"
  username := ""
  password := none
  host := some (.domain "app.example.com")
  text := "https://app.example.com/hooks/gum"

/-- `https://gum-engine.railway.internal./x`, parsed. -/
def ROOTED_URL : Url where
  scheme := "https"
  username := ""
  password := none
  host := some (.domain "gum-engine.railway.internal.")
  text := "https://gum-engine.railway.internal./x"

theorem parsesOnly_lower {raw : String} {url : Url} {name : String}
    (hhost : url.host = some (.domain name)) (hname : toAsciiLowercase name = name) {raw' url' d}
    (h : parsesOnly raw url raw' = .ok url') (hd : url'.host = some (.domain d)) :
    toAsciiLowercase d = d := by
  rw [parsesOnly] at h
  split at h
  · cases h
    rw [hhost] at hd
    cases hd
    exact hname
  · cases h

theorem app_url_public : PublicTarget APP_URL := by
  have hok : validateTarget (parsesOnly APP_URL.text APP_URL) APP_URL.text false = .ok APP_URL := by
    decide +kernel
  apply (accepted_target_public_iff (parsesOnly_lower rfl (by decide)) hok).mpr
  intro name hname
  simp only [APP_URL, Option.some.injEq, Host.domain.injEq] at hname
  have hend := endsWith_append name "."
  rw [← hname] at hend
  exact absurd hend (by decide)

/-- With a final dot the name of a service of the private network is accepted: without it, the same
name is refused. -/
theorem rooted_url_accepted :
    (∀ raw url d, parsesOnly ROOTED_URL.text ROOTED_URL raw = .ok url →
      url.host = some (.domain d) → toAsciiLowercase d = d) ∧
    validateTarget (parsesOnly ROOTED_URL.text ROOTED_URL) ROOTED_URL.text false =
      .ok ROOTED_URL ∧ ¬ PublicTarget ROOTED_URL := by
  refine ⟨fun raw url d => parsesOnly_lower rfl (by decide), by decide +kernel, ?_⟩
  intro htarget
  obtain ⟨host, hhost, hpublic⟩ := htarget.host
  cases hhost
  apply hpublic
  right
  right
  exact ⟨"internal", by simp, "gum-engine.railway", by decide⟩

end GumServer
