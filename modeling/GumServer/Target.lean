import GumServer.Text

/-!
# Webhook targets

`webhooks/target.rs`: an app may only name a public https endpoint, so that a delivery never
reaches the private network the other services live on. The URL parser is a parameter; what
is checked of a parsed URL is all here.
-/

namespace GumServer

/-- A segment has values. -/
instance instNeZeroSegment : NeZero 65536 := ⟨by decide⟩

/-- `std::net::IpAddr`: octets, or 16-bit segments. -/
inductive IpAddr : Type where
  /-- `Ipv4Addr::octets` -/
  | v4 : Fin 256 → Fin 256 → Fin 256 → Fin 256 → IpAddr
  /-- `Ipv6Addr::segments` -/
  | v6 : Fin 65536 → Fin 65536 → Fin 65536 → Fin 65536 →
      Fin 65536 → Fin 65536 → Fin 65536 → Fin 65536 → IpAddr
deriving DecidableEq

/-- `url::Host`. -/
inductive Host : Type where
  /-- a domain name -/
  | domain : String → Host
  /-- an address literal of either family -/
  | ip : IpAddr → Host
deriving DecidableEq

/-- What the checks read of a `url::Url`. -/
structure Url where
  scheme : String
  username : String
  password : Option String
  host : Option Host
  /-- `Url::to_string` -/
  text : String
deriving DecidableEq

/-- `is_public` on octets. -/
def isPublicV4 (a b c d : Fin 256) : Bool :=
  -- is_private
  !(a == 10 || (a == 172 && 16 ≤ b && b ≤ 31) || (a == 192 && b == 168) ||
    -- is_loopback
    a == 127 ||
    -- is_link_local
    (a == 169 && b == 254) ||
    -- is_broadcast
    (a == 255 && b == 255 && c == 255 && d == 255) ||
    -- is_unspecified
    (a == 0 && b == 0 && c == 0 && d == 0) ||
    -- is_documentation
    (a == 192 && b == 0 && c == 2) || (a == 198 && b == 51 && c == 100) ||
    (a == 203 && b == 0 && c == 113) ||
    (a == 100 && 64 ≤ b && b ≤ 127) ||
    a == 0 ||
    (a == 169 && b == 254 && c == 169 && d == 254))

/-- The octets of a segment. -/
def segmentOctets (s : Fin 65536) : Fin 256 × Fin 256 :=
  (⟨s.val / 256, by omega⟩, ⟨s.val % 256, by omega⟩)

/-- `is_public`. -/
def isPublic : IpAddr → Bool
  | .v4 a b c d => isPublicV4 a b c d
  | .v6 a b c d e f g h =>
    let head := a == 0 && b == 0 && c == 0 && d == 0 && e == 0
    !((head && f == 0 && g == 0 && h == 1) ||
      (head && f == 0 && g == 0 && h == 0) ||
      (a.val &&& 0xfe00 == 0xfc00) ||
      (a.val &&& 0xffc0 == 0xfe80) ||
      (head && f == 0xffff && g == 0x7f00 && h == 1) ||
      -- to_ipv4_mapped
      (head && f == 0xffff &&
        !isPublicV4 (segmentOctets g).1 (segmentOctets g).2 (segmentOctets h).1 (segmentOctets h).2))

/-- `str::ends_with`. -/
def endsWith (s suffix : String) : Bool := suffix.toList.isSuffixOf s.toList

/-- Whether a host may be called in production. -/
def isPublicHost : Host → Bool
  | .ip addr => isPublic addr
  | .domain d =>
    !(eqIgnoreAsciiCase d "localhost" || endsWith d ".localhost" || endsWith d ".internal" ||
      endsWith d ".local" || !d.toList.contains '.')

/-- `target::validate`, over a URL parser. -/
def validateTarget (parseUrl : String → Except String Url) (raw : String) (allowInsecure : Bool) :
    Except String Url :=
  if byteLen raw > 2048 then .error "URL is longer than 2048 characters"
  else
    match parseUrl raw with
    | .error e => .error ("not a valid URL: " ++ e)
    | .ok url =>
      if url.username ≠ "" ∨ url.password.isSome then
        .error "credentials in the URL are not allowed"
      else if url.scheme = "http" ∧ !allowInsecure then .error "webhook_url must use https"
      else if url.scheme ≠ "https" ∧ url.scheme ≠ "http" then
        .error ("unsupported scheme " ++ url.scheme)
      else
        match url.host with
        | none => .error "URL has no host"
        | some host =>
          if allowInsecure ∨ isPublicHost host then .ok url
          else .error "webhook_url must be a public address"

end GumServer
