import KestrelSdk.Encoding.Strip
import KestrelSdk.Json.Bytes
import KestrelSdk.Order.Checks

/-! The policy for outbound URLs: one origin with the addresses that may be dialled for it. -/

namespace KestrelSdk.Security

open Json (Str Bytes str)
open Encoding (strip)
open Checks (ok_of_bind)

/-- `IPv4Address` or `IPv6Address`. -/
inductive IpAddress where
  | v4 (value : BitVec 32)
  | v6 (value : BitVec 128) (scope_id : Option Str)
  deriving DecidableEq

namespace IpAddress

def isV6 : IpAddress → Bool
  | v4 _ => false
  | v6 _ _ => true

/-- `ipv4_mapped`. -/
def mapped (value : BitVec 128) : Option (BitVec 32) :=
  if value >>> 32 = 0xFFFF then some (value.setWidth 32) else none

end IpAddress

/-- `IPv4Network` or `IPv6Network`. -/
structure IpNetwork where
  network_address : IpAddress
  prefixlen : Nat

/-- `ip.version == network.version and ip in network`. -/
def IpNetwork.contains (n : IpNetwork) (ip : IpAddress) : Bool :=
  match n.network_address, ip with
  | .v4 a, .v4 b => a >>> (32 - n.prefixlen) == b >>> (32 - n.prefixlen)
  | .v6 a _, .v6 b _ => a >>> (128 - n.prefixlen) == b >>> (128 - n.prefixlen)
  | _, _ => false

/-- `_NON_GLOBAL_NETWORKS`. -/
def NON_GLOBAL_NETWORKS : List IpNetwork := [⟨.v4 0xC0586302, 32⟩]

/-- `_DEFAULT_PORTS`. -/
def DEFAULT_PORTS : List (Str × Nat) :=
  [(str "http", 80), (str "https", 443), (str "ws", 80), (str "wss", 443)]

/-- What `ipaddress.ip_address` is asked to read. -/
inductive AddressLike where
  | address (a : IpAddress)
  | text (s : Str)
  | number (n : Int)
  | packed (b : Bytes)
  | other

/-- What `urlparse` makes of a URL, with the host and the port that its properties compute. -/
structure ParseResult where
  scheme : Str
  netloc : Str
  hostname : Option Str
  port : Option Nat
  username : Option Str
  password : Option Str

/-- What the policy takes from the interpreter's tables and from `idna`. `ip_address`,
`IPv4Address`, `urlparse` and `encode` are none where they raise. -/
structure NetLib where
  ip_address : AddressLike → Option IpAddress
  IPv4Address : Str → Option (BitVec 32)
  text : IpAddress → Str
  is_private : IpAddress → Bool
  is_loopback : IpAddress → Bool
  is_link_local : IpAddress → Bool
  is_multicast : IpAddress → Bool
  is_reserved : IpAddress → Bool
  is_unspecified : IpAddress → Bool
  is_site_local : IpAddress → Bool
  is_global : IpAddress → Bool
  urlparse : Str → Option ParseResult
  lower : Str → Str
  casefold : Str → Str
  isdigit : Str → Bool
  encode : Str → Option Str
  repr : Str → Str

/-- `SSRFError` with its text, or another exception. -/
inductive OutboundError where
  | ssrf (text : Str)
  | other
  deriving DecidableEq

abbrev Checked (α : Type) := Except OutboundError α

def refuse {α : Type} (text : String) : Checked α := .error (.ssrf (str text))

/-- The categories of `_address_is_blocked`, after the mapping. -/
def isNonPublic (lib : NetLib) (ip : IpAddress) : Bool :=
  lib.is_private ip || lib.is_loopback ip || lib.is_link_local ip || lib.is_multicast ip ||
    lib.is_reserved ip || lib.is_unspecified ip || (ip.isV6 && lib.is_site_local ip) ||
    !lib.is_global ip || NON_GLOBAL_NETWORKS.any (·.contains ip)

/-- `_address_is_blocked`. A scope is found before the mapping would discard it. -/
def addressIsBlocked (lib : NetLib) : IpAddress → Bool
  | .v4 value => isNonPublic lib (.v4 value)
  | .v6 _ (some _) => true
  | .v6 value none =>
    match IpAddress.mapped value with
    | some w => isNonPublic lib (.v4 w)
    | none => isNonPublic lib (.v6 value none)

/-- `_origin_port`. -/
def originPort (scheme : Str) : Option Nat → Checked Nat
  | some port => .ok port
  | none =>
    match DEFAULT_PORTS.lookup scheme with
    | some port => .ok port
    | none => refuse "URL scheme requires an explicit port"

/-- The text before the first `sep`, whether there is one, and the text after it. -/
def cut (sep : Nat) (s : Str) : Str × Bool × Str :=
  match s.dropWhile (· ≠ sep) with
  | [] => (s, false, [])
  | _ :: after => (s.takeWhile (· ≠ sep), true, after)

/-- `s.split(sep)`. -/
def splitOn (sep : Nat) : Str → List Str
  | [] => [[]]
  | c :: s =>
    match splitOn sep s with
    | l :: ls => if c = sep then [] :: l :: ls else (c :: l) :: ls
    | [] => [[c]]

/-- `url.partition("//")`. -/
def cutSlashes : Str → Str × Str × Str
  | 47 :: 47 :: s => ([], [47, 47], s)
  | c :: s => let (before, sep, after) := cutSlashes s; (c :: before, sep, after)
  | [] => ([], [], [])

/-- `host.startswith("[") and host.endswith("]")`. -/
def bracketed (host : Str) : Bool := host.head? == some 91 && host.getLast? == some 93

/-- The wire identity of a DNS name. -/
def canonicalDnsName (lib : NetLib) (host : Str) : Checked Str :=
  match lib.encode (lib.lower host) with
  | none => refuse "outbound origin host is not a valid IDNA name"
  | some ascii =>
    let canonical := lib.casefold ascii
    let labels := splitOn 46 canonical
    -- the native clients read four numeric labels as an IPv4 literal
    if labels.length = 4 && labels.all lib.isdigit then
      match lib.IPv4Address canonical with
      | some w => .ok (lib.text (.v4 w))
      | none => refuse "outbound origin host is not a valid IP literal"
    else .ok canonical

/-- `_canonical_origin_host` without the brackets. -/
def canonicalLiteral (lib : NetLib) (bracketed : Bool) (host : Str) : Checked Str :=
  let address := lib.ip_address (.text host)
  if bracketed && !address.any (·.isV6) then
    refuse "outbound bracketed origin is not a supported IPv6 literal"
  else
    match address with
    | some a => .ok (lib.casefold (lib.text a))
    | none => canonicalDnsName lib host

/-- `_canonical_origin_host`. -/
def canonicalOriginHost (lib : NetLib) (host : Str) : Checked Str :=
  if bracketed host then canonicalLiteral lib true host.tail.dropLast
  else canonicalLiteral lib false host

/-- `_origin_hosts_match`. -/
def originHostsMatch (lib : NetLib) (candidate validated : Str) : Checked Bool := do
  let c ← canonicalOriginHost lib candidate
  let v ← canonicalOriginHost lib validated
  return c == v

/-- Whether the brackets of an authority enclose its host, and why not. -/
def checkBrackets (netloc : Str) : Checked Unit :=
  if netloc.head? = some 91 then
    let (_, closed, after) := cut 93 netloc
    if !closed || (!after.isEmpty && after.head? != some 58) then
      refuse "outbound URL authority has a malformed IP-literal bracket"
    else .ok ()
  else if netloc.contains 91 || netloc.contains 93 then
    refuse "outbound URL authority has a misplaced IP-literal bracket"
  else .ok ()

/-- `if` with a refusal: `text` is raised unless `ok`. -/
def require (ok : Bool) (text : String) : Checked Unit := if ok then .ok () else refuse text

/-- `_canonical_url_origin` up to the parser: the checks of the raw URL. A `url` that is no string
is none. -/
def parseUrl (lib : NetLib) : Option Str → Checked (Str × ParseResult)
  | none => refuse "outbound URL must be a string"
  | some url => do
    require (url == strip url && url.all fun c => 32 ≤ c && c != 127)
      "outbound URL contains control characters or surrounding whitespace"
    require (Json.encodeUtf8 url).isSome "outbound URL must be encodable as UTF-8"
    match lib.urlparse url with
    | some parsed => return (url, parsed)
    | none => refuse "malformed outbound URL authority"

/-- The scheme and the host name of a parsed URL, if its components are allowed. -/
def allowedOrigin (lib : NetLib) (parsed : ParseResult) (allowed_schemes : List Str) :
    Checked (Str × Str) := do
  require (allowed_schemes.contains (lib.lower parsed.scheme)) "outbound URL scheme is not allowed"
  require (!(parsed.hostname.getD []).isEmpty) "outbound URL has no host"
  require (parsed.username.isNone && parsed.password.isNone)
    "outbound URL must not contain user information"
  checkBrackets parsed.netloc
  return (lib.lower parsed.scheme, parsed.hostname.getD [])

/-- `_canonical_url_origin`: the URL, the scheme, the host and the port. -/
def canonicalUrlOrigin (lib : NetLib) (url : Option Str) (allowed_schemes : List Str) :
    Checked (Str × Str × Str × Nat) := do
  let (url, parsed) ← parseUrl lib url
  let (scheme, host) ← allowedOrigin lib parsed allowed_schemes
  let host ← canonicalOriginHost lib
    (if parsed.netloc.head? = some 91 then 91 :: (host ++ [93]) else host)
  let authority := if host.contains 58 then 91 :: (host ++ [93]) else host
  let authority := authority ++ (parsed.port.map fun port => 58 :: Json.natText port).getD []
  let port ← originPort scheme parsed.port
  let (before, separator, remainder) := cutSlashes url
  let suffix := remainder.drop parsed.netloc.length
  return (before ++ separator ++ authority ++ suffix, scheme, host, port)

theorem require_ok {ok : Bool} {text : String} {u : Unit} (h : require ok text = .ok u) :
    ok = true := by
  cases ok with
  | true => rfl
  | false => cases h

theorem canonicalUrlOrigin_scheme {lib : NetLib} {raw : Option Str} {allowed_schemes : List Str}
    {url scheme host : Str} {port : Nat}
    (h : canonicalUrlOrigin lib raw allowed_schemes = .ok (url, scheme, host, port)) :
    scheme ∈ allowed_schemes := by
  obtain ⟨⟨given, parsed⟩, -, h⟩ := ok_of_bind h
  obtain ⟨⟨scheme', name⟩, horigin, h⟩ := ok_of_bind h
  obtain ⟨canonical, -, h⟩ := ok_of_bind h
  obtain ⟨p, -, h⟩ := ok_of_bind h
  have hscheme : scheme' = scheme := by
    have hpair := Except.ok.inj h
    simp only [Prod.mk.injEq] at hpair
    exact hpair.2.1
  obtain ⟨u, hallowed, horigin⟩ := ok_of_bind horigin
  obtain ⟨-, -, horigin⟩ := ok_of_bind horigin
  obtain ⟨-, -, horigin⟩ := ok_of_bind horigin
  obtain ⟨-, -, horigin⟩ := ok_of_bind horigin
  have hlower : lib.lower parsed.scheme = scheme' := congrArg Prod.fst (Except.ok.inj horigin)
  rw [← hscheme, ← hlower]
  exact List.contains_iff_mem.1 (require_ok hallowed)

/-- `any(address != literal for address in addresses)` is false for the literal that the host is. -/
def approvesLiteral (lib : NetLib) (host : Str) (addresses : List IpAddress) : Bool :=
  match lib.ip_address (.text host) with
  | some literal => addresses.all (· == literal)
  | none => true

/-- A `ValidatedOutboundURL` that passed `__post_init__`. -/
structure ValidatedOutboundURL (lib : NetLib) where
  url : Str
  scheme : Str
  host : Str
  port : Nat
  ip_addresses : List IpAddress
  found : ip_addresses ≠ []
  allowed : ∀ a ∈ ip_addresses, addressIsBlocked lib a = false
  origin : ∃ raw, canonicalUrlOrigin lib raw [scheme] = .ok (url, scheme, host, port)
  literal : approvesLiteral lib host ip_addresses = true

namespace ValidatedOutboundURL

variable (lib : NetLib)

/-- `ValidatedOutboundURL(url, scheme, host, port, ip_addresses)`. What cannot be iterated is none
for `ip_addresses`. -/
def new (url : Option Str) (scheme host : Str) (port : Int)
    (ip_addresses : Option (List AddressLike)) : Checked (ValidatedOutboundURL lib) :=
  match ip_addresses.bind (·.mapM lib.ip_address) with
  | none => refuse "validated outbound URL contains an invalid address"
  | some [] => refuse "validated outbound URL has no addresses"
  | some (a :: as) =>
    if hallowed : ∀ x ∈ a :: as, addressIsBlocked lib x = false then
      match horigin : canonicalUrlOrigin lib url [scheme] with
      | .error e => .error e
      | .ok (canonical, scheme', host', port') => do
        let same ← originHostsMatch lib host host'
        if !same || port ≠ port' then
          refuse "validated outbound URL origin does not match its metadata"
        else if hliteral : approvesLiteral lib host' (a :: as) = true then
          have hscheme : scheme' = scheme :=
            List.mem_singleton.1 (canonicalUrlOrigin_scheme horigin)
          return ⟨canonical, scheme, host', port', a :: as, List.cons_ne_nil _ _, hallowed,
            ⟨url, hscheme ▸ horigin⟩, hliteral⟩
        else refuse "validated IP-literal URL must approve only its own address"
    else refuse "URL resolves to a non-public address"

end ValidatedOutboundURL

/-- `_resolve_addresses`; `dns` is the answer to `getaddrinfo`, or the text of its error. -/
def resolveAddresses (lib : NetLib) (dns : Except Str (List Str)) (host : Str) :
    Checked (List IpAddress) :=
  match dns with
  | .error e => .error (.ssrf (str "cannot resolve host " ++ lib.repr host ++ str ": " ++ e))
  | .ok infos =>
    match infos.mapM fun t => lib.ip_address (.text t) with
    | some addresses => .ok addresses.eraseDups
    | none => .error .other

/-- `validate_outbound_url`. -/
def validateOutboundUrl (lib : NetLib) (dns : Str → Nat → Except Str (List Str))
    (url : Option Str) (allowed_schemes : List Str) : Checked (ValidatedOutboundURL lib) := do
  let (url, scheme, host, port) ← canonicalUrlOrigin lib url allowed_schemes
  match lib.ip_address (.text host) with
  | some ip => ValidatedOutboundURL.new lib (some url) scheme host port (some [.address ip])
  | none =>
    let resolved ← resolveAddresses lib (dns host port) host
    if resolved.isEmpty then
      .error (.ssrf (str "cannot resolve host " ++ lib.repr host ++ str ": no addresses returned"))
    else ValidatedOutboundURL.new lib (some url) scheme host port (some (resolved.map .address))

/-- `assert_origin`. -/
def ValidatedOutboundURL.assertOrigin {lib : NetLib} (v : ValidatedOutboundURL lib) (host : Str)
    (port : Nat) : Checked Unit := do
  let same ← originHostsMatch lib host v.host
  if !same || port ≠ v.port then refuse "pinned transport refused unexpected origin"

end KestrelSdk.Security
