import KestrelSdk.Asyncio.Machine
import KestrelSdk.Security.Outbound

namespace KestrelSdk.Security

open Asyncio
open Json (Str str)
open Checks (ok_of_bind)

/-- A request of a native client, whose `raw_host` is ASCII. A redirect is another request. -/
structure OutboundRequest where
  scheme : Str
  raw_host : Str
  port : Option Nat

/-- `handle_async_request`, up to the native transport. -/
def handleAsyncRequest {lib : NetLib} (v : ValidatedOutboundURL lib) (r : OutboundRequest) :
    Checked Unit :=
  if r.scheme ≠ v.scheme then refuse "pinned transport refused a changed URL scheme"
  else do
    let port ← originPort r.scheme r.port
    v.assertOrigin r.raw_host port

/-- What a connection attempt has come to: the index of the address that it dials, or its end. -/
inductive ConnectPc where
  | dialing (index : Nat)
  | ended

/-- A `connect_tcp` of the pinned backend, for the request that the pool opens it for. -/
structure Connection where
  request : Nat
  host : Str
  port : Nat
  pc : ConnectPc

/-- What the underlying backend is asked to open. -/
inductive Opened where
  | tcp (connection : Nat) (host : Str) (port : Nat)
  | unix (path : Str)

/-- The transport: its requests and what became of their checks, the connection attempts of its
pool, and every call of the underlying backend. -/
structure Transport where
  requests : List (OutboundRequest × Checked Unit) := []
  connections : List Connection := []
  opened : List Opened := []

inductive TransportEvent where
  /-- A request is handed to the transport. -/
  | handle (r : OutboundRequest)
  /-- The pool opens a connection for an admitted request, to the request's own host and port. -/
  | connectTcp (request : Nat)
  | connectUnixSocket (path : Str)
  /-- The dial of a connection raised one of the connect errors. -/
  | failed (connection : Nat)
  /-- A connection is there, or it was cancelled, ran out of time or failed otherwise. -/
  | ended (connection : Nat)

namespace Transport

variable {lib : NetLib} (v : ValidatedOutboundURL lib)

/-- The loop over the approved addresses: the dial of address `index`, or the end. -/
def dial (s : Transport) (j : Nat) (c : Connection) (index : Nat) : Transport :=
  match v.ip_addresses[index]? with
  | some address =>
    { s with
      connections := s.connections.set j { c with pc := .dialing index }
      opened := s.opened ++ [.tcp j (lib.text address) c.port] }
  | none => { s with connections := s.connections.set j { c with pc := .ended } }

/-- `connect_tcp` of the pinned backend. -/
def connectTcp (s : Transport) (i : Nat) (host : Str) (port : Nat) : Transport :=
  let c : Connection := ⟨i, host, port, .ended⟩
  let s' := { s with connections := s.connections ++ [c] }
  match v.assertOrigin host port with
  | .error _ => s'
  | .ok _ => s'.dial v s.connections.length c 0

def step (s : Transport) : TransportEvent → Option Transport
  | .handle r => some { s with requests := s.requests ++ [(r, handleAsyncRequest v r)] }
  | .connectTcp i => do
    let (r, checked) ← s.requests[i]?
    match checked, originPort r.scheme r.port with
    | .ok _, .ok port => some (s.connectTcp v i r.raw_host port)
    | _, _ => none
  | .connectUnixSocket _ => some s
  | .failed j => do
    let c ← s.connections[j]?
    match c.pc with
    | .dialing index => some (s.dial v j c (index + 1))
    | .ended => none
  | .ended j => do
    let c ← s.connections[j]?
    match c.pc with
    | .dialing _ => some { s with connections := s.connections.set j { c with pc := .ended } }
    | .ended => none

end Transport

/-- The pinned transport of a validated origin. -/
def pinnedTransport {lib : NetLib} (v : ValidatedOutboundURL lib) :
    Machine Transport TransportEvent :=
  ⟨{}, Transport.step v⟩

/-- The request is for the validated origin. -/
def ValidatedOutboundURL.Matches {lib : NetLib} (v : ValidatedOutboundURL lib)
    (r : OutboundRequest) : Prop :=
  r.scheme = v.scheme ∧ originPort r.scheme r.port = .ok v.port ∧
    ∃ host, canonicalOriginHost lib r.raw_host = .ok host ∧
      canonicalOriginHost lib v.host = .ok host

namespace Transport

variable {lib : NetLib} {v : ValidatedOutboundURL lib} {s s' : Transport}

theorem assertOrigin_ok {host : Str} {port : Nat} {u : Unit}
    (h : v.assertOrigin host port = .ok u) :
    port = v.port ∧ ∃ c, canonicalOriginHost lib host = .ok c ∧
      canonicalOriginHost lib v.host = .ok c := by
  obtain ⟨same, hsame, h⟩ := ok_of_bind h
  obtain ⟨c, hc, hsame⟩ := ok_of_bind hsame
  obtain ⟨d, hd, hsame⟩ := ok_of_bind hsame
  have heq : (c == d) = same := Except.ok.inj hsame
  split at h
  · cases h
  · rename_i hboth
    simp only [Bool.or_eq_true, Bool.not_eq_true', decide_eq_true_eq, not_or, not_not,
      Bool.not_eq_false] at hboth
    obtain ⟨htrue, hport⟩ := hboth
    rw [← heq, beq_iff_eq] at htrue
    exact ⟨hport, c, hc, htrue ▸ hd⟩

theorem refuse_ne_other {α : Type} (text : String) :
    (refuse text : Checked α) ≠ .error .other := by
  intro h
  cases h

theorem bind_ne_other {α β : Type} {x : Checked α} {k : α → Checked β} (hx : x ≠ .error .other)
    (hk : ∀ a, k a ≠ .error .other) : x >>= k ≠ .error .other := by
  cases x with
  | ok a => exact hk a
  | error e =>
    intro h
    exact hx (congrArg Except.error (Except.error.inj h))

theorem originPort_ne_other (scheme : Str) (port : Option Nat) :
    originPort scheme port ≠ .error .other := by
  cases port with
  | some p => exact nofun
  | none =>
    cases hport : DEFAULT_PORTS.lookup scheme with
    | some p =>
      rw [originPort, hport]
      exact nofun
    | none =>
      rw [originPort, hport]
      exact refuse_ne_other _

theorem canonicalDnsName_ne_other (lib : NetLib) (host : Str) :
    canonicalDnsName lib host ≠ .error .other := by
  unfold canonicalDnsName
  dsimp only
  split
  · exact refuse_ne_other _
  · split
    · split
      · exact nofun
      · exact refuse_ne_other _
    · exact nofun

theorem canonicalLiteral_ne_other (lib : NetLib) (bracketed : Bool) (host : Str) :
    canonicalLiteral lib bracketed host ≠ .error .other := by
  unfold canonicalLiteral
  dsimp only
  split
  · exact refuse_ne_other _
  · split
    · exact nofun
    · exact canonicalDnsName_ne_other lib host

theorem canonicalOriginHost_ne_other (lib : NetLib) (host : Str) :
    canonicalOriginHost lib host ≠ .error .other := by
  unfold canonicalOriginHost
  split
  · exact canonicalLiteral_ne_other lib _ _
  · exact canonicalLiteral_ne_other lib _ _

theorem assertOrigin_ne_other (v : ValidatedOutboundURL lib) (host : Str) (port : Nat) :
    v.assertOrigin host port ≠ .error .other := by
  apply bind_ne_other
  · apply bind_ne_other (canonicalOriginHost_ne_other lib host)
    intro c
    apply bind_ne_other (canonicalOriginHost_ne_other lib v.host)
    exact fun d => nofun
  · intro same
    split
    · exact refuse_ne_other _
    · exact nofun

theorem assertOrigin_of_match {host : Str} {c : Str} (hc : canonicalOriginHost lib host = .ok c)
    (hv : canonicalOriginHost lib v.host = .ok c) : v.assertOrigin host v.port = .ok () := by
  simp [ValidatedOutboundURL.assertOrigin, originHostsMatch, hc, hv, bind, Except.bind, pure,
    Except.pure]

/-- The transport admits a request for the validated origin. -/
theorem handleAsyncRequest_iff (v : ValidatedOutboundURL lib) (r : OutboundRequest) :
    handleAsyncRequest v r = .ok () ↔ v.Matches r := by
  unfold handleAsyncRequest
  constructor
  · intro h
    split at h
    · cases h
    · rename_i hscheme
      obtain ⟨port, hport, h⟩ := ok_of_bind h
      obtain ⟨rfl, c, hc, hv⟩ := assertOrigin_ok h
      exact ⟨not_not.1 hscheme, hport, c, hc, hv⟩
  · rintro ⟨hscheme, hport, c, hc, hv⟩
    rw [if_neg (not_not.2 hscheme), hport]
    exact assertOrigin_of_match hc hv

/-- It refuses every other one with `SSRFError`. -/
theorem handleAsyncRequest_refused {r : OutboundRequest} (h : ¬ v.Matches r) :
    ∃ text, handleAsyncRequest v r = .error (.ssrf text) := by
  have hother : handleAsyncRequest v r ≠ .error .other := by
    unfold handleAsyncRequest
    split
    · exact refuse_ne_other _
    · exact bind_ne_other (originPort_ne_other _ _) fun port => assertOrigin_ne_other v _ port
  cases hcheck : handleAsyncRequest v r with
  | ok u => exact absurd ((handleAsyncRequest_iff v r).1 hcheck) h
  | error e =>
    cases e with
    | ssrf text => exact ⟨text, rfl⟩
    | other => exact absurd hcheck hother

/-- A connection attempt is for an admitted request, to its own host and port. -/
def Owned (v : ValidatedOutboundURL lib) (s : Transport) (c : Connection) : Prop :=
  ∃ r, s.requests[c.request]? = some (r, .ok ()) ∧ v.Matches r ∧ c.host = r.raw_host ∧
    c.port = v.port

/-- A call of the underlying backend is a dial of an approved address for such an attempt. -/
def Approved (v : ValidatedOutboundURL lib) (s : Transport) (o : Opened) : Prop :=
  ∃ (j : Nat) (c : Connection) (a : IpAddress), o = .tcp j (lib.text a) v.port ∧
    a ∈ v.ip_addresses ∧ s.connections[j]? = some c ∧ Owned v s c

structure Inv (v : ValidatedOutboundURL lib) (s : Transport) : Prop where
  requests : ∀ (i : Nat) (r : OutboundRequest) (checked : Checked Unit),
    s.requests[i]? = some (r, checked) → checked = handleAsyncRequest v r
  connections : ∀ (j : Nat) (c : Connection), s.connections[j]? = some c → Owned v s c
  opened : ∀ o ∈ s.opened, Approved v s o

/-- The requests and the attempts of `s` are still there, whatever the attempts have come to. -/
structure Grows (s s' : Transport) : Prop where
  requests : ∀ (i : Nat) (x : OutboundRequest × Checked Unit), s.requests[i]? = some x →
    s'.requests[i]? = some x
  connections : ∀ (j : Nat) (c : Connection), s.connections[j]? = some c →
    ∃ pc, s'.connections[j]? = some { c with pc }

theorem Owned.grow {c : Connection} (h : Owned v s c) (hg : Grows s s') (pc : ConnectPc) :
    Owned v s' { c with pc } := by
  obtain ⟨r, hr, hrest⟩ := h
  exact ⟨r, hg.requests _ _ hr, hrest⟩

theorem Approved.grow {o : Opened} (h : Approved v s o) (hg : Grows s s') : Approved v s' o := by
  obtain ⟨j, c, a, ho, ha, hc, howned⟩ := h
  obtain ⟨pc, hc'⟩ := hg.connections j c hc
  exact ⟨j, _, a, ho, ha, hc', howned.grow hg pc⟩

theorem Grows.set {j : Nat} {c : Connection} (hc : s.connections[j]? = some c) (pc : ConnectPc)
    {opened : List Opened} :
    Grows s ⟨s.requests, s.connections.set j { c with pc }, opened⟩ := by
  have hlt : j < s.connections.length := (List.getElem?_eq_some_iff.1 hc).1
  constructor
  · exact fun i x hx => hx
  · intro k d hd
    by_cases hk : k = j
    · subst hk
      rw [hc] at hd
      obtain rfl := Option.some.inj hd
      exact ⟨pc, List.getElem?_set_self hlt⟩
    · refine ⟨d.pc, ?_⟩
      rw [← hd]
      exact List.getElem?_set_ne (Ne.symm hk)

/-- An attempt moves on, and may dial an approved address. -/
theorem Inv.set (h : Inv v s) {j : Nat} {c : Connection} (hc : s.connections[j]? = some c)
    (pc : ConnectPc) {more : List Opened}
    (hmore : ∀ o ∈ more, ∃ a ∈ v.ip_addresses, o = .tcp j (lib.text a) c.port) :
    Inv v ⟨s.requests, s.connections.set j { c with pc }, s.opened ++ more⟩ := by
  have hlt : j < s.connections.length := (List.getElem?_eq_some_iff.1 hc).1
  have hg : Grows s ⟨s.requests, s.connections.set j { c with pc }, s.opened ++ more⟩ :=
    Grows.set hc pc
  have howned := h.connections j c hc
  constructor
  · exact h.requests
  · intro k d hd
    rw [List.getElem?_set, if_pos hlt] at hd
    split at hd
    · obtain rfl := Option.some.inj hd
      exact howned.grow hg pc
    · exact (h.connections k d hd).grow hg d.pc
  · intro o ho
    rcases List.mem_append.1 ho with ho | ho
    · exact (h.opened o ho).grow hg
    · obtain ⟨a, ha, rfl⟩ := hmore o ho
      obtain ⟨r, hr, hmatches, hhost, hport⟩ := howned
      exact ⟨j, { c with pc }, a, by rw [hport], ha, List.getElem?_set_self hlt,
        r, hr, hmatches, hhost, hport⟩

theorem Inv.dial (h : Inv v s) {j : Nat} {c : Connection} (hc : s.connections[j]? = some c)
    (index : Nat) : Inv v (s.dial v j c index) := by
  unfold Transport.dial
  split
  · rename_i address haddress
    apply h.set hc
    intro o ho
    exact ⟨address, List.mem_of_getElem? haddress, List.mem_singleton.1 ho⟩
  · have hend := h.set hc .ended (List.forall_mem_nil _)
    rw [List.append_nil] at hend
    exact hend

theorem Inv.connectTcp (h : Inv v s) {i : Nat} {r : OutboundRequest} {port : Nat}
    (hr : s.requests[i]? = some (r, .ok ())) (hport : originPort r.scheme r.port = .ok port) :
    Inv v (s.connectTcp v i r.raw_host port) := by
  have hmatches : v.Matches r := (handleAsyncRequest_iff v r).1 (h.requests i r _ hr).symm
  have hvalidated : port = v.port := by
    have heq := hport.symm.trans hmatches.2.1
    exact Except.ok.inj heq
  have hnew : Inv v ⟨s.requests, s.connections ++ [⟨i, r.raw_host, port, .ended⟩], s.opened⟩ := by
    have hg : Grows s ⟨s.requests, s.connections ++ [⟨i, r.raw_host, port, .ended⟩], s.opened⟩ := by
      constructor
      · exact fun k x hx => hx
      · intro k c hc
        refine ⟨c.pc, ?_⟩
        rw [List.getElem?_append_left (List.getElem?_eq_some_iff.1 hc).1]
        exact hc
    constructor
    · exact h.requests
    · intro k c hc
      rw [List.getElem?_append, List.getElem?_singleton] at hc
      split at hc
      · exact (h.connections k c hc).grow hg c.pc
      · split at hc
        · obtain rfl := Option.some.inj hc
          exact ⟨r, hr, hmatches, rfl, hvalidated⟩
        · cases hc
    · exact fun o ho => (h.opened o ho).grow hg
  unfold Transport.connectTcp
  dsimp only
  split
  · exact hnew
  · exact hnew.dial (by simp) 0

theorem Inv.step (h : Inv v s) {e : TransportEvent} (hs : s.step v e = some s') : Inv v s' := by
  cases e with
  | handle r =>
    obtain rfl := Option.some.inj hs
    have hg : Grows s { s with requests := s.requests ++ [(r, handleAsyncRequest v r)] } := by
      constructor
      · intro i x hx
        rw [List.getElem?_append_left (List.getElem?_eq_some_iff.1 hx).1]
        exact hx
      · exact fun j c hc => ⟨c.pc, hc⟩
    constructor
    · intro i q checked hq
      rw [List.getElem?_append, List.getElem?_singleton] at hq
      split at hq
      · exact h.requests i q checked hq
      · split at hq
        · obtain ⟨rfl, rfl⟩ := Prod.mk.inj (Option.some.inj hq)
          rfl
        · cases hq
    · exact fun j c hc => (h.connections j c hc).grow hg c.pc
    · exact fun o ho => (h.opened o ho).grow hg
  | connectTcp i =>
    obtain ⟨⟨r, checked⟩, hr, hs⟩ := Option.bind_eq_some_iff.1 hs
    dsimp only at hs
    split at hs
    · rename_i u port hport
      obtain rfl := Option.some.inj hs
      exact h.connectTcp hr hport
    · cases hs
  | connectUnixSocket path =>
    obtain rfl := Option.some.inj hs
    exact h
  | failed j =>
    obtain ⟨c, hc, hs⟩ := Option.bind_eq_some_iff.1 hs
    split at hs
    · obtain rfl := Option.some.inj hs
      exact h.dial hc _
    · cases hs
  | ended j =>
    obtain ⟨c, hc, hs⟩ := Option.bind_eq_some_iff.1 hs
    split at hs
    · obtain rfl := Option.some.inj hs
      have hend := h.set hc .ended (List.forall_mem_nil _)
      rw [List.append_nil] at hend
      exact hend
    · cases hs

theorem inv_reachable (h : (pinnedTransport v).Reachable s) : Inv v s := by
  refine h.invariant (p := Inv v) ?_ fun _ _ _ hinv hstep => hinv.step hstep
  constructor
  · intro i r checked hr
    cases hr
  · intro j c hc
    cases hc
  · intro o ho
    cases ho

end Transport

open Transport in
/-- The backend is only ever asked to dial approved addresses, none of them blocked, at the
validated port, and only for requests for the validated origin. Every other request is refused with
`SSRFError` and has no connection attempt. No Unix socket is opened. -/
theorem pinned_dialling {lib : NetLib} {v : ValidatedOutboundURL lib} {s : Transport}
    (h : (pinnedTransport v).Reachable s) :
    (∀ o ∈ s.opened, ∃ (j : Nat) (c : Connection) (r : OutboundRequest) (a : IpAddress),
      o = .tcp j (lib.text a) v.port ∧ a ∈ v.ip_addresses ∧ addressIsBlocked lib a = false ∧
        s.connections[j]? = some c ∧ s.requests[c.request]? = some (r, .ok ()) ∧ v.Matches r) ∧
    ∀ (i : Nat) (r : OutboundRequest) (checked : Checked Unit),
      s.requests[i]? = some (r, checked) → (checked = .ok () ↔ v.Matches r) ∧
        (¬ v.Matches r → (∃ text, checked = .error (.ssrf text)) ∧
          ∀ c ∈ s.connections, c.request ≠ i) := by
  have hinv := inv_reachable h
  constructor
  · intro o ho
    obtain ⟨j, c, a, ho, ha, hc, r, hr, hmatches, -⟩ := hinv.opened o ho
    exact ⟨j, c, r, a, ho, ha, v.allowed a ha, hc, hr, hmatches⟩
  · intro i r checked hr
    have hchecked := hinv.requests i r checked hr
    subst hchecked
    refine ⟨handleAsyncRequest_iff v r, fun hno => ⟨handleAsyncRequest_refused hno, ?_⟩⟩
    rintro c hc rfl
    obtain ⟨j, hj⟩ := List.mem_iff_getElem?.1 hc
    obtain ⟨q, hq, hmatches, -⟩ := hinv.connections j c hj
    rw [hr] at hq
    obtain ⟨rfl, -⟩ := Prod.mk.inj (Option.some.inj hq)
    exact hno hmatches

/-- One public address, one name that resolves to it, and one URL. -/
def sampleLib : NetLib where
  ip_address
    | .address a => some a
    | .text s => if s = str "93.184.216.34" then some (.v4 0x5DB8D822) else none
    | _ => none
  IPv4Address s := if s = str "93.184.216.34" then some 0x5DB8D822 else none
  text
    | .v4 0x5DB8D822 => str "93.184.216.34"
    | _ => []
  is_private _ := false
  is_loopback _ := false
  is_link_local _ := false
  is_multicast _ := false
  is_reserved _ := false
  is_unspecified _ := false
  is_site_local _ := false
  is_global _ := true
  urlparse s :=
    if s = str "https://example.com/" then
      some ⟨str "https", str "example.com", some (str "example.com"), none, none, none⟩
    else none
  lower s := s
  casefold s := s
  isdigit s := !s.isEmpty && s.all fun c => 48 ≤ c && c ≤ 57
  encode s := some s
  repr s := 39 :: (s ++ [39])

def sampleUrl : ValidatedOutboundURL sampleLib where
  url := str "https://example.com/"
  scheme := str "https"
  host := str "example.com"
  port := 443
  ip_addresses := [.v4 0x5DB8D822]
  found := List.cons_ne_nil _ _
  allowed := by decide
  origin := ⟨some (str "https://example.com/"), by decide⟩
  literal := by decide

/-- The URL as validation returns it, and a dial for a request after one for another host. -/
theorem sampleUrl_dialled :
    validateOutboundUrl sampleLib (fun _ _ => .ok [str "93.184.216.34"])
      (some (str "https://example.com/")) [str "http", str "https"] = .ok sampleUrl ∧
    ∃ o ∈ ((pinnedTransport sampleUrl).after [.handle ⟨str "https", str "other.com", none⟩,
        .handle ⟨str "https", str "example.com", none⟩, .connectTcp 1]).opened,
      ∃ j a, o = .tcp j (sampleLib.text a) 443 ∧ addressIsBlocked sampleLib a = false := by
  refine ⟨rfl, .tcp 0 (str "93.184.216.34") 443, List.mem_singleton.2 rfl, ?_⟩
  have hreach : (pinnedTransport sampleUrl).Reachable ((pinnedTransport sampleUrl).after
      [.handle ⟨str "https", str "other.com", none⟩, .handle ⟨str "https", str "example.com", none⟩,
        .connectTcp 1]) := Machine.reachable_after rfl
  obtain ⟨j, c, r, a, ho, -, hopen, -⟩ :=
    (pinned_dialling hreach).1 (.tcp 0 (str "93.184.216.34") 443) (List.mem_singleton.2 rfl)
  exact ⟨j, a, ho, hopen⟩

end KestrelSdk.Security
