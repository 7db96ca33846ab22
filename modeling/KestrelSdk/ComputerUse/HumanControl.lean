import KestrelSdk.ComputerUse.Models
import KestrelSdk.Json.Bytes
import KestrelSdk.Order.Checks

/-! Human control of a computer session: the lease, the frame and the admission of one action. -/

namespace KestrelSdk.ComputerUse

open Json (Bytes Str str)
open Features (isStableToken)
open Checks (andThen_ok)

/-- A check that raises `ValueError` with a text. -/
def require (c : Prop) [Decidable c] (text : String) : Except String Unit :=
  if c then .ok () else .error text

theorem require_ok {c : Prop} [Decidable c] {text : String} : require c text = .ok () ↔ c := by
  unfold require
  split <;> simp_all

/-- `n / d`, to the nearest integer and to the even one between two. -/
def roundHalfEven (n d : Nat) : Nat :=
  if 2 * (n % d) < d ∨ (2 * (n % d) = d ∧ n / d % 2 = 0) then n / d else n / d + 1

/-- Whether a number of seconds is more than the `total_seconds()` of a span in microseconds, which
is the nearest double: 53 bits, `k` of them behind the point. -/
def exceedsTotalSeconds (seconds span : Nat) : Bool :=
  let k := 52 - Nat.log2 (span / 1000000)
  roundHalfEven (span * 2 ^ k) 1000000 < seconds * 2 ^ k

/-- The values of `HumanCapability`. -/
def humanCapabilities : Finset ComputerCapability :=
  {.screenshot, .click, .type, .key, .scroll, .wait, .navigate}

structure HumanControlRequest where
  control_id : Str
  scope : ResourceScope
  session_id : Str
  lease_id : Str
  driver_id : Str
  consumer_id : Str
  control_epoch : Nat
  issued_at : Moment
  expires_at : Moment
  capabilities : Finset ComputerCapability
  max_frame_age_seconds : Nat

inductive SessionState where
  | ready
  | paused
  | unknown
  | closing
  | closed
  deriving DecidableEq

inductive Controller where
  | agent
  | human
  | none
  deriving DecidableEq

structure ComputerSession where
  session_id : Str
  scope : ResourceScope
  lease_id : Str
  driver_id : Str
  capabilities : Finset ComputerCapability
  state : SessionState
  controller : Controller
  control_epoch : Nat
  expires_at : Moment

inductive HumanLeaseState where
  | active
  | revoking
  | revoked
  | unknown
  deriving DecidableEq

structure HumanControlLease where
  request : HumanControlRequest
  request_sha256 : Str
  state : HumanLeaseState
  accepted_at : Moment
  revoked_at : Option Moment

structure ScreenFrame where
  observation_id : Str
  session_id : Str
  control_epoch : Nat
  observed_at : Moment
  width : Nat
  height : Nat

structure HumanScreenFrame where
  control_id : Str
  consumer_id : Str
  frame : ScreenFrame

inductive ComputerAction where
  | click (x y : Nat)
  | type (text : Str)
  | key (key : Str)
  | scroll (delta_x delta_y : Int)
  | wait (milliseconds : Nat)
  | navigate (url : Str)

/-- `action.kind`. -/
def ComputerAction.kind : ComputerAction → ComputerCapability
  | .click _ _ => .click
  | .type _ => .type
  | .key _ => .key
  | .scroll _ _ => .scroll
  | .wait _ => .wait
  | .navigate _ => .navigate

structure ActionRequest where
  action_id : Str
  session_id : Str
  observation_id : Str
  control_epoch : Nat
  not_after : Moment
  action : ComputerAction

structure HumanActionRequest where
  control_id : Str
  consumer_id : Str
  action : ActionRequest

/-- SHA-256, and the text of a request that its digest covers: the `model_dump` with the sorted
capabilities and the canonical forms of both datetimes. -/
structure HumanDigests where
  sha256 : Bytes → Digest
  requestText : HumanControlRequest → Moment → Moment → Bytes

variable (lib : HumanDigests)

namespace HumanControlRequest

/-- `bounded_request`. -/
def boundedRequest (r : HumanControlRequest) : Except String Unit := do
  require (0 < r.expires_at.instant - r.issued_at.instant ∧ exceedsTotalSeconds
      r.max_frame_age_seconds (r.expires_at.instant - r.issued_at.instant).toNat = false)
    "human frame/lifetime bounds are inconsistent"
  require (ComputerCapability.screenshot ∈ r.capabilities)
    "human control requires screenshot capability"

/-- A request that passed its validators. -/
structure Valid (r : HumanControlRequest) : Prop where
  tokens : isStableToken r.control_id = true ∧ r.scope.valid = true ∧
    isStableToken r.session_id = true ∧ isStableToken r.lease_id = true ∧
    isStableToken r.driver_id = true ∧ isStableToken r.consumer_id = true
  times : r.issued_at.validate = some r.issued_at ∧ r.expires_at.validate = some r.expires_at
  capabilities : r.capabilities ⊆ humanCapabilities
  age : 0 < r.max_frame_age_seconds
  bounded : r.boundedRequest = .ok ()

def digest (r : HumanControlRequest) : Except String Digest :=
  match r.issued_at.toUtc, r.expires_at.toUtc with
  | some issued_at, some expires_at => .ok (lib.sha256 (lib.requestText r issued_at expires_at))
  | _, _ => .error "canonical datetime is outside the supported UTC range"

/-- `require_session`. -/
def requireSession (r : HumanControlRequest) (session : ComputerSession) (now : Moment) :
    Except String Unit := do
  require (now.offset.isSome = true) "a trusted timezone-aware current time is required"
  require ((r.scope, r.session_id, r.lease_id, r.driver_id, r.control_epoch) =
      (session.scope, session.session_id, session.lease_id, session.driver_id,
        session.control_epoch))
    "human lease belongs to another owner/session/epoch"
  require (session.state = .paused ∧ session.controller = .human)
    "human control requires a paused human session"
  require (ComputerCapability.takeover ∈ session.capabilities ∧
      r.capabilities ⊆ session.capabilities)
    "human capabilities exceed the admitted session"
  require (r.issued_at.instant ≤ now.instant ∧ now.instant < r.expires_at.instant ∧
      r.expires_at.instant ≤ session.expires_at.instant)
    "human lease is outside its fixed lifetime"

end HumanControlRequest

namespace HumanControlLease

/-- `correlated_acceptance`. -/
def correlatedAcceptance (l : HumanControlLease) : Except String Unit := do
  let digest ← l.request.digest lib
  require (l.request_sha256 = digest.1) "human lease does not match the original request digest"
  require (l.request.issued_at.instant ≤ l.accepted_at.instant ∧
      l.accepted_at.instant < l.request.expires_at.instant)
    "human lease acceptance is outside the requested lifetime"
  require (l.state = .revoked ↔ l.revoked_at.isSome = true)
    "revoked requires confirmed input retirement time"
  require (∀ r ∈ l.revoked_at, l.accepted_at.instant ≤ r.instant)
    "input retirement precedes acceptance"

/-- A lease that passed its validators. -/
structure Valid (l : HumanControlLease) : Prop where
  request : l.request.Valid
  times : l.accepted_at.validate = some l.accepted_at ∧ ∀ r ∈ l.revoked_at, r.validate = some r
  correlated : l.correlatedAcceptance lib = .ok ()

/-- `require_request`. -/
def requireRequest (l : HumanControlLease) (request : HumanControlRequest) :
    Except String Unit := do
  let digest ← request.digest lib
  let own ← l.request.digest lib
  require (digest.1 = l.request_sha256 ∧ l.request_sha256 = own.1)
    "human control request differs from the accepted binding"

/-- `require_active`. -/
def requireActive (l : HumanControlLease) (session : ComputerSession) (now : Moment) :
    Except String Unit := do
  l.requireRequest lib l.request
  l.request.requireSession session now
  require (l.state = .active ∧ l.accepted_at.instant ≤ now.instant) "human lease is not active"

end HumanControlLease

namespace HumanScreenFrame

/-- `require_lease` before its last check. -/
def requireObserved (f : HumanScreenFrame) (lease : HumanControlLease) (session : ComputerSession)
    (now : Moment) : Except String Unit := do
  lease.requireActive lib session now
  require ((f.control_id, f.consumer_id, f.frame.session_id, f.frame.control_epoch) =
      (lease.request.control_id, lease.request.consumer_id, lease.request.session_id,
        lease.request.control_epoch))
    "human observation belongs to another consumer/session/epoch"
  require (lease.accepted_at.instant ≤ f.frame.observed_at.instant ∧
      f.frame.observed_at.instant ≤ now.instant)
    "human observation is outside the accepted lease"

/-- The check on the age of the frame. -/
def requireFresh (f : HumanScreenFrame) (lease : HumanControlLease) (now : Moment) :
    Except String Unit :=
  require (now.instant - f.frame.observed_at.instant <
      (lease.request.max_frame_age_seconds : Int) * 1000000)
    "human observation is stale"

/-- `require_lease`. -/
def requireLease (f : HumanScreenFrame) (lease : HumanControlLease) (session : ComputerSession)
    (now : Moment) : Except String Unit := do
  f.requireObserved lib lease session now
  f.requireFresh lease now

end HumanScreenFrame

/-- Whether the click of an action lies inside the frame. -/
def ComputerAction.inside (a : ComputerAction) (frame : ScreenFrame) : Bool :=
  match a with
  | .click x y => x < frame.width && y < frame.height
  | _ => true

namespace HumanActionRequest

/-- `require_lease` after the frame's own checks. -/
def requireAction (a : HumanActionRequest) (lease : HumanControlLease) (session : ComputerSession)
    (frame : ScreenFrame) (now : Moment) : Except String Unit := do
  require ((a.control_id, a.consumer_id) = (lease.request.control_id, lease.request.consumer_id))
    "human action belongs to another consumer lease"
  require ((a.action.session_id, a.action.control_epoch, a.action.observation_id) =
      (lease.request.session_id, lease.request.control_epoch, frame.observation_id))
    "human action belongs to another observation/session/epoch"
  require (a.action.action.kind ∈ lease.request.capabilities)
    "human action exceeds the consumer capabilities"
  require (now.instant < a.action.not_after.instant ∧
      a.action.not_after.instant ≤
        min lease.request.expires_at.instant session.expires_at.instant ∧
      a.action.not_after.instant - frame.observed_at.instant ≤
        (lease.request.max_frame_age_seconds : Int) * 1000000)
    "human action deadline exceeds current frame/lease bounds"
  require (a.action.action.inside frame = true) "human click exceeds the observed screen"

/-- `require_lease`. -/
def requireLease (a : HumanActionRequest) (lease : HumanControlLease) (session : ComputerSession)
    (frame : HumanScreenFrame) (now : Moment) : Except String Unit := do
  frame.requireLease lib lease session now
  a.requireAction lease session frame.frame now

end HumanActionRequest

namespace HumanActionRequest

variable {lib} {a : HumanActionRequest} {lease : HumanControlLease} {session : ComputerSession}
  {frame : HumanScreenFrame} {now : Moment}

/-- The checks that do not look at the time. -/
structure Bound (lib : HumanDigests) (a : HumanActionRequest) (lease : HumanControlLease)
    (session : ComputerSession) (frame : HumanScreenFrame) : Prop where
  request : lease.requireRequest lib lease.request = .ok ()
  owner : (lease.request.scope, lease.request.session_id, lease.request.lease_id,
    lease.request.driver_id, lease.request.control_epoch) =
      (session.scope, session.session_id, session.lease_id, session.driver_id,
        session.control_epoch)
  paused : session.state = .paused ∧ session.controller = .human
  capable : ComputerCapability.takeover ∈ session.capabilities ∧
    lease.request.capabilities ⊆ session.capabilities
  active : lease.state = .active
  observer : (frame.control_id, frame.consumer_id, frame.frame.session_id,
    frame.frame.control_epoch) = (lease.request.control_id, lease.request.consumer_id,
      lease.request.session_id, lease.request.control_epoch)
  consumer : (a.control_id, a.consumer_id) = (lease.request.control_id, lease.request.consumer_id)
  observation : (a.action.session_id, a.action.control_epoch, a.action.observation_id) =
    (lease.request.session_id, lease.request.control_epoch, frame.frame.observation_id)
  kind : a.action.action.kind ∈ lease.request.capabilities
  inside : a.action.action.inside frame.frame = true
  lifetime : lease.request.expires_at.instant ≤ session.expires_at.instant
  observed : lease.accepted_at.instant ≤ frame.frame.observed_at.instant
  deadline : a.action.not_after.instant ≤
    min lease.request.expires_at.instant session.expires_at.instant
  fresh : a.action.not_after.instant - frame.frame.observed_at.instant ≤
    (lease.request.max_frame_age_seconds : Int) * 1000000

/-- The checks on the time, the age of the frame apart. -/
structure Timely (a : HumanActionRequest) (lease : HumanControlLease) (frame : HumanScreenFrame)
    (now : Moment) : Prop where
  aware : now.offset.isSome = true
  issued : lease.request.issued_at.instant ≤ now.instant
  lapsing : now.instant < lease.request.expires_at.instant
  accepted : lease.accepted_at.instant ≤ now.instant
  observed : frame.frame.observed_at.instant ≤ now.instant
  before : now.instant < a.action.not_after.instant

/-- What the checks ask for, all but the age of the frame. -/
theorem requireObserved_ok_iff :
    (frame.requireObserved lib lease session now = .ok () ∧
        a.requireAction lease session frame.frame now = .ok ()) ↔
      a.Bound lib lease session frame ∧ a.Timely lease frame now := by
  unfold HumanScreenFrame.requireObserved HumanControlLease.requireActive
    HumanControlRequest.requireSession requireAction
  simp only [andThen_ok, require_ok]
  constructor
  · rintro ⟨⟨⟨hrequest, ⟨haware, howner, hpaused, hcapable, hissued, hlapsing, hsession⟩, hactive,
      haccepted⟩, hobserver, hobserved, hseen⟩, hconsumer, hobservation, hkind,
      ⟨hbefore, hdeadline, hfresh⟩, hinside⟩
    exact ⟨⟨hrequest, howner, hpaused, hcapable, hactive, hobserver, hconsumer, hobservation, hkind,
      hinside, hsession, hobserved, hdeadline, hfresh⟩,
      ⟨haware, hissued, hlapsing, haccepted, hseen, hbefore⟩⟩
  · rintro ⟨hb, ht⟩
    exact ⟨⟨⟨hb.request, ⟨ht.aware, hb.owner, hb.paused, hb.capable, ht.issued, ht.lapsing,
      hb.lifetime⟩, hb.active, ht.accepted⟩, hb.observer, hb.observed, ht.observed⟩, hb.consumer,
      hb.observation, hb.kind, ⟨ht.before, hb.deadline, hb.fresh⟩, hb.inside⟩

/-- The age of the frame is within its bound at every time before the deadline. -/
theorem requireFresh_ok (hb : a.Bound lib lease session frame)
    (hbefore : now.instant < a.action.not_after.instant) :
    frame.requireFresh lease now = .ok () := by
  have hfresh := hb.fresh
  apply require_ok.2
  omega

theorem requireLease_ok_iff :
    a.requireLease lib lease session frame now = .ok () ↔
      a.Bound lib lease session frame ∧ a.Timely lease frame now := by
  rw [← requireObserved_ok_iff]
  unfold requireLease HumanScreenFrame.requireLease
  rw [andThen_ok, andThen_ok]
  constructor
  · rintro ⟨⟨hobserved, -⟩, haction⟩
    exact ⟨hobserved, haction⟩
  · rintro ⟨hobserved, haction⟩
    obtain ⟨hb, ht⟩ := requireObserved_ok_iff.1 ⟨hobserved, haction⟩
    exact ⟨⟨hobserved, requireFresh_ok hb ht.before⟩, haction⟩

theorem issued_le_accepted (h : lease.correlatedAcceptance lib = .ok ()) :
    lease.request.issued_at.instant ≤ lease.accepted_at.instant := by
  unfold HumanControlLease.correlatedAcceptance at h
  cases hd : lease.request.digest lib with
  | error e =>
    rw [hd] at h
    cases h
  | ok digest =>
    rw [hd] at h
    simp only [bind, Except.bind] at h
    exact (require_ok.1 (andThen_ok.1 (andThen_ok.1 h).2).1).1

/-- From the observation to the deadline every aware time passes the checks on the time. -/
theorem Bound.timely_iff (hb : a.Bound lib lease session frame)
    (hl : lease.request.issued_at.instant ≤ lease.accepted_at.instant)
    (haware : now.offset.isSome = true) :
    a.Timely lease frame now ↔ frame.frame.observed_at.instant ≤ now.instant ∧
      now.instant < a.action.not_after.instant := by
  have hobserved := hb.observed
  have hdeadline := hb.deadline
  have hmin := min_le_left lease.request.expires_at.instant session.expires_at.instant
  constructor
  · exact fun ht => ⟨ht.observed, ht.before⟩
  · rintro ⟨hseen, hbefore⟩
    exact ⟨haware, by omega, by omega, by omega, hseen, hbefore⟩

end HumanActionRequest

/-- The aware times at which an action is admitted are none, or those from the observation of its
frame up to its deadline. An admitted time lies inside the lease, the session and the bound on the
age of the frame, and the check on that age refuses nothing that the others admit. -/
theorem admission_window (lib : HumanDigests) (lease : HumanControlLease)
    (session : ComputerSession) (frame : HumanScreenFrame) (action : HumanActionRequest)
    (h : lease.Valid lib) :
    ((∀ now, action.requireLease lib lease session frame now ≠ .ok ()) ∨
      ∀ now : Moment, now.offset.isSome = true →
        (action.requireLease lib lease session frame now = .ok () ↔
          frame.frame.observed_at.instant ≤ now.instant ∧
            now.instant < action.action.not_after.instant)) ∧
    (∀ now, action.requireLease lib lease session frame now = .ok () →
      now.offset.isSome = true ∧
      lease.accepted_at.instant ≤ now.instant ∧
      lease.request.issued_at.instant ≤ now.instant ∧
      now.instant < lease.request.expires_at.instant ∧
      now.instant < session.expires_at.instant ∧
      now.instant - frame.frame.observed_at.instant <
        (lease.request.max_frame_age_seconds : Int) * 1000000) ∧
    (∀ first second third : Moment, second.offset.isSome = true →
      first.instant ≤ second.instant → second.instant ≤ third.instant →
      action.requireLease lib lease session frame first = .ok () →
      action.requireLease lib lease session frame second ≠ .ok () →
      action.requireLease lib lease session frame third ≠ .ok ()) ∧
    ∀ now, (do
        frame.requireObserved lib lease session now
        action.requireAction lease session frame.frame now) = .ok () ↔
      action.requireLease lib lease session frame now = .ok () := by
  have hissued := HumanActionRequest.issued_le_accepted h.correlated
  have hwindow : ∀ now now' : Moment, action.requireLease lib lease session frame now' = .ok () →
      now.offset.isSome = true → (action.requireLease lib lease session frame now = .ok () ↔
        frame.frame.observed_at.instant ≤ now.instant ∧
          now.instant < action.action.not_after.instant) := by
    intro now now' hadmitted haware
    have hb := (HumanActionRequest.requireLease_ok_iff.1 hadmitted).1
    rw [HumanActionRequest.requireLease_ok_iff, ← hb.timely_iff hissued haware]
    exact and_iff_right hb
  refine ⟨?_, ?_, ?_, ?_⟩
  · by_cases hsome : ∃ now, action.requireLease lib lease session frame now = .ok ()
    · obtain ⟨now', hadmitted⟩ := hsome
      exact .inr fun now haware => hwindow now now' hadmitted haware
    · exact .inl fun now hadmitted => hsome ⟨now, hadmitted⟩
  · intro now hadmitted
    obtain ⟨hb, ht⟩ := HumanActionRequest.requireLease_ok_iff.1 hadmitted
    have hfresh := hb.fresh
    have hbefore := ht.before
    have hlapsing := ht.lapsing
    have hsession := hb.lifetime
    exact ⟨ht.aware, ht.accepted, ht.issued, hlapsing, by omega, by omega⟩
  · intro first second third haware h12 h23 hfirst hsecond hthird
    have hin := (hwindow first first hfirst
      (HumanActionRequest.requireLease_ok_iff.1 hfirst).2.aware).1 hfirst
    have hout := (hwindow third first hfirst
      (HumanActionRequest.requireLease_ok_iff.1 hthird).2.aware).1 hthird
    apply hsecond
    exact (hwindow second first hfirst haware).2 ⟨by omega, by omega⟩
  · intro now
    rw [andThen_ok, HumanActionRequest.requireObserved_ok_iff,
      HumanActionRequest.requireLease_ok_iff]

/-- A time of day, in seconds after midnight UTC. -/
def clockTime (seconds : Nat) (h : seconds * 1000000 < SPAN) : Moment :=
  ⟨seconds * 1000000, some 0, h, utc_offset_lt⟩

def humanDigest : Digest := ⟨List.replicate 64 97, by decide⟩

def humanDigests : HumanDigests := ⟨fun _ => humanDigest, fun _ _ _ => []⟩

/-- A minute of control, with frames that may be ten seconds old. -/
def minuteRequest : HumanControlRequest where
  control_id := str "control"
  scope := ⟨str "tenant", str "principal", none⟩
  session_id := str "session"
  lease_id := str "lease"
  driver_id := str "driver"
  consumer_id := str "consumer"
  control_epoch := 1
  issued_at := clockTime 0 (by decide)
  expires_at := clockTime 60 (by decide)
  capabilities := {.screenshot, .click}
  max_frame_age_seconds := 10

def minuteLease : HumanControlLease where
  request := minuteRequest
  request_sha256 := humanDigest.1
  state := .active
  accepted_at := clockTime 1 (by decide)
  revoked_at := none

theorem minuteLease_valid : minuteLease.Valid humanDigests where
  request := ⟨by decide, by decide, by decide, by decide, by decide +kernel⟩
  times := ⟨by decide, by decide⟩
  correlated := by decide

def pausedSession : ComputerSession where
  session_id := str "session"
  scope := ⟨str "tenant", str "principal", none⟩
  lease_id := str "lease"
  driver_id := str "driver"
  capabilities := {.screenshot, .click, .takeover}
  state := .paused
  controller := .human
  control_epoch := 1
  expires_at := clockTime 60 (by decide)

def seenFrame : HumanScreenFrame where
  control_id := str "control"
  consumer_id := str "consumer"
  frame := ⟨str "observation", str "session", 1, clockTime 5 (by decide), 100, 100⟩

def clickRequest : HumanActionRequest where
  control_id := str "control"
  consumer_id := str "consumer"
  action := ⟨str "action", str "session", str "observation", 1, clockTime 15 (by decide), .click 3 4⟩

theorem clickRequest_window :
    clickRequest.requireLease humanDigests minuteLease pausedSession seenFrame
        (clockTime 14 (by decide)) = .ok () ∧
      (clockTime 14 (by decide)).instant < pausedSession.expires_at.instant := by
  have hadmitted : clickRequest.requireLease humanDigests minuteLease pausedSession seenFrame
      (clockTime 14 (by decide)) = .ok () := by decide
  have key := (admission_window humanDigests minuteLease pausedSession seenFrame clickRequest
    minuteLease_valid).2.1 _ hadmitted
  exact ⟨hadmitted, key.2.2.2.2.1⟩

end KestrelSdk.ComputerUse
