import KestrelSdk.Asyncio.Machine
import KestrelSdk.Encoding.Strip
import KestrelSdk.Tools.Result

/-! Deferred delivery: the wrappers that one private factory passes through, and the threads that
call them. -/

namespace KestrelSdk.Tools

open Json (Str str Value Dict)
open Encoding (strip)

structure ToolPublicationContext where
  agent_id : Str
  session_id : Str
  agent_given : strip agent_id ≠ []
  session_given : strip session_id ≠ []
  deriving DecidableEq

/-- The private part of a `DeferredToolResult`; `publish` is whether it holds the factory. -/
structure Delivery where
  baseline : Dict
  publish : Bool

/-- A dict in the process. A plain one, such as a copy, has no `deferred` part. -/
structure Envelope where
  payload : Dict
  deferred : Option Delivery

/-- The arguments of `finalize`. The result of the hooks is a dict of the process, or none; the
others are `none` where they have another type. -/
structure FinalizeArgs where
  post_hook_result : Option Nat
  allowed : Option Bool
  context : Option (Option ToolPublicationContext)

structure FinalizedToolResult where
  result : Dict
  parts : List Value
  withheld : Bool

inductive Request where
  | for_tool (self : Nat) (metadata : WrapperMetadata)
  | finalize (self : Nat) (args : FinalizeArgs)

def Request.self : Request → Nat
  | .for_tool self _ => self
  | .finalize self _ => self

inductive Outcome where
  | raised
  | successor (self : Nat)
  | finalized (r : FinalizedToolResult)

/-- Where the thread of a call stands. -/
inductive Stage where
  /-- Before `_take_factory`. -/
  | asked
  /-- Behind it, with the factory in a local variable. -/
  | taken
  /-- `for_tool` with its copy of the envelope. -/
  | copied (payload : Dict)
  /-- `finalize` behind its policy. -/
  | approved (result : Dict)
  /-- The publication context is set, the factory not called yet. -/
  | placed (result : Dict)
  /-- The factory runs. -/
  | running (result : Dict)
  /-- In `finally`; `none` is a call that raised. -/
  | returned (result : Dict) (produced : Option Value)
  | ended (o : Outcome)

/-- A call of a thread. `took` and `compared` record what it saw: whether it found the factory on
its wrapper, and the envelope and the baseline that `finalize` compared. -/
structure Call where
  request : Request
  stage : Stage
  took : Bool
  compared : Option (Dict × Dict)

/-- The dicts and the calls around one factory. `deliveries` lists the calls that called it. -/
structure Chain where
  objects : List Envelope
  context : Option ToolPublicationContext
  calls : List Call
  deliveries : List Nat

inductive Event where
  /-- A thread calls `for_tool` or `finalize`. -/
  | call (r : Request)
  /-- The thread of a call goes on. -/
  | next (i : Nat)
  /-- It raises where it stands. -/
  | fail (i : Nat)
  | produce (i : Nat) (produced : Value)
  | mutate (k : Nat) (payload : Dict)
  /-- `copy` or `deepcopy`. -/
  | copy (k : Nat)
  | newDict (payload : Dict)

/-- What `finalize` makes of the parts that the factory produced. -/
def deliver (result : Dict) : Value → Option FinalizedToolResult
  | .list parts =>
    if parts.all validPart then
      if parts.isEmpty then some ⟨result, parts, false⟩
      else
        let extended := result.set (str "parts") (.list (partsOf result ++ parts))
        if validEnvelope extended then some ⟨extended, parts, false⟩ else none
    else none
  | _ => none

namespace Chain

def put (s : Chain) (i : Nat) (c : Call) : Chain := { s with calls := s.calls.set i c }

def setObject (s : Chain) (k : Nat) (o : Envelope) : Chain :=
  { s with objects := s.objects.set k o }

def addObject (s : Chain) (o : Envelope) : Chain := { s with objects := s.objects ++ [o] }

/-- `_take_factory`. -/
def take (s : Chain) (i : Nat) (c : Call) (o : Envelope) (d : Delivery) : Chain :=
  if d.publish then
    (s.setObject c.request.self { o with deferred := some { d with publish := false } }).put i
      { c with stage := .taken, took := true }
  else s.put i { c with stage := .ended .raised }

/-- The constructor of the successor, which gets the factory. -/
def construct (s : Chain) (i : Nat) (c : Call) (payload : Dict) : Chain :=
  if validEnvelope payload then
    (s.addObject ⟨payload, some ⟨payload, true⟩⟩).put i
      { c with stage := .ended (.successor s.objects.length) }
  else s.put i { c with stage := .ended .raised }

/-- Whether the policy lets the factory be called. -/
def permits (eq : Dict → Dict → Bool) (self : Nat) (a : FinalizeArgs) (result baseline : Dict) :
    Bool :=
  a.allowed == some true && a.post_hook_result == some self && eq result baseline

/-- `finalize` between `_take_factory` and the call of the factory. -/
def judge (eq : Dict → Dict → Bool) (s : Chain) (i : Nat) (c : Call) (self : Nat) (a : FinalizeArgs)
    (baseline : Dict) : Chain :=
  match a.allowed, a.context, a.post_hook_result.bind (s.objects[·]?) with
  | some _, some _, some post =>
    let c := { c with compared := some (post.payload, baseline) }
    if permits eq self a post.payload baseline then
      s.put i { c with stage := .approved post.payload }
    else s.put i { c with stage := .ended (.finalized ⟨post.payload, [], true⟩) }
  | _, _, _ => s.put i { c with stage := .ended .raised }

/-- The next step of the thread of call `i`. -/
def next (eq : Dict → Dict → Bool) (s : Chain) (i : Nat) (c : Call) : Option Chain := do
  let o ← s.objects[c.request.self]?
  let d ← o.deferred
  match c.stage, c.request with
  | .asked, _ => some (s.take i c o d)
  | .taken, .for_tool _ _ =>
    if eq o.payload d.baseline then some (s.put i { c with stage := .copied o.payload })
    else some (s.put i { c with stage := .ended .raised })
  | .taken, .finalize self a => some (s.judge eq i c self a d.baseline)
  | .copied payload, .for_tool _ m =>
    match wrapEnvelope m payload with
    | some payload => some (s.construct i c payload)
    | none => some (s.put i { c with stage := .ended .raised })
  | .approved result, .finalize _ a =>
    some (({ s with context := a.context.join } : Chain).put i { c with stage := .placed result })
  | .placed result, _ =>
    some (({ s with deliveries := i :: s.deliveries } : Chain).put i
      { c with stage := .running result })
  | .returned result produced, _ =>
    let outcome := match produced.bind (deliver result) with
      | some r => .finalized r
      | none => .raised
    some (({ s with context := none } : Chain).put i { c with stage := .ended outcome })
  | _, _ => none

/-- The call raises where it stands. Inside `try` it still runs `finally`. -/
def fail (s : Chain) (i : Nat) (c : Call) : Option Chain :=
  match c.stage with
  | .taken | .copied _ => some (s.put i { c with stage := .ended .raised })
  | .approved result | .placed result | .running result =>
    some (s.put i { c with stage := .returned result none })
  | .returned _ _ =>
    some (({ s with context := none } : Chain).put i { c with stage := .ended .raised })
  | _ => none

def step (eq : Dict → Dict → Bool) (s : Chain) : Event → Option Chain
  | .call r =>
    match s.objects[r.self]? with
    | some ⟨_, some _⟩ => some { s with calls := s.calls ++ [⟨r, .asked, false, none⟩] }
    | _ => none
  | .next i => do
    let c ← s.calls[i]?
    s.next eq i c
  | .fail i => do
    let c ← s.calls[i]?
    s.fail i c
  | .produce i produced => do
    let c ← s.calls[i]?
    match c.stage with
    | .running result => some (s.put i { c with stage := .returned result (some produced) })
    | _ => none
  | .mutate k payload => do
    let o ← s.objects[k]?
    some (s.setObject k { o with payload := payload })
  | .copy k => do
    let o ← s.objects[k]?
    some (s.addObject ⟨o.payload, none⟩)
  | .newDict payload => some (s.addObject ⟨payload, none⟩)

/-- The chain of a new `DeferredToolResult`. -/
def initial (payload : Dict) : Chain := ⟨[⟨payload, some ⟨payload, true⟩⟩], none, [], []⟩

end Chain

/-- `eq` is the equality of envelopes. -/
def delivery (eq : Dict → Dict → Bool) (payload : Dict) : Asyncio.Machine Chain Event :=
  ⟨Chain.initial payload, Chain.step eq⟩

end KestrelSdk.Tools
