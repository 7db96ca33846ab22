import KestrelSdk.Client.Step
import KestrelSdk.Subprocess.Step

/-! The wrapper over its inner clients: both machines, joined where a transition calls its client. -/

namespace KestrelSdk.Subprocess

open Asyncio
open Json (Value Dict Interpreter Str str)

/-- A wrapper and the clients it has created. `within` names the task in which a client runs the
inner call of a transition. -/
structure Hosted where
  wrapper : State := {}
  inner : Cid → Client.State := fun _ => {}
  within : Nat → Option Client.Tid := fun _ => none

namespace Hosted

inductive Step where
  /-- A step of the wrapper outside the inner call of a transition. -/
  | wrapper (a : Action)
  /-- A step of client `c` outside such a call. -/
  | inner (c : Cid) (a : Client.Action)
  /-- Caller `t` calls `client.prepare_config_transition`, in task `u` of the client. -/
  | prepare (t : Tid) (u : Client.Tid) (writeOk : Bool)
  /-- That call runs on. -/
  | proceed (t : Tid) (ok : Bool)

/-- How an inner call ended, as the wrapper sees it. -/
def innerOf : Except Client.Raised Value → Inner
  | .ok _ => .returned
  | .error .cancelled => .cancelled
  | .error _ => .raised

/-- The inner call that caller `t` is in. -/
def applying (h : Hosted) (t : Tid) : Option TransitionFrame :=
  match (h.wrapper.ops t).pc with
  | .applying f => some f
  | _ => none

def setInner (h : Hosted) (c : Cid) (s : Client.State) : Hosted :=
  { h with inner := Function.update h.inner c s }

/-- Whether the wrapper takes the step by itself. -/
def alone (h : Hosted) : Action → Bool
  | .resume t _ _ => (h.applying t).isNone
  | .clientDies c => (h.inner c).closedExc.isSome
  | _ => true

def isTransition : Client.Op → Bool
  | .prepareConfigTransition _ => true
  | _ => false

/-- Whether client `c` takes the step by itself. -/
def apart (h : Hosted) (c : Cid) : Client.Action → Bool
  | .call _ op _ => !isTransition op
  | .resume u _ => !isTransition ((h.inner c).calls u).op
  | _ => true

/-- The caller goes on in the handle in which its inner call ends, and reads the fence there. -/
def answer (h : Hosted) (t : Tid) (f : TransitionFrame) (u : Client.Tid) : Option Hosted :=
  match ((h.inner f.client).calls u).pc with
  | .finished r =>
    (h.wrapper.step (.resume t (innerOf r) (h.inner f.client).restartRequired)).map fun wrapper =>
      { h with wrapper }
  | _ => some h

variable (py : Interpreter) (protocolVersion : Str) (value : Cfg → Dict)

/-- `value` is what a configuration object holds. -/
def step (h : Hosted) : Step → Option Hosted
  | .wrapper a =>
    if h.alone a then (h.wrapper.step a).map fun wrapper => { h with wrapper } else none
  | .inner c a =>
    if c < h.wrapper.nextClient && h.apart c a then
      (Client.step py protocolVersion (h.inner c) a).map (h.setInner c)
    else none
  | .prepare t u writeOk => do
    let f ← h.applying t
    guard (h.within f.call).isNone
    let next := Value.dict (value (h.wrapper.transitions f.call).next)
    let s ← Client.step py protocolVersion (h.inner f.client)
      (.call u (.prepareConfigTransition next) writeOk)
    { h.setInner f.client s with within := Function.update h.within f.call (some u) }.answer t f u
  | .proceed t ok => do
    let f ← h.applying t
    let u ← h.within f.call
    let s ← Client.step py protocolVersion (h.inner f.client) (.resume u ok)
    (h.setInner f.client s).answer t f u

end Hosted

/-- The wrapper and its clients, from the construction of the wrapper on. -/
def hosted (py : Interpreter) (protocolVersion : Str) (value : Cfg → Dict) :
    Machine Hosted Hosted.Step :=
  ⟨{}, Hosted.step py protocolVersion value⟩

end KestrelSdk.Subprocess
