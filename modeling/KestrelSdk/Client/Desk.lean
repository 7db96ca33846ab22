import KestrelSdk.Protocol.Message

namespace KestrelSdk.Client

open Json Protocol

/-- The public classification that `_closed_exc` keeps of a dead stream. -/
inductive Terminal where
  | eof
  | protocol
  | connection
  deriving DecidableEq

/-- Why a request's future fails: an error response, or the end of the stream. -/
inductive Failure where
  | remote (message : Str)
  | terminal (x : Terminal)
  deriving DecidableEq

inductive Future where
  | pending
  | done (r : Except Failure Value)
  | cancelled

/-- One request frame. -/
structure Frame where
  id : Nat
  method : Str
  params : Dict

/-- The request table: `_next_id`, `_pending` and its futures; `written` and `responses` are
the frames sent and the responses read so far. -/
structure Desk where
  nextId : Nat := 0
  pending : List Nat := []
  futures : Nat → Future := fun _ => .pending
  written : List Frame := []
  responses : List JsonRpcResponse := []

namespace Desk

/-- A new future under the next identifier. -/
def enroll (d : Desk) : Desk :=
  { d with nextId := d.nextId + 1, pending := d.pending ++ [d.nextId + 1]
           futures := Function.update d.futures (d.nextId + 1) .pending }

def write (d : Desk) (method : Str) (params : Dict) : Desk :=
  { d with written := d.written ++ [⟨d.nextId, method, params⟩] }

/-- The `finally` of `request`. -/
def abandon (d : Desk) (id : Nat) : Desk := { d with pending := d.pending.erase id }

/-- A cancelled waiter cancels the future that it awaits. -/
def cancel (d : Desk) (id : Nat) : Desk :=
  match d.futures id with
  | .pending => { d with futures := Function.update d.futures id .cancelled }
  | _ => d

/-- The table entry that a response's identifier finds: `True` is the key `1`, `False` is `0`. -/
def keyOf : Value → Option Nat
  | .int i => if 0 ≤ i then some i.toNat else none
  | .bool b => some b.toNat
  | _ => none

def settle (d : Desk) (id : Nat) (r : Except Failure Value) : Desk :=
  match d.futures id with
  | .pending => { d with futures := Function.update d.futures id (.done r) }
  | _ => d

/-- The result or the error of a response. -/
def outcome : Answer → Except Failure Value
  | .result v => .ok v
  | .error e => .error (.remote e.message)

/-- A response frame in the read loop. -/
def answer (d : Desk) (r : JsonRpcResponse) : Desk :=
  let d := { d with responses := d.responses ++ [r] }
  match keyOf r.id with
  | none => d
  | some id =>
    if id ∈ d.pending then ({ d with pending := d.pending.erase id }).settle id (outcome r.answer)
    else d

/-- The terminal drain of the read loop: every pending future fails. -/
def failAll (d : Desk) (x : Terminal) : Desk :=
  { d with
    pending := []
    futures := fun id =>
      match d.futures id with
      | .pending => if id ∈ d.pending then .done (.error (.terminal x)) else .pending
      | f => f }

theorem settle_frame (d : Desk) (id : Nat) (r : Except Failure Value) :
    (d.settle id r).written = d.written ∧ (d.settle id r).nextId = d.nextId ∧
      (d.settle id r).pending = d.pending ∧ (d.settle id r).responses = d.responses := by
  unfold settle
  split
  · exact ⟨rfl, rfl, rfl, rfl⟩
  · exact ⟨rfl, rfl, rfl, rfl⟩

theorem answer_frame (d : Desk) (r : JsonRpcResponse) :
    (d.answer r).written = d.written ∧ (d.answer r).nextId = d.nextId ∧
      (d.answer r).responses = d.responses ++ [r] := by
  unfold answer
  dsimp only
  split
  · exact ⟨rfl, rfl, rfl⟩
  · split
    · obtain ⟨h1, h2, -, h4⟩ := settle_frame
        { d with responses := d.responses ++ [r], pending := d.pending.erase _ } _ (outcome r.answer)
      exact ⟨h1, h2, h4⟩
    · exact ⟨rfl, rfl, rfl⟩

theorem cancel_frame (d : Desk) (id : Nat) :
    (d.cancel id).written = d.written ∧ (d.cancel id).nextId = d.nextId ∧
      (d.cancel id).pending = d.pending ∧ (d.cancel id).responses = d.responses := by
  unfold cancel
  split
  · exact ⟨rfl, rfl, rfl, rfl⟩
  · exact ⟨rfl, rfl, rfl, rfl⟩

end Desk

end KestrelSdk.Client
