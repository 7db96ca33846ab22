import KestrelSdk.Protocol.Message

namespace KestrelSdk.Protocol

open Json

def MAX_HOST_INGRESS_NAME_BYTES : Nat := 64
def MAX_HOST_INGRESS_PAYLOAD_BYTES : Nat := 64 * 1024
def MAX_HOST_INGRESS_PAYLOAD_DEPTH : Nat := 32
def HOST_INGRESS_VERSION : Int := 1

def isLower (c : Nat) : Bool := 97 ≤ c && c ≤ 122

def isSlugChar (c : Nat) : Bool := isLower c || isDigit c

/-- `[a-z0-9]*(?:-[a-z0-9]+)*`. -/
def slugTail : Str → Bool
  | [] => true
  | [c] => isSlugChar c
  | c :: x :: s => if c = 45 then isSlugChar x && slugTail s else isSlugChar c && slugTail (x :: s)

/-- `_HOST_INGRESS_NAME`: `[a-z][a-z0-9]*(?:-[a-z0-9]+)*`. -/
def isSlug : Str → Bool
  | [] => false
  | c :: s => isLower c && slugTail s

/-- `validate_host_ingress_name`. -/
def validateHostIngressName : Value → Except Str Str
  | .str s =>
    if s.any (0x80 ≤ ·) then .error (str "host ingress name must be a lowercase slug")
    else if MAX_HOST_INGRESS_NAME_BYTES < s.length then
      .error (str "host ingress name exceeds the size limit")
    else if isSlug s then .ok s
    else .error (str "host ingress name must be a lowercase slug")
  | _ => .error (str "host ingress name must be a lowercase slug")

mutual
/-- `_validate_host_ingress_json`, with the levels of nesting that are left. -/
def validJson : Option Nat → Value → Except Str Unit
  | none, _ => .error (str "host ingress payload exceeds the nesting limit")
  | some _, .none => .ok ()
  | some _, .bool _ => .ok ()
  | some _, .str _ => .ok ()
  | some _, .int _ => .ok ()
  | some _, .float (.finite _) => .ok ()
  | some _, .float _ => .error (str "host ingress payload must be valid JSON")
  | some n, .list l => validItems n l
  | some n, .dict es => validEntries n es
  | some _, .object _ => .error (str "host ingress payload must be valid JSON")
  termination_by structural _ v => v

def validItems (n : Nat) : List Value → Except Str Unit
  | [] => .ok ()
  | v :: vs => do
    validJson (if n = 0 then none else some (n - 1)) v
    validItems n vs
  termination_by structural l => l

def validEntries (n : Nat) : List (Key × Value) → Except Str Unit
  | [] => .ok ()
  | (k, v) :: es => do
    match k with
    | .str _ => .ok ()
    | _ => .error (str "host ingress payload must be valid JSON")
    validJson (if n = 0 then none else some (n - 1)) v
    validEntries n es
  termination_by structural l => l
end

/-- `validate_host_ingress_payload`: strict JSON, at most 32 levels and 64 KiB. -/
def validateHostIngressPayload (py : Interpreter) (v : Value) : Except Str Value := do
  validJson (some MAX_HOST_INGRESS_PAYLOAD_DEPTH) v
  match py.dumps v with
  | .error _ => .error (str "host ingress payload must be valid JSON")
  | .ok t =>
    if MAX_HOST_INGRESS_PAYLOAD_BYTES < t.length then
      .error (str "host ingress payload exceeds the size limit")
    else return v

end KestrelSdk.Protocol
