import KestrelSdk.Encoding.IsoFormat
import KestrelSdk.Json.Plain
import KestrelSdk.Protocol.Capabilities

namespace KestrelSdk.Protocol

open Json
open Encoding (DateTime fromisoformat)

def MAX_TOOL_EXECUTION_CONTEXT_BYTES : Nat := 4096
def MAX_CONTEXT_IDENTIFIER_BYTES : Nat := 512
def MAX_TRIGGER_KIND_BYTES : Nat := 64

def SUPPORTED_TRIGGER_KINDS : List Str :=
  [str "scheduler", str "event", str "agent", str "manual", str "api"]

def TRIGGER_FIELDS : List Str :=
  [str "kind", str "id", str "source_id", str "triggered_at", str "scheduled_for"]

def CONTEXT_FIELDS : List Str :=
  [str "version", str "invocation_id", str "idempotency_key", str "attempt", str "trigger"]

structure ToolExecutionTrigger where
  kind : Str
  id : Option Str
  sourceId : Option Str
  triggeredAt : Option DateTime
  scheduledFor : Option DateTime
  deriving DecidableEq

structure ToolExecutionContext where
  invocationId : Str
  attempt : Int
  trigger : ToolExecutionTrigger
  idempotencyKey : Option Str
  version : Int
  deriving DecidableEq

/-- Why a context is refused: `ProtocolError`, or an exception of an encoder. -/
inductive ContextError where
  | protocol (text : Str)
  | unicodeEncode
  | dump (e : DumpError)
  deriving DecidableEq

def optionalField (key : String) : Option Str → Dict
  | none => []
  | some s => [(.str (str key), .str s)]

theorem get_optionalField (key : String) (o : Option Str) (k : Str) :
    Dict.get (optionalField key o) k = if k = str key then o.map .str else none := by
  cases o with
  | none => simp [optionalField, Dict.get]
  | some s =>
    rw [optionalField, Dict.get_cons]
    rfl

def ToolExecutionTrigger.toDict (t : ToolExecutionTrigger) : Value :=
  .dict ([(.str (str "kind"), .str t.kind)] ++ optionalField "id" t.id ++
    optionalField "source_id" t.sourceId ++
    optionalField "triggered_at" (t.triggeredAt.map (·.isoformat)) ++
    optionalField "scheduled_for" (t.scheduledFor.map (·.isoformat)))

def ToolExecutionContext.toDict (c : ToolExecutionContext) : Value :=
  .dict ([(.str (str "version"), .int c.version), (.str (str "invocation_id"), .str c.invocationId),
      (.str (str "attempt"), .int c.attempt), (.str (str "trigger"), c.trigger.toDict)] ++
    optionalField "idempotency_key" c.idempotencyKey)

def contextText (field_name text : String) : Str :=
  str "tool execution context " ++ str field_name ++ str text

/-- `len(value.encode("utf-8"))`. -/
def utf8Length (s : Str) : Except ContextError Nat :=
  match encodeUtf8 s with
  | none => .error .unicodeEncode
  | some b => .ok b.length

def requireContextString (v : Option Value) (field_name : String) (maximum : Nat) :
    Except ContextError Str :=
  match v with
  | some (.str (c :: s)) => do
    let n ← utf8Length (c :: s)
    if maximum < n then .error (.protocol (contextText field_name " exceeds the size limit"))
    else return c :: s
  | _ => .error (.protocol (contextText field_name " must be a non-empty string"))

def optionalContextString (v : Option Value) (field_name : String) :
    Except ContextError (Option Str) :=
  match v with
  | none => .ok none
  | some .none => .ok none
  | some v => do
    let s ← requireContextString (some v) field_name MAX_CONTEXT_IDENTIFIER_BYTES
    return some s

/-- `value.replace("Z", "+00:00")`. -/
def replaceZ (s : Str) : Str := s.flatMap fun c => if c = 90 then str "+00:00" else [c]

/-- `_require_aware_timestamp`. -/
def requireAwareTimestamp (t : DateTime) (field_name : String) : Except ContextError DateTime :=
  if t.offset.isSome then .ok t
  else .error (.protocol (contextText field_name " must include a timezone"))

/-- `_parse_timestamp`. `other` reads the forms of ISO 8601 beside that of `isoformat()`. -/
def parseTimestamp (other : Str → Option DateTime) (v : Option Value)
    (field_name : String) : Except ContextError (Option DateTime) :=
  match v with
  | none => .ok none
  | some .none => .ok none
  | some (.str s) => do
    let n ← utf8Length s
    if MAX_CONTEXT_IDENTIFIER_BYTES < n then
      .error (.protocol (contextText field_name " must be an RFC 3339 timestamp"))
    else
      match fromisoformat other (replaceZ s) with
      | none => .error (.protocol (contextText field_name " must be an RFC 3339 timestamp"))
      | some t => (requireAwareTimestamp t field_name).map some
  | some _ => .error (.protocol (contextText field_name " must be an RFC 3339 timestamp"))

def onlyFields (d : Dict) (fields : List Str) : Bool :=
  d.all fun e => fields.any fun k => e.1 = .str k

/-- The check of an optional timestamp in `__post_init__`. -/
def checkTimestamp (field_name : String) : Option DateTime → Except ContextError Unit
  | none => .ok ()
  | some t => (requireAwareTimestamp t field_name).map fun _ => ()

/-- `ToolExecutionTrigger.__post_init__`. -/
def ToolExecutionTrigger.postInit (t : ToolExecutionTrigger) : Except ContextError Unit :=
  if SUPPORTED_TRIGGER_KINDS.contains t.kind then do
    let n ← utf8Length t.kind
    if MAX_TRIGGER_KIND_BYTES < n then
      .error (.protocol (str "tool execution context trigger kind exceeds the size limit"))
    else do
      let _ ← optionalContextString (t.id.map .str) "trigger.id"
      let _ ← optionalContextString (t.sourceId.map .str) "trigger.source_id"
      checkTimestamp "trigger.triggered_at" t.triggeredAt
      checkTimestamp "trigger.scheduled_for" t.scheduledFor
  else .error (.protocol (str "tool execution context trigger kind is not supported"))

def ToolExecutionTrigger.fromDict (other : Str → Option DateTime) (v : Option Value) :
    Except ContextError ToolExecutionTrigger :=
  match v with
  | some (.dict data) =>
    if onlyFields data TRIGGER_FIELDS then
      match Dict.get data (str "kind") with
      | some (.str kind) => do
        let id ← optionalContextString (Dict.get data (str "id")) "trigger.id"
        let sourceId ← optionalContextString (Dict.get data (str "source_id")) "trigger.source_id"
        let triggeredAt ←
          parseTimestamp other (Dict.get data (str "triggered_at")) "trigger.triggered_at"
        let scheduledFor ←
          parseTimestamp other (Dict.get data (str "scheduled_for")) "trigger.scheduled_for"
        (ToolExecutionTrigger.mk kind id sourceId triggeredAt scheduledFor).postInit
        return ⟨kind, id, sourceId, triggeredAt, scheduledFor⟩
      | _ => .error (.protocol (str "tool execution context trigger requires kind"))
    else
      .error (.protocol
        (str "tool execution context trigger contains reserved or unknown fields"))
  | _ => .error (.protocol (str "tool execution context trigger must be an object"))

/-- The size check on an encoded context. -/
def contextSize (py : Interpreter) (v : Value) : Except ContextError Unit :=
  match py.dumps v with
  | .error e => .error (.dump e)
  | .ok t =>
    if MAX_TOOL_EXECUTION_CONTEXT_BYTES < t.length then
      .error (.protocol (str "tool execution context exceeds the size limit"))
    else .ok ()

/-- `ToolExecutionContext.__post_init__`. -/
def ToolExecutionContext.postInit (py : Interpreter) (c : ToolExecutionContext) :
    Except ContextError Unit :=
  if c.version ≠ TOOL_EXECUTION_CONTEXT_VERSION then
    .error (.protocol (str "unsupported tool execution context version"))
  else do
    let _ ← requireContextString (some (.str c.invocationId)) "invocation_id"
      MAX_CONTEXT_IDENTIFIER_BYTES
    let _ ← optionalContextString (c.idempotencyKey.map .str) "idempotency_key"
    if c.attempt < 1 then
      .error (.protocol (str "tool execution context attempt must be a positive integer"))
    else contextSize py c.toDict

def ToolExecutionContext.fromDict (py : Interpreter) (other : Str → Option DateTime)
    (v : Value) : Except ContextError ToolExecutionContext :=
  match v with
  | .dict data => do
    contextSize py (.dict data)
    if onlyFields data CONTEXT_FIELDS then
      match Dict.get data (str "version") with
      | some (.int version) => do
        let invocationId ← requireContextString (Dict.get data (str "invocation_id"))
          "invocation_id" MAX_CONTEXT_IDENTIFIER_BYTES
        match Dict.get data (str "attempt") with
        | some (.int attempt) => do
          let trigger ← ToolExecutionTrigger.fromDict other (Dict.get data (str "trigger"))
          let idempotencyKey ←
            optionalContextString (Dict.get data (str "idempotency_key")) "idempotency_key"
          (ToolExecutionContext.mk invocationId attempt trigger idempotencyKey version).postInit py
          return ⟨invocationId, attempt, trigger, idempotencyKey, version⟩
        | _ => .error (.protocol (str "tool execution context requires an integer attempt"))
      | _ => .error (.protocol (str "tool execution context requires an integer version"))
    else .error (.protocol (str "tool execution context contains reserved or unknown fields"))
  | _ => .error (.protocol (str "tool execution context must be an object"))

end KestrelSdk.Protocol
