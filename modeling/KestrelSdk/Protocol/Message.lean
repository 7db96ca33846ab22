import KestrelSdk.Json.Plain

namespace KestrelSdk.Protocol

open Json

/-- The methods of the protocol. -/
def INITIALIZE : Str := str "initialize"
def HEALTH : Str := str "health"
def TOOLS_LIST : Str := str "tools/list"
def TOOLS_CALL : Str := str "tools/call"
def SHUTDOWN : Str := str "shutdown"
def FEATURE_EVENT : Str := str "feature/event"
def CONFIG_TRANSITION : Str := str "lifecycle/config-transition"
def HOST_INGRESS : Str := str "host/ingress"
def JSONRPC_VERSION : Str := str "2.0"

structure JsonRpcRequest where
  method : Str
  params : Dict
  id : Value

structure JsonRpcNotification where
  method : Str
  params : Dict

structure JsonRpcError where
  code : Value
  message : Str
  data : Value

/-- A response carries a result or an error. -/
inductive Answer where
  | result (v : Value)
  | error (e : JsonRpcError)

structure JsonRpcResponse where
  id : Value
  answer : Answer

inductive JsonRpcMessage where
  | request (r : JsonRpcRequest)
  | notification (n : JsonRpcNotification)
  | response (r : JsonRpcResponse)

def JsonRpcRequest.toDict (r : JsonRpcRequest) : Value :=
  .dict ([(.str (str "jsonrpc"), .str JSONRPC_VERSION), (.str (str "id"), r.id),
      (.str (str "method"), .str r.method)] ++
    if r.params.isEmpty then [] else [(.str (str "params"), .dict r.params)])

def JsonRpcNotification.toDict (n : JsonRpcNotification) : Value :=
  .dict ([(.str (str "jsonrpc"), .str JSONRPC_VERSION), (.str (str "method"), .str n.method)] ++
    if n.params.isEmpty then [] else [(.str (str "params"), .dict n.params)])

def JsonRpcError.toDict (e : JsonRpcError) : Value :=
  .dict ([(.str (str "code"), e.code), (.str (str "message"), .str e.message)] ++
    match e.data with
    | .none => []
    | v => [(.str (str "data"), v)])

def JsonRpcResponse.toDict (r : JsonRpcResponse) : Value :=
  .dict [(.str (str "jsonrpc"), .str JSONRPC_VERSION), (.str (str "id"), r.id),
    match r.answer with
    | .error e => (.str (str "error"), e.toDict)
    | .result v => (.str (str "result"), v)]

/-- `encode_message`: one newline-terminated frame. -/
def encodeMessage (py : Interpreter) (data : Value) : Except DumpError Bytes := do
  let t ← py.dumps data
  return (encodeUtf8 (t ++ [10])).getD []

/-- What `decode_message` raises: `ProtocolError` with its text, or an exception of the standard
library's decoders that it lets through. -/
inductive DecodeError where
  | protocol (text : Str)
  | unicodeDecode
  | recursion
  | digits
  deriving DecidableEq

def parseId : Value → Except DecodeError Value
  | .none => .ok .none
  | .str s => .ok (.str s)
  | .int i => .ok (.int i)
  -- `bool` is a subclass of `int`
  | .bool b => .ok (.bool b)
  | _ => .error (.protocol (str "JSON-RPC id must be a string, integer, or null"))

def requireStr (d : Dict) (key : String) : Except DecodeError Str :=
  match Dict.get d (str key) with
  | some (.str (c :: s)) => .ok (c :: s)
  | _ => .error (.protocol (str key ++ str " must be a non-empty string"))

def requireInt (d : Dict) (key : String) : Except DecodeError Value :=
  match Dict.get d (str key) with
  | some (.int i) => .ok (.int i)
  | some (.bool b) => .ok (.bool b)
  | _ => .error (.protocol (str key ++ str " must be an integer"))

/-- The part of `decode_message` after `json.loads`. -/
def parseMessage (raw : Value) : Except DecodeError JsonRpcMessage :=
  match raw with
  | .dict raw =>
    match Dict.get raw (str "jsonrpc") with
    | some (.str v) =>
      if v = JSONRPC_VERSION then
        if Dict.has raw (str "method") then do
          let method ← requireStr raw "method"
          let params ←
            match Dict.get raw (str "params") with
            | none => .ok []
            | some .none => .ok []
            | some (.dict d) => .ok d
            | some _ => .error (.protocol (str "JSON-RPC params must be an object"))
          match Dict.get raw (str "id") with
          | some id => do
            let id ← parseId id
            return .request ⟨method, params, id⟩
          | none => return .notification ⟨method, params⟩
        else
          match Dict.get raw (str "id") with
          | none => .error (.protocol (str "JSON-RPC response requires id"))
          | some id =>
            match Dict.get raw (str "error") with
            | some (.dict e) => do
              let id ← parseId id
              let code ← requireInt e "code"
              let message ← requireStr e "message"
              return .response ⟨id, .error ⟨code, message, (Dict.get e (str "data")).getD .none⟩⟩
            | some _ => .error (.protocol (str "JSON-RPC error must be an object"))
            | none =>
              match Dict.get raw (str "result") with
              | none => .error (.protocol (str "JSON-RPC response requires result or error"))
              | some v => do
                let id ← parseId id
                return .response ⟨id, .result v⟩
      else .error (.protocol (str "JSON-RPC frame must declare jsonrpc='2.0'"))
    | _ => .error (.protocol (str "JSON-RPC frame must declare jsonrpc='2.0'"))
  | _ => .error (.protocol (str "JSON-RPC frame must be an object"))

/-- `decode_message`. -/
def decodeMessage (py : Interpreter) (line : Bytes) : Except DecodeError JsonRpcMessage :=
  match decodeUtf8 line with
  | none => .error .unicodeDecode
  | some text =>
    match py.loads text with
    | .ok raw => parseMessage raw
    | .error (.decode msg) => .error (.protocol (str "invalid JSON-RPC frame: " ++ str msg))
    | .error .recursion => .error .recursion
    | .error .digits => .error .digits

/-- The bytes of a frame: its text, all ASCII, and a newline. -/
theorem encodeMessage_bytes {py : Interpreter} {data : Value} {b : Bytes}
    (h : encodeMessage py data = .ok b) :
    ∃ t, py.dumps data = .ok t ∧ Printable t ∧ b = (t ++ [10]).map UInt8.ofNat ∧
      decodeUtf8 b = some (t ++ [10]) := by
  unfold encodeMessage at h
  cases ht : py.dumps data with
  | error e =>
    rw [ht] at h
    cases h
  | ok t =>
    have hp := dump_printable data ht
    have hascii : ∀ c ∈ t ++ [10], c < 0x80 := by
      intro c hc
      rcases List.mem_append.1 hc with hc | hc
      · have := hp c hc
        omega
      · simp only [List.mem_singleton] at hc
        omega
    obtain ⟨h1, h2⟩ := encodeUtf8_ascii hascii
    simp only [ht, h1, bind, Except.bind, Option.getD_some] at h
    cases h
    exact ⟨t, rfl, hp, rfl, h2⟩

/-- What a peer reads in a frame: its decoded value, or `RecursionError` where the value nests
deeper than the peer's decoder goes. -/
theorem decodeMessage_encodeMessage {py peer : Interpreter} {data : Value} {b : Bytes}
    (h : encodeMessage py data = .ok b) :
    decodeMessage peer b =
      if depth data ≤ peer.nesting then parseMessage (image peer.floatOf data)
      else .error .recursion := by
  obtain ⟨t, ht, -, -, hb⟩ := encodeMessage_bytes h
  have hl := peer.loads_dump ht (s := [10]) (.inr rfl)
  unfold decodeMessage
  rw [hb]
  simp only [hl]
  by_cases hd : depth data ≤ peer.nesting
  · simp only [hd, if_true]
  · simp only [hd, if_false]

theorem image_result (f : Str → PyFloat) (id v : Value) :
    image f (JsonRpcResponse.toDict ⟨id, .result v⟩) =
      JsonRpcResponse.toDict ⟨image f id, .result (image f v)⟩ := by
  have h1 : imageStr (str "jsonrpc") = str "jsonrpc" := by decide
  have h2 : imageStr (str "id") = str "id" := by decide
  have h3 : imageStr (str "result") = str "result" := by decide
  have h4 : imageStr JSONRPC_VERSION = JSONRPC_VERSION := by decide
  have h5 : Key.str (str "jsonrpc") ≠ Key.str (str "id") := by decide
  have h6 : Key.str (str "jsonrpc") ≠ Key.str (str "result") := by decide
  have h7 : Key.str (str "id") ≠ Key.str (str "result") := by decide
  simp only [JsonRpcResponse.toDict, image, imageEntries, Key.text, h1, h2, h3, h4, Dict.set, h5,
    h6, h7, if_false]

theorem image_error (f : Str → PyFloat) (id : Value) (code : Int) (message : Str) :
    image f (JsonRpcResponse.toDict ⟨id, .error ⟨.int code, message, .none⟩⟩) =
      JsonRpcResponse.toDict ⟨image f id, .error ⟨.int code, imageStr message, .none⟩⟩ := by
  have h1 : imageStr (str "jsonrpc") = str "jsonrpc" := by decide
  have h2 : imageStr (str "id") = str "id" := by decide
  have h3 : imageStr (str "error") = str "error" := by decide
  have h4 : imageStr JSONRPC_VERSION = JSONRPC_VERSION := by decide
  have h5 : Key.str (str "jsonrpc") ≠ Key.str (str "id") := by decide
  have h6 : Key.str (str "jsonrpc") ≠ Key.str (str "error") := by decide
  have h7 : Key.str (str "id") ≠ Key.str (str "error") := by decide
  have h8 : imageStr (str "code") = str "code" := by decide
  have h9 : imageStr (str "message") = str "message" := by decide
  have h10 : Key.str (str "code") ≠ Key.str (str "message") := by decide
  simp only [JsonRpcResponse.toDict, JsonRpcError.toDict, List.append_nil, image, imageEntries,
    Key.text, h1, h2, h3, h4, h8, h9, h10, Dict.set, h5, h6, h7, if_false]

/-- The identifiers that `_parse_id` lets through. -/
def IsId (v : Value) : Prop := parseId v = .ok v

theorem parseMessage_result {id : Value} (hid : IsId id) (v : Value) :
    parseMessage (JsonRpcResponse.toDict ⟨id, .result v⟩) = .ok (.response ⟨id, .result v⟩) := by
  have h : parseId id = .ok id := hid
  simp only [JsonRpcResponse.toDict, parseMessage, Dict.get_cons, Dict.has]
  simp only [show str "id" ≠ str "jsonrpc" from by decide, show str "method" ≠ str "jsonrpc" from by decide,
    show str "method" ≠ str "id" from by decide, show str "method" ≠ str "result" from by decide,
    show str "error" ≠ str "jsonrpc" from by decide, show str "error" ≠ str "id" from by decide,
    show str "error" ≠ str "result" from by decide, show str "result" ≠ str "jsonrpc" from by decide,
    show str "result" ≠ str "id" from by decide, if_true, if_false]
  simp [Dict.get, h]

/-- An error response is read back exactly when its message is not empty. -/
theorem parseMessage_error {id : Value} (hid : IsId id) (code : Int) (message : Str) :
    parseMessage (JsonRpcResponse.toDict ⟨id, .error ⟨.int code, message, .none⟩⟩) =
      if message = [] then .error (.protocol (str "message must be a non-empty string"))
      else .ok (.response ⟨id, .error ⟨.int code, message, .none⟩⟩) := by
  have h : parseId id = .ok id := hid
  have hc : requireInt [(.str (str "code"), .int code), (.str (str "message"), .str message)]
      "code" = .ok (.int code) := by
    simp [requireInt, Dict.get_cons]
  have hm : requireStr [(.str (str "code"), .int code), (.str (str "message"), .str message)]
      "message" = if message = [] then
        .error (.protocol (str "message must be a non-empty string")) else .ok message := by
    have hne : str "message" ≠ str "code" := by decide
    cases message with
    | nil => simp [requireStr, Dict.get_cons, str]
    | cons c s => simp [requireStr, Dict.get_cons, hne]
  have hd : Dict.get [(.str (str "code"), .int code), (.str (str "message"), .str message)]
      (str "data") = none := by
    have h1 : str "data" ≠ str "code" := by decide
    have h2 : str "data" ≠ str "message" := by decide
    simp [h1, h2, Dict.get]
  simp only [JsonRpcResponse.toDict, JsonRpcError.toDict, List.append_nil, parseMessage,
    Dict.get_cons, Dict.has]
  simp only [show str "id" ≠ str "jsonrpc" from by decide, show str "method" ≠ str "jsonrpc" from by decide,
    show str "method" ≠ str "id" from by decide, show str "method" ≠ str "error" from by decide,
    show str "error" ≠ str "jsonrpc" from by decide, show str "error" ≠ str "id" from by decide,
    if_true, if_false, hc, hm, hd, h]
  by_cases hmsg : message = []
  · simp [Dict.get, hmsg, bind, Except.bind]
  · simp [Dict.get, hmsg, bind, Except.bind, pure, Except.pure]

theorem imageEntries_isEmpty (f : Str → PyFloat) {d : Nat} {es : Dict} {t : Str}
    (h : dumpEntries d es = .ok t) : (imageEntries f [] es).isEmpty = es.isEmpty := by
  have hset : ∀ (acc : Dict) k v, (acc.set k v).isEmpty = false := by
    intro acc k v
    cases acc with
    | nil => rfl
    | cons e acc =>
      obtain ⟨l, w⟩ := e
      simp only [Dict.set]
      split <;> rfl
  have hne : ∀ (es : Dict) (acc : Dict), acc.isEmpty = false →
      (imageEntries f acc es).isEmpty = false := by
    intro es
    induction es with
    | nil => exact fun acc h => by simpa [imageEntries] using h
    | cons e es ih =>
      intro acc hacc
      obtain ⟨k, v⟩ := e
      simp only [imageEntries]
      split
      · exact ih _ (hset _ _ _)
      · exact ih _ hacc
  cases es with
  | nil => rfl
  | cons e es =>
    obtain ⟨k, v⟩ := e
    obtain ⟨q, -, -, hq, -⟩ := dumpEntries_cons h
    simp only [imageEntries, hq, List.isEmpty_cons]
    exact hne es _ (hset _ _ _)

end KestrelSdk.Protocol
