import KestrelSdk.Protocol.Message

namespace KestrelSdk.Protocol

open Json

def JsonRpcMessage.toDict : JsonRpcMessage → Value
  | .request r => r.toDict
  | .notification n => n.toDict
  | .response r => r.toDict

/-- A text that JSON keeps. -/
def Scalars (s : Str) : Prop := ∀ c ∈ s, IsScalar c

/-- An answer of JSON values; the code of an error is an integer and its message is not empty. -/
def Answer.WellFormed (f : Str → PyFloat) : Answer → Prop
  | .result v => Plain f v
  | .error e => (∃ i : Int, e.code = .int i) ∧ e.message ≠ [] ∧ Scalars e.message ∧ Plain f e.data

/-- A message of JSON values with a non-empty method. -/
def JsonRpcMessage.WellFormed (f : Str → PyFloat) : JsonRpcMessage → Prop
  | .request r =>
    r.method ≠ [] ∧ Scalars r.method ∧ PlainEntries f r.params ∧ IsId r.id ∧ Plain f r.id
  | .notification n => n.method ≠ [] ∧ Scalars n.method ∧ PlainEntries f n.params
  | .response r => IsId r.id ∧ Plain f r.id ∧ r.answer.WellFormed f

/-- The names that frames use as keys. -/
def fieldNames : List String := ["jsonrpc", "id", "method", "params", "result", "error", "code", "message", "data"]

theorem fieldNames_distinct : (fieldNames.map str).Nodup := by decide

theorem fieldNames_scalars {s : String} (h : s ∈ fieldNames) : Scalars (str s) := by
  have key : ∀ s ∈ fieldNames, ∀ c ∈ str s, IsScalar c := by decide
  exact key s h

variable {f : Str → PyFloat}

/-- A field of a frame beside fields of other names. -/
theorem plainEntries_field {name : String} {v : Value} {es : Dict} (hn : name ∈ fieldNames)
    (hk : Key.str (str name) ∉ es.map Prod.fst) (hv : Plain f v) (hes : PlainEntries f es) :
    PlainEntries f ((.str (str name), v) :: es) := by
  simp only [PlainEntries]
  exact ⟨⟨str name, rfl, fieldNames_scalars hn⟩, hk, hv, hes⟩

theorem plain_str {s : Str} (h : Scalars s) : Plain f (.str s) := by
  simp only [Plain]
  exact h

theorem plain_version : Plain f (.str JSONRPC_VERSION) := by
  have h : ∀ c ∈ JSONRPC_VERSION, IsScalar c := by decide
  exact plain_str h

theorem plain_params {params : Dict} (hp : PlainEntries f params) :
    PlainEntries f (if params.isEmpty then [] else [(.str (str "params"), .dict params)]) := by
  split
  · simp only [PlainEntries]
  · refine plainEntries_field (by decide) (by simp) ?_ (by simp only [PlainEntries])
    simpa only [Plain] using hp

/-- The object of a well-formed message is one that JSON keeps. -/
theorem JsonRpcMessage.plain_toDict {m : JsonRpcMessage} (h : m.WellFormed f) :
    Plain f m.toDict := by
  have hnil : PlainEntries f [] := by simp only [PlainEntries]
  cases m with
  | request r =>
    obtain ⟨-, hm, hp, -, hid⟩ := h
    simp only [JsonRpcMessage.toDict, JsonRpcRequest.toDict, Plain, List.cons_append, List.nil_append]
    have hmethod : Plain f (.str r.method) := plain_str hm
    refine plainEntries_field (by decide) ?_ plain_version (plainEntries_field (by decide) ?_ hid
      (plainEntries_field (by decide) ?_ hmethod (plain_params hp)))
    · split <;> simp +decide
    · split <;> simp +decide
    · split <;> simp +decide
  | notification n =>
    obtain ⟨-, hm, hp⟩ := h
    simp only [JsonRpcMessage.toDict, JsonRpcNotification.toDict, Plain, List.cons_append,
      List.nil_append]
    have hmethod : Plain f (.str n.method) := plain_str hm
    refine plainEntries_field (by decide) ?_ plain_version
      (plainEntries_field (by decide) ?_ hmethod (plain_params hp))
    · split <;> simp +decide
    · split <;> simp +decide
  | response r =>
    obtain ⟨id, answer⟩ := r
    obtain ⟨-, hid, ha⟩ := h
    cases answer with
    | result v =>
      simp only [JsonRpcMessage.toDict, JsonRpcResponse.toDict, Plain]
      exact plainEntries_field (by decide) (by simp +decide) plain_version
        (plainEntries_field (by decide) (by simp +decide) hid
          (plainEntries_field (by decide) (by simp) ha hnil))
    | error e =>
      obtain ⟨code, message, data⟩ := e
      obtain ⟨⟨i, rfl⟩, -, hmsg, hdata⟩ := ha
      have hcode : Plain f (.int i) := by simp only [Plain]
      have hmessage : Plain f (.str message) := plain_str hmsg
      have herror : Plain f (JsonRpcError.toDict ⟨.int i, message, data⟩) := by
        simp only [JsonRpcError.toDict, Plain, List.cons_append, List.nil_append]
        split
        · exact plainEntries_field (by decide) (by simp +decide) hcode
            (plainEntries_field (by decide) (by simp) hmessage hnil)
        · exact plainEntries_field (by decide) (by simp +decide) hcode
            (plainEntries_field (by decide) (by simp +decide) hmessage
              (plainEntries_field (by decide) (by simp) hdata hnil))
      simp only [JsonRpcMessage.toDict, JsonRpcResponse.toDict, Plain]
      exact plainEntries_field (by decide) (by simp +decide) plain_version
        (plainEntries_field (by decide) (by simp +decide) hid
          (plainEntries_field (by decide) (by simp) herror hnil))

theorem requireStr_field {d : Dict} {key : String} {s : Str} (h : Dict.get d (str key) = some (.str s))
    (hs : s ≠ []) : requireStr d key = .ok s := by
  unfold requireStr
  rw [h]
  cases s with
  | nil => exact absurd rfl hs
  | cons c s => rfl

/-- What the decoder makes of the parameters of a method frame. -/
def readParams : Option Value → Except DecodeError Dict
  | none => .ok []
  | some .none => .ok []
  | some (.dict d) => .ok d
  | some _ => .error (.protocol (str "JSON-RPC params must be an object"))

variable {raw : Dict}

/-- An object with a method is a request or a notification. -/
theorem parse_method (method : Str) (params : Dict)
    (hv : raw.get (str "jsonrpc") = some (.str JSONRPC_VERSION))
    (hm : raw.get (str "method") = some (.str method)) (hne : method ≠ [])
    (hp : readParams (raw.get (str "params")) = .ok params) :
    parseMessage (.dict raw) =
      match raw.get (str "id") with
      | some id => do
        let id ← parseId id
        return .request ⟨method, params, id⟩
      | none => .ok (.notification ⟨method, params⟩) := by
  have hmethod := requireStr_field hm hne
  unfold readParams at hp
  split at hp
  · rename_i hpar
    cases hp
    simp only [parseMessage, hv, if_true, Dict.has, hm, Option.isSome_some, hmethod, hpar]
    cases raw.get (str "id") <;> rfl
  · rename_i hpar
    cases hp
    simp only [parseMessage, hv, if_true, Dict.has, hm, Option.isSome_some, hmethod, hpar]
    cases raw.get (str "id") <;> rfl
  · rename_i hpar
    cases hp
    simp only [parseMessage, hv, if_true, Dict.has, hm, Option.isSome_some, hmethod, hpar]
    cases raw.get (str "id") <;> rfl
  · cases hp

/-- An object with an error and no method is an error response. -/
theorem parse_error {id : Value} {e : Dict} {code : Int} {message : Str}
    (hv : raw.get (str "jsonrpc") = some (.str JSONRPC_VERSION)) (hm : raw.get (str "method") = none)
    (hid : raw.get (str "id") = some id) (hi : IsId id)
    (he : raw.get (str "error") = some (.dict e)) (hc : Dict.get e (str "code") = some (.int code))
    (hmsg : Dict.get e (str "message") = some (.str message)) (hne : message ≠ []) :
    parseMessage (.dict raw) =
      .ok (.response ⟨id, .error ⟨.int code, message, (Dict.get e (str "data")).getD .none⟩⟩) := by
  have hid' : parseId id = .ok id := hi
  have hcode : requireInt e "code" = .ok (.int code) := by
    unfold requireInt
    rw [hc]
  simp only [parseMessage, hv, if_true, Dict.has, hm, Option.isSome_none, Bool.false_eq_true,
    if_false, hid, he, hid', hcode, requireStr_field hmsg hne]
  rfl

/-- An object with a result and neither method nor error is a result. -/
theorem parse_result {id v : Value}
    (hv : raw.get (str "jsonrpc") = some (.str JSONRPC_VERSION)) (hm : raw.get (str "method") = none)
    (hid : raw.get (str "id") = some id) (hi : IsId id) (he : raw.get (str "error") = none)
    (hr : raw.get (str "result") = some v) :
    parseMessage (.dict raw) = .ok (.response ⟨id, .result v⟩) := by
  have hid' : parseId id = .ok id := hi
  simp only [parseMessage, hv, if_true, Dict.has, hm, Option.isSome_none, Bool.false_eq_true,
    if_false, hid, he, hid', hr]
  rfl

/-- The value of a field after a field of another name. -/
theorem get_field {k l : String} (hkl : str k ≠ str l) (v : Value) (d : Dict) :
    Dict.get ((.str (str l), v) :: d) (str k) = Dict.get d (str k) := by
  rw [Dict.get_cons, if_neg hkl]

theorem get_field_self (k : String) (v : Value) (d : Dict) :
    Dict.get ((.str (str k), v) :: d) (str k) = some v := by
  rw [Dict.get_cons, if_pos rfl]

/-- Empty parameters are left out, and read back as empty. -/
theorem read_params (params : Dict) :
    readParams (Dict.get (if params.isEmpty then [] else [(.str (str "params"), .dict params)])
      (str "params")) = .ok params := by
  cases params with
  | nil => rfl
  | cons e d =>
    show readParams (Dict.get [(.str (str "params"), .dict (e :: d))] (str "params")) = _
    rw [get_field_self]
    rfl

theorem get_after_params {k : String} (hk : str k ≠ str "params") (params : Dict) :
    Dict.get (if params.isEmpty then [] else [(.str (str "params"), .dict params)]) (str k) = none := by
  split
  · rfl
  · rw [get_field hk]
    rfl

/-- The keys of a frame tell the three kinds of message apart. -/
theorem JsonRpcMessage.parse_toDict {m : JsonRpcMessage} (h : m.WellFormed f) :
    parseMessage m.toDict = .ok m := by
  cases m with
  | request r =>
    obtain ⟨method, params, id⟩ := r
    obtain ⟨hm, -, -, hid, -⟩ := h
    have hid : parseId id = .ok id := hid
    simp only [JsonRpcMessage.toDict, JsonRpcRequest.toDict, List.cons_append, List.nil_append]
    rw [parse_method method params (get_field_self _ _ _) ?_ hm ?_,
      get_field (by decide), get_field_self]
    · simp only [hid]
      rfl
    · rw [get_field (by decide), get_field (by decide), get_field_self]
    · rw [get_field (by decide), get_field (by decide), get_field (by decide)]
      exact read_params params
  | notification n =>
    obtain ⟨method, params⟩ := n
    obtain ⟨hm, -, -⟩ := h
    simp only [JsonRpcMessage.toDict, JsonRpcNotification.toDict, List.cons_append, List.nil_append]
    rw [parse_method method params (get_field_self _ _ _) ?_ hm ?_,
      get_field (by decide), get_field (by decide), get_after_params (by decide)]
    · rw [get_field (by decide), get_field_self]
    · rw [get_field (by decide), get_field (by decide)]
      exact read_params params
  | response r =>
    obtain ⟨id, answer⟩ := r
    obtain ⟨hid, -, ha⟩ := h
    cases answer with
    | result v => exact parseMessage_result hid v
    | error e =>
      obtain ⟨code, message, data⟩ := e
      obtain ⟨⟨i, rfl⟩, hne, -, -⟩ := ha
      obtain ⟨es, hes, hcode, hmessage, hdata⟩ : ∃ es : Dict,
          JsonRpcError.toDict ⟨.int i, message, data⟩ = .dict es ∧
          Dict.get es (str "code") = some (.int i) ∧
          Dict.get es (str "message") = some (.str message) ∧
          (Dict.get es (str "data")).getD .none = data := by
        refine ⟨_, rfl, get_field_self _ _ _, ?_, ?_⟩
        · rw [List.cons_append, List.cons_append, get_field (by decide), get_field_self]
        · rw [List.cons_append, List.cons_append, get_field (by decide), get_field (by decide)]
          cases data with
          | none => rfl
          | _ => exact congrArg (Option.getD · .none) (get_field_self "data" _ [])
      simp only [JsonRpcMessage.toDict, JsonRpcResponse.toDict, hes]
      have herror : Dict.get [(.str (str "jsonrpc"), .str JSONRPC_VERSION), (.str (str "id"), id),
          (.str (str "error"), .dict es)] (str "error") = some (.dict es) := by
        rw [get_field (by decide), get_field (by decide), get_field_self]
      have hid' : Dict.get [(.str (str "jsonrpc"), .str JSONRPC_VERSION), (.str (str "id"), id),
          (.str (str "error"), .dict es)] (str "id") = some id := by
        rw [get_field (by decide), get_field_self]
      have hmethod : Dict.get [(.str (str "jsonrpc"), .str JSONRPC_VERSION), (.str (str "id"), id),
          (.str (str "error"), .dict es)] (str "method") = none := by
        rw [get_field (by decide), get_field (by decide), get_field (by decide)]
        rfl
      rw [parse_error (get_field_self _ _ _) hmethod hid' hid herror hcode hmessage hne, hdata]

/-- A well-formed message within the limits of the codec is framed as one line, and is read back as
it was. -/
theorem decode_encode {py peer : Interpreter} {m : JsonRpcMessage} (h : m.WellFormed peer.floatOf)
    (hs : Short m.toDict) (hd : depth m.toDict ≤ py.nesting) (hd' : depth m.toDict ≤ peer.nesting) :
    ∃ line, encodeMessage py m.toDict = .ok (line ++ [10]) ∧ 10 ∉ line ∧
      decodeMessage peer (line ++ [10]) = .ok m := by
  have hplain := JsonRpcMessage.plain_toDict h
  obtain ⟨t, ht⟩ := dump_total _ _ _ hplain hs hd
  obtain ⟨b, hb⟩ : ∃ b, encodeMessage py m.toDict = .ok b := by
    unfold encodeMessage Interpreter.dumps
    rw [ht]
    exact ⟨_, rfl⟩
  obtain ⟨t, -, hp, hbytes, -⟩ := encodeMessage_bytes hb
  have hline : b = t.map UInt8.ofNat ++ [10] := by
    rw [hbytes, List.map_append]
    rfl
  refine ⟨t.map UInt8.ofNat, hline ▸ hb, fun hm => ?_, ?_⟩
  · obtain ⟨c, hc, he⟩ := List.mem_map.1 hm
    have hrange := hp c hc
    have hnat := congrArg UInt8.toNat he
    rw [UInt8.toNat_ofNat'] at hnat
    have : (10 : UInt8).toNat = 10 := rfl
    omega
  · rw [← hline, decodeMessage_encodeMessage hb, if_pos hd', image_plain _ _ hplain]
    exact JsonRpcMessage.parse_toDict h

/-- An error response to nobody, with data. -/
def lostError : JsonRpcMessage :=
  .response ⟨.none, .error ⟨.int (-32603), str "internal error", .list [.none]⟩⟩

theorem decode_encode_lost_error :
    ∃ line, encodeMessage .floatless lostError.toDict = .ok (line ++ [10]) ∧ 10 ∉ line ∧
      decodeMessage .floatless (line ++ [10]) = .ok lostError := by
  have hmessage : str "internal error" ≠ [] ∧ ∀ c ∈ str "internal error", IsScalar c := by decide
  have hdata : Plain (Interpreter.floatOf .floatless) (.list [.none]) := by
    simp [Plain, PlainItems]
  have hwell : lostError.WellFormed (Interpreter.floatOf .floatless) :=
    ⟨rfl, by simp only [Plain], ⟨-32603, rfl⟩, hmessage.1, hmessage.2, hdata⟩
  have hshort : Short lostError.toDict := by
    have hdigits : (natText (-32603 : Int).natAbs).length ≤ maxStrDigits := by decide
    simp only [lostError, JsonRpcMessage.toDict, JsonRpcResponse.toDict, JsonRpcError.toDict,
      List.cons_append, List.nil_append, Short, ShortEntries, ShortItems, and_true, true_and]
    exact hdigits
  exact decode_encode hwell hshort (by decide) (by decide)

end KestrelSdk.Protocol
