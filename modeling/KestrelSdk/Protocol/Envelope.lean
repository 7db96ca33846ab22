import KestrelSdk.Order.Checks
import KestrelSdk.Protocol.Ingress
import KestrelSdk.Protocol.Wire

/-! The frames around the payloads of host ingress. -/

namespace KestrelSdk.Protocol

open Json

mutual
/-- The text of a value does not depend on the levels that the encoder has left. -/
theorem dump_of_depth : ∀ (v : Value) {d n : Nat} {t : Str}, dump d v = .ok t → depth v ≤ n →
    dump n v = .ok t
  | .none, _, _, _, h, _ => h
  | .bool _, _, _, _, h, _ => h
  | .int _, _, _, _, h, _ => h
  | .float _, _, _, _, h, _ => h
  | .str _, _, _, _, h, _ => h
  | .object _, _, _, _, h, _ => by cases h
  | .list l, d, n, t, h, hn => by
    obtain ⟨e, ts, rfl, hts, rfl⟩ := dump_list h
    simp only [depth] at hn
    cases n with
    | zero => omega
    | succ m =>
      have hm : depthItems l ≤ m := by omega
      simp only [dump, dumpItems_of_depth l hts hm]
      rfl
  | .dict es, d, n, t, h, hn => by
    obtain ⟨e, ts, rfl, hts, rfl⟩ := dump_dict h
    simp only [depth] at hn
    cases n with
    | zero => omega
    | succ m =>
      have hm : depthEntries es ≤ m := by omega
      simp only [dump, dumpEntries_of_depth es hts hm]
      rfl
  termination_by structural v => v

theorem dumpItems_of_depth : ∀ (l : List Value) {d n : Nat} {t : Str}, dumpItems d l = .ok t →
    depthItems l ≤ n → dumpItems n l = .ok t
  | [], _, _, _, h, _ => h
  | v :: vs, d, n, t, h, hn => by
    obtain ⟨u, us, hu, hus, rfl⟩ := dumpItems_cons h
    simp only [depthItems] at hn
    have hv : depth v ≤ n := by omega
    have hvs : depthItems vs ≤ n := by omega
    simp only [dumpItems, dump_of_depth v hu hv, dumpItems_of_depth vs hus hvs]
    rfl
  termination_by structural l => l

theorem dumpEntries_of_depth : ∀ (es : List (Key × Value)) {d n : Nat} {t : Str},
    dumpEntries d es = .ok t → depthEntries es ≤ n → dumpEntries n es = .ok t
  | [], _, _, _, h, _ => h
  | (k, v) :: es, d, n, t, h, hn => by
    obtain ⟨q, u, us, hq, hu, hus, rfl⟩ := dumpEntries_cons h
    simp only [depthEntries] at hn
    have hv : depth v ≤ n := by omega
    have hes : depthEntries es ≤ n := by omega
    simp only [dumpEntries, hq, dump_of_depth v hu hv, dumpEntries_of_depth es hus hes]
    rfl
  termination_by structural es => es
end

mutual
/-- What `_validate_host_ingress_json` lets through nests no deeper than it goes. -/
theorem depth_le_of_validJson : ∀ (v : Value) {n : Nat}, validJson (some n) v = .ok () →
    depth v ≤ n + 1
  | .none, _, _ => Nat.zero_le _
  | .bool _, _, _ => Nat.zero_le _
  | .int _, _, _ => Nat.zero_le _
  | .float _, _, _ => Nat.zero_le _
  | .str _, _, _ => Nat.zero_le _
  | .object _, _, h => by cases h
  | .list l, n, h => by
    simp only [validJson] at h
    have hl := depthItems_le_of_validItems l h
    simp only [depth]
    omega
  | .dict es, n, h => by
    simp only [validJson] at h
    have hl := depthEntries_le_of_validEntries es h
    simp only [depth]
    omega
  termination_by structural v => v

theorem depthItems_le_of_validItems : ∀ (l : List Value) {n : Nat}, validItems n l = .ok () →
    depthItems l ≤ n
  | [], _, _ => Nat.zero_le _
  | v :: vs, n, h => by
    obtain ⟨_, hv, hvs⟩ := Checks.bind_ok_iff.1 h
    have hl := depthItems_le_of_validItems vs hvs
    have hd : depth v ≤ n := by
      by_cases hn : n = 0
      · rw [if_pos hn] at hv
        cases v <;> cases hv
      · rw [if_neg hn] at hv
        have := depth_le_of_validJson v hv
        omega
    simp only [depthItems]
    omega
  termination_by structural l => l

theorem depthEntries_le_of_validEntries : ∀ (es : List (Key × Value)) {n : Nat},
    validEntries n es = .ok () → depthEntries es ≤ n
  | [], _, _ => Nat.zero_le _
  | (k, v) :: es, n, h => by
    simp only [validEntries] at h
    cases k with
    | str _ =>
      obtain ⟨_, -, h⟩ := Checks.bind_ok_iff.1 h
      obtain ⟨_, hv, hes⟩ := Checks.bind_ok_iff.1 h
      have hl := depthEntries_le_of_validEntries es hes
      have hd : depth v ≤ n := by
        by_cases hn : n = 0
        · rw [if_pos hn] at hv
          cases v <;> cases hv
        · rw [if_neg hn] at hv
          have := depth_le_of_validJson v hv
          omega
      simp only [depthEntries]
      omega
    | _ => cases h
  termination_by structural es => es
end

/-- What `validate_host_ingress_payload` has checked of a payload that it returns. -/
theorem validPayload_iff {py : Interpreter} {v w : Value} :
    validateHostIngressPayload py v = .ok w ↔
      w = v ∧ validJson (some MAX_HOST_INGRESS_PAYLOAD_DEPTH) v = .ok () ∧
        ∃ t, py.dumps v = .ok t ∧ t.length ≤ MAX_HOST_INGRESS_PAYLOAD_BYTES := by
  unfold validateHostIngressPayload
  rw [Checks.bind_ok_iff]
  constructor
  · intro ⟨_, hv, h⟩
    cases ht : py.dumps v with
    | error e =>
      rw [ht] at h
      cases h
    | ok t =>
      simp only [ht] at h
      split at h
      · cases h
      · rename_i hlen
        cases h
        exact ⟨rfl, hv, t, rfl, Nat.le_of_not_lt hlen⟩
  · intro ⟨hw, hv, t, ht, hlen⟩
    refine ⟨(), hv, ?_⟩
    simp only [ht, if_neg (Nat.not_lt.2 hlen), hw]
    rfl

/-- The bytes of a payload. -/
def payloadLength (py : Interpreter) (v : Value) : Nat :=
  match py.dumps v with
  | .ok t => t.length
  | .error _ => 0

/-- A payload that one side accepts is one that the other accepts, with the same bytes. -/
theorem validPayload_peer {py peer : Interpreter} {v w : Value}
    (h : validateHostIngressPayload py v = .ok w)
    (hn : MAX_HOST_INGRESS_PAYLOAD_DEPTH < peer.nesting) :
    validateHostIngressPayload peer v = .ok v := by
  obtain ⟨-, hv, t, ht, hlen⟩ := validPayload_iff.1 h
  have hd := depth_le_of_validJson v hv
  exact validPayload_iff.2 ⟨rfl, hv, t, dump_of_depth v ht (by omega), hlen⟩

theorem slugTail_chars : ∀ (s : Str), slugTail s = true → ∀ c ∈ s, isSlugChar c = true ∨ c = 45
  | [], _, c, hc => absurd hc List.not_mem_nil
  | [x], h, c, hc => by
    obtain rfl := List.mem_singleton.1 hc
    exact .inl h
  | x :: y :: s, h, c, hc => by
    unfold slugTail at h
    split at h
    · rename_i hx
      obtain ⟨hy, hs⟩ := Bool.and_eq_true_iff.1 h
      rcases List.mem_cons.1 hc with rfl | hc
      · exact .inr hx
      · rcases List.mem_cons.1 hc with rfl | hc
        · exact .inl hy
        · exact slugTail_chars s hs c hc
    · obtain ⟨hx, hs⟩ := Bool.and_eq_true_iff.1 h
      rcases List.mem_cons.1 hc with rfl | hc
      · exact .inl hx
      · exact slugTail_chars (y :: s) hs c hc

theorem slug_chars {s : Str} (h : isSlug s = true) : ∀ c ∈ s, isSlugChar c = true ∨ c = 45 := by
  intro c hc
  cases s with
  | nil => cases h
  | cons x s =>
    obtain ⟨hx, hs⟩ := Bool.and_eq_true_iff.1 h
    rcases List.mem_cons.1 hc with rfl | hc
    · left
      simp only [isSlugChar, hx, Bool.true_or]
    · exact slugTail_chars s hs c hc

theorem slugChar_range {c : Nat} (h : isSlugChar c = true ∨ c = 45) :
    c = 45 ∨ (48 ≤ c ∧ c ≤ 57) ∨ 97 ≤ c ∧ c ≤ 122 := by
  rcases h with h | h
  · simp only [isSlugChar, isLower, isDigit, Bool.or_eq_true, Bool.and_eq_true,
      decide_eq_true_eq] at h
    omega
  · exact .inl h

theorem escape_slugChar {c : Nat} (h : isSlugChar c = true ∨ c = 45) : escape c = [c] := by
  have hrange := slugChar_range h
  unfold escape
  rw [if_neg (by omega), if_neg (by omega), if_neg (by omega), if_neg (by omega),
    if_neg (by omega), if_neg (by omega), if_neg (by omega), if_pos (by omega)]

/-- A name stands on the wire as it is. -/
theorem length_dumpStr_slug {s : Str} (h : isSlug s = true) :
    (dumpStr s).length = s.length + 2 := by
  have hchars := slug_chars h
  have hflat : s.flatMap escape = s := by
    rw [List.flatMap_congr fun c hc => escape_slugChar (hchars c hc)]
    exact List.flatMap_singleton' s
  unfold dumpStr
  rw [hflat, List.length_cons, List.length_append, List.length_singleton]

/-- The request of `call_host_ingress`. -/
def ingressRequest (id : Nat) (name : Str) (payload : Value) : JsonRpcRequest :=
  ⟨HOST_INGRESS, [(.str (str "name"), .str name), (.str (str "payload"), payload)], .int id⟩

/-- The bytes of a frame, its newline aside. -/
def lineLength (b : Bytes) : Nat := b.length - 1

theorem lineLength_of_dumps {py : Interpreter} {data : Value} {b : Bytes} {t : Str}
    (hb : encodeMessage py data = .ok b) (ht : py.dumps data = .ok t) : lineLength b = t.length := by
  obtain ⟨u, hu, -, rfl, -⟩ := encodeMessage_bytes hb
  obtain rfl := Except.ok.inj (ht.symm.trans hu)
  unfold lineLength
  rw [List.length_map, List.length_append, List.length_singleton, Nat.add_sub_cancel]

theorem dumpInt_nat {id : Nat} {u : Str} (h : dumpInt (id : Int) = .ok u) : u = natText id := by
  unfold dumpInt at h
  split at h
  · cases h
  · cases h
    rw [if_neg (by omega)]
    rfl

theorem toDict_ingressRequest (id : Nat) (name : Str) (payload : Value) :
    (ingressRequest id name payload).toDict = .dict [
      (.str (str "jsonrpc"), .str JSONRPC_VERSION), (.str (str "id"), .int id),
      (.str (str "method"), .str HOST_INGRESS),
      (.str (str "params"), .dict [(.str (str "name"), .str name),
        (.str (str "payload"), payload)])] := rfl

theorem ingressRequest_length {py : Interpreter} {id : Nat} {name : Str} {payload : Value}
    {b : Bytes} (hname : isSlug name = true)
    (hb : encodeMessage py (ingressRequest id name payload).toDict = .ok b) :
    lineLength b = payloadLength py payload + name.length + (natText id).length + 79 := by
  obtain ⟨t, ht, -⟩ := encodeMessage_bytes hb
  rw [lineLength_of_dumps hb ht]
  rw [toDict_ingressRequest] at ht
  unfold Interpreter.dumps at ht
  obtain ⟨e, ts, he, hts, rfl⟩ := dump_dict ht
  obtain ⟨q₁, u₁, us₁, hq₁, hu₁, hus₁, rfl⟩ := dumpEntries_cons hts
  obtain ⟨q₂, u₂, us₂, hq₂, hu₂, hus₂, rfl⟩ := dumpEntries_cons hus₁
  obtain ⟨q₃, u₃, us₃, hq₃, hu₃, hus₃, rfl⟩ := dumpEntries_cons hus₂
  obtain ⟨q₄, u₄, us₄, hq₄, hu₄, hus₄, rfl⟩ := dumpEntries_cons hus₃
  obtain ⟨e', ts', rfl, hts', rfl⟩ := dump_dict hu₄
  obtain ⟨q₅, u₅, us₅, hq₅, hu₅, hus₅, rfl⟩ := dumpEntries_cons hts'
  obtain ⟨q₆, u₆, us₆, hq₆, hu₆, hus₆, rfl⟩ := dumpEntries_cons hus₅
  have hpayload : payloadLength py payload = u₆.length := by
    unfold payloadLength Interpreter.dumps
    rw [dump_of_depth payload hu₆ ((depth_le_of_dump payload hu₆).trans (by omega))]
  obtain rfl := dumpInt_nat (show dumpInt (id : Int) = .ok u₂ from hu₂)
  cases hq₁
  cases hq₂
  cases hq₃
  cases hq₄
  cases hq₅
  cases hq₆
  obtain rfl := Except.ok.inj (show Except.ok (dumpStr JSONRPC_VERSION) = .ok u₁ from hu₁)
  obtain rfl := Except.ok.inj (show Except.ok (dumpStr HOST_INGRESS) = .ok u₃ from hu₃)
  obtain rfl := Except.ok.inj (show Except.ok (dumpStr name) = .ok u₅ from hu₅)
  have h1 : (dumpStr (str "jsonrpc")).length = 9 := by decide
  have h2 : (dumpStr (str "id")).length = 4 := by decide
  have h3 : (dumpStr (str "method")).length = 8 := by decide
  have h4 : (dumpStr (str "params")).length = 8 := by decide
  have h5 : (dumpStr (str "name")).length = 6 := by decide
  have h6 : (dumpStr (str "payload")).length = 9 := by decide
  have h7 : (dumpStr JSONRPC_VERSION).length = 5 := by decide
  have h8 : (dumpStr HOST_INGRESS).length = 14 := by decide
  have h9 := length_dumpStr_slug hname
  simp only [List.isEmpty_cons, List.isEmpty_nil, Bool.false_eq_true, if_false, if_true,
    List.length_cons, List.length_append, List.length_nil, h1, h2, h3, h4, h5, h6, h7, h8, h9]
  omega

theorem result_length {py : Interpreter} {id : Nat} {v : Value} {b : Bytes}
    (hb : encodeMessage py (JsonRpcResponse.toDict ⟨.int id, .result v⟩) = .ok b) :
    lineLength b = payloadLength py v + (natText id).length + 33 := by
  obtain ⟨t, ht, -⟩ := encodeMessage_bytes hb
  rw [lineLength_of_dumps hb ht]
  have hdata : JsonRpcResponse.toDict ⟨.int id, .result v⟩ = .dict [
      (.str (str "jsonrpc"), .str JSONRPC_VERSION), (.str (str "id"), .int id),
      (.str (str "result"), v)] := rfl
  rw [hdata] at ht
  unfold Interpreter.dumps at ht
  obtain ⟨e, ts, he, hts, rfl⟩ := dump_dict ht
  obtain ⟨q₁, u₁, us₁, hq₁, hu₁, hus₁, rfl⟩ := dumpEntries_cons hts
  obtain ⟨q₂, u₂, us₂, hq₂, hu₂, hus₂, rfl⟩ := dumpEntries_cons hus₁
  obtain ⟨q₃, u₃, us₃, hq₃, hu₃, hus₃, rfl⟩ := dumpEntries_cons hus₂
  have hpayload : payloadLength py v = u₃.length := by
    unfold payloadLength Interpreter.dumps
    rw [dump_of_depth v hu₃ ((depth_le_of_dump v hu₃).trans (by omega))]
  obtain rfl := dumpInt_nat (show dumpInt (id : Int) = .ok u₂ from hu₂)
  cases hq₁
  cases hq₂
  cases hq₃
  obtain rfl := Except.ok.inj (show Except.ok (dumpStr JSONRPC_VERSION) = .ok u₁ from hu₁)
  cases hus₃
  have h1 : (dumpStr (str "jsonrpc")).length = 9 := by decide
  have h2 : (dumpStr (str "id")).length = 4 := by decide
  have h3 : (dumpStr (str "result")).length = 8 := by decide
  have h7 : (dumpStr JSONRPC_VERSION).length = 5 := by decide
  simp only [List.isEmpty_cons, List.isEmpty_nil, Bool.false_eq_true, if_false, if_true,
    List.length_cons, List.length_append, List.length_nil, h1, h2, h3, h7]
  omega

theorem slug_scalars {s : Str} (h : isSlug s = true) : Scalars s := by
  intro c hc
  have hrange := slugChar_range (slug_chars h c hc)
  unfold IsScalar
  omega

theorem wellFormed_ingressRequest {f : Str → PyFloat} {id : Nat} {name : Str} {payload : Value}
    (hname : isSlug name = true) (hpayload : Plain f payload) :
    (JsonRpcMessage.request (ingressRequest id name payload)).WellFormed f := by
  have hkey : ∀ k ∈ [str "name", str "payload"], ∀ c ∈ k, IsScalar c := by decide
  have hne : Key.str (str "name") ∉ [Key.str (str "payload")] := by decide
  have hmethod : HOST_INGRESS ≠ [] ∧ ∀ c ∈ HOST_INGRESS, IsScalar c := by decide
  refine ⟨hmethod.1, hmethod.2, ?_, rfl, by simp only [ingressRequest, Plain]⟩
  simp only [ingressRequest, PlainEntries]
  exact ⟨⟨_, rfl, hkey _ List.mem_cons_self⟩, hne, plain_str (slug_scalars hname),
    ⟨_, rfl, hkey _ (List.mem_cons_of_mem _ List.mem_cons_self)⟩, List.not_mem_nil, hpayload, trivial⟩

theorem depth_ingressRequest (id : Nat) (name : Str) (payload : Value) :
    depth (ingressRequest id name payload).toDict = depth payload + 2 := by
  simp [ingressRequest, JsonRpcRequest.toDict, depth, depthEntries]

/-- A peer reads the request as it was sent. -/
theorem decode_ingressRequest {py peer : Interpreter} {id : Nat} {name : Str} {payload : Value}
    {b : Bytes} (hname : isSlug name = true) (hpayload : Plain peer.floatOf payload)
    (hb : encodeMessage py (ingressRequest id name payload).toDict = .ok b)
    (hd : depth payload + 2 ≤ peer.nesting) :
    decodeMessage peer b = .ok (.request (ingressRequest id name payload)) := by
  have hwell : (JsonRpcMessage.request (ingressRequest id name payload)).WellFormed peer.floatOf :=
    wellFormed_ingressRequest hname hpayload
  have hplain : Plain peer.floatOf (ingressRequest id name payload).toDict :=
    JsonRpcMessage.plain_toDict hwell
  have hparse : parseMessage (ingressRequest id name payload).toDict = _ :=
    JsonRpcMessage.parse_toDict hwell
  rw [decodeMessage_encodeMessage hb, depth_ingressRequest, if_pos hd, image_plain _ _ hplain, hparse]

/-- A peer reads a result as it was sent. -/
theorem decode_result_plain {py peer : Interpreter} {id : Nat} {v : Value} {b : Bytes}
    (hv : Plain peer.floatOf v)
    (hb : encodeMessage py (JsonRpcResponse.toDict ⟨.int id, .result v⟩) = .ok b)
    (hd : depth v + 1 ≤ peer.nesting) :
    decodeMessage peer b = .ok (.response ⟨.int id, .result v⟩) := by
  have hdepth : depth (JsonRpcResponse.toDict ⟨.int id, .result v⟩) = depth v + 1 := by
    simp [JsonRpcResponse.toDict, depth, depthEntries]
  have hid : image peer.floatOf (.int id) = .int id := rfl
  rw [decodeMessage_encodeMessage hb, hdepth, if_pos hd, image_result, hid, image_plain _ _ hv]
  exact parseMessage_result (show IsId (.int id) from rfl) v

end KestrelSdk.Protocol
