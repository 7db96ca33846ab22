import KestrelSdk.Protocol.Wire
import KestrelSdk.Service.Frames

/-! What one side reads in the frames of the other. -/

namespace KestrelSdk.Link

open Json Protocol Service

variable {f : Str → PyFloat}

theorem fieldNames_kept {s : String} (h : s ∈ fieldNames) : imageStr (str s) = str s := by
  have key : ∀ s ∈ fieldNames, imageStr (str s) = str s := by decide
  exact key s h

/-- An object with fields of a frame is read field by field. -/
theorem image_fields (f : Str → PyFloat) {es : Dict} (names : List String)
    (h : es.map Prod.fst = names.map fun s => Key.str (str s)) (hs : names.Sublist fieldNames) :
    image f (.dict es) = .dict (es.map fun e => (e.1, image f e.2)) := by
  have hkeys : ∀ e ∈ es, ∃ k, e.1 = .str k ∧ imageStr k = k := by
    intro e he
    have hmem : e.1 ∈ names.map fun s => Key.str (str s) := h ▸ List.mem_map_of_mem he
    obtain ⟨s, hname, hse⟩ := List.mem_map.1 hmem
    exact ⟨str s, hse.symm, fieldNames_kept (hs.subset hname)⟩
  have hnodup : (fieldNames.map fun s => Key.str (str s)).Nodup := by decide
  have hdistinct : (es.map Prod.fst).Nodup := h ▸ (hs.map _).nodup hnodup
  rw [image, imageEntries_distinct f es [] hkeys hdistinct, List.nil_append]

theorem image_requestDict (f : Str → PyFloat) (r : JsonRpcRequest) :
    image f r.toDict = .dict ([(.str (str "jsonrpc"), image f (.str JSONRPC_VERSION)),
      (.str (str "id"), image f r.id), (.str (str "method"), image f (.str r.method))] ++
        if r.params.isEmpty then [] else [(.str (str "params"), image f (.dict r.params))]) := by
  unfold JsonRpcRequest.toDict
  split
  · exact image_fields f ["jsonrpc", "id", "method"] rfl (by decide)
  · exact image_fields f ["jsonrpc", "id", "method", "params"] rfl (by decide)

theorem image_notificationDict (f : Str → PyFloat) (n : JsonRpcNotification) :
    image f n.toDict = .dict ([(.str (str "jsonrpc"), image f (.str JSONRPC_VERSION)),
      (.str (str "method"), image f (.str n.method))] ++
        if n.params.isEmpty then [] else [(.str (str "params"), image f (.dict n.params))]) := by
  unfold JsonRpcNotification.toDict
  split
  · exact image_fields f ["jsonrpc", "method"] rfl (by decide)
  · exact image_fields f ["jsonrpc", "method", "params"] rfl (by decide)

theorem image_responseDict (f : Str → PyFloat) (r : JsonRpcResponse) :
    ∃ last, image f r.toDict = .dict [(.str (str "jsonrpc"), image f (.str JSONRPC_VERSION)),
      (.str (str "id"), image f r.id), last] := by
  unfold JsonRpcResponse.toDict
  cases r.answer with
  | error e => exact ⟨_, image_fields f ["jsonrpc", "id", "error"] rfl (by decide)⟩
  | result v => exact ⟨_, image_fields f ["jsonrpc", "id", "result"] rfl (by decide)⟩

theorem get_id (v u : Value) (es : Dict) :
    Dict.get ((.str (str "jsonrpc"), v) :: (.str (str "id"), u) :: es) (str "id") = some u := by
  rw [get_field (by decide), get_field_self]

theorem parseMessage_response_id {raw : Value} {x : JsonRpcResponse}
    (h : parseMessage raw = .ok (.response x)) :
    ∃ d id, raw = .dict d ∧ Dict.get d (str "id") = some id ∧ parseId id = .ok x.id := by
  cases raw with
  | dict d =>
    suffices ∃ id, Dict.get d (str "id") = some id ∧ parseId id = .ok x.id by
      obtain ⟨id, hid, hp⟩ := this
      exact ⟨d, id, rfl, hid, hp⟩
    simp only [parseMessage] at h
    split at h
    · split at h
      · split at h
        · obtain ⟨method, -, h⟩ := Checks.bind_ok_iff.1 h
          split at h
          · split at h
            · obtain ⟨_, -, h⟩ := Checks.bind_ok_iff.1 h
              obtain ⟨_, -, h⟩ := Checks.bind_ok_iff.1 h
              cases h
            · cases h
          · split at h
            · obtain ⟨_, -, h⟩ := Checks.bind_ok_iff.1 h
              obtain ⟨_, -, h⟩ := Checks.bind_ok_iff.1 h
              cases h
            · cases h
          · split at h
            · obtain ⟨_, -, h⟩ := Checks.bind_ok_iff.1 h
              obtain ⟨_, -, h⟩ := Checks.bind_ok_iff.1 h
              cases h
            · cases h
          · cases h
        · split at h
          · cases h
          · rename_i id hid
            split at h
            · obtain ⟨_, hp, h⟩ := Checks.bind_ok_iff.1 h
              obtain ⟨_, -, h⟩ := Checks.bind_ok_iff.1 h
              obtain ⟨_, -, h⟩ := Checks.bind_ok_iff.1 h
              cases h
              exact ⟨id, hid, hp⟩
            · cases h
            · split at h
              · cases h
              · obtain ⟨_, hp, h⟩ := Checks.bind_ok_iff.1 h
                cases h
                exact ⟨id, hid, hp⟩
      · cases h
    · cases h
  | _ => cases h

/-- A response keeps its identifier. -/
theorem response_id {r x : JsonRpcResponse} (h : parseMessage (image f r.toDict) = .ok (.response x))
    (hid : image f r.id = r.id) : x.id = r.id := by
  obtain ⟨last, hd⟩ := image_responseDict f r
  obtain ⟨d, id, hdict, hget, hp⟩ := parseMessage_response_id h
  cases hd.symm.trans hdict
  rw [get_id, hid] at hget
  cases hget
  exact (parseId_cases hp).1

/-- A request keeps its identifier. -/
theorem request_id {r x : JsonRpcRequest} (h : parseMessage (image f r.toDict) = .ok (.request x))
    (hid : image f r.id = r.id) : x.id = r.id := by
  obtain ⟨d, id, hdict, hget, hp⟩ := parseMessage_request_id h
  rw [image_requestDict] at hdict
  cases hdict
  rw [List.cons_append, List.cons_append, get_id, hid] at hget
  cases hget
  exact (parseId_cases hp).1

/-- A notification is no response. -/
theorem notification_no_response {n : JsonRpcNotification} {x : JsonRpcResponse} :
    parseMessage (image f n.toDict) ≠ .ok (.response x) := by
  intro h
  obtain ⟨d, id, hdict, hget, -⟩ := parseMessage_response_id h
  rw [image_notificationDict] at hdict
  cases hdict
  rw [List.cons_append, List.cons_append, get_field (by decide), get_field (by decide)] at hget
  split at hget
  · cases hget
  · rw [List.nil_append, get_field (by decide)] at hget
    cases hget

/-- A request with parameters, under a method of ASCII characters. -/
theorem parse_request {method : Str} {params : Dict} {id : Value} (hm : imageStr method = method)
    (hne : method ≠ []) (hp : params.isEmpty = false) (hid : image f id = id) (hi : IsId id) :
    parseMessage (image f (JsonRpcRequest.toDict ⟨method, params, id⟩)) =
      .ok (.request ⟨method, imageEntries f [] params, id⟩) := by
  have hversion : imageStr JSONRPC_VERSION = JSONRPC_VERSION := by decide
  have hi : parseId id = .ok id := hi
  rw [image_requestDict]
  simp only [hp, Bool.false_eq_true, if_false, List.cons_append, List.nil_append, image, hversion,
    hm, hid]
  rw [parse_method method (imageEntries f [] params) (get_field_self _ _ _) ?_ hne ?_,
    get_field (by decide), get_field_self]
  · simp only [hi]
    rfl
  · rw [get_field (by decide), get_field (by decide), get_field_self]
  · rw [get_field (by decide), get_field (by decide), get_field (by decide), get_field_self]
    rfl

end KestrelSdk.Link
