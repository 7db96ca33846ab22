import KestrelSdk.Order.Mapping
import KestrelSdk.Protocol.Context
import KestrelSdk.Protocol.Grammar
import KestrelSdk.Protocol.Tools
import KestrelSdk.Order.Checks

namespace KestrelSdk.Protocol

open Json
open KestrelSdk.Order (Mapping)
open Checks (ok_bind)

/-- asyncio's default limit of a stream reader: a longer line makes `readline` raise. -/
def STREAM_LIMIT : Nat := 64 * 1024

/-- A field that `to_dict` leaves out when its tuple is empty. -/
def tagsField (key : String) (tags : List Str) : Dict :=
  if tags = [] then [] else [(.str (str key), .list (tags.map .str))]

namespace ToolMetadata

def toDict (t : ToolMetadata) : Dict :=
  [(.str (str "name"), .str t.name), (.str (str "description"), .str t.description),
      (.str (str "input_schema"), .dict t.inputSchema)] ++
    (optionalField "skill_id" t.skillId ++ (optionalField "version" t.version ++
      (tagsField "capability_tags" t.capabilityTags ++
        (tagsField "permission_tags" t.permissionTags ++ (optionalField "category" t.category ++
          optionalField "command_prefix" t.commandPrefix)))))

/-- What JSON makes of the fields. -/
def image (f : Str → PyFloat) (t : ToolMetadata) : ToolMetadata where
  name := imageStr t.name
  description := imageStr t.description
  inputSchema := imageEntries f [] t.inputSchema
  skillId := t.skillId.map imageStr
  version := t.version.map imageStr
  capabilityTags := t.capabilityTags.map imageStr
  permissionTags := t.permissionTags.map imageStr
  category := t.category.map imageStr
  commandPrefix := t.commandPrefix.map imageStr

/-- No text of the metadata is empty, its tags apart. -/
structure Filled (t : ToolMetadata) : Prop where
  name : t.name ≠ []
  description : t.description ≠ []
  skillId : t.skillId ≠ some []
  version : t.version ≠ some []
  category : t.category ≠ some []
  commandPrefix : t.commandPrefix ≠ some []

end ToolMetadata

/-- `register_tool` for one tool after another, then `get_tools`. -/
def registered (tools : List ToolMetadata) : List ToolMetadata :=
  (Mapping.ofList (tools.map fun t => (t.name, t))).values

/-- What `_dispatch` returns for `tools/list`. -/
def toolsList (tools : List ToolMetadata) : Value :=
  .dict [(.str (str "tools"), .list ((registered tools).map fun t => .dict t.toDict))]

/-- The frame of the answer to request `n`. -/
def listing (n : Int) (tools : List ToolMetadata) : Value :=
  JsonRpcResponse.toDict ⟨.int n, .result (toolsList tools)⟩

/-- Why `list_tools` raises. -/
inductive ListingError where
  | encode (e : DumpError)
  | overrun
  | decode (e : DecodeError)
  | answer
  | result
  | metadata (e : ToolError)

/-- What `list_tools` makes of the result. -/
def readTools (result : Value) : Except ListingError (List ToolMetadata) :=
  match result with
  | .dict d =>
    match Dict.get d (str "tools") with
    | some (.list items) =>
      match items.mapM ToolMetadata.fromDict with
      | .ok tools => .ok tools
      | .error e => .error (.metadata e)
    | _ => .error .result
  | _ => .error .result

/-- `list_tools` of a ready client: request `n` is answered by the service with one frame, which
the client's stream reader takes as a line. -/
def listTools (py peer : Interpreter) (limit : Nat) (n : Int) (tools : List ToolMetadata) :
    Except ListingError (List ToolMetadata) :=
  match encodeMessage py (listing n tools) with
  | .error e => .error (.encode e)
  | .ok frame =>
    if limit < frame.length - 1 then .error .overrun
    else
      match decodeMessage peer frame with
      | .ok (.response ⟨.int m, .result v⟩) => if m = n then readTools v else .error .answer
      | .ok _ => .error .answer
      | .error e => .error (.decode e)

/-- The latest registered metadata per name, in the order in which the names were registered. -/
def latestPerName (tools : List ToolMetadata) : List ToolMetadata :=
  (tools.map ToolMetadata.name).eraseDups.filterMap fun name =>
    tools.reverse.find? fun t => t.name = name

theorem registered_eq (tools : List ToolMetadata) : registered tools = latestPerName tools :=
  Mapping.values_ofList ToolMetadata.name tools

/-! Encoding and reading of one entry. -/

theorem get_tagsField (key : String) (tags : List Str) (k : Str) :
    Dict.get (tagsField key tags) k =
      if k = str key ∧ tags ≠ [] then some (.list (tags.map .str)) else none := by
  unfold tagsField
  by_cases h : tags = []
  · simp [h, Dict.get]
  · rw [if_neg h, Dict.get_cons]
    by_cases hk : k = str key <;> simp [hk, h, Dict.get]

namespace ToolMetadata

/-- The keys of `to_dict`, in their order. -/
def fields : List Str :=
  [str "name", str "description", str "input_schema", str "skill_id", str "version",
    str "capability_tags", str "permission_tags", str "category", str "command_prefix"]

theorem keys_sublist (t : ToolMetadata) : (t.toDict.map Prod.fst).Sublist (fields.map Key.str) := by
  have hoptional : ∀ key o, ((optionalField key o).map Prod.fst).Sublist [Key.str (str key)] := by
    intro key o
    cases o with
    | none => exact List.nil_sublist _
    | some s => exact List.Sublist.refl _
  have htags : ∀ key tags, ((tagsField key tags).map Prod.fst).Sublist [Key.str (str key)] := by
    intro key tags
    unfold tagsField
    split
    · exact List.nil_sublist _
    · exact List.Sublist.refl _
  simp only [toDict, List.map_append]
  apply @List.Sublist.append _ _ [_, _, _] _ _
  · exact List.Sublist.refl _
  · apply @List.Sublist.append _ _ [_] _ _ (hoptional _ _)
    apply @List.Sublist.append _ _ [_] _ _ (hoptional _ _)
    apply @List.Sublist.append _ _ [_] _ _ (htags _ _)
    apply @List.Sublist.append _ _ [_] _ _ (htags _ _)
    apply @List.Sublist.append _ _ [_] _ _ (hoptional _ _)
    exact hoptional _ _

theorem image_toDict (f : Str → PyFloat) (t : ToolMetadata) :
    Json.image f (.dict t.toDict) = .dict (t.image f).toDict := by
  have hnd : (t.toDict.map Prod.fst).Nodup :=
    (keys_sublist t).nodup (by decide)
  have hkeys : ∀ e ∈ t.toDict, ∃ k, e.1 = .str k ∧ imageStr k = k := by
    intro e he
    have hmem := (keys_sublist t).subset (List.mem_map_of_mem he)
    obtain ⟨k, hk, hke⟩ := List.mem_map.1 hmem
    refine ⟨k, hke.symm, ?_⟩
    have hall : ∀ k ∈ fields, imageStr k = k := by decide
    exact hall k hk
  have hoptional : ∀ key o, (optionalField key o).map (fun e => (e.1, Json.image f e.2)) =
      optionalField key (o.map imageStr) := by
    intro key o
    cases o <;> rfl
  have hitems : ∀ tags : List Str, imageItems f (tags.map .str) = (tags.map imageStr).map .str := by
    intro tags
    induction tags with
    | nil => rfl
    | cons s tags ih => simp only [List.map_cons, imageItems, Json.image, ih]
  have htags : ∀ key tags, (tagsField key tags).map (fun e => (e.1, Json.image f e.2)) =
      tagsField key (tags.map imageStr) := by
    intro key tags
    cases tags with
    | nil => rfl
    | cons s tags => simp [tagsField, Json.image, hitems, imageItems]
  rw [Json.image, imageEntries_distinct f t.toDict [] hkeys (by simpa using hnd), List.nil_append]
  simp only [toDict, List.map_append, hoptional, htags]
  rfl

theorem requireToolStr_get {d : Dict} {key : String} {s : Str}
    (h : d.get (str key) = some (.str s)) :
    requireToolStr d key = if s = [] then
      .error (.protocol (str key ++ str " must be a non-empty string")) else .ok s := by
  unfold requireToolStr requireStr
  rw [h]
  cases s <;> rfl

theorem optionalStr_get {d : Dict} {key : String} {o : Option Str}
    (h : d.get (str key) = o.map .str) :
    optionalStr d key = if o = some [] then
      .error (.protocol (str key ++ str " must be a non-empty string when provided"))
      else .ok o := by
  unfold optionalStr
  rw [h]
  cases o with
  | none => rfl
  | some s => cases s <;> rfl

theorem optionalStrList_get {d : Dict} {key : String} {tags : List Str}
    (h : d.get (str key) = if tags ≠ [] then some (.list (tags.map .str)) else none) :
    optionalStrList d key = .ok tags := by
  have hmap : ∀ tags : List Str,
      (tags.map Value.str).mapM HostIngressCapabilities.strOf = some tags := by
    intro tags
    induction tags with
    | nil => rfl
    | cons s tags ih => simp [ih, HostIngressCapabilities.strOf]
  unfold optionalStrList
  rw [h]
  by_cases ht : tags = []
  · simp [ht]
  · simp [ht, hmap]

theorem get_texts (t : ToolMetadata) :
    Dict.get t.toDict (str "name") = some (.str t.name) ∧
    Dict.get t.toDict (str "description") = some (.str t.description) ∧
    Dict.get t.toDict (str "input_schema") = some (.dict t.inputSchema) := by
  simp +decide [toDict, Dict.get_cons]

theorem get_optionals (t : ToolMetadata) :
    Dict.get t.toDict (str "skill_id") = t.skillId.map .str ∧
    Dict.get t.toDict (str "version") = t.version.map .str ∧
    Dict.get t.toDict (str "category") = t.category.map .str ∧
    Dict.get t.toDict (str "command_prefix") = t.commandPrefix.map .str := by
  simp +decide [toDict, Dict.get_append, Dict.get_cons, get_optionalField, get_tagsField]

theorem get_tags (t : ToolMetadata) :
    (Dict.get t.toDict (str "capability_tags") =
      if t.capabilityTags ≠ [] then some (.list (t.capabilityTags.map .str)) else none) ∧
    Dict.get t.toDict (str "permission_tags") =
      if t.permissionTags ≠ [] then some (.list (t.permissionTags.map .str)) else none := by
  simp +decide [toDict, Dict.get_append, Dict.get_cons, get_optionalField, get_tagsField]

theorem unless_bind {ε α β : Type} {c : Prop} [Decidable c] {e : ε} {a : α}
    {k : α → Except ε β} {b : β} :
    ((if c then .error e else .ok a) >>= k) = .ok b ↔ ¬ c ∧ k a = .ok b := by
  by_cases h : c
  · simp [h, bind, Except.bind]
  · simp [h, bind, Except.bind]

/-- `from_dict` after `to_dict`: the same metadata, unless one of its texts is empty. -/
theorem fromDict_toDict (t u : ToolMetadata) :
    fromDict (.dict t.toDict) = .ok u ↔ t.Filled ∧ u = t := by
  obtain ⟨hname, hdescription, hschema⟩ := get_texts t
  obtain ⟨hskill, hversion, hcategory, hcommand⟩ := get_optionals t
  obtain ⟨hcapability, hpermission⟩ := get_tags t
  simp only [fromDict, hschema, requireToolStr_get hname, requireToolStr_get hdescription,
    optionalStr_get hskill, optionalStr_get hversion, optionalStr_get hcategory,
    optionalStr_get hcommand, optionalStrList_get hcapability, optionalStrList_get hpermission,
    unless_bind, ok_bind]
  constructor
  · rintro ⟨h1, h2, h3, h4, h5, h6, h7⟩
    exact ⟨⟨h1, h2, h3, h4, h5, h6⟩, (Except.ok.inj h7).symm⟩
  · rintro ⟨h, rfl⟩
    exact ⟨h.name, h.description, h.skillId, h.version, h.category, h.commandPrefix, rfl⟩

end ToolMetadata

theorem mapM_fromDict (items : List ToolMetadata) (out : List ToolMetadata) :
    (items.map fun t => Value.dict t.toDict).mapM ToolMetadata.fromDict = .ok out ↔
      (∀ t ∈ items, t.Filled) ∧ out = items := by
  induction items generalizing out with
  | nil =>
    constructor
    · intro h
      exact ⟨by simp, (Except.ok.inj h).symm⟩
    · rintro ⟨-, rfl⟩
      rfl
  | cons t items ih =>
    rw [List.map_cons, List.mapM_cons]
    constructor
    · intro h
      cases ht : ToolMetadata.fromDict (.dict t.toDict) with
      | error e =>
        rw [ht] at h
        cases h
      | ok u =>
        obtain ⟨hfilled, rfl⟩ := (ToolMetadata.fromDict_toDict t u).1 ht
        rw [ht, ok_bind] at h
        cases hr : (items.map fun t => Value.dict t.toDict).mapM ToolMetadata.fromDict with
        | error e =>
          rw [hr] at h
          cases h
        | ok us =>
          obtain ⟨hall, rfl⟩ := (ih us).1 hr
          rw [hr] at h
          refine ⟨?_, (Except.ok.inj h).symm⟩
          intro v hv
          rcases List.mem_cons.1 hv with rfl | hv
          · exact hfilled
          · exact hall v hv
    · rintro ⟨h, rfl⟩
      have ht := (ToolMetadata.fromDict_toDict t t).2 ⟨h t (List.mem_cons_self ..), rfl⟩
      have hrest := (ih items).2 ⟨fun u hu => h u (List.mem_cons_of_mem t hu), rfl⟩
      rw [ht, hrest]
      rfl

theorem image_listing (f : Str → PyFloat) (n : Int) (tools : List ToolMetadata) :
    image f (listing n tools) = JsonRpcResponse.toDict ⟨.int n, .result (.dict [(.str (str "tools"),
      .list (((registered tools).map (ToolMetadata.image f)).map fun t => .dict t.toDict))])⟩ := by
  have hkey : imageStr (str "tools") = str "tools" := by decide
  rw [listing, image_result, toolsList]
  have hitems : (registered tools).map (fun t => image f (.dict t.toDict)) =
      ((registered tools).map (ToolMetadata.image f)).map fun t => .dict t.toDict := by
    rw [List.map_map]
    exact List.map_congr_left fun t _ => ToolMetadata.image_toDict f t
  rw [← hitems, ← imageItems_map]
  simp only [image, imageEntries, Key.text, hkey, Dict.set]

/-- What the client makes of a frame that it receives whole. -/
theorem listTools_ok {py peer : Interpreter} {limit : Nat} {n : Int} {tools out : List ToolMetadata}
    {frame : Bytes} (henc : encodeMessage py (listing n tools) = .ok frame)
    (hlen : frame.length - 1 ≤ limit) (hdepth : depth (listing n tools) ≤ peer.nesting) :
    listTools py peer limit n tools = .ok out ↔
      (∀ t ∈ registered tools, (t.image peer.floatOf).Filled) ∧
        out = (registered tools).map (ToolMetadata.image peer.floatOf) := by
  have hid : IsId (.int n) := rfl
  have hdecode : decodeMessage peer frame = .ok (.response ⟨.int n, .result
      (.dict [(.str (str "tools"), .list (((registered tools).map
        (ToolMetadata.image peer.floatOf)).map fun t => .dict t.toDict))])⟩) := by
    rw [decodeMessage_encodeMessage henc, if_pos hdepth, image_listing,
      parseMessage_result hid]
  have hmap := mapM_fromDict ((registered tools).map (ToolMetadata.image peer.floatOf)) out
  rw [List.forall_mem_map] at hmap
  rw [listTools, henc]
  simp only [if_neg (not_lt.2 hlen), hdecode, if_true, readTools, Dict.get_cons]
  rw [← hmap]
  cases (((registered tools).map (ToolMetadata.image peer.floatOf)).map fun t =>
    Value.dict t.toDict).mapM ToolMetadata.fromDict with
  | error e => simp
  | ok us => simp

theorem listTools_whole {py peer : Interpreter} {limit : Nat} {n : Int}
    {tools out : List ToolMetadata} (h : listTools py peer limit n tools = .ok out) :
    ∃ frame, encodeMessage py (listing n tools) = .ok frame ∧ frame.length - 1 ≤ limit ∧
      depth (listing n tools) ≤ peer.nesting := by
  unfold listTools at h
  cases henc : encodeMessage py (listing n tools) with
  | error e =>
    rw [henc] at h
    cases h
  | ok frame =>
    rw [henc] at h
    simp only at h
    split at h
    · cases h
    · rename_i hlen
      refine ⟨frame, rfl, not_lt.1 hlen, ?_⟩
      by_contra hdepth
      rw [decodeMessage_encodeMessage henc, if_neg hdepth] at h
      cases h

/-- A client lists exactly the latest metadata per name when no text of it but a tag is empty,
JSON keeps it, and the answer fits the peers: it can be encoded, is one line within the limit of
the stream reader, and nests no deeper than the decoder goes. -/
theorem tools_listed_iff (py peer : Interpreter) (limit : Nat) (n : Int)
    (tools : List ToolMetadata) :
    listTools py peer limit n tools = .ok (latestPerName tools) ↔
      (∀ t ∈ latestPerName tools, t.Filled ∧ t.image peer.floatOf = t) ∧
      (∃ frame, encodeMessage py (listing n tools) = .ok frame ∧ frame.length - 1 ≤ limit) ∧
      depth (listing n tools) ≤ peer.nesting := by
  rw [← registered_eq]
  constructor
  · intro h
    obtain ⟨frame, henc, hlen, hdepth⟩ := listTools_whole h
    obtain ⟨hfilled, hkept⟩ := (listTools_ok henc hlen hdepth).1 h
    have himage : ∀ t ∈ registered tools, t.image peer.floatOf = t := by
      intro t ht
      have := List.map_eq_map_iff.1 ((List.map_id _).trans hkept)
      exact (this t ht).symm
    refine ⟨fun t ht => ⟨?_, himage t ht⟩, ⟨frame, henc, hlen⟩, hdepth⟩
    rw [← himage t ht]
    exact hfilled t ht
  · rintro ⟨hall, ⟨frame, henc, hlen⟩, hdepth⟩
    apply (listTools_ok henc hlen hdepth).2
    constructor
    · intro t ht
      rw [(hall t ht).2]
      exact (hall t ht).1
    · have hmap : (registered tools).map (ToolMetadata.image peer.floatOf) =
          (registered tools).map id := List.map_congr_left fun t ht => (hall t ht).2
      rw [hmap, List.map_id]

/-- A tool without a description. -/
def undescribed : ToolMetadata := ⟨str "t", [], [], none, none, [], [], none, none⟩

/-- A tool without a description makes the whole listing fail. -/
theorem undescribed_tool_fails : ¬ ∀ (py peer : Interpreter) (limit : Nat) (n : Int)
    (tools : List ToolMetadata), listTools py peer limit n tools = .ok (latestPerName tools) := by
  intro h
  have hlist := h .floatless .floatless STREAM_LIMIT 1 [undescribed]
  obtain ⟨frame, henc, hlen, hdepth⟩ := listTools_whole hlist
  have hfilled := ((listTools_ok henc hlen hdepth).1 hlist).1 undescribed
    (List.mem_singleton.2 rfl)
  exact hfilled.description rfl

end KestrelSdk.Protocol
