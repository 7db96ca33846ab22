import KestrelSdk.Protocol.Context
import Mathlib.Data.List.Nodup
import KestrelSdk.Order.Checks

namespace KestrelSdk.Protocol

open Json
open Encoding (DateTime IsoChar fromisoformat)
open Checks (ok_of_bind)

/-- The texts of a context. -/
def ToolExecutionContext.texts (c : ToolExecutionContext) : List Str :=
  c.invocationId :: (c.idempotencyKey.toList ++ (c.trigger.id.toList ++ c.trigger.sourceId.toList))

/-- A text that UTF-8 encodes is one of scalar values. -/
theorem encodeUtf8_scalar {s : Str} {b : Bytes} (h : encodeUtf8 s = some b)
    (hs : ∀ c ∈ s, c < 0x110000) : ∀ c ∈ s, IsScalar c := by
  induction s generalizing b with
  | nil => simp
  | cons c s ih =>
    simp only [encodeUtf8, Option.bind_eq_bind, Option.bind_eq_some_iff] at h
    obtain ⟨p, hp, q, hq, -⟩ := h
    intro d hd
    rcases List.mem_cons.1 hd with rfl | hd
    · have hlt := hs d (List.mem_cons_self ..)
      by_cases hsurrogate : 0xD800 ≤ d ∧ d < 0xE000
      · unfold encodePoint at hp
        rw [if_neg (by omega), if_neg (by omega), if_pos hsurrogate] at hp
        cases hp
      · unfold IsScalar
        omega
    · exact ih hq (fun e he => hs e (List.mem_cons_of_mem c he)) d hd

theorem requireContextString_ok {s t : Str} {field_name : String} {maximum : Nat}
    (h : requireContextString (some (.str s)) field_name maximum = .ok t)
    (hs : ∀ c ∈ s, c < 0x110000) : t = s ∧ imageStr s = s := by
  cases s with
  | nil => cases h
  | cons c s =>
    obtain ⟨n, hn, hrest⟩ := ok_of_bind h
    have hscalar : ∀ d ∈ c :: s, IsScalar d := by
      unfold utf8Length at hn
      split at hn
      · cases hn
      · rename_i b hb
        exact encodeUtf8_scalar hb hs
    split at hrest
    · cases hrest
    · exact ⟨(Except.ok.inj hrest).symm, imageStr_scalar hscalar⟩

theorem optionalContextString_ok {o p : Option Str} {field_name : String}
    (h : optionalContextString (o.map .str) field_name = .ok p)
    (hs : ∀ s ∈ o, ∀ c ∈ s, c < 0x110000) : p = o ∧ ∀ s ∈ o, imageStr s = s := by
  cases o with
  | none =>
    cases h
    exact ⟨rfl, by simp⟩
  | some s =>
    obtain ⟨t, ht, hp⟩ := ok_of_bind h
    obtain ⟨rfl, himage⟩ := requireContextString_ok ht (hs s rfl)
    refine ⟨(Except.ok.inj hp).symm, ?_⟩
    rintro u ⟨⟩
    exact himage

/-! Timestamps. -/

theorem isoformat_kept (t : DateTime) : imageStr t.isoformat = t.isoformat ∧
    replaceZ t.isoformat = t.isoformat ∧
    ∃ n, utf8Length t.isoformat = .ok n ∧ ¬ MAX_CONTEXT_IDENTIFIER_BYTES < n := by
  have hiso := Encoding.isoformat_iso t
  refine ⟨?_, ?_, ?_⟩
  · apply imageStr_scalar
    intro c hc
    have := hiso c hc
    unfold IsoChar at this
    unfold IsScalar
    omega
  · unfold replaceZ
    have hz : ∀ c ∈ t.isoformat, (if c = 90 then str "+00:00" else [c]) = [c] := by
      intro c hc
      have := hiso c hc
      unfold IsoChar at this
      rw [if_neg (by omega)]
    rw [List.flatMap_congr hz, List.flatMap_singleton']
  · have hascii : ∀ c ∈ t.isoformat, c < 0x80 := by
      intro c hc
      have := hiso c hc
      unfold IsoChar at this
      omega
    have hlength := Encoding.isoformat_length t
    refine ⟨(t.isoformat.map UInt8.ofNat).length, ?_, ?_⟩
    · rw [utf8Length, (encodeUtf8_ascii hascii).1]
    · rw [List.length_map, MAX_CONTEXT_IDENTIFIER_BYTES]
      omega

/-- The timestamp of an aware `datetime` is parsed back. -/
theorem parseTimestamp_isoformat (other : Str → Option DateTime) {o : Option DateTime}
    {field_name : String} (h : checkTimestamp field_name o = .ok ()) :
    parseTimestamp other (o.map fun t => .str t.isoformat) field_name = .ok o := by
  cases o with
  | none => rfl
  | some t =>
    obtain ⟨-, hz, n, hn, hle⟩ := isoformat_kept t
    simp only [Option.map_some, parseTimestamp, hn, hz, Encoding.fromisoformat_isoformat, bind,
      Except.bind, if_neg hle]
    unfold checkTimestamp requireAwareTimestamp at h
    unfold requireAwareTimestamp
    by_cases haware : t.offset.isSome
    · simp [haware, Except.map]
    · simp [haware, Except.map] at h

/-! The dicts. -/

theorem image_entries_kept {f : Str → PyFloat} {es : Dict} {keys : List Str}
    (hsub : (es.map Prod.fst).Sublist (keys.map Key.str)) (hnd : keys.Nodup)
    (hkeys : ∀ k ∈ keys, imageStr k = k) (hvalues : ∀ e ∈ es, image f e.2 = e.2) :
    image f (.dict es) = .dict es := by
  have hmap : (keys.map Key.str).Nodup := List.Nodup.map (fun _ _ h => Key.str.inj h) hnd
  have hes : ∀ e ∈ es, ∃ k, e.1 = .str k ∧ imageStr k = k := by
    intro e he
    obtain ⟨k, hk, hke⟩ := List.mem_map.1 (hsub.subset (List.mem_map_of_mem he))
    exact ⟨k, hke.symm, hkeys k hk⟩
  have hid : es.map (fun e => (e.1, image f e.2)) = es.map id :=
    List.map_congr_left fun e he => by rw [hvalues e he]; rfl
  rw [image, imageEntries_distinct f es [] hes (by simpa using hsub.nodup hmap), hid, List.map_id,
    List.nil_append]

theorem onlyFields_of_sublist {es : Dict} {keys fields : List Str}
    (hsub : (es.map Prod.fst).Sublist (keys.map Key.str)) (hkeys : ∀ k ∈ keys, k ∈ fields) :
    onlyFields es fields = true := by
  unfold onlyFields
  rw [List.all_eq_true]
  intro e he
  obtain ⟨k, hk, hke⟩ := List.mem_map.1 (hsub.subset (List.mem_map_of_mem he))
  rw [List.any_eq_true]
  exact ⟨k, hkeys k hk, by simp [hke]⟩

theorem optionalField_sublist (key : String) (o : Option Str) :
    ((optionalField key o).map Prod.fst).Sublist [Key.str (str key)] := by
  cases o with
  | none => exact List.nil_sublist _
  | some s => exact List.Sublist.refl _

theorem optionalField_kept {f : Str → PyFloat} {key : String} {o : Option Str}
    (h : ∀ s ∈ o, imageStr s = s) : ∀ e ∈ optionalField key o, image f e.2 = e.2 := by
  cases o with
  | none => simp [optionalField]
  | some s =>
    intro e he
    obtain rfl := List.mem_singleton.1 he
    simp only [image, h s rfl]

namespace ToolExecutionTrigger

def CodePoints (t : ToolExecutionTrigger) : Prop :=
  (∀ s ∈ t.id, ∀ c ∈ s, c < 0x110000) ∧ ∀ s ∈ t.sourceId, ∀ c ∈ s, c < 0x110000

variable {t : ToolExecutionTrigger}

/-- What `__post_init__` of a trigger has checked. -/
theorem postInit_ok (h : t.postInit = .ok ()) : t.kind ∈ SUPPORTED_TRIGGER_KINDS ∧
    (∃ p, optionalContextString (t.id.map .str) "trigger.id" = .ok p) ∧
    (∃ p, optionalContextString (t.sourceId.map .str) "trigger.source_id" = .ok p) ∧
    checkTimestamp "trigger.triggered_at" t.triggeredAt = .ok () ∧
    checkTimestamp "trigger.scheduled_for" t.scheduledFor = .ok () := by
  unfold postInit at h
  split at h
  · rename_i hkind
    obtain ⟨n, -, h⟩ := ok_of_bind h
    split at h
    · cases h
    · obtain ⟨p, hp, h⟩ := ok_of_bind h
      obtain ⟨q, hq, h⟩ := ok_of_bind h
      obtain ⟨u, hu, h⟩ := ok_of_bind h
      exact ⟨by simpa using hkind, ⟨p, hp⟩, ⟨q, hq⟩, hu, h⟩
  · cases h

theorem keys_sublist (t : ToolExecutionTrigger) : ∃ es, t.toDict = .dict es ∧
    (es.map Prod.fst).Sublist (TRIGGER_FIELDS.map Key.str) := by
  refine ⟨_, rfl, ?_⟩
  simp only [List.map_append]
  apply @List.Sublist.append _ _ [_, _, _, _] _ _
  · apply @List.Sublist.append _ _ [_, _, _] _ _
    · apply @List.Sublist.append _ _ [_, _] _ _
      · apply @List.Sublist.append _ _ [_] _ _ (List.Sublist.refl _) (optionalField_sublist _ _)
      · exact optionalField_sublist _ _
    · exact optionalField_sublist _ _
  · exact optionalField_sublist _ _

theorem image_toDict (f : Str → PyFloat) (h : t.postInit = .ok ()) (hpoints : t.CodePoints) :
    image f t.toDict = t.toDict := by
  obtain ⟨hkind, ⟨p, hp⟩, ⟨q, hq⟩, -, -⟩ := postInit_ok h
  obtain ⟨-, hid⟩ := optionalContextString_ok hp hpoints.1
  obtain ⟨-, hsource⟩ := optionalContextString_ok hq hpoints.2
  obtain ⟨es, hes, hsub⟩ := keys_sublist t
  have hiso : ∀ o : Option DateTime, ∀ s ∈ o.map (·.isoformat), imageStr s = s := by
    rintro (_ | d) s hs
    · cases hs
    · cases hs
      exact (isoformat_kept d).1
  have hkinds : ∀ k ∈ SUPPORTED_TRIGGER_KINDS, imageStr k = k := by decide
  rw [hes]
  apply image_entries_kept hsub (by decide) (by decide)
  rw [toDict] at hes
  obtain rfl := Value.dict.inj hes
  simp only [List.forall_mem_append]
  refine ⟨⟨⟨⟨?_, optionalField_kept hid⟩, optionalField_kept hsource⟩,
    optionalField_kept (hiso _)⟩, optionalField_kept (hiso _)⟩
  intro e he
  obtain rfl := List.mem_singleton.1 he
  simp only [image, hkinds _ hkind]

/-- The entries of a trigger's dict. -/
def entries (t : ToolExecutionTrigger) : Dict :=
  [(.str (str "kind"), .str t.kind)] ++ optionalField "id" t.id ++
    optionalField "source_id" t.sourceId ++
    optionalField "triggered_at" (t.triggeredAt.map (·.isoformat)) ++
    optionalField "scheduled_for" (t.scheduledFor.map (·.isoformat))

theorem get_entries (t : ToolExecutionTrigger) :
    t.entries.get (str "kind") = some (.str t.kind) ∧
    t.entries.get (str "id") = t.id.map .str ∧
    t.entries.get (str "source_id") = t.sourceId.map .str ∧
    t.entries.get (str "triggered_at") = t.triggeredAt.map (fun d => .str d.isoformat) ∧
    t.entries.get (str "scheduled_for") = t.scheduledFor.map (fun d => .str d.isoformat) := by
  simp +decide [entries, Dict.get_append, Dict.get_cons, get_optionalField, Function.comp_def]

/-- `from_dict` after `to_dict` gives the trigger back. -/
theorem fromDict_toDict (other : Str → Option DateTime) (h : t.postInit = .ok ())
    (hpoints : t.CodePoints) : fromDict other (some t.toDict) = .ok t := by
  obtain ⟨-, ⟨p, hp⟩, ⟨q, hq⟩, htriggered, hscheduled⟩ := postInit_ok h
  obtain ⟨rfl, -⟩ := optionalContextString_ok hp hpoints.1
  obtain ⟨rfl, -⟩ := optionalContextString_ok hq hpoints.2
  obtain ⟨es, hes, hsub⟩ := keys_sublist t
  obtain rfl : t.entries = es := Value.dict.inj hes
  have honly := onlyFields_of_sublist hsub fun k hk => hk
  obtain ⟨hkind, hid, hsource, htriggeredAt, hscheduledFor⟩ := get_entries t
  rw [hes, fromDict, if_pos honly, hkind]
  simp only [hid, hsource, htriggeredAt, hscheduledFor, hp, hq,
    parseTimestamp_isoformat other htriggered, parseTimestamp_isoformat other hscheduled, bind,
    Except.bind, h]
  rfl

end ToolExecutionTrigger

namespace ToolExecutionContext

variable {c : ToolExecutionContext} {py : Interpreter}

/-- The keys of `to_dict`, in their order. -/
def keys : List Str :=
  [str "version", str "invocation_id", str "attempt", str "trigger", str "idempotency_key"]

/-- The entries of a context's dict. -/
def entries (c : ToolExecutionContext) : Dict :=
  [(.str (str "version"), .int c.version), (.str (str "invocation_id"), .str c.invocationId),
      (.str (str "attempt"), .int c.attempt), (.str (str "trigger"), c.trigger.toDict)] ++
    optionalField "idempotency_key" c.idempotencyKey

theorem keys_sublist (c : ToolExecutionContext) :
    (c.entries.map Prod.fst).Sublist (keys.map Key.str) := by
  rw [entries, List.map_append]
  apply @List.Sublist.append _ _ [_, _, _, _] _ _ (List.Sublist.refl _)
  exact optionalField_sublist _ _

theorem get_entries (c : ToolExecutionContext) :
    c.entries.get (str "version") = some (.int c.version) ∧
    c.entries.get (str "invocation_id") = some (.str c.invocationId) ∧
    c.entries.get (str "attempt") = some (.int c.attempt) ∧
    c.entries.get (str "trigger") = some c.trigger.toDict ∧
    c.entries.get (str "idempotency_key") = c.idempotencyKey.map .str := by
  simp +decide [entries, Dict.get_cons, get_optionalField]

/-- The strings of a context are those of Python. -/
structure CodePoints (c : ToolExecutionContext) : Prop where
  invocation : ∀ x ∈ c.invocationId, x < 0x110000
  idempotency : ∀ s ∈ c.idempotencyKey, ∀ x ∈ s, x < 0x110000
  trigger : c.trigger.CodePoints

/-- What `__post_init__` of a context has checked. -/
theorem postInit_ok (h : c.postInit py = .ok ()) :
    (∃ s, requireContextString (some (.str c.invocationId)) "invocation_id"
      MAX_CONTEXT_IDENTIFIER_BYTES = .ok s) ∧
    (∃ p, optionalContextString (c.idempotencyKey.map .str) "idempotency_key" = .ok p) ∧
    contextSize py c.toDict = .ok () := by
  unfold postInit at h
  split at h
  · cases h
  · obtain ⟨s, hs, h⟩ := ok_of_bind h
    obtain ⟨p, hp, h⟩ := ok_of_bind h
    split at h
    · cases h
    · exact ⟨⟨s, hs⟩, ⟨p, hp⟩, h⟩

theorem image_toDict (f : Str → PyFloat) (h : c.postInit py = .ok ())
    (htrigger : c.trigger.postInit = .ok ()) (hpoints : c.CodePoints) :
    image f c.toDict = c.toDict := by
  obtain ⟨⟨s, hs⟩, ⟨p, hp⟩, -⟩ := postInit_ok h
  obtain ⟨-, hinvocation⟩ := requireContextString_ok hs hpoints.invocation
  obtain ⟨-, hidempotency⟩ := optionalContextString_ok hp hpoints.idempotency
  apply image_entries_kept (keys_sublist c) (by decide) (by decide)
  simp only [entries, List.forall_mem_append, List.forall_mem_cons]
  refine ⟨⟨rfl, ?_, rfl, ?_, by simp⟩, optionalField_kept hidempotency⟩
  · simp only [image, hinvocation]
  · exact ToolExecutionTrigger.image_toDict f htrigger hpoints.trigger

/-- `from_dict` after `to_dict` gives the context back. -/
theorem fromDict_toDict (other : Str → Option DateTime) (h : c.postInit py = .ok ())
    (htrigger : c.trigger.postInit = .ok ()) (hpoints : c.CodePoints) :
    fromDict py other c.toDict = .ok c := by
  obtain ⟨⟨s, hs⟩, ⟨p, hp⟩, hsize⟩ := postInit_ok h
  obtain ⟨rfl, -⟩ := requireContextString_ok hs hpoints.invocation
  obtain ⟨rfl, -⟩ := optionalContextString_ok hp hpoints.idempotency
  have honly : onlyFields c.entries CONTEXT_FIELDS = true :=
    onlyFields_of_sublist (keys_sublist c) (by decide)
  obtain ⟨hversion, hinvocation, hattempt, htriggerEntry, hidempotency⟩ := get_entries c
  have hdict : c.toDict = .dict c.entries := rfl
  rw [hdict] at hsize ⊢
  rw [fromDict, hsize, if_pos honly, hversion]
  simp only [hinvocation, hattempt, htriggerEntry, hidempotency, hs, hp,
    ToolExecutionTrigger.fromDict_toDict other htrigger hpoints.trigger, bind, Except.bind, h]
  rfl

/-- A manual call at a time whose zone is 53 minutes and 28 seconds ahead of UTC. -/
def manualCall : ToolExecutionContext where
  invocationId := str "call-1"
  attempt := 1
  trigger := ⟨str "manual", none, none,
    some ⟨1891, 3, 14, 23, 59, 59, 999999, some 3208000000, by decide⟩, none⟩
  idempotencyKey := some (str "key")
  version := 1

end ToolExecutionContext

end KestrelSdk.Protocol
