import KestrelSdk.ComputerUse.Codec
import KestrelSdk.ComputerUse.Custody

namespace KestrelSdk.ComputerUse

open Json
open Features (isStableToken)

/-- A value that JSON keeps, with at most these levels of nesting and this much text. -/
structure Fits (f : Str → PyFloat) (levels : Nat) (v : Value) (size : Nat) : Prop where
  plain : Plain f v
  short : Short v
  depth : depth v ≤ levels
  size : textSize v ≤ size

variable {f : Str → PyFloat} {levels : Nat}

/-- A field name that needs few quoted characters. -/
def keyFits : Key → Bool
  | .str s => s.all (· < 128) && (dumpStr s).length ≤ 24
  | _ => false

/-- An object of values that JSON keeps, whatever its size. -/
theorem Fits.object {es : Dict} (hnd : (es.map Prod.fst).Nodup)
    (hkeys : ∀ e ∈ es, ∃ s, e.1 = .str s ∧ ∀ c ∈ s, c < 128)
    (h : ∀ e ∈ es, ∃ n, Fits f levels e.2 n) :
    Fits f (levels + 1) (.dict es) (textSize (.dict es)) := by
  constructor
  · rw [Plain, plainEntries_iff]
    refine ⟨hnd, ?_⟩
    intro e he
    obtain ⟨s, hs, hascii⟩ := hkeys e he
    obtain ⟨n, hn⟩ := h e he
    refine ⟨⟨s, hs, ?_⟩, hn.plain⟩
    intro c hc
    exact .inl ((hascii c hc).trans (by decide))
  · rw [Short, shortEntries_iff]
    intro e he
    obtain ⟨n, hn⟩ := h e he
    exact hn.short
  · rw [Json.depth]
    have hle : depthEntries es ≤ levels := by
      apply depthEntries_le_iff.2
      intro e he
      obtain ⟨n, hn⟩ := h e he
      exact hn.depth
    omega
  · exact le_rfl

theorem Fits.dict {es : Dict} {sizes : List Nat} (hnd : (es.map Prod.fst).Nodup)
    (hkeys : es.all (fun e => keyFits e.1) = true)
    (h : List.Forall₂ (fun e n => Fits f levels e.2 n) es sizes) :
    Fits f (levels + 1) (.dict es) (sizes.sum + 26 * sizes.length + 2) := by
  have hmem : ∀ e ∈ es, ∃ n, Fits f levels e.2 n := by
    intro e he
    obtain ⟨i, hi, rfl⟩ := List.getElem_of_mem he
    exact ⟨_, (List.forall₂_iff_get.1 h).2 i hi (by rwa [← h.length_eq])⟩
  have hkey : ∀ e ∈ es, ∃ s, e.1 = .str s ∧ (∀ c ∈ s, c < 128) ∧ (dumpStr s).length ≤ 24 := by
    intro e he
    have hfits := List.all_eq_true.1 hkeys e he
    cases hk : e.1 <;> rw [hk] at hfits <;> simp [keyFits] at hfits
    exact ⟨_, rfl, hfits.1, hfits.2⟩
  have hobject := Fits.object hnd (fun e he => by
    obtain ⟨s, hs, hascii, -⟩ := hkey e he
    exact ⟨s, hs, hascii⟩) hmem
  refine ⟨hobject.plain, hobject.short, hobject.depth, ?_⟩
  rw [textSize]
  have hsum : entriesSize es ≤ sizes.sum + 26 * sizes.length := by
    clear hnd hkeys hmem hobject
    induction h with
    | nil => exact Nat.zero_le _
    | cons he _ ih =>
      rename_i e n es sizes hes
      obtain ⟨k, v⟩ := e
      obtain ⟨s, hs, -, hlen⟩ := hkey (k, v) (List.mem_cons_self ..)
      have hrest := ih fun e he => hkey e (List.mem_cons_of_mem _ he)
      have hk : keySize k ≤ 24 := by
        obtain rfl : k = .str s := hs
        exact hlen
      have hv : textSize v ≤ n := he.size
      rw [entriesSize, List.sum_cons, List.length_cons]
      omega
  omega

theorem Fits.mono {v : Value} {n m more : Nat} (h : Fits f levels v n) (hn : n ≤ m)
    (hl : levels ≤ more) : Fits f more v m :=
  ⟨h.plain, h.short, h.depth.trans hl, h.size.trans hn⟩

/-- A value within its limits is encoded, in the order of its keys. -/
theorem Fits.dumps {json : Interpreter} {v : Value} {n : Nat}
    (h : Fits json.floatOf levels v n) (hroom : levels ≤ json.nesting) :
    ∃ text, json.dumps (sortKeys v) = .ok text :=
  dump_total json.floatOf (sortKeys v) json.nesting (plain_sortKeys v h.plain)
    (short_sortKeys v h.short) (((depth_sortKeys v).trans h.depth).trans hroom)

theorem Fits.dumpsDefault {json : Interpreter} {v : Value} {n : Nat}
    (h : Fits json.floatOf levels v n) (hroom : levels ≤ json.nesting) :
    ∃ text, json.dumpsDefault (sortKeys v) = .ok text := by
  obtain ⟨text, htext⟩ := h.dumps hroom
  exact dumpWith_total (sortKeys v) htext

/-- The encoded value is read back. -/
theorem Fits.loads {json : Interpreter} {v : Value} {n : Nat} {text : Str}
    (h : Fits json.floatOf levels v n) (hroom : levels ≤ json.nesting)
    (htext : json.dumps (sortKeys v) = .ok text) : json.loads text = .ok (sortKeys v) := by
  have hdepth := ((depth_sortKeys v).trans h.depth).trans hroom
  have hloads := json.loads_dump htext (s := []) (.inl rfl)
  rw [List.append_nil, if_pos hdepth, image_plain _ _ (plain_sortKeys v h.plain)] at hloads
  exact hloads

theorem Fits.text_length {json : Interpreter} {v : Value} {n : Nat} {text : Str}
    (h : Fits json.floatOf levels v n) (htext : json.dumps (sortKeys v) = .ok text) :
    text.length ≤ n := by
  apply (dump_length (sortKeys v) htext).trans
  rw [textSize_sortKeys]
  exact h.size

theorem Fits.null : Fits f levels .none 4 :=
  ⟨trivial, trivial, Nat.zero_le _, le_rfl⟩

theorem natText_length {n k : Nat} (hk : 0 < k) (h : n < 10 ^ k) : (natText n).length ≤ k := by
  rw [natText, List.length_map]
  exact (Nat.length_toDigits_le_iff (by decide) hk).2 h

theorem Fits.int {i : Int} (h : i.natAbs < 10 ^ 20) : Fits f levels (.int i) 21 := by
  have hlen : (natText i.natAbs).length ≤ 20 := natText_length (by decide) h
  constructor
  · trivial
  · exact hlen.trans (by decide)
  · exact Nat.zero_le _
  · rw [textSize]
    omega

theorem Fits.scalars {s : Str} {n : Nat} (h : ∀ c ∈ s, IsScalar c) (hlen : s.length ≤ n) :
    Fits f levels (.str s) (12 * n + 2) := by
  constructor
  · exact h
  · trivial
  · exact Nat.zero_le _
  · have := dumpStr_length s
    rw [textSize]
    omega

theorem Fits.ascii {s : Str} {n : Nat} (h : ∀ c ∈ s, c < 128) (hlen : s.length ≤ n) :
    Fits f levels (.str s) (12 * n + 2) := by
  apply Fits.scalars _ hlen
  intro c hc
  exact .inl ((h c hc).trans (by decide))

theorem Fits.optional {α : Type} {dump : α → Value} {o : Option α} {n : Nat}
    (h : ∀ a ∈ o, Fits f levels (dump a) n) : Fits f levels (dumpOptional dump o) (n + 4) := by
  cases o with
  | none => exact Fits.null.mono (Nat.le_add_left ..) le_rfl
  | some a => exact (h a rfl).mono (Nat.le_add_right ..) le_rfl

theorem token_ascii {s : Str} (h : isStableToken s = true) :
    s.length ≤ 256 ∧ ∀ c ∈ s, c < 128 := by
  simp only [isStableToken, Bool.and_eq_true, List.all_eq_true, decide_eq_true_eq] at h
  refine ⟨h.1.1.1, ?_⟩
  intro c hc
  have hchar := h.2 c hc
  simp only [Features.isAlnum, Bool.or_eq_true, Bool.and_eq_true, decide_eq_true_eq,
    beq_iff_eq] at hchar
  omega

theorem digest_ascii {s : Str} (h : isDigest s = true) : s.length ≤ 64 ∧ ∀ c ∈ s, c < 128 := by
  simp only [isDigest, Bool.and_eq_true, List.all_eq_true, beq_iff_eq] at h
  refine ⟨h.1.le, ?_⟩
  intro c hc
  have hchar := h.2 c hc
  simp only [isHex, Bool.or_eq_true, Bool.and_eq_true, decide_eq_true_eq] at hchar
  omega

theorem Fits.token {s : Str} (h : isStableToken s = true) : Fits f levels (.str s) 3074 :=
  Fits.ascii (token_ascii h).2 (token_ascii h).1

theorem Fits.digest {s : Str} (h : isDigest s = true) : Fits f levels (.str s) 770 :=
  Fits.ascii (digest_ascii h).2 (digest_ascii h).1

theorem Fits.secret {raw : Bytes} {n : Nat} (h : raw.length ≤ n) :
    Fits f levels (encodeSecret raw) (4 * ((n + 2) / 3) + 2) := by
  have hplain : ∀ c ∈ (Base64.encode raw).map UInt8.toNat,
      43 ≤ c ∧ c ≤ 122 ∧ c ≠ 92 := by
    intro c hc
    obtain ⟨b, hb, rfl⟩ := List.mem_map.1 hc
    exact Base64.encode_plain raw b hb
  constructor
  · intro c hc
    have := hplain c hc
    exact .inl (by omega)
  · trivial
  · exact Nat.zero_le _
  · rw [encodeSecret, textSize, dumpStr_length_plain, List.length_map, Base64.encode_length]
    · have : (raw.length + 2) / 3 ≤ (n + 2) / 3 := Nat.div_le_div_right (by omega)
      omega
    · intro c hc
      have := hplain c hc
      omega

theorem ResourceScope.fields_nodup (s : ResourceScope) : (s.fields.map Prod.fst).Nodup := by
  simp +decide [fields, entry]

theorem Fits.scope {s : ResourceScope} (h : s.valid = true) : Fits f 1 s.dump 9353 := by
  simp only [ResourceScope.valid, Bool.and_eq_true] at h
  obtain ⟨⟨htenant, hprincipal⟩, hagent⟩ := h
  have hagent' : Fits f 0 (dumpOptional .str s.agent_id) 3078 := by
    apply Fits.optional
    intro a ha
    apply Fits.token
    rw [Option.mem_def.1 ha] at hagent
    exact hagent
  exact Fits.dict s.fields_nodup rfl
    (.cons (Fits.int (by decide)) <| .cons (Fits.token htenant) <|
      .cons (Fits.token hprincipal) <| .cons hagent' .nil)

theorem Fits.location (l : Location) : Fits f levels (.str l.text) 98 :=
  Fits.ascii (n := 8) (by cases l <;> decide) (by cases l <;> decide)

theorem EnvironmentLease.fields_nodup (py : Pydantic) (l : EnvironmentLease) :
    ((l.fields py).map Prod.fst).Nodup := by
  simp +decide [fields, entry]

theorem Fits.lease {py : Pydantic} (hmoment : ∀ m, Fits f 1 (dumpMoment py m) 770)
    {l : EnvironmentLease} (h : l.Sound) (hreleased : l.released_at = none)
    (hcost : l.actual_cost_usd = none)
    (hscalar : ∀ r ∈ l.provider_resource_id, ∀ c ∈ r, IsScalar c) :
    Fits f 2 (l.dump py) 51000 := by
  obtain ⟨hlease, hrequest, hquote, hscope, hprovider, hresource, -⟩ := h
  have hstate : Fits f 1 (.str l.state.text) 122 :=
    Fits.ascii (n := 10) (by cases l.state <;> decide) (by cases l.state <;> decide)
  have hresource' : Fits f 1 (dumpOptional .str l.provider_resource_id) 24582 :=
    Fits.optional fun r hr => Fits.scalars (hscalar r hr) (hresource r hr).2
  have hnone : ∀ dump : Decimal → Value, Fits f 1 (dumpOptional dump l.actual_cost_usd) 4 := by
    intro dump
    rw [hcost]
    exact Fits.null
  have hnone' : ∀ dump : Moment → Value, Fits f 1 (dumpOptional dump l.released_at) 4 := by
    intro dump
    rw [hreleased]
    exact Fits.null
  apply Fits.mono (Fits.dict (l.fields_nodup py) rfl
    (.cons (Fits.int (by decide)) <| .cons (Fits.token hlease) <| .cons (Fits.token hrequest) <|
      .cons (Fits.token hquote) <| .cons (Fits.scope hscope) <| .cons (Fits.token hprovider) <|
      .cons (Fits.location l.location) <| .cons hstate <| .cons (hmoment l.expires_at) <|
      .cons hresource' <| .cons (hnone' _) <| .cons (hnone _) .nil)) _ le_rfl
  decide

/-- What pydantic documents of its JSON forms: the text of a datetime is short ASCII, and a
whole-minute offset survives it; JSON texts are read as the values they were written from. -/
structure Pydantic.Documented (py : Pydantic) (json : Interpreter) : Prop where
  datetime_read : ∀ (m : Moment) (o : Int), m.offset = some o → o % MINUTE = 0 →
    py.loadDatetime (py.dumpDatetime m) = some m
  datetime_length : ∀ m, (py.dumpDatetime m).length ≤ 64
  datetime_ascii : ∀ m, ∀ c ∈ py.dumpDatetime m, c < 128
  parse : ∀ (v : Value) (text : Str), Plain json.floatOf v → depth v ≤ 200 →
    json.dumpsDefault v = .ok text → py.parseJson text = some v

namespace EnvironmentAcquisitionCheckpoint

theorem privateFields_eq (py : Pydantic) (c : EnvironmentAcquisitionCheckpoint) : c.privateFields py =
    c.fields py ++ [entry "preparation_sha256" (dumpOptional .str c.preparation_sha256)] := by
  apply Dict.set_of_fresh
  simp +decide [fields, entry]

theorem privateFields_nodup (py : Pydantic) (c : EnvironmentAcquisitionCheckpoint) :
    ((c.privateFields py).map Prod.fst).Nodup := by
  rw [privateFields_eq]
  simp +decide [fields, entry]

end EnvironmentAcquisitionCheckpoint

/-- What the codec keeps of a lease: no cost, and a resource in Unicode. -/
def EnvironmentLease.Minimal (l : EnvironmentLease) : Prop :=
  l.actual_cost_usd = none ∧ ∀ r ∈ l.provider_resource_id, ∀ c ∈ r, IsScalar c

instance (l : EnvironmentLease) : Decidable l.Minimal := by
  unfold EnvironmentLease.Minimal; infer_instance

/-- A checkpoint holds no released lease. -/
theorem EnvironmentAcquisitionCheckpoint.Valid.unreleased {c : EnvironmentAcquisitionCheckpoint}
    (h : c.Valid) {l : EnvironmentLease} (hl : l ∈ c.lease) : l.released_at = none := by
  obtain ⟨-, -, -, -, -, -, -, hreleased, -⟩ :=
    (EnvironmentLease.validate_iff.1 (h.leases l hl)).1
  have hstate : l.state ≠ .released := (h.facts.2.2.2 l hl).2.1
  rw [ne_eq, hreleased, Bool.not_eq_true, Option.isSome_eq_false_iff, Option.isNone_iff_eq_none]
    at hstate
  exact hstate

theorem Fits.preparation (p : EnvironmentAcquisitionPreparation) :
    Fits f 1 p.dump 873874 := by
  have hnd : (p.fields.map Prod.fst).Nodup := by
    simp +decide [EnvironmentAcquisitionPreparation.fields, entry]
  apply Fits.mono (Fits.dict hnd rfl
    (.cons (Fits.secret p.create_bounded.2) <| .cons (Fits.secret p.identity_bounded.2) .nil))
    _ le_rfl
  decide

section

variable {py : Pydantic} {json : Interpreter} (hpy : py.Documented json)

include hpy

theorem Fits.moment (m : Moment) : Fits f levels (dumpMoment py m) 770 :=
  Fits.ascii (hpy.datetime_ascii m) (hpy.datetime_length m)

theorem Fits.checkpoint {c : EnvironmentAcquisitionCheckpoint} (h : c.Valid)
    (hsequence : c.sequence < 2 ^ 63) (hlease : ∀ l ∈ c.lease, l.Minimal) :
    Fits f 3 (.dict (c.privateFields py)) 80000 := by
  obtain ⟨hattempt, hrequest, hrequestSha, hquote, hquoteSha, hscope, hprovider, hdigest⟩ :=
    h.identified
  have hsequence' : Fits f 2 (.int c.sequence) 21 := by
    apply Fits.int
    have : (2 : Nat) ^ 63 < 10 ^ 20 := by decide
    omega
  have hstate : Fits f 2 (.str c.state.text) 134 :=
    Fits.ascii (n := 11) (by cases c.state <;> decide) (by cases c.state <;> decide)
  have hlease' : Fits f 2 (dumpOptional (EnvironmentLease.dump py) c.lease) 51004 := by
    apply Fits.optional
    intro l hl
    obtain ⟨hcost, hscalar⟩ := hlease l hl
    exact Fits.lease (Fits.moment hpy) (EnvironmentLease.validate_iff.1 (h.leases l hl)).1
      (h.unreleased hl) hcost hscalar
  have hdigest' : Fits f 2 (dumpOptional .str c.preparation_sha256) 774 :=
    Fits.optional fun d hd => Fits.digest (hdigest d hd)
  have hnd := c.privateFields_nodup py
  rw [c.privateFields_eq py] at hnd ⊢
  apply Fits.mono (Fits.dict hnd rfl
    (.cons (Fits.int (by decide)) <| .cons (Fits.token hattempt) <| .cons (Fits.token hrequest) <|
      .cons (Fits.digest hrequestSha) <| .cons (Fits.token hquote) <|
      .cons (Fits.digest hquoteSha) <| .cons ((Fits.scope hscope).mono le_rfl (by decide)) <|
      .cons (Fits.token hprovider) <| .cons (Fits.location c.location) <|
      .cons (Fits.moment hpy c.expires_at) <| .cons hsequence' <| .cons hstate <|
      .cons hlease' <| .cons hdigest' .nil)) _ le_rfl
  decide

theorem Fits.storage {s : EnvironmentAcquisitionStorage} (h : s.checkpoint.Valid)
    (hsequence : s.checkpoint.sequence < 2 ^ 63) (hlease : ∀ l ∈ s.checkpoint.lease, l.Minimal) :
    Fits f 4 (.dict (s.fields py)) MAX_ACQUISITION_STORAGE_BYTES := by
  have hnd : ((s.fields py).map Prod.fst).Nodup := by
    simp +decide [EnvironmentAcquisitionStorage.fields, entry]
  have hpreparation :
      Fits f 3 (dumpOptional EnvironmentAcquisitionPreparation.dump s.preparation) 873878 :=
    Fits.optional fun p _ => (Fits.preparation p).mono le_rfl (by decide)
  apply Fits.mono (Fits.dict hnd rfl
    (.cons (Fits.int (by decide)) <| .cons (Fits.checkpoint hpy h hsequence hlease) <|
      .cons hpreparation .nil)) _ le_rfl
  decide

end

end KestrelSdk.ComputerUse
