import KestrelSdk.ComputerUse.Bounds

namespace KestrelSdk.ComputerUse

open Json

section

variable {α : Type} {es : Dict} (h : (es.map Prod.fst).Nodup) (name : String)
  (read : Value → Option α)

include h

theorem required_sorted :
    required (sortEntries es) name read = required es name fun v => read (sortKeys v) := by
  rw [required, required, get_sortEntries h, Option.bind_map]
  rfl

theorem defaulted_sorted (default : α) : defaulted (sortEntries es) name default read =
    defaulted es name default fun v => read (sortKeys v) := by
  rw [defaulted, defaulted, get_sortEntries h]
  cases es.get (str name) <;> rfl

end

theorem forbidExtra_sorted (es : Dict) (names : List String) :
    forbidExtra (sortEntries es) names = forbidExtra es names := by
  have hkeys : ∀ d : Dict, forbidExtra d names =
      (d.map Prod.fst).all fun k => decide (k ∈ names.map fun n => Key.str (str n)) := by
    intro d
    rw [List.all_map]
    rfl
  rw [hkeys, hkeys]
  exact (sortEntries_keys es).all_eq

theorem sortKeys_dumpOptional {β : Type} (dump : β → Value) (o : Option β) :
    sortKeys (dumpOptional dump o) = dumpOptional (fun a => sortKeys (dump a)) o := by
  cases o <;> rfl

/-- An optional field is read back when its value is. -/
theorem readOptional_dumpOptional {β : Type} {dump : β → Value} {read : Value → Option β}
    {o : Option β} (hnone : ∀ a, dump a ≠ .none) (h : ∀ a ∈ o, read (dump a) = some a) :
    readOptional read (dumpOptional dump o) = some o := by
  cases o with
  | none => rfl
  | some a =>
    rw [dumpOptional, readOptional]
    · rw [h a rfl]
      rfl
    · exact hnone a

theorem readScope_sorted (s : ResourceScope) : readScope (sortKeys s.dump) = some s := by
  obtain ⟨tenant_id, principal_id, agent_id⟩ := s
  have hagent : readOptional readText (dumpOptional .str agent_id) = some agent_id :=
    readOptional_dumpOptional (by simp) (by simp [readText])
  have hnd := ResourceScope.fields_nodup ⟨tenant_id, principal_id, agent_id⟩
  rw [ResourceScope.dump, sortKeys, readScope, forbidExtra_sorted]
  simp only [required_sorted hnd, defaulted_sorted hnd]
  simp +decide [required, defaulted, ResourceScope.fields, entry, Dict.get_cons,
    sortKeys, sortKeys_dumpOptional, readText, readVersion, hagent, forbidExtra, guard]

theorem Moment.validate_offset {m : Moment} (h : m.validate = some m) :
    ∃ o, m.offset = some o ∧ o % MINUTE = 0 := by
  unfold validate at h
  split at h
  · cases h
  · rename_i o ho
    split at h
    · rename_i hminute
      exact ⟨o, ho, hminute⟩
    · rw [(toUtc_instant h).2] at ho
      obtain rfl := Option.some.inj ho
      exact ⟨0, (toUtc_instant h).2, by decide⟩

variable {py : Pydantic} {json : Interpreter}

theorem readMoment_dump (hpy : py.Documented json) {m : Moment} (h : m.validate = some m) :
    readMoment py (dumpMoment py m) = some m := by
  obtain ⟨o, ho, hminute⟩ := Moment.validate_offset h
  exact hpy.datetime_read m o ho hminute

theorem sortKeys_dumpMoment (m : Moment) : sortKeys (dumpMoment py m) = dumpMoment py m := rfl

theorem readOptional_none {α β : Type} (dump : β → Value) (read : Value → Option α) :
    readOptional read (dumpOptional dump none) = some none := rfl

theorem readLocation (l : Location) :
    readLiteral Location.text Location.all (.str l.text) = some l := by
  cases l <;> decide

theorem readLeaseState (s : LeaseState) :
    readLiteral LeaseState.text LeaseState.all (.str s.text) = some s := by
  cases s <;> decide

theorem readAcquisitionState (s : AcquisitionState) :
    readLiteral AcquisitionState.text AcquisitionState.all (.str s.text) = some s := by
  cases s <;> decide

/-- A lease without a release and a cost is read back. -/
theorem readLease_sorted (hpy : py.Documented json) {l : EnvironmentLease}
    (hexpires : l.expires_at.validate = some l.expires_at) (hreleased : l.released_at = none)
    (hcost : l.actual_cost_usd = none) : readLease py (sortKeys (l.dump py)) = some l := by
  have hnd := l.fields_nodup py
  obtain ⟨lease_id, request_id, quote_id, scope, provider_id, location, state, expires_at,
    resource, released_at, cost⟩ := l
  dsimp only at hexpires hreleased hcost
  subst hreleased hcost
  have hresource : readOptional readText (dumpOptional .str resource) = some resource :=
    readOptional_dumpOptional (by simp) (by simp [readText])
  have hmoment := readMoment_dump hpy hexpires
  rw [EnvironmentLease.dump, sortKeys, readLease, forbidExtra_sorted]
  simp only [required_sorted hnd, defaulted_sorted hnd]
  simp +decide [required, defaulted, EnvironmentLease.fields, entry, Dict.get_cons, sortKeys,
    sortKeys_dumpOptional, sortKeys_dumpMoment, readText, readVersion, readScope_sorted,
    readLocation, readLeaseState, hresource, hmoment, readOptional_none, forbidExtra, guard]

theorem readCheckpoint_sorted (hpy : py.Documented json) {c : EnvironmentAcquisitionCheckpoint}
    (hc : c.Valid) (hlease : ∀ l ∈ c.lease, l.Minimal) :
    readCheckpoint py (sortKeys (.dict (c.privateFields py))) = some c := by
  have hnd := c.privateFields_nodup py
  have hmoment := readMoment_dump hpy hc.expires
  have hread : readOptional (readLease py)
      (dumpOptional (fun l => sortKeys (EnvironmentLease.dump py l)) c.lease) = some c.lease := by
    apply readOptional_dumpOptional
    · intro l
      simp [EnvironmentLease.dump, sortKeys]
    · intro l hl
      obtain ⟨-, e, r, he, -, hsame⟩ := EnvironmentLease.validate_iff.1 (hc.leases l hl)
      apply readLease_sorted hpy _ (hc.unreleased hl) (hlease l hl).1
      rw [he]
      exact congrArg (some ·.expires_at) hsame.symm
  have hdigest : readOptional readText (dumpOptional .str c.preparation_sha256) =
      some c.preparation_sha256 := readOptional_dumpOptional (by simp) (by simp [readText])
  rw [sortKeys, readCheckpoint, forbidExtra_sorted]
  simp only [required_sorted hnd, defaulted_sorted hnd]
  rw [c.privateFields_eq py]
  simp +decide [required, defaulted, EnvironmentAcquisitionCheckpoint.fields, entry,
    Dict.get_cons, sortKeys, sortKeys_dumpOptional, sortKeys_dumpMoment, readText, readVersion,
    readScope_sorted, readLocation, readAcquisitionState, readNat, hmoment, hread, hdigest,
    forbidExtra, guard]

/-- The JSON parser reads a sorted value back. -/
theorem parseJson_sorted (hpy : py.Documented json) {v : Value} {n : Nat}
    (hfits : Fits json.floatOf 3 v n) {text : Str}
    (htext : json.dumpsDefault (sortKeys v) = .ok text) :
    py.parseJson text = some (sortKeys v) := by
  have hdepth : depth (sortKeys v) ≤ 200 :=
    (depth_sortKeys v).trans (hfits.depth.trans (by decide))
  exact hpy.parse (sortKeys v) text (plain_sortKeys v hfits.plain) hdepth htext

theorem modelValidateJson_dumps (hpy : py.Documented json) {c : EnvironmentAcquisitionCheckpoint}
    (hc : c.Valid) (hlease : ∀ l ∈ c.lease, l.Minimal) {text : Str}
    (hfits : Fits json.floatOf 3 (.dict (c.privateFields py)) 80000)
    (htext : json.dumpsDefault (sortKeys (.dict (c.privateFields py))) = .ok text) :
    modelValidateJson py text = some c := by
  rw [modelValidateJson, parseJson_sorted hpy hfits htext]
  simp only [Option.bind_eq_bind, Option.bind_some, readCheckpoint_sorted hpy hc hlease]
  exact hc.validate_eq

/-- The secret bytes are read back. -/
theorem decodeSecret_encodeSecret (rel : Base64.Release) (raw : Bytes) :
    decodeSecret rel (encodeSecret raw) = some raw := by
  have hascii : ((Base64.encode raw).map UInt8.toNat).all (· < 128) = true := by
    rw [List.all_eq_true]
    intro c hc
    obtain ⟨b, hb, rfl⟩ := List.mem_map.1 hc
    have := Base64.encode_plain raw b hb
    exact decide_eq_true (by omega)
  have hbytes : ((Base64.encode raw).map UInt8.toNat).map UInt8.ofNat = Base64.encode raw := by
    simp [List.map_map, Function.comp_def]
  rw [encodeSecret, decodeSecret, if_pos hascii, hbytes, Base64.decode_encoded]

theorem readPreparation_sorted (rel : Base64.Release)
    (o : Option EnvironmentAcquisitionPreparation) :
    readPreparation rel (sortKeys (dumpOptional EnvironmentAcquisitionPreparation.dump o)) =
      some (o.map fun p => (p.create_payload, p.worker_identity)) := by
  cases o with
  | none => rfl
  | some p =>
    have hnd : (p.fields.map Prod.fst).Nodup := by
      simp +decide [EnvironmentAcquisitionPreparation.fields, entry]
    have hsort : ∀ raw, sortKeys (encodeSecret raw) = encodeSecret raw := fun _ => rfl
    rw [dumpOptional, EnvironmentAcquisitionPreparation.dump, sortKeys, readPreparation,
      forbidExtra_sorted]
    simp only [required_sorted hnd]
    simp +decide [required, EnvironmentAcquisitionPreparation.fields, entry, Dict.get_cons, hsort,
      decodeSecret_encodeSecret, forbidExtra, guard]

theorem checkPreparation_map (o : Option EnvironmentAcquisitionPreparation) :
    checkPreparation (o.map fun p => (p.create_payload, p.worker_identity)) = some o := by
  cases o with
  | none => rfl
  | some p =>
    rw [Option.map_some, checkPreparation, EnvironmentAcquisitionPreparation.new,
      dif_pos ⟨p.create_bounded, p.identity_bounded⟩]
    rfl

theorem detectsUtf8_printable {raw : Bytes} (h : ∀ b ∈ raw, b ≠ 0 ∧ b < 0x80) :
    detectsUtf8 raw = true := by
  have hmark : BOMS.any (·.isPrefixOf raw) = false := by
    cases raw with
    | nil => rfl
    | cons a raw =>
      obtain ⟨hne, hlt⟩ := h a (List.mem_cons_self ..)
      have hbom : ∀ bom ∈ BOMS, ∃ m ms, bom = m :: ms ∧ (m = 0 ∨ ¬ m < 0x80) := by
        intro bom hbom
        simp only [BOMS, List.mem_cons, List.not_mem_nil, or_false] at hbom
        rcases hbom with rfl | rfl | rfl | rfl | rfl <;> exact ⟨_, _, rfl, by decide⟩
      rw [List.any_eq_false]
      intro bom hmem hpre
      obtain ⟨m, ms, rfl, hm⟩ := hbom bom hmem
      rw [List.isPrefixOf, Bool.and_eq_true, beq_iff_eq] at hpre
      obtain ⟨rfl, -⟩ := hpre
      rcases hm with hm | hm
      · exact hne hm
      · exact hm hlt
  unfold detectsUtf8
  rw [hmark]
  simp only [Bool.false_eq_true, if_false]
  split
  · rename_i a b
    have ha := (h a (List.mem_cons_self ..)).1
    have hb := (h b (List.mem_cons_of_mem _ (List.mem_cons_self ..))).1
    simp [ha, hb]
  · rename_i a b _ _ _
    have ha := (h a (List.mem_cons_self ..)).1
    have hb := (h b (List.mem_cons_of_mem _ (List.mem_cons_self ..))).1
    simp [ha, hb]
  · rfl

/-- A text that `ensure_ascii` leaves is decoded as it was encoded. -/
theorem decodeBytes_encodeUtf8 (other : Bytes → Option Str) {text : Str} (h : Printable text) :
    encodeUtf8 text = some (text.map UInt8.ofNat) ∧
      decodeBytes other (text.map UInt8.ofNat) = some text := by
  have hascii : ∀ c ∈ text, c < 0x80 := by
    intro c hc
    have := h c hc
    omega
  obtain ⟨hencode, hdecode⟩ := encodeUtf8_ascii hascii
  refine ⟨hencode, ?_⟩
  have hdetect : detectsUtf8 (text.map UInt8.ofNat) = true := by
    apply detectsUtf8_printable
    intro b hb
    obtain ⟨c, hc, rfl⟩ := List.mem_map.1 hb
    have hrange := h c hc
    have hnat : (UInt8.ofNat c).toNat = c := by
      rw [UInt8.toNat_ofNat']
      omega
    rw [ne_eq, ← UInt8.toNat_inj, UInt8.lt_iff_toNat_lt, hnat]
    exact ⟨by simp; omega, by simp; omega⟩
  rw [decodeBytes, if_pos hdetect, hdecode]
  rfl

/-- Equal checkpoints, where datetimes are equal when they stand for the same instant. -/
structure EnvironmentLease.Equal (l m : EnvironmentLease) : Prop where
  expires : l.expires_at.instant = m.expires_at.instant
  released : l.released_at.map Moment.instant = m.released_at.map Moment.instant
  rest : { l with expires_at := m.expires_at, released_at := m.released_at } = m

structure EnvironmentAcquisitionCheckpoint.Equal (c d : EnvironmentAcquisitionCheckpoint) :
    Prop where
  expires : c.expires_at.instant = d.expires_at.instant
  lease : Option.Rel EnvironmentLease.Equal c.lease d.lease
  rest : { c with expires_at := d.expires_at, lease := d.lease } = d

structure EnvironmentAcquisitionStorage.Equal (s t : EnvironmentAcquisitionStorage) : Prop where
  checkpoint : s.checkpoint.Equal t.checkpoint
  preparation : s.preparation = t.preparation

theorem EnvironmentLease.equal_of_validate {l m : EnvironmentLease} (h : l.validate = some m) :
    m.Equal l := by
  obtain ⟨-, e, r, he, hr, rfl⟩ := validate_iff.1 h
  constructor
  · exact Moment.validate_instant he
  · cases hl : l.released_at with
    | none =>
      rw [hl] at hr
      cases hr
      rfl
    | some u =>
      rw [hl] at hr
      obtain ⟨v, hv, rfl⟩ := Option.map_eq_some_iff.1 hr
      exact congrArg some (Moment.validate_instant hv)
  · rfl

theorem EnvironmentAcquisitionCheckpoint.equal_of_validate
    {c d : EnvironmentAcquisitionCheckpoint} (h : c.validate = some d) : d.Equal c := by
  obtain ⟨-, e, l, he, hl, rfl, -⟩ := validate_iff.1 h
  constructor
  · exact Moment.validate_instant he
  · cases hc : c.lease with
    | none =>
      rw [hc] at hl
      cases hl
      exact .none
    | some u =>
      rw [hc] at hl
      obtain ⟨v, hv, rfl⟩ := Option.map_eq_some_iff.1 hl
      exact .some (EnvironmentLease.equal_of_validate hv)
  · rfl

theorem EnvironmentAcquisitionStorage.validate_iff {lib : Digests}
    {s t : EnvironmentAcquisitionStorage} : s.validate lib = some t ↔
      ∃ checkpoint, s.checkpoint.validate = some checkpoint ∧
        ((s.preparation = none ↔ checkpoint.preparation_sha256 = none) ∧
          ∀ p ∈ s.preparation, checkpoint.preparation_sha256 = some (p.digest lib).1) ∧
        t = { s with checkpoint := checkpoint } := by
  unfold validate
  simp only [Option.bind_eq_bind, Option.bind_eq_some_iff, Option.guard_eq_some', exists_const,
    Option.pure_def, Option.some.injEq, eq_comm (a := t)]

theorem minimal_of_validate {c d : EnvironmentAcquisitionCheckpoint} (h : c.validate = some d)
    (hlease : ∀ l ∈ c.lease, l.Minimal) : ∀ l ∈ d.lease, l.Minimal := by
  obtain ⟨-, e, l, -, hl, rfl, -⟩ := EnvironmentAcquisitionCheckpoint.validate_iff.1 h
  intro m hm
  obtain ⟨u, hu, hvalid⟩ := checkOptional_some hl m hm
  obtain ⟨-, _, _, -, -, rfl⟩ := EnvironmentLease.validate_iff.1 hvalid
  exact hlease u hu

/-- The stored object is read back as the record, whatever its order. -/
theorem readStorage_sorted (hpy : py.Documented json) (hroom : 4 ≤ json.nesting) {lib : Digests}
    {rel : Base64.Release} {s : EnvironmentAcquisitionStorage} (hs : s.validate lib = some s)
    (hc : s.checkpoint.Valid) (hsequence : s.checkpoint.sequence < 2 ^ 63)
    (hlease : ∀ l ∈ s.checkpoint.lease, l.Minimal) :
    readStorage py lib json rel (sortKeys (.dict (s.fields py))) = some s := by
  have hnd : ((s.fields py).map Prod.fst).Nodup := by
    simp +decide [EnvironmentAcquisitionStorage.fields, entry]
  have hfits := Fits.checkpoint (f := json.floatOf) hpy hc hsequence hlease
  obtain ⟨text, htext⟩ := hfits.dumpsDefault (Nat.le_of_succ_le hroom)
  have hvalid := modelValidateJson_dumps hpy hc hlease hfits htext
  have hpreparation : Dict.get (sortEntries (s.fields py)) (str "preparation") =
      some (sortKeys (dumpOptional EnvironmentAcquisitionPreparation.dump s.preparation)) := by
    rw [get_sortEntries hnd]
    simp +decide [EnvironmentAcquisitionStorage.fields, entry, Dict.get_cons]
  have hcheckpoint : Dict.get (sortEntries (s.fields py)) (str "checkpoint") =
      some (sortKeys (.dict (s.checkpoint.privateFields py))) := by
    rw [get_sortEntries hnd]
    simp +decide [EnvironmentAcquisitionStorage.fields, entry, Dict.get_cons]
  have hdumps : (json.dumpsDefault (sortKeys (.dict (s.checkpoint.privateFields py)))).toOption =
      some text := by
    rw [htext]
    rfl
  have hversion : defaulted (sortEntries (s.fields py)) "schema_version" () readVersion =
      some () := by
    rw [defaulted_sorted hnd]
    simp +decide [defaulted, EnvironmentAcquisitionStorage.fields, entry, Dict.get_cons, sortKeys,
      readVersion, guard]
  have hextra : forbidExtra (sortEntries (s.fields py))
      ["schema_version", "checkpoint", "preparation"] = true := by
    rw [forbidExtra_sorted]
    simp +decide [EnvironmentAcquisitionStorage.fields, entry, forbidExtra]
  rw [sortKeys, readStorage]
  simp only [hpreparation, hcheckpoint, Option.getD_some, readPreparation_sorted, hdumps, hvalid,
    hextra, hversion, checkPreparation_map, Option.bind_eq_bind, Option.bind_some, guard, if_true,
    Option.pure_def]
  exact hs

/-- The private codec. Every valid record within its limits is stored in at most 1 MiB and read
back as the record that validation makes of it, which only moves datetimes between offsets. -/
theorem storage_read_back (hpy : py.Documented json) (hroom : 4 ≤ json.nesting) (lib : Digests)
    (rel : Base64.Release) (other : Bytes → Option Str)
    {s original : EnvironmentAcquisitionStorage} (hs : s.validate lib = some original)
    (hsequence : s.checkpoint.sequence < 2 ^ 63) (hlease : ∀ l ∈ s.checkpoint.lease, l.Minimal) :
    ∃ raw, s.serializePrivate py lib json = some raw ∧
      raw.length ≤ MAX_ACQUISITION_STORAGE_BYTES ∧
      deserializePrivate py lib json rel other raw = some original ∧ original.Equal s := by
  obtain ⟨c, hc, hexact, rfl⟩ := EnvironmentAcquisitionStorage.validate_iff.1 hs
  have hequal := EnvironmentAcquisitionCheckpoint.equal_of_validate hc
  have hvalid := EnvironmentAcquisitionCheckpoint.Valid.of_validate hc
  have hminimal := minimal_of_validate hc hlease
  have hsequence' : c.sequence < 2 ^ 63 := by
    obtain ⟨-, _, _, -, -, rfl, -⟩ := EnvironmentAcquisitionCheckpoint.validate_iff.1 hc
    exact hsequence
  have hsame : EnvironmentAcquisitionStorage.validate lib ⟨c, s.preparation⟩ =
      some ⟨c, s.preparation⟩ :=
    EnvironmentAcquisitionStorage.validate_iff.2 ⟨c, hvalid.validate_eq, hexact, rfl⟩
  have hfits := Fits.storage (f := json.floatOf) (s := ⟨c, s.preparation⟩) hpy hvalid hsequence'
    hminimal
  obtain ⟨text, htext⟩ := hfits.dumps hroom
  obtain ⟨hencode, hdecode⟩ := decodeBytes_encodeUtf8 other (dump_printable _ htext)
  have hlength : (text.map UInt8.ofNat).length ≤ MAX_ACQUISITION_STORAGE_BYTES := by
    rw [List.length_map]
    exact hfits.text_length htext
  have hstored : EnvironmentAcquisitionStorage.Equal ⟨c, s.preparation⟩ s := ⟨hequal, rfl⟩
  have hraw : s.serializePrivate py lib json = some (text.map UInt8.ofNat) := by
    have hdumps : (json.dumps (sortKeys (.dict (EnvironmentAcquisitionStorage.fields py
        ⟨c, s.preparation⟩)))).toOption = some text := by
      rw [htext]
      rfl
    rw [EnvironmentAcquisitionStorage.serializePrivate, hs]
    simp only [Option.bind_eq_bind, Option.bind_some, hdumps, hencode, guard, if_pos hlength,
      Option.pure_def]
  have hback : deserializePrivate py lib json rel other (text.map UInt8.ofNat) =
      some ⟨c, s.preparation⟩ := by
    have hpositive : 0 < (text.map UInt8.ofNat).length := by
      obtain ⟨_, _, -, -, rfl⟩ := dump_dict (by rw [← sortKeys]; exact htext)
      simp
    have hloads := hfits.loads hroom htext
    rw [deserializePrivate, hdecode]
    simp only [Option.bind_eq_bind, Option.bind_some, guard, if_pos (And.intro hpositive hlength),
      Option.pure_def, hloads, Except.toOption]
    exact readStorage_sorted hpy hroom hsame hvalid hsequence' hminimal
  exact ⟨text.map UInt8.ofNat, hraw, hlength, hback, hstored⟩

/-- The text of the sample's expiry. -/
def sampleText : Str := str "0001-01-02T00:00:00Z"

/-- A clock and an offset as decimal numbers. -/
def plainText (m : Moment) : Str :=
  natText m.clock ++ match m.offset with
    | none => []
    | some o => (if o < 0 then 45 else 43) :: natText o.natAbs

def readPlain (s : Str) : Option Moment :=
  match s.dropWhile isDigit with
  | [] => none
  | c :: digits =>
    let offset : Int := if c = 45 then -(natOf digits : Int) else natOf digits
    if h : natOf (s.takeWhile isDigit) < SPAN ∧ offset.natAbs < Encoding.DAY then
      some ⟨natOf (s.takeWhile isDigit), some offset, h.1, by rintro o ⟨⟩; exact h.2⟩
    else none

/-- A library that writes the sample's expiry as pydantic does. -/
def samplePydantic : Pydantic where
  dumpDatetime m := if m = sampleMoment Encoding.DAY day_lt_span then sampleText else plainText m
  loadDatetime s :=
    if s = sampleText then some (sampleMoment Encoding.DAY day_lt_span) else readPlain s
  dumpDecimal _ := str "0"
  loadDecimal _ := none
  parseJson s := (Interpreter.floatless.loads s).toOption

theorem plainText_chars (m : Moment) : ∀ c ∈ plainText m, c < 90 := by
  have hdigit : ∀ n, ∀ c ∈ natText n, c < 90 := by
    intro n c hc
    have := natText_digit hc
    simp only [isDigit, Bool.and_eq_true, decide_eq_true_eq] at this
    omega
  unfold plainText
  rw [List.forall_mem_append]
  refine ⟨hdigit _, ?_⟩
  split
  · simp
  · rw [List.forall_mem_cons]
    exact ⟨by split <;> decide, hdigit _⟩

theorem plainText_ne (m : Moment) : plainText m ≠ sampleText := by
  intro h
  have hmem : 90 ∈ plainText m := by
    rw [h]
    decide
  exact absurd (plainText_chars m 90 hmem) (by decide)

theorem plainText_length (m : Moment) : (plainText m).length ≤ 64 := by
  have hclock : (natText m.clock).length ≤ 30 :=
    natText_length (by decide) (m.clock_lt.trans (by decide))
  unfold plainText
  rw [List.length_append]
  cases ho : m.offset with
  | none => simpa using hclock.trans (by decide)
  | some o =>
    have hoffset : (natText o.natAbs).length ≤ 30 :=
      natText_length (by decide) ((m.offset_lt o ho).trans (by decide))
    simp only [List.length_cons]
    omega

theorem readPlain_plainText {m : Moment} {o : Int} (ho : m.offset = some o) :
    readPlain (plainText m) = some m := by
  obtain ⟨clock, offset, hclock, hoffset⟩ := m
  obtain rfl : offset = some o := ho
  have hlt : o.natAbs < Encoding.DAY := hoffset o rfl
  have hsign : isDigit (if o < 0 then 45 else 43) = false := by split <;> decide
  have hdigits : ∀ c ∈ natText clock, isDigit c = true := fun c hc => natText_digit hc
  have htake : (plainText ⟨clock, some o, hclock, hoffset⟩).takeWhile isDigit =
      natText clock := by
    rw [plainText, List.takeWhile_append_of_pos hdigits, List.takeWhile_cons, hsign]
    simp
  have hdrop : (plainText ⟨clock, some o, hclock, hoffset⟩).dropWhile isDigit =
      (if o < 0 then 45 else 43) :: natText o.natAbs := by
    rw [plainText, List.dropWhile_append_of_pos hdigits, List.dropWhile_cons, hsign]
    simp
  have hread : (if (if o < 0 then 45 else 43) = 45 then -(o.natAbs : Int) else o.natAbs) = o := by
    split_ifs <;> omega
  unfold readPlain
  simp only [hdrop, htake, natOf_natText, hread]
  rw [dif_pos ⟨hclock, hlt⟩]

theorem samplePydantic_documented : samplePydantic.Documented .floatless := by
  constructor
  · intro m o ho _
    by_cases h : m = sampleMoment Encoding.DAY day_lt_span
    · simp [samplePydantic, h]
    · simp [samplePydantic, h, plainText_ne, readPlain_plainText ho]
  · intro m
    by_cases h : m = sampleMoment Encoding.DAY day_lt_span
    · simp only [samplePydantic, h, if_true]
      decide
    · simp only [samplePydantic, h, if_false]
      exact plainText_length m
  · intro m c hc
    by_cases h : m = sampleMoment Encoding.DAY day_lt_span
    · simp only [samplePydantic, h, if_true] at hc
      revert c
      decide
    · simp only [samplePydantic, h, if_false] at hc
      have := plainText_chars m c hc
      omega
  · intro v text hplain hdepth htext
    have hloads := Interpreter.floatless.loads_dumpWith (by decide) htext (.inl rfl)
    have hroom : depth v ≤ Interpreter.floatless.nesting := hdepth.trans (by decide)
    rw [List.append_nil, if_pos hroom, image_plain _ _ hplain] at hloads
    simp only [samplePydantic, hloads]
    rfl

/-- The record of an attempt whose machine was accepted. -/
def sampleStorage : EnvironmentAcquisitionStorage where
  checkpoint := EnvironmentAcquisitionCheckpoint.sampleStart.run sampleDigests
    [.prepared [1] [2], .dispatched, .accepted (some (sampleLease (some (str "i-1"))))]
  preparation := some ⟨[1], [2], by decide, by decide⟩

/-- The record of an accepted machine is read back with its private bytes. -/
theorem acceptedStorage_read_back :
    ∃ raw, sampleStorage.serializePrivate samplePydantic sampleDigests .floatless = some raw ∧
      deserializePrivate samplePydantic sampleDigests .floatless ⟨true⟩ (fun _ => none) raw =
        some sampleStorage := by
  have hvalid : sampleStorage.validate sampleDigests = some sampleStorage := by decide +kernel
  obtain ⟨raw, hraw, -, hback, -⟩ := storage_read_back samplePydantic_documented (by decide)
    sampleDigests ⟨true⟩ (fun _ => none) hvalid (by decide +kernel) (by decide +kernel)
  exact ⟨raw, hraw, hback⟩

end KestrelSdk.ComputerUse
