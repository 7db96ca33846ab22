import KestrelSdk.ComputerUse.Private
import KestrelSdk.ComputerUse.Spelling
import KestrelSdk.Encoding.Calendar
import Mathlib.Data.Finset.Sort

/-! The texts that the digests of requests and quotes cover. -/

namespace KestrelSdk.ComputerUse

open Json
open Encoding (DateTime IsoChar)
open Features (isStableToken)

namespace Surface

def text : Surface → Str
  | .browser => str "browser"
  | .desktop => str "desktop"

def all : List Surface := [.browser, .desktop]

end Surface

namespace ComputerCapability

def text : ComputerCapability → Str
  | .screenshot => str "screenshot"
  | .click => str "click"
  | .type => str "type"
  | .key => str "key"
  | .scroll => str "scroll"
  | .wait => str "wait"
  | .navigate => str "navigate"
  | .accessibility => str "accessibility"
  | .dom => str "dom"
  | .clipboard => str "clipboard"
  | .files => str "files"
  | .exec => str "exec"
  | .takeover => str "takeover"

def all : List ComputerCapability :=
  [.screenshot, .click, .type, .key, .scroll, .wait, .navigate, .accessibility, .dom, .clipboard,
    .files, .exec, .takeover]

end ComputerCapability

/-- What `model_dump(mode="json")` has of its interpreter: the orders in which it walks sets, and the
texts of datetimes. -/
structure ModelDump where
  surfaces : Finset Surface → List Surface
  operations : Finset ComputerCapability → List ComputerCapability
  datetime : Moment → Str

/-- The texts of a list of literals. -/
def texts {α : Type} (text : α → Str) (l : List α) : Value := .list (l.map fun a => .str (text a))

/-- `sorted` of a set of literals. -/
def sortedTexts {α : Type} (text : α → Str) (s : Finset α) : Value :=
  .list ((s.image text).sort.map .str)

/-- `isoformat()`. -/
def Moment.isoformat (m : Moment) : Str :=
  (DateTime.ofClock m.clock m.offset m.clock_lt m.offset_lt).isoformat

variable (md : ModelDump)

def EnvironmentRequest.modelDump (r : EnvironmentRequest) : Dict :=
  [entry "schema_version" (.int 1), entry "request_id" (.str r.request_id),
    entry "scope" r.scope.dump, entry "provider_id" (.str r.provider_id),
    entry "profile_id" (.str r.profile_id), entry "image" (.str r.image),
    entry "surface" (.str r.surface.text),
    entry "required_capabilities"
      (texts ComputerCapability.text (md.operations r.required_capabilities)),
    entry "location" (.str r.location.text),
    entry "requested_at" (.str (md.datetime r.requested_at)),
    entry "expires_at" (.str (md.datetime r.expires_at)),
    entry "idle_ttl_seconds" (.int r.idle_ttl_seconds),
    entry "ready_timeout_seconds" (.int r.ready_timeout_seconds),
    entry "max_hourly_cost_usd" (.str r.max_hourly_cost_usd.text),
    entry "max_total_cost_usd" (.str r.max_total_cost_usd.text),
    entry "region" (dumpOptional .str r.region)]

/-- The `payload` of `EnvironmentRequest.digest`, from the UTC forms of its datetimes. -/
def EnvironmentRequest.payload (r : EnvironmentRequest) (requested_at expires_at : Moment) : Dict :=
  (((r.modelDump md).set (str "required_capabilities")
    (sortedTexts ComputerCapability.text r.required_capabilities)).set (str "requested_at")
      (.str requested_at.isoformat)).set (str "expires_at") (.str expires_at.isoformat)

def EnvironmentCapabilities.modelDump (c : EnvironmentCapabilities) : Dict :=
  [entry "schema_version" (.int 1), entry "provider_id" (.str c.provider_id),
    entry "location" (.str c.location.text),
    entry "surfaces" (texts Surface.text (md.surfaces c.surfaces)),
    entry "operations" (texts ComputerCapability.text (md.operations c.operations)),
    entry "profile_persistence" (.bool c.profile_persistence),
    entry "cpu_only" (.bool c.cpu_only)]

/-- The capabilities in the `payload`, with their sets sorted. -/
def EnvironmentCapabilities.payload (c : EnvironmentCapabilities) : Dict :=
  ((c.modelDump md).set (str "surfaces") (sortedTexts Surface.text c.surfaces)).set
    (str "operations") (sortedTexts ComputerCapability.text c.operations)

def EnvironmentQuote.modelDump (q : EnvironmentQuote) : Dict :=
  [entry "schema_version" (.int 1), entry "quote_id" (.str q.quote_id),
    entry "request_id" (.str q.request_id), entry "request_sha256" (.str q.request_sha256),
    entry "scope" q.scope.dump, entry "provider_id" (.str q.provider_id),
    entry "location" (.str q.location.text), entry "region" (dumpOptional .str q.region),
    entry "expires_at" (.str (md.datetime q.expires_at)),
    entry "hourly_cost_usd" (.str q.hourly_cost_usd.text),
    entry "estimated_total_cost_usd" (.str q.estimated_total_cost_usd.text),
    entry "capabilities" (.dict (q.capabilities.modelDump md))]

/-- The `payload` of `_quote_digest`. -/
def EnvironmentQuote.payload (q : EnvironmentQuote) (expires_at : Moment) : Dict :=
  ((q.modelDump md).set (str "expires_at") (.str expires_at.isoformat)).set (str "capabilities")
    (.dict (q.capabilities.payload md))

/-- `json.dumps(payload, sort_keys=True, separators=(",", ":")).encode()`. -/
def canonical (json : Interpreter) (v : Value) : Option Bytes := do
  let text ← (json.dumps (sortKeys v)).toOption
  encodeUtf8 text

/-- The digests of a library with this SHA-256. A valid record always has its text. -/
def digests (sha256 : Bytes → Digest) (json : Interpreter) : Digests where
  sha256 := sha256
  requestText r requested_at expires_at :=
    (canonical json (.dict (r.payload md requested_at expires_at))).getD []
  quoteText q expires_at := (canonical json (.dict (q.payload md expires_at))).getD []

/-! Canonical texts. -/

section

variable {json : Interpreter} {v w : Value} {n m levels : Nat}

/-- A value within the limits has its text, from which it is read back. -/
theorem canonical_spec (h : Fits json.floatOf levels v n) (hroom : levels ≤ json.nesting) :
    ∃ text, canonical json v = some (text.map UInt8.ofNat) ∧
      decodeUtf8 (text.map UInt8.ofNat) = some text ∧ json.loads text = .ok (sortKeys v) := by
  obtain ⟨text, htext⟩ := h.dumps hroom
  have hprint := dump_printable _ htext
  have hascii : ∀ c ∈ text, c < 0x80 := by
    intro c hc
    have := hprint c hc
    omega
  obtain ⟨hencode, hdecode⟩ := encodeUtf8_ascii hascii
  refine ⟨text, ?_, hdecode, h.loads hroom htext⟩
  rw [canonical, htext]
  exact hencode

theorem canonical_isSome (h : Fits json.floatOf levels v n) (hroom : levels ≤ json.nesting) :
    (canonical json v).isSome = true := by
  obtain ⟨text, htext, -⟩ := canonical_spec h hroom
  rw [htext]
  rfl

/-- The canonical texts of two values are equal where their sorted forms are. -/
theorem canonical_eq_iff (hv : Fits json.floatOf levels v n) (hw : Fits json.floatOf levels w m)
    (hroom : levels ≤ json.nesting) :
    (canonical json v).getD [] = (canonical json w).getD [] ↔ sortKeys v = sortKeys w := by
  constructor
  · intro heq
    obtain ⟨t, ht, hdecode, hload⟩ := canonical_spec hv hroom
    obtain ⟨u, hu, hdecode', hload'⟩ := canonical_spec hw hroom
    rw [ht, hu, Option.getD_some, Option.getD_some] at heq
    rw [heq, hdecode'] at hdecode
    obtain rfl := Option.some.inj hdecode
    rw [hload'] at hload
    exact (Except.ok.inj hload).symm
  · intro heq
    rw [canonical, canonical, heq]

end

/-- The fields of two sorted objects agree one by one. -/
theorem field_eq {d e : Dict} (hd : (d.map Prod.fst).Nodup) (he : (e.map Prod.fst).Nodup)
    (h : sortKeys (.dict d) = sortKeys (.dict e)) (name : String) :
    (d.get (str name)).map sortKeys = (e.get (str name)).map sortKeys := by
  have hsorted : sortEntries d = sortEntries e := Value.dict.inj h
  rw [← get_sortEntries hd, ← get_sortEntries he, hsorted]

/-! What the single fields tell. -/

/-- A literal that is read back from its text has the text alone. -/
theorem injective_of_readLiteral {α : Type} {text : α → Str} {all : List α}
    (h : ∀ a, readLiteral text all (.str (text a)) = some a) : Function.Injective text := by
  intro a b hab
  have ha := h a
  rw [hab, h b] at ha
  exact (Option.some.inj ha).symm

theorem Location.text_injective : Function.Injective Location.text :=
  injective_of_readLiteral readLocation

theorem Surface.text_injective : Function.Injective Surface.text := by
  have h : ∀ s, readLiteral Surface.text [.browser, .desktop] (.str s.text) = some s := by
    intro s
    cases s <;> decide
  exact injective_of_readLiteral h

theorem ComputerCapability.readLiteral_text (c : ComputerCapability) :
    readLiteral text all (.str c.text) = some c := by
  cases c <;> decide

theorem ComputerCapability.text_injective : Function.Injective ComputerCapability.text :=
  injective_of_readLiteral readLiteral_text

theorem dumpOptional_str {a b : Option Str} (h : dumpOptional .str a = dumpOptional .str b) :
    a = b := by
  cases a <;> cases b <;> simp_all [dumpOptional]

theorem sortItems_str (l : List Str) : sortItems (l.map .str) = l.map .str := by
  induction l with
  | nil => rfl
  | cons s l ih =>
    change Value.str s :: sortItems (l.map .str) = _
    rw [ih]
    rfl

/-- A sorted list of literals tells the set. -/
theorem sortedTexts_injective {α : Type} {text : α → Str} (htext : Function.Injective text)
    {s t : Finset α} (h : sortKeys (sortedTexts text s) = sortKeys (sortedTexts text t)) :
    s = t := by
  rw [sortedTexts, sortedTexts, sortKeys, sortKeys, sortItems_str, sortItems_str] at h
  have hlist : (s.image text).sort = (t.image text).sort :=
    List.map_injective_iff.2 (fun a b hab => Value.str.inj hab) (Value.list.inj h)
  have himage := congrArg List.toFinset hlist
  rw [Finset.sort_toFinset, Finset.sort_toFinset] at himage
  exact Finset.image_injective htext himage

theorem ResourceScope.dump_injective {s t : ResourceScope}
    (h : sortKeys s.dump = sortKeys t.dump) : s = t := by
  have hs := readScope_sorted s
  rw [h, readScope_sorted] at hs
  exact (Option.some.inj hs).symm

/-- Two UTC datetimes have one text where they have one clock. -/
theorem Moment.isoformat_inj {m u : Moment} :
    m.isoformat = u.isoformat ↔ m = u := by
  constructor
  · intro h
    obtain ⟨hclock, hoffset⟩ := DateTime.isoformat_ofClock.1 h
    obtain ⟨_, _, _, _⟩ := m
    obtain ⟨_, _, _, _⟩ := u
    obtain rfl : _ = _ := hclock
    obtain rfl : _ = _ := hoffset
    rfl
  · exact congrArg isoformat

/-! The payloads hold the sorted sets and the UTC texts, whatever the dump had in their place. -/

namespace EnvironmentRequest

variable {md md' : ModelDump} {r s : EnvironmentRequest} {requested_at expires_at requested expires : Moment}

theorem payload_eq : r.payload md requested_at expires_at =
    [entry "schema_version" (.int 1), entry "request_id" (.str r.request_id),
      entry "scope" r.scope.dump, entry "provider_id" (.str r.provider_id),
      entry "profile_id" (.str r.profile_id), entry "image" (.str r.image),
      entry "surface" (.str r.surface.text),
      entry "required_capabilities"
        (sortedTexts ComputerCapability.text r.required_capabilities),
      entry "location" (.str r.location.text),
      entry "requested_at" (.str requested_at.isoformat),
      entry "expires_at" (.str expires_at.isoformat),
      entry "idle_ttl_seconds" (.int r.idle_ttl_seconds),
      entry "ready_timeout_seconds" (.int r.ready_timeout_seconds),
      entry "max_hourly_cost_usd" (.str r.max_hourly_cost_usd.text),
      entry "max_total_cost_usd" (.str r.max_total_cost_usd.text),
      entry "region" (dumpOptional .str r.region)] := rfl

theorem payload_nodup : ((r.payload md requested_at expires_at).map Prod.fst).Nodup := by
  rw [payload_eq]
  simp +decide [entry]

/-- The sorted payload tells every field of the request but its datetimes, and their UTC forms. -/
theorem payload_injective (hr : r.max_hourly_cost_usd.isUsd = true ∧ r.max_total_cost_usd.isUsd = true)
    (hs : s.max_hourly_cost_usd.isUsd = true ∧ s.max_total_cost_usd.isUsd = true)
    (h : sortKeys (.dict (r.payload md requested_at expires_at)) =
      sortKeys (.dict (s.payload md' requested expires))) :
    requested_at = requested ∧ expires_at = expires ∧
      { r with requested_at := s.requested_at, expires_at := s.expires_at } = s := by
  have hfield := field_eq payload_nodup payload_nodup h
  have hid := hfield "request_id"
  have hscope := hfield "scope"
  have hprovider := hfield "provider_id"
  have hprofile := hfield "profile_id"
  have himage := hfield "image"
  have hsurface := hfield "surface"
  have hcapabilities := hfield "required_capabilities"
  have hlocation := hfield "location"
  have hrequested := hfield "requested_at"
  have hexpires := hfield "expires_at"
  have hidle := hfield "idle_ttl_seconds"
  have hready := hfield "ready_timeout_seconds"
  have hhourly := hfield "max_hourly_cost_usd"
  have htotal := hfield "max_total_cost_usd"
  have hregion := hfield "region"
  clear hfield h
  simp +decide [payload_eq, entry, Dict.get_cons, sortKeys, sortKeys_dumpOptional] at *
  refine ⟨Moment.isoformat_inj.1 hrequested, Moment.isoformat_inj.1 hexpires, ?_⟩
  rw [hid, ResourceScope.dump_injective hscope, hprovider, hprofile, himage,
    Surface.text_injective hsurface,
    sortedTexts_injective ComputerCapability.text_injective hcapabilities,
    Location.text_injective hlocation, hidle, hready, (Decimal.text_injective hr.1 hs.1).1 hhourly,
    (Decimal.text_injective hr.2 hs.2).1 htotal, dumpOptional_str hregion]

end EnvironmentRequest

namespace EnvironmentCapabilities

variable {md md' : ModelDump} {c d : EnvironmentCapabilities}

theorem payload_eq : c.payload md =
    [entry "schema_version" (.int 1), entry "provider_id" (.str c.provider_id),
      entry "location" (.str c.location.text),
      entry "surfaces" (sortedTexts Surface.text c.surfaces),
      entry "operations" (sortedTexts ComputerCapability.text c.operations),
      entry "profile_persistence" (.bool c.profile_persistence),
      entry "cpu_only" (.bool c.cpu_only)] := rfl

theorem payload_nodup : ((c.payload md).map Prod.fst).Nodup := by
  rw [payload_eq]
  simp +decide [entry]

theorem payload_injective (h : sortKeys (.dict (c.payload md)) = sortKeys (.dict (d.payload md'))) :
    c = d := by
  have hfield := field_eq payload_nodup payload_nodup h
  have hprovider := hfield "provider_id"
  have hlocation := hfield "location"
  have hsurfaces := hfield "surfaces"
  have hoperations := hfield "operations"
  have hpersistence := hfield "profile_persistence"
  have hcpu := hfield "cpu_only"
  clear hfield h
  simp +decide [payload_eq, entry, Dict.get_cons, sortKeys] at *
  obtain ⟨provider_id, location, surfaces, operations, profile_persistence, cpu_only⟩ := c
  rw [EnvironmentCapabilities.mk.injEq]
  exact ⟨hprovider, Location.text_injective hlocation,
    sortedTexts_injective Surface.text_injective hsurfaces,
    sortedTexts_injective ComputerCapability.text_injective hoperations, hpersistence, hcpu⟩

end EnvironmentCapabilities

namespace EnvironmentQuote

variable {md md' : ModelDump} {q p : EnvironmentQuote} {expires_at expires : Moment}

theorem payload_eq : q.payload md expires_at =
    [entry "schema_version" (.int 1), entry "quote_id" (.str q.quote_id),
      entry "request_id" (.str q.request_id), entry "request_sha256" (.str q.request_sha256),
      entry "scope" q.scope.dump, entry "provider_id" (.str q.provider_id),
      entry "location" (.str q.location.text), entry "region" (dumpOptional .str q.region),
      entry "expires_at" (.str expires_at.isoformat),
      entry "hourly_cost_usd" (.str q.hourly_cost_usd.text),
      entry "estimated_total_cost_usd" (.str q.estimated_total_cost_usd.text),
      entry "capabilities" (.dict (q.capabilities.payload md))] := rfl

theorem payload_nodup : ((q.payload md expires_at).map Prod.fst).Nodup := by
  rw [payload_eq]
  simp +decide [entry]

/-- The sorted payload tells every field of the quote but its expiry, and the UTC form of that. -/
theorem payload_injective
    (hq : q.hourly_cost_usd.isUsd = true ∧ q.estimated_total_cost_usd.isUsd = true)
    (hp : p.hourly_cost_usd.isUsd = true ∧ p.estimated_total_cost_usd.isUsd = true)
    (h : sortKeys (.dict (q.payload md expires_at)) = sortKeys (.dict (p.payload md' expires))) :
    expires_at = expires ∧ { q with expires_at := p.expires_at } = p := by
  have hfield := field_eq payload_nodup payload_nodup h
  have hid := hfield "quote_id"
  have hrequest := hfield "request_id"
  have hsha := hfield "request_sha256"
  have hscope := hfield "scope"
  have hprovider := hfield "provider_id"
  have hlocation := hfield "location"
  have hregion := hfield "region"
  have hexpires := hfield "expires_at"
  have hhourly := hfield "hourly_cost_usd"
  have htotal := hfield "estimated_total_cost_usd"
  have hcapabilities : q.capabilities = p.capabilities :=
    EnvironmentCapabilities.payload_injective (Option.some.inj (hfield "capabilities"))
  clear hfield h
  simp +decide [payload_eq, entry, Dict.get_cons, sortKeys, sortKeys_dumpOptional] at *
  refine ⟨Moment.isoformat_inj.1 hexpires, ?_⟩
  rw [hid, hrequest, hsha, ResourceScope.dump_injective hscope, hprovider,
    Location.text_injective hlocation, dumpOptional_str hregion,
    (Decimal.text_injective hq.1 hp.1).1 hhourly, (Decimal.text_injective hq.2 hp.2).1 htotal,
    hcapabilities]

end EnvironmentQuote

end KestrelSdk.ComputerUse
