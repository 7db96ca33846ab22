import KestrelSdk.Encoding.Base64
import KestrelSdk.Json.Bytes

namespace KestrelSdk.Security

open Json (Str Bytes encodeUtf8)

/-- A `bytes | str` argument. -/
inductive Text where
  | bytes (b : Bytes)
  | str (s : Str)

/-- `s.encode("ascii")`; `none` is `UnicodeEncodeError`. -/
def encodeAscii (s : Str) : Option Bytes :=
  if s.all (· < 0x80) then some (s.map UInt8.ofNat) else none

/-- `x.encode("ascii")` where `x` is a string. -/
def Text.ascii : Text → Option Bytes
  | .bytes b => some b
  | .str s => encodeAscii s

/-- `x.encode("utf-8")` where `x` is a string. -/
def Text.utf8 : Text → Option Bytes
  | .bytes b => some b
  | .str s => encodeUtf8 s

/-- `KSAv2:`. -/
def prefixV2 : Bytes := [75, 83, 65, 118, 50, 58]

def nonceSize : Nat := 12
def keySize : Nat := 32
def algIdSize : Nat := 1
def gcmTagSize : Nat := 16
def algAes256Gcm : UInt8 := 1

/-- What the module takes from `cryptography` and from its interpreter: `AESGCM(key).encrypt` and
`.decrypt` of a nonce, data and associated data, `Fernet(key).decrypt`, each `none` where it raises,
and the release of `binascii`. -/
structure Crypto where
  aesEncrypt : Bytes → Bytes → Bytes → Bytes → Option Bytes
  aesDecrypt : Bytes → Bytes → Bytes → Bytes → Option Bytes
  fernet : Bytes → Bytes → Option Bytes
  release : Base64.Release

/-- What `os.urandom(NONCE_SIZE)` returns. -/
abbrev Nonce := {n : Bytes // n.length = nonceSize}

/-- The bytes of `_URLSAFE_B64_ALPHABET`. -/
def inAlphabet (c : UInt8) : Bool :=
  (65 ≤ c.toNat && c.toNat ≤ 90) || (97 ≤ c.toNat && c.toNat ≤ 122) ||
    (48 ≤ c.toNat && c.toNat ≤ 57) || c == 45 || c == 95 || c == Base64.pad

/-- `_strict_urlsafe_b64decode`; `none` is `binascii.Error`. -/
def strictUrlsafeB64decode (rel : Base64.Release) (data : Bytes) : Option Bytes :=
  if data.all inAlphabet then Base64.urlsafeDecode rel true data else none

/-- Why `decrypt` raises: `UnicodeEncodeError`, or `DecryptionError` with its cause. -/
inductive Refusal where
  | unicode
  | encoding
  | tooShort
  | algorithm (id : UInt8)
  | authentication
  | legacyAad
  | legacy
  deriving DecidableEq

/-- The refusals that are a `DecryptionError`. -/
def Refusal.IsDecryption (r : Refusal) : Prop := r ≠ .unicode

/-- Why a key is not taken. -/
inductive KeyRefusal where
  | unicode
  | encoding
  | size (n : Nat)
  deriving DecidableEq

/-- `AEADCipher`: its raw key, from which both of its primitives are made. -/
@[ext] structure AEADCipher where
  key : Bytes
  size : key.length = keySize

namespace AEADCipher

/-- `__init__` with `_coerce_to_raw_key`. -/
def new (lib : Crypto) (key : Text) : Except KeyRefusal AEADCipher :=
  match key.ascii with
  | none => .error .unicode
  | some raw =>
    if h : raw.length = keySize then .ok ⟨raw, h⟩
    else
      match Base64.urlsafeDecode lib.release false raw with
      | none => .error .encoding
      | some decoded =>
        if h : decoded.length = keySize then .ok ⟨decoded, h⟩ else .error (.size decoded.length)

/-- `_legacy_fernet_b64`. -/
def legacyFernetB64 (c : AEADCipher) : Bytes := Base64.urlsafeEncode c.key

/-- `_compose_aad`. -/
def composeAad (algId : UInt8) (aad : Option Bytes) : Bytes := algId :: aad.getD []

/-- `encrypt` with the nonce it draws; `none` where `str.encode` or `AESGCM.encrypt` raises. -/
def encrypt (lib : Crypto) (c : AEADCipher) (plaintext : Text) (nonce : Nonce)
    (aad : Option Bytes) : Option Bytes := do
  let data ← plaintext.utf8
  let ct ← lib.aesEncrypt c.key nonce.val data (composeAad algAes256Gcm aad)
  return prefixV2 ++ Base64.urlsafeEncode (algAes256Gcm :: (nonce.val ++ ct))

/-- The part of `decrypt` behind the decoding of a v2 token. -/
def openFramed (lib : Crypto) (c : AEADCipher) (framed : Bytes) (aad : Option Bytes) :
    Except Refusal Bytes :=
  if framed.length < algIdSize + nonceSize + gcmTagSize then .error .tooShort
  else
    let algId := framed.headD 0
    let nonce := (framed.drop algIdSize).take nonceSize
    let ct := framed.drop (algIdSize + nonceSize)
    if algId ≠ algAes256Gcm then .error (.algorithm algId)
    else
      match lib.aesDecrypt c.key nonce ct (composeAad algId aad) with
      | some data => .ok data
      | none => .error .authentication

/-- `decrypt`. -/
def decrypt (lib : Crypto) (c : AEADCipher) (token : Text) (aad : Option Bytes) :
    Except Refusal Bytes :=
  match token.ascii with
  | none => .error .unicode
  | some token =>
    if prefixV2 <+: token then
      match strictUrlsafeB64decode lib.release (token.drop prefixV2.length) with
      | none => .error .encoding
      | some framed => c.openFramed lib framed aad
    else if aad.isSome then .error .legacyAad
    else
      match lib.fernet c.legacyFernetB64 token with
      | some data => .ok data
      | none => .error .legacy

/-- `is_v2`. -/
def isV2 (token : Text) : Bool :=
  match token with
  | .bytes b => prefixV2.isPrefixOf b
  | .str s => prefixV2.isPrefixOf ((s.filter (· < 0x80)).map UInt8.ofNat)

end AEADCipher

/-! The strict decoder. -/

section Strict

variable {rel : Base64.Release} {data f : Bytes}

theorem inAlphabet_letter : ∀ n < 64, inAlphabet (Base64.toUrlsafe (Base64.letter n)) = true := by
  decide

theorem inAlphabet_spec {c : UInt8} (h : inAlphabet c = true) : c ≠ 43 ∧ c ≠ 47 := by
  constructor
  · rintro rfl
    exact absurd h (by decide)
  · rintro rfl
    exact absurd h (by decide)

theorem all_inAlphabet {s : Bytes} (h : Base64.Reads rel s f) :
    (s.map Base64.toUrlsafe).all inAlphabet = true := by
  apply List.all_eq_true.2
  intro c hc
  obtain ⟨d, hd, rfl⟩ := List.mem_map.1 hc
  obtain rfl | ⟨n, hn, rfl⟩ := h.mem hd
  · decide
  · exact inAlphabet_letter n hn

/-- The accepted texts are the strict base64 texts in the URL-safe alphabet. -/
theorem strictUrlsafeB64decode_iff :
    strictUrlsafeB64decode rel data = some f ↔
      ∃ s, data = s.map Base64.toUrlsafe ∧ Base64.decode rel true s = some f := by
  unfold strictUrlsafeB64decode
  constructor
  · intro h
    split at h
    case isTrue hall =>
      refine ⟨data.map Base64.toStandard, ?_, h⟩
      have hid : ∀ c ∈ data, (Base64.toUrlsafe ∘ Base64.toStandard) c = id c := by
        intro c hc
        exact Base64.toUrlsafe_toStandard (inAlphabet_spec (List.all_eq_true.1 hall c hc))
      rw [List.map_map, List.map_congr_left hid, List.map_id]
    case isFalse => cases h
  · rintro ⟨s, rfl, h⟩
    have hread := (Base64.decode_strict_iff.1 h).2
    rw [if_pos (all_inAlphabet hread)]
    unfold Base64.urlsafeDecode
    rw [hread.map_toStandard, h]

theorem map_toUrlsafe_inj {s s' : Bytes} {f f' : Bytes} (h : Base64.decode rel true s = some f)
    (h' : Base64.decode rel true s' = some f')
    (heq : s.map Base64.toUrlsafe = s'.map Base64.toUrlsafe) : s = s' := by
  have hs := (Base64.decode_strict_iff.1 h).2.map_toStandard
  rw [heq, (Base64.decode_strict_iff.1 h').2.map_toStandard] at hs
  exact hs.symm

/-- The written text is read back. -/
theorem strictUrlsafeB64decode_encode (rel : Base64.Release) (f : Bytes) :
    strictUrlsafeB64decode rel (Base64.urlsafeEncode f) = some f :=
  strictUrlsafeB64decode_iff.2 ⟨Base64.encode f, rfl, Base64.decode_encoded true f⟩

/-- The texts read as `f` are the written one alone, where no bytes are left over and padding may
not follow a complete quad. -/
theorem strict_unique_iff (rel : Base64.Release) (f : Bytes) :
    (∀ t t', strictUrlsafeB64decode rel t = some f → strictUrlsafeB64decode rel t' = some f →
      t = t') ↔ f = [] ∨ (f.length % 3 = 0 ∧ rel.laxPadding = false) := by
  constructor
  · intro huniq
    by_contra hcond
    push Not at hcond
    obtain ⟨hne, hlax⟩ := hcond
    have hlax : f.length % 3 = 0 → rel.laxPadding = true := fun h => by simpa using hlax h
    obtain ⟨s, hs, hdec⟩ := Base64.exists_second_text hne hlax
    have hsame := huniq _ _ (strictUrlsafeB64decode_iff.2 ⟨s, rfl, hdec⟩)
      (strictUrlsafeB64decode_encode rel f)
    exact hs (map_toUrlsafe_inj hdec (Base64.decode_encoded true f) hsame)
  · intro hcond t t' ht ht'
    obtain ⟨s, rfl, hs⟩ := strictUrlsafeB64decode_iff.1 ht
    obtain ⟨s', rfl, hs'⟩ := strictUrlsafeB64decode_iff.1 ht'
    obtain rfl | ⟨hthree, hlax⟩ := hcond
    · have hnil := Base64.decode_strict_iff.1 hs
      have hnil' := Base64.decode_strict_iff.1 hs'
      rw [Base64.reads_nil hnil.2 hnil.1, Base64.reads_nil hnil'.2 hnil'.1]
    · rw [(Base64.decode_strict_eq hlax hthree).1 hs, (Base64.decode_strict_eq hlax hthree).1 hs']

end Strict

end KestrelSdk.Security
