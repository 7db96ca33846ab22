import KestrelSdk.Security.Aead

namespace KestrelSdk.Security

open Json (Str Bytes encodeUtf8)

/-! Keys. -/

theorem urlsafe_ascii : ∀ n < 64, Base64.toUrlsafe (Base64.letter n) < 0x80 := by decide

theorem ascii_urlsafeEncode (f : Bytes) :
    (Text.str ((Base64.urlsafeEncode f).map UInt8.toNat)).ascii = some (Base64.urlsafeEncode f) := by
  have hall : ((Base64.urlsafeEncode f).map UInt8.toNat).all (· < 0x80) = true := by
    apply List.all_eq_true.2
    intro n hn
    obtain ⟨c, hc, rfl⟩ := List.mem_map.1 hn
    obtain ⟨d, hd, rfl⟩ := List.mem_map.1 hc
    have hread : Base64.Reads ⟨false⟩ (Base64.encode f) f := Base64.reads_encode f
    obtain rfl | ⟨m, hm, rfl⟩ := hread.mem hd
    · decide
    · have hlt := urlsafe_ascii m hm
      simpa [UInt8.lt_iff_toNat_lt] using hlt
  have hid : (UInt8.ofNat ∘ UInt8.toNat) = id := by
    funext c
    exact UInt8.ofNat_toNat
  simp only [Text.ascii, encodeAscii, hall, if_true, List.map_map, hid, List.map_id]

/-- The v2 token of framed bytes. -/
def tokenOf (framed : Bytes) : Bytes := prefixV2 ++ Base64.urlsafeEncode framed

theorem decrypt_v2 (lib : Crypto) (c : AEADCipher) (body : Bytes) (aad : Option Bytes) :
    c.decrypt lib (.bytes (prefixV2 ++ body)) aad =
      match strictUrlsafeB64decode lib.release body with
      | none => .error .encoding
      | some framed => c.openFramed lib framed aad := by
  simp only [AEADCipher.decrypt, Text.ascii, List.prefix_append, if_true, List.drop_left]
  all_goals rfl

theorem decrypt_tokenOf (lib : Crypto) (c : AEADCipher) (framed : Bytes) (aad : Option Bytes) :
    c.decrypt lib (.bytes (tokenOf framed)) aad = c.openFramed lib framed aad := by
  unfold tokenOf
  rw [decrypt_v2, strictUrlsafeB64decode_encode]

/-- The algorithm byte and the nonce behind it. -/
theorem openFramed_cons (lib : Crypto) (c : AEADCipher) (alg : UInt8) (rest : Bytes)
    (aad : Option Bytes) :
    c.openFramed lib (alg :: rest) aad =
      if rest.length < nonceSize + gcmTagSize then .error .tooShort
      else if alg ≠ algAes256Gcm then .error (.algorithm alg)
      else
        match lib.aesDecrypt c.key (rest.take nonceSize) (rest.drop nonceSize)
            (AEADCipher.composeAad alg aad) with
        | some data => .ok data
        | none => .error .authentication := by
  have hlen : (alg :: rest).length < algIdSize + nonceSize + gcmTagSize ↔
      rest.length < nonceSize + gcmTagSize := by
    simp only [List.length_cons, algIdSize]
    omega
  have hdrop : (alg :: rest).drop (algIdSize + nonceSize) = rest.drop nonceSize := by
    rw [algIdSize, Nat.add_comm, List.drop_succ_cons]
  have hone : (alg :: rest).drop algIdSize = rest := rfl
  simp only [AEADCipher.openFramed, hlen, hdrop, hone, List.headD_cons]
  all_goals rfl

/-- What opens is a frame of a nonce and a ciphertext. -/
theorem openFramed_ok {lib : Crypto} {c : AEADCipher} {framed data : Bytes} {aad : Option Bytes} :
    c.openFramed lib framed aad = .ok data ↔
      ∃ nonce ct, framed = algAes256Gcm :: (nonce ++ ct) ∧ nonce.length = nonceSize ∧
        gcmTagSize ≤ ct.length ∧
        lib.aesDecrypt c.key nonce ct (AEADCipher.composeAad algAes256Gcm aad) = some data := by
  constructor
  · intro h
    cases framed with
    | nil => simp [AEADCipher.openFramed, algIdSize] at h
    | cons alg rest =>
      rw [openFramed_cons] at h
      by_cases hlen : rest.length < nonceSize + gcmTagSize
      · simp [hlen] at h
      · by_cases halg : alg = algAes256Gcm
        · subst halg
          refine ⟨rest.take nonceSize, rest.drop nonceSize, by rw [List.take_append_drop], ?_, ?_, ?_⟩
          · rw [List.length_take]
            omega
          · rw [List.length_drop]
            omega
          · cases hopen : lib.aesDecrypt c.key (rest.take nonceSize) (rest.drop nonceSize)
                (AEADCipher.composeAad algAes256Gcm aad) with
            | none => simp [hlen, hopen] at h
            | some data' =>
              have hsame : data' = data := by simpa [hlen, hopen] using h
              rw [hsame]
        · simp [hlen, halg] at h
  · rintro ⟨nonce, ct, rfl, hn, hct, hopen⟩
    have hlen : ¬ (nonce ++ ct).length < nonceSize + gcmTagSize := by
      rw [List.length_append]
      omega
    have htake : (nonce ++ ct).take nonceSize = nonce := by
      rw [← hn, List.take_left]
    have hdrop : (nonce ++ ct).drop nonceSize = ct := by
      rw [← hn, List.drop_left]
    rw [openFramed_cons, if_neg hlen, if_neg (by simp), htake, hdrop, hopen]

/-- Every other outcome of a frame is a `DecryptionError`. -/
theorem openFramed_refusal {lib : Crypto} {c : AEADCipher} {framed : Bytes} {aad : Option Bytes}
    (h : ∀ data, c.openFramed lib framed aad ≠ .ok data) :
    ∃ r, c.openFramed lib framed aad = .error r ∧ r.IsDecryption := by
  cases hopen : c.openFramed lib framed aad with
  | ok data => exact absurd hopen (h data)
  | error r =>
    refine ⟨r, rfl, ?_⟩
    rintro rfl
    cases framed with
    | nil => simp [AEADCipher.openFramed, algIdSize] at hopen
    | cons alg rest =>
      rw [openFramed_cons] at hopen
      by_cases hlen : rest.length < nonceSize + gcmTagSize
      · simp [hlen] at hopen
      · by_cases halg : alg = algAes256Gcm
        · subst halg
          cases hdec : lib.aesDecrypt c.key (rest.take nonceSize) (rest.drop nonceSize)
            (AEADCipher.composeAad algAes256Gcm aad) <;> simp [hlen, hdec] at hopen
        · simp [hlen, halg] at hopen

/-! The ideal cipher. -/

/-- One encryption that was made. -/
structure Sealed where
  key : Bytes
  nonce : Bytes
  data : Bytes
  aad : Bytes
  ct : Bytes
  deriving DecidableEq

/-- The framed bytes of its token. -/
def Sealed.frame (r : Sealed) : Bytes := algAes256Gcm :: (r.nonce ++ r.ct)

/-- AES-GCM as an ideal AEAD after the encryptions `made`: it opens what they sealed and nothing
else, and no two of them share nonce and ciphertext. -/
structure Ideal (lib : Crypto) (made : List Sealed) : Prop where
  opens : ∀ key nonce data aad ct,
    lib.aesDecrypt key nonce ct aad = some data ↔ (⟨key, nonce, data, aad, ct⟩ : Sealed) ∈ made
  apart : ∀ r ∈ made, ∀ r' ∈ made, r.nonce = r'.nonce → r.ct = r'.ct → r = r'
  nonce : ∀ r ∈ made, r.nonce.length = nonceSize
  tag : ∀ r ∈ made, r.ct.length = r.data.length + gcmTagSize

/-- The encryption behind a token. -/
theorem encrypt_spec {lib : Crypto} {c : AEADCipher} {plaintext : Text} {nonce : Nonce}
    {aad : Option Bytes} {token : Bytes} (h : c.encrypt lib plaintext nonce aad = some token) :
    ∃ data ct, plaintext.utf8 = some data ∧
      lib.aesEncrypt c.key nonce.val data (AEADCipher.composeAad algAes256Gcm aad) = some ct ∧
      token = tokenOf (algAes256Gcm :: (nonce.val ++ ct)) := by
  simp only [AEADCipher.encrypt, Option.bind_eq_bind, Option.bind_eq_some_iff, Option.pure_def,
    Option.some.injEq] at h
  obtain ⟨data, hdata, ct, hct, rfl⟩ := h
  exact ⟨data, ct, hdata, hct, rfl⟩

/-- A frame opens for the key and the associated data of an encryption with that frame. -/
theorem Ideal.opens_frame {lib : Crypto} {made : List Sealed} (ideal : Ideal lib made)
    {c : AEADCipher} {framed data : Bytes} {aad : Option Bytes}
    (h : c.openFramed lib framed aad = .ok data) :
    ∃ r ∈ made, r.frame = framed ∧ r.key = c.key ∧ r.data = data ∧
      r.aad = AEADCipher.composeAad algAes256Gcm aad := by
  obtain ⟨nonce, ct, rfl, _, _, hopen⟩ := openFramed_ok.1 h
  exact ⟨_, (ideal.opens _ _ _ _ _).1 hopen, rfl, rfl, rfl, rfl⟩

theorem Ideal.frame_inj {lib : Crypto} {made : List Sealed} (ideal : Ideal lib made)
    {r r' : Sealed} (hr : r ∈ made) (hr' : r' ∈ made) (h : r.frame = r'.frame) : r = r' := by
  simp only [Sealed.frame, List.cons.injEq, true_and] at h
  obtain ⟨hn, hct⟩ := List.append_inj h ((ideal.nonce r hr).trans (ideal.nonce r' hr').symm)
  exact ideal.apart r hr r' hr' hn hct

/-- The cipher of the same key and associated data opens the frame of an encryption. -/
theorem Ideal.openFramed_made {lib : Crypto} {made : List Sealed} (ideal : Ideal lib made)
    {r : Sealed} (hr : r ∈ made) {c : AEADCipher} (hkey : c.key = r.key) {aad : Option Bytes}
    (haad : r.aad = AEADCipher.composeAad algAes256Gcm aad) :
    c.openFramed lib r.frame aad = .ok r.data := by
  have htag := ideal.tag r hr
  apply openFramed_ok.2
  refine ⟨r.nonce, r.ct, rfl, ideal.nonce r hr, by omega, ?_⟩
  rw [hkey, ← haad]
  exact (ideal.opens r.key r.nonce r.data r.aad r.ct).2 hr

/-- The text of a token is ASCII. -/
theorem decrypt_text {lib : Crypto} {c : AEADCipher} {t : Text} {token : Bytes}
    (h : t.ascii = some token) (aad : Option Bytes) :
    c.decrypt lib t aad = c.decrypt lib (.bytes token) aad := by
  simp only [AEADCipher.decrypt, h]
  rfl

/-- AES-GCM where `r` is the only encryption. -/
def soleCrypto (r : Sealed) (rel : Base64.Release) : Crypto where
  aesEncrypt key nonce data aad := if ⟨key, nonce, data, aad, r.ct⟩ = r then some r.ct else none
  aesDecrypt key nonce ct aad := if ⟨key, nonce, r.data, aad, ct⟩ = r then some r.data else none
  fernet _ _ := none
  release := rel

theorem soleCrypto_ideal {r : Sealed} (rel : Base64.Release) (hn : r.nonce.length = nonceSize)
    (ht : r.ct.length = r.data.length + gcmTagSize) : Ideal (soleCrypto r rel) [r] := by
  constructor
  · intro key nonce data aad ct
    simp only [soleCrypto, List.mem_singleton]
    constructor
    · intro h
      split at h
      case isTrue heq =>
        cases h
        exact heq
      case isFalse => cases h
    · intro h
      have hdata : data = r.data := by rw [← h]
      rw [← hdata, if_pos h]
  · intro s hs s' hs' _ _
    rw [List.mem_singleton.1 hs, List.mem_singleton.1 hs']
  · intro s hs
    rw [List.mem_singleton.1 hs]
    exact hn
  · intro s hs
    rw [List.mem_singleton.1 hs]
    exact ht

/-- The empty plaintext under the zero key and the zero nonce. -/
def zeroSealed : Sealed :=
  ⟨List.replicate 32 0, List.replicate 12 0, [], [1],
    [154, 152, 163, 251, 165, 248, 0, 130, 248, 106, 182, 217, 145, 94, 207, 210]⟩

/-- AES-GCM where that is the only encryption. -/
def zeroCrypto (rel : Base64.Release) : Crypto where
  aesEncrypt key nonce data aad :=
    if ⟨key, nonce, data, aad, zeroSealed.ct⟩ = zeroSealed then some zeroSealed.ct else none
  aesDecrypt key nonce ct aad :=
    if ⟨key, nonce, zeroSealed.data, aad, ct⟩ = zeroSealed then some zeroSealed.data else none
  fernet _ _ := none
  release := rel

/-- `decrypt` takes the v2 token `t`, which decodes to `framed`. -/
def AEADCipher.Accepts (lib : Crypto) (c : AEADCipher) (aad : Option Bytes) (framed t : Bytes) :
    Prop :=
  (∃ data, c.decrypt lib (.bytes t) aad = .ok data) ∧
    ∃ body, t = prefixV2 ++ body ∧ strictUrlsafeB64decode lib.release body = some framed

theorem accepts_iff {lib : Crypto} {c : AEADCipher} {aad : Option Bytes} {framed t : Bytes} :
    c.Accepts lib aad framed t ↔
      (∃ data, c.openFramed lib framed aad = .ok data) ∧
        ∃ body, t = prefixV2 ++ body ∧ strictUrlsafeB64decode lib.release body = some framed := by
  constructor
  · rintro ⟨⟨data, hdec⟩, body, rfl, hbody⟩
    rw [decrypt_v2, hbody] at hdec
    exact ⟨⟨data, hdec⟩, body, rfl, hbody⟩
  · rintro ⟨⟨data, hopen⟩, body, rfl, hbody⟩
    refine ⟨⟨data, ?_⟩, body, rfl, hbody⟩
    rw [decrypt_v2, hbody]
    exact hopen

/-- The decoder reads one text as `f`, and `decrypt` accepts one text of `f`, the written one,
exactly when `f` has no bytes left over for padding and the release lets none follow a complete
quad; or when it accepts no text of `f` at all. -/
theorem canonical_token_iff (lib : Crypto) (c : AEADCipher) (aad : Option Bytes) (f : Bytes) :
    ((∀ t t', strictUrlsafeB64decode lib.release t = some f →
        strictUrlsafeB64decode lib.release t' = some f → t = t') ↔
      f = [] ∨ (f.length % 3 = 0 ∧ lib.release.laxPadding = false)) ∧
    ((∀ t, c.Accepts lib aad f t → c.Accepts lib aad f (tokenOf f)) ∧
      ((∀ t t', c.Accepts lib aad f t → c.Accepts lib aad f t' → t = t') ↔
        (∀ data, c.openFramed lib f aad ≠ .ok data) ∨
          (f.length % 3 = 0 ∧ lib.release.laxPadding = false))) := by
  have hwritten := strictUrlsafeB64decode_encode lib.release f
  refine ⟨strict_unique_iff lib.release f, ?_, ?_⟩
  · intro t ht
    exact accepts_iff.2 ⟨(accepts_iff.1 ht).1, _, rfl, hwritten⟩
  constructor
  · intro huniq
    by_cases hopen : ∃ data, c.openFramed lib f aad = .ok data
    · have hdec := (strict_unique_iff lib.release f).1 fun t t' ht ht' =>
        List.append_cancel_left (huniq _ _ (accepts_iff.2 ⟨hopen, t, rfl, ht⟩)
          (accepts_iff.2 ⟨hopen, t', rfl, ht'⟩))
      obtain rfl | hthree := hdec
      · obtain ⟨data, hopen⟩ := hopen
        simp [AEADCipher.openFramed, algIdSize] at hopen
      · exact .inr hthree
    · exact .inl fun data hdata => hopen ⟨data, hdata⟩
  · intro hcond t t' ht ht'
    obtain ⟨⟨data, hopen⟩, body, rfl, hbody⟩ := accepts_iff.1 ht
    obtain ⟨_, body', rfl, hbody'⟩ := accepts_iff.1 ht'
    obtain hnone | hthree := hcond
    · exact absurd hopen (hnone data)
    · rw [(strict_unique_iff lib.release f).2 (.inr hthree) body body' hbody hbody']

/-- The token of the empty plaintext with a bit set that carries no byte. -/
theorem accepts_spare (rel : Base64.Release) : ∃ t t',
    (⟨zeroSealed.key, rfl⟩ : AEADCipher).Accepts (zeroCrypto rel) none zeroSealed.frame t ∧
    (⟨zeroSealed.key, rfl⟩ : AEADCipher).Accepts (zeroCrypto rel) none zeroSealed.frame t' ∧
    t ≠ t' := by
  have hopen : ∃ data, (⟨zeroSealed.key, rfl⟩ : AEADCipher).openFramed (zeroCrypto rel)
      zeroSealed.frame none = .ok data := ⟨[], rfl⟩
  have hread : Base64.Reads rel _ _ :=
    Base64.reads_encodeSpare (t := 1) (by omega) zeroSealed.frame
  have hdec := Base64.decode_strict_iff.2 ⟨Base64.head_encodeSpare 1 _, hread⟩
  refine ⟨tokenOf zeroSealed.frame,
    prefixV2 ++ (Base64.encodeSpare 1 zeroSealed.frame).map Base64.toUrlsafe,
    accepts_iff.2 ⟨hopen, _, rfl, strictUrlsafeB64decode_encode rel _⟩,
    accepts_iff.2 ⟨hopen, _, rfl, strictUrlsafeB64decode_iff.2 ⟨_, rfl, hdec⟩⟩, by decide⟩

/-- In each release two tokens open. -/
theorem second_token :
    (∃ t t', (⟨zeroSealed.key, rfl⟩ : AEADCipher).Accepts (zeroCrypto ⟨false⟩) none zeroSealed.frame t ∧
      (⟨zeroSealed.key, rfl⟩ : AEADCipher).Accepts (zeroCrypto ⟨false⟩) none zeroSealed.frame t' ∧
      t ≠ t') ∧
    ∃ t t', (⟨zeroSealed.key, rfl⟩ : AEADCipher).Accepts (zeroCrypto ⟨true⟩) none zeroSealed.frame t ∧
      (⟨zeroSealed.key, rfl⟩ : AEADCipher).Accepts (zeroCrypto ⟨true⟩) none zeroSealed.frame t' ∧
      t ≠ t' :=
  ⟨accepts_spare ⟨false⟩, accepts_spare ⟨true⟩⟩

end KestrelSdk.Security
