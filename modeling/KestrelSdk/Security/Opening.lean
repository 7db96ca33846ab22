import KestrelSdk.Security.Keyring

namespace KestrelSdk.Security

open Json (Str Bytes)

section Cipher

variable {lib : Crypto} {c : AEADCipher} {token : Text} {aad : Option Bytes} {data : Bytes}

/-- The cipher authenticates a token with a plaintext: the strict text of a suite byte, a nonce and
what AES-GCM opens under the suite byte and the associated data, or a token without the v2 prefix
and without associated data that Fernet opens. -/
def AEADCipher.Authenticates (lib : Crypto) (c : AEADCipher) (token : Bytes) (aad : Option Bytes)
    (data : Bytes) : Prop :=
  (∃ body nonce ct, token = prefixV2 ++ body ∧
    strictUrlsafeB64decode lib.release body = some (algAes256Gcm :: (nonce ++ ct)) ∧
    nonce.length = nonceSize ∧ gcmTagSize ≤ ct.length ∧
    lib.aesDecrypt c.key nonce ct (AEADCipher.composeAad algAes256Gcm aad) = some data) ∨
  (¬ prefixV2 <+: token ∧ aad = none ∧ lib.fernet c.legacyFernetB64 token = some data)

/-- `decrypt` of bytes gives the plaintext with which the cipher authenticates them. -/
theorem decrypt_legacy {b : Bytes} (hv2 : ¬ prefixV2 <+: b) :
    c.decrypt lib (.bytes b) aad =
      if aad.isSome then .error .legacyAad
      else
        match lib.fernet c.legacyFernetB64 b with
        | some data => .ok data
        | none => .error .legacy :=
  if_neg hv2

theorem decrypt_bytes_ok {b : Bytes} :
    c.decrypt lib (.bytes b) aad = .ok data ↔ c.Authenticates lib b aad data := by
  by_cases hv2 : prefixV2 <+: b
  · obtain ⟨body, rfl⟩ := hv2
    rw [decrypt_v2]
    constructor
    · intro h
      cases hbody : strictUrlsafeB64decode lib.release body with
      | none =>
        rw [hbody] at h
        cases h
      | some framed =>
        rw [hbody] at h
        obtain ⟨nonce, ct, rfl, hnonce, hct, hopen⟩ := openFramed_ok.1 h
        exact .inl ⟨body, nonce, ct, rfl, hbody, hnonce, hct, hopen⟩
    · rintro (⟨body', nonce, ct, heq, hbody, hnonce, hct, hopen⟩ | ⟨hno, _⟩)
      · obtain rfl := List.append_cancel_left heq
        rw [hbody]
        exact openFramed_ok.2 ⟨nonce, ct, rfl, hnonce, hct, hopen⟩
      · exact absurd (List.prefix_append ..) hno
  · rw [decrypt_legacy hv2]
    constructor
    · intro h
      cases aad with
      | some a => cases h
      | none =>
        cases hfernet : lib.fernet c.legacyFernetB64 b with
        | none =>
          rw [hfernet] at h
          cases h
        | some d =>
          rw [hfernet] at h
          cases h
          exact .inr ⟨hv2, rfl, hfernet⟩
    · rintro (⟨body, _, _, rfl, _⟩ | ⟨_, rfl, hfernet⟩)
      · exact absurd (List.prefix_append ..) hv2
      · rw [hfernet]
        rfl

/-- The cipher opens a token: it authenticates its ASCII bytes. -/
def AEADCipher.Opens (lib : Crypto) (c : AEADCipher) (token : Text) (aad : Option Bytes)
    (data : Bytes) : Prop :=
  ∃ b, token.ascii = some b ∧ c.Authenticates lib b aad data

theorem decrypt_ok_iff : c.decrypt lib token aad = .ok data ↔ c.Opens lib token aad data := by
  cases hb : token.ascii with
  | none =>
    apply iff_of_false
    · intro h
      simp only [AEADCipher.decrypt, hb] at h
      cases h
    · rintro ⟨b, h, _⟩
      rw [hb] at h
      cases h
  | some b =>
    rw [decrypt_text hb, decrypt_bytes_ok]
    constructor
    · intro h
      exact ⟨b, hb, h⟩
    · rintro ⟨b', hb', h⟩
      obtain rfl := Option.some.inj (hb.symm.trans hb')
      exact h

/-- `UnicodeEncodeError` is raised for the texts that are no ASCII alone. -/
theorem decrypt_unicode_iff : c.decrypt lib token aad = .error .unicode ↔ token.ascii = none := by
  cases hb : token.ascii with
  | none =>
    apply iff_of_true ?_ rfl
    simp only [AEADCipher.decrypt, hb]
  | some b =>
    apply iff_of_false ?_ (by simp)
    rw [decrypt_text hb]
    intro h
    by_cases hv2 : prefixV2 <+: b
    · obtain ⟨body, rfl⟩ := hv2
      rw [decrypt_v2] at h
      cases hbody : strictUrlsafeB64decode lib.release body with
      | none =>
        rw [hbody] at h
        cases h
      | some framed =>
        rw [hbody] at h
        dsimp only at h
        obtain ⟨r, hr, hdec⟩ := @openFramed_refusal lib c framed aad
          fun d hd => by
            rw [h] at hd
            cases hd
        rw [h] at hr
        exact hdec (Except.error.inj hr).symm
    · simp only [AEADCipher.decrypt, Text.ascii, if_neg hv2] at h
      cases aad with
      | some a => cases h
      | none => cases hfernet : lib.fernet c.legacyFernetB64 b <;> rw [hfernet] at h <;> cases h

end Cipher

/-! Several ciphers. -/

/-- How the loop over ciphers ends: with the plaintext of the first that opens the token, or, where
none does, with the `DecryptionError` of the newest. -/
def OneFailureMode (lib : Crypto) (ciphers : ReadKeys AEADCipher) (token : Text)
    (aad : Option Bytes) (r : Except Refusal Bytes) : Prop :=
  (∃ before c after data, ciphers.toList = before ++ c :: after ∧
    (∀ d ∈ before, ∀ x, ¬ d.Opens lib token aad x) ∧ c.Opens lib token aad data ∧ r = .ok data) ∨
  ((∀ c ∈ ciphers.toList, ∀ x, ¬ c.Opens lib token aad x) ∧ ∃ e, e.IsDecryption ∧
    ciphers.newest.decrypt lib token aad = .error e ∧ r = .error e)

section Ciphers

variable {lib : Crypto} {token : Text} {aad : Option Bytes}

/-- A cipher opens an ASCII token, or raises `DecryptionError`. -/
theorem opens_or_refuses (hb : token.ascii.isSome = true) (c : AEADCipher) :
    (∃ data, c.decrypt lib token aad = .ok data ∧ c.Opens lib token aad data) ∨
      ∃ e, c.decrypt lib token aad = .error e ∧ e.IsDecryption ∧
        ∀ x, ¬ c.Opens lib token aad x := by
  cases h : c.decrypt lib token aad with
  | ok data => exact .inl ⟨data, rfl, decrypt_ok_iff.1 h⟩
  | error e =>
    refine .inr ⟨e, rfl, ?_, ?_⟩
    · rintro rfl
      rw [decrypt_unicode_iff.1 h] at hb
      cases hb
    · intro x hx
      rw [decrypt_ok_iff.2 hx] at h
      cases h

/-- The loop over the older ciphers stops at the first that opens the token. -/
theorem decryptWithOlder_spec (hb : token.ascii.isSome = true) (failure : Refusal)
    (older : List AEADCipher) :
    (∃ before c after data, older = before ++ c :: after ∧
      (∀ d ∈ before, ∀ x, ¬ d.Opens lib token aad x) ∧ c.Opens lib token aad data ∧
      decryptWithOlder lib token aad failure older = .ok data) ∨
    ((∀ c ∈ older, ∀ x, ¬ c.Opens lib token aad x) ∧
      decryptWithOlder lib token aad failure older = .error failure) := by
  induction older with
  | nil => exact .inr ⟨by simp, rfl⟩
  | cons c older ih =>
    obtain ⟨data, hdec, hopen⟩ | ⟨e, hdec, he, hno⟩ := @opens_or_refuses lib token aad hb c
    · refine .inl ⟨[], c, older, data, rfl, by simp, hopen, ?_⟩
      simp only [decryptWithOlder, hdec]
    · have hrun : decryptWithOlder lib token aad failure (c :: older) =
          decryptWithOlder lib token aad failure older := by
        simp only [decryptWithOlder, hdec]
        cases e with
        | unicode => exact absurd rfl he
        | _ => rfl
      rw [hrun]
      obtain ⟨before, d, after, data, rfl, hbefore, hopen, hrest⟩ | ⟨hall, hrest⟩ := ih
      · refine .inl ⟨c :: before, d, after, data, rfl, ?_, hopen, hrest⟩
        intro x hx
        obtain rfl | hx := List.mem_cons.1 hx
        · exact hno
        · exact hbefore x hx
      · refine .inr ⟨?_, hrest⟩
        intro x hx
        obtain rfl | hx := List.mem_cons.1 hx
        · exact hno
        · exact hall x hx

theorem decryptWithAny_spec (hb : token.ascii.isSome = true) (ciphers : ReadKeys AEADCipher) :
    OneFailureMode lib ciphers token aad (decryptWithAny lib ciphers token aad) := by
  obtain ⟨newest, older⟩ := ciphers
  obtain ⟨data, hdec, hopen⟩ | ⟨e, hdec, he, hno⟩ :=
    @opens_or_refuses lib token aad hb newest
  · refine .inl ⟨[], newest, older, data, rfl, by simp, hopen, ?_⟩
    simp only [decryptWithAny, hdec]
  · have hrun : decryptWithAny lib ⟨newest, older⟩ token aad =
        decryptWithOlder lib token aad e older := by
      simp only [decryptWithAny, hdec]
      cases e with
      | unicode => exact absurd rfl he
      | _ => rfl
    rw [hrun]
    obtain ⟨before, d, after, data, rfl, hbefore, hopen, hrest⟩ | ⟨hall, hrest⟩ :=
      @decryptWithOlder_spec lib token aad hb e older
    · refine .inl ⟨newest :: before, d, after, data, rfl, ?_, hopen, hrest⟩
      intro x hx
      obtain rfl | hx := List.mem_cons.1 hx
      · exact hno
      · exact hbefore x hx
    · refine .inr ⟨?_, e, he, hdec, hrest⟩
      intro x hx
      obtain rfl | hx := List.mem_cons.1 hx
      · exact hno
      · exact hall x hx

theorem decryptWithAny_unicode (h : token.ascii = none) (ciphers : ReadKeys AEADCipher) :
    decryptWithAny lib ciphers token aad = .error .unicode := by
  simp only [decryptWithAny, decrypt_unicode_iff.2 h]

/-- `UnicodeEncodeError` is no way to fail. -/
theorem not_oneFailureMode_unicode (ciphers : ReadKeys AEADCipher) :
    ¬ OneFailureMode lib ciphers token aad (.error .unicode) := by
  rintro (⟨_, _, _, _, _, _, _, h⟩ | ⟨_, e, he, _, h⟩)
  · cases h
  · exact he (Except.error.inj h).symm

theorem oneFailureMode_iff (ciphers : ReadKeys AEADCipher) :
    OneFailureMode lib ciphers token aad (decryptWithAny lib ciphers token aad) ↔
      token.ascii.isSome = true := by
  cases hb : token.ascii with
  | some b => exact iff_of_true (decryptWithAny_spec (by rw [hb]; rfl) ciphers) rfl
  | none =>
    rw [decryptWithAny_unicode hb]
    exact iff_of_false (not_oneFailureMode_unicode ciphers) (by simp)

end Ciphers

/-- Read keys with this one among them open the token. -/
def Unlocks (lib : Crypto) (token : Text) (aad : Option Bytes) (k : Key) (data : Bytes) : Prop :=
  ∀ read : ReadKeys Key, k ∈ read.toList → decryptWithAny lib (read.map .of) token aad = .ok data

section Unlocks

variable {lib : Crypto} {made : List Sealed} {token : Text} {aad : Option Bytes} {data : Bytes}

/-- The key of an encryption unlocks its token. -/
theorem Ideal.unlocks (ideal : Ideal lib made) {r : Sealed} (hr : r ∈ made)
    (ht : token.ascii = some (tokenOf r.frame))
    (haad : r.aad = AEADCipher.composeAad algAes256Gcm aad) {k : Key} (hk : k.val = r.key) :
    Unlocks lib token aad k r.data :=
  fun _ hmem => ideal.decryptWithAny hr ht haad ⟨k, hmem, hk⟩

/-- A key that opens a token unlocks it, where no key opens it to another plaintext. -/
theorem unlocks_of_sole {k : Key} (hopen : (AEADCipher.of k).decrypt lib token aad = .ok data)
    (hsole : ∀ (c : AEADCipher) x, c.decrypt lib token aad = .ok x → x = data) :
    Unlocks lib token aad k data := by
  intro read hmem
  have hopens := decrypt_ok_iff.1 hopen
  have hascii : token.ascii.isSome = true := by
    obtain ⟨b, hb, _⟩ := hopens
    rw [hb]
    rfl
  obtain ⟨_, c, _, x, _, _, hc, hrun⟩ | ⟨hno, _⟩ :=
    @decryptWithAny_spec lib token aad hascii (read.map .of)
  · rw [hrun, hsole c x (decrypt_ok_iff.2 hc)]
  · have hin : AEADCipher.of k ∈ (read.map AEADCipher.of).toList := by
      obtain rfl | hk := List.mem_cons.1 hmem
      · exact List.mem_cons_self ..
      · exact List.mem_cons_of_mem _ (List.mem_map_of_mem hk)
    exact absurd hopens (hno _ hin data)

end Unlocks

/-- `AEADCipher.decrypt`, `_decrypt_with_any` and `_ReadFallbackCipher.decrypt` give the plaintext of
the first cipher that authenticates the token or raise the `DecryptionError` of the newest one,
exactly where the token is bytes or ASCII text. -/
theorem one_failure_mode_iff (lib : Crypto) (token : Text) (aad : Option Bytes) :
    (∀ c : AEADCipher, OneFailureMode lib ⟨c, []⟩ token aad (c.decrypt lib token aad) ↔
      token.ascii.isSome = true) ∧
    (∀ ciphers : ReadKeys AEADCipher,
      OneFailureMode lib ciphers token aad (decryptWithAny lib ciphers token aad) ↔
        token.ascii.isSome = true) ∧
    ∀ (writer : Option AEADCipher) (refusal : Option Unavailable) (readers : ReadKeys AEADCipher),
      (∃ r, OneFailureMode lib readers token aad r ∧
        (Cipher.fallback writer refusal readers).decrypt lib token aad =
          r.mapError Raise.decrypt) ↔ token.ascii.isSome = true := by
  refine ⟨?_, fun ciphers => oneFailureMode_iff ciphers, ?_⟩
  · intro c
    rw [← decryptWithAny_single]
    exact oneFailureMode_iff ⟨c, []⟩
  · intro writer refusal readers
    have hrun : (Cipher.fallback writer refusal readers).decrypt lib token aad =
        (decryptWithAny lib readers token aad).mapError Raise.decrypt := by
      simp only [Cipher.decrypt]
      cases decryptWithAny lib readers token aad <;> rfl
    rw [← @oneFailureMode_iff lib token aad readers, hrun]
    constructor
    · rintro ⟨r, hr, heq⟩
      have hsame : decryptWithAny lib readers token aad = r := by
        cases hany : decryptWithAny lib readers token aad <;> cases r <;> rw [hany] at heq <;>
          cases heq <;> rfl
      rw [hsame]
      exact hr
    · intro h
      exact ⟨_, h, rfl⟩

/-- For the text `é` the newest key's failure is a `UnicodeEncodeError`. -/
theorem accented_token_raises :
    (AEADCipher.of ⟨List.replicate 32 0, rfl⟩).decrypt (zeroCrypto ⟨true⟩) (.str [233]) none =
      .error .unicode ∧
    ¬ OneFailureMode (zeroCrypto ⟨true⟩) ⟨.of ⟨List.replicate 32 0, rfl⟩, []⟩ (.str [233]) none
      ((AEADCipher.of ⟨List.replicate 32 0, rfl⟩).decrypt (zeroCrypto ⟨true⟩) (.str [233]) none) := by
  have hraise : (AEADCipher.of ⟨List.replicate 32 0, rfl⟩).decrypt (zeroCrypto ⟨true⟩) (.str [233])
      none = .error .unicode := decrypt_unicode_iff.2 (by decide)
  refine ⟨hraise, ?_⟩
  rw [hraise]
  exact not_oneFailureMode_unicode _

end KestrelSdk.Security
