import KestrelSdk.Encoding.Strip
import KestrelSdk.Security.Token

namespace KestrelSdk.Security

open Json (Str Bytes decodeUtf8)
open Encoding (strip universalNewlines)

/-- `PASSPHRASE_SALT_SIZE`. -/
def saltSize : Nat := 32

abbrev Salt := {s : Bytes // s.length = saltSize}

instance : LawfulBEq Salt := inferInstance

/-- `_decode_passphrase_salt`; `none` is `ValueError`. -/
def decodePassphraseSalt (rel : Base64.Release) (encoded : Str) : Option Salt := do
  let ascii ← encodeAscii encoded
  let salt ← Base64.urlsafeDecode rel false ascii
  if h : salt.length = saltSize then some ⟨salt, h⟩ else none

/-- The salt in the content of a salt file, as `_load_passphrase_salt_file` reads it. -/
def readSalt (rel : Base64.Release) (content : Bytes) : Option Salt := do
  let text ← decodeUtf8 content
  decodePassphraseSalt rel (strip (universalNewlines text))

theorem urlsafe_not_space : ∀ n < 64,
    Encoding.isSpace (Base64.toUrlsafe (Base64.letter n)).toNat = false := by decide

/-- The text of an encoded salt has no white space. -/
theorem urlsafeEncode_not_space (f : Bytes) :
    ∀ c ∈ (Base64.urlsafeEncode f).map UInt8.toNat, Encoding.isSpace c = false := by
  intro c hc
  obtain ⟨d, hd, rfl⟩ := List.mem_map.1 hc
  obtain ⟨e, he, rfl⟩ := List.mem_map.1 hd
  have hread : Base64.Reads ⟨false⟩ (Base64.encode f) f := Base64.reads_encode f
  obtain rfl | ⟨n, hn, rfl⟩ := hread.mem he
  · decide
  · exact urlsafe_not_space n hn

/-- A salt file that was published is read as its salt. -/
theorem readSalt_published (rel : Base64.Release) (salt : Salt) :
    readSalt rel (Base64.urlsafeEncode salt.val) = some salt := by
  have hspace := urlsafeEncode_not_space salt.val
  have hascii := ascii_urlsafeEncode salt.val
  have hsmall : ∀ c ∈ (Base64.urlsafeEncode salt.val).map UInt8.toNat, c < 0x80 := by
    have hall : ((Base64.urlsafeEncode salt.val).map UInt8.toNat).all (· < 0x80) = true := by
      by_contra hno
      rw [Text.ascii, encodeAscii, if_neg hno] at hascii
      cases hascii
    intro c hc
    simpa using List.all_eq_true.1 hall c hc
  have hutf8 : decodeUtf8 (Base64.urlsafeEncode salt.val) =
      some ((Base64.urlsafeEncode salt.val).map UInt8.toNat) := by
    have hround := (Json.encodeUtf8_ascii hsmall).2
    have hid : (UInt8.ofNat ∘ UInt8.toNat) = id := by
      funext c
      exact UInt8.ofNat_toNat
    rw [List.map_map, hid, List.map_id] at hround
    exact hround
  unfold readSalt
  rw [hutf8]
  simp only [Option.bind_eq_bind, Option.bind_some, Encoding.universalNewlines_of_none hspace,
    Encoding.strip_of_none hspace]
  unfold decodePassphraseSalt
  have hascii : encodeAscii ((Base64.urlsafeEncode salt.val).map UInt8.toNat) =
      some (Base64.urlsafeEncode salt.val) := hascii
  simp only [hascii, Option.bind_eq_bind, Option.bind_some, Base64.urlsafeDecode_urlsafeEncode,
    dif_pos salt.property]

end KestrelSdk.Security
