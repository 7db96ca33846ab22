import KestrelSdk.Security.Salt

namespace KestrelSdk.Security

open Json (Str Bytes str decodeUtf8 encodeUtf8)
open Encoding (strip universalNewlines)

/-- A 32-byte key. -/
abbrev Key := {k : Bytes // k.length = keySize}

/-- `cryptography` with its key derivations: the SHA-256 digest, PBKDF2-HMAC-SHA256 of iterations,
salt and key material, and HKDF-SHA256 of salt, info and key material, each of 32 bytes. -/
structure KeyLib extends Crypto where
  sha256 : Bytes → Key
  pbkdf2 : Nat → Bytes → Bytes → Key
  hkdf : Option Bytes → Bytes → Bytes → Key

/-- `PASSPHRASE_KDF_ITERATIONS`. -/
def passphraseKdfIterations : Nat := 600000

/-- `VALID_PURPOSES`. -/
def validPurposes : List Str := [str "conversations", str "service-keys", str "wallet", str "backup"]

/-- The cause of a `_KeyFileSaltUnavailableError`: no salt could be published, or its directory could
not be synced. -/
inductive Unavailable where
  | unpublished
  | unsynced
  deriving DecidableEq

/-- What the functions raise. -/
inductive Raise where
  | unavailable (u : Unavailable)
  | notConfigured
  | salt
  | unicode
  | agent
  | purpose
  | key (r : KeyRefusal)
  | encrypt
  | decrypt (r : Refusal)
  | noCipher
  | os
  deriving DecidableEq

/-- How an attempt to publish a salt ends: this process links its random salt, another one was first,
or it fails, and another process may have published meanwhile. -/
inductive Publication where
  | linked (s : Salt)
  | overtaken (s : Salt)
  | failed (other : Option Salt)

/-- What stands at the name of the salt file when no regular file can be read there: a file whose read
raises an `OSError`, something that is no regular file, or a link to nothing. -/
inductive Blocked where
  | unreadable
  | irregular
  | dangling
  deriving DecidableEq

/-- The directory of the key file: the content of the salt file, how the next publication ends,
whether the directory can be synced, and what blocks the name of the salt file. -/
structure Volume where
  salt : Option Bytes
  publication : Publication
  syncs : Bool
  blocked : Option Blocked := none

/-- A process: the directory it sees, `_DURABLE_KEY_FILE_SALTS` and
`_PASSPHRASE_MASTER_KEY_CACHE`. -/
structure Process where
  volume : Volume
  durable : List Salt := []
  cache : List ((Key × Salt) × Key) := []

/-- The key configuration. The content of a file is `none` where it cannot be read. -/
structure Environment where
  keyFile : Option (Option Bytes) := none
  dockerSecret : Option (Option Bytes) := none
  dataKey : Str := []
  saltValue : Str := []
  saltFile : Option (Option Bytes) := none

/-- A computation of a process, which keeps its effects when it raises. -/
def Run (α : Type) := Process → Except Raise α × Process

namespace Run

variable {α β : Type}

def pure (x : α) : Run α := fun p => (.ok x, p)

def bind (m : Run α) (k : α → Run β) : Run β := fun p =>
  match m p with
  | (.ok x, p) => k x p
  | (.error e, p) => (.error e, p)

instance : Monad Run where
  pure := Run.pure
  bind := Run.bind

def raise (e : Raise) : Run α := fun p => (.error e, p)

/-- What the process finds at this moment. -/
def look (f : Process → Except Raise α) : Run α := fun p => (f p, p)

def ofOption (e : Raise) : Option α → Run α
  | some x => Run.pure x
  | none => raise e

def ofExcept : Except Raise α → Run α
  | .ok x => Run.pure x
  | .error e => raise e

end Run

/-! The data key. -/

/-- `_strip_quotes`. -/
def stripQuotes (value : Str) : Str :=
  if 2 ≤ value.length ∧ value.head? = value.getLast? ∧
      (value.head? = some 34 ∨ value.head? = some 39) then value.tail.dropLast
  else value

/-- The text of a file. -/
def readText (content : Bytes) : Option Str := (decodeUtf8 content).map universalNewlines

/-- `_read_required_key_file`. -/
def readRequiredKeyFile (content : Option Bytes) : Except Raise Str :=
  match content.bind readText with
  | none => .error .notConfigured
  | some text =>
    if stripQuotes (strip text) = [] then .error .notConfigured else .ok (stripQuotes (strip text))

/-- `_get_data_key`; an unset variable and a missing file give no key. -/
def getDataKey (env : Environment) : Except Raise (Option Str) :=
  match env.keyFile with
  | some content => (readRequiredKeyFile content).map some
  | none =>
    match (env.dockerSecret.bind fun content => content.bind readText).map strip with
    | some (c :: text) => .ok (some (stripQuotes (c :: text)))
    | _ => .ok (if env.dataKey = [] then none else some (stripQuotes env.dataKey))

/-- `_get_data_key` where an empty key is no key. -/
def usableDataKey (env : Environment) : Except Raise (Option Str) :=
  (getDataKey env).map fun key => key.filter (· ≠ [])

/-- `_require_data_key`. -/
def requireDataKey (env : Environment) : Except Raise Str :=
  match usableDataKey env with
  | .ok (some key) => .ok key
  | .ok none => .error .notConfigured
  | .error e => .error e

/-! The salt. -/

/-- `_load_passphrase_salt_file`. -/
def loadPassphraseSaltFile (rel : Base64.Release) (content : Option Bytes) : Except Raise Salt :=
  match content with
  | none => .error .notConfigured
  | some content =>
    match readSalt rel content with
    | none => .error .salt
    | some s => .ok s

/-- `_load_passphrase_salt_file` of the salt file beside the key file. -/
def loadKeyFileSalt (rel : Base64.Release) (v : Volume) : Except Raise Salt :=
  match v.blocked with
  | some .unreadable => .error .os
  | some .irregular => .error .notConfigured
  | some .dangling => .error .notConfigured
  | none => loadPassphraseSaltFile rel v.salt

/-- `exists` of the salt file beside the key file, which follows links. -/
def Volume.saltExists (v : Volume) : Bool :=
  match v.blocked with
  | some .unreadable => true
  | some .irregular => true
  | some .dangling => false
  | none => v.salt.isSome

/-- `_load_existing_key_file_salt`. -/
def loadExistingKeyFileSalt (rel : Base64.Release) (v : Volume) : Except Raise (Option Salt) :=
  if v.saltExists then (loadKeyFileSalt rel v).map some else .ok none

/-- `_publish_salt_file`, whose `FileExistsError` is caught: a link to nothing keeps its name. -/
def publishSaltFile (p : Process) : Except Raise Unit × Process :=
  let put (s : Salt) : Process :=
    if p.volume.blocked.isSome then p
    else { p with volume := { p.volume with salt := some (Base64.urlsafeEncode s.val) } }
  match p.volume.publication with
  | .linked s => (.ok (), put s)
  | .overtaken s => (.ok (), put s)
  | .failed none => (.error (.unavailable .unpublished), p)
  | .failed (some s) => (.error (.unavailable .unpublished), put s)

/-- The `exists` check and `_publish_salt_file` in `_load_or_create_key_file_salt`. -/
def publishKeyFileSalt (p : Process) : Except Raise Unit × Process :=
  if p.volume.saltExists then (.ok (), p) else publishSaltFile p

/-- `_make_key_file_salt_durable`. -/
def makeKeyFileSaltDurable (s : Salt) : Run Unit := fun p =>
  if s ∈ p.durable then (.ok (), p)
  else if p.volume.syncs then (.ok (), { p with durable := s :: p.durable })
  else (.error (.unavailable .unsynced), p)

/-- `_load_or_create_key_file_salt`. -/
def loadOrCreateKeyFileSalt (rel : Base64.Release) : Run Salt := do
  publishKeyFileSalt
  let s ← Run.look fun p => loadKeyFileSalt rel p.volume
  makeKeyFileSaltDurable s
  return s

/-- The salt that the environment names, `none` where it names none. -/
def explicitSalt (rel : Base64.Release) (env : Environment) : Option (Except Raise Salt) :=
  if env.saltValue ≠ [] then
    match decodePassphraseSalt rel (strip (stripQuotes env.saltValue)) with
    | none => some (.error .salt)
    | some s => some (.ok s)
  else env.saltFile.map (loadPassphraseSaltFile rel)

/-- `_load_passphrase_salt(for_write=False)`. -/
def readPassphraseSalt (rel : Base64.Release) (env : Environment) (v : Volume) :
    Except Raise (Option Salt) :=
  match explicitSalt rel env with
  | some r => r.map some
  | none => if env.keyFile.isSome then loadExistingKeyFileSalt rel v else .ok none

/-- `_load_passphrase_salt(for_write=True)`. -/
def writePassphraseSalt (rel : Base64.Release) (env : Environment) : Run (Option Salt) :=
  match explicitSalt rel env with
  | some r => Run.ofExcept (r.map some)
  | none =>
    if env.keyFile.isSome then do
      let s ← loadOrCreateKeyFileSalt rel
      return some s
    else Run.pure none

/-! Master keys. -/

/-- `_is_fernet_key`: `Fernet` takes the URL-safe base64 text of 32 bytes. -/
def isFernetKey (rel : Base64.Release) (key : Str) : Bool :=
  match (encodeAscii key).bind (Base64.urlsafeDecode rel false) with
  | some decoded => decoded.length = keySize
  | none => false

/-- `_derive_legacy_passphrase_master_key`. -/
def deriveLegacyPassphraseMasterKey (lib : KeyLib) (key : Str) : Run Key := do
  let bytes ← Run.ofOption .unicode (encodeUtf8 key)
  return lib.sha256 bytes

/-- The cached key of a passphrase and a salt, derived where there is none. -/
def cachedMasterKey (lib : KeyLib) (bytes : Bytes) (s : Salt) : Run Key := fun p =>
  match p.cache.lookup (lib.sha256 bytes, s) with
  | some cached => (.ok cached, p)
  | none =>
    let derived := lib.pbkdf2 passphraseKdfIterations s.val bytes
    (.ok derived, { p with cache := ((lib.sha256 bytes, s), derived) :: p.cache })

/-- `_derive_salted_passphrase_master_key`. -/
def deriveSaltedPassphraseMasterKey (lib : KeyLib) (key : Str) (s : Salt) : Run Key := do
  let bytes ← Run.ofOption .unicode (encodeUtf8 key)
  cachedMasterKey lib bytes s

/-- `_derive_passphrase_master_key`. -/
def derivePassphraseMasterKey (lib : KeyLib) (env : Environment) (key : Str) : Run Key := do
  match ← writePassphraseSalt lib.release env with
  | none => deriveLegacyPassphraseMasterKey lib key
  | some s => deriveSaltedPassphraseMasterKey lib key s

/-- The read keys, newest first. -/
structure ReadKeys (α : Type) where
  newest : α
  older : List α

/-- `_passphrase_read_master_keys`. -/
def passphraseReadMasterKeys (lib : KeyLib) (env : Environment) (key : Str) : Run (ReadKeys Key) := do
  let legacy ← deriveLegacyPassphraseMasterKey lib key
  match ← Run.look fun p => readPassphraseSalt lib.release env p.volume with
  | none => return ⟨legacy, []⟩
  | some s =>
    let salted ← deriveSaltedPassphraseMasterKey lib key s
    return ⟨salted, [legacy]⟩

/-- `_MasterKeys`. -/
structure MasterKeys (α : Type) where
  write : Option α
  writeRefusal : Option Unavailable
  read : ReadKeys α

def MasterKeys.map {α β : Type} (keys : MasterKeys α) (derive : α → β) : MasterKeys β :=
  ⟨keys.write.map derive, keys.writeRefusal, ⟨derive keys.read.newest, keys.read.older.map derive⟩⟩

/-- `_resolve_passphrase_master_keys`. -/
def resolvePassphraseMasterKeys (lib : KeyLib) (env : Environment) (key : Str) :
    Run (MasterKeys Key) := fun p =>
  match derivePassphraseMasterKey lib env key p with
  | (.ok write, p) =>
    (do return ⟨some write, none, ← passphraseReadMasterKeys lib env key⟩ : Run (MasterKeys Key)) p
  | (.error (.unavailable u), p) =>
    (do return ⟨none, some u, ← passphraseReadMasterKeys lib env key⟩ : Run (MasterKeys Key)) p
  | (.error e, p) => (.error e, p)

/-! Ciphers. -/

/-- `AEADCipher(key)` of a 32-byte key. -/
def AEADCipher.of (k : Key) : AEADCipher := ⟨k.val, k.property⟩

/-- The loop over the older ciphers in `_decrypt_with_any`. -/
def decryptWithOlder (lib : Crypto) (token : Text) (aad : Option Bytes) (failure : Refusal) :
    List AEADCipher → Except Refusal Bytes
  | [] => .error failure
  | c :: older =>
    match c.decrypt lib token aad with
    | .ok data => .ok data
    | .error .unicode => .error .unicode
    | .error _ => decryptWithOlder lib token aad failure older

/-- `_decrypt_with_any`. -/
def decryptWithAny (lib : Crypto) (ciphers : ReadKeys AEADCipher) (token : Text)
    (aad : Option Bytes) : Except Refusal Bytes :=
  match ciphers.newest.decrypt lib token aad with
  | .ok data => .ok data
  | .error .unicode => .error .unicode
  | .error r => decryptWithOlder lib token aad r ciphers.older

/-- `AEADCipher`, or a `_ReadFallbackCipher` with its writer, its refusal and its readers. -/
inductive Cipher where
  | plain (c : AEADCipher)
  | fallback (writer : Option AEADCipher) (refusal : Option Unavailable)
      (readers : ReadKeys AEADCipher)

namespace Cipher

def encrypt (lib : Crypto) (c : Cipher) (plaintext : Text) (nonce : Nonce) (aad : Option Bytes) :
    Except Raise Bytes :=
  let made (c : AEADCipher) : Except Raise Bytes :=
    match c.encrypt lib plaintext nonce aad with
    | some token => .ok token
    | none => .error .encrypt
  match c with
  | .plain c => made c
  | .fallback (some c) _ _ => made c
  | .fallback none (some u) _ => .error (.unavailable u)
  | .fallback none none _ => .error .notConfigured

def decrypt (lib : Crypto) (c : Cipher) (token : Text) (aad : Option Bytes) : Except Raise Bytes :=
  let read := match c with
    | .plain c => c.decrypt lib token aad
    | .fallback _ _ readers => decryptWithAny lib readers token aad
  match read with
  | .ok data => .ok data
  | .error r => .error (.decrypt r)

end Cipher

/-- `_cipher_for`. -/
def cipherFor (keys : MasterKeys Key) : Cipher :=
  let fallback := Cipher.fallback (keys.write.map .of) keys.writeRefusal
    ⟨.of keys.read.newest, keys.read.older.map .of⟩
  match keys.write with
  | some write => if keys.read.newest = write ∧ keys.read.older = [] then .plain (.of write) else fallback
  | none => fallback

/-- `_global_cipher_from`. -/
def globalCipherFrom (lib : KeyLib) (env : Environment) (key : Str) : Run Cipher :=
  if isFernetKey lib.release key then
    match AEADCipher.new lib.toCrypto (.str key) with
    | .ok c => Run.pure (.plain c)
    | .error r => Run.raise (.key r)
  else do return cipherFor (← resolvePassphraseMasterKeys lib env key)

/-- `get_fernet`. -/
def getFernet (lib : KeyLib) (env : Environment) : Run (Option Cipher) := do
  match ← Run.ofExcept (usableDataKey env) with
  | none => return none
  | some key => return some (← globalCipherFrom lib env key)

/-- `_derive_agent_cipher_key` for the bytes of an agent's id. -/
def deriveAgentCipherKey (lib : KeyLib) (agentId : Bytes) (master : Bytes) : Key :=
  lib.hkdf (some agentId) ((str "kestrel-agent-v1").map UInt8.ofNat) master

/-- The `master_keys` of `get_agent_fernet`. -/
def agentMasterKeys (lib : KeyLib) (env : Environment) (key : Str) : Run (MasterKeys Bytes) :=
  if isFernetKey lib.release key then do
    let bytes ← Run.ofOption .unicode (encodeUtf8 key)
    return ⟨some bytes, none, ⟨bytes, []⟩⟩
  else do
    return (← resolvePassphraseMasterKeys lib env key).map (fun k => Base64.urlsafeEncode k.val)

/-- `get_agent_fernet`. An id that cannot be encoded gives no cipher. -/
def getAgentFernet (lib : KeyLib) (env : Environment) (agentId : Str) : Run (Option Cipher) := do
  match ← Run.ofExcept (usableDataKey env) with
  | none => return none
  | some key =>
    if agentId = [] then return some (← globalCipherFrom lib env key)
    else
      let masterKeys ← agentMasterKeys lib env key
      match encodeUtf8 agentId with
      | none => return none
      | some id => return some (cipherFor (masterKeys.map (deriveAgentCipherKey lib id)))

/-! Purposes. -/

/-- `_require_agent_purpose`. -/
def requireAgentPurpose (agentDid purpose : Str) : Except Raise Unit :=
  if agentDid = [] then .error .agent
  else if purpose ∈ validPurposes then .ok ()
  else .error .purpose

/-- `_derive_purpose_key` for the bytes of an agent's id. -/
def derivePurposeKey (lib : KeyLib) (agentDid : Bytes) (purpose : Str) (master : Bytes) : Key :=
  let agent := lib.hkdf (some agentDid) ((str "kestrel-agent-master-v1").map UInt8.ofNat) master
  lib.hkdf none ((str "kestrel-" ++ purpose ++ str "-v1").map UInt8.ofNat) agent.val

/-- `_decode_fernet_master_key`. -/
def decodeFernetMasterKey (lib : KeyLib) (key : Str) : Run Bytes :=
  Run.ofOption .unicode ((encodeAscii key).bind (Base64.urlsafeDecode lib.release false))

/-- `_get_master_key`. -/
def getMasterKey (lib : KeyLib) (env : Environment) : Run Bytes := do
  let key ← Run.ofExcept (requireDataKey env)
  if isFernetKey lib.release key then decodeFernetMasterKey lib key
  else return (← derivePassphraseMasterKey lib env key).val

/-- `encrypt` with `get_agent_key`. -/
def encrypt (lib : KeyLib) (env : Environment) (agentDid purpose : Str) (plaintext : Text)
    (nonce : Nonce) : Run Bytes := do
  Run.ofExcept (requireAgentPurpose agentDid purpose)
  let master ← getMasterKey lib env
  let did ← Run.ofOption .unicode (encodeUtf8 agentDid)
  let c := AEADCipher.of (derivePurposeKey lib did purpose master)
  Run.ofOption .encrypt (c.encrypt lib.toCrypto plaintext nonce none)

/-- The `masters` of `decrypt`. -/
def readMasters (lib : KeyLib) (env : Environment) (key : Str) : Run (ReadKeys Bytes) :=
  if isFernetKey lib.release key then do
    let decoded ← decodeFernetMasterKey lib key
    let legacy ← deriveLegacyPassphraseMasterKey lib key
    return ⟨decoded, [legacy.val]⟩
  else do
    let keys ← passphraseReadMasterKeys lib env key
    return ⟨keys.newest.val, keys.older.map Subtype.val⟩

/-- `decrypt`. -/
def decrypt (lib : KeyLib) (env : Environment) (agentDid purpose : Str) (ciphertext : Text) :
    Run Bytes := do
  Run.ofExcept (requireAgentPurpose agentDid purpose)
  let key ← Run.ofExcept (requireDataKey env)
  let masters ← readMasters lib env key
  let did ← Run.ofOption .unicode (encodeUtf8 agentDid)
  let reader (master : Bytes) : AEADCipher := .of (derivePurposeKey lib did purpose master)
  match decryptWithAny lib.toCrypto ⟨reader masters.newest, masters.older.map reader⟩ ciphertext none with
  | .ok data => return data
  | .error r => Run.raise (.decrypt r)

end KestrelSdk.Security
