import KestrelSdk.Asyncio.Machine
import KestrelSdk.Security.Routes

namespace KestrelSdk.Security

open Asyncio
open Json (Str Bytes str encodeUtf8)

namespace Store

/-- A token that was written. -/
structure Written where
  route : Route
  plaintext : Text
  nonce : Nonce
  token : Bytes

/-- A configuration: its environment, the salt file beside its key file, the salts that each process
noted as durable, and what was written under it. -/
structure Site where
  env : Environment
  salt : Option Bytes
  durable : Nat → List Salt := fun _ => []
  log : List Written := []

/-- The configurations, and the key cache of each process. -/
structure Host where
  site : Nat → Site
  cache : Nat → List ((Key × Salt) × Key)

/-- How the file system answers a call. -/
structure Io where
  publication : Publication
  syncs : Bool

/-- What happens: a process writes or reads under a configuration, a process ends, or a configuration
with a bare data key gets a salt, in its environment or beside a key file. -/
inductive Event where
  | write (i process : Nat) (io : Io) (route : Route) (plaintext : Text) (nonce : Nonce)
  | read (i process : Nat) (io : Io) (route : Route) (token : Text)
  | exit (process : Nat)
  | addSalt (i : Nat) (env : Environment) (salt : Option Bytes)

/-- The environment has a data key alone. -/
def bare (env : Environment) : Bool :=
  env.saltValue = [] && env.saltFile.isNone && env.keyFile.isNone

/-- The data key of an environment. -/
def keyOf (env : Environment) : Option Str :=
  match usableDataKey env with
  | .ok key => key
  | .error _ => none

/-- Reads find a valid salt, or none. -/
def valid (rel : Base64.Release) (env : Environment) (salt : Option Bytes) : Bool :=
  match readPassphraseSalt rel env ⟨salt, .failed none, false, none⟩ with
  | .ok _ => true
  | .error _ => false

namespace Host

/-- The process at work under a configuration. -/
def process (h : Host) (i n : Nat) (io : Io) : Process :=
  ⟨⟨(h.site i).salt, io.publication, io.syncs, none⟩, (h.site i).durable n, h.cache n⟩

/-- What is left of its work. -/
def keep (h : Host) (i n : Nat) (q : Process) (written : List Written) : Host where
  site := Function.update h.site i
    { h.site i with
      salt := q.volume.salt
      durable := Function.update (h.site i).durable n q.durable
      log := (h.site i).log ++ written }
  cache := Function.update h.cache n q.cache

def written (route : Route) (plaintext : Text) (nonce : Nonce) : Except Raise Bytes → List Written
  | .ok token => [⟨route, plaintext, nonce, token⟩]
  | .error _ => []

def step (lib : KeyLib) (h : Host) : Event → Option Host
  | .write i n io route plaintext nonce =>
    let (r, q) := route.write lib (h.site i).env plaintext nonce (h.process i n io)
    some (h.keep i n q (written route plaintext nonce r))
  | .read i n io route token =>
    let (_, q) := route.read lib (h.site i).env token (h.process i n io)
    some (h.keep i n q [])
  | .exit n =>
    some
      { site := fun i => { h.site i with durable := Function.update (h.site i).durable n [] }
        cache := Function.update h.cache n [] }
  | .addSalt i env salt =>
    if bare (h.site i).env ∧ keyOf env = keyOf (h.site i).env ∧ valid lib.release env salt then
      some { h with
        site := Function.update h.site i
          { h.site i with env := env, salt := salt, durable := fun _ => [] } }
    else none

end Host

/-- The host with configurations under which nothing has been written. -/
def host (lib : KeyLib) (env : Nat → Environment) (salt : Nat → Option Bytes) : Machine Host Event where
  start := ⟨fun i => { env := env i, salt := salt i }, fun _ => []⟩
  step := Host.step lib

/-- The passphrases and raw keys of the configurations. -/
def passphrases (env : Nat → Environment) : Set Bytes :=
  {b | ∃ i key, keyOf (env i) = some key ∧ encodeUtf8 key = some b}

section Invariant

variable {lib : KeyLib} {used : Set Bytes} {h h' : Host}

/-- The token is sealed under a key with which its route reads. -/
def Held (lib : KeyLib) (site : Site) (w : Written) : Prop :=
  ∃ key s keys, usableDataKey site.env = .ok (some key) ∧
    (∀ p : Process, p.volume.blocked = none → p.volume.salt = site.salt →
      p.saltFor lib site.env key = .ok s) ∧
    w.route.ring lib key s = some keys ∧
    ∃ k ∈ keys.toList, (AEADCipher.of k).encrypt lib.toCrypto w.plaintext w.nonce w.route.aad =
      some w.token

structure Readable (lib : KeyLib) (used : Set Bytes) (h : Host) : Prop where
  cache : ∀ n, CacheSound lib used (h.cache n)
  keys : ∀ i key, keyOf (h.site i).env = some key → ∀ b, encodeUtf8 key = some b → b ∈ used
  log : ∀ i, ∀ w ∈ (h.site i).log, Held lib (h.site i) w

theorem keyOf_eq {env : Environment} {key : Str} (hkey : usableDataKey env = .ok (some key)) :
    keyOf env = some key := by
  unfold keyOf
  rw [hkey]

theorem usable_of_keyOf {env : Environment} {key : Str} (hkey : keyOf env = some key) :
    usableDataKey env = .ok (some key) := by
  unfold keyOf at hkey
  split at hkey
  case h_1 key' heq =>
    rw [heq, hkey]
  case h_2 => cases hkey

/-- The salt that counts is a matter of the salt file. -/
theorem saltFor_congr {p q : Process} (hb : q.volume.blocked = p.volume.blocked)
    (h : q.volume.salt = p.volume.salt) (env : Environment) (key : Str) :
    q.saltFor lib env key = p.saltFor lib env key := by
  simp only [Process.saltFor, Process.salt, readPassphraseSalt, loadExistingKeyFileSalt_congr hb h]

/-- A process at work keeps what was written readable. -/
theorem Held.keep {site : Site} {w : Written} (hw : Held lib site w) {p q : Process}
    (hb : p.volume.blocked = none) (hp : p.volume.salt = site.salt) (hleads : Leads lib used p q) {durable : Nat → List Salt}
    {log : List Written} :
    Held lib { site with salt := q.volume.salt, durable := durable, log := log } w := by
  obtain ⟨key, s, keys, hkey, hs, hkeys, k, hk, henc⟩ := hw
  obtain ⟨t, ht, _⟩ := hleads.saltFor (hs p hb hp)
  obtain ⟨keys', hkeys', hwithin⟩ := hleads.ring (hs p hb hp) hkeys ht
  refine ⟨key, t, keys', hkey, ?_, hkeys', k, hwithin k hk, henc⟩
  intro p' hb' hp'
  rw [saltFor_congr (hb'.trans (hleads.kept.blocked.trans hb).symm) hp']
  exact ht

theorem Readable.keep (hr : Readable lib used h) (i n : Nat) (io : Io) {q : Process}
    (hleads : Leads lib used (h.process i n io) q) {written : List Written}
    (hwritten : ∀ w ∈ written, Held lib
      { h.site i with
        salt := q.volume.salt
        durable := Function.update (h.site i).durable n q.durable
        log := (h.site i).log ++ written } w) :
    Readable lib used (h.keep i n q written) := by
  refine ⟨?_, ?_, ?_⟩
  · intro m
    by_cases hm : m = n
    · subst hm
      simp only [Host.keep, Function.update_self]
      exact hleads.sound
    · simp only [Host.keep, Function.update_of_ne hm]
      exact hr.cache m
  · intro j key hkey
    by_cases hj : j = i
    · subst hj
      simp only [Host.keep, Function.update_self] at hkey
      exact hr.keys j key hkey
    · simp only [Host.keep, Function.update_of_ne hj] at hkey
      exact hr.keys j key hkey
  · intro j w hw
    by_cases hj : j = i
    · subst hj
      simp only [Host.keep, Function.update_self] at hw ⊢
      obtain hw | hw := List.mem_append.1 hw
      · exact (hr.log j w hw).keep (p := h.process j n io) rfl rfl hleads
      · exact hwritten w hw
    · simp only [Host.keep, Function.update_of_ne hj] at hw ⊢
      exact hr.log j w hw

/-- An added salt keeps what was written readable. -/
theorem Held.addSalt {site : Site} {w : Written} (hw : Held lib site w)
    (hbare : bare site.env = true) {env : Environment} {salt : Option Bytes}
    (hkey' : keyOf env = keyOf site.env) (hvalid : valid lib.release env salt = true)
    {durable : Nat → List Salt} :
    Held lib { site with env := env, salt := salt, durable := durable } w := by
  obtain ⟨key, s, keys, hkey, hs, hkeys, k, hk, henc⟩ := hw
  rw [keyOf_eq hkey] at hkey'
  have hnone : s = none := by
    have hs := hs ⟨⟨site.salt, .failed none, false, none⟩, [], []⟩ rfl rfl
    unfold Process.saltFor at hs
    split at hs
    · cases hs
      rfl
    · simp only [bare, Bool.and_eq_true, Option.isNone_iff_eq_none, decide_eq_true_eq] at hbare
      obtain ⟨⟨hvalue, hfile⟩, hkeyFile⟩ := hbare
      simp [readPassphraseSalt, explicitSalt, hvalue, hfile, hkeyFile] at hs
      exact hs.symm
  subst hnone
  unfold valid at hvalid
  have hfound : ∃ t, ∀ p : Process, p.volume.blocked = none → p.volume.salt = salt →
      p.saltFor lib env key = .ok t := by
    have hread : ∃ t, (⟨⟨salt, .failed none, false, none⟩, [], []⟩ : Process).saltFor lib env key =
        .ok t := by
      unfold Process.saltFor
      split
      · exact ⟨none, rfl⟩
      · split at hvalid
        case h_1 t ht => exact ⟨t, ht⟩
        case h_2 => cases hvalid
    obtain ⟨t, ht⟩ := hread
    refine ⟨t, fun p hb hp => ?_⟩
    rw [← ht]
    exact saltFor_congr hb hp env key
  obtain ⟨t, ht⟩ := hfound
  obtain ⟨keys', hkeys', hwithin⟩ := w.route.ring_grows t hkeys
  exact ⟨key, t, keys', usable_of_keyOf hkey', ht, hkeys', k, hwithin k hk, henc⟩

theorem Readable.usable (hr : Readable lib used h) {i : Nat} {key : Str}
    (hkey : usableDataKey (h.site i).env = .ok (some key)) :
    ∀ b, encodeUtf8 key = some b → b ∈ used :=
  hr.keys i key (keyOf_eq hkey)

theorem Readable.write (hr : Readable lib used h) (hinj : Set.InjOn lib.sha256 used) (i n : Nat)
    (io : Io) (route : Route) (plaintext : Text) (nonce : Nonce) {r : Except Raise Bytes}
    {q : Process} (hrun : route.write lib (h.site i).env plaintext nonce (h.process i n io) = (r, q)) :
    Readable lib used (h.keep i n q (Host.written route plaintext nonce r)) := by
  by_cases hkey : ∃ key, usableDataKey (h.site i).env = .ok (some key)
  · obtain ⟨key, hkey⟩ := hkey
    obtain ⟨q', r', hrun', hleads, hwrote⟩ :=
      Route.write_spec (p := h.process i n io) hkey hinj (hr.usable hkey) (hr.cache n) plaintext nonce
        route
    rw [hrun] at hrun'
    cases hrun'
    apply hr.keep i n io hleads
    intro w hw
    cases r with
    | error e => cases hw
    | ok token =>
      obtain rfl := List.mem_singleton.1 hw
      obtain ⟨_, s, keys, hs, _, hkeys, henc⟩ := hwrote token rfl
      refine ⟨key, s, keys, hkey, ?_, hkeys, keys.newest, List.mem_cons_self, henc⟩
      intro p hb hp
      rw [← hs]
      exact saltFor_congr (hb.trans hleads.kept.blocked.symm) hp _ _
  · obtain ⟨e, hrun'⟩ := Route.write_unkeyed (p := h.process i n io) lib
      (fun key hk => hkey ⟨key, hk⟩) plaintext nonce route
    rw [hrun] at hrun'
    cases hrun'
    apply hr.keep i n io ⟨.refl _, hr.cache n⟩
    intro w hw
    cases hw

theorem Readable.read {made : List Sealed} (ideal : Ideal lib.toCrypto made)
    (hr : Readable lib used h) (hinj : Set.InjOn lib.sha256 used) (i n : Nat) (io : Io)
    (route : Route) (t : Text) :
    Readable lib used
      (h.keep i n (route.read lib (h.site i).env t (h.process i n io)).2 []) := by
  by_cases hkey : ∃ key, usableDataKey (h.site i).env = .ok (some key)
  · obtain ⟨key, hkey⟩ := hkey
    obtain ⟨q, r, hrun, hleads, _⟩ :=
      Route.read_spec (p := h.process i n io) ideal hkey hinj (hr.usable hkey) (hr.cache n) rfl route t
    rw [hrun]
    exact hr.keep i n io hleads (by simp)
  · obtain ⟨e, hrun⟩ := Route.read_unkeyed (p := h.process i n io) lib
      (fun key hk => hkey ⟨key, hk⟩) t route
    rw [hrun]
    exact hr.keep i n io ⟨.refl _, hr.cache n⟩ (by simp)

theorem Readable.step {made : List Sealed} (ideal : Ideal lib.toCrypto made)
    (hr : Readable lib used h) (hinj : Set.InjOn lib.sha256 used) {e : Event}
    (hstep : h.step lib e = some h') : Readable lib used h' := by
  cases e with
  | write i n io route plaintext nonce =>
    cases hstep
    exact hr.write hinj i n io route plaintext nonce rfl
  | read i n io route t =>
    cases hstep
    exact hr.read ideal hinj i n io route t
  | exit n =>
    cases hstep
    refine ⟨?_, hr.keys, hr.log⟩
    intro m
    by_cases hm : m = n
    · subst hm
      simp [CacheSound]
    · simp only [Function.update_of_ne hm]
      exact hr.cache m
  | addSalt i env salt =>
    simp only [Host.step] at hstep
    split at hstep
    case isTrue hcond =>
      obtain ⟨hbare, hkey, hvalid⟩ := hcond
      cases hstep
      refine ⟨hr.cache, ?_, ?_⟩
      · intro j key hj
        by_cases hji : j = i
        · subst hji
          simp only [Function.update_self] at hj
          exact hr.keys j key (hkey.symm.trans hj)
        · simp only [Function.update_of_ne hji] at hj
          exact hr.keys j key hj
      · intro j w hw
        by_cases hji : j = i
        · subst hji
          simp only [Function.update_self] at hw ⊢
          exact (hr.log j w hw).addSalt hbare hkey hvalid
        · simp only [Function.update_of_ne hji] at hw ⊢
          exact hr.log j w hw
    case isFalse => cases hstep

theorem readable {made : List Sealed} (ideal : Ideal lib.toCrypto made)
    {env : Nat → Environment} {salt : Nat → Option Bytes}
    (hinj : Set.InjOn lib.sha256 (passphrases env)) (hr : (host lib env salt).Reachable h) :
    Readable lib (passphrases env) h := by
  apply hr.invariant (p := Readable lib (passphrases env))
  · refine ⟨by simp [host, CacheSound], ?_, by simp [host]⟩
    intro i key hkey b hb
    exact ⟨i, key, hkey, hb⟩
  · exact fun _ _ _ hr hstep => hr.step ideal hinj hstep

end Invariant

/-- The encryptions under the keys of a route that give a token written there are among `made`. -/
def Covers (lib : KeyLib) (made : List Sealed) (h : Host) : Prop :=
  ∀ i n io key s keys, usableDataKey (h.site i).env = .ok (some key) →
    (h.process i n io).saltFor lib (h.site i).env key = .ok s → ∀ w ∈ (h.site i).log,
    w.route.ring lib key s = some keys → ∀ k ∈ keys.toList, ∀ data ct,
    w.plaintext.utf8 = some data →
    lib.aesEncrypt k.val w.nonce.val data (AEADCipher.composeAad algAes256Gcm w.route.aad) = some ct →
    w.token = tokenOf (algAes256Gcm :: (w.nonce.val ++ ct)) →
    (⟨k.val, w.nonce.val, data, AEADCipher.composeAad algAes256Gcm w.route.aad, ct⟩ : Sealed) ∈ made

/-- What was written is read: each token opens to its plaintext for each process whatever the file
system answers, also after a salt was added to a bare data key. A write takes the newest of the
keys with which its route reads then, and each of those keys reads. Where writes are refused no
route writes, and reads find their salt. -/
theorem nothing_unreadable {lib : KeyLib} {made : List Sealed} (ideal : Ideal lib.toCrypto made)
    {env : Nat → Environment} {salt : Nat → Option Bytes}
    (hinj : Set.InjOn lib.sha256 (passphrases env)) {h : Host}
    (hr : (host lib env salt).Reachable h) (hcovers : Covers lib made h) :
    (∀ i, ∀ w ∈ (h.site i).log, ∃ data, w.plaintext.utf8 = some data ∧
      ∀ n io t, t.ascii = some w.token →
        (w.route.read lib (h.site i).env t (h.process i n io)).1 = .ok data) ∧
    ∀ i key, usableDataKey (h.site i).env = .ok (some key) → ∀ n io,
      (∀ route plaintext nonce token q,
        Route.write lib (h.site i).env plaintext nonce route (h.process i n io) = (.ok token, q) →
        ∃ s keys, q.saltFor lib (h.site i).env key = .ok s ∧ route.ring lib key s = some keys ∧
          (AEADCipher.of keys.newest).encrypt lib.toCrypto plaintext nonce route.aad = some token) ∧
      (∀ s route keys, (h.process i n io).saltFor lib (h.site i).env key = .ok s →
        route.ring lib key s = some keys → ∀ t x, Under made keys route t x →
          (route.read lib (h.site i).env t (h.process i n io)).1 = .ok x.data) ∧
      (Refused lib (h.site i).env key (h.process i n io) →
        (∀ route plaintext nonce token,
          (Route.write lib (h.site i).env plaintext nonce route (h.process i n io)).1 ≠ .ok token) ∧
        ∃ s, (h.process i n io).saltFor lib (h.site i).env key = .ok s) := by
  have hreadable := readable ideal hinj hr
  refine ⟨?_, ?_⟩
  · intro i w hw
    obtain ⟨key, s, keys, hkey, hs, hkeys, k, hk, henc⟩ := hreadable.log i w hw
    obtain ⟨data, ct, hdata, hct, htoken⟩ := encrypt_spec henc
    refine ⟨data, hdata, ?_⟩
    intro n io t ht
    obtain ⟨q, r, hrun, _, hread⟩ :=
      Route.read_spec (p := h.process i n io) ideal hkey hinj (hreadable.usable hkey)
        (hreadable.cache n) rfl w.route t
    rw [hrun]
    refine hread s keys (hs _ rfl rfl) hkeys ⟨_, _, _, _, ct⟩
      ⟨hcovers i n io key s keys hkey (hs _ rfl rfl) w hw hkeys k hk data ct hdata hct htoken,
        ?_, rfl, k, hk, rfl⟩
    rw [ht, htoken]
    rfl
  · intro i key hkey n io
    have hused := hreadable.usable hkey
    have hcache := hreadable.cache n
    refine ⟨?_, ?_, ?_⟩
    · intro route plaintext nonce token q hrun
      obtain ⟨q', r, hrun', _, hwrote⟩ :=
        Route.write_spec (p := h.process i n io) hkey hinj hused hcache plaintext nonce route
      rw [hrun] at hrun'
      cases hrun'
      obtain ⟨_, s, keys, hs, _, hkeys, henc⟩ := hwrote token rfl
      exact ⟨s, keys, hs, hkeys, henc⟩
    · intro s route keys hs hkeys t x hx
      obtain ⟨q, r, hrun, _, hread⟩ :=
        Route.read_spec (p := h.process i n io) ideal hkey hinj hused hcache rfl route t
      rw [hrun]
      exact hread s keys hs hkeys x hx
    · intro hno
      refine ⟨?_, hno.saltFor⟩
      intro route plaintext nonce token htoken
      obtain ⟨q, r, hrun, _, hwrote⟩ :=
        Route.write_spec (p := h.process i n io) hkey hinj hused hcache plaintext nonce route
      rw [hrun] at htoken
      exact (hwrote token htoken).1 hno

/-- The empty plaintext under the digest of a passphrase. -/
def passSealed : Security.Sealed :=
  ⟨[215, 79, 240, 238, 141, 163, 185, 128, 107, 24, 200, 119, 219, 242, 155, 189, 229, 11, 91, 216,
      228, 218, 215, 163, 167, 37, 0, 15, 235, 130, 232, 241],
    List.replicate 12 0, [], [1],
    [189, 81, 155, 152, 61, 90, 94, 207, 67, 86, 139, 27, 248, 83, 178, 7]⟩

/-- The digest of that passphrase and its key under a salt. -/
def passLib : KeyLib where
  toCrypto := soleCrypto passSealed ⟨true⟩
  sha256 _ := ⟨passSealed.key, rfl⟩
  pbkdf2 _ _ _ :=
    ⟨[54, 48, 243, 74, 253, 244, 1, 30, 99, 184, 72, 121, 157, 40, 69, 56, 40, 34, 254, 123, 115, 98,
      168, 180, 96, 3, 12, 220, 167, 180, 139, 159], rfl⟩
  hkdf _ _ _ := ⟨List.replicate 32 0, rfl⟩

def passEnv : Environment := { dataKey := str "pass" }

def saltedEnv : Environment :=
  { passEnv with saltValue := (Base64.urlsafeEncode (List.replicate 32 1)).map UInt8.toNat }

theorem nothing_unreadable_pass : ∃ h w,
    (host passLib (fun _ => passEnv) (fun _ => none)).runFrom
      (host passLib (fun _ => passEnv) (fun _ => none)).start
      [.write 0 0 ⟨.failed none, false⟩ (.fernet none) (.bytes []) ⟨passSealed.nonce, rfl⟩,
        .addSalt 0 saltedEnv none] = some h ∧
    (h.site 0).env = saltedEnv ∧ (h.site 0).log = [w] ∧
    (w.route.read passLib saltedEnv (.bytes w.token) (h.process 0 1 ⟨.failed none, false⟩)).1 =
      .ok [] := by
  obtain ⟨h, w, hrun, henv, hlog, hplain⟩ : ∃ h w,
      (host passLib (fun _ => passEnv) (fun _ => none)).runFrom
        (host passLib (fun _ => passEnv) (fun _ => none)).start
        [.write 0 0 ⟨.failed none, false⟩ (.fernet none) (.bytes []) ⟨passSealed.nonce, rfl⟩,
          .addSalt 0 saltedEnv none] = some h ∧
      (h.site 0).env = saltedEnv ∧ (h.site 0).log = [w] ∧ w.plaintext = .bytes [] :=
    ⟨_, _, rfl, rfl, rfl, rfl⟩
  have hreach : (host passLib (fun _ => passEnv) (fun _ => none)).Reachable h := ⟨_, hrun⟩
  have hinj : Set.InjOn passLib.sha256 (passphrases fun _ => passEnv) := by
    rintro b ⟨_, key, hkey, hb⟩ c ⟨_, key', hkey', hc⟩ _
    rw [hkey] at hkey'
    cases hkey'
    rw [hb] at hc
    exact Option.some.inj hc
  have hcovers : Covers passLib [passSealed] h := by
    intro i n io key s keys _ _ v hv _ k _ data ct _ hct _
    simp only [passLib, soleCrypto] at hct
    split at hct
    case isTrue heq =>
      cases hct
      exact List.mem_singleton.2 heq
    case isFalse => cases hct
  obtain ⟨hread, _⟩ := nothing_unreadable (soleCrypto_ideal ⟨true⟩ rfl rfl) hinj hreach hcovers
  obtain ⟨data, hdata, hopen⟩ := hread 0 w (by rw [hlog]; exact List.mem_singleton_self w)
  have hopen := hopen 1 ⟨.failed none, false⟩ (.bytes w.token) rfl
  rw [hplain] at hdata
  cases hdata
  rw [henv] at hopen
  exact ⟨h, w, hrun, henv, hlog, hopen⟩

end Store

end KestrelSdk.Security
