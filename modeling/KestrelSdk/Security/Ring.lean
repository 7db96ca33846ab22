import KestrelSdk.Security.Opening

namespace KestrelSdk.Security

open Json (Str Bytes str encodeUtf8)

/-! The ways to write and to read. -/

/-- `get_fernet()` and `get_agent_fernet(agent_id)` with the associated data of a token, or `encrypt`
and `decrypt` of an agent and a purpose. -/
inductive Route where
  | fernet (aad : Option Bytes)
  | agentFernet (agentId : Str) (aad : Option Bytes)
  | purpose (agentDid purpose : Str)
  deriving DecidableEq

/-- A method of the cipher, where there is one. -/
def withCipher (cipher : Option Cipher) (use : Cipher → Except Raise Bytes) : Run Bytes :=
  match cipher with
  | none => Run.raise .noCipher
  | some c => Run.ofExcept (use c)

namespace Route

def aad : Route → Option Bytes
  | fernet aad => aad
  | agentFernet _ aad => aad
  | purpose _ _ => none

def write (lib : KeyLib) (env : Environment) (plaintext : Text) (nonce : Nonce) : Route → Run Bytes
  | fernet aad => do
    withCipher (← getFernet lib env) fun c => c.encrypt lib.toCrypto plaintext nonce aad
  | agentFernet agentId aad => do
    withCipher (← getAgentFernet lib env agentId) fun c => c.encrypt lib.toCrypto plaintext nonce aad
  | purpose agentDid name => encrypt lib env agentDid name plaintext nonce

def read (lib : KeyLib) (env : Environment) (token : Text) : Route → Run Bytes
  | fernet aad => do
    withCipher (← getFernet lib env) fun c => c.decrypt lib.toCrypto token aad
  | agentFernet agentId aad => do
    withCipher (← getAgentFernet lib env agentId) fun c => c.decrypt lib.toCrypto token aad
  | purpose agentDid name => decrypt lib env agentDid name token

end Route

/-! The keys of a route. -/

/-- The keys of `get_fernet()` under the data key and the salt that reads find. -/
def globalRing (lib : KeyLib) (key : Str) (s : Option Salt) : Option (ReadKeys Key) :=
  if isFernetKey lib.release key then
    match AEADCipher.new lib.toCrypto (.str key) with
    | .ok c => some ⟨⟨c.key, c.size⟩, []⟩
    | .error _ => none
  else (encodeUtf8 key).map fun b => masters lib b s

/-- The master keys from which the keys of a purpose are derived. -/
def purposeMasters (lib : KeyLib) (key : Str) (s : Option Salt) : Option (ReadKeys Bytes) :=
  (encodeUtf8 key).bind fun b =>
    if isFernetKey lib.release key then
      ((encodeAscii key).bind (Base64.urlsafeDecode lib.release false)).map
        fun decoded => ⟨decoded, [(lib.sha256 b).val]⟩
    else some ((masters lib b s).map Subtype.val)

/-- The keys of a route, newest first. -/
def Route.ring (lib : KeyLib) (key : Str) (s : Option Salt) : Route → Option (ReadKeys Key)
  | .fernet _ => globalRing lib key s
  | .agentFernet agentId _ =>
    if agentId = [] then globalRing lib key s
    else
      (encodeUtf8 agentId).bind fun id => (encodeUtf8 key).map fun b =>
        if isFernetKey lib.release key then ⟨deriveAgentCipherKey lib id b, []⟩
        else (masters lib b s).map fun k => deriveAgentCipherKey lib id (Base64.urlsafeEncode k.val)
  | .purpose agentDid name =>
    if agentDid = [] ∨ name ∉ validPurposes then none
    else
      (encodeUtf8 agentDid).bind fun did => (purposeMasters lib key s).map
        fun keys => keys.map (derivePurposeKey lib did name)

/-- The salt that counts for a data key: a raw key has none. -/
def Process.saltFor (lib : KeyLib) (env : Environment) (key : Str) (p : Process) :
    Except Raise (Option Salt) :=
  if isFernetKey lib.release key then .ok none else p.salt lib.release env

/-- A data key resolves its write key or the reason why writes are refused: a raw key always does. -/
def Process.ReadyFor (lib : KeyLib) (env : Environment) (key : Str) (p : Process) : Prop :=
  isFernetKey lib.release key = true ∨ p.Ready lib.release env

/-- Nothing needs a salt beside the key file, or the salt is one that the process noted as durable. -/
def Process.SecuredFor (lib : KeyLib) (env : Environment) (key : Str) (p : Process)
    (s : Option Salt) : Prop :=
  isFernetKey lib.release key = true ∨ p.Secured lib.release env s

/-- Writes are refused: there is no durable salt for the passphrase. -/
def Refused (lib : KeyLib) (env : Environment) (key : Str) (p : Process) : Prop :=
  isFernetKey lib.release key = false ∧
    ∃ u, (derivePassphraseMasterKey lib env key p).1 = .error (.unavailable u)

section Grows

variable {lib : KeyLib} {key : Str}

/-- The keys `a` stay among the keys `b`. -/
def ReadKeys.Within {α : Type} (a b : ReadKeys α) : Prop := ∀ k ∈ a.toList, k ∈ b.toList

theorem ReadKeys.Within.refl {α : Type} (a : ReadKeys α) : a.Within a := fun _ hk => hk

theorem ReadKeys.toList_map {α β : Type} (f : α → β) (a : ReadKeys α) :
    (a.map f).toList = a.toList.map f := rfl

theorem ReadKeys.Within.map {α β : Type} {a b : ReadKeys α} (h : a.Within b) (f : α → β) :
    (a.map f).Within (b.map f) := by
  intro k hk
  rw [toList_map] at hk ⊢
  obtain ⟨j, hj, rfl⟩ := List.mem_map.1 hk
  exact List.mem_map.2 ⟨j, h j hj, rfl⟩

theorem masters_within (b : Bytes) (s : Option Salt) :
    (masters lib b none).Within (masters lib b s) := by
  intro k hk
  have hk : k = lib.sha256 b := List.mem_singleton.1 hk
  subst hk
  cases s with
  | none => exact List.mem_singleton.2 rfl
  | some s => exact List.mem_cons_of_mem _ (List.mem_singleton.2 rfl)

theorem globalRing_grows (s : Option Salt) {a : ReadKeys Key} (h : globalRing lib key none = some a) :
    ∃ b, globalRing lib key s = some b ∧ a.Within b := by
  unfold globalRing at h ⊢
  by_cases hraw : isFernetKey lib.release key = true
  · rw [if_pos hraw] at h ⊢
    exact ⟨a, h, .refl a⟩
  · rw [if_neg hraw] at h ⊢
    obtain ⟨b, hb, rfl⟩ := Option.map_eq_some_iff.1 h
    rw [hb]
    exact ⟨_, rfl, masters_within b s⟩

theorem purposeMasters_grows (s : Option Salt) {a : ReadKeys Bytes}
    (h : purposeMasters lib key none = some a) :
    ∃ b, purposeMasters lib key s = some b ∧ a.Within b := by
  unfold purposeMasters at h ⊢
  obtain ⟨b, hb, h⟩ := Option.bind_eq_some_iff.1 h
  rw [hb]
  rw [Option.bind_some]
  by_cases hraw : isFernetKey lib.release key = true
  · rw [if_pos hraw] at h ⊢
    exact ⟨a, h, .refl a⟩
  · rw [if_neg hraw] at h ⊢
    cases h
    exact ⟨_, rfl, (masters_within b s).map _⟩

/-- Without a salt a route has no key that it does not have with one. -/
theorem Route.ring_grows (route : Route) (s : Option Salt) {a : ReadKeys Key}
    (h : route.ring lib key none = some a) :
    ∃ b, route.ring lib key s = some b ∧ a.Within b := by
  cases route with
  | fernet aad => exact globalRing_grows s h
  | agentFernet agentId aad =>
    simp only [Route.ring] at h ⊢
    split at h
    case isTrue hid =>
      rw [if_pos hid]
      exact globalRing_grows s h
    case isFalse hid =>
      obtain ⟨id, hid', h⟩ := Option.bind_eq_some_iff.1 h
      obtain ⟨b, hb, rfl⟩ := Option.map_eq_some_iff.1 h
      rw [if_neg hid, hid', hb]
      refine ⟨_, rfl, ?_⟩
      split
      · exact .refl _
      · exact (masters_within b s).map _
  | purpose agentDid purpose =>
    simp only [Route.ring] at h ⊢
    split at h
    case isTrue => cases h
    case isFalse hvalid =>
      obtain ⟨did, hdid, h⟩ := Option.bind_eq_some_iff.1 h
      obtain ⟨a, ha, rfl⟩ := Option.map_eq_some_iff.1 h
      obtain ⟨b, hb, hwithin⟩ := purposeMasters_grows s ha
      rw [if_neg hvalid, hdid, Option.bind_some, hb]
      exact ⟨_, rfl, hwithin.map _⟩

end Grows

/-! What the functions do. -/

section Spec

variable {lib : KeyLib} {used : Set Bytes} {env : Environment} {key : Str} {p : Process}

@[simp] theorem Run.ofExcept_apply {α : Type} (r : Except Raise α) (p : Process) :
    Run.ofExcept r p = (r, p) := by
  cases r <;> rfl

theorem Run.ofOption_none {α : Type} (e : Raise) (p : Process) :
    Run.ofOption (α := α) e none p = (.error e, p) := rfl

theorem Run.ofOption_some {α : Type} (e : Raise) (x : α) (p : Process) :
    Run.ofOption e (some x) p = (.ok x, p) := rfl

/-- A raw key is ASCII text. -/
theorem encodeUtf8_raw (h : isFernetKey lib.release key = true) :
    encodeUtf8 key = encodeAscii key ∧ (encodeAscii key).isSome = true := by
  unfold isFernetKey at h
  cases hascii : encodeAscii key with
  | none =>
    rw [hascii] at h
    cases h
  | some b =>
    refine ⟨?_, rfl⟩
    unfold encodeAscii at hascii
    split at hascii
    case isTrue hall =>
      cases hascii
      exact (Json.encodeUtf8_ascii fun c hc => by simpa using List.all_eq_true.1 hall c hc).1
    case isFalse => cases hascii

/-- A data key that cannot be encoded derives no key. -/
theorem deriveLegacy_error (hb : encodeUtf8 key = none) (p : Process) :
    deriveLegacyPassphraseMasterKey lib key p = (.error .unicode, p) := by
  unfold deriveLegacyPassphraseMasterKey
  rw [hb]
  rfl

theorem passphraseReadMasterKeys_unicode (hb : encodeUtf8 key = none) (p : Process) :
    passphraseReadMasterKeys lib env key p = (.error .unicode, p) :=
  Run.bind_error (deriveLegacy_error hb p)

theorem derivePassphraseMasterKey_unicode (env : Environment) (hb : encodeUtf8 key = none)
    (hc : CacheSound lib used p.cache) :
    ∃ q e, derivePassphraseMasterKey lib env key p = (.error e, q) ∧ Leads lib used p q := by
  obtain ⟨q, r, hrun, hkept, hcache, _⟩ := writePassphraseSalt_spec lib.release env p
  have hleads : Leads lib used p q := ⟨hkept, by rw [hcache]; exact hc⟩
  unfold derivePassphraseMasterKey
  cases r with
  | error e => exact ⟨q, e, Run.bind_error hrun, hleads⟩
  | ok s =>
    rw [Run.bind_ok hrun]
    cases s with
    | none => exact ⟨q, _, deriveLegacy_error hb q, hleads⟩
    | some s =>
      refine ⟨q, .unicode, ?_, hleads⟩
      apply Run.bind_error
      rw [hb]
      rfl

theorem resolvePassphraseMasterKeys_unicode (env : Environment) (hb : encodeUtf8 key = none)
    (hc : CacheSound lib used p.cache) :
    ∃ q e, resolvePassphraseMasterKeys lib env key p = (.error e, q) ∧ Leads lib used p q := by
  obtain ⟨q, e, hrun, hleads⟩ := derivePassphraseMasterKey_unicode env hb hc
  unfold resolvePassphraseMasterKeys
  rw [hrun]
  cases e with
  | unavailable u =>
    exact ⟨q, .unicode, Run.bind_error (passphraseReadMasterKeys_unicode hb q), hleads⟩
  | _ => exact ⟨q, _, rfl, hleads⟩

/-- How a getter of a cipher ends: with the cipher of the keys of its route, or without one because
the route has none. -/
inductive Opens (lib : KeyLib) (env : Environment) (key : Str) (p q : Process)
    (ring : Option Salt → Option (ReadKeys Key)) : Except Raise (Option Cipher) → Prop
  | cipher (s : Option Salt) (keys : ReadKeys Key) (refusal : Option Unavailable)
      (hs : q.saltFor lib env key = .ok s) (hkeys : ring s = some keys)
      (hsecured : refusal = none → q.SecuredFor lib env key s) (hready : p.ReadyFor lib env key)
      (hrefused : Refused lib env key p → refusal.isSome = true) :
      Opens lib env key p q ring (.ok (some (cipherFor (.of keys refusal))))
  | closed (r : Except Raise (Option Cipher)) (hr : ∀ c, r ≠ .ok (some c))
      (h : p.ReadyFor lib env key → ∀ s, ring s = none) : Opens lib env key p q ring r

theorem saltFor_raw (hraw : isFernetKey lib.release key = true) (p : Process) :
    p.saltFor lib env key = .ok none := by
  rw [Process.saltFor, if_pos hraw]

theorem saltFor_passphrase (env : Environment) (hraw : isFernetKey lib.release key = false)
    (p : Process) :
    p.saltFor lib env key = p.salt lib.release env := by
  rw [Process.saltFor, hraw]
  rfl

/-- The resolved keys of a passphrase. -/
theorem resolve_spec (env : Environment) (hraw : isFernetKey lib.release key = false)
    (hinj : Set.InjOn lib.sha256 used) (hused : ∀ b, encodeUtf8 key = some b → b ∈ used)
    (hc : CacheSound lib used p.cache) :
    ∃ q, Leads lib used p q ∧
      ((∃ b s refusal, resolvePassphraseMasterKeys lib env key p =
          (.ok (.of (masters lib b s) refusal), q) ∧ encodeUtf8 key = some b ∧
        q.saltFor lib env key = .ok s ∧ (refusal = none → q.SecuredFor lib env key s) ∧
        p.ReadyFor lib env key ∧ (Refused lib env key p → refusal.isSome = true)) ∨
      ∃ e, resolvePassphraseMasterKeys lib env key p = (.error e, q) ∧
        (encodeUtf8 key = none ∨ ¬ p.ReadyFor lib env key)) := by
  have hsalt := fun p => saltFor_passphrase env hraw p
  cases hb : encodeUtf8 key with
  | none =>
    obtain ⟨q, e, hrun, hleads⟩ := resolvePassphraseMasterKeys_unicode env hb hc
    exact ⟨q, hleads, .inr ⟨e, hrun, .inl rfl⟩⟩
  | some b =>
    obtain ⟨q, hleads, ⟨s, refusal, hrun, hs, hsecured, hready, href⟩ | ⟨e, hrun, hno⟩⟩ :=
      resolvePassphraseMasterKeys_spec env hinj hb (hused b hb) hc
    · refine ⟨q, hleads, .inl ⟨b, s, refusal, hrun, rfl, (hsalt q).trans hs,
        fun hnone => .inr (hsecured hnone), .inr hready, ?_⟩⟩
      rintro ⟨_, u, hu⟩
      rw [href u hu]
      rfl
    · refine ⟨q, hleads, .inr ⟨e, hrun, .inr ?_⟩⟩
      rintro (hyes | hready)
      · rw [hraw] at hyes
        cases hyes
      · exact hno hready

theorem globalCipherFrom_spec (env : Environment) (hinj : Set.InjOn lib.sha256 used)
    (hused : ∀ b, encodeUtf8 key = some b → b ∈ used) (hc : CacheSound lib used p.cache) :
    ∃ q r, ((do return some (← globalCipherFrom lib env key)) : Run (Option Cipher)) p = (r, q) ∧
      Leads lib used p q ∧ Opens lib env key p q (globalRing lib key) r := by
  unfold globalCipherFrom globalRing
  cases hraw : isFernetKey lib.release key with
  | true =>
    simp only [if_true]
    cases hnew : AEADCipher.new lib.toCrypto (.str key) with
    | ok c =>
      refine ⟨p, _, rfl, ⟨.refl p, hc⟩, ?_⟩
      have hopen := @Opens.cipher lib env key p p (fun _ => some ⟨⟨c.key, c.size⟩, []⟩) none
        ⟨⟨c.key, c.size⟩, []⟩ none (saltFor_raw hraw p) rfl (fun _ => .inl hraw) (.inl hraw) ?_
      · have hsame : AEADCipher.of ⟨c.key, c.size⟩ = c := rfl
        simpa [cipherFor, MasterKeys.of, hsame] using hopen
      · rintro ⟨hno, _⟩
        rw [hraw] at hno
        cases hno
    | error e => exact ⟨p, _, rfl, ⟨.refl p, hc⟩, .closed _ (by simp) fun _ s => rfl⟩
  | false =>
    obtain ⟨q, hleads, ⟨b, s, refusal, hrun, hb, hs, hsecured, hready, href⟩ | ⟨e, hrun, hnone⟩⟩ :=
      resolve_spec env hraw hinj hused hc
    · refine ⟨q, _, ?_, hleads, .cipher s (masters lib b s) refusal hs ?_ hsecured hready href⟩
      · exact Run.bind_ok (Run.bind_ok hrun)
      · rw [hb]
        rfl
    · refine ⟨q, .error e, Run.bind_error (Run.bind_error hrun), hleads, .closed _ (by simp) ?_⟩
      intro hready s
      obtain hb | hno := hnone
      · rw [hb]
        rfl
      · exact absurd hready hno

theorem getFernet_spec (hkey : usableDataKey env = .ok (some key))
    (hinj : Set.InjOn lib.sha256 used) (hused : ∀ b, encodeUtf8 key = some b → b ∈ used)
    (hc : CacheSound lib used p.cache) :
    ∃ q r, getFernet lib env p = (r, q) ∧ Leads lib used p q ∧
      Opens lib env key p q (globalRing lib key) r := by
  obtain ⟨q, r, hrun, hspec⟩ := globalCipherFrom_spec env hinj hused hc
  refine ⟨q, r, ?_, hspec⟩
  unfold getFernet
  rw [hkey]
  exact hrun

/-- The keys from which those of an agent are derived. -/
theorem agentMasterKeys_spec (env : Environment) (hinj : Set.InjOn lib.sha256 used)
    (hused : ∀ b, encodeUtf8 key = some b → b ∈ used) (hc : CacheSound lib used p.cache) :
    ∃ q, Leads lib used p q ∧
      ((∃ b s refusal, agentMasterKeys lib env key p =
          (.ok (.of (if isFernetKey lib.release key then ⟨b, []⟩
            else (masters lib b s).map fun k => Base64.urlsafeEncode k.val) refusal), q) ∧
        encodeUtf8 key = some b ∧ q.saltFor lib env key = .ok s ∧
        (refusal = none → q.SecuredFor lib env key s) ∧ p.ReadyFor lib env key ∧
        (Refused lib env key p → refusal.isSome = true)) ∨
      ∃ e, agentMasterKeys lib env key p = (.error e, q) ∧
        (encodeUtf8 key = none ∨ ¬ p.ReadyFor lib env key)) := by
  unfold agentMasterKeys
  cases hraw : isFernetKey lib.release key with
  | true =>
    obtain ⟨hsame, hsome⟩ := encodeUtf8_raw hraw
    obtain ⟨b, hb⟩ := Option.isSome_iff_exists.1 hsome
    rw [← hsame] at hb
    refine ⟨p, ⟨.refl p, hc⟩, .inl ⟨b, none, none, ?_, hb, saltFor_raw hraw p,
      fun _ => .inl hraw, .inl hraw, ?_⟩⟩
    · rw [hb]
      rfl
    · rintro ⟨hno, _⟩
      rw [hraw] at hno
      cases hno
  | false =>
    obtain ⟨q, hleads, ⟨b, s, refusal, hrun, hb, hs, hsecured, hready, href⟩ | ⟨e, hrun, hnone⟩⟩ :=
      resolve_spec env hraw hinj hused hc
    · refine ⟨q, hleads, .inl ⟨b, s, refusal, ?_, hb, hs, hsecured, hready, href⟩⟩
      apply (Run.bind_ok hrun).trans
      rw [MasterKeys.map_of]
      rfl
    · exact ⟨q, hleads, .inr ⟨e, Run.bind_error hrun, hnone⟩⟩

theorem getAgentFernet_spec (hkey : usableDataKey env = .ok (some key))
    (hinj : Set.InjOn lib.sha256 used) (hused : ∀ b, encodeUtf8 key = some b → b ∈ used)
    (hc : CacheSound lib used p.cache) (agentId : Str) (aad : Option Bytes) :
    ∃ q r, getAgentFernet lib env agentId p = (r, q) ∧ Leads lib used p q ∧
      Opens lib env key p q (fun s => (Route.agentFernet agentId aad).ring lib key s) r := by
  unfold getAgentFernet
  rw [hkey]
  by_cases hid : agentId = []
  · simp only [Route.ring, if_pos hid]
    obtain ⟨q, r, hrun, hspec⟩ := globalCipherFrom_spec env hinj hused hc
    exact ⟨q, r, hrun, hspec⟩
  · simp only [Route.ring, if_neg hid]
    obtain ⟨q, hleads, ⟨b, s, refusal, hrun, hb, hs, hsecured, hready, href⟩ | ⟨e, hrun, hnone⟩⟩ :=
      agentMasterKeys_spec env hinj hused hc
    · rw [Run.bind_ok (Run.ofExcept_apply (.ok (some key)) p)]
      simp only
      rw [Run.bind_ok hrun, hb]
      cases hagent : encodeUtf8 agentId with
      | none => exact ⟨q, .ok none, rfl, hleads, .closed _ (by simp) fun _ s => rfl⟩
      | some id =>
        refine ⟨q, _, rfl, hleads, ?_⟩
        rw [MasterKeys.map_of]
        apply Opens.cipher s _ refusal hs _ hsecured hready href
        split <;> simp [ReadKeys.map, Function.comp_def]
    · refine ⟨q, .error e, ?_, hleads, .closed _ (by simp) ?_⟩
      · exact (Run.bind_ok (Run.ofExcept_apply (.ok (some key)) p)).trans (Run.bind_error hrun)
      · intro hready s
        obtain hb | hno := hnone
        · rw [hb]
          cases encodeUtf8 agentId <;> rfl
        · exact absurd hready hno

end Spec

end KestrelSdk.Security
