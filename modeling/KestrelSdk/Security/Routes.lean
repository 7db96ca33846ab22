import KestrelSdk.Security.Ring

namespace KestrelSdk.Security

open Json (Str Bytes encodeUtf8)

section Spec

variable {lib : KeyLib} {used : Set Bytes} {env : Environment} {key : Str} {p q : Process}

/-! Writing. -/

theorem not_refused_raw (hraw : isFernetKey lib.release key = true) : ¬ Refused lib env key p := by
  rintro ⟨hno, _⟩
  rw [hraw] at hno
  cases hno

theorem requireDataKey_eq (hkey : usableDataKey env = .ok (some key)) :
    requireDataKey env = .ok key := by
  unfold requireDataKey
  rw [hkey]

theorem getMasterKey_spec (hkey : usableDataKey env = .ok (some key))
    (hinj : Set.InjOn lib.sha256 used) (hused : ∀ b, encodeUtf8 key = some b → b ∈ used)
    (hc : CacheSound lib used p.cache) :
    ∃ q r, getMasterKey lib env p = (r, q) ∧ Leads lib used p q ∧
      ∀ m, r = .ok m → ¬ Refused lib env key p ∧ ∃ s keys, q.saltFor lib env key = .ok s ∧
        q.SecuredFor lib env key s ∧ purposeMasters lib key s = some keys ∧ keys.newest = m := by
  unfold getMasterKey
  rw [requireDataKey_eq hkey, Run.bind_ok (Run.ofExcept_apply (.ok key) p)]
  cases hraw : isFernetKey lib.release key with
  | true =>
    refine ⟨p, _, Prod.ext rfl ?_, ⟨.refl p, hc⟩, ?_⟩
    · unfold decodeFernetMasterKey
      simp only [if_true]
      cases (encodeAscii key).bind (Base64.urlsafeDecode lib.release false) <;> rfl
    · intro m hm
      refine ⟨not_refused_raw hraw, none, ?_⟩
      obtain ⟨hsame, hsome⟩ := encodeUtf8_raw hraw
      obtain ⟨b, hb⟩ := Option.isSome_iff_exists.1 hsome
      rw [← hsame] at hb
      simp only [if_true, decodeFernetMasterKey] at hm
      cases hdec : (encodeAscii key).bind (Base64.urlsafeDecode lib.release false) with
      | none =>
        rw [hdec] at hm
        cases hm
      | some decoded =>
        rw [hdec] at hm
        cases hm
        refine ⟨⟨m, [(lib.sha256 b).val]⟩, saltFor_raw hraw p, .inl hraw, ?_, rfl⟩
        simp only [purposeMasters, hb, Option.bind_some, hraw, if_true, hdec, Option.map_some]
  | false =>
    cases hb : encodeUtf8 key with
    | none =>
      obtain ⟨q, e, hrun, hleads⟩ := derivePassphraseMasterKey_unicode env hb hc
      exact ⟨q, .error e, Run.bind_error hrun, hleads, by simp⟩
    | some b =>
      obtain ⟨q, r, hrun, hleads, hsalt⟩ :=
        derivePassphraseMasterKey_spec env hinj hb (hused b hb) hc
      cases hsalt with
      | found s hs hsecured =>
        refine ⟨q, _, Run.bind_ok hrun, hleads, ?_⟩
        intro m hm
        cases hm
        constructor
        · rintro ⟨_, u, hu⟩
          rw [hrun] at hu
          cases hu
        · refine ⟨s, (masters lib b s).map Subtype.val, (saltFor_passphrase env hraw q).trans hs,
            .inr hsecured, ?_, rfl⟩
          simp [purposeMasters, hb, hraw]
      | refused u s hs => exact ⟨q, _, Run.bind_error hrun, hleads, by simp⟩
      | invalid e hs he => exact ⟨q, _, Run.bind_error hrun, hleads, by simp⟩

/-- What a write gives: a token under the newest key of its route for the salt that reads find then,
which a crash does not lose, and only where writes are not refused. -/
def Wrote (lib : KeyLib) (env : Environment) (key : Str) (p q : Process) (plaintext : Text)
    (nonce : Nonce) (route : Route) (token : Bytes) : Prop :=
  ¬ Refused lib env key p ∧ ∃ s keys, q.saltFor lib env key = .ok s ∧
    q.SecuredFor lib env key s ∧ route.ring lib key s = some keys ∧
    (AEADCipher.of keys.newest).encrypt lib.toCrypto plaintext nonce route.aad = some token

theorem encrypt_wrote (hkey : usableDataKey env = .ok (some key))
    (hinj : Set.InjOn lib.sha256 used) (hused : ∀ b, encodeUtf8 key = some b → b ∈ used)
    (hc : CacheSound lib used p.cache) (plaintext : Text) (nonce : Nonce) (agentDid name : Str) :
    ∃ q r, encrypt lib env agentDid name plaintext nonce p = (r, q) ∧ Leads lib used p q ∧
      ∀ token, r = .ok token →
        Wrote lib env key p q plaintext nonce (.purpose agentDid name) token := by
  unfold encrypt requireAgentPurpose
  by_cases hdid : agentDid = []
  · rw [if_pos hdid]
    exact ⟨p, .error .agent, rfl, ⟨.refl p, hc⟩, by simp⟩
  by_cases hname : name ∈ validPurposes
  · obtain ⟨q, r, hrun, hleads, hm⟩ := getMasterKey_spec hkey hinj hused hc
    rw [if_neg hdid, if_pos hname, Run.bind_ok (Run.ofExcept_apply (.ok ()) p)]
    cases r with
    | error e => exact ⟨q, .error e, Run.bind_error hrun, hleads, by simp⟩
    | ok m =>
      rw [Run.bind_ok hrun]
      obtain ⟨hno, s, keys, hs, hsecured, hkeys, hnew⟩ := hm m rfl
      subst hnew
      cases henc : encodeUtf8 agentDid with
      | none => exact ⟨q, .error .unicode, rfl, hleads, by simp⟩
      | some did =>
        rw [Run.bind_ok (Run.ofOption_some .unicode did q)]
        cases htoken : (AEADCipher.of (derivePurposeKey lib did name keys.newest)).encrypt
            lib.toCrypto plaintext nonce none with
        | none => exact ⟨q, .error .encrypt, rfl, hleads, by simp⟩
        | some token =>
          refine ⟨q, .ok token, rfl, hleads, ?_⟩
          intro t ht
          cases ht
          refine ⟨hno, s, keys.map (derivePurposeKey lib did name), hs, hsecured, ?_, htoken⟩
          simp [Route.ring, hdid, hname, henc, hkeys]
  · rw [if_neg hdid, if_neg hname]
    exact ⟨p, .error .purpose, rfl, ⟨.refl p, hc⟩, by simp⟩

/-- A cipher of a route writes under its newest key. -/
theorem withCipher_wrote (route : Route) {r : Except Raise (Option Cipher)} {get : Run (Option Cipher)}
    (hrun : get p = (r, q)) (hopens : Opens lib env key p q (fun s => route.ring lib key s) r)
    (plaintext : Text) (nonce : Nonce) :
    ∃ r, (get >>= fun c => withCipher c fun c => c.encrypt lib.toCrypto plaintext nonce route.aad) p =
        (r, q) ∧
      ∀ token, r = .ok token → Wrote lib env key p q plaintext nonce route token := by
  cases hopens with
  | cipher s keys refusal hs hkeys hsecured _ href =>
    refine ⟨_, (Run.bind_ok hrun).trans (Run.ofExcept_apply _ q), ?_⟩
    intro token htoken
    simp only [cipherFor_encrypt] at htoken
    cases refusal with
    | some u => cases htoken
    | none =>
      cases henc : (AEADCipher.of keys.newest).encrypt lib.toCrypto plaintext nonce route.aad with
      | none =>
        rw [henc] at htoken
        cases htoken
      | some token' =>
        rw [henc] at htoken
        cases htoken
        refine ⟨fun hno => ?_, s, keys, hs, hsecured rfl, hkeys, henc⟩
        cases href hno
  | closed r hr h =>
    cases r with
    | error e => exact ⟨.error e, Run.bind_error hrun, by simp⟩
    | ok c =>
      cases c with
      | none => exact ⟨.error .noCipher, Run.bind_ok hrun, by simp⟩
      | some c => exact absurd rfl (hr c)

theorem Route.write_spec (hkey : usableDataKey env = .ok (some key))
    (hinj : Set.InjOn lib.sha256 used) (hused : ∀ b, encodeUtf8 key = some b → b ∈ used)
    (hc : CacheSound lib used p.cache) (plaintext : Text) (nonce : Nonce) (route : Route) :
    ∃ q r, route.write lib env plaintext nonce p = (r, q) ∧ Leads lib used p q ∧
      ∀ token, r = .ok token → Wrote lib env key p q plaintext nonce route token := by
  cases route with
  | fernet aad =>
    obtain ⟨q, r, hrun, hleads, hopens⟩ := getFernet_spec hkey hinj hused hc
    obtain ⟨r, hwrite, hspec⟩ := withCipher_wrote (.fernet aad) hrun hopens plaintext nonce
    exact ⟨q, r, hwrite, hleads, hspec⟩
  | agentFernet agentId aad =>
    obtain ⟨q, r, hrun, hleads, hopens⟩ := getAgentFernet_spec hkey hinj hused hc agentId aad
    obtain ⟨r, hwrite, hspec⟩ :=
      withCipher_wrote (.agentFernet agentId aad) hrun hopens plaintext nonce
    exact ⟨q, r, hwrite, hleads, hspec⟩
  | purpose agentDid name => exact encrypt_wrote hkey hinj hused hc plaintext nonce agentDid name

/-! Reading. -/

/-- The token of an encryption under one of the keys `keys` of a route. -/
structure Under (made : List Sealed) (keys : ReadKeys Key) (route : Route) (t : Text) (r : Sealed) :
    Prop where
  made : r ∈ made
  token : t.ascii = some (tokenOf r.frame)
  aad : r.aad = AEADCipher.composeAad algAes256Gcm route.aad
  key : ∃ k ∈ keys.toList, k.val = r.key

variable {made : List Sealed}

theorem readMasters_spec (env : Environment) (hinj : Set.InjOn lib.sha256 used)
    (hused : ∀ b, encodeUtf8 key = some b → b ∈ used) (hc : CacheSound lib used p.cache) :
    ∃ q r, readMasters lib env key p = (r, q) ∧ Leads lib used p q ∧
      (∀ s keys, p.saltFor lib env key = .ok s → purposeMasters lib key s = some keys →
        r = .ok keys) ∧
      ∀ keys, r = .ok keys → ∃ s, p.saltFor lib env key = .ok s := by
  unfold readMasters
  cases hraw : isFernetKey lib.release key with
  | true =>
    obtain ⟨hsame, hsome⟩ := encodeUtf8_raw hraw
    obtain ⟨b, hb⟩ := Option.isSome_iff_exists.1 hsome
    rw [← hsame] at hb
    simp only [if_true, purposeMasters, hb, Option.bind_some, hraw]
    cases hdec : (encodeAscii key).bind (Base64.urlsafeDecode lib.release false) with
    | none =>
      refine ⟨p, .error .unicode, ?_, ⟨.refl p, hc⟩, by simp, by simp⟩
      apply Run.bind_error
      unfold decodeFernetMasterKey
      rw [hdec]
      rfl
    | some decoded =>
      refine ⟨p, .ok ⟨decoded, [(lib.sha256 b).val]⟩, ?_, ⟨.refl p, hc⟩, ?_,
        fun _ _ => ⟨none, saltFor_raw hraw p⟩⟩
      · have hdecoded : decodeFernetMasterKey lib key p = (.ok decoded, p) := by
          unfold decodeFernetMasterKey
          rw [hdec]
          rfl
        rw [Run.bind_ok hdecoded, Run.bind_ok (deriveLegacy_eq hb p)]
        rfl
      · intro s keys _ hkeys
        cases hkeys
        rfl
  | false =>
    cases hb : encodeUtf8 key with
    | none =>
      refine ⟨p, .error .unicode, ?_, ⟨.refl p, hc⟩, ?_, by simp⟩
      · exact Run.bind_error (passphraseReadMasterKeys_unicode hb p)
      · intro s keys _ hkeys
        rw [purposeMasters, hb] at hkeys
        cases hkeys
    | some b =>
      have hsalt := saltFor_passphrase env hraw p
      cases hs : p.salt lib.release env with
      | ok s =>
        obtain ⟨q, hrun, hvol, _, hc'⟩ := passphraseReadMasterKeys_ok hinj hb (hused b hb) hc hs
        refine ⟨q, _, Run.bind_ok hrun, ⟨.of_volume hvol, hc'⟩, ?_, fun _ _ => ⟨s, hsalt.trans hs⟩⟩
        intro s' keys hs' hkeys
        rw [hsalt, hs] at hs'
        cases hs'
        rw [purposeMasters, hb, Option.bind_some, hraw] at hkeys
        cases hkeys
        rfl
      | error e =>
        have hrun : passphraseReadMasterKeys lib env key p = (.error e, p) := by
          unfold passphraseReadMasterKeys
          rw [Run.bind_ok (deriveLegacy_eq hb p), Run.bind_error (Run.look_error hs)]
        refine ⟨p, .error e, Run.bind_error hrun, ⟨.refl p, hc⟩, ?_, by simp⟩
        intro s keys hs'
        rw [hsalt, hs] at hs'
        cases hs'

/-- The keys of a purpose read what one of them unlocks. -/
theorem decrypt_reads (hkey : usableDataKey env = .ok (some key))
    (hinj : Set.InjOn lib.sha256 used) (hused : ∀ b, encodeUtf8 key = some b → b ∈ used)
    (hc : CacheSound lib used p.cache) (agentDid name : Str) (t : Text) :
    ∃ q r, decrypt lib env agentDid name t p = (r, q) ∧ Leads lib used p q ∧
      (∀ s keys, p.saltFor lib env key = .ok s →
        (Route.purpose agentDid name).ring lib key s = some keys →
        ∀ k ∈ keys.toList, ∀ data, Unlocks lib.toCrypto t none k data → r = .ok data) ∧
      ∀ data, r = .ok data → ∃ s, p.saltFor lib env key = .ok s := by
  unfold decrypt requireAgentPurpose
  by_cases hdid : agentDid = []
  · rw [if_pos hdid]
    exact ⟨p, .error .agent, rfl, ⟨.refl p, hc⟩, by simp [Route.ring, hdid], by simp⟩
  by_cases hname : name ∈ validPurposes
  · obtain ⟨q, r, hrun, hleads, hm, hfound⟩ := readMasters_spec env hinj hused hc
    rw [if_neg hdid, if_pos hname, Run.bind_ok (Run.ofExcept_apply (.ok ()) p),
      requireDataKey_eq hkey, Run.bind_ok (Run.ofExcept_apply (.ok key) p)]
    have hring : ∀ s keys, (Route.purpose agentDid name).ring lib key s = some keys →
        ∃ did masters, encodeUtf8 agentDid = some did ∧ purposeMasters lib key s = some masters ∧
          keys = masters.map (derivePurposeKey lib did name) := by
      intro s keys hkeys
      simp only [Route.ring, hdid, hname, not_true_eq_false, or_self, if_false] at hkeys
      obtain ⟨did, hdid, hkeys⟩ := Option.bind_eq_some_iff.1 hkeys
      obtain ⟨masters, hmasters, rfl⟩ := Option.map_eq_some_iff.1 hkeys
      exact ⟨did, masters, hdid, hmasters, rfl⟩
    cases r with
    | error e =>
      refine ⟨q, .error e, Run.bind_error hrun, hleads, ?_, by simp⟩
      intro s keys hs hkeys
      obtain ⟨_, masters, _, hmasters, _⟩ := hring s keys hkeys
      cases hm s masters hs hmasters
    | ok masters =>
      rw [Run.bind_ok hrun]
      cases henc : encodeUtf8 agentDid with
      | none =>
        refine ⟨q, .error .unicode, rfl, hleads, ?_, by simp⟩
        intro s keys _ hkeys
        obtain ⟨did, _, hdid', _⟩ := hring s keys hkeys
        rw [henc] at hdid'
        cases hdid'
      | some did =>
        rw [Run.bind_ok (Run.ofOption_some .unicode did q)]
        have hreads : ∀ s keys, p.saltFor lib env key = .ok s →
            (Route.purpose agentDid name).ring lib key s = some keys →
            ∀ k ∈ keys.toList, ∀ data, Unlocks lib.toCrypto t none k data →
              decryptWithAny lib.toCrypto ⟨.of (derivePurposeKey lib did name masters.newest),
                masters.older.map fun m => .of (derivePurposeKey lib did name m)⟩ t none =
              .ok data := by
          intro s keys hs hkeys k hk data hunlocks
          obtain ⟨did', masters', hdid', hmasters, rfl⟩ := hring s keys hkeys
          rw [henc] at hdid'
          cases hdid'
          cases hm s masters' hs hmasters
          have hshape : (masters.map (derivePurposeKey lib did name)).map AEADCipher.of =
              ⟨.of (derivePurposeKey lib did name masters.newest),
                masters.older.map fun m => .of (derivePurposeKey lib did name m)⟩ := by
            simp [ReadKeys.map, Function.comp_def]
          rw [← hshape]
          exact hunlocks _ hk
        cases hread : decryptWithAny lib.toCrypto
            ⟨.of (derivePurposeKey lib did name masters.newest),
              masters.older.map fun m => .of (derivePurposeKey lib did name m)⟩ t none with
        | ok data =>
          refine ⟨q, .ok data, ?_, hleads, ?_, fun _ _ => hfound masters rfl⟩
          · simp only
            rfl
          · intro s keys hs hkeys k hk data' hunlocks
            have hsame := hreads s keys hs hkeys k hk data' hunlocks
            rw [hread] at hsame
            cases hsame
            rfl
        | error r =>
          refine ⟨q, .error (.decrypt r), ?_, hleads, ?_, by simp⟩
          · simp only
            rfl
          · intro s keys hs hkeys k hk data hunlocks
            have hsame := hreads s keys hs hkeys k hk data hunlocks
            rw [hread] at hsame
            cases hsame
  · rw [if_neg hdid, if_neg hname]
    exact ⟨p, .error .purpose, rfl, ⟨.refl p, hc⟩, by simp [Route.ring, hdid, hname], by simp⟩

theorem Leads.saltFor (hleads : Leads lib used p q) {s : Option Salt}
    (hs : p.saltFor lib env key = .ok s) :
    ∃ t, q.saltFor lib env key = .ok t ∧ (s = none ∨ t = s) := by
  unfold Process.saltFor at hs ⊢
  split at hs
  case isTrue hraw =>
    rw [if_pos hraw]
    exact ⟨s, hs, .inr rfl⟩
  case isFalse hraw =>
    rw [if_neg hraw]
    exact hleads.kept.salt hs

/-- A route keeps its keys along a step of a process. -/
theorem Leads.ring (hleads : Leads lib used p q) {route : Route} {s : Option Salt}
    (hs : p.saltFor lib env key = .ok s) {keys : ReadKeys Key}
    (hkeys : route.ring lib key s = some keys) {t : Option Salt}
    (ht : q.saltFor lib env key = .ok t) :
    ∃ keys', route.ring lib key t = some keys' ∧ keys.Within keys' := by
  obtain ⟨t', ht', hgrows⟩ := hleads.saltFor hs
  rw [ht] at ht'
  cases ht'
  obtain rfl | rfl := hgrows
  · exact route.ring_grows t hkeys
  · exact ⟨keys, hkeys, .refl keys⟩

theorem withCipher_reads (route : Route)
    {r : Except Raise (Option Cipher)} {get : Run (Option Cipher)} (hrun : get p = (r, q))
    (hleads : Leads lib used p q) (hopens : Opens lib env key p q (fun s => route.ring lib key s) r)
    (t : Text) :
    ∃ r, (get >>= fun c => withCipher c fun c => c.decrypt lib.toCrypto t route.aad) p = (r, q) ∧
      (p.ReadyFor lib env key → ∀ s keys, p.saltFor lib env key = .ok s →
        route.ring lib key s = some keys →
        ∀ k ∈ keys.toList, ∀ data, Unlocks lib.toCrypto t route.aad k data → r = .ok data) ∧
      ∀ data, r = .ok data → p.ReadyFor lib env key := by
  cases hopens with
  | cipher s' keys' refusal hs' hkeys' _ hready _ =>
    refine ⟨_, (Run.bind_ok hrun).trans (Run.ofExcept_apply _ q), ?_, fun _ _ => hready⟩
    intro _ s keys hs hkeys k hk data hunlocks
    obtain ⟨keys'', hring, hwithin⟩ := hleads.ring hs hkeys hs'
    simp only [hkeys', Option.some.injEq] at hring
    subst hring
    simp only [cipherFor_decrypt, hunlocks keys' (hwithin k hk)]
  | closed r hr h =>
    have hno : p.ReadyFor lib env key → ∀ s keys, route.ring lib key s ≠ some keys := by
      intro hready s keys hkeys
      rw [h hready s] at hkeys
      cases hkeys
    cases r with
    | error e =>
      exact ⟨.error e, Run.bind_error hrun,
        fun hready s keys _ hkeys => absurd hkeys (hno hready s keys), by simp⟩
    | ok c =>
      cases c with
      | none =>
        exact ⟨.error .noCipher, Run.bind_ok hrun,
          fun hready s keys _ hkeys => absurd hkeys (hno hready s keys), by simp⟩
      | some c => exact absurd rfl (hr c)

/-- A route finds its keys: `decrypt` where reads find a valid salt or none, and the ciphers where
moreover nothing obstructs a write. -/
def Route.Finds (lib : KeyLib) (env : Environment) (key : Str) (p : Process) : Route → Prop
  | .fernet _ => p.ReadyFor lib env key
  | .agentFernet _ _ => p.ReadyFor lib env key
  | .purpose _ _ => ∃ s, p.saltFor lib env key = .ok s

/-- A route that finds its keys reads what one of them unlocks, and no other route reads. -/
theorem Route.read_unlocked (hkey : usableDataKey env = .ok (some key))
    (hinj : Set.InjOn lib.sha256 used) (hused : ∀ b, encodeUtf8 key = some b → b ∈ used)
    (hc : CacheSound lib used p.cache) (route : Route) (t : Text) :
    ∃ q r, route.read lib env t p = (r, q) ∧ Leads lib used p q ∧
      (route.Finds lib env key p → ∀ s keys, p.saltFor lib env key = .ok s →
        route.ring lib key s = some keys →
        ∀ k ∈ keys.toList, ∀ data, Unlocks lib.toCrypto t route.aad k data → r = .ok data) ∧
      ∀ data, r = .ok data → route.Finds lib env key p := by
  cases route with
  | fernet aad =>
    obtain ⟨q, r, hrun, hleads, hopens⟩ := getFernet_spec hkey hinj hused hc
    obtain ⟨r, hread, hspec⟩ := withCipher_reads (.fernet aad) hrun hleads hopens t
    exact ⟨q, r, hread, hleads, hspec⟩
  | agentFernet agentId aad =>
    obtain ⟨q, r, hrun, hleads, hopens⟩ := getAgentFernet_spec hkey hinj hused hc agentId aad
    obtain ⟨r, hread, hspec⟩ := withCipher_reads (.agentFernet agentId aad) hrun hleads hopens t
    exact ⟨q, r, hread, hleads, hspec⟩
  | purpose agentDid name =>
    obtain ⟨q, r, hrun, hleads, hreads, hfound⟩ := decrypt_reads hkey hinj hused hc agentDid name t
    exact ⟨q, r, hrun, hleads, fun _ => hreads, hfound⟩

theorem Route.finds_of_free (route : Route) (hfree : p.volume.blocked = none) {s : Option Salt}
    (hs : p.saltFor lib env key = .ok s) : route.Finds lib env key p := by
  have hready : p.ReadyFor lib env key := by
    cases hraw : isFernetKey lib.release key with
    | true => exact .inl hraw
    | false =>
      rw [saltFor_passphrase env hraw] at hs
      exact .inr (ready_of_free hfree hs)
  cases route with
  | fernet aad => exact hready
  | agentFernet agentId aad => exact hready
  | purpose agentDid name => exact ⟨s, hs⟩

/-- Where nothing blocks the name of the salt file, a route reads what was written under one of its
keys. -/
theorem Route.read_spec (ideal : Ideal lib.toCrypto made) (hkey : usableDataKey env = .ok (some key))
    (hinj : Set.InjOn lib.sha256 used) (hused : ∀ b, encodeUtf8 key = some b → b ∈ used)
    (hc : CacheSound lib used p.cache) (hfree : p.volume.blocked = none) (route : Route) (t : Text) :
    ∃ q r, route.read lib env t p = (r, q) ∧ Leads lib used p q ∧
      ∀ s keys, p.saltFor lib env key = .ok s → route.ring lib key s = some keys →
        ∀ x, Under made keys route t x → r = .ok x.data := by
  obtain ⟨q, r, hrun, hleads, hread, _⟩ := route.read_unlocked hkey hinj hused hc t
  refine ⟨q, r, hrun, hleads, fun s keys hs hkeys x hx => ?_⟩
  obtain ⟨k, hk, hkx⟩ := hx.key
  exact hread (route.finds_of_free hfree hs) s keys hs hkeys k hk x.data
    (ideal.unlocks hx.made hx.token hx.aad hkx)

/-! Without a data key. -/

theorem requireDataKey_error (hkey : ∀ key, usableDataKey env ≠ .ok (some key)) :
    ∃ e, requireDataKey env = .error e := by
  unfold requireDataKey
  split
  · rename_i key h
    exact absurd h (hkey key)
  · exact ⟨_, rfl⟩
  · exact ⟨_, rfl⟩

theorem getFernet_unkeyed (lib : KeyLib) (hkey : ∀ key, usableDataKey env ≠ .ok (some key))
    (p : Process) :
    ∃ r, getFernet lib env p = (r, p) ∧ ∀ c, r ≠ .ok (some c) := by
  unfold getFernet
  cases h : usableDataKey env with
  | error e => exact ⟨.error e, rfl, by simp⟩
  | ok key =>
    cases key with
    | none => exact ⟨.ok none, rfl, by simp⟩
    | some key => exact absurd h (hkey key)

theorem getAgentFernet_unkeyed (lib : KeyLib) (hkey : ∀ key, usableDataKey env ≠ .ok (some key))
    (agentId : Str) (p : Process) :
    ∃ r, getAgentFernet lib env agentId p = (r, p) ∧ ∀ c, r ≠ .ok (some c) := by
  unfold getAgentFernet
  cases h : usableDataKey env with
  | error e => exact ⟨.error e, rfl, by simp⟩
  | ok key =>
    cases key with
    | none => exact ⟨.ok none, rfl, by simp⟩
    | some key => exact absurd h (hkey key)

theorem withCipher_unkeyed {r : Except Raise (Option Cipher)} {get : Run (Option Cipher)}
    (hrun : get p = (r, p)) (hr : ∀ c, r ≠ .ok (some c)) (use : Cipher → Except Raise Bytes) :
    ∃ e, (get >>= fun c => withCipher c use) p = (.error e, p) := by
  cases r with
  | error e => exact ⟨e, Run.bind_error hrun⟩
  | ok c =>
    cases c with
    | none => exact ⟨.noCipher, Run.bind_ok hrun⟩
    | some c => exact absurd rfl (hr c)

theorem Route.write_unkeyed (lib : KeyLib) (hkey : ∀ key, usableDataKey env ≠ .ok (some key)) (plaintext : Text)
    (nonce : Nonce) (route : Route) :
    ∃ e, route.write lib env plaintext nonce p = (.error e, p) := by
  cases route with
  | fernet aad =>
    obtain ⟨r, hrun, hr⟩ := getFernet_unkeyed lib hkey p
    exact withCipher_unkeyed hrun hr _
  | agentFernet agentId aad =>
    obtain ⟨r, hrun, hr⟩ := getAgentFernet_unkeyed lib hkey agentId p
    exact withCipher_unkeyed hrun hr _
  | purpose agentDid name =>
    obtain ⟨e, he⟩ := requireDataKey_error hkey
    have hmaster : getMasterKey lib env p = (.error e, p) := by
      unfold getMasterKey
      rw [he]
      rfl
    show ∃ e, encrypt lib env agentDid name plaintext nonce p = (.error e, p)
    unfold encrypt
    cases hvalid : requireAgentPurpose agentDid name with
    | error e => exact ⟨e, rfl⟩
    | ok _ =>
      refine ⟨e, ?_⟩
      rw [Run.bind_ok (Run.ofExcept_apply (.ok _) p)]
      exact Run.bind_error hmaster

theorem Route.read_unkeyed (lib : KeyLib) (hkey : ∀ key, usableDataKey env ≠ .ok (some key)) (t : Text)
    (route : Route) : ∃ e, route.read lib env t p = (.error e, p) := by
  cases route with
  | fernet aad =>
    obtain ⟨r, hrun, hr⟩ := getFernet_unkeyed lib hkey p
    exact withCipher_unkeyed hrun hr _
  | agentFernet agentId aad =>
    obtain ⟨r, hrun, hr⟩ := getAgentFernet_unkeyed lib hkey agentId p
    exact withCipher_unkeyed hrun hr _
  | purpose agentDid name =>
    obtain ⟨e, he⟩ := requireDataKey_error hkey
    show ∃ e, decrypt lib env agentDid name t p = (.error e, p)
    unfold decrypt
    cases hvalid : requireAgentPurpose agentDid name with
    | error e => exact ⟨e, rfl⟩
    | ok _ =>
      refine ⟨e, ?_⟩
      rw [Run.bind_ok (Run.ofExcept_apply (.ok _) p), he]
      rfl

/-! Refused writes. -/

theorem deriveLegacy_not_refused (p : Process) (u : Unavailable) :
    (deriveLegacyPassphraseMasterKey lib key p).1 ≠ .error (.unavailable u) := by
  cases hb : encodeUtf8 key with
  | none =>
    rw [deriveLegacy_error hb]
    simp
  | some b =>
    rw [deriveLegacy_eq hb]
    simp

theorem deriveSalted_not_refused (s : Salt) (p : Process) (u : Unavailable) :
    (deriveSaltedPassphraseMasterKey lib key s p).1 ≠ .error (.unavailable u) := by
  unfold deriveSaltedPassphraseMasterKey
  cases hb : encodeUtf8 key with
  | none =>
    rw [Run.bind_error (Run.ofOption_none .unicode p)]
    simp
  | some b =>
    rw [Run.bind_ok (Run.ofOption_some .unicode b p)]
    unfold cachedMasterKey
    cases p.cache.lookup (lib.sha256 b, s) <;> simp

/-- Where writes are refused, reads find a valid salt, or none. -/
theorem Refused.saltFor (hno : Refused lib env key p) : ∃ s, p.saltFor lib env key = .ok s := by
  obtain ⟨hraw, u, hu⟩ := hno
  rw [saltFor_passphrase env hraw]
  obtain ⟨q, r, hrun, _, _, hsalt⟩ := writePassphraseSalt_spec lib.release env p
  unfold derivePassphraseMasterKey at hu
  cases hsalt with
  | found s h =>
    rw [Run.bind_ok hrun] at hu
    cases s with
    | none => exact absurd hu (deriveLegacy_not_refused q u)
    | some s => exact absurd hu (deriveSalted_not_refused s q u)
  | refused u s h hp => exact hp.1
  | invalid e h he =>
    rw [Run.bind_error hrun] at hu
    cases hu
    exact absurd rfl (he u)

end Spec

end KestrelSdk.Security
