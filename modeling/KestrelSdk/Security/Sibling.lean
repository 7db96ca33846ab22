import KestrelSdk.Security.Reading

namespace KestrelSdk.Security

open Json (Str Bytes str encodeUtf8)

/-- The sibling salt loads: it is valid, absent, or a link to nothing. -/
def Volume.Loads (rel : Base64.Release) (v : Volume) : Prop :=
  match v.blocked with
  | some .unreadable => False
  | some .irregular => False
  | some .dangling => True
  | none => ∀ content, v.salt = some content → (readSalt rel content).isSome = true

/-- What a read with the legacy key needs of the salts: a valid one in the environment if that names
one, else a sibling salt that loads, and for a cipher no link to nothing at its name unless the
publication of a salt fails. -/
def Route.Legible (lib : KeyLib) (env : Environment) (p : Process) (route : Route) : Prop :=
  match explicitSalt lib.release env with
  | some r => ∃ s, r = .ok s
  | none => p.volume.Loads lib.release ∧
      ((∃ agentDid name, route = .purpose agentDid name) ∨ p.volume.blocked ≠ some .dangling ∨
        ∃ other, p.volume.publication = .failed other)

section Legible

variable {lib : KeyLib} {used : Set Bytes} {env : Environment} {key : Str} {p q : Process}

theorem loads_iff {rel : Base64.Release} {v : Volume} :
    (∃ s, loadExistingKeyFileSalt rel v = .ok s) ↔ v.Loads rel := by
  cases hb : v.blocked with
  | some b =>
    unfold loadExistingKeyFileSalt loadKeyFileSalt Volume.saltExists Volume.Loads
    rw [hb]
    cases b with
    | unreadable => exact iff_of_false (by rintro ⟨s, hs⟩; cases hs) id
    | irregular => exact iff_of_false (by rintro ⟨s, hs⟩; cases hs) id
    | dangling => exact iff_of_true ⟨none, rfl⟩ trivial
  | none =>
    rw [loadExistingKeyFileSalt_free hb, Volume.Loads, hb]
    cases hsalt : v.salt with
    | none => exact iff_of_true ⟨none, rfl⟩ (by simp)
    | some content =>
      simp only [loadPassphraseSaltFile, Option.some.injEq, forall_eq']
      cases hread : readSalt rel content with
      | none => exact iff_of_false (by rintro ⟨s, hs⟩; cases hs) (by simp)
      | some s => exact iff_of_true ⟨some s, rfl⟩ rfl

/-- Beside a key file the route finds its keys where the salts are legible. -/
theorem Route.finds_iff (hfile : env.keyFile.isSome = true)
    (hraw : isFernetKey lib.release key = false) (route : Route) :
    route.Finds lib env key p ↔ route.Legible lib env p := by
  have hsaltFor : (∃ s, p.saltFor lib env key = .ok s) ↔ ∃ s, p.salt lib.release env = .ok s := by
    rw [saltFor_passphrase env hraw]
  have hready : p.ReadyFor lib env key ↔ p.Ready lib.release env := by
    unfold Process.ReadyFor
    rw [hraw]
    simp
  unfold Route.Legible
  cases hexp : explicitSalt lib.release env with
  | some r =>
    have hsalt : (∃ s, p.salt lib.release env = .ok s) ↔ ∃ s, r = .ok s := by
      simp only [Process.salt, readPassphraseSalt, hexp]
      cases r with
      | ok s => exact iff_of_true ⟨some s, rfl⟩ ⟨s, rfl⟩
      | error e => exact iff_of_false (by rintro ⟨s, hs⟩; cases hs) (by simp)
    have hclear : ¬ p.Obstructed lib.release env := by
      rintro ⟨hno, _⟩
      rw [hexp] at hno
      cases hno
    have hcipher : p.ReadyFor lib env key ↔ ∃ s, r = .ok s := by
      rw [hready, Process.Ready, hsalt]
      exact and_iff_left hclear
    cases route with
    | fernet aad => exact hcipher
    | agentFernet agentId aad => exact hcipher
    | purpose agentDid name => exact hsaltFor.trans hsalt
  | none =>
    have hsalt : (∃ s, p.salt lib.release env = .ok s) ↔ p.volume.Loads lib.release := by
      rw [salt_keyFile hexp hfile]
      exact loads_iff
    have hclear : ¬ p.Obstructed lib.release env ↔ p.volume.blocked ≠ some .dangling ∨
        ∃ other, p.volume.publication = .failed other := by
      simp only [Process.Obstructed, hexp, hfile, true_and, not_and_or, not_forall, not_not]
    have hcipher : ∀ route : Route, (∀ agentDid name, route ≠ .purpose agentDid name) →
        (p.ReadyFor lib env key ↔ p.volume.Loads lib.release ∧
          ((∃ agentDid name, route = .purpose agentDid name) ∨ p.volume.blocked ≠ some .dangling ∨
            ∃ other, p.volume.publication = .failed other)) := by
      intro route hroute
      have hno : ¬ ∃ agentDid name, route = .purpose agentDid name := by
        rintro ⟨agentDid, name, h⟩
        exact hroute agentDid name h
      rw [hready, Process.Ready, hsalt, hclear, or_iff_right hno]
    cases route with
    | fernet aad => exact hcipher _ (by simp)
    | agentFernet agentId aad => exact hcipher _ (by simp)
    | purpose agentDid name =>
      exact (hsaltFor.trans hsalt).trans (and_iff_left (.inl ⟨agentDid, name, rfl⟩)).symm

/-- A write beside a key file has a salt. -/
theorem Process.Secured.salted {s : Option Salt} (hsecured : q.Secured lib.release env s)
    (hfile : env.keyFile.isSome = true) (hs : q.salt lib.release env = .ok s) :
    ∃ t, s = some t ∧ (explicitSalt lib.release env = some (.ok t) ∨
      explicitSalt lib.release env = none ∧ t ∈ q.durable) := by
  cases hexp : explicitSalt lib.release env with
  | some r =>
    simp only [Process.salt, readPassphraseSalt, hexp] at hs
    cases r with
    | ok t =>
      cases hs
      exact ⟨t, rfl, .inl rfl⟩
    | error e => cases hs
  | none =>
    obtain ⟨t, ht, rfl⟩ := hsecured hexp hfile
    exact ⟨t, rfl, .inr ⟨rfl, ht⟩⟩

end Legible

/-- A legacy ciphertext is read, and a write takes the salted key of a valid salt, of the environment
or noted as durable, never the legacy key. -/
structure LegacyRead (lib : KeyLib) (env : Environment) (key : Str) (p : Process) (route : Route)
    (t : Text) (data : Bytes) : Prop where
  read : (route.read lib env t p).1 = .ok data
  write : ∀ plaintext nonce token q, route.write lib env plaintext nonce p = (.ok token, q) →
    ∃ s keys, q.salt lib.release env = .ok (some s) ∧
      (explicitSalt lib.release env = some (.ok s) ∨
        explicitSalt lib.release env = none ∧ s ∈ q.durable) ∧
      route.ring lib key (some s) = some keys ∧
      (AEADCipher.of keys.newest).encrypt lib.toCrypto plaintext nonce route.aad = some token

/-- Beside a key file with a passphrase, a ciphertext that the legacy key of a route opens, and that no
key opens to another plaintext, is read exactly where the salts are legible. -/
theorem legacy_reads_iff {lib : KeyLib} {used : Set Bytes} {env : Environment} {key : Str}
    {p : Process} (hkey : usableDataKey env = .ok (some key)) (hfile : env.keyFile.isSome = true)
    (hraw : isFernetKey lib.release key = false) (hinj : Set.InjOn lib.sha256 used)
    (hused : ∀ b, encodeUtf8 key = some b → b ∈ used) (hc : CacheSound lib used p.cache)
    (route : Route) (t : Text) (data : Bytes) {legacy : ReadKeys Key}
    (hlegacy : route.ring lib key none = some legacy)
    (hopen : (AEADCipher.of legacy.newest).decrypt lib.toCrypto t route.aad = .ok data)
    (hsole : ∀ (c : AEADCipher) x, c.decrypt lib.toCrypto t route.aad = .ok x → x = data) :
    LegacyRead lib env key p route t data ↔ route.Legible lib env p := by
  obtain ⟨q, r, hrun, _, hreads, hfound⟩ := route.read_unlocked hkey hinj hused hc t
  rw [← route.finds_iff hfile hraw]
  constructor
  · rintro ⟨hread, _⟩
    rw [hrun] at hread
    exact hfound data hread
  · intro hfinds
    refine ⟨?_, ?_⟩
    · obtain ⟨s, hs⟩ : ∃ s, p.saltFor lib env key = .ok s := by
        cases route with
        | purpose agentDid name => exact hfinds
        | fernet aad =>
          obtain hyes | ⟨⟨s, hs⟩, _⟩ := hfinds
          · exact ⟨none, saltFor_raw hyes p⟩
          · exact ⟨s, (saltFor_passphrase env hraw p).trans hs⟩
        | agentFernet agentId aad =>
          obtain hyes | ⟨⟨s, hs⟩, _⟩ := hfinds
          · exact ⟨none, saltFor_raw hyes p⟩
          · exact ⟨s, (saltFor_passphrase env hraw p).trans hs⟩
      obtain ⟨keys, hkeys, hwithin⟩ := route.ring_grows s hlegacy
      rw [hrun]
      exact hreads hfinds s keys hs hkeys legacy.newest (hwithin _ List.mem_cons_self) data
        (unlocks_of_sole hopen hsole)
    · intro plaintext nonce token q' hwrite
      obtain ⟨q'', r', hrun', _, hwrote⟩ :=
        Route.write_spec (p := p) hkey hinj hused hc plaintext nonce route
      rw [hwrite] at hrun'
      cases hrun'
      obtain ⟨_, s, keys, hs, hsecured, hkeys, henc⟩ := hwrote token rfl
      rw [saltFor_passphrase env hraw] at hs
      obtain hyes | hsecured := hsecured
      · rw [hraw] at hyes
        cases hyes
      · obtain ⟨t', rfl, hdurable⟩ := hsecured.salted hfile hs
        exact ⟨t', keys, hs, hdurable, hkeys, henc⟩

/-- A passphrase in a key file. -/
def pinnedEnv : Environment := { keyFile := some (some ((str "pass").map UInt8.ofNat)) }

/-- A process that sees a sibling salt. -/
def siblingProcess (salt : Option Bytes) (blocked : Option Blocked) : Process :=
  { volume := ⟨salt, .failed none, false, blocked⟩ }

theorem legacy_token_opens :
    (AEADCipher.of ⟨Store.passSealed.key, rfl⟩).decrypt Store.passLib.toCrypto
      (.bytes (tokenOf Store.passSealed.frame)) none = .ok [] ∧
    ∀ (c : AEADCipher) x,
      c.decrypt Store.passLib.toCrypto (.bytes (tokenOf Store.passSealed.frame)) none = .ok x →
      x = [] := by
  have hideal : Ideal Store.passLib.toCrypto [Store.passSealed] := soleCrypto_ideal ⟨true⟩ rfl rfl
  have hmade := @Ideal.decrypt_made _ _ hideal _ (List.mem_singleton_self _) (.bytes _) rfl none rfl
  constructor
  · obtain ⟨_, h⟩ | ⟨hno, _⟩ := hmade (AEADCipher.of ⟨Store.passSealed.key, rfl⟩)
    · exact h
    · exact absurd rfl hno
  · intro c x hx
    obtain ⟨_, h⟩ | ⟨_, e, h, _⟩ := hmade c
    · rw [h] at hx
      cases hx
      rfl
    · rw [h] at hx
      cases hx

/-- Without a sibling salt the legacy ciphertext is read. -/
theorem legacy_read_absent :
    LegacyRead Store.passLib pinnedEnv (str "pass") (siblingProcess none none) (.fernet none)
      (.bytes (tokenOf Store.passSealed.frame)) [] := by
  have hinj : Set.InjOn Store.passLib.sha256 {b | encodeUtf8 (str "pass") = some b} := by
    intro b hb c hc _
    rw [Set.mem_ofPred_eq] at hb hc
    exact Option.some.inj (hb.symm.trans hc)
  apply (legacy_reads_iff rfl rfl rfl hinj
    (fun b hb => hb) (by simp [CacheSound, siblingProcess]) (.fernet none) _ [] rfl
    legacy_token_opens.1 legacy_token_opens.2).2
  exact ⟨by simp [Volume.Loads, siblingProcess], .inr (.inl (by simp [siblingProcess]))⟩

/-- A malformed sibling salt makes the reads of the legacy ciphertext raise. -/
theorem malformed_salt_raises :
    (Route.fernet none).ring Store.passLib (str "pass") none =
      some ⟨⟨Store.passSealed.key, rfl⟩, []⟩ ∧
    (AEADCipher.of ⟨Store.passSealed.key, rfl⟩).decrypt Store.passLib.toCrypto
      (.bytes (tokenOf Store.passSealed.frame)) none = .ok [] ∧
    ((Route.fernet none).read Store.passLib pinnedEnv (.bytes (tokenOf Store.passSealed.frame))
      (siblingProcess (some [103]) none)).1 = .error .salt ∧
    (decrypt Store.passLib pinnedEnv (str "agent") (str "wallet")
      (.bytes (tokenOf Store.passSealed.frame)) (siblingProcess (some [103]) none)).1 =
        .error .salt :=
  ⟨rfl, legacy_token_opens.1, rfl, rfl⟩

end KestrelSdk.Security
